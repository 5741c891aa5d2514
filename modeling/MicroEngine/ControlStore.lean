import MicroEngine.Registers
/-!
# The control store

Each micro-engine owns 2048 microwords in two banks of 1024.

* `ControlStore`: the microwords, `read` and `write` by micro address.
* `ControlStore.ofList`: a store from a complete image.
* `ControlStore.populated`: the entries that are not zero, with their addresses.
-/

namespace MicroEngine

/-- The control store of a unit. -/
structure ControlStore where
  words : Vector Microword 2048
  deriving DecidableEq

/-- Why an image does not fill a control store. -/
inductive ImageSizeError
  /-- The image has another number of entries than the store. -/
  | entries (found : Nat)
  deriving DecidableEq, Repr

def ImageSizeError.message : ImageSizeError → String
  | .entries found => "microcode image has " ++ Text.decimal found ++ " entries, expected 2048"

namespace ControlStore

/-- The store of zero microwords. -/
def empty : ControlStore := ⟨Vector.replicate 2048 .nop⟩

/-- The place of a micro address, of which the low 11 bits count. -/
def slot (a : Address) : Fin 2048 := Fin.ofNat 2048 a.toNat

def read (r : ControlStore) (a : Address) : Microword := r.words.get (slot a)

def write (r : ControlStore) (a : Address) (w : Microword) : ControlStore :=
  ⟨r.words.set (slot a) w (slot a).isLt⟩

/-- The store with several microwords written, the later ones last. -/
def writeAll (r : ControlStore) (entries : List (Address × Microword)) : ControlStore :=
  entries.foldl (fun r e => r.write e.1 e.2) r

/-- The store that holds an image, which has to be complete. -/
def ofList (image : List Microword) : Except ImageSizeError ControlStore :=
  if h : image.length = 2048 then .ok ⟨⟨image.toArray, h⟩⟩ else .error (.entries image.length)

/-- All entries in the order of their addresses. -/
def toList (r : ControlStore) : List Microword := r.words.toList

/-- The entries that are not zero, with their addresses, in ascending order. -/
def populated (r : ControlStore) : List (Nat × Microword) :=
  r.words.toList.zipIdx.filterMap fun (w, i) => if w.isNop then none else some (i, w)

/-- The number of populated entries under the name of the type. -/
def debugText (r : ControlStore) : String :=
  "ControlStore(" ++ Text.decimal r.populated.length ++ " populated)"

/-- Every entry has components of 30 bits. -/
def WellFormed (r : ControlStore) : Prop :=
  ∀ w ∈ r.words, ∀ v ∈ w.components, v.toNat < 0o10000000000

/-! ## Reading what was written -/

theorem read_eq_getElem (r : ControlStore) (a : Address) : r.read a = r.words[slot a] := rfl

@[simp] theorem read_empty (a : Address) : empty.read a = .nop := by
  simp [read_eq_getElem, empty]

/-- An address reads the last microword that was written to its place. -/
theorem read_write (r : ControlStore) (a b : Address) (w : Microword) :
    (r.write a w).read b = if slot a = slot b then w else r.read b := by
  simp only [read_eq_getElem, write, Fin.getElem_fin, Vector.getElem_set, Fin.val_inj]

@[simp] theorem length_toList (r : ControlStore) : r.toList.length = 2048 := by
  simp [toList]

/-- Two stores that read the same at every address are equal. -/
theorem ext_read {r s : ControlStore} (h : ∀ a, r.read a = s.read a) : r = s := by
  obtain ⟨r⟩ := r
  obtain ⟨s⟩ := s
  congr 1
  ext i hi
  all_goals
    have hslot : (slot i.toUInt16).val = i := by
      simp only [slot, Fin.val_ofNat, Nat.toUInt16, UInt16.toNat_ofNat']
      omega
    have := h i.toUInt16
    simp only [read_eq_getElem, Fin.getElem_fin, hslot] at this
    simp [this]

end ControlStore

end MicroEngine
