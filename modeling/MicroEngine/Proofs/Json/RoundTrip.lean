import MicroEngine.Json.Decode
import MicroEngine.Json.Reader
import MicroEngine.Proofs.Json.Scan
import MicroEngine.Proofs.Keys
/-!
# Printing a value and reading it back

* `foldlM_toTokens`: the tokens of a value are read as the value.
* **`parse?_render`**: a printed value is read back.
* `fields?_record`, `list?_array`, `nullable?_getD`: parts of values that are read back.
-/

namespace MicroEngine.Json

variable {ts : List Token} {stack : List Frame}

/-! ## The reader -/

theorem foldlM_step_cons {r r' : Reader} {t : Token} (h : r.step t = some r') :
    (t :: ts).foldlM Reader.step r = ts.foldlM Reader.step r' := by
  rw [List.foldlM_cons, h]
  rfl

/-- The first item of an array is read like any value. -/
theorem foldlM_firstItem (j : Json) :
    (toTokens j ++ ts).foldlM Reader.step (.firstItem stack) =
      (toTokens j ++ ts).foldlM Reader.step (.value (.array [] :: stack)) := by
  match j with
  | .null => rfl
  | .bool _ => rfl
  | .number _ => rfl
  | .string _ => rfl
  | .array [] => rfl
  | .array (_ :: _) => rfl
  | .object [] => rfl
  | .object ((_, _) :: _) => rfl

mutual

/-- **The tokens of a value are read as the value**, which goes into the innermost container. -/
theorem foldlM_toTokens : ∀ (j : Json) (ts : List Token) (stack : List Frame),
    (toTokens j ++ ts).foldlM Reader.step (.value stack) =
      ts.foldlM Reader.step (Reader.deliver j stack)
  | .null, _, _ => rfl
  | .bool _, _, _ => rfl
  | .number _, _, _ => rfl
  | .string _, _, _ => rfl
  | .array [], _, _ => rfl
  | .object [], _, _ => rfl
  | .array (j :: js), ts, stack => by
    have hopen : Reader.step (.value stack) .openArray = some (.firstItem stack) := rfl
    rw [toTokens, List.cons_append, foldlM_step_cons hopen, List.append_assoc, foldlM_firstItem,
      foldlM_toTokens j, Reader.deliver, List.append_assoc]
    exact foldlM_itemTokens js ts [j] stack
  | .object ((k, j) :: ms), ts, stack => by
    have hopen : Reader.step (.value stack) .openObject = some (.firstKey stack) := rfl
    have hkey : Reader.step (.firstKey stack) (.string k) = some (.colon [] k stack) := rfl
    have hcolon : Reader.step (.colon [] k stack) .colon =
        some (.value (.object [] k :: stack)) := rfl
    rw [toTokens, List.cons_append, foldlM_step_cons hopen, List.cons_append,
      foldlM_step_cons hkey, List.cons_append, foldlM_step_cons hcolon, List.append_assoc,
      foldlM_toTokens j, Reader.deliver, List.append_assoc]
    exact foldlM_memberTokens ms ts [(k, j)] stack

theorem foldlM_itemTokens : ∀ (js : List Json) (ts : List Token) (items : List Json)
    (stack : List Frame),
    (itemTokens js ++ .closeArray :: ts).foldlM Reader.step (.afterItem items stack) =
      ts.foldlM Reader.step (Reader.deliver (.array (items.reverse ++ js)) stack)
  | [], _, items, _ => by
    rw [itemTokens, List.append_nil]
    rfl
  | j :: js, ts, items, stack => by
    have hcomma : Reader.step (.afterItem items stack) .comma =
        some (.value (.array items :: stack)) := rfl
    rw [itemTokens, List.cons_append, foldlM_step_cons hcomma, List.append_assoc,
      foldlM_toTokens j, Reader.deliver, foldlM_itemTokens js, List.reverse_cons,
      List.append_assoc]
    rfl

theorem foldlM_memberTokens : ∀ (ms : List (Option String × Json)) (ts : List Token)
    (members : List (Option String × Json)) (stack : List Frame),
    (memberTokens ms ++ .closeObject :: ts).foldlM Reader.step (.afterMember members stack) =
      ts.foldlM Reader.step (Reader.deliver (.object (members.reverse ++ ms)) stack)
  | [], _, members, _ => by
    rw [memberTokens, List.append_nil]
    rfl
  | (k, j) :: ms, ts, members, stack => by
    have hcomma : Reader.step (.afterMember members stack) .comma = some (.key members stack) := rfl
    have hkey : Reader.step (.key members stack) (.string k) = some (.colon members k stack) := rfl
    have hcolon : Reader.step (.colon members k stack) .colon =
        some (.value (.object members k :: stack)) := rfl
    rw [memberTokens, List.cons_append, foldlM_step_cons hcomma, List.cons_append,
      foldlM_step_cons hkey, List.cons_append, foldlM_step_cons hcolon, List.append_assoc,
      foldlM_toTokens j, Reader.deliver, foldlM_memberTokens ms, List.reverse_cons,
      List.append_assoc]
    rfl

end

theorem ofTokens?_toTokens (j : Json) : ofTokens? (toTokens j) = some j := by
  have h := foldlM_toTokens j [] []
  rw [List.append_nil] at h
  rw [ofTokens?, h]
  rfl

/-- **A printed value is read back**, in every layout of blanks. -/
theorem parse?_render {l : Layout} (hl : l.Blank) (depth : Nat) (j : Json) :
    parse? (render l depth j) = some j := by
  rw [parse?, tokens?_render hl, Option.bind_some, ofTokens?_toTokens]

theorem parse?_pretty (j : Json) : parse? j.pretty = some j :=
  parse?_render Layout.blank_pretty 0 j

/-! ## Parts of values -/

section Parts

variable {α β : Type}

/-- Items that are read back one by one. -/
theorem mapM_map_of_read (write : α → β) (read : β → Option α)
    (h : ∀ a, read (write a) = some a) (as : List α) : (as.map write).mapM read = some as := by
  induction as with
  | nil => rfl
  | cons a as ih => simp [h a, ih]

theorem list?_array (write : α → Json) (read : Json → Option α)
    (h : ∀ a, read (write a) = some a) (as : List α) :
    list? read (.array (as.map write)) = some as :=
  mapM_map_of_read write read h as

theorem properMembers?_record (members : List (String × Json)) :
    properMembers? (members.map fun m => (some m.1, m.2)) = some members :=
  mapM_map_of_read (fun m : String × Json => (some m.1, m.2))
    (fun m : Option String × Json => m.1.map fun k => (k, m.2)) (fun _ => rfl) members

/-- **The fields of a record are read back**, if no two of them have the same name. -/
theorem fields?_record (members : List (String × Json)) (h : (members.map Prod.fst).Nodup) :
    fields? (members.map Prod.fst) (.record members) = some (members.map fun m => some m.2) := by
  have hsingle : areSingle (members.map Prod.fst) members = true := by
    simp only [areSingle, List.all_eq_true, decide_eq_true_eq]
    exact fun name _ => length_filter_key_le_one h name
  have hfind : ∀ m ∈ members, (members.find? fun d => d.1 == m.1) = some m :=
    fun m hm => (find?_key_eq_some_iff h).mpr ⟨hm, rfl⟩
  simp only [fields?, record, properMembers?_record, Option.bind_eq_bind, Option.bind_some, hsingle,
    if_true, List.map_map, Option.some.injEq, List.map_inj_left]
  intro m hm
  simp [hfind m hm]

/-- **A value that may be left out is read back**, if null does not stand for a value. -/
theorem nullable?_getD (write : α → Json) (read : Json → Option α) (hnull : read .null = none)
    (h : ∀ a, read (write a) = some a) (a : Option α) :
    nullable? read ((a.map write).getD .null) = some a := by
  cases a with
  | none => rfl
  | some a =>
    have hread : nullable? read (write a) = (read (write a)).map some := by
      unfold nullable?
      split
      · next hw =>
        rw [← hw, h a] at hnull
        cases hnull
      · rfl
    rw [Option.map_some, Option.getD_some, hread, h]
    rfl

theorem natBelow?_nat {bound n : Nat} (h : n < bound) : natBelow? bound (.nat n) = some n :=
  if_pos h

/-- **A name is read back**, if all names are different. -/
theorem choice?_text {all : List α} {name : α → String} (h : (all.map name).Nodup)
    {a : α} (ha : a ∈ all) : choice? all name (.text (name a)) = some a :=
  (find?_key_eq_some_iff h).mpr ⟨ha, rfl⟩

end Parts

end MicroEngine.Json
