import MicroEngine.Microword.Disassembly
import MicroEngine.Proofs.Image.Assignment
import MicroEngine.Proofs.Microword.Layout
/-!
# Listings tell microwords apart

A listing leaves out what is zero, and which zero fields it shows hangs on other parts of the
microword. Still it tells every field and every flag: its text falls into the texts of its clauses,
each of which tells its clause, and the clauses name the fields that are not zero and the flags that
are set.

* `Clause.mem_text`: the characters of a clause. `Clause.text_injective`: its text tells it.
* `Text.eq_of_intercalate_eq`: parts that are told from the text that joins them.
* `mem_clauses_of_field`, `field_of_mem_clauses`, `flag_mem_clauses_iff`: what the clauses say.
* **`disassemble_eq_iff`**: different microwords have different listings.
-/

namespace MicroEngine

/-! ## Texts that can be cut apart -/

namespace Text

/-- A text is cut at the first place of a character in one way. -/
theorem append_cons_inj {c : Char} {a b rest rest' : List Char} (ha : c ∉ a) (hb : c ∉ b)
    (h : a ++ c :: rest = b ++ c :: rest') : a = b ∧ rest = rest' := by
  have hleft : splitAt? c (a ++ c :: rest) = some (a, rest) := splitAt?_eq_some_iff.mpr ⟨rfl, ha⟩
  have hright := splitAt?_eq_some_iff.mpr ⟨h, hb⟩
  rw [hleft] at hright
  simpa using hright

theorem toDigits_injective {n m : Nat} (h : Nat.toDigits 8 n = Nat.toDigits 8 m) : n = m := by
  have hvalue (k : Nat) : Nat.ofDigitChars 8 (Nat.toDigits 8 k) 0 = k :=
    Nat.ofDigitChars_toDigits (by decide) (by decide)
  rw [← hvalue n, h, hvalue]

theorem intercalate_cons (sep l : List Char) (ls : List (List Char)) :
    sep.intercalate (l :: ls) = l ++ ls.flatMap (sep ++ ·) := by
  induction ls generalizing l with
  | nil => simp
  | cons m ls ih =>
    rw [List.intercalate_cons_of_ne_nil (by simp), ih, List.flatMap_cons, List.append_assoc,
      List.append_assoc]

section Joined

variable {c : Char} {sep : List Char}

/-- A first part without the separator's first character ends where the separator starts. -/
theorem eq_of_append_flatMap_eq {ls ls' : List (List Char)} {l l' : List Char}
    (hls : ∀ m ∈ l :: ls, c ∉ m) (hls' : ∀ m ∈ l' :: ls', c ∉ m)
    (h : l ++ ls.flatMap (fun m => c :: (sep ++ m)) =
      l' ++ ls'.flatMap fun m => c :: (sep ++ m)) :
    l = l' ∧ ls = ls' := by
  induction ls generalizing l l' ls' with
  | nil =>
    cases ls' with
    | nil => simpa using h
    | cons m' ls' =>
      rw [List.flatMap_nil, List.append_nil] at h
      exact absurd (h ▸ by simp) (hls l List.mem_cons_self)
  | cons m ls ih =>
    cases ls' with
    | nil =>
      rw [List.flatMap_nil, List.append_nil] at h
      exact absurd (h ▸ by simp) (hls' l' List.mem_cons_self)
    | cons m' ls' =>
      obtain ⟨hl, htail⟩ := List.forall_mem_cons.mp hls
      obtain ⟨hl', htail'⟩ := List.forall_mem_cons.mp hls'
      simp only [List.flatMap_cons, List.cons_append, List.append_assoc] at h
      obtain ⟨hfirst, hrest⟩ := append_cons_inj hl hl' h
      obtain ⟨rfl, rfl⟩ := ih htail htail' (List.append_cancel_left hrest)
      exact ⟨hfirst, rfl⟩

/-- **A joined text tells its parts**, if none of them is empty or has the first character of the
separator in it. -/
theorem eq_of_intercalate_eq {ls ls' : List (List Char)} (hls : ∀ l ∈ ls, l ≠ [] ∧ c ∉ l)
    (hls' : ∀ l ∈ ls', l ≠ [] ∧ c ∉ l)
    (h : (c :: sep).intercalate ls = (c :: sep).intercalate ls') : ls = ls' := by
  cases ls with
  | nil =>
    cases ls' with
    | nil => rfl
    | cons l' ls' =>
      rw [intercalate_cons, List.intercalate_nil, List.nil_eq_append_iff] at h
      exact absurd h.1 (hls' l' List.mem_cons_self).1
  | cons l ls =>
    cases ls' with
    | nil =>
      rw [intercalate_cons, List.intercalate_nil, List.append_eq_nil_iff] at h
      exact absurd h.1 (hls l List.mem_cons_self).1
    | cons l' ls' =>
      rw [intercalate_cons, intercalate_cons] at h
      obtain ⟨rfl, rfl⟩ := eq_of_append_flatMap_eq (fun m hm => (hls m hm).2)
        (fun m hm => (hls' m hm).2) h
      rfl

end Joined

end Text

/-! ## Clauses and their texts -/

theorem Field.isAlphanum_of_mem_mnemonic (f : Field) :
    ∀ c ∈ f.mnemonic.toList, c.isAlphanum = true := by
  have hall : f.mnemonic.toList.all Char.isAlphanum = true := by cases f <;> decide
  exact List.all_eq_true.mp hall

theorem Flag.isAlphanum_of_mem_mnemonic (g : Flag) :
    ∀ c ∈ g.mnemonic.toList, c.isAlphanum = true := by
  have hall : g.mnemonic.toList.all Char.isAlphanum = true := by cases g <;> decide
  exact List.all_eq_true.mp hall

theorem Field.mnemonic_injective {f g : Field} (h : f.mnemonic = g.mnemonic) : f = g := by
  cases f <;> cases g <;> first | rfl | exact absurd h (by decide)

theorem Flag.ofMnemonic?_mnemonic (g : Flag) : ofMnemonic? g.mnemonic = some g := by
  cases g <;> decide

namespace Clause

theorem toList_text_field (f : Field) (v : UInt32) :
    (field f v).text.toList =
      '.' :: (f.mnemonic.toList ++ ' ' :: '=' :: ' ' :: Nat.toDigits 8 v.toNat) := by
  simp [text, Text.octal]

theorem toList_text_flag (g : Flag) : (flag g).text.toList = '.' :: g.mnemonic.toList := by
  simp [text]

/-- The characters of a clause. -/
theorem mem_text {cl : Clause} {c : Char} (h : c ∈ cl.text.toList) :
    c.isAlphanum = true ∨ c ∈ ['.', ' ', '='] := by
  cases cl with
  | field f v =>
    rw [toList_text_field] at h
    simp only [List.mem_cons, List.mem_append] at h
    rcases h with rfl | h | rfl | rfl | rfl | h
    case inr.inl => exact .inl (f.isAlphanum_of_mem_mnemonic c h)
    case inr.inr.inr.inr.inr =>
      have hdigit := Nat.isDigit_of_mem_toDigits (by decide) (by decide) h
      exact .inl (by rw [Char.isAlphanum, hdigit, Bool.or_true])
    all_goals exact .inr (by decide)
  | flag g =>
    rw [toList_text_flag, List.mem_cons] at h
    rcases h with rfl | h
    · exact .inr (by decide)
    · exact .inl (g.isAlphanum_of_mem_mnemonic c h)

theorem text_ne_nil (cl : Clause) : cl.text.toList ≠ [] := by
  cases cl with
  | field f v => simp [toList_text_field]
  | flag g => simp [toList_text_flag]

/-- A blank stands in the clause of a field, between the name and the value, and in no name. -/
theorem blank_not_mem {name : List Char} (h : ∀ c ∈ name, c.isAlphanum = true) : ' ' ∉ name :=
  fun hc => absurd (h ' ' hc) (by decide)

/-- **The text of a clause tells the clause.** -/
theorem text_injective {cl cl' : Clause} (h : cl.text = cl'.text) : cl = cl' := by
  have hlist : cl.text.toList = cl'.text.toList := by rw [h]
  have hfield (f : Field) := blank_not_mem f.isAlphanum_of_mem_mnemonic
  have hflag (g : Flag) := blank_not_mem g.isAlphanum_of_mem_mnemonic
  cases cl with
  | field f v =>
    rw [toList_text_field] at hlist
    cases cl' with
    | field g u =>
      rw [toList_text_field, List.cons.injEq] at hlist
      obtain ⟨hname, hrest⟩ := Text.append_cons_inj (hfield f) (hfield g) hlist.2
      obtain rfl := Field.mnemonic_injective (String.toList_inj.mp hname)
      have hdigits : Nat.toDigits 8 v.toNat = Nat.toDigits 8 u.toNat := by simpa using hrest
      obtain rfl := UInt32.toNat_inj.mp (Text.toDigits_injective hdigits)
      rfl
    | flag g =>
      rw [toList_text_flag, List.cons.injEq] at hlist
      exact absurd (hlist.2 ▸ by simp) (hflag g)
  | flag f =>
    rw [toList_text_flag] at hlist
    cases cl' with
    | field g u =>
      rw [toList_text_field, List.cons.injEq] at hlist
      exact absurd (hlist.2 ▸ by simp) (hflag f)
    | flag g =>
      rw [toList_text_flag, List.cons.injEq] at hlist
      have hname : f.mnemonic = g.mnemonic := String.toList_inj.mp hlist.2
      have hsome : some f = some g := by
        rw [← f.ofMnemonic?_mnemonic, hname, g.ofMnemonic?_mnemonic]
      rw [Option.some.inj hsome]

end Clause

/-! ## What the clauses say -/

namespace Microword

theorem eq_nop_of_isNop {w : Microword} (h : w.isNop = true) : w = nop := by
  obtain ⟨a, b, c⟩ := w
  simp only [isNop, Bool.and_eq_true, beq_iff_eq] at h
  obtain ⟨⟨rfl, rfl⟩, rfl⟩ := h
  rfl

theorem field_nop (f : Field) : nop.field f = 0 := by cases f <;> rfl

theorem mem_fieldClause_iff {w : Microword} {f : Field} {cl : Clause} :
    cl ∈ w.fieldClause f ↔ (w.field f ≠ 0 ∨ w.uses f = true) ∧ cl = .field f (w.field f) := by
  have hlisted : (w.field f != 0 || w.uses f) = true ↔ w.field f ≠ 0 ∨ w.uses f = true := by simp
  unfold fieldClause
  by_cases h : w.field f ≠ 0 ∨ w.uses f = true
  · rw [if_pos (hlisted.mpr h), List.mem_singleton, and_iff_right h]
  · rw [if_neg (mt hlisted.mp h), iff_false_left List.not_mem_nil]
    exact fun hcl => h hcl.1

/-- The clauses of a microword that is not zero: those of its fields that are listed, and those of its
flags. -/
theorem mem_clauses_iff {w : Microword} (h : w.isNop = false) {cl : Clause} :
    cl ∈ w.clauses ↔
      (∃ f, (w.field f ≠ 0 ∨ w.uses f = true) ∧ cl = .field f (w.field f)) ∨
        ∃ g, w.has g = true ∧ cl = .flag g := by
  have hfields (f : Field) : f ∈ [Field.condition, .sequence, .target, .constant] ∨
      f ∈ [Field.scratchpad, .special, .readRegister, .loadRegister, .leftBox, .rightBox] := by
    cases f <;> decide
  rw [clauses, if_neg (by rw [h]; decide)]
  simp only [List.mem_append, List.mem_flatMap, List.mem_map, mem_fieldClause_iff, flags,
    List.mem_filter]
  constructor
  · rintro ((⟨f, -, hf⟩ | ⟨g, ⟨-, hg⟩, rfl⟩) | ⟨f, -, hf⟩)
    · exact .inl ⟨f, hf⟩
    · exact .inr ⟨g, hg, rfl⟩
    · exact .inl ⟨f, hf⟩
  · rintro (⟨f, hf⟩ | ⟨g, hg, rfl⟩)
    · rcases hfields f with hmem | hmem
      · exact .inl (.inl ⟨f, hmem, hf⟩)
      · exact .inr ⟨f, hmem, hf⟩
    · exact .inl (.inr ⟨g, ⟨g.mem_all, hg⟩, rfl⟩)

/-- The value that a clause gives is that of the field. -/
theorem field_of_mem_clauses {w : Microword} {f : Field} {v : UInt32}
    (h : .field f v ∈ w.clauses) : w.field f = v := by
  cases hnop : w.isNop with
  | true =>
    rw [clauses, if_pos hnop, List.mem_singleton, Clause.field.injEq] at h
    rw [eq_nop_of_isNop hnop, field_nop, h.2]
  | false =>
    rcases (mem_clauses_iff hnop).mp h with ⟨g, -, hg⟩ | ⟨g, -, hg⟩
    · cases hg
      rfl
    · cases hg

/-- A field that is not zero is listed. -/
theorem mem_clauses_of_field {w : Microword} {f : Field} (h : w.field f ≠ 0) :
    .field f (w.field f) ∈ w.clauses := by
  cases hnop : w.isNop with
  | true => exact absurd (by rw [eq_nop_of_isNop hnop, field_nop]) h
  | false => exact (mem_clauses_iff hnop).mpr (.inl ⟨f, .inl h, rfl⟩)

/-- The flags that are listed are those that are set. -/
theorem flag_mem_clauses_iff {w : Microword} {g : Flag} :
    .flag g ∈ w.clauses ↔ w.has g = true := by
  cases hnop : w.isNop with
  | true =>
    rw [clauses, if_pos hnop, eq_nop_of_isNop hnop, has, bit_nop]
    simp
  | false =>
    rw [mem_clauses_iff hnop]
    simp

/-- **The clauses tell every field and every flag.** -/
theorem eq_of_clauses_eq {v w : Microword} (hv : v.Fits) (hw : w.Fits)
    (h : v.clauses = w.clauses) : v = w := by
  refine ext_parts hv hw (fun f => ?_) fun g => ?_
  · by_cases hzero : w.field f = 0
    · by_contra hne
      have hlisted := mem_clauses_of_field (w := v) (f := f) (by rwa [hzero] at hne)
      rw [h] at hlisted
      exact hne (field_of_mem_clauses hlisted).symm
    · have hlisted := mem_clauses_of_field hzero
      rw [← h] at hlisted
      exact field_of_mem_clauses hlisted
  · rw [Bool.eq_iff_iff, ← flag_mem_clauses_iff, h, flag_mem_clauses_iff]

/-- **Disassembly loses nothing.** Two microwords of 30 bits in each component have the same listing
only if they are equal. -/
theorem disassemble_eq_iff {v w : Microword} (hv : v.Fits) (hw : w.Fits) :
    v.disassemble = w.disassemble ↔ v = w := by
  refine ⟨fun h => eq_of_clauses_eq hv hw ?_, fun h => by rw [h]⟩
  have hjoined : ", ".toList.intercalate ((v.clauses.map Clause.text).map String.toList) =
      ", ".toList.intercalate ((w.clauses.map Clause.text).map String.toList) := by
    rw [← String.toList_intercalate, ← String.toList_intercalate]
    exact congrArg String.toList h
  have hparts (u : Microword) : ∀ l ∈ (u.clauses.map Clause.text).map String.toList,
      l ≠ [] ∧ ',' ∉ l := by
    intro l hl
    rw [List.map_map, List.mem_map] at hl
    obtain ⟨cl, -, rfl⟩ := hl
    exact ⟨cl.text_ne_nil, fun hc => absurd (Clause.mem_text hc) (by decide)⟩
  have htexts := Text.eq_of_intercalate_eq (hparts v) (hparts w) hjoined
  rw [List.map_map, List.map_map] at htexts
  refine List.map_injective_iff.mpr (fun cl cl' hcl => ?_) htexts
  exact Clause.text_injective (String.toList_inj.mp hcl)

/-- A target and a left box of the same value, whose names start alike. -/
theorem disassemble_ne_of_same_value :
    let v := ofBits [17]
    let w := ofBits [81]
    v.Fits ∧ w.Fits ∧ v.field .target = w.field .leftBox ∧ v.disassemble ≠ w.disassemble := by
  intro v w
  refine ⟨fits_ofBits _, fits_ofBits _, by decide, fun h => ?_⟩
  have heq : v = w := (disassemble_eq_iff (fits_ofBits _) (fits_ofBits _)).mp h
  exact absurd heq (by decide)

end Microword

end MicroEngine
