import MicroEngine.Image.Assignment
import MicroEngine.Proofs.Text.Lines
/-!
# Reading an assignment

* `octalValue_octalPad`, `readOctal_of_digits`: numerals of octal digits.
* `splitAt?_eq_some_iff`, `afterMark?_eq_some_iff`, `parts_eq_ok_iff`, `read_eq_ok_iff`: what each
  step of the reader takes.
* `InRange`, `inRange_of_read`: what is read lies within the store.
* `not_read_slash`: no assignment ends in a slash.
* **`read_text`**: an assignment is read back from its text.
-/

namespace MicroEngine

open Text

/-! ## Octal digits -/

theorem isOctalDigit_digitChar : ∀ d < 8, isOctalDigit (Nat.digitChar d) = true := by decide

theorem isOctalDigit_of_mem_toDigits (n : Nat) : ∀ c ∈ Nat.toDigits 8 n, isOctalDigit c = true := by
  induction n using Nat.strongRecOn with
  | ind n ih =>
    by_cases hn : n < 8
    · rw [Nat.toDigits_of_lt_base hn]
      intro c hc
      rw [List.mem_singleton.mp hc]
      exact isOctalDigit_digitChar n hn
    · have hdiv : n / 8 < n := by omega
      have hsplit := Nat.toDigits_append_toDigits (b := 8) (n := n / 8) (d := n % 8) (by decide)
        (by omega) (by omega)
      rw [Nat.div_add_mod n 8] at hsplit
      rw [← hsplit]
      intro c hc
      rcases List.mem_append.mp hc with hc | hc
      · exact ih (n / 8) hdiv c hc
      · exact ih (n % 8) (by omega) c hc

theorem toList_octalPad (w n : Nat) :
    (octalPad w n).toList = List.replicate (w - (Nat.toDigits 8 n).length) '0' ++
      Nat.toDigits 8 n := by
  rw [octalPad, String.toList_ofList]
  rfl

theorem isOctalDigit_of_mem_octalPad {w n : Nat} {c : Char} (h : c ∈ (octalPad w n).toList) :
    isOctalDigit c = true := by
  rw [toList_octalPad] at h
  rcases List.mem_append.mp h with h | h
  · rw [List.eq_of_mem_replicate h]
    decide
  · exact isOctalDigit_of_mem_toDigits n c h

theorem octalPad_ne_nil (w n : Nat) : (octalPad w n).toList ≠ [] := by
  rw [toList_octalPad]
  exact List.append_ne_nil_of_right_ne_nil _ Nat.toDigits_ne_nil

/-- Zeros in front do not count. -/
theorem octalValue_zeros_append (k : Nat) (cs : List Char) :
    octalValue (List.replicate k '0' ++ cs) = octalValue cs := by
  induction k with
  | zero => rfl
  | succ k ih =>
    rw [List.replicate_succ]
    exact ih

/-- **A padded octal numeral has the value of its number.** -/
theorem octalValue_octalPad (w n : Nat) : octalValue (octalPad w n).toList = n := by
  rw [toList_octalPad, octalValue_zeros_append]
  exact Nat.ofDigitChars_toDigits (by decide) (by decide)

theorem isBlank_of_isOctalDigit {c : Char} (h : isOctalDigit c = true) : isBlank c = false := by
  have hrange : 0x30 ≤ c.toNat ∧ c.toNat ≤ 0x37 := by
    simp only [isOctalDigit, Bool.and_eq_true, decide_eq_true_eq] at h
    exact h
  unfold isBlank
  simp only [Bool.or_eq_false_iff, Bool.and_eq_false_iff, decide_eq_false_iff_not,
    beq_eq_false_iff_ne]
  omega

/-! ## Reading octal numbers -/

section Octal

variable {cs : List Char}

theorem dropOctalMark_of_digits (h : ∀ c ∈ cs, isOctalDigit c = true) : dropOctalMark cs = cs := by
  unfold dropOctalMark
  split
  · have ho : isOctalDigit 'o' = true := h 'o' (by simp)
    exact absurd ho (by decide)
  · rfl

/-- A sign may stand in front of the digits. -/
theorem octalDigits?_eq_some_iff {n : Nat} :
    octalDigits? cs = some n ↔ ∃ ds, (cs = ds ∨ cs = '+' :: ds) ∧ ds ≠ [] ∧
      (∀ c ∈ ds, isOctalDigit c = true) ∧ octalValue ds < UInt32.size ∧ octalValue ds = n := by
  have hbare (ds : List Char) :
      (if ds ≠ [] && ds.all isOctalDigit && octalValue ds < UInt32.size then some (octalValue ds)
        else none) = some n ↔ ds ≠ [] ∧ (∀ c ∈ ds, isOctalDigit c = true) ∧
          octalValue ds < UInt32.size ∧ octalValue ds = n := by
    simp [and_assoc]
  unfold octalDigits?
  dsimp only
  rw [hbare]
  by_cases hplus : cs.head? = some '+'
  · obtain ⟨ds, rfl⟩ : ∃ ds, cs = '+' :: ds := by
      cases cs with
      | nil => cases hplus
      | cons c ds => cases hplus; exact ⟨ds, rfl⟩
    rw [if_pos (by simp), List.tail_cons]
    constructor
    · intro h
      exact ⟨ds, .inr rfl, h⟩
    · rintro ⟨ds', rfl | heq, h⟩
      · exact absurd (h.2.1 '+' List.mem_cons_self) (by decide)
      · cases heq
        exact h
  · rw [if_neg (by simpa using hplus)]
    constructor
    · intro h
      exact ⟨cs, .inl rfl, h⟩
    · rintro ⟨ds, rfl | rfl, h⟩
      · exact h
      · exact absurd rfl hplus

theorem readOctal_eq_ok_iff {n : Nat} :
    readOctal cs = .ok n ↔ octalDigits? (dropOctalMark (trim cs)) = some n := by
  unfold readOctal
  dsimp only
  by_cases hne : dropOctalMark (trim cs) = []
  · rw [if_pos hne, hne]
    simp [octalDigits?]
  · rw [if_neg hne]
    cases octalDigits? (dropOctalMark (trim cs)) <;> simp

/-- **A text of octal digits is read as its value**, if it fits into 32 bits. -/
theorem readOctal_of_digits (h : ∀ c ∈ cs, isOctalDigit c = true) (hne : cs ≠ [])
    (hv : octalValue cs < UInt32.size) : readOctal cs = .ok (octalValue cs) := by
  have htrim : trim cs = cs := trim_of_forall fun c hc => isBlank_of_isOctalDigit (h c hc)
  rw [readOctal_eq_ok_iff, htrim, dropOctalMark_of_digits h, octalDigits?_eq_some_iff]
  exact ⟨cs, .inl rfl, hne, h, hv, rfl⟩

theorem mem_of_readOctal {n : Nat} (h : readOctal cs = .ok n) :
    ∀ c ∈ trim cs, isOctalDigit c = true ∨ c = '+' ∨ c = 'o' := by
  obtain ⟨ds, hds, -, hdigits, -⟩ := octalDigits?_eq_some_iff.mp (readOctal_eq_ok_iff.mp h)
  have hunmarked : ∀ c ∈ dropOctalMark (trim cs), isOctalDigit c = true ∨ c = '+' := by
    intro c hc
    rcases hds with heq | heq <;> rw [heq] at hc
    · exact .inl (hdigits c hc)
    · rcases List.mem_cons.mp hc with rfl | hc
      · exact .inr rfl
      · exact .inl (hdigits c hc)
  intro c hc
  have hmark : c ∈ dropOctalMark (trim cs) ∨ c = '0' ∨ c = 'o' := by
    unfold dropOctalMark
    split
    · next rest hcs =>
      rw [hcs] at hc
      simpa [or_comm, or_left_comm, or_assoc] using hc
    · exact .inl hc
  rcases hmark with hc | rfl | rfl
  · rcases hunmarked c hc with hd | hp
    · exact .inl hd
    · exact .inr (.inl hp)
  · exact .inl (by decide)
  · exact .inr (.inr rfl)

end Octal

/-! ## The steps of the reader -/

theorem Text.splitAt?_eq_some_iff {c : Char} {cs a rest : List Char} :
    splitAt? c cs = some (a, rest) ↔ cs = a ++ c :: rest ∧ c ∉ a := by
  have hsplit : cs.takeWhile (· != c) ++ cs.dropWhile (· != c) = cs := List.takeWhile_append_dropWhile
  unfold splitAt?
  constructor
  · intro h
    split at h
    · cases h
    · next d rest' hd =>
      cases h
      have hc : d = c := by
        have hhead := List.head_dropWhile_not (p := (· != c)) (l := cs) (by rw [hd]; simp)
        simpa [hd] using hhead
      rw [hd, hc] at hsplit
      refine ⟨hsplit.symm, fun hmem => ?_⟩
      simpa using List.mem_takeWhile_imp hmem
  · rintro ⟨rfl, hc⟩
    have hne : ∀ x ∈ a, (x != c) = true := by
      intro x hx
      simp only [bne_iff_ne, ne_eq]
      rintro rfl
      exact hc hx
    rw [List.dropWhile_append_of_pos hne, List.takeWhile_append_of_pos hne]
    simp

namespace Assignment

theorem afterStore?_eq_some_iff {cs rest : List Char} :
    afterStore? cs = some rest ↔ cs = 'R' :: 'O' :: 'M' :: '[' :: rest := by
  unfold afterStore?
  constructor
  · intro h
    split at h
    · cases h
      rfl
    · cases h
  · rintro rfl
    rfl

theorem afterMark?_eq_some_iff {c : Char} {cs rest : List Char} (hc : isBlank c = false) :
    afterMark? c cs = some rest ↔ ∃ b, (∀ x ∈ b, isBlank x = true) ∧ cs = b ++ c :: rest := by
  constructor
  · intro h
    have hsplit : cs.takeWhile isBlank ++ trimStart cs = cs := List.takeWhile_append_dropWhile
    unfold afterMark? at h
    split at h
    · next d rest' hd =>
      split at h
      · next hdc =>
        cases h
        rw [hd, hdc] at hsplit
        exact ⟨_, fun x hx => List.mem_takeWhile_imp hx, hsplit.symm⟩
      · cases h
    · cases h
  · rintro ⟨b, hb, rfl⟩
    unfold afterMark? trimStart
    rw [List.dropWhile_append_of_pos hb, List.dropWhile_cons_of_neg (by rw [hc]; decide)]
    exact if_pos rfl

/-- **The shape of an assignment.** -/
theorem parts_eq_ok_iff {cs : List Char} {p : Parts} :
    parts cs = .ok p ↔ ∃ r₁ r₂ r₃ r₄ r₅, afterStore? cs = some r₁ ∧
      splitAt? ']' r₁ = some (p.address, r₂) ∧ afterMark? '[' r₂ = some r₃ ∧
      splitAt? ']' r₃ = some (p.component, r₄) ∧ afterMark? '=' r₄ = some r₅ ∧
      p.value = trimValue r₅ := by
  constructor
  · intro h
    unfold parts at h
    split at h
    case h_2 => cases h
    next r₁ h₁ =>
    split at h
    case h_2 => cases h
    next a r₂ h₂ =>
    split at h
    case h_2 => cases h
    next r₃ h₃ =>
    split at h
    case h_2 => cases h
    next c r₄ h₄ =>
    split at h
    case h_2 => cases h
    next r₅ h₅ =>
    cases h
    exact ⟨r₁, r₂, r₃, r₄, r₅, h₁, h₂, h₃, h₄, h₅, rfl⟩
  · rintro ⟨r₁, r₂, r₃, r₄, r₅, h₁, h₂, h₃, h₄, h₅, hv⟩
    unfold parts
    simp only [h₁, h₂, h₃, h₄, h₅, ← hv]
    rfl

/-- **An assignment is read** if its shape is right and its numbers are. -/
theorem read_eq_ok_iff {cs : List Char} {a : Assignment} :
    read cs = .ok a ↔ ∃ p, parts cs = .ok p ∧ readAddress p.address = .ok a.address ∧
      readComponent p.component = .ok a.component ∧ readValue p.value = .ok a.value := by
  unfold read
  cases hp : parts cs with
  | error cause => simp [bind, Except.bind]
  | ok p =>
    cases ha : readAddress p.address with
    | error cause => simp [bind, Except.bind, ha]
    | ok address =>
      cases hc : readComponent p.component with
      | error cause => simp [bind, Except.bind, ha, hc]
      | ok component =>
        cases hv : readValue p.value with
        | error cause => simp [bind, Except.bind, ha, hc, hv]
        | ok value =>
          obtain ⟨a', c', v'⟩ := a
          simp [bind, Except.bind, pure, Except.pure, ha, hc, hv]

/-! ## Numbers -/

theorem readAddress_eq_ok_iff {cs : List Char} {a : UInt16} :
    readAddress cs = .ok a ↔ ∃ n, readOctal cs = .ok n ∧ n < 2048 ∧ n.toUInt16 = a := by
  unfold readAddress
  cases readOctal cs with
  | error cause => simp [bind, Except.bind]
  | ok n => by_cases hn : n < 2048 <;> simp [bind, Except.bind, hn]

theorem readComponent_eq_ok_iff {cs : List Char} {c : Component} :
    readComponent cs = .ok c ↔ ∃ n, readOctal cs = .ok n ∧ Component.ofIndex? n = some c := by
  unfold readComponent
  cases readOctal cs with
  | error cause => simp [bind, Except.bind]
  | ok n => cases hn : Component.ofIndex? n <;> simp [bind, Except.bind, hn]

theorem readValue_eq_ok_iff {cs : List Char} {v : UInt32} :
    readValue cs = .ok v ↔ ∃ n, readOctal cs = .ok n ∧ n < 0o10000000000 ∧ n.toUInt32 = v := by
  unfold readValue
  cases readOctal cs with
  | error cause => simp [bind, Except.bind]
  | ok n => by_cases hn : n < 0o10000000000 <;> simp [bind, Except.bind, hn]

/-- The entry lies in the store, and the value has 30 bits. -/
structure InRange (a : Assignment) : Prop where
  address_lt : a.address.toNat < 2048
  value_lt : a.value.toNat < 0o10000000000

theorem inRange_of_read {cs : List Char} {a : Assignment} (h : read cs = .ok a) : a.InRange := by
  obtain ⟨p, -, ha, -, hv⟩ := read_eq_ok_iff.mp h
  obtain ⟨n, -, hn, ha⟩ := readAddress_eq_ok_iff.mp ha
  obtain ⟨k, -, hk, hv⟩ := readValue_eq_ok_iff.mp hv
  constructor
  · rw [← ha, Nat.toUInt16, UInt16.toNat_ofNat']
    omega
  · rw [← hv, Nat.toUInt32, UInt32.toNat_ofNat']
    omega

/-! ## The end of an assignment -/

/-- What follows the equals sign of an assignment is the end of its text. -/
theorem exists_of_parts {cs : List Char} {p : Parts} (h : parts cs = .ok p) :
    ∃ front rest, cs = front ++ '=' :: rest ∧ p.value = trimValue rest := by
  obtain ⟨r₁, r₂, r₃, r₄, r₅, h₁, h₂, h₃, h₄, h₅, hv⟩ := parts_eq_ok_iff.mp h
  obtain ⟨h₂, -⟩ := splitAt?_eq_some_iff.mp h₂
  obtain ⟨b, -, h₃⟩ := (afterMark?_eq_some_iff (by decide)).mp h₃
  obtain ⟨h₄, -⟩ := splitAt?_eq_some_iff.mp h₄
  obtain ⟨b', -, h₅⟩ := (afterMark?_eq_some_iff (by decide)).mp h₅
  have hfront : cs = ('R' :: 'O' :: 'M' :: '[' :: (p.address ++ ']' :: (b ++ '[' ::
      (p.component ++ ']' :: b')))) ++ '=' :: r₅ := by
    rw [afterStore?_eq_some_iff.mp h₁, h₂, h₃, h₄, h₅]
    simp
  exact ⟨_, r₅, hfront, hv⟩

/-- **No assignment ends in a slash.** -/
theorem not_read_slash {cs : List Char} {a : Assignment} : read (cs ++ ['/']) ≠ .ok a := by
  intro h
  obtain ⟨p, hp, -, -, hv⟩ := read_eq_ok_iff.mp h
  obtain ⟨front, rest, hcs, hvalue⟩ := exists_of_parts hp
  have hlast : ∃ rest', rest = rest' ++ ['/'] := by
    rcases List.eq_nil_or_concat' rest with rfl | ⟨rest', c, rfl⟩
    · have hc := congrArg List.getLast? hcs
      simp at hc
    · have hc := congrArg List.getLast? hcs
      rw [← List.cons_append, ← List.append_assoc] at hc
      simp only [List.getLast?_concat, Option.some.injEq] at hc
      exact ⟨rest', by rw [← hc]⟩
  obtain ⟨rest', rfl⟩ := hlast
  obtain ⟨n, hn, -, -⟩ := readValue_eq_ok_iff.mp hv
  have hslash : '/' ∈ trim p.value := by
    obtain ⟨t, ht⟩ := exists_trim_concat rest' (c := '/') (by decide)
    have hdrop : dropEndWhile (· == ';') (t ++ ['/']) = t ++ ['/'] :=
      dropEndWhile_concat t (by decide)
    have hend : trimEnd (t ++ ['/']) = t ++ ['/'] := trimEnd_concat t (by decide)
    obtain ⟨t', ht'⟩ := exists_trim_concat t (c := '/') (by decide)
    rw [hvalue, trimValue, ht, hdrop, hend, ht']
    simp
  have hchar := mem_of_readOctal hn '/' hslash
  exact absurd hchar (by decide)

/-! ## Writing and reading -/

theorem readOctal_octalPad (w : Nat) {n : Nat} (h : n < UInt32.size) :
    readOctal (octalPad w n).toList = .ok n := by
  have hread := readOctal_of_digits (fun c hc => isOctalDigit_of_mem_octalPad hc)
    (octalPad_ne_nil w n) (by rwa [octalValue_octalPad])
  rwa [octalValue_octalPad] at hread

theorem isBlank_of_mem_space : ∀ c ∈ [' '], isBlank c = true :=
  List.forall_mem_singleton.mpr (by decide)

/-- The value of an assignment stands between a blank and a semicolon. -/
theorem trimValue_of_digits {ds : List Char} (hne : ds ≠ [])
    (h : ∀ c ∈ ds, isOctalDigit c = true) : trimValue (' ' :: (ds ++ [';'])) = ds := by
  have hblank (c : Char) (hc : c ∈ ds) : isBlank c = false := isBlank_of_isOctalDigit (h c hc)
  have htrim : trim (' ' :: (ds ++ [';'])) = ds ++ [';'] := by
    have hfront := trim_blanks_append isBlank_of_mem_space (ds ++ [';'])
    rw [List.singleton_append] at hfront
    rw [hfront]
    refine trim_of_forall fun c hc => ?_
    rcases List.mem_append.mp hc with hc | hc
    · exact hblank c hc
    · rw [List.mem_singleton.mp hc]
      decide
  have hsemicolon : dropEndWhile (· == ';') (ds ++ [';']) = dropEndWhile (· == ';') ds :=
    List.rdropWhile_concat_pos _ ds ';' (by decide)
  rcases List.eq_nil_or_concat' ds with rfl | ⟨ds, d, rfl⟩
  · exact absurd rfl hne
  · have hd : isOctalDigit d = true := h d (by simp)
    have hstop : (d == ';') = false := by
      rw [beq_eq_false_iff_ne]
      rintro rfl
      exact absurd hd (by decide)
    have hdrop : dropEndWhile (· == ';') (ds ++ [d]) = ds ++ [d] := dropEndWhile_concat ds hstop
    rw [trimValue, htrim, hsemicolon, hdrop, trimEnd_concat ds (hblank d (by simp))]

theorem bracket_not_mem_of_digits {ds : List Char} (h : ∀ c ∈ ds, isOctalDigit c = true) :
    ']' ∉ ds :=
  fun hmem => absurd (h ']' hmem) (by decide)

theorem toList_decimal_index (c : Component) :
    (decimal c.index).toList = [Nat.digitChar c.index] := by
  cases c <;> rfl

theorem readComponent_decimal_index (c : Component) :
    readComponent (decimal c.index).toList = .ok c := by
  rw [toList_decimal_index, readComponent_eq_ok_iff]
  cases c <;> exact ⟨_, by rfl, by rfl⟩

theorem parts_of_shape {address component value : List Char} (ha : ']' ∉ address)
    (hc : ']' ∉ component) (hne : value ≠ []) (hv : ∀ c ∈ value, isOctalDigit c = true) :
    parts ('R' :: 'O' :: 'M' :: '[' :: (address ++ ']' :: '[' :: (component ++ ']' :: ' ' :: '=' ::
      ' ' :: (value ++ [';'])))) = .ok ⟨address, component, value⟩ := by
  rw [parts_eq_ok_iff]
  refine ⟨_, _, _, _, _, rfl, splitAt?_eq_some_iff.mpr ⟨rfl, ha⟩,
    (afterMark?_eq_some_iff (by decide)).mpr ⟨[], by simp, rfl⟩,
    splitAt?_eq_some_iff.mpr ⟨rfl, hc⟩,
    (afterMark?_eq_some_iff (by decide)).mpr ⟨[' '], isBlank_of_mem_space, rfl⟩, ?_⟩
  exact (trimValue_of_digits hne hv).symm

theorem toList_text (a : Assignment) :
    a.text.toList = 'R' :: 'O' :: 'M' :: '[' :: ((octalPad 4 a.address.toNat).toList ++
      ']' :: '[' :: ((decimal a.component.index).toList ++ ']' :: ' ' :: '=' :: ' ' ::
        ((octalPad 11 a.value.toNat).toList ++ [';']))) := by
  simp [text, octal4]

theorem readAddress_octalPad {address : UInt16} (h : address.toNat < 2048) :
    readAddress (octalPad 4 address.toNat).toList = .ok address := by
  have hlt : address.toNat < UInt32.size := Nat.lt_trans h (by decide)
  have hread := readOctal_octalPad 4 hlt
  have hback : address.toNat.toUInt16 = address := UInt16.ofNat_toNat
  rw [readAddress_eq_ok_iff]
  exact ⟨address.toNat, hread, h, hback⟩

theorem readValue_octalPad {value : UInt32} (h : value.toNat < 0o10000000000) :
    readValue (octalPad 11 value.toNat).toList = .ok value := by
  have hlt : value.toNat < UInt32.size := UInt32.toNat_lt_size value
  have hread := readOctal_octalPad 11 hlt
  have hback : value.toNat.toUInt32 = value := UInt32.ofNat_toNat
  rw [readValue_eq_ok_iff]
  exact ⟨value.toNat, hread, h, hback⟩

theorem parts_text (a : Assignment) :
    parts a.text.toList = .ok ⟨(octalPad 4 a.address.toNat).toList,
      (decimal a.component.index).toList, (octalPad 11 a.value.toNat).toList⟩ := by
  have hdigits (w n : Nat) : ∀ c ∈ (octalPad w n).toList, isOctalDigit c = true :=
    fun c hc => isOctalDigit_of_mem_octalPad hc
  have hcomponent : ']' ∉ (decimal a.component.index).toList := by
    rw [toList_decimal_index]
    cases a.component <;> decide
  rw [toList_text]
  exact parts_of_shape (bracket_not_mem_of_digits (hdigits 4 a.address.toNat)) hcomponent
    (octalPad_ne_nil 11 a.value.toNat) (hdigits 11 a.value.toNat)

/-- **An assignment is read back from its text.** -/
theorem read_text {a : Assignment} (h : a.InRange) : read a.text.toList = .ok a := by
  have haddress := readAddress_octalPad h.address_lt
  have hvalue := readValue_octalPad h.value_lt
  rw [read_eq_ok_iff]
  refine ⟨_, parts_text a, ?_⟩
  dsimp only
  exact ⟨haddress, readComponent_decimal_index a.component, hvalue⟩

/-- Only the text of an assignment in range is read. -/
theorem inRange_of_read_text {a b : Assignment} (h : read a.text.toList = .ok b) : a.InRange := by
  obtain ⟨p, hp, ha, -, hv⟩ := read_eq_ok_iff.mp h
  have hparts := Except.ok.inj ((parts_text a).symm.trans hp)
  rw [← hparts] at ha hv
  dsimp only at ha hv
  obtain ⟨n, hn, hlt, -⟩ := readAddress_eq_ok_iff.mp ha
  obtain ⟨v, hv, hvlt, -⟩ := readValue_eq_ok_iff.mp hv
  have haddress : a.address.toNat < UInt32.size :=
    Nat.lt_trans (UInt16.toNat_lt_size a.address) (by decide)
  rw [readOctal_octalPad 4 haddress, Except.ok.injEq] at hn
  rw [readOctal_octalPad 11 (UInt32.toNat_lt_size a.value), Except.ok.injEq] at hv
  exact ⟨hn ▸ hlt, hv ▸ hvlt⟩

end Assignment

end MicroEngine
