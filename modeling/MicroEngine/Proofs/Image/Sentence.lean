import MicroEngine.Proofs.Image.Line
import MicroEngine.Proofs.Width
/-!
# The sentences of the assignment reader

What the reader of assignments accepts, said without the reader: octal digits with their number, a
numeral with its mark and its sign, and a sentence with blanks where they may stand.

* `OctalDigits`, `Numeral`, `SpacedNumeral`: the numerals, with their numbers.
* `readOctal_eq_ok_iff_spaced`: the numerals are what is read as a number of 32 bits.
* `readOctal_trimValue_iff`: the value of an assignment ends in any number of semicolons.
* `Assignment.Sentence`: an assignment as it may be written.
* `Assignment.read_eq_ok_iff_sentence`: a text that ends in no blank is read if it is a sentence.
* **`Assignment.reads_exactly_sentences`**: the reader accepts exactly the sentences, and each of
  them says one thing.
-/

namespace MicroEngine

open Text

/-- A text of blanks. -/
def Text.Blanks (cs : List Char) : Prop := ∀ c ∈ cs, isBlank c = true

/-- The texts of one or more octal digits, with the numbers that they stand for. -/
inductive OctalDigits : List Char → Nat → Prop
  | digit {d : Nat} (hd : d < 8) : OctalDigits [Nat.digitChar d] d
  | concat {cs : List Char} {n d : Nat} (h : OctalDigits cs n) (hd : d < 8) :
    OctalDigits (cs ++ [Nat.digitChar d]) (8 * n + d)

/-- The octal numerals: digits with an optional mark and an optional sign in front. -/
inductive Numeral : List Char → Nat → Prop
  | mk {mark sign digits : List Char} {n : Nat} (hmark : mark = [] ∨ mark = ['0', 'o'])
    (hsign : sign = [] ∨ sign = ['+']) (hdigits : OctalDigits digits n) :
    Numeral (mark ++ sign ++ digits) n

/-- The octal numerals with blanks around them. -/
inductive SpacedNumeral : List Char → Nat → Prop
  | mk {before core after : List Char} {n : Nat} (hbefore : Blanks before) (h : Numeral core n)
    (hafter : Blanks after) : SpacedNumeral (before ++ core ++ after) n

/-! ## Digits -/

theorem toNat_digitChar_sub {d : Nat} (hd : d < 8) : (Nat.digitChar d).toNat - '0'.toNat = d := by
  have hchar : '0'.toNat = 48 := rfl
  rw [Nat.toNat_digitChar_of_lt_ten (by omega), hchar]
  omega

theorem exists_digitChar {c : Char} (h : isOctalDigit c = true) :
    ∃ d < 8, c = Nat.digitChar d := by
  have hrange : 48 ≤ c.toNat ∧ c.toNat ≤ 55 := by
    simp only [isOctalDigit, Bool.and_eq_true, decide_eq_true_eq] at h
    exact h
  refine ⟨c.toNat - 48, by omega, Char.toNat_inj.mp ?_⟩
  rw [Nat.toNat_digitChar_of_lt_ten (by omega)]
  omega

theorem octalValue_concat (cs : List Char) {d : Nat} (hd : d < 8) :
    octalValue (cs ++ [Nat.digitChar d]) = 8 * octalValue cs + d := by
  unfold octalValue
  rw [List.foldl_append, List.foldl_cons, List.foldl_nil, toNat_digitChar_sub hd]

/-- **Texts of octal digits have the numbers that they are read as.** -/
theorem octalDigits_iff {cs : List Char} {n : Nat} :
    OctalDigits cs n ↔ cs ≠ [] ∧ (∀ c ∈ cs, isOctalDigit c = true) ∧ octalValue cs = n := by
  constructor
  · intro h
    induction h with
    | digit hd =>
      refine ⟨by simp, List.forall_mem_singleton.mpr (isOctalDigit_digitChar _ hd), ?_⟩
      have hvalue := octalValue_concat [] hd
      rw [List.nil_append] at hvalue
      rw [hvalue]
      exact Nat.zero_add _
    | concat _ hd ih =>
      obtain ⟨-, hdigits, hvalue⟩ := ih
      refine ⟨by simp, List.forall_mem_append.mpr ⟨hdigits, ?_⟩, ?_⟩
      · exact List.forall_mem_singleton.mpr (isOctalDigit_digitChar _ hd)
      · rw [octalValue_concat _ hd, hvalue]
  · rintro ⟨hne, hdigits, rfl⟩
    induction cs using List.reverseRecOn with
    | nil => exact absurd rfl hne
    | append_singleton cs c ih =>
      obtain ⟨hcs, hc⟩ := List.forall_mem_append.mp hdigits
      obtain ⟨d, hd, rfl⟩ := exists_digitChar (hc c (by simp))
      rw [octalValue_concat cs hd]
      by_cases hnil : cs = []
      · subst hnil
        exact (Nat.zero_add d).symm ▸ OctalDigits.digit hd
      · exact (ih hnil hcs).concat hd

/-! ## Numerals -/

section Numerals

variable {cs : List Char} {n : Nat}

theorem Numeral.mem (h : Numeral cs n) {c : Char} (hc : c ∈ cs) :
    isOctalDigit c = true ∨ c = '+' ∨ c = 'o' := by
  obtain ⟨hmark, hsign, hdigits⟩ := h
  obtain ⟨-, hdigits, -⟩ := octalDigits_iff.mp hdigits
  rcases List.mem_append.mp hc with hc | hc
  · rcases List.mem_append.mp hc with hc | hc
    · rcases hmark with rfl | rfl
      · cases hc
      · rcases List.mem_pair.mp hc with rfl | rfl
        · exact .inl (by decide)
        · exact .inr (.inr rfl)
    · rcases hsign with rfl | rfl
      · cases hc
      · exact .inr (.inl (List.mem_singleton.mp hc))
  · exact .inl (hdigits c hc)

theorem Numeral.ne_nil (h : Numeral cs n) : cs ≠ [] := by
  obtain ⟨-, -, hdigits⟩ := h
  exact List.append_ne_nil_of_right_ne_nil _ (octalDigits_iff.mp hdigits).1

theorem Numeral.isBlank_of_mem (h : Numeral cs n) : ∀ c ∈ cs, isBlank c = false := by
  intro c hc
  rcases h.mem hc with hd | rfl | rfl
  · exact isBlank_of_isOctalDigit hd
  · decide
  · decide

/-- A mark of an assignment is neither in a numeral nor a blank. -/
theorem SpacedNumeral.not_mem (h : SpacedNumeral cs n) {c : Char} (hd : isOctalDigit c = false)
    (hplus : c ≠ '+') (ho : c ≠ 'o') (hblank : isBlank c = false) : c ∉ cs := by
  obtain ⟨hbefore, hcore, hafter⟩ := h
  intro hc
  rcases List.mem_append.mp hc with hc | hc
  · rcases List.mem_append.mp hc with hc | hc
    · rw [hbefore c hc] at hblank
      cases hblank
    · rcases hcore.mem hc with hd' | hc | hc
      · rw [hd] at hd'
        cases hd'
      · exact hplus hc
      · exact ho hc
  · rw [hafter c hc] at hblank
    cases hblank

theorem SpacedNumeral.pad (h : SpacedNumeral cs n) {b b' : List Char} (hb : Blanks b)
    (hb' : Blanks b') : SpacedNumeral (b ++ cs ++ b') n := by
  obtain ⟨hbefore, hcore, hafter⟩ := h
  have hpadded := SpacedNumeral.mk (List.forall_mem_append.mpr ⟨hb, hbefore⟩) hcore
    (List.forall_mem_append.mpr ⟨hafter, hb'⟩)
  simpa only [List.append_assoc] using hpadded

theorem dropOctalMark_cases (cs : List Char) :
    ∃ mark, (mark = [] ∨ mark = ['0', 'o']) ∧ cs = mark ++ dropOctalMark cs := by
  unfold dropOctalMark
  split
  · exact ⟨['0', 'o'], .inr rfl, rfl⟩
  · exact ⟨[], .inl rfl, rfl⟩

theorem dropOctalMark_numeral {mark sign digits : List Char} (hmark : mark = [] ∨ mark = ['0', 'o'])
    (hsign : sign = [] ∨ sign = ['+']) (hdigits : ∀ c ∈ digits, isOctalDigit c = true) :
    dropOctalMark (mark ++ sign ++ digits) = sign ++ digits := by
  rcases hmark with rfl | rfl
  · rcases hsign with rfl | rfl
    · exact dropOctalMark_of_digits hdigits
    · rfl
  · rfl

/-- **The texts that are read as a number** are the numerals of 32 bits with blanks around them. -/
theorem readOctal_eq_ok_iff_spaced :
    readOctal cs = .ok n ↔ SpacedNumeral cs n ∧ n < UInt32.size := by
  rw [readOctal_eq_ok_iff, octalDigits?_eq_some_iff]
  constructor
  · rintro ⟨digits, hsign, hne, hdigits, hlt, hvalue⟩
    obtain ⟨b, b', hb, hb', hcs⟩ := exists_trim cs
    obtain ⟨mark, hmark, htrim⟩ := dropOctalMark_cases (trim cs)
    have hcore : Numeral (trim cs) n := by
      have hoctal := octalDigits_iff.mpr ⟨hne, hdigits, hvalue⟩
      rcases hsign with hsign | hsign
      · rw [htrim, hsign, ← List.append_nil mark]
        exact .mk hmark (.inl rfl) hoctal
      · rw [htrim, hsign, ← List.singleton_append, ← List.append_assoc]
        exact .mk hmark (.inr rfl) hoctal
    rw [hcs]
    exact ⟨.mk hb hcore hb', hvalue ▸ hlt⟩
  · rintro ⟨⟨hbefore, hcore, hafter⟩, hlt⟩
    have htrim := trim_of_forall hcore.isBlank_of_mem
    rw [trim_append_blanks hafter, trim_blanks_append hbefore, htrim]
    obtain ⟨hmark, hsign, hoctal⟩ := hcore
    obtain ⟨hne, hdigits, rfl⟩ := octalDigits_iff.mp hoctal
    rw [dropOctalMark_numeral hmark hsign hdigits]
    refine ⟨_, ?_, hne, hdigits, hlt, rfl⟩
    rcases hsign with rfl | rfl
    · exact .inl rfl
    · exact .inr rfl

end Numerals

/-! ## The value of an assignment -/

/-- What is left of the value of an assignment when the reader has taken off its semicolons. -/
theorem trimValue_numeral {before core after : List Char} {n : Nat} (hbefore : Blanks before)
    (h : Numeral core n) (hafter : Blanks after) (k : Nat) :
    Assignment.trimValue (before ++ core ++ after ++ List.replicate k ';') = core := by
  have hblank := h.isBlank_of_mem
  have hcore : trimEnd core = core := dropEndWhile_of_forall hblank
  have hstop : ∀ c ∈ core ++ after, (c == ';') = false := by
    intro c hc
    rw [beq_eq_false_iff_ne]
    rintro rfl
    have hspaced : SpacedNumeral ([] ++ core ++ after) n := .mk (List.forall_mem_nil _) h hafter
    exact hspaced.not_mem (by decide) (by decide) (by decide) (by decide) hc
  unfold Assignment.trimValue
  rw [List.append_assoc, List.append_assoc, trim_blanks_append hbefore]
  cases k with
  | zero =>
    have hcut : dropEndWhile (· == ';') core = core :=
      dropEndWhile_of_forall fun c hc => hstop c (List.mem_append_left after hc)
    rw [List.replicate_zero, List.append_nil, trim_append_blanks hafter, trim_of_forall hblank, hcut,
      hcore]
  | succ k =>
    -- A semicolon at the end keeps the blanks behind the numeral from being trimmed at first.
    obtain ⟨c, cs, rfl⟩ := List.exists_cons_of_ne_nil h.ne_nil
    have htrim : trim (c :: cs ++ (after ++ List.replicate (k + 1) ';')) =
        c :: cs ++ after ++ List.replicate (k + 1) ';' := by
      have hends := trim_of_ends (cs ++ (after ++ List.replicate k ';')) (d := ';')
        (hblank c List.mem_cons_self) (by decide)
      simpa [List.replicate_succ', List.append_assoc] using hends
    have hsemicolons : ∀ c ∈ List.replicate (k + 1) ';', (c == ';') = true := by
      intro c hc
      rw [List.eq_of_mem_replicate hc]
      decide
    have hcut : dropEndWhile (· == ';') (c :: cs ++ after) = c :: cs ++ after :=
      dropEndWhile_of_forall hstop
    rw [htrim, dropEndWhile_append hsemicolons, hcut, trimEnd_append_blanks hafter, hcore]

/-- **The values that are read**, where they end the text: numerals and any number of semicolons. -/
theorem readOctal_trimValue_iff {rest : List Char} {n : Nat} (hend : trimEnd rest = rest) :
    readOctal (Assignment.trimValue rest) = .ok n ↔ ∃ value k,
      rest = value ++ List.replicate k ';' ∧ SpacedNumeral value n ∧ n < UInt32.size := by
  constructor
  · intro h
    obtain ⟨b, hb, hrest⟩ := exists_trim_of_trimEnd hend
    obtain ⟨tail, htail, hcut⟩ := exists_dropEndWhile (· == ';') (trim rest)
    obtain ⟨b', hb', hvalue⟩ := exists_dropEndWhile isBlank (dropEndWhile (· == ';') (trim rest))
    obtain ⟨hnumeral, hlt⟩ := readOctal_eq_ok_iff_spaced.mp h
    have hsemicolons : tail = List.replicate tail.length ';' :=
      List.eq_replicate_of_mem fun c hc => by simpa using htail c hc
    refine ⟨_, tail.length, ?_, hnumeral.pad hb hb', hlt⟩
    rw [← hsemicolons, Assignment.trimValue, trimEnd, List.append_assoc b, ← hvalue,
      List.append_assoc, ← hcut, ← hrest]
  · rintro ⟨_, k, rfl, @⟨_, core, _, _, hbefore, hcore, hafter⟩, hlt⟩
    rw [trimValue_numeral hbefore hcore hafter, readOctal_eq_ok_iff_spaced]
    refine ⟨?_, hlt⟩
    rw [← List.append_nil core, ← List.nil_append core]
    exact .mk (List.forall_mem_nil _) hcore (List.forall_mem_nil _)

namespace Assignment

/-! ## Sentences -/

/-- The texts of an assignment, with its entry, its component and its value: `ROM[`, a numeral, `]`,
`[`, a numeral, `]`, `=`, a numeral and any number of semicolons, with blanks around the numerals
and in front of `[` and `=`. -/
inductive Sentence : List Char → Nat → Nat → Nat → Prop
  | mk {address gap component gap' value : List Char} {a c v : Nat} (k : Nat)
    (haddress : SpacedNumeral address a) (hgap : Blanks gap)
    (hcomponent : SpacedNumeral component c) (hgap' : Blanks gap') (hvalue : SpacedNumeral value v)
    (ha : a < 2048) (hc : c ≤ 2) (hv : v < 0o10000000000) :
    Sentence ("ROM[".toList ++ address ++ "]".toList ++ gap ++ "[".toList ++ component ++
      "]".toList ++ gap' ++ "=".toList ++ value ++ List.replicate k ';') a c v

/-! ## Numbers in their ranges -/

theorem readAddress_eq_ok_iff_toNat {cs : List Char} {a : UInt16} :
    readAddress cs = .ok a ↔ readOctal cs = .ok a.toNat ∧ a.toNat < 2048 := by
  rw [readAddress_eq_ok_iff]
  constructor
  · rintro ⟨n, hn, hlt, rfl⟩
    rw [Address.toNat_ofNat hlt]
    exact ⟨hn, hlt⟩
  · rintro ⟨hn, hlt⟩
    exact ⟨a.toNat, hn, hlt, UInt16.ofNat_toNat⟩

theorem readComponent_eq_ok_iff_index {cs : List Char} {c : Component} :
    readComponent cs = .ok c ↔ readOctal cs = .ok c.index := by
  have hindex (n : Nat) : Component.ofIndex? n = some c ↔ n = c.index := by
    unfold Component.ofIndex?
    split <;> cases c <;> simp_all [Component.index]
  simp only [readComponent_eq_ok_iff, hindex]
  exact exists_eq_right

theorem readValue_eq_ok_iff_toNat {cs : List Char} {v : UInt32} :
    readValue cs = .ok v ↔ readOctal cs = .ok v.toNat ∧ v.toNat < 0o10000000000 := by
  rw [readValue_eq_ok_iff]
  constructor
  · rintro ⟨n, hn, hlt, rfl⟩
    have hvalue : n.toUInt32.toNat = n := by
      rw [Nat.toUInt32, UInt32.toNat_ofNat']
      omega
    rw [hvalue]
    exact ⟨hn, hlt⟩
  · rintro ⟨hn, hlt⟩
    exact ⟨v.toNat, hn, hlt, UInt32.ofNat_toNat⟩

/-- **The shape of an assignment**, written out. -/
theorem parts_eq_ok_iff_append {cs : List Char} {p : Parts} :
    parts cs = .ok p ↔ ∃ gap gap' rest, Blanks gap ∧ Blanks gap' ∧ ']' ∉ p.address ∧
      ']' ∉ p.component ∧ p.value = trimValue rest ∧
      cs = "ROM[".toList ++ p.address ++ "]".toList ++ gap ++ "[".toList ++ p.component ++
        "]".toList ++ gap' ++ "=".toList ++ rest := by
  have hopen : isBlank '[' = false := by decide
  have hequals : isBlank '=' = false := by decide
  rw [parts_eq_ok_iff]
  simp only [afterStore?_eq_some_iff, splitAt?_eq_some_iff, afterMark?_eq_some_iff hopen,
    afterMark?_eq_some_iff hequals]
  constructor
  · rintro ⟨_, _, _, _, rest, rfl, ⟨rfl, ha⟩, ⟨gap, hgap, rfl⟩, ⟨rfl, hc⟩, ⟨gap', hgap', rfl⟩, hv⟩
    exact ⟨gap, gap', rest, hgap, hgap', ha, hc, hv, by simp⟩
  · rintro ⟨gap, gap', rest, hgap, hgap', ha, hc, hv, rfl⟩
    exact ⟨_, _, _, _, rest, by simp, ⟨rfl, ha⟩, ⟨gap, hgap, rfl⟩, ⟨rfl, hc⟩, ⟨gap', hgap', rfl⟩, hv⟩

/-! ## Reading sentences -/

/-- **A text that ends in no blank is read exactly if it is a sentence**, and as what it says. -/
theorem read_eq_ok_iff_sentence {cs : List Char} (hend : trimEnd cs = cs) {x : Assignment} :
    read cs = .ok x ↔ Sentence cs x.address.toNat x.component.index x.value.toNat := by
  rw [read_eq_ok_iff]
  simp only [readAddress_eq_ok_iff_toNat, readComponent_eq_ok_iff_index, readValue_eq_ok_iff_toNat]
  constructor
  · rintro ⟨p, hp, ⟨ha, halt⟩, hc, hv, hvlt⟩
    obtain ⟨gap, gap', rest, hgap, hgap', -, -, hvalue, rfl⟩ := parts_eq_ok_iff_append.mp hp
    have hrest : trimEnd rest = rest := by
      rw [show "=".toList = ['='] from rfl, List.append_assoc] at hend
      exact trimEnd_of_append_cons (by decide) hend
    rw [hvalue] at hv
    obtain ⟨value, k, rfl, hnumeral, -⟩ := (readOctal_trimValue_iff hrest).mp hv
    rw [← List.append_assoc]
    refine .mk k (readOctal_eq_ok_iff_spaced.mp ha).1 hgap (readOctal_eq_ok_iff_spaced.mp hc).1 hgap'
      hnumeral halt ?_ hvlt
    cases x.component <;> decide
  · intro h
    generalize haddress : x.address.toNat = a, hcomponent : x.component.index = c,
      hvalue : x.value.toNat = v at h
    obtain @⟨address, gap, component, gap', value, _, _, _, k, ha, hgap, hc, hgap', hv, halt, hcle,
      hvlt⟩ := h
    have hbracket {text : List Char} {n : Nat} (ht : SpacedNumeral text n) : ']' ∉ text :=
      ht.not_mem (by decide) (by decide) (by decide) (by decide)
    have hrest : trimEnd (value ++ List.replicate k ';') = value ++ List.replicate k ';' := by
      rw [List.append_assoc, show "=".toList = ['='] from rfl, List.append_assoc] at hend
      exact trimEnd_of_append_cons (by decide) hend
    have hparts : parts ("ROM[".toList ++ address ++ "]".toList ++ gap ++ "[".toList ++ component ++
        "]".toList ++ gap' ++ "=".toList ++ value ++ List.replicate k ';') =
        .ok ⟨address, component, trimValue (value ++ List.replicate k ';')⟩ :=
      parts_eq_ok_iff_append.mpr ⟨gap, gap', value ++ List.replicate k ';', hgap, hgap',
        hbracket ha, hbracket hc, rfl, List.append_assoc _ _ _⟩
    have hsize : UInt32.size = 4294967296 := rfl
    refine ⟨_, hparts, ⟨?_, halt⟩, ?_, ?_, hvlt⟩
    · exact readOctal_eq_ok_iff_spaced.mpr ⟨ha, by omega⟩
    · exact readOctal_eq_ok_iff_spaced.mpr ⟨hc, by omega⟩
    · exact (readOctal_trimValue_iff hrest).mpr ⟨value, k, rfl, hv, by omega⟩

/-- Every sentence says an assignment. -/
theorem Sentence.exists_assignment {cs : List Char} {a c v : Nat} (h : Sentence cs a c v) :
    ∃ x : Assignment, x.address.toNat = a ∧ x.component.index = c ∧ x.value.toNat = v := by
  obtain ⟨-, -, -, -, -, -, ha, hc, hv⟩ := h
  obtain ⟨component, hcomponent⟩ : ∃ d : Component, d.index = c := by
    obtain rfl | rfl | rfl : c = 0 ∨ c = 1 ∨ c = 2 := by omega
    · exact ⟨.high, rfl⟩
    · exact ⟨.middle, rfl⟩
    · exact ⟨.low, rfl⟩
  refine ⟨⟨a.toUInt16, component, v.toUInt32⟩, Address.toNat_ofNat ha, hcomponent, ?_⟩
  rw [Nat.toUInt32, UInt32.toNat_ofNat']
  omega

/-- **The reader accepts exactly the sentences.** A line without its comment and the blanks around
it is read exactly if it is a sentence, whatever characters it has and however long its numerals
are. What is read are the numbers that the numerals stand for, uncut, and a sentence has no second
reading. -/
theorem reads_exactly_sentences (line : List Char) :
    ((∃ x, read (Image.statement line) = .ok x) ↔ ∃ a c v, Sentence (Image.statement line) a c v) ∧
    (∀ x, read (Image.statement line) = .ok x ↔
      Sentence (Image.statement line) x.address.toNat x.component.index x.value.toNat) ∧
    ∀ a c v a' c' v', Sentence (Image.statement line) a c v →
      Sentence (Image.statement line) a' c' v' → a = a' ∧ c = c' ∧ v = v' := by
  have hread (x : Assignment) := read_eq_ok_iff_sentence (x := x)
    (trimEnd_trimEnd (trimStart (Image.beforeComment line)))
  refine ⟨⟨?_, ?_⟩, hread, ?_⟩
  · rintro ⟨x, hx⟩
    exact ⟨_, _, _, (hread x).mp hx⟩
  · rintro ⟨a, c, v, h⟩
    obtain ⟨x, rfl, rfl, rfl⟩ := h.exists_assignment
    exact ⟨x, (hread x).mpr h⟩
  · intro a c v a' c' v' h h'
    obtain ⟨x, rfl, rfl, rfl⟩ := h.exists_assignment
    obtain ⟨x', rfl, rfl, rfl⟩ := h'.exists_assignment
    have hsame := ((hread x).mpr h).symm.trans ((hread x').mpr h')
    cases hsame
    exact ⟨rfl, rfl, rfl⟩

/-- A line with a comment, with blanks, with marks, with signs and with leading zeros says the
assignment of its three numbers, and no other. -/
theorem reads_padded_sentence :
    let s := Image.statement "  ROM[0o17]  [ +2 ]= 0o+00000000000007 ;; // [1]".toList
    read s = .ok ⟨15, .low, 7⟩ ∧ Sentence s 15 2 7 ∧
      ∀ a c v, Sentence s a c v → a = 15 ∧ c = 2 ∧ v = 7 := by
  intro s
  obtain ⟨-, hread, hunique⟩ :=
    reads_exactly_sentences "  ROM[0o17]  [ +2 ]= 0o+00000000000007 ;; // [1]".toList
  have hok : read s = .ok ⟨15, .low, 7⟩ := by decide
  have hsentence : Sentence s 15 2 7 := (hread _).mp hok
  exact ⟨hok, hsentence, fun a c v h => hunique a c v 15 2 7 h hsentence⟩

end Assignment

end MicroEngine
