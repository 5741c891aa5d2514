import MicroEngine.Proofs.BooleanBox.Bits
/-!
# The descriptions of boolean boxes

The description of a box is a text. Read as a boolean expression over words of 24 bits, it says what
the box does.

* `Expression`, `Expression.value`: boolean expressions over named registers of 24 bits.
* `Token.ofText`, `Factor`, `Reading`, `Expression.Reads`: which texts can be read as an expression.
* `BoxFormula.reads_text_iff`: a description is read in one way.
* `BoxFunction.toNat_value_expression`: what it says is what the box does.
* **`BoxFunction.boxes_are_bitwise`**: bits, descriptions and complements, by code.
-/

namespace MicroEngine

/-! ## Expressions -/

/-- The operators between two parts of an expression. -/
inductive Operator
  | and
  | or
  | eqv
  deriving DecidableEq, Repr

/-- The operator on words of 24 bits. -/
def Operator.combine : Operator → BitVec 24 → BitVec 24 → BitVec 24
  | .and, v, w => v &&& w
  | .or, v, w => v ||| w
  | .eqv, v, w => ~~~(v ^^^ w)

/-- A boolean expression over named registers. -/
inductive Expression
  | register (name : String)
  | ones
  | zero
  | not (e : Expression)
  | binary (op : Operator) (d e : Expression)
  deriving DecidableEq, Repr

/-- The value of an expression, for the values of the registers. -/
def Expression.value (r : String → BitVec 24) : Expression → BitVec 24
  | register name => r name
  | ones => -1
  | zero => 0
  | not e => ~~~e.value r
  | binary op d e => op.combine (d.value r) (e.value r)

/-- A word of the text of an expression. -/
inductive Token
  | name (name : String)
  | ones
  | zero
  | not
  | operator (op : Operator)
  deriving DecidableEq, Repr

namespace Token

/-- Every word that has no other meaning is a name. -/
def ofWord : String → Token
  | "-1" => ones
  | "0" => zero
  | "NOT" => not
  | "AND" => operator .and
  | "OR" => operator .or
  | "EQV" => operator .eqv
  | w => name w

/-- The words of a text, which blanks keep apart. -/
def ofText (text : String) : List Token :=
  (text.toList.splitOn ' ').map fun w => ofWord (String.ofList w)

end Token

/-- The words of an expression without operators. -/
inductive Factor : List Token → Expression → Prop
  | register (name : String) : Factor [.name name] (.register name)
  | ones : Factor [.ones] .ones
  | zero : Factor [.zero] .zero
  | not {ts : List Token} {e : Expression} (h : Factor ts e) : Factor (.not :: ts) (.not e)

/-- The words of an expression. `NOT` binds tighter than the operators; of several operators any one
may be the last to be carried out. -/
inductive Reading : List Token → Expression → Prop
  | factor {ts : List Token} {e : Expression} (h : Factor ts e) : Reading ts e
  | binary {ts us : List Token} {d e : Expression} (op : Operator) (hd : Reading ts d)
    (he : Reading us e) : Reading (ts ++ .operator op :: us) (.binary op d e)

/-- The text can be read as the expression. -/
def Expression.Reads (text : String) (e : Expression) : Prop := Reading (Token.ofText text) e

/-- A text that is read as the name of a register. -/
structure Expression.IsName (name : String) : Prop where
  blank_not_mem : ' ' ∉ name.toList
  ofWord_eq : Token.ofWord name = .name name

/-! ## Reading -/

namespace Factor

variable {ts : List Token} {d e : Expression}

theorem operator_not_mem (h : Factor ts e) (op : Operator) : .operator op ∉ ts := by
  induction h with
  | register | ones | zero => simp
  | not _ ih => simpa using ih

/-- Words without operators are read in one way at most. -/
theorem unique (h : Factor ts d) (h' : Factor ts e) : d = e := by
  induction h generalizing e with
  | register | ones | zero =>
    cases h'
    rfl
  | not h ih =>
    cases h' with
    | not h' => rw [ih h']

end Factor

namespace Reading

variable {ts us : List Token} {e : Expression} {op : Operator}

/-- Words with one operator among them are put together in one way. -/
theorem append_operator_inj {ts' us' : List Token} {o : Operator}
    (hts : ∀ o : Operator, .operator o ∉ ts) (hus : ∀ o : Operator, .operator o ∉ us)
    (h : ts ++ .operator op :: us = ts' ++ .operator o :: us') : ts = ts' ∧ op = o ∧ us = us' := by
  rcases List.append_eq_append_iff.mp h with ⟨mid, hleft, hright⟩ | ⟨mid, hleft, hright⟩
  · cases mid with
    | nil => simpa [and_assoc, eq_comm] using And.intro hleft hright
    | cons t mid =>
      obtain ⟨-, hrest⟩ := List.cons.inj hright
      exact absurd (hrest ▸ by simp) (hus o)
  · cases mid with
    | nil => simpa [and_assoc, eq_comm] using And.intro hleft hright
    | cons t mid =>
      obtain ⟨hword, -⟩ := List.cons.inj hright
      exact absurd (hleft ▸ hword ▸ by simp) (hts o)

/-- **Words without operators** are read as such. -/
theorem iff_factor (hts : ∀ o : Operator, .operator o ∉ ts) : Reading ts e ↔ Factor ts e := by
  constructor
  · rintro (h | ⟨op, -, -⟩)
    · exact h
    · exact absurd (by simp) (hts op)
  · exact .factor

theorem iff_eq {d : Expression} (h : Factor ts d) : Reading ts e ↔ e = d := by
  rw [iff_factor h.operator_not_mem]
  exact ⟨fun he => he.unique h, fun he => he ▸ h⟩

/-- **Words with one operator** are read as two parts without any. -/
theorem binary_iff (hts : ∀ o : Operator, .operator o ∉ ts) (hus : ∀ o : Operator, .operator o ∉ us) :
    Reading (ts ++ .operator op :: us) e ↔
      ∃ d d', Factor ts d ∧ Factor us d' ∧ e = .binary op d d' := by
  constructor
  · intro h
    generalize hall : ts ++ .operator op :: us = all at h
    cases h with
    | factor h => exact absurd (hall ▸ by simp) (h.operator_not_mem op)
    | binary o hd he =>
      obtain ⟨rfl, rfl, rfl⟩ := append_operator_inj hts hus hall
      exact ⟨_, _, (iff_factor hts).mp hd, (iff_factor hus).mp he, rfl⟩
  · rintro ⟨d, d', hd, hd', rfl⟩
    exact .binary op (.factor hd) (.factor hd')

end Reading

/-! ## Words of a text -/

namespace Token

/-- A blank keeps the words before it and after it apart. -/
theorem ofText_append (s t : String) : ofText (s ++ " " ++ t) = ofText s ++ ofText t := by
  have hlist : (s ++ " " ++ t).toList = s.toList ++ ' ' :: t.toList := by simp
  unfold ofText
  rw [hlist, List.splitOn_append_cons_self, List.map_append]

/-- An operator with blanks around it keeps the words before it and after it apart. -/
theorem ofText_operator {word : String} {op : Operator} (h : ofText word = [.operator op])
    (s t : String) :
    ofText (s ++ (" " ++ word ++ " ") ++ t) = ofText s ++ .operator op :: ofText t := by
  have hblanks : s ++ (" " ++ word ++ " ") ++ t = s ++ " " ++ (word ++ " " ++ t) := by
    simp only [String.append_assoc]
  rw [hblanks, ofText_append, ofText_append, h, List.singleton_append]

theorem ofText_name {name : String} (h : Expression.IsName name) : ofText name = [.name name] := by
  have hsingle : name.toList.splitOn ' ' = [name.toList] :=
    List.splitOn_eq_singleton h.blank_not_mem
  rw [ofText, hsingle, List.map_singleton, String.ofList_toList, h.ofWord_eq]

theorem ofText_not {name : String} (h : Expression.IsName name) :
    ofText ("NOT " ++ name) = [.not, .name name] := by
  have hblank : "NOT " ++ name = "NOT" ++ " " ++ name := rfl
  have hword : ofText "NOT" = [.not] := by decide
  rw [hblank, ofText_append, ofText_name h, hword, List.singleton_append]

end Token

/-! ## Descriptions -/

/-- What the text of an operand is to say. -/
def BoxOperand.expression (left right : String) : BoxOperand → Expression
  | .a => .register left
  | .b => .register right
  | .notA => .not (.register left)
  | .notB => .not (.register right)

/-- What the text of a formula is to say. -/
def BoxFormula.expression (left right : String) : BoxFormula → Expression
  | .operand p => p.expression left right
  | .and p q => .binary .and (p.expression left right) (q.expression left right)
  | .or p q => .binary .or (p.expression left right) (q.expression left right)
  | .eqv p q => .binary .eqv (p.expression left right) (q.expression left right)
  | .ones => .ones
  | .zero => .zero

section Descriptions

variable {left right : String} (hleft : Expression.IsName left) (hright : Expression.IsName right)
  {e : Expression}

include hleft hright

theorem BoxOperand.factor (p : BoxOperand) :
    Factor (Token.ofText (p.text left right)) (p.expression left right) := by
  cases p with
  | a =>
    rw [text, Token.ofText_name hleft]
    exact .register left
  | b =>
    rw [text, Token.ofText_name hright]
    exact .register right
  | notA =>
    rw [text, Token.ofText_not hleft]
    exact .not (.register left)
  | notB =>
    rw [text, Token.ofText_not hright]
    exact .not (.register right)

/-- Two operands with an operator between them are read in one way. -/
theorem BoxOperand.reading_iff (p q : BoxOperand) (op : Operator) :
    Reading (Token.ofText (p.text left right) ++ .operator op :: Token.ofText (q.text left right)) e ↔
      e = .binary op (p.expression left right) (q.expression left right) := by
  have hp := p.factor hleft hright
  have hq := q.factor hleft hright
  rw [Reading.binary_iff hp.operator_not_mem hq.operator_not_mem]
  constructor
  · rintro ⟨d, d', hd, hd', rfl⟩
    rw [hd.unique hp, hd'.unique hq]
  · rintro rfl
    exact ⟨_, _, hp, hq, rfl⟩

/-- **The text of a formula is read in one way.** -/
theorem BoxFormula.reads_text_iff (p : BoxFormula) :
    Expression.Reads (p.text left right) e ↔ e = p.expression left right := by
  unfold Expression.Reads
  cases p with
  | operand p => exact Reading.iff_eq (p.factor hleft hright)
  | and p q =>
    have hword : Token.ofText "AND" = [.operator .and] := by decide
    exact (Token.ofText_operator hword _ _).symm ▸ p.reading_iff hleft hright q .and
  | or p q =>
    have hword : Token.ofText "OR" = [.operator .or] := by decide
    exact (Token.ofText_operator hword _ _).symm ▸ p.reading_iff hleft hright q .or
  | eqv p q =>
    have hword : Token.ofText "EQV" = [.operator .eqv] := by decide
    exact (Token.ofText_operator hword _ _).symm ▸ p.reading_iff hleft hright q .eqv
  | ones =>
    have hword : Token.ofText "-1" = [.ones] := by decide
    exact hword.symm ▸ Reading.iff_eq .ones
  | zero =>
    have hword : Token.ofText "0" = [.zero] := by decide
    exact hword.symm ▸ Reading.iff_eq .zero

end Descriptions

/-- The significant bits of a word. -/
def Word.significant (w : Word) : BitVec 24 := w.toBitVec.setWidth 24

theorem Word.getLsbD_significant (w : Word) (i : Nat) :
    w.significant.getLsbD i = (decide (i < 24) && w.toNat.testBit i) := by
  rw [significant, BitVec.getLsbD_setWidth]
  rfl

/-- **An expression made from a formula** is worked out on each bit apart. -/
theorem BoxFormula.getLsbD_value (p : BoxFormula) (left right : String) (r : String → BitVec 24)
    {i : Nat} (hi : i < 24) :
    ((p.expression left right).value r).getLsbD i =
      p.holds ((r left).getLsbD i) ((r right).getLsbD i) := by
  have hoperand (o : BoxOperand) : ((o.expression left right).value r).getLsbD i =
      o.holds ((r left).getLsbD i) ((r right).getLsbD i) := by
    cases o <;> simp [BoxOperand.expression, Expression.value, BoxOperand.holds, hi]
  cases p with
  | operand o => exact hoperand o
  | and o o' =>
    rw [holds, ← hoperand o, ← hoperand o']
    exact BitVec.getLsbD_and
  | or o o' =>
    rw [holds, ← hoperand o, ← hoperand o']
    exact BitVec.getLsbD_or
  | eqv o o' =>
    rw [holds, ← hoperand o, ← hoperand o', expression, Expression.value, Operator.combine,
      BitVec.getLsbD_not, BitVec.getLsbD_xor, decide_eq_true hi, Bool.true_and, ← Bool.bne_eq_xor]
    exact Bool.not_not _
  | ones =>
    have hones : (-1 : BitVec 24) = BitVec.allOnes 24 := rfl
    rw [expression, Expression.value, hones, BitVec.getLsbD_allOnes, decide_eq_true hi, holds]
  | zero => exact BitVec.getLsbD_zero

namespace BoxFunction

/-- **What the description says is what the box does.** -/
theorem toNat_value_expression (f : BoxFunction) (left right : String) (r : String → Word) :
    ((f.formula.expression left right).value fun name => (r name).significant).toNat =
      (f.apply (r left) (r right)).toNat := by
  refine Nat.eq_of_testBit_eq fun i => ?_
  rw [BitVec.testBit_toNat, testBit_apply]
  by_cases hi : i < 24
  · rw [BoxFormula.getLsbD_value _ _ _ _ hi, Word.getLsbD_significant, Word.getLsbD_significant,
      decide_eq_true hi, Bool.true_and, Bool.true_and, Bool.true_and]
  · rw [BitVec.getLsbD_of_ge _ _ (by omega), decide_eq_false hi, Bool.false_and]

/-! ## Boxes -/

/-- **Boolean boxes are bitwise, and their descriptions are true.** Only the low four bits of a code
count. Whatever words of 32 bits are given to the function of a code:

* it gives 24 bits, and bits above the significant ones do not count;
* a bit of what it gives depends on the bits of its operands at the same place only;
* its description with any two names of registers is read in one way, and what is read has the value
  that the function gives;
* it is the complement of the function of 17 octal less the code, but for the codes 1 and 16 and the
  codes 4 and 13. -/
theorem boxes_are_bitwise (code : UInt8) :
    let f := ofCode code
    all[code.toNat % 16]? = some f ∧
    (∀ a b, (f.apply a b).toNat < 2 ^ 24) ∧
    (∀ a b a' b', a'.toNat % 2 ^ 24 = a.toNat % 2 ^ 24 → b'.toNat % 2 ^ 24 = b.toNat % 2 ^ 24 →
      f.apply a' b' = f.apply a b) ∧
    (∀ a b a' b' i, a'.toNat.testBit i = a.toNat.testBit i →
      b'.toNat.testBit i = b.toNat.testBit i →
      (f.apply a' b').toNat.testBit i = (f.apply a b).toNat.testBit i) ∧
    (∀ left right, Expression.IsName left → Expression.IsName right →
      ∃ e : Expression, (∀ d, Expression.Reads (f.describe left right) d ↔ d = e) ∧
        ∀ r : String → Word,
          (e.value fun name => (r name).significant).toNat = (f.apply (r left) (r right)).toNat) ∧
    ((∀ a b, (ofCode (0o17 - code)).apply a b = (~~~f.apply a b).trim) ↔
      code.toNat % 16 ∉ [0o01, 0o04, 0o13, 0o16]) := by
  intro f
  have hplace : (code &&& 0o17).toNat = code.toNat % 16 :=
    Nat.and_two_pow_sub_one_eq_mod code.toNat 4
  refine ⟨hplace ▸ getElem?_all code, f.apply_lt, fun _ _ _ _ ha hb => f.apply_congr ha hb,
    fun a b a' b' i ha hb => ?_, fun left right hleft hright => ?_, ?_⟩
  · rw [testBit_apply, testBit_apply, ha, hb]
  · exact ⟨f.formula.expression left right,
      fun d => f.formula.reads_text_iff hleft hright, f.toNat_value_expression left right⟩
  · rw [complement_iff]
    exact holds_complement_iff code

/-- The spare code 13, with a bit above the low four: it ignores the bits above the significant ones
and the first operand, it is described as the complement of Q and is that complement, and so it is
not the complement of the function of code 4. -/
theorem boxes_are_bitwise_spare :
    let f := ofCode 0o113
    f.apply 0xFF123456 0x81000001 = f.apply 0x00123456 1 ∧
      (f.apply 0x00123456 1).toNat.testBit 0 = (f.apply 0 0xFFFFFFFF).toNat.testBit 0 ∧
      (∀ d, Expression.Reads (f.describe "Z" "Q") d ↔ d = .not (.register "Q")) ∧
      (∀ r : String → Word,
        (~~~(r "Q").significant).toNat = (f.apply (r "Z") (r "Q")).toNat) ∧
      ¬ ∀ a b, (ofCode (0o17 - 0o113)).apply a b = (~~~f.apply a b).trim := by
  intro f
  obtain ⟨-, -, hhigh, hbits, hreads, hcomplement⟩ := boxes_are_bitwise 0o113
  obtain ⟨e, hread, hvalue⟩ := hreads "Z" "Q" ⟨by decide, by decide⟩ ⟨by decide, by decide⟩
  have hwords : Token.ofText (f.describe "Z" "Q") = [.not, .name "Q"] := by decide
  have hnot : Expression.Reads (f.describe "Z" "Q") (.not (.register "Q")) :=
    .factor (hwords ▸ .not (.register "Q"))
  obtain rfl := (hread _).mp hnot
  exact ⟨hhigh _ _ _ _ (by decide) (by decide), hbits _ _ _ _ 0 (by decide) (by decide), hread,
    hvalue, mt hcomplement.mp (by decide)⟩

end BoxFunction

end MicroEngine
