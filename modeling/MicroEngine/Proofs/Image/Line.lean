import MicroEngine.Image
import MicroEngine.Proofs.Image.Assignment
/-!
# One line of an image

What a line says depends neither on blanks at its ends nor on its comment.

* `beforeComment_append`, `beforeComment_comment`: the part in front of the comment, when something
  is put at the end of the line.
* `readLine_dropReturn`, `readLine_blanks`, `readLine_beforeComment`: changes of a line that never
  change what it says.
* **`readLine_comment`**: a comment put at the end of a line that says something valid.
-/

namespace MicroEngine.Image

open Text

/-! ## The part in front of the comment -/

theorem beforeComment_cons {c : Char} {cs : List Char}
    (h : ∀ rest, c = '/' → cs = '/' :: rest → False) :
    beforeComment (c :: cs) = c :: beforeComment cs := by
  rw [beforeComment]
  exact h

theorem beforeComment_of_no_slash : ∀ {cs : List Char} (_ : '/' ∉ cs) (rest : List Char),
    beforeComment (cs ++ rest) = cs ++ beforeComment rest
  | [], _, _ => rfl
  | c :: cs, h, rest => by
    rw [List.mem_cons, not_or] at h
    rw [List.cons_append, beforeComment_cons fun _ hc _ => h.1 hc.symm,
      beforeComment_of_no_slash h.2 rest, List.cons_append]

/-- What is put at the end of a line without a slash stands in front of the comment or in it. -/
theorem beforeComment_append {b : List Char} (hb : '/' ∉ b) (cs : List Char) :
    beforeComment (cs ++ b) = beforeComment cs ∨
      beforeComment (cs ++ b) = beforeComment cs ++ b := by
  fun_induction beforeComment cs with
  | case1 rest => exact .inl rfl
  | case2 c cs hc ih =>
    have hc' : ∀ rest, c = '/' → cs ++ b = '/' :: rest → False := by
      intro rest hslash heq
      cases cs with
      | nil => exact hb (by rw [List.nil_append] at heq; simp [heq])
      | cons d ds =>
        cases heq
        exact hc ds hslash rfl
    rw [List.cons_append, beforeComment_cons hc']
    rcases ih with ih | ih
    · exact .inl (by rw [ih])
    · exact .inr (by rw [ih, List.cons_append])
  | case3 =>
    have hnil : beforeComment b = b := by
      have h := beforeComment_of_no_slash hb []
      rwa [List.append_nil, beforeComment, List.append_nil] at h
    exact .inr hnil

/-- A comment put at the end of a line leaves what is in front of the first one, but for a slash that
it joins. -/
theorem beforeComment_comment (cs note : List Char) :
    beforeComment (cs ++ '/' :: '/' :: note) = beforeComment cs ∨
      beforeComment cs = beforeComment (cs ++ '/' :: '/' :: note) ++ ['/'] := by
  fun_induction beforeComment cs with
  | case1 rest => exact .inl rfl
  | case2 c cs hc ih =>
    by_cases hslash : c = '/' ∧ cs = []
    · obtain ⟨rfl, rfl⟩ := hslash
      exact .inr rfl
    · have hc' : ∀ rest, c = '/' → cs ++ '/' :: '/' :: note = '/' :: rest → False := by
        intro rest hs heq
        cases cs with
        | nil => exact hslash ⟨hs, rfl⟩
        | cons d ds =>
          cases heq
          exact hc ds hs rfl
      rw [List.cons_append, beforeComment_cons hc']
      rcases ih with ih | ih
      · exact .inl (by rw [ih])
      · exact .inr (by rw [List.cons_append, ← ih])
  | case3 => exact .inl rfl

theorem beforeComment_beforeComment (cs : List Char) :
    beforeComment (beforeComment cs) = beforeComment cs := by
  fun_induction beforeComment cs with
  | case1 rest => rfl
  | case2 c cs hc ih =>
    have hc' : ∀ rest, c = '/' → beforeComment cs = '/' :: rest → False := by
      intro rest hslash heq
      cases cs with
      | nil => cases heq
      | cons d ds =>
        have hd : d = '/' := by
          by_cases hdd : ∀ rest, d = '/' → ds = '/' :: rest → False
          · rw [beforeComment_cons hdd] at heq
            exact (List.cons.inj heq).1
          · push Not at hdd
            exact hdd.choose_spec.1
        exact hc ds hslash (by rw [hd])
    rw [beforeComment_cons hc', ih]
  | case3 => rfl

/-! ## What a line says -/

/-- Two lines whose parts in front of the comment are the same up to blanks say the same. -/
theorem readLine_congr {l l' : List Char} (h : statement l = statement l') :
    readLine l = readLine l' := by
  unfold readLine
  rw [h]

section Blanks

variable {b : List Char} (hb : ∀ c ∈ b, isBlank c = true)

include hb

theorem slash_not_mem_blanks : '/' ∉ b := fun h => absurd (hb '/' h) (by decide)

theorem statement_append_blanks (l : List Char) : statement (l ++ b) = statement l := by
  unfold statement
  rcases beforeComment_append (slash_not_mem_blanks hb) l with h | h
  · rw [h]
  · rw [h, trim_append_blanks hb]

theorem statement_blanks_append (l : List Char) : statement (b ++ l) = statement l := by
  unfold statement
  rw [beforeComment_of_no_slash (slash_not_mem_blanks hb), trim_blanks_append hb]

end Blanks

/-- Blanks at the ends of a line do not change what it says. -/
theorem readLine_blanks {b b' : List Char} (hb : ∀ c ∈ b, isBlank c = true)
    (hb' : ∀ c ∈ b', isBlank c = true) (l : List Char) : readLine (b ++ l ++ b') = readLine l := by
  apply readLine_congr
  rw [statement_append_blanks hb', statement_blanks_append hb]

/-- Nor does a carriage return at the end of the line. -/
theorem readLine_dropReturn (l : List Char) : readLine (dropReturn l) = readLine l := by
  unfold dropReturn
  split
  · next h =>
    rw [beq_iff_eq] at h
    have hl : l = l.dropLast ++ ['\r'] := (List.dropLast_append_getLast? '\r' h).symm
    conv_rhs => rw [hl]
    have hblank : ∀ c ∈ ['\r'], isBlank c = true := List.forall_mem_singleton.mpr (by decide)
    exact (readLine_congr (statement_append_blanks hblank _)).symm
  · rfl

/-- Nor does the removal of its comment. -/
theorem readLine_beforeComment (l : List Char) : readLine (beforeComment l) = readLine l := by
  apply readLine_congr
  unfold statement
  rw [beforeComment_beforeComment]

/-- **A comment put at the end of a valid line** does not change what it says. -/
theorem readLine_comment {l : List Char} (note : List Char)
    (h : ∀ cause, readLine l ≠ some (.error cause)) :
    readLine (l ++ '/' :: '/' :: note) = readLine l := by
  rcases beforeComment_comment l note with heq | heq
  · exact readLine_congr (by unfold statement; rw [heq])
  -- The line ends in a slash. An assignment does not, so the line is silent, and stays silent.
  obtain ⟨t, ht⟩ := exists_trim_concat (beforeComment (l ++ '/' :: '/' :: note)) (c := '/')
    (by decide)
  have hs : statement l = t ++ ['/'] := by
    unfold statement
    rw [heq, ht]
  have hsilent : isSilent (statement l) = true := by
    by_contra hloud
    have hl : readLine l = some (Assignment.read (statement l)) := by
      unfold readLine
      rw [if_neg hloud]
    cases ha : Assignment.read (statement l) with
    | error cause => exact h cause (by rw [hl, ha])
    | ok a =>
      rw [hs] at ha
      exact Assignment.not_read_slash ha
  have hhead : (statement l).head? = some ';' := by
    unfold isSilent at hsilent
    rw [hs] at hsilent ⊢
    simpa using hsilent
  have hhead' : (statement (l ++ '/' :: '/' :: note)).head? = some ';' := by
    unfold statement at hhead ⊢
    rw [heq, head?_trim, List.find?_append] at hhead
    rw [head?_trim]
    cases hfirst : (beforeComment (l ++ '/' :: '/' :: note)).find? (!isBlank ·) with
    | none => rw [hfirst] at hhead; exact absurd hhead (by decide)
    | some c => rw [hfirst] at hhead; exact hhead
  have hsilent' : isSilent (statement (l ++ '/' :: '/' :: note)) = true := by
    unfold isSilent
    rw [hhead']
    simp
  unfold readLine
  rw [if_pos hsilent, if_pos hsilent']

end MicroEngine.Image
