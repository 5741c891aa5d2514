import MicroEngine.Text.Blank
import Mathlib.Data.List.DropRight
import Mathlib.Data.List.TakeWhile
/-!
# Lines and blanks

Between its line feeds a text has raw lines, which may still end in a carriage return.

* `mem_intercalate_iff`: the characters of a joined text.
* `unlines`: the text of raw lines; `exists_unlines`: every text is that of some raw lines.
* **`lines_unlines`**: the lines of a text, by its raw lines.
* `toList_join_lines`: lines that are written one by one.
* `trim_blanks_append`, `trim_append_blanks`: blanks at the ends play no part in a trimmed text.
* `trim_of_ends`: a text without blanks at its ends is trimmed.
* `exists_dropEndWhile`, `exists_trim`: a text put together from what is left of it and what is not.
-/

namespace MicroEngine.Text

/-- A character that is not in the separator is in a joined text exactly if it is in a part of it. -/
theorem mem_intercalate_iff {c : Char} {sep : List Char} (hsep : c ∉ sep) {ls : List (List Char)} :
    c ∈ sep.intercalate ls ↔ ∃ l ∈ ls, c ∈ l := by
  induction ls with
  | nil => simp
  | cons l ls ih =>
    cases ls with
    | nil => simp
    | cons l' ls =>
      rw [List.intercalate_cons_of_ne_nil (by simp), List.mem_append, List.mem_append, ih]
      simp [hsep]

/-- The text of raw lines, with a line feed between two of them. -/
def unlines (ls : List (List Char)) : List Char := ['\n'].intercalate ls

theorem unlines_cons {ls : List (List Char)} (l : List Char) (h : ls ≠ []) :
    unlines (l :: ls) = l ++ '\n' :: unlines ls := by
  unfold unlines
  rw [List.intercalate_cons_of_ne_nil h]
  simp

theorem exists_unlines : ∀ cs : List Char,
    ∃ ls, ls ≠ [] ∧ (∀ l ∈ ls, '\n' ∉ l) ∧ unlines ls = cs
  | [] => ⟨[[]], by simp, by simp, rfl⟩
  | c :: cs => by
    obtain ⟨ls, hne, hfeed, rfl⟩ := exists_unlines cs
    -- A line feed starts a new raw line, any other character belongs to the first one.
    by_cases hc : c = '\n'
    · refine ⟨[] :: ls, by simp, ?_, ?_⟩
      · simpa using hfeed
      · rw [unlines_cons [] hne, hc]
        rfl
    · obtain ⟨l, ls, rfl⟩ := List.exists_cons_of_ne_nil hne
      refine ⟨(c :: l) :: ls, by simp, ?_, ?_⟩
      · obtain ⟨hl, hls⟩ := List.forall_mem_cons.mp hfeed
        refine List.forall_mem_cons.mpr ⟨?_, hls⟩
        rw [List.mem_cons, not_or]
        exact ⟨fun h => hc h.symm, hl⟩
      · cases ls with
        | nil => simp [unlines]
        | cons l' ls =>
          rw [unlines_cons (c :: l) (by simp), unlines_cons l (by simp)]
          rfl

/-! ## Lines -/

section Lines

variable {l : List Char} (h : '\n' ∉ l)

include h

theorem forall_ne_feed : ∀ c ∈ l, (c != '\n') = true := by
  intro c hc
  simp only [bne_iff_ne, ne_eq]
  rintro rfl
  exact h hc

theorem lines_of_no_feed (hne : l ≠ []) : lines l = [l] := by
  have hdrop : l.dropWhile (· != '\n') = [] :=
    List.dropWhile_eq_nil_iff.mpr (forall_ne_feed h)
  rw [lines, dif_neg hne]
  split
  · rfl
  · next hr =>
    rw [hdrop] at hr
    cases hr

/-- The first line of a text ends at its first line feed. -/
theorem lines_append_feed (rest : List Char) :
    lines (l ++ '\n' :: rest) = dropReturn l :: lines rest := by
  have hdrop : (l ++ '\n' :: rest).dropWhile (· != '\n') = '\n' :: rest := by
    rw [List.dropWhile_append_of_pos (forall_ne_feed h)]
    rfl
  have htake : (l ++ '\n' :: rest).takeWhile (· != '\n') = l := by
    rw [List.takeWhile_append_of_pos (forall_ne_feed h)]
    simp
  rw [lines, dif_neg (by simp)]
  split
  · next hr =>
    rw [hdrop] at hr
    cases hr
  · next hr =>
    rw [hdrop] at hr
    cases hr
    rw [htake]

end Lines

/-- **The lines of a text**: its raw lines, without the carriage return in front of a line feed; what
follows the last line feed is a line if it is not empty. -/
theorem lines_unlines : ∀ {ls : List (List Char)} {last : List Char},
    (∀ l ∈ ls, '\n' ∉ l) → '\n' ∉ last →
    lines (unlines (ls ++ [last])) = ls.map dropReturn ++ (if last = [] then [] else [last])
  | [], last, _, hlast => by
    have hone : unlines ([] ++ [last]) = last := by simp [unlines]
    rw [hone]
    by_cases hne : last = []
    · rw [if_pos hne, hne, lines, dif_pos rfl]
      rfl
    · rw [if_neg hne, lines_of_no_feed hlast hne]
      rfl
  | l :: ls, last, hls, hlast => by
    obtain ⟨hl, hls⟩ := List.forall_mem_cons.mp hls
    rw [List.cons_append, unlines_cons l (by simp), lines_append_feed hl, lines_unlines hls hlast]
    rfl

/-- Lines that are written with a line feed after each are raw lines before an empty one. -/
theorem toList_join_lines (ls : List String) :
    (String.join (ls.map (· ++ "\n"))).toList = unlines (ls.map String.toList ++ [[]]) := by
  rw [String.toList_join, List.flatMap_map]
  induction ls with
  | nil => rfl
  | cons l ls ih =>
    rw [List.map_cons, List.cons_append, unlines_cons _ (by simp), ← ih, List.flatMap_cons,
      String.toList_append, List.append_assoc]
    rfl

/-! ## Blanks -/

theorem dropEndWhile_append {p : Char → Bool} {tail : List Char} (h : ∀ c ∈ tail, p c = true)
    (cs : List Char) : dropEndWhile p (cs ++ tail) = dropEndWhile p cs := by
  have htail : ∀ c ∈ tail.reverse, p c = true := fun c hc => h c (List.mem_reverse.mp hc)
  unfold dropEndWhile
  rw [List.reverse_append, List.dropWhile_append_of_pos htail]

section Blanks

variable {b : List Char} (hb : ∀ c ∈ b, isBlank c = true)

include hb

theorem trim_blanks_append (cs : List Char) : trim (b ++ cs) = trim cs := by
  unfold trim trimStart
  rw [List.dropWhile_append_of_pos hb]

theorem trimEnd_append_blanks (cs : List Char) : trimEnd (cs ++ b) = trimEnd cs :=
  dropEndWhile_append hb cs

theorem trim_append_blanks (cs : List Char) : trim (cs ++ b) = trim cs := by
  have hnil : b.dropWhile isBlank = [] := List.dropWhile_eq_nil_iff.mpr hb
  unfold trim trimStart
  rw [List.dropWhile_append]
  by_cases hcs : (cs.dropWhile isBlank).isEmpty = true
  · rw [if_pos hcs, hnil, List.isEmpty_iff.mp hcs]
  · rw [if_neg hcs, trimEnd_append_blanks hb]

end Blanks

/-- What ends in a character that stays is left alone. -/
theorem dropEndWhile_concat {p : Char → Bool} {c : Char} (cs : List Char) (h : p c = false) :
    dropEndWhile p (cs ++ [c]) = cs ++ [c] :=
  List.rdropWhile_concat_neg p cs c (by rw [h]; decide)

theorem dropEndWhile_of_forall {p : Char → Bool} {cs : List Char} (h : ∀ c ∈ cs, p c = false) :
    dropEndWhile p cs = cs := by
  rcases List.eq_nil_or_concat' cs with rfl | ⟨cs, c, rfl⟩
  · rfl
  · exact dropEndWhile_concat cs (h c (by simp))

theorem trimEnd_concat {c : Char} (cs : List Char) (h : isBlank c = false) :
    trimEnd (cs ++ [c]) = cs ++ [c] :=
  dropEndWhile_concat cs h

/-- A text that ends in no blank still ends in the same character when it is trimmed. -/
theorem exists_trim_concat {c : Char} (cs : List Char) (h : isBlank c = false) :
    ∃ cs', trim (cs ++ [c]) = cs' ++ [c] := by
  have hstart : ∃ cs', trimStart (cs ++ [c]) = cs' ++ [c] := by
    unfold trimStart
    rw [List.dropWhile_append]
    split
    · exact ⟨[], by rw [List.dropWhile_cons_of_neg (by rw [h]; decide)]; rfl⟩
    · exact ⟨_, rfl⟩
  obtain ⟨cs', hcs'⟩ := hstart
  exact ⟨cs', by rw [trim, hcs', trimEnd_concat cs' h]⟩

/-- What is in front of a character that is no blank plays no part at the end of a text. -/
theorem trimEnd_append_cons {c : Char} (cs rest : List Char) (h : isBlank c = false) :
    trimEnd (cs ++ c :: rest) = cs ++ c :: trimEnd rest := by
  have hc : (c :: cs.reverse).dropWhile isBlank = c :: cs.reverse :=
    List.dropWhile_cons_of_neg (by rw [h]; decide)
  unfold trimEnd dropEndWhile
  rw [List.reverse_append, List.reverse_cons, List.append_assoc, List.singleton_append,
    List.dropWhile_append, hc]
  split
  · next hnil =>
    rw [List.isEmpty_iff.mp hnil]
    simp
  · simp

/-- A text that ends in no blank has an end that ends in none. -/
theorem trimEnd_of_append_cons {c : Char} {cs rest : List Char} (h : isBlank c = false)
    (hend : trimEnd (cs ++ c :: rest) = cs ++ c :: rest) : trimEnd rest = rest := by
  rw [trimEnd_append_cons cs rest h] at hend
  exact (List.cons.inj (List.append_cancel_left hend)).2

/-- A character that is no blank keeps its place in front of what is trimmed. -/
theorem trimEnd_cons {c : Char} (cs : List Char) (h : isBlank c = false) :
    trimEnd (c :: cs) = c :: trimEnd cs :=
  trimEnd_append_cons [] cs h

/-- A trimmed text starts with the first character that is no blank. -/
theorem head?_trim (cs : List Char) : (trim cs).head? = cs.find? (!isBlank ·) := by
  induction cs with
  | nil => rfl
  | cons c cs ih =>
    cases hc : isBlank c with
    | true =>
      have hskip : trim (c :: cs) = trim cs := by
        unfold trim trimStart
        rw [List.dropWhile_cons_of_pos hc]
      rw [hskip, ih, List.find?_cons_of_neg (by simp [hc])]
    | false =>
      have hkeep : trimStart (c :: cs) = c :: cs :=
        List.dropWhile_cons_of_neg (by rw [hc]; decide)
      rw [trim, hkeep, trimEnd_cons cs hc, List.find?_cons_of_pos (by simp [hc])]
      rfl

theorem trim_of_forall {cs : List Char} (h : ∀ c ∈ cs, isBlank c = false) : trim cs = cs := by
  have hstart : trimStart cs = cs := by
    cases cs with
    | nil => rfl
    | cons c cs => exact List.dropWhile_cons_of_neg (by rw [h c List.mem_cons_self]; decide)
  rw [trim, hstart]
  exact dropEndWhile_of_forall h

theorem trim_of_ends {c d : Char} (cs : List Char) (hc : isBlank c = false)
    (hd : isBlank d = false) : trim (c :: (cs ++ [d])) = c :: (cs ++ [d]) := by
  unfold trim trimStart
  rw [List.dropWhile_cons_of_neg (by simp [hc]), ← List.cons_append, trimEnd_concat _ hd]

/-- A text is what is left when its last characters are dropped, and these. -/
theorem exists_dropEndWhile (p : Char → Bool) (cs : List Char) :
    ∃ tail, (∀ c ∈ tail, p c = true) ∧ cs = dropEndWhile p cs ++ tail := by
  refine ⟨(cs.reverse.takeWhile p).reverse, fun c hc => ?_, ?_⟩
  · exact List.mem_takeWhile_imp (List.mem_reverse.mp hc)
  · rw [dropEndWhile, ← List.reverse_append, List.takeWhile_append_dropWhile, List.reverse_reverse]

/-- A text is the trimmed text with blanks around it. -/
theorem exists_trim (cs : List Char) :
    ∃ b b', (∀ c ∈ b, isBlank c = true) ∧ (∀ c ∈ b', isBlank c = true) ∧
      cs = b ++ trim cs ++ b' := by
  have hstart : cs.takeWhile isBlank ++ trimStart cs = cs := List.takeWhile_append_dropWhile
  obtain ⟨b', hb', hend⟩ := exists_dropEndWhile isBlank (trimStart cs)
  have hb : ∀ c ∈ cs.takeWhile isBlank, isBlank c = true := fun c hc => List.mem_takeWhile_imp hc
  exact ⟨cs.takeWhile isBlank, b', hb, hb', by rw [List.append_assoc, trim, trimEnd, ← hend, hstart]⟩

theorem trimEnd_trimEnd (cs : List Char) : trimEnd (trimEnd cs) = trimEnd cs :=
  List.rdropWhile_idempotent isBlank cs

/-- What ends in no blank has blanks in front alone. -/
theorem exists_trim_of_trimEnd {cs : List Char} (h : trimEnd cs = cs) :
    ∃ b, (∀ c ∈ b, isBlank c = true) ∧ cs = b ++ trim cs := by
  obtain ⟨b, b', hb, hb', hcs⟩ := exists_trim cs
  have hshort : (trimEnd (b ++ trim cs)).length ≤ (b ++ trim cs).length :=
    (List.rdropWhile_prefix isBlank _).length_le
  have hlength := congrArg List.length hcs
  rw [← trimEnd_append_blanks hb', ← hcs, h] at hshort
  rw [List.length_append] at hlength
  have hnil : b' = [] := List.eq_nil_of_length_eq_zero (by omega)
  rw [hnil, List.append_nil] at hcs
  exact ⟨b, hb, hcs⟩

end MicroEngine.Text
