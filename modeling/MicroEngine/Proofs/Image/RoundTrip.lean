import MicroEngine.Proofs.Image.Meaning
import MicroEngine.Proofs.Microword.Disassembly
/-!
# Writing an image and reading it back

An image is written as a header of comments and, for each entry that is not zero, the assignments of
its components that are not zero; the first of them carries the listing of the entry as a comment.

* `formatLines`, `formatted`: the lines of the image of a store, and the assignments that they say.
* `mem_formatted_iff`: which assignments these are.
* `filterMap_readLine_formatLines`: the lines say just these assignments.
* `parse_format`: a well-formed store is read back from its image.
* `wellFormed_of_parse`: what is read is well formed.
* `parse_format_eq_ok_iff`: the image of an ill-formed store is rejected.
* **`format_canonical`**: an accepted text has a canonical form.
-/

namespace MicroEngine

open Text

/-! ## Texts without line feeds -/

theorem Text.feed_not_mem_toDigits {b n : Nat} (hpos : 0 < b) (hb : b ≤ 10) :
    '\n' ∉ Nat.toDigits b n :=
  fun h => absurd (Nat.isDigit_of_mem_toDigits hpos hb h) (by decide)

/-- A listing is one line. -/
theorem Microword.feed_not_mem_disassemble (w : Microword) : '\n' ∉ w.disassemble.toList := by
  unfold disassemble
  rw [String.toList_intercalate]
  rw [mem_intercalate_iff (by decide)]
  rintro ⟨l, hl, hc⟩
  simp only [List.mem_map] at hl
  obtain ⟨_, ⟨cl, -, rfl⟩, rfl⟩ := hl
  exact absurd (Clause.mem_text hc) (by decide)

namespace Assignment

/-- The characters of an assignment's text. -/
theorem mem_text {a : Assignment} {c : Char} (h : c ∈ a.text.toList) :
    c ∈ "ROM[]= ;".toList ∨ isOctalDigit c = true := by
  have hindex (h : c ∈ (decimal a.component.index).toList) : isOctalDigit c = true := by
    rw [toList_decimal_index, List.mem_singleton] at h
    rw [h]
    cases a.component <;> decide
  rw [toList_text] at h
  simp only [List.mem_cons, List.mem_append, List.not_mem_nil, or_false] at h
  rcases h with rfl | rfl | rfl | rfl | h | rfl | rfl | h | rfl | rfl | rfl | rfl | h | rfl
  case inr.inr.inr.inr.inl => exact .inr (isOctalDigit_of_mem_octalPad h)
  case inr.inr.inr.inr.inr.inr.inr.inl => exact .inr (hindex h)
  case inr.inr.inr.inr.inr.inr.inr.inr.inr.inr.inr.inr.inl =>
    exact .inr (isOctalDigit_of_mem_octalPad h)
  all_goals exact .inl (by decide)

theorem feed_not_mem_text (a : Assignment) : '\n' ∉ a.text.toList :=
  fun h => absurd (mem_text h) (by decide)

theorem slash_not_mem_text (a : Assignment) : '/' ∉ a.text.toList :=
  fun h => absurd (mem_text h) (by decide)

end Assignment

namespace Image

/-! ## What the written lines say -/

theorem statement_text (a : Assignment) : statement a.text.toList = a.text.toList := by
  have hbefore := beforeComment_of_no_slash a.slash_not_mem_text []
  rw [beforeComment, List.append_nil] at hbefore
  unfold statement
  rw [hbefore, a.toList_text]
  simp only [← List.cons_append, ← List.append_assoc]
  exact trim_of_ends _ (by decide) (by decide)

theorem statement_text_comment (a : Assignment) (note : String) :
    statement (a.text ++ "  // " ++ note).toList = a.text.toList := by
  have htwo : ∀ c ∈ [' ', ' '], isBlank c = true :=
    List.forall_mem_cons.mpr ⟨by decide, Assignment.isBlank_of_mem_space⟩
  have hsplit : (a.text ++ "  // " ++ note).toList =
      a.text.toList ++ ' ' :: ' ' :: '/' :: '/' :: ' ' :: note.toList := by
    simp
  have hbefore : beforeComment (a.text ++ "  // " ++ note).toList =
      beforeComment (a.text.toList ++ [' ', ' ']) := by
    rw [hsplit, beforeComment_of_no_slash a.slash_not_mem_text,
      beforeComment_of_no_slash a.slash_not_mem_text]
    rfl
  have hstatement := statement_append_blanks htwo a.text.toList
  unfold statement at hstatement ⊢
  rw [hbefore, hstatement]
  exact statement_text a

variable {a : Assignment}

theorem readLine_of_statement {l : List Char} (h : statement l = a.text.toList) :
    readLine l = some (Assignment.read a.text.toList) := by
  have hsilent : isSilent a.text.toList = false := by
    rw [a.toList_text]
    rfl
  unfold readLine
  rw [h]
  dsimp only
  rw [hsilent]
  rfl

/-- An assignment that is written alone on a line is said there. -/
theorem readLine_text (h : a.InRange) : readLine a.text.toList = some (.ok a) := by
  rw [readLine_of_statement (statement_text a), Assignment.read_text h]

/-- So is one with a comment after it. -/
theorem readLine_text_comment (h : a.InRange) (note : String) :
    readLine (a.text ++ "  // " ++ note).toList = some (.ok a) := by
  rw [readLine_of_statement (statement_text_comment a note), Assignment.read_text h]

theorem filterMap_readLine_entryLines {i : Nat} {w : Microword}
    (h : ∀ a ∈ assignments i w, a.InRange) :
    ((entryLines i w).map String.toList).filterMap readLine =
      (assignments i w).map .ok := by
  have htexts (as : List Assignment) (has : ∀ a ∈ as, a.InRange) :
      ((as.map Assignment.text).map String.toList).filterMap readLine = as.map .ok := by
    rw [List.map_map, List.filterMap_map, ← List.filterMap_eq_map]
    apply List.filterMap_congr
    intro a ha
    simp only [Function.comp_apply]
    exact readLine_text (has a ha)
  unfold entryLines
  split
  · next hnil => rw [hnil]; rfl
  · next a as hcons =>
    rw [hcons] at h ⊢
    obtain ⟨ha, has⟩ := List.forall_mem_cons.mp h
    rw [List.map_cons, List.filterMap_cons_some (readLine_text_comment ha _), htexts as has]
    rfl

/-! ## The assignments that are written -/

/-- The lines of the image of a store. -/
def formatLines (r : ControlStore) : List String :=
  ["// BCC 500 microcode image",
    "// " ++ decimal r.populated.length ++ " populated entries"] ++
    r.populated.flatMap fun e => entryLines e.1 e.2

/-- The assignments that the image of a store says. -/
def formatted (r : ControlStore) : List Assignment :=
  r.populated.flatMap fun e => assignments e.1 e.2

theorem toList_format (r : ControlStore) :
    (format r).toList = unlines ((formatLines r).map String.toList ++ [[]]) :=
  toList_join_lines (formatLines r)

theorem mem_assignments_iff {i : Nat} {w : Microword} {x : Assignment} :
    x ∈ assignments i w ↔
      x.address = i.toUInt16 ∧ w.component x.component = x.value ∧ x.value ≠ 0 := by
  unfold assignments
  rw [List.mem_filterMap]
  constructor
  · rintro ⟨c, -, hc⟩
    split at hc
    · cases hc
    · next hne =>
      cases hc
      exact ⟨rfl, rfl, hne⟩
  · rintro ⟨haddress, hvalue, hne⟩
    refine ⟨x.component, by cases x.component <;> decide, ?_⟩
    rw [hvalue, if_neg hne, ← haddress]

theorem mem_populated_iff {r : ControlStore} {i : Nat} {w : Microword} :
    (i, w) ∈ r.populated ↔ i < 2048 ∧ r.read i.toUInt16 = w ∧ w.isNop = false := by
  unfold ControlStore.populated
  simp only [List.mem_filterMap, Prod.exists, List.mem_zipIdx_iff_getElem?]
  constructor
  · rintro ⟨v, j, hv, hw⟩
    split at hw
    · cases hw
    · next hnop =>
      cases hw
      obtain ⟨hi, rfl⟩ := List.getElem?_eq_some_iff.mp hv
      rw [Vector.length_toList] at hi
      refine ⟨hi, ?_, by simpa using hnop⟩
      rw [ControlStore.read_ofNat r hi, Vector.getElem_toList]
  · rintro ⟨hi, rfl, hnop⟩
    refine ⟨r.read i.toUInt16, i, ?_, by simp [hnop]⟩
    rw [ControlStore.read_ofNat r hi, List.getElem?_eq_some_iff]
    exact ⟨by simpa using hi, by simp⟩

theorem isNop_eq_false {w : Microword} {c : Component} (h : w.component c ≠ 0) :
    w.isNop = false := by
  by_contra hnop
  rw [Bool.not_eq_false] at hnop
  unfold Microword.isNop at hnop
  simp only [Bool.and_eq_true, beq_iff_eq] at hnop
  obtain ⟨⟨hhigh, hmiddle⟩, hlow⟩ := hnop
  cases c
  · exact h hhigh
  · exact h hmiddle
  · exact h hlow

/-- **What is written**: the components that are not zero, each assigned its value. -/
theorem mem_formatted_iff {r : ControlStore} {x : Assignment} :
    x ∈ formatted r ↔ x.address.toNat < 2048 ∧
      (r.read x.address).component x.component = x.value ∧ x.value ≠ 0 := by
  unfold formatted
  rw [List.mem_flatMap]
  constructor
  · rintro ⟨⟨i, w⟩, he, hx⟩
    obtain ⟨hi, rfl, -⟩ := mem_populated_iff.mp he
    obtain ⟨haddress, hvalue⟩ := mem_assignments_iff.mp hx
    have hlt : x.address.toNat < 2048 := by
      rw [haddress, Address.toNat_ofNat hi]
      exact hi
    rw [← haddress] at hvalue
    exact ⟨hlt, hvalue⟩
  · rintro ⟨hlt, hvalue, hne⟩
    have haddress : x.address.toNat.toUInt16 = x.address := UInt16.ofNat_toNat
    refine ⟨(x.address.toNat, r.read x.address), mem_populated_iff.mpr ⟨hlt, ?_, ?_⟩,
      mem_assignments_iff.mpr ⟨haddress.symm, hvalue, hne⟩⟩
    · rw [haddress]
    · exact isNop_eq_false (hvalue ▸ hne)

theorem inRange_of_mem_formatted {r : ControlStore} (h : r.WellFormed) {x : Assignment}
    (hx : x ∈ formatted r) : x.InRange := by
  obtain ⟨hlt, hvalue, -⟩ := mem_formatted_iff.mp hx
  refine ⟨hlt, ?_⟩
  rw [← hvalue]
  exact ControlStore.wellFormed_iff_fits.mp h _ _

/-- The last value that is written for a component is the value of the component, if it is not
zero. -/
theorem lastValue_formatted (r : ControlStore) {a : Address} (c : Component)
    (ha : a.toNat < 2048) :
    (lastValue (formatted r) (a, c)).getD 0 = (r.read a).component c := by
  cases hlast : lastValue (formatted r) (a, c) with
  | none =>
    -- Only a component that is zero is left out.
    by_contra hne
    have hmem : ⟨a, c, (r.read a).component c⟩ ∈ formatted r :=
      mem_formatted_iff.mpr ⟨ha, rfl, fun h => hne h.symm⟩
    exact lastValue_eq_none_iff.mp hlast _ hmem rfl
  | some v =>
    obtain ⟨x, hx, hplace, rfl⟩ := exists_of_lastValue hlast
    cases hplace
    exact (mem_formatted_iff.mp hx).2.1.symm

/-! ## The round trip -/

/-- **The written lines say the assignments that are written**, and nothing else. -/
theorem filterMap_readLine_formatLines {r : ControlStore} (h : r.WellFormed) :
    ((formatLines r).map String.toList ++ [[]]).filterMap readLine = (formatted r).map .ok := by
  have hcomment (note : List Char) : readLine ('/' :: '/' :: note) = none := by
    unfold readLine statement beforeComment
    rfl
  have hheader : ([("// BCC 500 microcode image" : String),
      "// " ++ decimal r.populated.length ++ " populated entries"].map String.toList).filterMap
        readLine = [] := by
    simp [hcomment]
  have hempty : [[]].filterMap readLine = [] := by decide
  have hbody (es : List (Nat × Microword)) (hes : ∀ e ∈ es, ∀ a ∈ assignments e.1 e.2, a.InRange) :
      ((es.flatMap fun e => entryLines e.1 e.2).map String.toList).filterMap readLine =
        (es.flatMap fun e => assignments e.1 e.2).map .ok := by
    induction es with
    | nil => rfl
    | cons e es ih =>
      obtain ⟨he, hes⟩ := List.forall_mem_cons.mp hes
      rw [List.flatMap_cons, List.map_append, List.filterMap_append,
        filterMap_readLine_entryLines he, ih hes, ← List.map_append, List.flatMap_cons]
  have hrange : ∀ e ∈ r.populated, ∀ a ∈ assignments e.1 e.2, a.InRange :=
    fun e he a ha => inRange_of_mem_formatted h (List.mem_flatMap.mpr ⟨e, he, ha⟩)
  -- The header is two comments, and nothing follows the last line feed.
  unfold formatLines formatted
  rw [List.map_append, List.filterMap_append, List.filterMap_append, hheader, hempty,
    hbody _ hrange, List.nil_append, List.append_nil]

theorem feed_not_mem_formatLines (r : ControlStore) :
    ∀ l ∈ (formatLines r).map String.toList ++ [[]], '\n' ∉ l := by
  have hdigits : '\n' ∉ Nat.toDigits 10 r.populated.length :=
    feed_not_mem_toDigits (by decide) (by decide)
  have hentry (i : Nat) (w : Microword) : ∀ l ∈ entryLines i w, '\n' ∉ l.toList := by
    unfold entryLines
    split
    · simp
    · next a as _ =>
      simp [a.feed_not_mem_text, w.feed_not_mem_disassemble, Assignment.feed_not_mem_text]
  simp only [List.forall_mem_append, List.forall_mem_map, formatLines]
  refine ⟨⟨?_, ?_⟩, by simp⟩
  · simp [decimal, hdigits]
  · intro l hl
    obtain ⟨e, -, hl⟩ := List.mem_flatMap.mp hl
    exact hentry e.1 e.2 l hl

/-- **A well-formed store is read back from its image.** -/
theorem parse_format {r : ControlStore} (h : r.WellFormed) : parse (format r) = .ok r := by
  have htext : format r = String.ofList (unlines ((formatLines r).map String.toList ++ [[]])) := by
    rw [← toList_format, String.ofList_toList]
  rw [htext, parse_unlines_eq_ok_iff (feed_not_mem_formatLines r)]
  constructor
  · rw [forall_not_faulty_iff_mem, filterMap_readLine_formatLines h]
    simp
  · have hsay : assigned ((formatLines r).map String.toList ++ [[]]) = formatted r := by
      rw [assigned_eq_filterMap, filterMap_readLine_formatLines h, List.filterMap_map]
      exact List.filterMap_some
    rw [hsay]
    apply ControlStore.ext_component
    intro a c ha
    rw [ControlStore.read_foldl_assign (fun x hx => inRange_of_mem_formatted h hx) _ c ha,
      ← lastValue_formatted r c ha, ControlStore.read_empty]
    cases c <;> rfl

/-- **What is read is well formed.** -/
theorem wellFormed_of_parse {text : String} {r : ControlStore} (h : parse text = .ok r) :
    r.WellFormed := by
  obtain ⟨-, rfl⟩ := parse_eq_ok_iff.mp h
  have hfold (as : List Assignment) (has : ∀ a ∈ as, a.InRange) (s : ControlStore)
      (hs : s.WellFormed) : (as.foldl ControlStore.assign s).WellFormed := by
    induction as generalizing s with
    | nil => exact hs
    | cons a as ih =>
      obtain ⟨ha, has⟩ := List.forall_mem_cons.mp has
      have hread := ControlStore.wellFormed_iff_fits.mp hs a.address
      exact ih has _ (ControlStore.wellFormed_write hs a.address
        (Microword.fits_setComponent hread a.component ha.value_lt))
  exact hfold _ (fun a ha => inRange_of_mem_assigned ha) _ ControlStore.wellFormed_empty

/-- If the assignments that are written are in range, the store is well formed. -/
theorem wellFormed_of_inRange {r : ControlStore} (h : ∀ x ∈ formatted r, x.InRange) :
    r.WellFormed := by
  intro w hw
  obtain ⟨i, hi, rfl⟩ := Vector.mem_iff_getElem.mp hw
  rw [← ControlStore.read_ofNat r hi]
  refine Microword.fits_iff.mp fun c => ?_
  by_cases hzero : (r.read i.toUInt16).component c = 0
  · rw [hzero]
    decide
  · have haddress : i.toUInt16.toNat < 2048 := by
      rw [Address.toNat_ofNat hi]
      exact hi
    have hmem : ⟨i.toUInt16, c, (r.read i.toUInt16).component c⟩ ∈ formatted r :=
      mem_formatted_iff.mpr ⟨haddress, rfl, hzero⟩
    exact (h _ hmem).value_lt

/-- Every assignment that is written stands on a line of its own. -/
theorem exists_line_of_mem_formatted {r : ControlStore} {x : Assignment} (hx : x ∈ formatted r) :
    ∃ l ∈ formatLines r, statement l.toList = x.text.toList := by
  obtain ⟨⟨i, w⟩, he, hx⟩ := List.mem_flatMap.mp hx
  have hline : ∃ l ∈ entryLines i w, statement l.toList = x.text.toList := by
    unfold entryLines
    split
    · next hnil =>
      rw [hnil] at hx
      cases hx
    · next a as hcons =>
      rw [hcons] at hx
      rcases List.mem_cons.mp hx with rfl | hx
      · exact ⟨_, List.mem_cons_self, statement_text_comment x _⟩
      · exact ⟨_, List.mem_cons_of_mem _ (List.mem_map_of_mem hx), statement_text x⟩
  obtain ⟨l, hl, hstatement⟩ := hline
  exact ⟨l, List.mem_append_right _ (List.mem_flatMap.mpr ⟨(i, w), he, hl⟩), hstatement⟩

/-- **Only the image of a well-formed store is accepted**, and it is read as that store. -/
theorem parse_format_eq_ok_iff {r r' : ControlStore} :
    parse (format r) = .ok r' ↔ r.WellFormed ∧ r' = r := by
  constructor
  · intro h
    have htext : format r = String.ofList (unlines ((formatLines r).map String.toList ++ [[]])) := by
      rw [← toList_format, String.ofList_toList]
    have haccepts := (parse_unlines_eq_ok_iff (feed_not_mem_formatLines r)).mp (htext ▸ h)
    have hrange {x : Assignment} (hx : x ∈ formatted r) : x.InRange := by
      obtain ⟨l, hl, hstatement⟩ := exists_line_of_mem_formatted hx
      have hmem : l.toList ∈ (formatLines r).map String.toList ++ [[]] :=
        List.mem_append_left _ (List.mem_map_of_mem hl)
      cases hread : Assignment.read x.text.toList with
      | ok y => exact Assignment.inRange_of_read_text hread
      | error cause =>
        refine absurd ?_ (haccepts.1 _ hmem cause)
        rw [← readLine_eq_error_iff, readLine_of_statement hstatement, hread]
    have hwell : r.WellFormed := wellFormed_of_inRange fun x hx => hrange hx
    exact ⟨hwell, Except.ok.inj (h.symm.trans (parse_format hwell))⟩
  · rintro ⟨hwell, rfl⟩
    exact parse_format hwell

/-- The store of a complete list of microwords of 30 bits in each component. -/
theorem exists_store {ws : List Microword} (hlength : ws.length = 2048) (hws : ∀ w ∈ ws, w.Fits) :
    ∃ r, ControlStore.ofList ws = .ok r ∧ r.toList = ws ∧ r.WellFormed := by
  unfold ControlStore.ofList
  rw [dif_pos hlength]
  refine ⟨_, rfl, ?_, ?_⟩
  · simp [ControlStore.toList]
  · intro w hw
    exact Microword.fits_iff.mp (hws w (by simpa using hw))

/-- **Images and texts.** Every complete list of microwords is read back from the image that is
written for it. Every accepted text has a complete list of microwords, and the image that is written
for them is its canonical form: it is read as the same microwords, it is its own canonical form, and
two texts have the same one exactly if they are read as the same microwords. -/
theorem format_canonical :
    (∀ ws : List Microword, ws.length = 2048 → (∀ w ∈ ws, w.Fits) →
      ∃ r, ControlStore.ofList ws = .ok r ∧ parse (format r) = .ok r ∧ r.toList = ws) ∧
    (∀ text r, parse text = .ok r →
      r.toList.length = 2048 ∧ (∀ w ∈ r.toList, w.Fits) ∧ parse (format r) = .ok r ∧
        (parse (format r)).map format = .ok (format r) ∧
        ∀ text' r', parse text' = .ok r' → (format r' = format r ↔ r' = r)) := by
  constructor
  · intro ws hlength hws
    obtain ⟨r, hr, hlist, hwell⟩ := exists_store hlength hws
    exact ⟨r, hr, parse_format hwell, hlist⟩
  · intro text r h
    have hwell := wellFormed_of_parse h
    have hback := parse_format hwell
    refine ⟨r.length_toList, ?_, hback, by rw [hback]; rfl, ?_⟩
    · intro w hw
      exact Microword.fits_iff.mpr (hwell w (by simpa [ControlStore.toList] using hw))
    · intro text' r' h'
      refine ⟨fun hformat => ?_, fun heq => by rw [heq]⟩
      have hback' := parse_format (wellFormed_of_parse h')
      rw [hformat, hback] at hback'
      cases hback'
      rfl

/-- A store full of microwords of all ones, and its image. -/
theorem format_canonical_ones :
    ∃ r, ControlStore.ofList
        (List.replicate 2048 ⟨0o7777777777, 0o7777777777, 0o7777777777⟩) = .ok r ∧
      parse (format r) = .ok r ∧ (parse (format r)).map format = .ok (format r) := by
  have hfits : Microword.Fits ⟨0o7777777777, 0o7777777777, 0o7777777777⟩ := by
    intro c
    cases c <;> decide
  obtain ⟨r, hr, hparse, -⟩ := format_canonical.1
    (List.replicate 2048 ⟨0o7777777777, 0o7777777777, 0o7777777777⟩) List.length_replicate
    (fun w hw => List.eq_of_mem_replicate hw ▸ hfits)
  obtain ⟨-, -, -, hagain, -⟩ := format_canonical.2 (format r) r hparse
  exact ⟨r, hr, hparse, hagain⟩

end Image

end MicroEngine
