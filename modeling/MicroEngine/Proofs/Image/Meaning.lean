import MicroEngine.Proofs.Image.Line
import MicroEngine.Proofs.Width
import Mathlib.Logic.Relation
/-!
# The meaning of an image

An image is read line by line. It is accepted if every line that says something says an assignment,
and then each component holds what the last line that assigns it says.

* `Assignment.place`, `lastValue`: the component that is assigned, and its last value in a list.
* `assigned`, `Faulty`: the assignments of lines, and the lines that are wrong.
* `read_foldl_assign`: the store after a list of assignments.
* `parse_eq_ok_iff`, `parse_eq_error_iff`: when an image is accepted, and which line is at fault.
* `Revision`, `parse_revision`: changes of a text that never change its image.
* **`parse_gives_last_values`**: all of this together.
-/

namespace MicroEngine

/-! ## Assignments carried out -/

/-- The component of the entry that is assigned. -/
def Assignment.place (a : Assignment) : Address × Component := (a.address, a.component)

/-- The value of the last assignment to a place. -/
def lastValue (as : List Assignment) (p : Address × Component) : Option UInt32 :=
  ((as.filter fun a => a.place = p).getLast?).map Assignment.value

theorem lastValue_append (as bs : List Assignment) (p : Address × Component) :
    lastValue (as ++ bs) p = (lastValue bs p).or (lastValue as p) := by
  unfold lastValue
  rw [List.filter_append, List.getLast?_append]
  cases (bs.filter fun a => a.place = p).getLast? <;> rfl

theorem lastValue_singleton (a : Assignment) (p : Address × Component) :
    lastValue [a] p = if a.place = p then some a.value else none := by
  unfold lastValue
  by_cases h : a.place = p <;> simp [h]

theorem exists_of_lastValue {as : List Assignment} {p : Address × Component} {v : UInt32}
    (h : lastValue as p = some v) : ∃ a ∈ as, a.place = p ∧ a.value = v := by
  obtain ⟨a, ha, hv⟩ := Option.map_eq_some_iff.mp h
  have hmem := List.mem_filter.mp (List.mem_of_getLast? ha)
  exact ⟨a, hmem.1, by simpa using hmem.2, hv⟩

theorem lastValue_eq_none_iff {as : List Assignment} {p : Address × Component} :
    lastValue as p = none ↔ ∀ a ∈ as, a.place ≠ p := by
  simp [lastValue]

namespace ControlStore

theorem slot_inj {a b : Address} (ha : a.toNat < 2048) (hb : b.toNat < 2048) :
    slot a = slot b ↔ a = b := by
  constructor
  · intro h
    have hval := congrArg Fin.val h
    simp only [slot, Fin.val_ofNat] at hval
    apply UInt16.toNat_inj.mp
    omega
  · rintro rfl
    rfl

/-- An assignment changes one component of one entry. -/
theorem read_assign {r : ControlStore} {x : Assignment} {a : Address} (c : Component)
    (hx : x.address.toNat < 2048) (ha : a.toNat < 2048) :
    ((r.assign x).read a).component c =
      if x.place = (a, c) then x.value else (r.read a).component c := by
  unfold assign
  rw [read_write]
  by_cases haddr : x.address = a
  · subst haddr
    rw [if_pos rfl, Microword.component_setComponent]
    by_cases hc : x.component = c <;> simp [Assignment.place, hc]
  · rw [if_neg (fun h => haddr ((slot_inj hx ha).mp h))]
    simp [Assignment.place, haddr]

/-- **After a list of assignments** each component holds the last value assigned to it. -/
theorem read_foldl_assign {as : List Assignment} (has : ∀ x ∈ as, x.InRange) (r : ControlStore)
    {a : Address} (c : Component) (ha : a.toNat < 2048) :
    ((as.foldl assign r).read a).component c =
      (lastValue as (a, c)).getD ((r.read a).component c) := by
  induction as generalizing r with
  | nil => rfl
  | cons x as ih =>
    obtain ⟨hx, has⟩ := List.forall_mem_cons.mp has
    have happ : lastValue (x :: as) (a, c) =
        (lastValue as (a, c)).or (if x.place = (a, c) then some x.value else none) := by
      rw [← List.singleton_append, lastValue_append, lastValue_singleton]
    rw [List.foldl_cons, ih has, read_assign c hx.address_lt ha, happ]
    cases lastValue as (a, c) with
    | some v => rfl
    | none => by_cases hp : x.place = (a, c) <;> simp [hp]

end ControlStore

theorem ControlStore.ext_component {r s : ControlStore}
    (h : ∀ (a : Address) (c : Component), a.toNat < 2048 →
      (r.read a).component c = (s.read a).component c) : r = s := by
  apply ext_read
  intro a
  have hslot : slot a = slot (a &&& Address.mask) := by
    apply Fin.ext
    simp only [slot, Fin.val_ofNat, Address.toNat_and_mask]
    omega
  have hread (t : ControlStore) : t.read a = t.read (a &&& Address.mask) := by
    unfold read
    rw [hslot]
  have hlt : (a &&& Address.mask).toNat < 2048 := by
    rw [Address.toNat_and_mask]
    omega
  rw [hread r, hread s]
  exact Microword.ext_component fun c => h _ c hlt

namespace Image

open Text

/-! ## Lines carried out -/

/-- A line says something that is no assignment. -/
def Faulty (l : List Char) (cause : AssignmentError) : Prop :=
  isSilent (statement l) = false ∧ Assignment.read (statement l) = .error cause

/-- The assignments that lines say, in order. -/
def assigned (ls : List (List Char)) : List Assignment :=
  ls.filterMap fun l => (readLine l).bind Except.toOption

theorem readLine_eq_error_iff {l : List Char} {cause : AssignmentError} :
    readLine l = some (.error cause) ↔ Faulty l cause := by
  unfold readLine Faulty
  cases hs : isSilent (statement l) <;> simp [hs]

theorem readLine_eq_ok_iff {l : List Char} {a : Assignment} :
    readLine l = some (.ok a) ↔
      isSilent (statement l) = false ∧ Assignment.read (statement l) = .ok a := by
  unfold readLine
  cases hs : isSilent (statement l) <;> simp [hs]

theorem inRange_of_mem_assigned {ls : List (List Char)} {a : Assignment} (h : a ∈ assigned ls) :
    a.InRange := by
  obtain ⟨l, -, hl⟩ := List.mem_filterMap.mp h
  obtain ⟨e, he, ha⟩ := Option.bind_eq_some_iff.mp hl
  cases e with
  | error cause => cases ha
  | ok x =>
    cases ha
    exact Assignment.inRange_of_read (readLine_eq_ok_iff.mp he).2

/-- Lines of which none is at fault are carried out in order. -/
theorem parseLines_of_sound : ∀ {ls : List (List Char)} (number : Nat) (r : ControlStore),
    (∀ l ∈ ls, ∀ cause, ¬ Faulty l cause) →
    parseLines number ls r = .ok ((assigned ls).foldl ControlStore.assign r)
  | [], _, _, _ => rfl
  | l :: ls, number, r, h => by
    obtain ⟨hl, hls⟩ := List.forall_mem_cons.mp h
    unfold parseLines assigned
    cases hr : readLine l with
    | none =>
      rw [List.filterMap_cons_none (by rw [hr]; rfl)]
      exact parseLines_of_sound (number + 1) r hls
    | some e =>
      cases e with
      | error cause => exact absurd (readLine_eq_error_iff.mp hr) (hl cause)
      | ok a =>
        rw [List.filterMap_cons_some (b := a) (by rw [hr]; rfl)]
        exact parseLines_of_sound (number + 1) (r.assign a) hls

/-- The first line at fault ends the reading. -/
theorem parseLines_of_fault {l : List Char} {cause : AssignmentError} (hl : Faulty l cause)
    (after : List (List Char)) : ∀ {before : List (List Char)} (number : Nat) (r : ControlStore),
    (∀ l ∈ before, ∀ cause, ¬ Faulty l cause) →
    parseLines number (before ++ l :: after) r = .error ⟨number + before.length, cause⟩
  | [], number, r, _ => by
    rw [List.nil_append, parseLines, readLine_eq_error_iff.mpr hl]
    rfl
  | l' :: before, number, r, h => by
    obtain ⟨hl', hbefore⟩ := List.forall_mem_cons.mp h
    have hnumber : number + (l' :: before).length = number + 1 + before.length := by
      rw [List.length_cons]
      omega
    rw [List.cons_append, parseLines, hnumber]
    cases hr : readLine l' with
    | none => exact parseLines_of_fault hl after (number + 1) r hbefore
    | some e =>
      cases e with
      | error cause' => exact absurd (readLine_eq_error_iff.mp hr) (hl' cause')
      | ok a => exact parseLines_of_fault hl after (number + 1) (r.assign a) hbefore

/-- Lines are sound, or one of them is the first at fault. -/
theorem sound_or_first_fault (ls : List (List Char)) :
    (∀ l ∈ ls, ∀ cause, ¬ Faulty l cause) ∨
      ∃ before l after cause, ls = before ++ l :: after ∧
        (∀ l' ∈ before, ∀ cause, ¬ Faulty l' cause) ∧ Faulty l cause := by
  induction ls with
  | nil => exact .inl (by simp)
  | cons l ls ih =>
    by_cases hl : ∃ cause, Faulty l cause
    · obtain ⟨cause, hl⟩ := hl
      exact .inr ⟨[], l, ls, cause, rfl, by simp, hl⟩
    · push Not at hl
      rcases ih with hls | ⟨before, l', after, cause, rfl, hbefore, hl'⟩
      · exact .inl (List.forall_mem_cons.mpr ⟨hl, hls⟩)
      · exact .inr ⟨l :: before, l', after, cause, rfl, List.forall_mem_cons.mpr ⟨hl, hbefore⟩, hl'⟩

/-- **When lines are accepted**, and with which store. -/
theorem parseLines_eq_ok_iff {ls : List (List Char)} {r r' : ControlStore} :
    parseLines 1 ls r = .ok r' ↔
      (∀ l ∈ ls, ∀ cause, ¬ Faulty l cause) ∧ (assigned ls).foldl ControlStore.assign r = r' := by
  rcases sound_or_first_fault ls with hls | ⟨before, l, after, cause, rfl, hbefore, hl⟩
  · rw [parseLines_of_sound 1 r hls, Except.ok.injEq]
    exact (and_iff_right hls).symm
  · rw [parseLines_of_fault hl after 1 r hbefore]
    constructor
    · intro h
      cases h
    · rintro ⟨hall, -⟩
      exact absurd hl (hall l (by simp) cause)

/-- **Which line is at fault**, if lines are not accepted. -/
theorem parseLines_eq_error_iff {ls : List (List Char)} {r : ControlStore} {e : ImageSyntaxError} :
    parseLines 1 ls r = .error e ↔ ∃ before l after, ls = before ++ l :: after ∧
      (∀ l' ∈ before, ∀ cause, ¬ Faulty l' cause) ∧ Faulty l e.cause ∧
        e.line = before.length + 1 := by
  constructor
  · intro h
    -- The error is that of the first fault, and what is behind it plays no part.
    rcases sound_or_first_fault ls with hls | ⟨before, l, after, cause, rfl, hbefore, hl⟩
    · rw [parseLines_of_sound 1 r hls] at h
      cases h
    · rw [parseLines_of_fault hl after 1 r hbefore] at h
      cases h
      exact ⟨before, l, after, rfl, hbefore, hl, Nat.add_comm 1 _⟩
  · rintro ⟨before, l, after, rfl, hbefore, hl, hline⟩
    rw [parseLines_of_fault hl after 1 r hbefore, Nat.add_comm 1, ← hline]

/-! ## Texts -/

theorem parse_eq_ok_iff {text : String} {r : ControlStore} :
    parse text = .ok r ↔ (∀ l ∈ lines text.toList, ∀ cause, ¬ Faulty l cause) ∧
      (assigned (lines text.toList)).foldl ControlStore.assign .empty = r :=
  parseLines_eq_ok_iff

/-- **An accepted image** gives each component the last value that is assigned to it. -/
theorem read_of_parse {text : String} {r : ControlStore} (h : parse text = .ok r) {a : Address}
    (c : Component) (ha : a.toNat < 2048) :
    (r.read a).component c = (lastValue (assigned (lines text.toList)) (a, c)).getD 0 := by
  obtain ⟨-, rfl⟩ := parse_eq_ok_iff.mp h
  rw [ControlStore.read_foldl_assign (fun x hx => inRange_of_mem_assigned hx) _ c ha,
    ControlStore.read_empty]
  cases c <;> rfl

/-- Nothing is at fault exactly if every line that says something says an assignment. -/
theorem forall_not_faulty_iff {l : List Char} :
    (∀ cause, ¬ Faulty l cause) ↔
      (isSilent (statement l) = false → ∃ a, Assignment.read (statement l) = .ok a) := by
  unfold Faulty
  cases Assignment.read (statement l) <;> simp

/-! ## Revisions -/

/-- The raw lines are accepted, and their image is `r`. -/
def Accepts (ls : List (List Char)) (r : ControlStore) : Prop :=
  (∀ l ∈ ls, ∀ cause, ¬ Faulty l cause) ∧ (assigned ls).foldl ControlStore.assign .empty = r

/-- A change of the raw lines of a text. -/
inductive Revision : List (List Char) → List (List Char) → Prop
  /-- A comment is put at the end of a line. -/
  | comment (before : List (List Char)) (l note : List Char) (after : List (List Char)) :
    Revision (before ++ l :: after) (before ++ (l ++ '/' :: '/' :: note) :: after)
  /-- The comment of a line is removed. -/
  | uncomment (before : List (List Char)) (l : List Char) (after : List (List Char)) :
    Revision (before ++ l :: after) (before ++ beforeComment l :: after)
  /-- A line that says nothing is put in. -/
  | insert (before : List (List Char)) {l : List Char} (after : List (List Char))
    (h : isSilent (statement l) = true) : Revision (before ++ after) (before ++ l :: after)
  /-- A line that says nothing is removed. -/
  | remove (before : List (List Char)) {l : List Char} (after : List (List Char))
    (h : isSilent (statement l) = true) : Revision (before ++ l :: after) (before ++ after)
  /-- Blanks are put at the ends of a line. -/
  | pad (before : List (List Char)) {b b' : List Char} (l : List Char) (after : List (List Char))
    (hb : ∀ c ∈ b, isBlank c = true) (hb' : ∀ c ∈ b', isBlank c = true) :
    Revision (before ++ l :: after) (before ++ (b ++ l ++ b') :: after)
  /-- Blanks are removed from the ends of a line. -/
  | unpad (before : List (List Char)) {b b' : List Char} (l : List Char) (after : List (List Char))
    (hb : ∀ c ∈ b, isBlank c = true) (hb' : ∀ c ∈ b', isBlank c = true) :
    Revision (before ++ (b ++ l ++ b') :: after) (before ++ l :: after)
  /-- Lines change places, but no two that assign the same component of the same entry. -/
  | reorder {ls ls' : List (List Char)} (hperm : ls.Perm ls')
    (horder : ∀ p, (assigned ls).filter (fun a => a.place = p) =
      (assigned ls').filter fun a => a.place = p) : Revision ls ls'

theorem forall_not_faulty_iff_mem {ls : List (List Char)} :
    (∀ l ∈ ls, ∀ cause, ¬ Faulty l cause) ↔ ∀ cause, .error cause ∉ ls.filterMap readLine := by
  simp only [List.mem_filterMap, readLine_eq_error_iff]
  constructor
  · rintro h cause ⟨l, hl, hfault⟩
    exact h l hl cause hfault
  · intro h l hl cause hfault
    exact h cause ⟨l, hl, hfault⟩

theorem assigned_eq_filterMap (ls : List (List Char)) :
    assigned ls = (ls.filterMap readLine).filterMap Except.toOption :=
  List.filterMap_filterMap.symm

/-- Only what the lines say counts. -/
theorem accepts_congr {ls ls' : List (List Char)} {r : ControlStore}
    (hsay : ls'.filterMap readLine = ls.filterMap readLine) : Accepts ls' r ↔ Accepts ls r := by
  unfold Accepts
  rw [forall_not_faulty_iff_mem, forall_not_faulty_iff_mem, assigned_eq_filterMap,
    assigned_eq_filterMap, hsay]

theorem Accepts.replace {before after : List (List Char)} {l l' : List Char} {r : ControlStore}
    (h : Accepts (before ++ l :: after) r) (hl : readLine l' = readLine l) :
    Accepts (before ++ l' :: after) r := by
  refine (accepts_congr ?_).mpr h
  rw [List.filterMap_append, List.filterMap_append, List.filterMap_cons, List.filterMap_cons, hl]

/-- A line that says nothing may be put in or removed. -/
theorem accepts_silent_iff {before after : List (List Char)} {l : List Char} {r : ControlStore}
    (h : isSilent (statement l) = true) :
    Accepts (before ++ l :: after) r ↔ Accepts (before ++ after) r := by
  have hl : readLine l = none := by
    unfold readLine
    rw [if_pos h]
  apply accepts_congr
  rw [List.filterMap_append, List.filterMap_append, List.filterMap_cons_none hl]

/-- Lines that keep the order of the assignments to each place may change places. -/
theorem Accepts.reorder {ls ls' : List (List Char)} {r : ControlStore} (h : Accepts ls r)
    (hperm : ls.Perm ls')
    (horder : ∀ p, (assigned ls).filter (fun a => a.place = p) =
      (assigned ls').filter fun a => a.place = p) : Accepts ls' r := by
  obtain ⟨hsound, rfl⟩ := h
  refine ⟨fun l hl => hsound l (hperm.mem_iff.mpr hl), ?_⟩
  apply ControlStore.ext_component
  intro a c ha
  have hlast : lastValue (assigned ls') (a, c) = lastValue (assigned ls) (a, c) := by
    unfold lastValue
    rw [horder]
  rw [ControlStore.read_foldl_assign (fun x hx => inRange_of_mem_assigned hx) _ c ha,
    ControlStore.read_foldl_assign (fun x hx => inRange_of_mem_assigned hx) _ c ha, hlast]

theorem Accepts.revision {ls ls' : List (List Char)} {r : ControlStore} (h : Accepts ls r)
    (hrev : Revision ls ls') : Accepts ls' r := by
  cases hrev with
  | comment before l note after =>
    have hsound := h.1 l (by simp)
    exact h.replace (readLine_comment note fun cause =>
      fun hl => hsound cause (readLine_eq_error_iff.mp hl))
  | uncomment before l after => exact h.replace (readLine_beforeComment l)
  | insert before after hs => exact (accepts_silent_iff hs).mpr h
  | remove before after hs => exact (accepts_silent_iff hs).mp h
  | pad before l after hb hb' => exact h.replace (readLine_blanks hb hb' l)
  | unpad before l after hb hb' => exact h.replace (readLine_blanks hb hb' l).symm
  | reorder hperm horder => exact h.reorder hperm horder

theorem filterMap_readLine_lines {ls : List (List Char)} (hls : ∀ l ∈ ls, '\n' ∉ l) :
    (lines (unlines ls)).filterMap readLine = ls.filterMap readLine := by
  rcases List.eq_nil_or_concat' ls with rfl | ⟨ls, last, rfl⟩
  · unfold unlines
    rw [List.intercalate_nil, lines, dif_pos rfl]
  have hreturns : (ls.map dropReturn).filterMap readLine = ls.filterMap readLine := by
    rw [List.filterMap_map]
    exact List.filterMap_congr fun l _ => readLine_dropReturn l
  have hlast : (if last = [] then [] else [last]).filterMap readLine = [last].filterMap readLine := by
    split
    · next h =>
      subst h
      rfl
    · rfl
  rw [lines_unlines (fun l hl => hls l (by simp [hl])) (hls last (by simp)),
    List.filterMap_append, List.filterMap_append, hreturns, hlast]

/-- **The image of a text, by its raw lines.** -/
theorem parse_unlines_eq_ok_iff {ls : List (List Char)} {r : ControlStore}
    (hls : ∀ l ∈ ls, '\n' ∉ l) :
    parse (String.ofList (unlines ls)) = .ok r ↔ Accepts ls r := by
  rw [parse_eq_ok_iff, String.toList_ofList]
  exact accepts_congr (filterMap_readLine_lines hls)

/-- **Which line is at fault**, if a text is not accepted. -/
theorem parse_eq_error_iff {text : String} {e : ImageSyntaxError} :
    parse text = .error e ↔ ∃ before l after, lines text.toList = before ++ l :: after ∧
      (∀ l' ∈ before, ∀ cause, ¬ Faulty l' cause) ∧ Faulty l e.cause ∧
        e.line = before.length + 1 :=
  parseLines_eq_error_iff

theorem isOk_parse_iff {text : String} : (∃ r, parse text = .ok r) ↔
    ∀ l ∈ lines text.toList, isSilent (statement l) = false →
      ∃ a, Assignment.read (statement l) = .ok a := by
  constructor
  · rintro ⟨r, hr⟩ l hl
    exact forall_not_faulty_iff.mp ((parse_eq_ok_iff.mp hr).1 l hl)
  · intro h
    exact ⟨_, parse_eq_ok_iff.mpr ⟨fun l hl => forall_not_faulty_iff.mpr (h l hl), rfl⟩⟩

/-- **Revisions keep the image** of an accepted text. -/
theorem parse_revision {ls ls' : List (List Char)} {r : ControlStore} (hls : ∀ l ∈ ls, '\n' ∉ l)
    (hls' : ∀ l ∈ ls', '\n' ∉ l) (hrev : Relation.ReflTransGen Revision ls ls')
    (h : parse (String.ofList (unlines ls)) = .ok r) :
    parse (String.ofList (unlines ls')) = .ok r := by
  have hkept {ls'} (hrev : Relation.ReflTransGen Revision ls ls') : Accepts ls' r := by
    induction hrev with
    | refl => exact (parse_unlines_eq_ok_iff hls).mp h
    | tail _ hstep ih => exact ih.revision hstep
  exact (parse_unlines_eq_ok_iff hls').mpr (hkept hrev)

/-- A text is its raw lines, divided by line feeds. Returns at the ends of those that a feed
follows are left out, and nothing at all after the last feed is no line. -/
theorem exists_rawLines (text : String) : ∃ raw last, (∀ l ∈ raw ++ [last], '\n' ∉ l) ∧
    text = String.ofList (unlines (raw ++ [last])) ∧
    lines text.toList = raw.map dropReturn ++ (if last = [] then [] else [last]) := by
  obtain ⟨ls, hne, hfeed, htext⟩ := exists_unlines text.toList
  obtain ⟨raw, last, rfl⟩ := (List.eq_nil_or_concat' ls).resolve_left hne
  refine ⟨raw, last, hfeed, ?_, ?_⟩
  · rw [htext, String.ofList_toList]
  · rw [← htext]
    exact lines_unlines (fun l hl => hfeed l (by simp [hl])) (hfeed last (by simp))

/-- **The meaning of an image.** A text is cut into lines. It is accepted exactly if every line
that says something says an assignment, and then each component is the last value that is assigned
to it, or zero. Otherwise the error is that of the first line at fault. Revisions of the raw lines
of an accepted text keep its image. -/
theorem parse_gives_last_values (text : String) :
    (∃ raw last, (∀ l ∈ raw ++ [last], '\n' ∉ l) ∧
      text = String.ofList (unlines (raw ++ [last])) ∧
      lines text.toList = raw.map dropReturn ++ (if last = [] then [] else [last])) ∧
    ((∃ r, parse text = .ok r) ↔ ∀ l ∈ lines text.toList, isSilent (statement l) = false →
      ∃ a, Assignment.read (statement l) = .ok a) ∧
    (∀ r, parse text = .ok r → ∀ (a : Address) (c : Component), a.toNat < 2048 →
      (r.read a).component c = (lastValue (assigned (lines text.toList)) (a, c)).getD 0) ∧
    (∀ e, parse text = .error e ↔ ∃ before l after, lines text.toList = before ++ l :: after ∧
      (∀ l' ∈ before, ∀ cause, ¬ Faulty l' cause) ∧ Faulty l e.cause ∧
        e.line = before.length + 1) ∧
    (∀ raw raw' r, (∀ l ∈ raw, '\n' ∉ l) → (∀ l ∈ raw', '\n' ∉ l) →
      text = String.ofList (unlines raw) → Relation.ReflTransGen Revision raw raw' →
      parse text = .ok r → parse (String.ofList (unlines raw')) = .ok r) := by
  refine ⟨exists_rawLines text, isOk_parse_iff, ?_, fun e => parse_eq_error_iff, ?_⟩
  · intro r hr a c ha
    exact read_of_parse hr c ha
  · rintro raw raw' r hraw hraw' rfl hrev hparse
    exact parse_revision hraw hraw' hrev hparse

/-- A silent line with a comment mark in it and two assignments of one component; the text without
the silent line, and with a comment in place of a return; and a text whose third line is at fault. -/
theorem parse_reads_second_of_two :
    (∃ r, parse (String.ofList (unlines ["; ROM[1][0] = 7; // off\r".toList,
        "ROM[1][0] = 3;\r".toList, "ROM[1][0] = 5;".toList])) = .ok r ∧
      (r.read 1).component .high = 5 ∧
      parse (String.ofList (unlines ["ROM[1][0] = 3;// first".toList,
        "ROM[1][0] = 5;".toList])) = .ok r) ∧
    parse (String.ofList (unlines ["ROM[1][0] = 3;".toList, [], "ROM[1]".toList])) =
      .error ⟨3, .noComponent⟩ := by
  constructor
  · generalize hraw : ["; ROM[1][0] = 7; // off\r".toList, "ROM[1][0] = 3;\r".toList,
      "ROM[1][0] = 5;".toList] = raw
    have hfeed : ∀ l ∈ raw, '\n' ∉ l := by
      rw [← hraw]
      decide
    have hsay : raw.filterMap readLine = [.ok ⟨1, .high, 3⟩, .ok ⟨1, .high, 5⟩] := by
      rw [← hraw]
      decide
    obtain ⟨-, haccept, hvalue, -, hrevise⟩ :=
      parse_gives_last_values (String.ofList (unlines raw))
    rw [← filterMap_readLine_lines hfeed] at hsay
    rw [String.toList_ofList] at haccept hvalue
    obtain ⟨r, hr⟩ := haccept.mpr fun l hl => forall_not_faulty_iff.mp
      (forall_not_faulty_iff_mem.mpr (by simp [hsay]) l hl)
    refine ⟨r, hr, ?_, ?_⟩
    · rw [hvalue r hr 1 .high (by decide), assigned_eq_filterMap, hsay]
      rfl
    · refine hrevise raw _ r hfeed (by decide) rfl ?_ hr
      subst hraw
      have hremove := Revision.remove [] (l := "; ROM[1][0] = 7; // off\r".toList)
        ["ROM[1][0] = 3;\r".toList, "ROM[1][0] = 5;".toList] (by decide)
      have hunpad : Revision ["ROM[1][0] = 3;\r".toList, "ROM[1][0] = 5;".toList]
          ["ROM[1][0] = 3;".toList, "ROM[1][0] = 5;".toList] :=
        @Revision.unpad [] [] ['\r'] "ROM[1][0] = 3;".toList ["ROM[1][0] = 5;".toList]
          (List.forall_mem_nil _) (List.forall_mem_singleton.mpr (by decide))
      have hcomment := Revision.comment [] "ROM[1][0] = 3;".toList " first".toList
        ["ROM[1][0] = 5;".toList]
      exact .tail (.tail (.tail .refl hremove) hunpad) hcomment
  · obtain ⟨-, -, -, herror, -⟩ := parse_gives_last_values
      (String.ofList (unlines ["ROM[1][0] = 3;".toList, [], "ROM[1]".toList]))
    have hsay : ["ROM[1][0] = 3;".toList, []].filterMap readLine = [.ok ⟨1, .high, 3⟩] := by
      decide
    rw [herror, String.toList_ofList]
    refine ⟨["ROM[1][0] = 3;".toList, []], "ROM[1]".toList, [], ?_, ?_, ?_, rfl⟩
    · exact @lines_unlines ["ROM[1][0] = 3;".toList, []] "ROM[1]".toList (by decide) (by decide)
    · apply forall_not_faulty_iff_mem.mpr
      rw [hsay]
      simp
    · exact ⟨by decide, by decide⟩

end Image

end MicroEngine
