import Mathlib.Data.Nat.Find
import MicroEngine.Machine.Run
import MicroEngine.Proofs.Machine.Iteration
/-!
# The end of a run

A run ends at the first poll at which there is a reason to end, and four reasons are tried in a
fixed order at each poll.

* `Machine.FirstHit`: the first enabled unit on a breakpoint, `breakpointHit?_eq_some_iff`.
* `Machine.EndsAt`: the reasons to end at one poll, with what they leave behind.
* `Machine.polled`: host and machine after so many polls, each with an iteration after it.
* `Machine.Returns`: the end of a run, with or without a budget.
* `runFrom_of_endsAt`, `runFrom_of_not_endsAt`: one poll of a run.
* `runWithin_eq_iff`, `returns_iff`: runs end at the first reason to end.
* `Host.counted`: a host whose polls are counted.
* **`run_stops_at_first_event`**: where, why and how a run ends.
-/

namespace MicroEngine

/-- The host together with a count of its polls. -/
def Host.counted {σ : Type} (service : Host σ) : Host (σ × Nat) := fun p m =>
  ((service p.1 m).1, (service p.1 m).2, p.2 + 1)

namespace Machine

/-! ## Breakpoints -/

/-- The unit sits on a breakpoint. -/
def SitsOn (m : Machine) (u : UnitId) : Prop := m.position u ∈ m.breakpoints

theorem hasBreakpoint_position {m : Machine} {u : UnitId} :
    m.hasBreakpoint (m.position u) = true ↔ m.SitsOn u := decide_eq_true_iff

/-- The breakpoint of the first enabled unit that sits on one. -/
structure FirstHit (m : Machine) (b : Breakpoint) : Prop where
  position : m.position b.unit = b
  enabled : m.isEnabled b.unit = true
  sits : m.SitsOn b.unit
  first : ∀ u, m.isEnabled u = true → u.index < b.unit.index → ¬ m.SitsOn u

theorem FirstHit.unique {m : Machine} {b c : Breakpoint} (hb : m.FirstHit b) (hc : m.FirstHit c) :
    b = c := by
  have h₁ : ¬ b.unit.index < c.unit.index := fun h => hc.first b.unit hb.enabled h hb.sits
  have h₂ : ¬ c.unit.index < b.unit.index := fun h => hb.first c.unit hc.enabled h hc.sits
  have hunit : b.unit = c.unit := eq_of_index_eq (by omega)
  rw [← hb.position, ← hc.position, hunit]

theorem breakpointHit?_eq_none_iff {m : Machine} :
    m.breakpointHit? = none ↔ ∀ u, m.isEnabled u = true → ¬ m.SitsOn u := by
  unfold breakpointHit?
  rw [List.find?_eq_none]
  constructor
  · intro h u hu hs
    exact h _ (List.mem_map_of_mem (mem_enabledUnits.mpr hu)) (hasBreakpoint_position.mpr hs)
  · intro h b hb hd
    obtain ⟨u, hu, rfl⟩ := List.mem_map.mp hb
    exact h u (mem_enabledUnits.mp hu) (hasBreakpoint_position.mp hd)

theorem firstHit_of_breakpointHit? {m : Machine} {b : Breakpoint} (h : m.breakpointHit? = some b) :
    m.FirstHit b := by
  unfold breakpointHit? at h
  obtain ⟨hb, as, bs, hsplit, has⟩ := List.find?_eq_some_iff_append.mp h
  obtain ⟨before, rest, hunits, rfl, hrest⟩ := List.map_eq_append_iff.mp hsplit
  obtain ⟨u, after, rfl, rfl, -⟩ := List.map_eq_cons_iff.mp hrest
  have hu : m.isEnabled u = true :=
    mem_enabledUnits.mp (by rw [hunits]; exact List.mem_append_right _ List.mem_cons_self)
  refine ⟨rfl, hu, hasBreakpoint_position.mp hb, fun v hv hlt hs => ?_⟩
  have hmem : v ∈ before := (mem_before_iff hunits).mpr ⟨hv, hlt⟩
  have hnot := has _ (List.mem_map_of_mem hmem)
  rw [hasBreakpoint_position.mpr hs] at hnot
  cases hnot

theorem exists_firstHit {m : Machine} {u : UnitId} (hu : m.isEnabled u = true) (hs : m.SitsOn u) :
    ∃ b, m.FirstHit b := by
  have hsome : m.breakpointHit? ≠ none :=
    fun hnone => breakpointHit?_eq_none_iff.mp hnone u hu hs
  obtain ⟨b, hb⟩ := Option.ne_none_iff_exists'.mp hsome
  exact ⟨b, firstHit_of_breakpointHit? hb⟩

/-- **What the look-up of a breakpoint finds.** -/
theorem breakpointHit?_eq_some_iff {m : Machine} {b : Breakpoint} :
    m.breakpointHit? = some b ↔ m.FirstHit b := by
  refine ⟨firstHit_of_breakpointHit?, fun hb => ?_⟩
  cases hh : m.breakpointHit? with
  | none => exact absurd hb.sits (breakpointHit?_eq_none_iff.mp hh b.unit hb.enabled)
  | some c => rw [hb.unique (firstHit_of_breakpointHit? hh)]

/-! ## One poll -/

/-- The reasons to end a run at a poll of the host, each of them behind those before it: the host
fails or asks to stop, the budget is `spent`, an enabled unit sits on a breakpoint though the run
has not just started, a unit fails. -/
inductive EndsAt {σ : Type} (service : Host σ) (spent started : Prop) (h : σ) (m : Machine) :
    RunEnd σ → Prop
  | hostFailed {cause : HostFailure} {h' : σ} (answer : service h m = (.error cause, h')) :
    EndsAt service spent started h m ⟨.error (.host cause), m, h'⟩
  | hostStopped {h' : σ} (answer : service h m = (.ok .stop, h')) :
    EndsAt service spent started h m ⟨.ok .hostStop, m, h'⟩
  | stepped {h' : σ} (answer : service h m = (.ok .proceed, h')) (budget : spent) :
    EndsAt service spent started h m ⟨.ok .stepped, m, h'⟩
  | breakpoint {h' : σ} {b : Breakpoint} (answer : service h m = (.ok .proceed, h'))
    (budget : ¬ spent) (running : started) (hit : m.FirstHit b) :
    EndsAt service spent started h m ⟨.ok (.breakpoint b), m, h'⟩
  | fault {h' : σ} {m' : Machine} {cause : UnitFault} (answer : service h m = (.ok .proceed, h'))
    (budget : ¬ spent) (free : started → ∀ u, m.isEnabled u = true → ¬ m.SitsOn u)
    (step : m.step = (m', .error cause)) :
    EndsAt service spent started h m ⟨.error (.fault cause), m', h'⟩

section Poll

variable {σ : Type} {service : Host σ} {first : Bool} {budget : Nat} {h : σ} {m : Machine}

theorem EndsAt.congr {spent spent' started started' : Prop} {e : RunEnd σ}
    (hspent : spent ↔ spent') (hstarted : started ↔ started') :
    EndsAt service spent started h m e ↔ EndsAt service spent' started' h m e := by
  rw [hspent, hstarted]

/-- **A run ends at a poll if there is a reason to.** -/
theorem runFrom_of_endsAt {e : RunEnd σ}
    (he : EndsAt service (budget = 0) (first = false) h m e) :
    runFrom service first budget h m = e := by
  cases he with
  | hostFailed answer => unfold runFrom; rw [answer]
  | hostStopped answer => unfold runFrom; rw [answer]
  | stepped answer hbudget =>
    subst hbudget
    unfold runFrom
    rw [answer]
  | breakpoint answer hbudget running hit =>
    obtain ⟨left, rfl⟩ := Nat.exists_eq_succ_of_ne_zero hbudget
    subst running
    have hb := breakpointHit?_eq_some_iff.mpr hit
    unfold runFrom
    rw [answer]
    simp [hb]
  | fault answer hbudget free step =>
    obtain ⟨left, rfl⟩ := Nat.exists_eq_succ_of_ne_zero hbudget
    have hb : (if first = true then none else m.breakpointHit?) = none := by
      cases first with
      | true => rfl
      | false => exact breakpointHit?_eq_none_iff.mpr (free rfl)
    unfold runFrom
    rw [answer]
    simp only [hb, step]

/-- **A run goes on at a poll if there is no reason to end**: the host lets it proceed, there is an
iteration left in the budget, and that one succeeds. -/
theorem runFrom_of_not_endsAt
    (hne : ∀ e, ¬ EndsAt service (budget = 0) (first = false) h m e) :
    ∃ left m' reports, (service h m).1 = .ok .proceed ∧ budget = left + 1 ∧
      m.step = (m', .ok reports) ∧
      runFrom service first budget h m = runFrom service false left (service h m).2 m' := by
  cases ha : service h m with
  | mk answer h' =>
    cases answer with
    | error cause => exact absurd (.hostFailed ha) (hne _)
    | ok answer =>
      cases answer with
      | stop => exact absurd (.hostStopped ha) (hne _)
      | proceed =>
        cases budget with
        | zero => exact absurd (.stepped ha rfl) (hne _)
        | succ left =>
          have hb : (if first = true then none else m.breakpointHit?) = none := by
            cases first with
            | true => rfl
            | false =>
              cases hb : m.breakpointHit? with
              | none => rfl
              | some b =>
                exact absurd (.breakpoint ha (Nat.succ_ne_zero left) rfl
                  (breakpointHit?_eq_some_iff.mp hb)) (hne _)
          cases hs : m.step with
          | mk m' result =>
            cases result with
            | error cause =>
              refine absurd (.fault ha (Nat.succ_ne_zero left) (fun hf => ?_) hs) (hne _)
              subst hf
              exact breakpointHit?_eq_none_iff.mp hb
            | ok reports =>
              refine ⟨left, m', reports, rfl, rfl, rfl, ?_⟩
              rw [runFrom, ha]
              simp only [hb, hs]

end Poll

/-! ## Whole runs -/

/-- The host and the machine after so many polls, each of them with a successful iteration after it.
Every poll shows the host the machine as it is then. -/
def polled {σ : Type} (service : Host σ) (h : σ) (m : Machine) : Nat → Option (σ × Machine)
  | 0 => some (h, m)
  | k + 1 =>
    match polled service h m k with
    | none => none
    | some (g, o) =>
      match o.step with
      | (_, .error _) => none
      | (m', .ok _) => some ((service g o).2, m')

/-- There is a reason to end a run at the poll after `k` iterations, and this is the end. -/
def StopsAt {σ : Type} (service : Host σ) (limit : Option Nat) (h : σ) (m : Machine) (k : Nat)
    (e : RunEnd σ) : Prop :=
  ∃ g o, polled service h m k = some (g, o) ∧
    EndsAt service (limit = some k) (k ≠ 0) g o e

/-- There is a reason to end a run after `k` iterations, and none before. -/
def StopsFirst {σ : Type} (service : Host σ) (limit : Option Nat) (h : σ) (m : Machine) (k : Nat)
    (e : RunEnd σ) : Prop :=
  StopsAt service limit h m k e ∧ ∀ j < k, ∀ e', ¬ StopsAt service limit h m j e'

/-- The end of a run that returns; a run without a limit may not. -/
def Returns {σ : Type} (service : Host σ) (limit : Option Nat) (h : σ) (m : Machine)
    (e : RunEnd σ) : Prop :=
  match limit with
  | some n => runWithin service n h m = e
  | none => ∃ patience, runUnbounded service patience h m = some e

section Runs

variable {σ : Type} {service : Host σ} {h : σ} {m : Machine}

theorem polled_succ_eq_some_iff {k : Nat} {h' : σ} {m' : Machine} :
    polled service h m (k + 1) = some (h', m') ↔
      ∃ g o reports, polled service h m k = some (g, o) ∧ o.step = (m', .ok reports) ∧
        h' = (service g o).2 := by
  rw [polled]
  cases hp : polled service h m k with
  | none => simp
  | some p =>
    obtain ⟨g, o⟩ := p
    cases hs : o.step with
    | mk m₁ result =>
      cases result with
      | error fault => simp [hs]
      | ok reports =>
        constructor
        · intro heq
          simp only [hs, Option.some.injEq, Prod.mk.injEq] at heq
          obtain ⟨rfl, rfl⟩ := heq
          exact ⟨g, o, reports, rfl, hs, rfl⟩
        · rintro ⟨_, _, reports', heq, hs', rfl⟩
          cases heq
          rw [hs] at hs'
          cases hs'
          simp [hs]

/-- Every poll but the last has an iteration after it, which counts. -/
theorem iterations_polled : ∀ {k : Nat} {g : σ} {o : Machine},
    polled service h m k = some (g, o) → o.iterations = m.iterations + k
  | 0, _, _, hp => by cases hp; rfl
  | k + 1, _, _, hp => by
    obtain ⟨g, o, reports, hp', hs, -⟩ := polled_succ_eq_some_iff.mp hp
    rw [(step_eq_ok hs).2.2, iterations_polled hp']
    omega

/-- **As long as there is no reason to end it, a run goes on**, and the budget bounds how long. -/
theorem runWithin_of_not_stopsAt {n : Nat} : ∀ {k : Nat},
    (∀ j < k, ∀ e, ¬ StopsAt service (some n) h m j e) →
    k ≤ n ∧ ∃ g o, polled service h m k = some (g, o) ∧
      runWithin service n h m = runFrom service (k == 0) (n - k) g o
  | 0, _ => ⟨n.zero_le, h, m, rfl, rfl⟩
  | k + 1, hno => by
    obtain ⟨hle, g, o, hp, hrun⟩ :=
      runWithin_of_not_stopsAt fun j hj => hno j (Nat.lt_succ_of_lt hj)
    have hne : ∀ e, ¬ EndsAt service (n - k = 0) ((k == 0) = false) g o e := by
      intro e he
      refine hno k (Nat.lt_succ_self k) e ⟨g, o, hp, (EndsAt.congr ?_ ?_).mp he⟩
      · rw [Option.some.injEq]
        omega
      · exact beq_eq_false_iff_ne
    obtain ⟨left, m', reports, -, hleft, hs, hgo⟩ := runFrom_of_not_endsAt hne
    refine ⟨by omega, (service g o).2, m',
      polled_succ_eq_some_iff.mpr ⟨g, o, reports, hp, hs, rfl⟩, ?_⟩
    rw [hrun, hgo, show n - (k + 1) = left by omega]
    rfl

/-- A run with a budget ends at the first reason to end, within its budget. -/
theorem StopsFirst.runWithin_eq {n k : Nat} {e : RunEnd σ}
    (hk : StopsFirst service (some n) h m k e) : runWithin service n h m = e ∧ k ≤ n := by
  obtain ⟨⟨g, o, hp, he⟩, hno⟩ := hk
  obtain ⟨hle, g', o', hp', hrun⟩ := runWithin_of_not_stopsAt hno
  rw [hp] at hp'
  cases hp'
  refine ⟨hrun.trans (runFrom_of_endsAt ((EndsAt.congr ?_ ?_).mp he)), hle⟩
  · rw [Option.some.injEq]
    omega
  · exact beq_eq_false_iff_ne.symm

/-- **A run with a budget ends.** -/
theorem exists_stopsFirst (service : Host σ) (n : Nat) (h : σ) (m : Machine) :
    ∃ k e, StopsFirst service (some n) h m k e := by
  classical
  -- With no reason to end at all, the run would go on past its budget.
  have hex : ∃ k, ∃ e, StopsAt service (some n) h m k e := by
    by_contra hno
    have hle := (runWithin_of_not_stopsAt (k := n + 1) fun j _ e he => hno ⟨j, e, he⟩).1
    omega
  obtain ⟨e, he⟩ := Nat.find_spec hex
  exact ⟨Nat.find hex, e, he, fun j hj e' he' => Nat.find_min hex hj ⟨e', he'⟩⟩

theorem runWithin_eq_iff {n : Nat} {e : RunEnd σ} :
    runWithin service n h m = e ↔ ∃ k, StopsFirst service (some n) h m k e := by
  constructor
  · rintro rfl
    obtain ⟨k, e, hk⟩ := exists_stopsFirst service n h m
    rw [hk.runWithin_eq.1]
    exact ⟨k, hk⟩
  · rintro ⟨k, hk⟩
    exact hk.runWithin_eq.1

/-- An end for another reason than the budget does not depend on the budget. -/
theorem EndsAt.unlimited {spent started : Prop} {e : RunEnd σ}
    (he : EndsAt service spent started h m e) (hne : e.outcome ≠ .ok .stepped) :
    EndsAt service False started h m e := by
  cases he with
  | hostFailed answer => exact .hostFailed answer
  | hostStopped answer => exact .hostStopped answer
  | stepped answer budget => exact absurd rfl hne
  | breakpoint answer budget running hit => exact .breakpoint answer not_false running hit
  | fault answer budget free step => exact .fault answer not_false free step

theorem runUnbounded_eq_some_iff {patience : Nat} {e : RunEnd σ} :
    runUnbounded service patience h m = some e ↔
      runWithin service patience h m = e ∧ e.outcome ≠ .ok .stepped := by
  unfold runUnbounded
  generalize runWithin service patience h m = e'
  obtain ⟨outcome, o, g⟩ := e'
  rcases outcome with cause | (_ | b | _)
  case ok.stepped =>
    constructor
    · intro heq
      cases heq
    · rintro ⟨rfl, hne⟩
      exact absurd rfl hne
  all_goals
    constructor
    · intro heq
      cases heq
      exact ⟨rfl, nofun⟩
    · rintro ⟨rfl, -⟩
      rfl

/-- A reason to end that comes before the budget is spent, or is not the budget, is one without a
budget as well. -/
theorem StopsFirst.unlimited {n k : Nat} {e : RunEnd σ}
    (hk : StopsFirst service (some n) h m k e) (hne : e.outcome ≠ .ok .stepped) :
    StopsFirst service none h m k e := by
  have hle := hk.runWithin_eq.2
  obtain ⟨⟨g, o, hp, he⟩, hno⟩ := hk
  refine ⟨⟨g, o, hp, (EndsAt.congr ?_ Iff.rfl).mp (he.unlimited hne)⟩, ?_⟩
  · exact ⟨False.elim, nofun⟩
  · rintro j hj e' ⟨g', o', hp', he'⟩
    refine hno j hj e' ⟨g', o', hp', (EndsAt.congr ?_ Iff.rfl).mp he'⟩
    rw [Option.some.injEq]
    exact ⟨nofun, fun heq => by omega⟩

/-- The first reason to end without a budget is the first one within any greater budget. -/
theorem StopsFirst.limited {k : Nat} {e : RunEnd σ} (hk : StopsFirst service none h m k e) :
    StopsFirst service (some (k + 1)) h m k e ∧ e.outcome ≠ .ok .stepped := by
  obtain ⟨⟨g, o, hp, he⟩, hno⟩ := hk
  -- Up to the end neither the missing budget nor the greater one is spent.
  have hspent {j : Nat} (hj : j ≤ k) : (none : Option Nat) = some j ↔ some (k + 1) = some j := by
    rw [Option.some.injEq]
    exact ⟨nofun, fun heq => by omega⟩
  refine ⟨⟨⟨g, o, hp, (EndsAt.congr (hspent (Nat.le_refl k)) Iff.rfl).mp he⟩, ?_⟩, ?_⟩
  · rintro j hj e' ⟨g', o', hp', he'⟩
    exact hno j hj e' ⟨g', o', hp', (EndsAt.congr (hspent (Nat.le_of_lt hj)) Iff.rfl).mpr he'⟩
  · cases he with
    | stepped answer budget => cases budget
    | _ => nofun

/-- **A run ends exactly where there is the first reason to end.** -/
theorem returns_iff {limit : Option Nat} {e : RunEnd σ} :
    Returns service limit h m e ↔ ∃ k, StopsFirst service limit h m k e := by
  cases limit with
  | some n => exact runWithin_eq_iff
  | none =>
    constructor
    · rintro ⟨patience, hr⟩
      obtain ⟨hrun, hne⟩ := runUnbounded_eq_some_iff.mp hr
      obtain ⟨k, hk⟩ := runWithin_eq_iff.mp hrun
      exact ⟨k, hk.unlimited hne⟩
    · rintro ⟨k, hk⟩
      obtain ⟨hk', hne⟩ := hk.limited
      exact ⟨k + 1, runUnbounded_eq_some_iff.mpr ⟨hk'.runWithin_eq.1, hne⟩⟩

/-! ## Counting polls and iterations -/

theorem polled_counted (c : Nat) : ∀ k, polled service.counted (h, c) m k =
    (polled service h m k).map fun p => ((p.1, c + k), p.2)
  | 0 => rfl
  | k + 1 => by
    rw [polled, polled, polled_counted c k]
    cases polled service h m k with
    | none => rfl
    | some p =>
      obtain ⟨g, o⟩ := p
      cases hs : o.step with
      | mk o' result => cases result <;> simp [hs, Host.counted, Nat.add_assoc]

theorem EndsAt.counted {spent started : Prop} {e : RunEnd σ} (c : Nat)
    (he : EndsAt service spent started h m e) :
    EndsAt service.counted spent started (h, c) m ⟨e.outcome, e.machine, (e.host, c + 1)⟩ := by
  have hcount {a : Except HostFailure HostAnswer} {h' : σ} (answer : service h m = (a, h')) :
      service.counted (h, c) m = (a, (h', c + 1)) := by
    unfold Host.counted
    rw [answer]
  cases he with
  | hostFailed answer => exact .hostFailed (hcount answer)
  | hostStopped answer => exact .hostStopped (hcount answer)
  | stepped answer budget => exact .stepped (hcount answer) budget
  | breakpoint answer budget running hit => exact .breakpoint (hcount answer) budget running hit
  | fault answer budget free step => exact .fault (hcount answer) budget free step

theorem EndsAt.of_counted {spent started : Prop} {c : Nat} {e : RunEnd (σ × Nat)}
    (he : EndsAt service.counted spent started (h, c) m e) :
    EndsAt service spent started h m ⟨e.outcome, e.machine, e.host.1⟩ := by
  have hforget {a : Except HostFailure HostAnswer} {q : σ × Nat}
      (answer : service.counted (h, c) m = (a, q)) : service h m = (a, q.1) := by
    have ha : (service h m).1 = a := congrArg Prod.fst answer
    have hq : (service h m).2 = q.1 := congrArg (fun p => p.2.1) answer
    exact Prod.ext ha hq
  cases he with
  | hostFailed answer => exact .hostFailed (hforget answer)
  | hostStopped answer => exact .hostStopped (hforget answer)
  | stepped answer budget => exact .stepped (hforget answer) budget
  | breakpoint answer budget running hit => exact .breakpoint (hforget answer) budget running hit
  | fault answer budget free step => exact .fault (hforget answer) budget free step

/-- **A run polls its host once more than it completes iterations.** -/
theorem StopsFirst.counted {limit : Option Nat} {k : Nat} {e : RunEnd σ} (c : Nat)
    (hk : StopsFirst service limit h m k e) :
    StopsFirst service.counted limit (h, c) m k
      ⟨e.outcome, e.machine, (e.host, c + k + 1)⟩ := by
  obtain ⟨⟨g, o, hp, he⟩, hno⟩ := hk
  refine ⟨⟨(g, c + k), o, by rw [polled_counted, hp]; rfl, he.counted (c + k)⟩, ?_⟩
  rintro j hj e' ⟨q, o', hp', he'⟩
  rw [polled_counted, Option.map_eq_some_iff] at hp'
  obtain ⟨p, hp', heq⟩ := hp'
  cases heq
  exact hno j hj _ ⟨p.1, p.2, hp', he'.of_counted⟩

/-- A run completes as many iterations as there are polls before its last one. -/
theorem StopsFirst.iterations {limit : Option Nat} {k : Nat} {e : RunEnd σ}
    (hk : StopsFirst service limit h m k e) : e.machine.iterations = m.iterations + k := by
  obtain ⟨⟨g, o, hp, he⟩, -⟩ := hk
  rw [← iterations_polled hp]
  cases he with
  | fault answer budget free step => exact (step_eq_error step).2.2.1
  | _ => rfl

/-- A fault is found in an iteration that is still within the budget. -/
theorem StopsFirst.lt_of_fault {n k : Nat} {e : RunEnd σ} {cause : UnitFault}
    (hk : StopsFirst service (some n) h m k e) (hf : e.outcome = .error (.fault cause)) :
    k < n := by
  have hle := hk.runWithin_eq.2
  obtain ⟨⟨g, o, hp, he⟩, -⟩ := hk
  have hne : some n ≠ some k := by
    cases he with
    | fault answer budget free step => exact budget
    | _ => cases hf
  rw [ne_eq, Option.some.injEq] at hne
  omega

/-- **Where, why and how a run ends.** A run returns exactly if some poll is the first with a reason
to end, and then as that reason says. The iterations completed by then are counted, the host has
been polled once more than that, and a limit bounds the iterations, the failed one included. A run
with a limit always returns. -/
theorem run_stops_at_first_event (service : Host σ) (limit : Option Nat) (h : σ) (m : Machine) :
    (∀ e, Returns service limit h m e ↔ ∃ k, StopsFirst service limit h m k e) ∧
    (∀ k e, StopsFirst service limit h m k e →
      e.machine.iterations = m.iterations + k ∧
      (∀ c, Returns service.counted limit (h, c) m
        ⟨e.outcome, e.machine, (e.host, c + k + 1)⟩) ∧
      ∀ n, limit = some n →
        k ≤ n ∧ ∀ cause, e.outcome = .error (.fault cause) → k < n) ∧
    ∀ n, limit = some n → ∃ e, Returns service limit h m e := by
  refine ⟨fun e => returns_iff, ?_, ?_⟩
  · intro k e hk
    refine ⟨hk.iterations, fun c => returns_iff.mpr ⟨k, hk.counted c⟩, ?_⟩
    rintro n rfl
    exact ⟨hk.runWithin_eq.2, fun cause => hk.lt_of_fault⟩
  · rintro n rfl
    exact ⟨_, rfl⟩

end Runs

/-- With a breakpoint one iteration away, a run of one iteration ends because its budget is spent,
and a run without a limit ends on the breakpoint. -/
theorem run_stops_beside_breakpoint :
    ∃ m : Machine,
      (∃ k e, StopsFirst Host.idle (some 1) () m k e ∧ e.outcome = .ok .stepped ∧
        e.machine.iterations = m.iterations + k ∧ k ≤ 1) ∧
      ∃ k e, StopsFirst Host.idle none () m k e ∧
        e.outcome = .ok (.breakpoint ⟨.msch, 1⟩) ∧ e.machine.iterations = m.iterations + k := by
  have hstepped : (runWithin Host.idle 1 ()
      ((unbooted .reference).addBreakpoint ⟨.msch, 1⟩)).outcome = .ok .stepped := by rfl
  have hhit : (runWithin Host.idle 2 ()
      ((unbooted .reference).addBreakpoint ⟨.msch, 1⟩)).outcome =
        .ok (.breakpoint ⟨.msch, 1⟩) := by rfl
  refine ⟨(unbooted .reference).addBreakpoint ⟨.msch, 1⟩, ?_, ?_⟩
  · obtain ⟨hreturns, hends, -⟩ := run_stops_at_first_event Host.idle (some 1) ()
      ((unbooted .reference).addBreakpoint ⟨.msch, 1⟩)
    obtain ⟨k, hk⟩ := (hreturns _).mp rfl
    obtain ⟨hcount, -, hbound⟩ := hends k _ hk
    exact ⟨k, _, hk, hstepped, hcount, (hbound 1 rfl).1⟩
  · obtain ⟨hreturns, hends, -⟩ := run_stops_at_first_event Host.idle none ()
      ((unbooted .reference).addBreakpoint ⟨.msch, 1⟩)
    obtain ⟨k, hk⟩ := (hreturns _).mp ⟨2, runUnbounded_eq_some_iff.mpr ⟨rfl, by rw [hhit]; nofun⟩⟩
    exact ⟨k, _, hk, hhit, (hends k _ hk).1⟩

end Machine

end MicroEngine
