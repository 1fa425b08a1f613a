import LkChain.Foundation.Results
import Mathlib.Algebra.Ring.Int.Defs

/-!
# Schedules of a system

A system takes steps that may fail, each named by an event. A schedule is a list of events. An
invariant of the steps is an invariant of the runs, also when the steps only keep it under a
condition that the run obeys. A state that is never left is reached exactly by the schedules with a
step that leads into it. What is observed on the way is consecutive when every observation advances
a counter. The steps of a total system do not fail.
-/

namespace LkChain.Foundation.Schedules

section Total

variable {State Event : Type} (step : State → Event → State)

/-- Every step of a schedule is taken in a state that, with its event, meets the condition. -/
def Throughout (condition : State → Event → Prop) : State → List Event → Prop
  | _, [] => True
  | s, event :: rest => condition s event ∧ Throughout condition (step s event) rest

variable {step} {s : State} {events : List Event}

/-- An invariant that total steps keep under a condition holds after every run that meets it. -/
theorem invariant_throughout (Invariant : State → Prop) {condition : State → Event → Prop}
    (hstep : ∀ s event, Invariant s → condition s event → Invariant (step s event))
    (hinitial : Invariant s) (hthroughout : Throughout step condition s events) :
    Invariant (events.foldl step s) := by
  induction events generalizing s with
  | nil => exact hinitial
  | cons event events ih => exact ih (hstep s event hinitial hthroughout.1) hthroughout.2

theorem throughout_of_forall {condition : State → Event → Prop}
    (hcondition : ∀ event ∈ events, ∀ s, condition s event) :
    Throughout step condition s events := by
  induction events generalizing s with
  | nil => trivial
  | cons event events ih =>
    exact ⟨hcondition event List.mem_cons_self s,
      ih fun event hmem ↦ hcondition event (List.mem_cons_of_mem _ hmem)⟩

end Total

variable {Error State Event : Type} (step : State → Event → Except Error State)

/-- The state after a schedule. -/
def run : State → List Event → Except Error State
  | s, [] => .ok s
  | s, event :: rest => do
    let next ← step s event
    run next rest

/-- Every step of a schedule obeys a condition on the states before and after. -/
def Along (condition : State → State → Prop) : State → List Event → Prop
  | _, [] => True
  | s, event :: rest =>
    match step s event with
    | .ok next => condition s next ∧ Along condition next rest
    | .error _ => True

instance decidableAlong {condition : State → State → Prop}
    [∀ s next, Decidable (condition s next)] :
    ∀ (s : State) (events : List Event), Decidable (Along step condition s events)
  | _, [] => isTrue trivial
  | s, event :: rest =>
    match hstep : step s event with
    | .ok next =>
      have : Decidable (Along step condition next rest) := decidableAlong next rest
      decidable_of_iff (condition s next ∧ Along step condition next rest) (by rw [Along, hstep])
    | .error _ => isTrue (by rw [Along, hstep]; trivial)

/-- Some step of a schedule is taken in a state that, with its event, meets the condition. -/
def Sometime (condition : State → Event → Prop) : State → List Event → Prop
  | _, [] => False
  | s, event :: rest => condition s event ∨
    ∃ next, step s event = .ok next ∧ Sometime condition next rest

/-- The schedule takes a step with this event in this state. -/
def Takes (s : State) (events : List Event) (mid : State) (event : Event) : Prop :=
  ∃ before later, events = before ++ event :: later ∧ run step s before = .ok mid

/-- What is observed at the steps of a schedule. -/
def observed {Value : Type} (observe : State → Event → Option Value) : State → List Event →
    List Value
  | _, [] => []
  | s, event :: rest =>
    match step s event with
    | .ok next => (observe s event).toList ++ observed observe next rest
    | .error _ => []

variable {step} {s final : State} {event : Event} {events rest : List Event}

theorem run_cons_eq_ok_iff :
    run step s (event :: rest) = .ok final ↔
      ∃ next, step s event = .ok next ∧ run step next rest = .ok final :=
  Results.bind_eq_ok_iff

theorem run_append_eq_ok_iff :
    run step s (events ++ rest) = .ok final ↔
      ∃ mid, run step s events = .ok mid ∧ run step mid rest = .ok final := by
  induction events generalizing s with
  | nil => exact ⟨fun h ↦ ⟨s, rfl, h⟩, fun ⟨_, hmid, h⟩ ↦ (by cases hmid; exact h)⟩
  | cons event events ih =>
    rw [List.cons_append, run_cons_eq_ok_iff]
    simp only [run_cons_eq_ok_iff, ih]
    exact ⟨fun ⟨next, hstep, mid, hmid, hrest⟩ ↦ ⟨mid, ⟨next, hstep, hmid⟩, hrest⟩,
      fun ⟨mid, ⟨next, hstep, hmid⟩, hrest⟩ ↦ ⟨next, hstep, mid, hmid, hrest⟩⟩

theorem exists_last (hmem : event ∈ events) :
    ∃ before later, events = before ++ event :: later ∧ event ∉ later := by
  obtain ⟨later, before, hreverse, hlater⟩ := List.eq_append_cons_of_mem (List.mem_reverse.mpr hmem)
  refine ⟨before.reverse, later.reverse, ?_, fun h ↦ hlater (List.mem_reverse.mp h)⟩
  rw [← List.reverse_reverse events, hreverse]
  simp

/-- An invariant that the steps keep under a condition holds after every run that obeys it. -/
theorem invariant_along (Invariant : State → Prop) {condition : State → State → Prop}
    (hstep : ∀ s event next, Invariant s → condition s next → step s event = .ok next →
      Invariant next)
    (hinitial : Invariant s) (halong : Along step condition s events)
    (hrun : run step s events = .ok final) : Invariant final := by
  induction events generalizing s with
  | nil =>
    cases hrun
    exact hinitial
  | cons event events ih =>
    obtain ⟨next, hnext, hrest⟩ := run_cons_eq_ok_iff.mp hrun
    unfold Along at halong
    rw [hnext] at halong
    exact ih (hstep s event next hinitial halong.1 hnext) halong.2 hrest

/-- An invariant of the steps holds after every run, and may be limited to the events that occur. -/
theorem invariant (Invariant : State → Prop)
    (hstep : ∀ s event next, event ∈ events → Invariant s → step s event = .ok next →
      Invariant next)
    (hinitial : Invariant s) (hrun : run step s events = .ok final) : Invariant final := by
  induction events generalizing s with
  | nil =>
    cases hrun
    exact hinitial
  | cons event events ih =>
    obtain ⟨next, hnext, hrest⟩ := run_cons_eq_ok_iff.mp hrun
    exact ih (fun s event next hevent ↦ hstep s event next (List.mem_cons_of_mem _ hevent))
      (hstep s event next List.mem_cons_self hinitial hnext) hrest

theorem takes_cons_iff {mid : State} {taken : Event} :
    Takes step s (event :: rest) mid taken ↔
      (mid = s ∧ taken = event) ∨ ∃ next, step s event = .ok next ∧
        Takes step next rest mid taken := by
  constructor
  · rintro ⟨before, later, hsplit, hrun⟩
    cases before with
    | nil =>
      cases hsplit
      cases hrun
      exact .inl ⟨rfl, rfl⟩
    | cons first before =>
      cases hsplit
      obtain ⟨next, hnext, hrest⟩ := run_cons_eq_ok_iff.mp hrun
      exact .inr ⟨next, hnext, before, later, rfl, hrest⟩
  · rintro (⟨rfl, rfl⟩ | ⟨next, hnext, before, later, rfl, hrun⟩)
    · exact ⟨[], rest, rfl, rfl⟩
    · exact ⟨event :: before, later, rfl, run_cons_eq_ok_iff.mpr ⟨next, hnext, hrun⟩⟩

theorem not_takes_nil {mid : State} {taken : Event} : ¬ Takes step s [] mid taken := by
  rintro ⟨before, later, hsplit, -⟩
  simp at hsplit

theorem Takes.append {mid taken : State} (htakes : Takes step mid rest taken event)
    (hrun : run step s events = .ok mid) : Takes step s (events ++ rest) taken event := by
  obtain ⟨before, later, rfl, hbefore⟩ := htakes
  exact ⟨events ++ before, later, by rw [List.append_assoc],
    run_append_eq_ok_iff.mpr ⟨mid, hrun, hbefore⟩⟩

/-- An invariant that the steps of one run keep holds at its end. -/
theorem invariant_taken (Invariant : State → Prop)
    (hstep : ∀ mid event next, Takes step s events mid event → Invariant mid →
      step mid event = .ok next → Invariant next)
    (hinitial : Invariant s) (hrun : run step s events = .ok final) : Invariant final := by
  induction events generalizing s with
  | nil =>
    cases hrun
    exact hinitial
  | cons event events ih =>
    obtain ⟨next, hnext, hrest⟩ := run_cons_eq_ok_iff.mp hrun
    refine ih (fun mid event' next' htakes ↦ hstep mid event' next' ?_)
      (hstep s event next (takes_cons_iff.mpr (.inl ⟨rfl, rfl⟩)) hinitial hnext) hrest
    exact takes_cons_iff.mpr (.inr ⟨next, hnext, htakes⟩)

/-- When every observation is the value of a counter, which then goes up by one, the observations
are the consecutive numbers from the first value of the counter to the last. -/
theorem observed_eq_range {observe : State → Event → Option ℤ} (counter : State → ℤ)
    (Invariant : State → Prop)
    (hinvariant : ∀ s event next, Invariant s → step s event = .ok next → Invariant next)
    (hnone : ∀ s event next, Invariant s → step s event = .ok next → observe s event = none →
      counter next = counter s)
    (hsome : ∀ s event next value, Invariant s → step s event = .ok next →
      observe s event = some value → value = counter s ∧ counter next = counter s + 1)
    (hinitial : Invariant s) (hrun : run step s events = .ok final) :
    ∃ n : ℕ, counter final = counter s + n ∧
      observed step observe s events = (List.range n).map fun k : ℕ ↦ counter s + k := by
  induction events generalizing s with
  | nil =>
    cases hrun
    exact ⟨0, (add_zero _).symm, rfl⟩
  | cons event events ih =>
    obtain ⟨next, hnext, hrest⟩ := run_cons_eq_ok_iff.mp hrun
    obtain ⟨n, hcounter, hobserved⟩ := ih (hinvariant s event next hinitial hnext) hrest
    rw [observed, hnext]
    dsimp only
    rw [hobserved]
    cases hobserve : observe s event with
    | none =>
      have hsame := hnone s event next hinitial hnext hobserve
      rw [hsame] at hcounter ⊢
      exact ⟨n, hcounter, rfl⟩
    | some value =>
      obtain ⟨rfl, hup⟩ := hsome s event next value hinitial hnext hobserve
      refine ⟨n + 1, by omega, ?_⟩
      rw [hup, List.range_succ_eq_map, List.map_cons, List.map_map, Nat.cast_zero, add_zero,
        Option.toList_some, List.singleton_append]
      congr 1
      apply List.map_congr_left
      intro k _
      rw [Function.comp_apply, Nat.cast_succ]
      omega

/-- A trap is sprung exactly by the runs with a step that leads into it. -/
theorem trapped_iff_sometime (Invariant Trap : State → Prop) {condition : State → Event → Prop}
    (hinvariant : ∀ s event next, Invariant s → step s event = .ok next → Invariant next)
    (hstays : ∀ s event next, Invariant s → Trap s → step s event = .ok next → Trap next)
    (henters : ∀ s event next, Invariant s → ¬ Trap s → step s event = .ok next →
      (Trap next ↔ condition s event))
    (hinitial : Invariant s) (houtside : ¬ Trap s) (hrun : run step s events = .ok final) :
    Trap final ↔ Sometime step condition s events := by
  induction events generalizing s with
  | nil =>
    cases hrun
    exact ⟨houtside, False.elim⟩
  | cons event events ih =>
    obtain ⟨next, hnext, hrest⟩ := run_cons_eq_ok_iff.mp hrun
    have henters := henters s event next hinitial houtside hnext
    have hsometime : Sometime step condition s (event :: events) ↔
        condition s event ∨ Sometime step condition next events := by
      show _ ∨ (∃ next, step s event = .ok next ∧ Sometime step condition next events) ↔ _
      simp only [hnext, Except.ok.injEq, exists_eq_left']
    rw [hsometime]
    have hnextInvariant := hinvariant s event next hinitial hnext
    by_cases htrap : Trap next
    · have hstaysTrapped : Invariant final ∧ Trap final := by
        refine invariant (fun s ↦ Invariant s ∧ Trap s) ?_ ⟨hnextInvariant, htrap⟩ hrest
        exact fun s event next _ hs hstep ↦
          ⟨hinvariant s event next hs.1 hstep, hstays s event next hs.1 hs.2 hstep⟩
      exact ⟨fun _ ↦ .inl (henters.mp htrap), fun _ ↦ hstaysTrapped.2⟩
    · rw [ih hnextInvariant htrap hrest]
      exact ⟨.inr, Or.rec (fun hcondition ↦ absurd (henters.mpr hcondition) htrap) id⟩

/-! ## Refinement -/

theorem run_ok (next : State → Event → State) (s : State) (events : List Event) :
    (run (fun s event ↦ .ok (next s event)) s events : Except Error State) =
      .ok (events.foldl next s) := by
  induction events generalizing s with
  | nil => rfl
  | cons event events ih => exact ih (next s event)

section Refinement

variable {Abstract : Type} {next : Abstract → Event → Abstract} {a : Abstract}
  {condition : Abstract → Event → Prop}

/-- A simulation that the steps keep under a condition holds after every run that meets it. -/
theorem simulates_throughout (Simulates : State → Abstract → Prop)
    (hkeeps : ∀ s a event after, Simulates s a → condition a event → step s event = .ok after →
      Simulates after (next a event))
    (hinitial : Simulates s a) (hthroughout : Throughout next condition a events)
    (hrun : run step s events = .ok final) : Simulates final (events.foldl next a) := by
  induction events generalizing s a with
  | nil =>
    cases hrun
    exact hinitial
  | cons event events ih =>
    obtain ⟨after, hafter, hrest⟩ := run_cons_eq_ok_iff.mp hrun
    exact ih (hkeeps s a event after hinitial hthroughout.1 hafter) hthroughout.2 hrest

/-- A system agrees with an abstract one at all times exactly when every step meets the condition,
under which it keeps the simulation and without which it ends the agreement. -/
theorem agrees_iff_throughout (Simulates Agrees : State → Abstract → Prop)
    (hagrees : ∀ s a, Simulates s a → Agrees s a)
    (hkeeps : ∀ s a event after, Simulates s a → condition a event → step s event = .ok after →
      Simulates after (next a event))
    (hneeds : ∀ s a event after, Simulates s a → step s event = .ok after →
      Agrees after (next a event) → condition a event)
    (hinitial : Simulates s a) (hrun : run step s events = .ok final) :
    (∀ n mid, run step s (events.take n) = .ok mid → Agrees mid ((events.take n).foldl next a)) ↔
      Throughout next condition a events := by
  induction events generalizing s a with
  | nil =>
    refine ⟨fun _ ↦ trivial, fun _ n mid hmid ↦ ?_⟩
    rw [List.take_nil] at hmid ⊢
    cases hmid
    exact hagrees s a hinitial
  | cons event events ih =>
    obtain ⟨after, hafter, hrest⟩ := run_cons_eq_ok_iff.mp hrun
    constructor
    · intro hall
      have hcondition : condition a event := by
        apply hneeds s a event after hinitial hafter
        exact hall 1 after (run_cons_eq_ok_iff.mpr ⟨after, hafter, rfl⟩)
      refine ⟨hcondition, (ih (hkeeps s a event after hinitial hcondition hafter) hrest).mp ?_⟩
      intro n mid hmid
      exact hall (n + 1) mid (run_cons_eq_ok_iff.mpr ⟨after, hafter, hmid⟩)
    · rintro ⟨hcondition, hlater⟩ n mid hmid
      cases n with
      | zero =>
        cases hmid
        exact hagrees s a hinitial
      | succ n =>
        obtain ⟨other, hother, hmid⟩ := run_cons_eq_ok_iff.mp hmid
        cases hafter.symm.trans hother
        exact (ih (hkeeps s a event after hinitial hcondition hafter) hrest).mpr hlater n mid hmid

end Refinement

end LkChain.Foundation.Schedules
