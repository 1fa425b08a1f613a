import LkChain.BlockPool.Transitions

/-!
# `AddBlock` and the lock of the pool

`AddBlock` stores a block, and then waits for the requester with the lock held. If the requester
receives a redo instead, it comes back to `pickIncrAvailablePeer`, which waits for the lock: nobody
moves any more. The same happens if the block comes between the redo and the reset. A requester that
has not sent its request yet, as `requestsCh` is full, waits for `poolRoutine`, which may wait for
the lock in the sync loop or in `RemovePeer` of a peer that has timed out. In all other states the
requester receives after at most two steps.
-/

namespace LkChain.BlockPool

open Foundation Foundation.Stops
open Tendermint.Types (Panic Fallible)

variable {PeerID Block : Type}

/-- `AddBlock` holds the lock, and its requester is past the receive. -/
def Stuck (s : System PeerID Block) : Prop :=
  ∃ delivery requester, s.holder = some delivery ∧ s.pool.cells[delivery.ref]? = some requester ∧
    requester.routine.past = true

/-- `AddBlock` holds the lock, its requester waits for room in `requestsCh`, and `poolRoutine` is on
its way to the lock. -/
def Clogged (s : System PeerID Block) : Prop :=
  ∃ delivery requester peerID, s.holder = some delivery ∧
    s.pool.cells[delivery.ref]? = some requester ∧ requester.routine = .sending peerID ∧
    defaultChannelCapacity ≤ s.requests.length ∧ s.sync ≠ .idle

/-- `AddBlock` holds the lock, and its requester can receive. -/
def Receiving (s : System PeerID Block) : Prop :=
  ∃ delivery requester, s.holder = some delivery ∧ s.pool.cells[delivery.ref]? = some requester ∧
    requester.routine = .waiting

/-- The requester receives a redo while `AddBlock` waits for it, or is given a block after it has
received one. -/
def Collides (heightOf : Block → ℤ) (s : System PeerID Block) : Event PeerID Block → Prop
  | .act ref .receiveRedo => ∃ delivery, s.holder = some delivery ∧ delivery.ref = ref
  | .addBlock peerID block => ∃ ref requester,
      s.pool.requesterAt (heightOf block) = some (ref, requester) ∧ requester.block = none ∧
        requester.peerID = some peerID ∧ requester.routine = .resetting
  | _ => False

section Requesters

variable {heightOf : Block → ℤ} {s : System PeerID Block} {requester after : Requester PeerID Block}
  {action : Action}

theorem not_past_of_receptive {routine : Routine PeerID} (hreceptive : routine.receptive = true) :
    ¬ routine.past = true := by
  cases routine with
  | sending => exact Bool.false_ne_true
  | waiting => exact Bool.false_ne_true
  | _ => cases hreceptive

/-- A requester that is past the receive stays so as long as the lock is held. -/
theorem Acted.past (hacted : Acted requester action after) (hrunning : requester.running = true)
    (hpast : requester.routine.past = true) : after.routine.past = true := by
  cases hacted with
  | check hroutine =>
    dsimp only
    rw [hrunning]
    rfl
  | assign hroutine =>
    rw [hroutine] at hpast
    cases hpast
  | receiveRedo hroutine hredos => rfl
  | reset hroutine => rfl
  | quit hroutine hstopped =>
    rw [hrunning] at hstopped
    cases hstopped

/-- The only step that a requester before its receive takes on its own is to receive a redo. -/
theorem Acted.of_receptive (hacted : Acted requester action after)
    (hrunning : requester.running = true) (hreceptive : requester.routine.receptive = true) :
    action = .receiveRedo ∧ requester.routine = .waiting ∧ after.routine.past = true := by
  cases hacted with
  | check hroutine =>
    rw [hroutine] at hreceptive
    cases hreceptive
  | assign hroutine =>
    rw [hroutine] at hreceptive
    cases hreceptive
  | receiveRedo hroutine hredos =>
    rcases hroutine with hroutine | hroutine
    · exact ⟨rfl, hroutine, rfl⟩
    · rw [hroutine] at hreceptive
      cases hreceptive
  | reset hroutine =>
    rw [hroutine] at hreceptive
    cases hreceptive
  | quit hroutine hstopped =>
    rw [hrunning] at hstopped
    cases hstopped

/-- The requester that `AddBlock` waits for. -/
theorem WellFormed.running_of_delivery {delivery : Delivery PeerID}
    (hwell : WellFormed heightOf s.pool s.holder) (hholder : s.holder = some delivery)
    (hcell : s.pool.cells[delivery.ref]? = some requester) :
    requester.running = true ∧
      (requester.routine.receptive = true ∨ requester.routine.past = true) := by
  obtain ⟨found, hfound, hlisted, hstate⟩ := hwell.delivery delivery hholder
  cases hcell.symm.trans hfound
  exact ⟨(hwell.sound _ (List.mem_of_getElem? hcell)).running hlisted, hstate.imp And.left id⟩

theorem stuck_iff {delivery : Delivery PeerID} (hholder : s.holder = some delivery)
    (hcell : s.pool.cells[delivery.ref]? = some requester) :
    Stuck s ↔ requester.routine.past = true := by
  constructor
  · rintro ⟨found, cell, hfound, hget, hpast⟩
    cases hholder.symm.trans hfound
    cases hcell.symm.trans hget
    exact hpast
  · exact fun hpast ↦ ⟨delivery, requester, hholder, hcell, hpast⟩

theorem not_stuck_of_free (hfree : s.holder = none) : ¬ Stuck s := by
  rintro ⟨delivery, -, hholder, -⟩
  cases hfree.symm.trans hholder

theorem not_collides_of_aside {event : Event PeerID Block} (haside : event.Aside heightOf s.pool) :
    ¬ Collides heightOf s event := by
  cases event with
  | addBlock peerID block =>
    rintro ⟨ref, requester, hat, hblock, hpeer, -⟩
    rcases haside ref requester hat with hrefused | hrefused
    · exact hrefused hblock
    · exact hrefused hpeer
  | act ref action => exact haside.elim
  | _ => exact id

theorem delivery_of_collides {ref : ℕ} (hcollides : Collides heightOf s (.act ref action)) :
    action = .receiveRedo ∧ ∃ delivery, s.holder = some delivery ∧ delivery.ref = ref := by
  cases action with
  | receiveRedo => exact ⟨rfl, hcollides⟩
  | _ => exact hcollides.elim

end Requesters

section Lock

variable [DecidableEq PeerID] {heightOf : Block → ℤ} {s next : System PeerID Block}
  {event : Event PeerID Block}

/-- While the lock is held, the requester that it is held for is left alone, acts or sends. -/
theorem held_of_step {delivery : Delivery PeerID} {requester : Requester PeerID Block}
    (hwell : WellFormed heightOf s.pool s.holder) (hholder : s.holder = some delivery)
    (hcell : s.pool.cells[delivery.ref]? = some requester)
    (hstep : step heightOf s event = .ok next) :
    event = .gotBlock ∧ requester.routine = .waiting ∧ next.holder = none ∨
      next.holder = some delivery ∧ ∃ after, next.pool.cells[delivery.ref]? = some after ∧
        (after = requester ∧ ¬ Collides heightOf s event ∨
          (∃ action, event = .act delivery.ref action ∧ Acted requester action after) ∨
          event = .send delivery.ref ∧ (∃ peerID, requester.routine = .sending peerID) ∧
            after.routine = .waiting) := by
  have htransition := transition_of_step hwell hstep
  obtain ⟨pool, holder, requests, spawner, sync⟩ := s
  obtain ⟨pool', holder', requests', spawner', sync'⟩ := next
  dsimp only at *
  subst hholder
  cases htransition with
  | still haside =>
    exact .inr ⟨rfl, requester, hcell, .inl ⟨rfl, not_collides_of_aside haside⟩⟩
  | @acted _ ref action acting after hacting hacted =>
    by_cases href : ref = delivery.ref
    · subst href
      cases hcell.symm.trans hacting
      exact .inr ⟨rfl, after, Cells.get_set_self hcell, .inr (.inl ⟨action, rfl, hacted⟩)⟩
    · refine .inr ⟨rfl, requester, (List.getElem?_set_ne href).trans hcell, .inl ⟨rfl, ?_⟩⟩
      intro hcollides
      obtain ⟨-, other, hother, hsame⟩ := delivery_of_collides hcollides
      cases hother
      exact href hsame.symm
  | @sent _ ref sending peerID hsending hroutine =>
    by_cases href : ref = delivery.ref
    · subst href
      cases hcell.symm.trans hsending
      exact .inr ⟨rfl, _, Cells.get_set_self hcell, .inr (.inr ⟨rfl, ⟨peerID, hroutine⟩, rfl⟩)⟩
    · exact .inr ⟨rfl, requester, (List.getElem?_set_ne href).trans hcell, .inl ⟨rfl, id⟩⟩
  | received hwaiting hroutine hdecr =>
    cases hcell.symm.trans hwaiting
    exact .inl ⟨rfl, hroutine, rfl⟩

theorem Stuck.step (hstuck : Stuck s) (hwell : WellFormed heightOf s.pool s.holder)
    (hstep : step heightOf s event = .ok next) : Stuck next ∧ next.holder = s.holder := by
  obtain ⟨delivery, requester, hholder, hcell, hpast⟩ := hstuck
  have hrunning := (hwell.running_of_delivery hholder hcell).1
  rcases held_of_step hwell hholder hcell hstep with
    ⟨-, hroutine, -⟩ | ⟨hheld, after, hget, ⟨rfl, -⟩ | ⟨action, -, hacted⟩ |
      ⟨-, ⟨peerID, hroutine⟩, -⟩⟩
  · rw [hroutine] at hpast
    cases hpast
  · exact ⟨⟨delivery, _, hheld, hget, hpast⟩, hheld.trans hholder.symm⟩
  · exact ⟨⟨delivery, after, hheld, hget, hacted.past hrunning hpast⟩, hheld.trans hholder.symm⟩
  · rw [hroutine] at hpast
    cases hpast

theorem stuck_iff_collides (hwell : WellFormed heightOf s.pool s.holder) (hclear : ¬ Stuck s)
    (hstep : step heightOf s event = .ok next) : Stuck next ↔ Collides heightOf s event := by
  have htransition := transition_of_step hwell hstep
  cases hholder : s.holder with
  | some delivery =>
    obtain ⟨requester, hcell, -⟩ := hwell.delivery delivery hholder
    obtain ⟨hrunning, hstate⟩ := hwell.running_of_delivery hholder hcell
    rw [stuck_iff hholder hcell] at hclear
    have hreceptive := hstate.resolve_right hclear
    rcases held_of_step hwell hholder hcell hstep with
      ⟨rfl, -, hfree⟩ | ⟨hheld, after, hget, hcase⟩
    · exact ⟨fun h ↦ absurd h (not_stuck_of_free hfree), False.elim⟩
    · rw [stuck_iff hheld hget]
      rcases hcase with ⟨rfl, haside⟩ | ⟨action, rfl, hacted⟩ | ⟨rfl, -, hwaiting⟩
      · exact ⟨fun h ↦ absurd h hclear, fun h ↦ absurd h haside⟩
      · obtain ⟨rfl, -, hpast⟩ := hacted.of_receptive hrunning hreceptive
        exact ⟨fun _ ↦ ⟨delivery, hholder, rfl⟩, fun _ ↦ hpast⟩
      · rw [hwaiting]
        exact ⟨fun h ↦ (by cases h), False.elim⟩
  | none =>
    obtain ⟨pool, holder, requests, spawner, sync⟩ := s
    obtain ⟨pool', holder', requests', spawner', sync'⟩ := next
    dsimp only at *
    subst hholder
    cases htransition with
    | still haside =>
      exact ⟨fun h ↦ absurd h (not_stuck_of_free rfl),
        fun h ↦ absurd h (not_collides_of_aside haside)⟩
    | acted hcell hacted =>
      refine ⟨fun h ↦ absurd h (not_stuck_of_free rfl), fun h ↦ ?_⟩
      obtain ⟨-, delivery, hheld, -⟩ := delivery_of_collides h
      cases hheld
    | sent => exact ⟨fun h ↦ absurd h (not_stuck_of_free rfl), False.elim⟩
    | removed haside =>
      exact ⟨fun h ↦ absurd h (not_stuck_of_free rfl),
        fun h ↦ absurd h (not_collides_of_aside haside)⟩
    | picked => exact ⟨fun h ↦ absurd h (not_stuck_of_free rfl), False.elim⟩
    | renewed haside =>
      exact ⟨fun h ↦ absurd h (not_stuck_of_free rfl),
        fun h ↦ absurd h (not_collides_of_aside haside)⟩
    | made haside =>
      exact ⟨fun h ↦ absurd h (not_stuck_of_free rfl),
        fun h ↦ absurd h (not_collides_of_aside haside)⟩
    | @stored ref requester peerID block hat hblock hpeer =>
      have hcell := (Pool.requesterAt_eq_some_iff.mp hat).2
      have hlisted := (Pool.listed_of_requesterAt hat).1
      have hsound := hwell.sound _ (List.mem_of_getElem? hcell)
      rw [stuck_iff rfl (Cells.get_set_self hcell)]
      rcases hsound.routine_of_setBlock hlisted hblock
        (ne_of_eq_of_ne hpeer (Option.some_ne_none _))
        with hreceptive | hresetting
      · refine ⟨fun hpast ↦ absurd hpast (not_past_of_receptive hreceptive), ?_⟩
        rintro ⟨other, cell, hother, -, -, hroutine⟩
        cases hat.symm.trans hother
        rw [hroutine] at hreceptive
        cases hreceptive
      · refine ⟨fun _ ↦ ⟨ref, requester, hat, hblock, hpeer, hresetting⟩, fun _ ↦ ?_⟩
        dsimp only
        rw [hresetting]
        rfl
    | popped => exact ⟨fun h ↦ absurd h (not_stuck_of_free rfl), False.elim⟩

/-- What a step does to the channel of requests, and to `poolRoutine` while the lock is held. -/
structure Channeled (s : System PeerID Block) (event : Event PeerID Block)
    (next : System PeerID Block) : Prop where
  requests : next.requests = s.requests ∨
    s.requests.length < defaultChannelCapacity ∧ (∃ ref, event = .send ref) ∧
      next.requests.length = s.requests.length + 1 ∨
    s.sync = .idle ∧ s.requests.length = next.requests.length + 1
  sync : s.holder ≠ none → s.sync ≠ .idle → next.sync ≠ .idle

theorem channeled_of_step (hstep : step heightOf s event = .ok next) : Channeled s event next := by
  cases routed_of_step hstep with
  | other hsync hrequests => exact ⟨.inl hrequests, fun _ ↦ by rw [hsync]; exact id⟩
  | sent hroom hsync hlength =>
    exact ⟨.inr (.inl ⟨hroom, ⟨_, rfl⟩, hlength⟩), fun _ ↦ by rw [hsync]; exact id⟩
  | taken hidle hsync hlength =>
    exact ⟨.inr (.inr ⟨hidle, hlength⟩), fun _ ↦ by rw [hsync]; exact id⟩
  | stopping hidle hsync hrequests | started hidle hsync hrequests =>
    exact ⟨.inl hrequests, fun _ hbusy ↦ absurd hidle hbusy⟩
  | peeked hfree hrequests => exact ⟨.inl hrequests, fun hheld ↦ absurd hfree hheld⟩
  | verified hbefore hsync hrequests =>
    refine ⟨.inl hrequests, fun _ _ ↦ ?_⟩
    rw [hsync]
    split <;> exact fun h ↦ (by cases h)
  | popped hfree hsync hrequests => exact ⟨.inl hrequests, fun hheld ↦ absurd hfree hheld⟩
  | stopped hfree hsync hrequests | redone hfree hsync hrequests =>
    exact ⟨.inl hrequests, fun hheld ↦ absurd hfree hheld⟩

/-- The channel of requests never holds more than it has room for. -/
theorem requests_le_of_run {start : ℤ} {events : List (Event PeerID Block)}
    (hrun : run heightOf (newBlockPool start) events = .ok s) :
    s.requests.length ≤ defaultChannelCapacity := by
  refine Schedules.invariant (fun s ↦ s.requests.length ≤ defaultChannelCapacity) ?_
    (Nat.zero_le _) hrun
  intro s event next _ hle hstep
  rcases (channeled_of_step hstep).requests with hsame | ⟨hroom, -, hlength⟩ | ⟨-, hlength⟩
  · rw [hsame]
    exact hle
  · omega
  · omega

theorem Clogged.step (hclogged : Clogged s) (hwell : WellFormed heightOf s.pool s.holder)
    (hstep : step heightOf s event = .ok next) : Clogged next ∧ next.holder = s.holder := by
  obtain ⟨delivery, requester, peerID, hholder, hcell, hroutine, hfull, hsync⟩ := hclogged
  obtain ⟨hrunning, -⟩ := hwell.running_of_delivery hholder hcell
  have hreceptive : requester.routine.receptive = true := by
    rw [hroutine]
    rfl
  have hchanneled := channeled_of_step hstep
  have hheldSync := hchanneled.sync (ne_of_eq_of_ne hholder (Option.some_ne_none _)) hsync
  have hsame : next.requests = s.requests := by
    rcases hchanneled.requests with hsame | ⟨hroom, -⟩ | ⟨hidle, -⟩
    · exact hsame
    · exact absurd hroom (not_lt.mpr hfull)
    · exact absurd hidle hsync
  rcases held_of_step hwell hholder hcell hstep with
    ⟨-, hwaiting, -⟩ | ⟨hheld, after, hget, ⟨rfl, -⟩ | ⟨action, -, hacted⟩ | ⟨rfl, -⟩⟩
  · cases hroutine.symm.trans hwaiting
  · exact ⟨⟨delivery, _, peerID, hheld, hget, hroutine, hsame ▸ hfull, hheldSync⟩,
      hheld.trans hholder.symm⟩
  · cases hroutine.symm.trans (hacted.of_receptive hrunning hreceptive).2.1
  · simp only [BlockPool.step, hcell, hroutine, if_neg (not_lt.mpr hfull)] at hstep
    cases hstep

theorem step_send {ref : ℕ} {requester : Requester PeerID Block} {peerID : PeerID}
    (hcell : s.pool.cells[ref]? = some requester) (hroutine : requester.routine = .sending peerID)
    (hroom : s.requests.length < defaultChannelCapacity) :
    step heightOf s (.send ref) = .ok { s with
      pool := s.pool.setCell ref { requester with routine := .waiting }
      requests := s.requests ++ [⟨requester.height, peerID⟩] } := by
  simp only [step, hcell, hroutine, if_pos hroom]

/-- Without a deadlock, the requester receives after at most two steps. -/
theorem exists_receiving (hwell : WellFormed heightOf s.pool s.holder)
    (hle : s.requests.length ≤ defaultChannelCapacity) {delivery : Delivery PeerID}
    (hholder : s.holder = some delivery) (hstuck : ¬ Stuck s)
    (hclogged : ¬ Clogged s) :
    ∃ later after, later.length ≤ 2 ∧ run heightOf s later = .ok after ∧ Receiving after := by
  obtain ⟨requester, hcell, -⟩ := hwell.delivery delivery hholder
  rw [stuck_iff hholder hcell] at hstuck
  have hreceptive := (hwell.running_of_delivery hholder hcell).2.resolve_right hstuck
  cases hroutine : requester.routine with
  | waiting => exact ⟨[], s, Nat.zero_le 2, rfl, delivery, requester, hholder, hcell, hroutine⟩
  | sending peerID =>
    by_cases hroom : s.requests.length < defaultChannelCapacity
    · refine ⟨[.send delivery.ref], _, Nat.le_succ 1,
        Schedules.run_cons_eq_ok_iff.mpr ⟨_, step_send hcell hroutine hroom, rfl⟩,
        delivery, _, hholder, Cells.get_set_self hcell, rfl⟩
    · have hidle : s.sync = .idle := by
        by_contra hsync
        exact hclogged
          ⟨delivery, requester, peerID, hholder, hcell, hroutine, not_lt.mp hroom, hsync⟩
      cases hrequests : s.requests with
      | nil =>
        rw [hrequests] at hroom
        exact absurd (Nat.succ_pos 999) hroom
      | cons request rest =>
        have htake : step heightOf s .takeRequest = .ok { s with requests := rest } := by
          simp only [step, hidle, hrequests]
        have hrest : rest.length < defaultChannelCapacity := by
          rw [hrequests, List.length_cons] at hle
          exact hle
        refine ⟨[.takeRequest, .send delivery.ref], _, le_rfl,
          Schedules.run_cons_eq_ok_iff.mpr ⟨_, htake, Schedules.run_cons_eq_ok_iff.mpr
            ⟨_, step_send hcell hroutine hrest, rfl⟩⟩,
          delivery, _, hholder, Cells.get_set_self hcell, rfl⟩
  | _ =>
    rw [hroutine] at hreceptive
    cases hreceptive

theorem Pool.decrPending_ne_blocked {pool : Pool PeerID Block} {peerID : PeerID} :
    pool.decrPending peerID ≠ blocked := by
  unfold Pool.decrPending
  split
  next => exact fun h ↦ (by cases h)
  next peer _ =>
    unfold Peer.decrPending
    dsimp only
    split <;> split <;> exact fun h ↦ (by cases h)

/-- The requester receives, and `AddBlock` gives the lock back. -/
theorem released_of_gotBlock (hreceiving : Receiving s) :
    step heightOf s .gotBlock ≠ blocked ∧
      ∀ next, step heightOf s .gotBlock = .ok next → next.holder = none := by
  obtain ⟨delivery, requester, hholder, hcell, hroutine⟩ := hreceiving
  simp only [step, hholder, hcell, if_pos hroutine]
  constructor
  · intro hblocked
    cases hdecr : (s.pool.setCell delivery.ref { requester with routine := .got }).decrPending
      delivery.peerID with
    | ok pool =>
      rw [hdecr] at hblocked
      cases hblocked
    | error stop =>
      rw [hdecr] at hblocked
      cases hblocked
      exact Pool.decrPending_ne_blocked hdecr
  · intro next hstep
    obtain ⟨pool, -, hreturn⟩ := Results.bind_eq_ok_iff.mp hstep
    cases hreturn
    rfl

end Lock

section Runs

variable [DecidableEq PeerID] {heightOf : Block → ℤ} {s : System PeerID Block}

theorem held_forever {after : System PeerID Block} {later : List (Event PeerID Block)}
    (hwell : WellFormed heightOf s.pool s.holder) (hdead : Stuck s ∨ Clogged s)
    (hlater : run heightOf s later = .ok after) :
    after.holder = s.holder ∧ after.holder ≠ none := by
  have hstays : WellFormed heightOf after.pool after.holder ∧ (Stuck after ∨ Clogged after) ∧
      after.holder = s.holder := by
    refine Schedules.invariant (fun mid ↦ WellFormed heightOf mid.pool mid.holder ∧
      (Stuck mid ∨ Clogged mid) ∧ mid.holder = s.holder) ?_ ⟨hwell, hdead, rfl⟩ hlater
    rintro mid event next - ⟨hmid, hdead, hsame⟩ hstep
    have hnext := hmid.transition (transition_of_step hmid hstep)
    rcases hdead with hstuck | hclogged
    · obtain ⟨hstuck, hholder⟩ := hstuck.step hmid hstep
      exact ⟨hnext, .inl hstuck, hholder.trans hsame⟩
    · obtain ⟨hclogged, hholder⟩ := hclogged.step hmid hstep
      exact ⟨hnext, .inr hclogged, hholder.trans hsame⟩
  refine ⟨hstays.2.2, ?_⟩
  rcases hstays.2.1 with ⟨delivery, -, hholder, -⟩ | ⟨delivery, -, -, hholder, -⟩
  · exact ne_of_eq_of_ne hholder (Option.some_ne_none _)
  · exact ne_of_eq_of_ne hholder (Option.some_ne_none _)

/-- What becomes of the lock while `AddBlock` holds it: the requester can no longer receive exactly
if a redo has met the block; then, or if the requester waits for `poolRoutine` and `poolRoutine` for
the lock, the lock is never released; otherwise the requester receives after at most two steps, and
the lock is released. -/
theorem addBlock_releases_iff {start : ℤ} {events : List (Event PeerID Block)}
    (hrun : run heightOf (newBlockPool start) events = .ok s) :
    (Stuck s ↔
      Schedules.Sometime (step heightOf) (Collides heightOf) (newBlockPool start) events) ∧
    (Stuck s ∨ Clogged s →
      ∀ later after, run heightOf s later = .ok after →
        after.holder = s.holder ∧ after.holder ≠ none) ∧
    (s.holder ≠ none → ¬ Stuck s → ¬ Clogged s →
      ∃ later after, later.length ≤ 2 ∧ run heightOf s later = .ok after ∧ Receiving after ∧
        step heightOf after .gotBlock ≠ blocked ∧
        ∀ next, step heightOf after .gotBlock = .ok next → next.holder = none) := by
  have hwell := wellFormed_of_run hrun
  refine ⟨?_, ?_, ?_⟩
  · exact Schedules.trapped_iff_sometime (fun s ↦ WellFormed heightOf s.pool s.holder) Stuck
      (fun _ _ _ hwell hstep ↦ hwell.transition (transition_of_step hwell hstep))
      (fun _ _ _ hwell hstuck hstep ↦ (hstuck.step hwell hstep).1)
      (fun _ _ _ hwell hclear hstep ↦ stuck_iff_collides hwell hclear hstep)
      (wellFormed_newBlockPool start) (not_stuck_of_free rfl) hrun
  · exact fun hdead later after hlater ↦ held_forever hwell hdead hlater
  · intro hheld hstuck hclogged
    obtain ⟨delivery, hholder⟩ := Option.ne_none_iff_exists'.mp hheld
    obtain ⟨later, after, hlength, hlater, hreceiving⟩ :=
      exists_receiving hwell (requests_le_of_run hrun) hholder hstuck hclogged
    exact ⟨later, after, hlength, hlater, hreceiving, released_of_gotBlock hreceiving⟩

/-- The block arrives, and the requester receives. -/
theorem addBlock_releases_one_request : ∃ s later after,
    run id (newBlockPool 1) (oneRequest ++ [.addBlock 7 1]) = .ok s ∧ s.holder = some ⟨0, 7⟩ ∧
    later.length ≤ 2 ∧ run id s later = .ok after ∧ Receiving after ∧
      step id after .gotBlock ≠ blocked ∧
      ∀ next, step id after .gotBlock = .ok next → next.holder = none := by
  obtain ⟨s, hrun, hholder, hcell, hrequests⟩ : ∃ s,
      run id (newBlockPool 1) (oneRequest ++ [.addBlock 7 1]) = .ok s ∧ s.holder = some ⟨0, 7⟩ ∧
      s.pool.cells[0]?.map Requester.routine = some .waiting ∧ s.requests.length = 1 :=
    ⟨_, rfl, rfl, rfl, rfl⟩
  obtain ⟨requester, hget, hroutine⟩ := Option.map_eq_some_iff.mp hcell
  have hstuck : ¬ Stuck s := by
    rw [stuck_iff hholder hget, hroutine]
    exact Bool.false_ne_true
  have hclogged : ¬ Clogged s := by
    rintro ⟨-, -, -, -, -, -, hfull, -⟩
    rw [hrequests] at hfull
    exact absurd hfull (by decide)
  obtain ⟨later, after, hlater⟩ := (addBlock_releases_iff hrun).2.2
    (ne_of_eq_of_ne hholder (Option.some_ne_none _)) hstuck hclogged
  exact ⟨s, later, after, hrun, hholder, hlater⟩

/-- The peer is removed, the block arrives nevertheless, and the requester receives the redo first:
it waits for the lock that `AddBlock` holds while it waits for the requester. -/
theorem addBlock_deadlocks : ∃ s,
    run id (newBlockPool 1) (oneRequest ++ [.removePeer 7, .addBlock 7 1, .act 0 .receiveRedo,
      .act 0 .reset, .act 0 .check]) = .ok s ∧
    s.holder = some ⟨0, 7⟩ ∧ s.pool.cells.map Requester.routine = [.picking] ∧
    ∀ later after, run id s later = .ok after → after.holder = some ⟨0, 7⟩ := by
  obtain ⟨s, hrun, hholder, hroutines⟩ : ∃ s,
      run id (newBlockPool 1) (oneRequest ++ [.removePeer 7, .addBlock 7 1, .act 0 .receiveRedo,
        .act 0 .reset, .act 0 .check]) = .ok s ∧
      s.holder = some ⟨0, 7⟩ ∧ s.pool.cells.map Requester.routine = [.picking] :=
    ⟨_, rfl, rfl, rfl⟩
  obtain ⟨requester, hget, hroutine⟩ : ∃ requester, s.pool.cells[0]? = some requester ∧
      requester.routine = .picking := by
    apply Option.map_eq_some_iff.mp
    rw [← List.getElem?_map, hroutines]
    rfl
  have hstuck : Stuck s := ⟨_, requester, hholder, hget, by rw [hroutine]; rfl⟩
  refine ⟨s, hrun, hholder, hroutines, fun later after hlater ↦ ?_⟩
  rw [(held_forever (wellFormed_of_run hrun) (.inl hstuck) hlater).1, hholder]

end Runs

end LkChain.BlockPool
