import LkChain.BlockPool.Redo

/-!
# The window of heights

The map of requesters holds consecutive heights, from the height of the pool on: a requester is made
for the height above all others, and only the lowest one is popped. A requester takes a block of its
own height from the peer that it is assigned to. This does not depend on who calls: it holds when
`makeNextRequester` and `PopRequest` are called at any time. In the sync loop, the block that is
saved after a `PopRequest` is the one of the height that was popped.
-/

namespace LkChain.BlockPool

open Foundation Foundation.Stops
open Tendermint.Types (Panic Fallible)

variable {PeerID Block : Type} [DecidableEq PeerID]

/-- A step when `makeNextRequester` and `PopRequest` are called at any time. -/
def freeStep (heightOf : Block → ℤ) (s : System PeerID Block) :
    Event PeerID Block → Fallible Blocked (System PeerID Block)
  | .makeNextRequester => s.locked (.ok s.pool.makeNextRequester)
  | .pop => s.locked s.pool.popRequest
  | event => step heightOf s event

/-- The height that a step pops. -/
def popped (s : System PeerID Block) : Event PeerID Block → Option ℤ
  | .pop => some s.pool.height
  | _ => none

/-- The height of the block that the sync loop has verified, and saves. -/
def verified (heightOf : Block → ℤ) (s : System PeerID Block) : Event PeerID Block → Option ℤ
  | .verify true =>
    match s.sync with
    | .verifying _ first _ => some (heightOf first)
    | _ => none
  | _ => none

variable {heightOf : Block → ℤ} {s next : System PeerID Block} {event : Event PeerID Block}

/-! ## Free steps -/

theorem transition_of_freeStep (hwell : WellFormed heightOf s.pool s.holder)
    (hstep : freeStep heightOf s event = .ok next) :
    Transition heightOf s.pool s.holder event next.pool next.holder := by
  unfold freeStep at hstep
  split at hstep
  next =>
    obtain ⟨hfree, pool, hpool, rfl⟩ := locked_eq_ok_iff.mp hstep
    cases hpool
    rw [hfree]
    exact transition_of_makeNextRequester hwell.window
  next =>
    obtain ⟨hfree, pool, hpool, rfl⟩ := locked_eq_ok_iff.mp hstep
    rw [hfree]
    exact transition_of_popRequest hpool
  next => exact transition_of_step hwell hstep

theorem WellFormed.freeStep (hwell : WellFormed heightOf s.pool s.holder)
    (hstep : freeStep heightOf s event = .ok next) : WellFormed heightOf next.pool next.holder :=
  hwell.transition (transition_of_freeStep hwell hstep)

section Heights

variable {pool after : Pool PeerID Block} {holder holder' : Option (Delivery PeerID)}

omit [DecidableEq PeerID] in
theorem height_of_popRequest (hpop : pool.popRequest = .ok after) :
    after.height = pool.height + 1 := by
  unfold Pool.popRequest at hpop
  split at hpop <;> cases hpop
  rfl

theorem Transition.height_eq (htransition : Transition heightOf pool holder event after holder')
    (hpop : event ≠ .pop) : after.height = pool.height := by
  cases htransition with
  | removed _ hremoved => exact hremoved.height
  | picked hremoved hfound => exact hfound.cells_eq.2.trans hremoved.height
  | received hcell hroutine hdecr => exact (Pool.decrPending_eq_ok hdecr).2
  | popped => exact absurd rfl hpop
  | _ => rfl

end Heights

theorem height_of_freeStep (hwell : WellFormed heightOf s.pool s.holder)
    (hstep : freeStep heightOf s event = .ok next) :
    (popped s event = none → next.pool.height = s.pool.height) ∧
      ∀ height, popped s event = some height →
        height = s.pool.height ∧ next.pool.height = s.pool.height + 1 := by
  by_cases hpop : event = .pop
  · subst hpop
    obtain ⟨-, pool, hpool, rfl⟩ := locked_eq_ok_iff.mp hstep
    refine ⟨fun hnone ↦ (by cases hnone), fun height hsome ↦ ?_⟩
    cases hsome
    exact ⟨rfl, height_of_popRequest hpool⟩
  · have hnone : popped s event = none := by
      unfold popped
      split
      next => exact absurd rfl hpop
      next => rfl
    refine ⟨fun _ ↦ (transition_of_freeStep hwell hstep).height_eq hpop, fun height hsome ↦ ?_⟩
    rw [hnone] at hsome
    cases hsome

/-! ## Where a block comes from -/

section Origins

variable {pool after : Pool PeerID Block} {holder holder' : Option (Delivery PeerID)} {ref : ℕ}
  {kept : Requester PeerID Block} {block : Block}

omit [DecidableEq PeerID] in
/-- A block in a cell was there before another requester was put into some cell, when that one has
no block that the old one did not have. -/
theorem exists_of_set {cells : List (Requester PeerID Block)} {other : ℕ}
    {old new : Requester PeerID Block} (hold : cells[other]? = some old)
    (hget : (cells.set other new)[ref]? = some kept) (hblock : kept.block = some block)
    (hnew : new.block = some block → old.block = some block) :
    ∃ requester, cells[ref]? = some requester ∧ requester.block = some block := by
  by_cases href : other = ref
  · subst href
    rw [Cells.get_set_self hold, Option.some_inj] at hget
    subst hget
    exact ⟨old, hold, hnew hblock⟩
  · rw [List.getElem?_set_ne href] at hget
    exact ⟨kept, hget, hblock⟩

omit [DecidableEq PeerID] in
theorem Acted.block_of_some {requester acted : Requester PeerID Block} {action : Action}
    (hacted : Acted requester action acted) (hblock : acted.block = some block) :
    requester.block = some block := by
  cases hacted with
  | reset => cases hblock
  | _ => exact hblock

/-- A block that a requester has was there before, or it is stored by this `AddBlock`. -/
theorem Transition.origin (htransition : Transition heightOf pool holder event after holder')
    (hget : after.cells[ref]? = some kept) (hblock : kept.block = some block) :
    (∃ requester, pool.cells[ref]? = some requester ∧ requester.block = some block) ∨
      ∃ peerID requester, event = .addBlock peerID block ∧
        pool.requesterAt (heightOf block) = some (ref, requester) ∧
        requester.peerID = some peerID := by
  have hremoval : ∀ {ids : List PeerID} {mid : Pool PeerID Block}, Removed ids pool mid →
      (∃ requester, mid.cells[ref]? = some requester ∧ requester.block = some block) →
        ∃ requester, pool.cells[ref]? = some requester ∧ requester.block = some block := by
    rintro ids mid hremoved ⟨requester, hrequester, hblock⟩
    rw [hremoved.cells, List.getElem?_map, Option.map_eq_some_iff] at hrequester
    obtain ⟨requester, hcell, rfl⟩ := hrequester
    exact ⟨requester, hcell, block_asked.symm.trans hblock⟩
  cases htransition with
  | still => exact .inl ⟨kept, hget, hblock⟩
  | acted hcell hacted => exact .inl (exists_of_set hcell hget hblock hacted.block_of_some)
  | sent hcell hroutine => exact .inl (exists_of_set hcell hget hblock id)
  | removed _ hremoved => exact .inl (hremoval hremoved ⟨kept, hget, hblock⟩)
  | picked hremoved hfound hcell hroutine =>
    rw [Pool.setCell, hfound.cells_eq.1] at hget
    exact .inl (hremoval hremoved (exists_of_set hcell hget hblock id))
  | renewed => exact .inl ⟨kept, hget, hblock⟩
  | made =>
    rw [List.getElem?_append] at hget
    split at hget
    next => exact .inl ⟨kept, hget, hblock⟩
    next =>
      rw [List.getElem?_singleton] at hget
      split at hget <;> cases hget
      cases hblock
  | @stored other requester peerID stored hat hnone hpeer =>
    have hcell := (Pool.requesterAt_eq_some_iff.mp hat).2
    by_cases href : other = ref
    · subst href
      rw [Pool.setCell, Cells.get_set_self hcell, Option.some_inj] at hget
      subst hget
      cases hblock
      exact .inr ⟨peerID, requester, rfl, hat, hpeer⟩
    · rw [Pool.setCell, List.getElem?_set_ne href] at hget
      exact .inl ⟨kept, hget, hblock⟩
  | received hcell hroutine hdecr =>
    rw [(Pool.decrPending_eq_ok hdecr).1] at hget
    exact .inl (exists_of_set hcell hget hblock id)
  | popped hat =>
    exact .inl (exists_of_set (Pool.requesterAt_eq_some_iff.mp hat).2 hget hblock id)

end Origins

section Runs

variable {start : ℤ} {events : List (Event PeerID Block)}

theorem wellFormed_of_freeRun
    (hrun : Schedules.run (freeStep heightOf) (newBlockPool start) events = .ok s) :
    WellFormed heightOf s.pool s.holder :=
  Schedules.invariant (fun s ↦ WellFormed heightOf s.pool s.holder)
    (fun _ _ _ _ hwell hstep ↦ hwell.freeStep hstep) (wellFormed_newBlockPool start) hrun

/-- A block that a requester has was stored by an `AddBlock` of the peer that the requester was
assigned to at that time. -/
theorem exists_addBlock_of_run {ref : ℕ} {requester : Requester PeerID Block} {block : Block}
    (hrun : Schedules.run (freeStep heightOf) (newBlockPool start) events = .ok s)
    (hget : s.pool.cells[ref]? = some requester) (hblock : requester.block = some block) :
    ∃ before later peerID mid assigned, events = before ++ .addBlock peerID block :: later ∧
      Schedules.run (freeStep heightOf) (newBlockPool start) before = .ok mid ∧
      mid.pool.requesterAt (heightOf block) = some (ref, assigned) ∧
      assigned.peerID = some peerID := by
  induction events using List.reverseRecOn generalizing s requester with
  | nil =>
    cases hrun
    cases hget
  | append_singleton events event ih =>
    obtain ⟨mid, hmid, hlast⟩ := Schedules.run_append_eq_ok_iff.mp hrun
    obtain ⟨next, hnext, hend⟩ := Schedules.run_cons_eq_ok_iff.mp hlast
    cases hend
    have htransition := transition_of_freeStep (wellFormed_of_freeRun hmid) hnext
    rcases htransition.origin hget hblock with
      ⟨before, hbefore, hold⟩ | ⟨peerID, assigned, rfl, hat⟩
    · obtain ⟨before, later, peerID, earlier, assigned, rfl, hearlier, hat⟩ := ih hmid hbefore hold
      exact ⟨before, later ++ [event], peerID, earlier, assigned, by simp, hearlier, hat⟩
    · exact ⟨events, [], peerID, mid, assigned, rfl, hmid, hat⟩

end Runs

/-! ## The sync loop -/

/-- The block that the sync loop verifies is the one of the height of the pool. -/
def Examining (heightOf : Block → ℤ) (s : System PeerID Block) : Prop :=
  ∀ round first second, s.sync = .verifying round first second → heightOf first = s.pool.height

/-- A height has been verified and is not yet popped. -/
def Sync.ahead : Sync PeerID Block → ℤ
  | .popping _ => 1
  | _ => 0

/-- The height above all that were verified. -/
def System.reached (s : System PeerID Block) : ℤ := s.pool.height + s.sync.ahead

/-- The step is one of `poolRoutine`. -/
def Event.drivesSync : Event PeerID Block → Bool
  | .takeTimeout _ | .stopPeer | .trySync | .peek | .verify _ | .pop | .redoRequest => true
  | _ => false

theorem sync_eq_of_step (hstep : step heightOf s event = .ok next)
    (hdrives : event.drivesSync = false) : next.sync = s.sync := by
  cases routed_of_step hstep with
  | other hsync => exact hsync
  | sent hroom hsync => exact hsync
  | taken hidle hsync => exact hsync
  | _ => cases hdrives

/-- What a step adds to the verified heights. -/
structure Advanced (heightOf : Block → ℤ) (s next : System PeerID Block)
    (event : Event PeerID Block) : Prop where
  examining : Examining heightOf next
  still : verified heightOf s event = none → next.reached = s.reached
  advanced : ∀ height, verified heightOf s event = some height →
    height = s.reached ∧ next.reached = s.reached + 1

omit [DecidableEq PeerID] in
theorem advanced_of_none (hnone : verified heightOf s event = none)
    (hexamining : Examining heightOf next) (hreached : next.reached = s.reached) :
    Advanced heightOf s next event where
  examining := hexamining
  still _ := hreached
  advanced height hsome := by
    rw [hnone] at hsome
    cases hsome

omit [DecidableEq PeerID] in
/-- A step after which `poolRoutine` examines nothing and no height was verified. -/
theorem advanced_of_resting (hnone : verified heightOf s event = none)
    (hresting : ∀ round first second, next.sync ≠ .verifying round first second)
    (hreached : next.reached = s.reached) : Advanced heightOf s next event :=
  advanced_of_none hnone
    (fun round first second h ↦ absurd h (hresting round first second)) hreached

omit [DecidableEq PeerID] in
theorem reached_of_ahead (hsync : s.sync.ahead = 0) : s.reached = s.pool.height := by
  rw [System.reached, hsync, add_zero]

theorem advanced_of_other (hwell : WellFormed heightOf s.pool s.holder)
    (hexamining : Examining heightOf s) (hstep : step heightOf s event = .ok next)
    (hdrives : event.drivesSync = false) : Advanced heightOf s next event := by
  have hsync := sync_eq_of_step hstep hdrives
  have hpop : event ≠ .pop := by
    rintro rfl
    cases hdrives
  have hheight := (transition_of_step hwell hstep).height_eq hpop
  apply advanced_of_none
  · unfold verified
    split
    next => cases hdrives
    next => rfl
  · intro round first second hverifying
    rw [hheight]
    exact hexamining round first second (hsync ▸ hverifying)
  · rw [System.reached, System.reached, hsync, hheight]

theorem advanced_of_step (hwell : WellFormed heightOf s.pool s.holder)
    (hexamining : Examining heightOf s) (hstep : step heightOf s event = .ok next) :
    Advanced heightOf s next event := by
  cases stepped_of_step hstep with
  | takeTimeout hidle =>
    apply advanced_of_resting rfl (fun _ _ _ h ↦ (by cases h))
    rw [System.reached, System.reached, hidle]
    rfl
  | stopPeer hfree hstopping =>
    apply advanced_of_resting rfl (fun _ _ _ h ↦ (by cases h))
    rw [System.reached, System.reached, hstopping]
    rfl
  | trySync hidle =>
    apply advanced_of_resting rfl (fun _ _ _ h ↦ (by cases h))
    rw [System.reached, System.reached, hidle]
    rfl
  | peeked hfree hpeeking hblocks =>
    refine advanced_of_none rfl ?_ ?_
    · rintro _ _ _ hverifying
      cases hverifying
      obtain ⟨⟨ref, requester⟩, hat, hblock⟩ :=
        Option.bind_eq_some_iff.mp (congrArg Prod.fst hblocks)
      exact hwell.height_of_requesterAt hat hblock
    · rw [System.reached, System.reached, hpeeking]
      rfl
  | waits hfree hpeeking =>
    apply advanced_of_resting rfl (fun _ _ _ h ↦ (by cases h))
    rw [System.reached, System.reached, hpeeking]
    rfl
  | @verify ok round first second hverifying =>
    have hreached : s.reached = s.pool.height := reached_of_ahead (by rw [hverifying]; rfl)
    cases ok with
    | false =>
      exact advanced_of_resting rfl (fun _ _ _ h ↦ (by cases h))
        (hreached.trans (add_zero _).symm).symm
    | true =>
      have hsome : verified heightOf s (.verify true) = some (heightOf first) := by
        rw [verified, hverifying]
      refine ⟨fun _ _ _ h ↦ (by cases h), fun hnone ↦ ?_, fun height hheight ↦ ?_⟩
      · rw [hsome] at hnone
        cases hnone
      · rw [hsome] at hheight
        cases hheight
        rw [hreached]
        exact ⟨hexamining round first second hverifying, rfl⟩
  | @pop round pool hfree hpopping hpool =>
    have hahead : (if round + 1 < 10 then .peeking (round + 1) else .idle :
        Sync PeerID Block).ahead = 0 := by
      split <;> rfl
    apply advanced_of_resting rfl
    · intro _ _ _ hverifying
      dsimp only at hverifying
      split at hverifying <;> cases hverifying
    · rw [reached_of_ahead hahead, System.reached, hpopping]
      exact height_of_popRequest hpool
  | redoRequest hfree hredoing hpool =>
    obtain ⟨id, rfl⟩ := removePeer_of_redoRequest hwell.sound hpool
    apply advanced_of_resting rfl (fun _ _ _ h ↦ (by cases h))
    rw [System.reached, System.reached, hredoing]
    rfl
  | _ => exact advanced_of_other hwell hexamining hstep rfl

/-! ## All runs -/

/-- When `makeNextRequester` and `PopRequest` are called at any time, the map of requesters holds
exactly the heights from that of the pool on; the block of a requester has the height of the
requester and came from the peer that the requester was assigned to at that time; and the heights
are popped one after the other, from the first on. In the sync loop these are the heights of the
blocks that are verified and then saved. -/
theorem blockPool_window {start : ℤ} {events : List (Event PeerID Block)}
    (hrun : Schedules.run (freeStep heightOf) (newBlockPool start) events = .ok s) :
    s.pool.keys.reduceOption =
        (List.range s.pool.requestersLen).map (fun k : ℕ ↦ s.pool.height + k) ∧
      (∀ k ref requester block, s.pool.requesterAt k = some (ref, requester) →
        requester.block = some block → heightOf block = k ∧
          ∃ before later peerID mid assigned, events = before ++ .addBlock peerID block :: later ∧
            Schedules.run (freeStep heightOf) (newBlockPool start) before = .ok mid ∧
            mid.pool.requesterAt k = some (ref, assigned) ∧ assigned.peerID = some peerID) ∧
      (∃ n : ℕ, s.pool.height = start + n ∧
        Schedules.observed (freeStep heightOf) popped (newBlockPool start) events =
          (List.range n).map fun k : ℕ ↦ start + k) ∧
      ∀ (synced : List (Event PeerID Block)) (final : System PeerID Block),
        run heightOf (newBlockPool start) synced = .ok final →
          ∃ n : ℕ, final.reached = start + n ∧
            Schedules.observed (step heightOf) (verified heightOf) (newBlockPool start) synced =
              (List.range n).map fun k : ℕ ↦ start + k := by
  have hwell := wellFormed_of_freeRun hrun
  refine ⟨hwell.window, ?_, ?_, ?_⟩
  · intro k ref requester block hat hblock
    have hheight := hwell.height_of_requesterAt hat hblock
    refine ⟨hheight, ?_⟩
    rw [← hheight]
    exact exists_addBlock_of_run hrun (Pool.requesterAt_eq_some_iff.mp hat).2 hblock
  · exact Schedules.observed_eq_range (fun s : System PeerID Block ↦ s.pool.height)
      (fun s ↦ WellFormed heightOf s.pool s.holder) (fun _ _ _ hwell hstep ↦ hwell.freeStep hstep)
      (fun _ _ _ hwell hstep ↦ (height_of_freeStep hwell hstep).1)
      (fun _ _ _ height hwell hstep ↦ (height_of_freeStep hwell hstep).2 height)
      (wellFormed_newBlockPool start) hrun
  · intro synced final hsynced
    have hobserved := Schedules.observed_eq_range (System.reached : System PeerID Block → ℤ)
      (fun s ↦ WellFormed heightOf s.pool s.holder ∧ Examining heightOf s)
      (fun _ _ _ hs hstep ↦ ⟨hs.1.transition (transition_of_step hs.1 hstep),
        (advanced_of_step hs.1 hs.2 hstep).examining⟩)
      (fun _ _ _ hs hstep ↦ (advanced_of_step hs.1 hs.2 hstep).still)
      (fun _ _ _ height hs hstep ↦ (advanced_of_step hs.1 hs.2 hstep).advanced height)
      ⟨wellFormed_newBlockPool start, fun _ _ _ h ↦ (by cases h)⟩ hsynced
    have hstart : (newBlockPool start : System PeerID Block).reached = start := add_zero start
    rwa [hstart] at hobserved

/-- Block 1 is requested, delivered and popped, and the next requester is made. -/
theorem blockPool_window_one :
    let events : List (Event ℕ ℤ) :=
      oneRequest ++ [.addBlock 7 1, .gotBlock, .pop, .makeNextRequester]
    ∃ s final, Schedules.run (freeStep id) (newBlockPool 1) events = .ok s ∧
      run id (newBlockPool 1) oneRequest = .ok final ∧
      s.pool.keys.reduceOption =
        (List.range s.pool.requestersLen).map (fun k : ℕ ↦ s.pool.height + k) ∧
      (∃ n : ℕ, s.pool.height = 1 + n ∧
        Schedules.observed (freeStep id) popped (newBlockPool 1) events =
          (List.range n).map fun k : ℕ ↦ (1 : ℤ) + k) ∧
      ∃ n : ℕ, final.reached = 1 + n := by
  intro events
  obtain ⟨s, hs⟩ : ∃ s, Schedules.run (freeStep id) (newBlockPool 1) events = .ok s := ⟨_, rfl⟩
  obtain ⟨final, hfinal⟩ : ∃ final, run id (newBlockPool 1) oneRequest = .ok final := ⟨_, rfl⟩
  obtain ⟨hkeys, -, hpopped, hsynced⟩ := blockPool_window hs
  obtain ⟨n, hreached, -⟩ := hsynced oneRequest final hfinal
  exact ⟨s, final, hs, hfinal, hkeys, hpopped, n, hreached⟩

end LkChain.BlockPool
