import LkChain.BlockPool.Transitions

/-!
# `RedoRequest` after a failed verification

`poolRoutine` peeks at two blocks, verifies them without the lock and then calls `RedoRequest` at
the height of the first. In between, nothing but `PopRequest` removes a requester from the map, and
only `poolRoutine` itself calls it; so the requester is still there. Its block is still there too,
unless the requester has carried out a redo in the meantime.
-/

namespace LkChain.BlockPool

open Foundation Foundation.Stops
open Tendermint.Types (Panic Fallible)

variable {PeerID Block : Type}

/-- The height that `poolRoutine` verifies a block of, or has failed to. -/
def Sync.examines (heightOf : Block → ℤ) : Sync PeerID Block → Option ℤ
  | .verifying _ first _ => some (heightOf first)
  | .redoing height => some height
  | _ => none

section Transitions

variable [DecidableEq PeerID] {heightOf : Block → ℤ} {pool after : Pool PeerID Block}
  {holder holder' : Option (Delivery PeerID)} {event : Event PeerID Block} {ref : ℕ}
  {requester : Requester PeerID Block}

/-- Only `PopRequest` removes a requester from the map. -/
theorem Transition.keys_eq (htransition : Transition heightOf pool holder event after holder')
    (hpop : event ≠ .pop) : ∃ new, after.keys = pool.keys ++ new := by
  have hsame : ∀ {mid : Pool PeerID Block}, mid.keys = pool.keys →
      ∃ new, mid.keys = pool.keys ++ new := fun h ↦ ⟨[], by rw [h, List.append_nil]⟩
  cases htransition with
  | still => exact hsame rfl
  | acted hcell hacted => exact hsame (Pool.keys_setCell hcell hacted.key_eq)
  | sent hcell hroutine => exact hsame (Pool.keys_setCell hcell rfl)
  | removed _ hremoved => exact hsame hremoved.keys_eq
  | @picked ref _ _ mid found requester picked hremoved hfound hcell hroutine =>
    apply hsame
    rw [← hfound.cells_eq.1] at hcell
    have hkey : ({ requester with routine := (picked.map Routine.assigning).getD .checking } :
        Requester PeerID Block).key = requester.key := rfl
    calc
      _ = found.keys := Pool.keys_setCell hcell hkey
      _ = mid.keys := by rw [Pool.keys, hfound.cells_eq.1, Pool.keys]
      _ = pool.keys := hremoved.keys_eq
  | renewed => exact hsame rfl
  | made => exact ⟨_, List.map_append⟩
  | stored hat hblock hpeer =>
    exact hsame (Pool.keys_setCell (Pool.requesterAt_eq_some_iff.mp hat).2 rfl)
  | @received delivery requester _ hcell hroutine hdecr =>
    apply hsame
    calc
      _ = (pool.setCell delivery.ref { requester with routine := .got }).keys := by
        rw [Pool.keys, (Pool.decrPending_eq_ok hdecr).1, Pool.keys]
      _ = pool.keys := Pool.keys_setCell hcell rfl
  | popped => exact absurd rfl hpop

theorem Transition.find_eq (htransition : Transition heightOf pool holder event after holder')
    (hpop : event ≠ .pop) {height : ℤ} (hfind : pool.find height = some ref) :
    after.find height = some ref := by
  obtain ⟨new, hkeys⟩ := htransition.keys_eq hpop
  unfold Pool.find at hfind ⊢
  rw [hkeys, List.findIdx?_append, hfind]
  rfl

omit [DecidableEq PeerID] in
theorem Acted.block_eq {action : Action} {acted : Requester PeerID Block}
    (hacted : Acted requester action acted) (hreset : action ≠ .reset) :
    acted.block = requester.block := by
  cases hacted with
  | reset => exact absurd rfl hreset
  | _ => rfl

omit [DecidableEq PeerID] in
theorem block_of_set {cells : List (Requester PeerID Block)} {other : ℕ}
    {old new : Requester PeerID Block} (hget : cells[ref]? = some requester)
    (hblock : requester.block ≠ none) (hold : cells[other]? = some old)
    (hkeeps : other = ref → old.block ≠ none → new.block ≠ none) :
    ∃ kept, (cells.set other new)[ref]? = some kept ∧ kept.block ≠ none := by
  by_cases href : other = ref
  · subst href
    cases hget.symm.trans hold
    exact ⟨new, Cells.get_set_self hold, hkeeps rfl hblock⟩
  · exact ⟨requester, (List.getElem?_set_ne href).trans hget, hblock⟩

theorem Transition.block_eq (htransition : Transition heightOf pool holder event after holder')
    (hreset : event ≠ .act ref .reset) (hget : pool.cells[ref]? = some requester)
    (hblock : requester.block ≠ none) :
    ∃ kept, after.cells[ref]? = some kept ∧ kept.block ≠ none := by
  cases htransition with
  | still => exact ⟨requester, hget, hblock⟩
  | acted hcell hacted =>
    refine block_of_set hget hblock hcell fun href hold ↦ ?_
    rw [hacted.block_eq fun haction ↦ hreset (by rw [href, haction])]
    exact hold
  | sent hcell hroutine => exact block_of_set hget hblock hcell fun _ ↦ id
  | removed _ hremoved =>
    refine ⟨_, hremoved.get hget, ?_⟩
    rw [block_asked]
    exact hblock
  | picked hremoved hfound hcell hroutine =>
    rw [Pool.setCell, hfound.cells_eq.1]
    refine block_of_set (hremoved.get hget) ?_ hcell fun _ hold ↦ ?_
    · rw [block_asked]
      exact hblock
    · exact hold
  | renewed => exact ⟨requester, hget, hblock⟩
  | made =>
    exact ⟨requester, (List.getElem?_append_left (Cells.length_lt_of_get hget)).trans hget, hblock⟩
  | stored hat =>
    exact block_of_set hget hblock (Pool.requesterAt_eq_some_iff.mp hat).2
      fun _ _ ↦ Option.some_ne_none _
  | received hcell hroutine hdecr =>
    rw [(Pool.decrPending_eq_ok hdecr).1]
    exact block_of_set hget hblock hcell fun _ ↦ id
  | popped hat => exact block_of_set hget hblock (Pool.requesterAt_eq_some_iff.mp hat).2 fun _ ↦ id

end Transitions

section Steps

variable [DecidableEq PeerID] {heightOf : Block → ℤ} {s next : System PeerID Block}
  {event : Event PeerID Block} {height : ℤ}

/-- Only a peek makes `poolRoutine` examine another height, and it does not pop meanwhile. -/
theorem examines_of_step (hstep : step heightOf s event = .ok next) (hpeek : event ≠ .peek)
    (hexamines : next.sync.examines heightOf = some height) :
    s.sync.examines heightOf = some height ∧ event ≠ .pop := by
  cases routed_of_step hstep with
  | other hsync hrequests hpop => exact ⟨hsync ▸ hexamines, hpop⟩
  | sent hroom hsync hlength => exact ⟨hsync ▸ hexamines, by simp⟩
  | taken hidle hsync hlength => exact ⟨hsync ▸ hexamines, by simp⟩
  | stopping hidle hsync hrequests | stopped hfree hsync hrequests
  | started hidle hsync hrequests =>
    rw [hsync] at hexamines
    cases hexamines
  | peeked hfree hrequests => exact absurd rfl hpeek
  | verified hbefore hsync hrequests =>
    rw [hsync] at hexamines
    split at hexamines
    next => cases hexamines
    next =>
      rw [hbefore]
      exact ⟨hexamines, by simp⟩
  | popped hfree hsync hrequests =>
    rw [hsync] at hexamines
    split at hexamines <;> cases hexamines
  | redone hfree hsync hrequests =>
    rw [hsync] at hexamines
    cases hexamines

/-- `poolRoutine` examines a height whose requester has a block. -/
theorem requesterAt_of_peek (hwell : WellFormed heightOf s.pool s.holder)
    (hstep : step heightOf s .peek = .ok next)
    (hexamines : next.sync.examines heightOf = some height) :
    ∃ ref requester, next.pool.requesterAt height = some (ref, requester) ∧
      requester.block ≠ none := by
  cases stepped_of_step hstep with
  | peeked hfree hsync hblocks =>
    cases hexamines
    obtain ⟨⟨ref, requester⟩, hat, hblock⟩ :=
      Option.bind_eq_some_iff.mp (congrArg Prod.fst hblocks)
    refine ⟨ref, requester, ?_, ne_of_eq_of_ne hblock (Option.some_ne_none _)⟩
    rw [hwell.height_of_requesterAt hat hblock]
    exact hat
  | waits => cases hexamines

end Steps

section Runs

variable [DecidableEq PeerID] {heightOf : Block → ℤ} {s peeked : System PeerID Block}
  {later : List (Event PeerID Block)} {height : ℤ}

/-- After the last peek `poolRoutine` examines the same height, where the map finds the same
requester. -/
theorem find_since_peek (hwell : WellFormed heightOf peeked.pool peeked.holder)
    (hlater : run heightOf peeked later = .ok s) (hpeek : Event.peek ∉ later)
    (hexamines : s.sync.examines heightOf = some height) :
    peeked.sync.examines heightOf = some height ∧
      ∀ ref, peeked.pool.find height = some ref → s.pool.find height = some ref := by
  have hinvariant : WellFormed heightOf s.pool s.holder ∧
      ∀ height, s.sync.examines heightOf = some height →
        peeked.sync.examines heightOf = some height ∧
          ∀ ref, peeked.pool.find height = some ref → s.pool.find height = some ref := by
    refine Schedules.invariant (fun s ↦ WellFormed heightOf s.pool s.holder ∧
      ∀ height, s.sync.examines heightOf = some height →
        peeked.sync.examines heightOf = some height ∧
          ∀ ref, peeked.pool.find height = some ref → s.pool.find height = some ref)
      ?_ ⟨hwell, fun _ h ↦ ⟨h, fun _ ↦ id⟩⟩ hlater
    rintro mid event next hevent ⟨hmid, hsame⟩ hstep
    have htransition := transition_of_step hmid hstep
    refine ⟨hmid.transition htransition, fun height hexamines ↦ ?_⟩
    obtain ⟨hbefore, hpop⟩ :=
      examines_of_step hstep (ne_of_mem_of_not_mem hevent hpeek) hexamines
    obtain ⟨hpeeked, hfind⟩ := hsame height hbefore
    exact ⟨hpeeked, fun ref href ↦ htransition.find_eq hpop (hfind ref href)⟩
  exact hinvariant.2 height hexamines

theorem block_since_peek {ref : ℕ} {requester : Requester PeerID Block}
    (hwell : WellFormed heightOf peeked.pool peeked.holder)
    (hlater : run heightOf peeked later = .ok s) (hreset : Event.act ref .reset ∉ later)
    (hget : peeked.pool.cells[ref]? = some requester) (hblock : requester.block ≠ none) :
    ∃ kept, s.pool.cells[ref]? = some kept ∧ kept.block ≠ none := by
  have hinvariant : WellFormed heightOf s.pool s.holder ∧
      ∃ kept, s.pool.cells[ref]? = some kept ∧ kept.block ≠ none := by
    refine Schedules.invariant (fun s ↦ WellFormed heightOf s.pool s.holder ∧
      ∃ kept, s.pool.cells[ref]? = some kept ∧ kept.block ≠ none)
      ?_ ⟨hwell, requester, hget, hblock⟩ hlater
    rintro mid event next hevent ⟨hmid, kept, hkept, hblock⟩ hstep
    have htransition := transition_of_step hmid hstep
    exact ⟨hmid.transition htransition,
      htransition.block_eq (ne_of_mem_of_not_mem hevent hreset) hkept hblock⟩
  exact hinvariant.2

theorem mem_peek_of_examines {start : ℤ} {events : List (Event PeerID Block)}
    (hrun : run heightOf (newBlockPool start) events = .ok s)
    (hexamines : s.sync.examines heightOf = some height) : Event.peek ∈ events := by
  by_contra hpeek
  obtain ⟨hidle, -⟩ :=
    find_since_peek (wellFormed_newBlockPool start) hrun hpeek hexamines
  cases hidle

theorem survives_redoRequest_iff {pool : Pool PeerID Block} {ref : ℕ}
    {requester : Requester PeerID Block} (hat : pool.requesterAt height = some (ref, requester)) :
    Survives (pool.redoRequest height) ↔ requester.block ≠ none := by
  unfold Pool.redoRequest
  rw [hat]
  dsimp only
  cases requester.block with
  | none => simp
  | some block => simp

/-- When `poolRoutine` has failed to verify the block of a height, the requester of that height is
in the map, and `RedoRequest` panics exactly if its block is gone. The block is there unless the
requester was reset after the last peek. -/
theorem redoRequest_survives_unless_reset {start : ℤ} {events : List (Event PeerID Block)}
    (hrun : run heightOf (newBlockPool start) events = .ok s) (hsync : s.sync = .redoing height) :
    ∃ ref requester, s.pool.requesterAt height = some (ref, requester) ∧
      (Survives (s.pool.redoRequest height) ↔ requester.block ≠ none) ∧
      ∃ before later, events = before ++ .peek :: later ∧ Event.peek ∉ later ∧
        (Event.act ref .reset ∉ later → requester.block ≠ none) := by
  have hexamines : s.sync.examines heightOf = some height := by
    rw [hsync]
    rfl
  obtain ⟨before, later, rfl, hpeek⟩ :=
    Schedules.exists_last (mem_peek_of_examines hrun hexamines)
  obtain ⟨mid, hbefore, hafter⟩ := Schedules.run_append_eq_ok_iff.mp hrun
  obtain ⟨peeked, hstep, hlater⟩ := Schedules.run_cons_eq_ok_iff.mp hafter
  have hmid := wellFormed_of_run hbefore
  have hwell := hmid.transition (transition_of_step hmid hstep)
  obtain ⟨hpeeked, hfind⟩ := find_since_peek hwell hlater hpeek hexamines
  obtain ⟨ref, requester, hat, hblock⟩ := requesterAt_of_peek hmid hstep hpeeked
  obtain ⟨href, hget⟩ := Pool.requesterAt_eq_some_iff.mp hat
  obtain ⟨now, hnow⟩ := Pool.exists_of_find (hfind ref href)
  have hatNow := Pool.requesterAt_eq_some_iff.mpr ⟨hfind ref href, hnow⟩
  refine ⟨ref, now, hatNow, survives_redoRequest_iff hatNow, before, later, rfl, hpeek, ?_⟩
  intro hreset
  obtain ⟨kept, hkept, hstill⟩ := block_since_peek hwell hlater hreset hget hblock
  cases hnow.symm.trans hkept
  exact hstill

/-- Blocks 1 and 2 have arrived from peers 7 and 8, and `poolRoutine` has failed to verify block
1. -/
def failedVerification : List (Event ℕ ℤ) :=
  [.setPeerHeight 7 5, .setPeerHeight 8 5, .getStatus, .makeNextRequester, .act 0 .check,
    .pick 0 [7, 8], .act 0 .assign, .send 0, .getStatus, .makeNextRequester, .act 1 .check,
    .pick 1 [8, 7], .act 1 .assign, .send 1, .addBlock 7 1, .gotBlock, .addBlock 8 2, .gotBlock,
    .trySync, .peek, .verify false]

/-- Nobody was reset in between: `RedoRequest` finds the block. -/
theorem redoRequest_survives_failedVerification : ∃ s ref requester,
    run id (newBlockPool 1) failedVerification = .ok s ∧ s.sync = .redoing 1 ∧
    s.pool.requesterAt 1 = some (ref, requester) ∧ Survives (s.pool.redoRequest 1) := by
  obtain ⟨s, hrun, hsync⟩ : ∃ s, run id (newBlockPool 1) failedVerification = .ok s ∧
      s.sync = .redoing 1 := ⟨_, rfl, rfl⟩
  obtain ⟨ref, requester, hat, hsurvives, before, later, hevents, -, hblock⟩ :=
    redoRequest_survives_unless_reset hrun hsync
  have hreset : Event.act ref .reset ∉ failedVerification := by simp [failedVerification]
  refine ⟨s, ref, requester, hrun, hsync, hat, hsurvives.mpr (hblock fun hmem ↦ hreset ?_)⟩
  rw [hevents]
  exact List.mem_append_right _ (List.mem_cons_of_mem _ hmem)

/-- The peer of block 1 is removed during the verification, and its requester is reset before
`RedoRequest` takes the lock. -/
theorem redoRequest_panics_after_reset :
    run id (newBlockPool 1)
      (failedVerification ++ [.removePeer 7, .act 0 .receiveRedo, .act 0 .reset,
      .redoRequest]) = .error (.panic (.sanity "Expected block to be non-nil")) := rfl

end Runs

end LkChain.BlockPool
