import LkChain.BlockPool.Transitions

/-!
# The counters of the pool

`numPending` of the pool counts the requesters that still need a block, `numPending` of a peer the
requests it has not answered. Both are changed under the lock, while a redo takes effect later, so
they go wrong if a requester is touched in between: if it is given a block, asked for another redo
or popped with a redo outstanding, or if its peer is removed before it has written it down. As long
as that does not happen, the counters are right.
-/

namespace LkChain.BlockPool

open Foundation Foundation.Stops
open Tendermint.Types (Panic Fallible)

variable {PeerID Block : Type}

/-- The routine waits in a `select`, or is about to. -/
def Routine.selecting : Routine PeerID → Bool
  | .sending _ | .waiting | .got => true
  | _ => false

variable [DecidableEq PeerID]

namespace Requester

variable (requester : Requester PeerID Block)

/-- The requester counts for the pool. -/
def pending : Bool := requester.listed && (requester.block.isNone || requester.outstanding)

/-- The requester is assigned to the peer, or about to be. -/
def assignedTo (id : PeerID) : Bool :=
  requester.peerID = some id || requester.routine = .assigning id

/-- The requester counts for the peer. -/
def loads (id : PeerID) : Bool :=
  requester.assignedTo id && requester.block.isNone && !requester.outstanding

end Requester

/-- A step that does not touch a requester with a redo outstanding, and does not remove a peer that
a requester has picked and not yet written down. -/
structure Undisturbed (pool after : Pool PeerID Block) : Prop where
  redo : ∀ pair ∈ pool.cells.zip after.cells, pair.1.redos < pair.2.redos →
    pair.1.outstanding = false
  stored : ∀ pair ∈ pool.cells.zip after.cells, pair.1.block.isNone → pair.2.block.isSome →
    pair.1.outstanding = false
  popped : ∀ pair ∈ pool.cells.zip after.cells, pair.1.listed → ¬ pair.2.listed →
    pair.1.block.isSome ∧ pair.1.outstanding = false
  removed : ∀ id ∈ pool.peers.keys, after.peers.lookup id = none →
    ∀ requester ∈ pool.cells, requester.routine ≠ .assigning id

instance decidableUndisturbed (pool after : Pool PeerID Block) :
    Decidable (Undisturbed pool after) :=
  decidable_of_iff
    ((∀ pair ∈ pool.cells.zip after.cells, pair.1.redos < pair.2.redos →
        pair.1.outstanding = false) ∧
      (∀ pair ∈ pool.cells.zip after.cells, pair.1.block.isNone → pair.2.block.isSome →
        pair.1.outstanding = false) ∧
      (∀ pair ∈ pool.cells.zip after.cells, pair.1.listed → ¬ pair.2.listed →
        pair.1.block.isSome ∧ pair.1.outstanding = false) ∧
      ∀ id ∈ pool.peers.keys, after.peers.lookup id = none →
        ∀ requester ∈ pool.cells, requester.routine ≠ .assigning id)
    ⟨fun ⟨h₁, h₂, h₃, h₄⟩ ↦ ⟨h₁, h₂, h₃, h₄⟩, fun h ↦ ⟨h.redo, h.stored, h.popped, h.removed⟩⟩

/-- A requester as it is when nothing is disturbed. -/
structure Regular (holder : Option (Delivery PeerID)) (ref : ℕ)
    (requester : Requester PeerID Block) : Prop where
  redos : requester.redos = 0 ∨ requester.redos = 1 ∧ requester.routine.selecting = true
  unlisted : requester.listed = false →
    (requester.routine = .got ∨ requester.routine = .returned) ∧ requester.block ≠ none ∧
      requester.redos = 0
  stored : requester.routine.receptive = true → requester.block ≠ none →
    ∃ delivery, holder = some delivery ∧ delivery.ref = ref
  held : ∀ delivery, holder = some delivery → delivery.ref = ref →
    requester.outstanding = false ∧ requester.routine.receptive = true ∧
      requester.peerID = some delivery.peerID ∧ requester.block ≠ none

/-- The counters are right. -/
structure Counted (pool : Pool PeerID Block) (holder : Option (Delivery PeerID)) : Prop where
  regular : ∀ ref requester, pool.cells[ref]? = some requester → Regular holder ref requester
  numPending : pool.numPending =
    (pool.cells.countP Requester.pending : ℤ) + holder.isSome.toNat
  peer : ∀ id peer, pool.peers.lookup id = some peer →
    peer.numPending = (pool.cells.countP fun requester ↦ requester.loads id : ℤ) +
      (decide (holder.map Delivery.peerID = some id)).toNat
  absent : ∀ id, pool.peers.lookup id = none →
    ∀ requester ∈ pool.cells, requester.loads id = false
  present : ∀ delivery, holder = some delivery → pool.peers.lookup delivery.peerID ≠ none
  monitored : ∀ id peer, pool.peers.lookup id = some peer → peer.numPending ≠ 0 →
    peer.recvMonitor = true ∧ peer.timeout = true

section Requesters

variable {heightOf : Block → ℤ} {holder : Option (Delivery PeerID)} {ref : ℕ}
  {requester after : Requester PeerID Block} {action : Action}

theorem Regular.not_outstanding (hregular : Regular holder ref requester)
    (hroutine : requester.routine.selecting = false) (hreset : requester.routine ≠ .resetting) :
    requester.redos = 0 ∧ requester.outstanding = false := by
  have hredos : requester.redos = 0 := by
    rcases hregular.redos with hzero | ⟨-, hselecting⟩
    · exact hzero
    · cases hroutine.symm.trans hselecting
  refine ⟨hredos, ?_⟩
  simp [Requester.outstanding, hredos, hreset]

theorem Regular.listed (hregular : Regular holder ref requester)
    (hroutine : requester.routine.selecting = false) (hreturned : requester.routine ≠ .returned) :
    requester.listed = true := by
  by_contra hunlisted
  rcases (hregular.unlisted (Bool.not_eq_true _ ▸ hunlisted)).1 with hgot | hdone
  · rw [hgot] at hroutine
    cases hroutine
  · exact hreturned hdone

theorem Regular.listed_of_receptive (hregular : Regular holder ref requester)
    (hroutine : requester.routine.receptive = true) : requester.listed = true := by
  by_contra hunlisted
  rcases (hregular.unlisted (Bool.not_eq_true _ ▸ hunlisted)).1 with hgot | hdone
  · rw [hgot] at hroutine
    cases hroutine
  · rw [hdone] at hroutine
    cases hroutine

theorem Regular.not_held (hregular : Regular holder ref requester)
    (hroutine : requester.routine.receptive = false) (delivery : Delivery PeerID)
    (hholder : holder = some delivery) : delivery.ref ≠ ref := by
  intro href
  cases hroutine.symm.trans (hregular.held delivery hholder href).2.1

theorem regular_of_searching (hlisted : after.listed = true) (hredos : after.redos = 0)
    (hroutine : after.routine.receptive = false)
    (hfree : ∀ delivery, holder = some delivery → delivery.ref ≠ ref) :
    Regular holder ref after := by
  refine ⟨.inl hredos, fun h ↦ ?_, fun h ↦ ?_, fun delivery hholder href ↦ ?_⟩
  · cases hlisted.symm.trans h
  · cases hroutine.symm.trans h
  · exact absurd href (hfree delivery hholder)

/-- The steps of `requestRoutine` change no counter, and need not. -/
theorem Acted.counted (hacted : Acted requester action after) (hsound : requester.Sound heightOf)
    (hregular : Regular holder ref requester) :
    after.pending = requester.pending ∧ (∀ id, after.loads id = requester.loads id) ∧
      Regular holder ref after := by
  have hfits := hsound.fits
  cases hacted with
  | check hroutine =>
    obtain ⟨hredos, -⟩ := hregular.not_outstanding (by rw [hroutine]; rfl) (by simp [hroutine])
    have hlisted := hregular.listed (by rw [hroutine]; rfl) (by simp [hroutine])
    rw [hsound.running hlisted, if_pos rfl]
    refine ⟨?_, fun id ↦ ?_, regular_of_searching hlisted hredos rfl
      (hregular.not_held (by rw [hroutine]; rfl))⟩
    · simp [Requester.pending, Requester.outstanding, hroutine]
    · simp [Requester.loads, Requester.assignedTo, Requester.outstanding, hroutine]
  | @assign peerID hroutine =>
    obtain ⟨hredos, -⟩ := hregular.not_outstanding (by rw [hroutine]; rfl) (by simp [hroutine])
    have hlisted := hregular.listed (by rw [hroutine]; rfl) (by simp [hroutine])
    rw [hroutine] at hfits
    refine ⟨?_, fun id ↦ ?_, .inl hredos, fun h ↦ ?_, fun _ h ↦ ?_, fun delivery hholder href ↦ ?_⟩
    · simp [Requester.pending, Requester.outstanding, hroutine]
    · simp [Requester.loads, Requester.assignedTo, Requester.outstanding, hroutine, hfits.1]
    · cases hlisted.symm.trans h
    · exact absurd hfits.2 h
    · exact absurd href (hregular.not_held (by rw [hroutine]; rfl) delivery hholder)
  | receiveRedo hroutine hredos =>
    have hone : requester.redos = 1 := by
      rcases hregular.redos with hzero | ⟨hone, -⟩
      · omega
      · exact hone
    have houtstanding : requester.outstanding = true := by simp [Requester.outstanding, hredos]
    refine ⟨?_, fun id ↦ ?_, .inl ?_, fun h ↦ ?_, fun h ↦ ?_, fun delivery hholder href ↦ ?_⟩
    · simp [Requester.pending, Requester.outstanding, hredos]
    · simp [Requester.loads, Requester.outstanding, hredos]
    · dsimp only
      omega
    · have hzero := (hregular.unlisted h).2.2
      omega
    · cases h
    · cases houtstanding.symm.trans (hregular.held delivery hholder href).1
  | reset hroutine =>
    have hlisted := hregular.listed (by rw [hroutine]; rfl) (by simp [hroutine])
    have hredos : requester.redos = 0 := by
      rcases hregular.redos with hzero | ⟨-, hselecting⟩
      · exact hzero
      · rw [hroutine] at hselecting
        cases hselecting
    refine ⟨?_, fun id ↦ ?_, regular_of_searching hlisted hredos rfl
      (hregular.not_held (by rw [hroutine]; rfl))⟩
    · simp [Requester.pending, Requester.reset, Requester.outstanding, hroutine]
    · simp [Requester.loads, Requester.assignedTo, Requester.reset, Requester.outstanding, hroutine]
  | quit hroutine hstopped =>
    have hunlisted : requester.listed = false := by
      by_contra hlisted
      cases hstopped.symm.trans (hsound.running (Bool.not_eq_false _ ▸ hlisted))
    obtain ⟨hplace, hblock, hredos⟩ := hregular.unlisted hunlisted
    have hgot : requester.routine = .got := by
      rcases hplace with hgot | hreturned
      · exact hgot
      · rcases hroutine with h | h
        · cases hreturned.symm.trans h
        · exact h
    refine ⟨?_, fun id ↦ ?_, .inl hredos, fun _ ↦ ⟨.inr rfl, hblock, hredos⟩, fun h ↦ ?_,
      fun delivery hholder href ↦ ?_⟩
    · simp [Requester.pending, hunlisted]
    · simp [Requester.loads, Option.isNone_eq_false_iff.mpr (Option.isSome_iff_ne_none.mpr hblock)]
    · cases h
    · exact absurd href (hregular.not_held (by rw [hgot]; rfl) delivery hholder)

theorem selecting_of_assigned (hsound : requester.Sound heightOf)
    (hlisted : requester.listed = true) (hpeer : requester.peerID ≠ none)
    (hidle : requester.outstanding = false) : requester.routine.selecting = true := by
  have hfits := hsound.fits
  cases hroutine : requester.routine <;> rw [hroutine] at hfits
  case resetting =>
    simp [Requester.outstanding, hroutine] at hidle
  case returned =>
    rw [hsound.running hlisted] at hfits
    cases hfits
  case sending => rfl
  case waiting => rfl
  case got => rfl
  all_goals exact absurd hfits.1 hpeer

theorem redos_of_not_outstanding (hidle : requester.outstanding = false) : requester.redos = 0 := by
  by_contra hredos
  simp [Requester.outstanding, Nat.pos_of_ne_zero hredos] at hidle

theorem not_assignedTo {id : PeerID} (hpeer : requester.peerID ≠ some id)
    (hroutine : requester.routine ≠ .assigning id) : requester.loads id = false := by
  simp [Requester.loads, Requester.assignedTo, hpeer, hroutine]

theorem not_loads_of_block (hblock : requester.block ≠ none) (id : PeerID) :
    requester.loads id = false := by
  simp [Requester.loads, Option.isNone_eq_false_iff.mpr (Option.isSome_iff_ne_none.mpr hblock)]

omit [DecidableEq PeerID] in
theorem not_assigning_of_peerID (hsound : requester.Sound heightOf)
    (hpeer : requester.peerID ≠ none)
    (id : PeerID) : requester.routine ≠ .assigning id := by
  intro hroutine
  have hfits := hsound.fits
  rw [hroutine] at hfits
  exact hpeer hfits.1

theorem loads_of_assigning {id : PeerID} (hregular : Regular holder ref requester)
    (hsound : requester.Sound heightOf) (hroutine : requester.routine = .assigning id) :
    requester.loads id = true := by
  have hidle := (hregular.not_outstanding (by rw [hroutine]; rfl) (by simp [hroutine])).2
  have hfits := hsound.fits
  rw [hroutine] at hfits
  simp [Requester.loads, Requester.assignedTo, hroutine, hfits.2, hidle]

/-- A requester whose peer may be removed: it counts for the pool from then on, and for no peer. -/
theorem Regular.asked {ids : List PeerID} (hregular : Regular none ref requester)
    (hsound : requester.Sound heightOf)
    (hidle : requester.servedBy ids = true → requester.outstanding = false) :
    requester.pending.toNat + (requester.servedBy ids && requester.block.isSome).toNat =
        (requester.asked ids).pending.toNat ∧
      (∀ id ∉ ids, (requester.asked ids).loads id = requester.loads id) ∧
      (∀ id ∈ ids, requester.routine ≠ .assigning id → (requester.asked ids).loads id = false) ∧
      Regular none ref (requester.asked ids) := by
  unfold Requester.asked
  cases hserved : requester.servedBy ids with
  | true =>
    have hidle := hidle hserved
    simp only [Requester.servedBy, Bool.and_eq_true, decide_eq_true_eq] at hserved
    obtain ⟨hlisted, peer, hmem, hpeer⟩ := hserved
    have hassigned := ne_of_eq_of_ne hpeer (Option.some_ne_none _)
    have hloads : ∀ id, requester.redo.loads id = false := by
      intro id
      simp [Requester.loads, Requester.outstanding, Requester.redo]
    rw [if_pos rfl]
    refine ⟨?_, fun id hid ↦ ?_, fun id _ _ ↦ hloads id, ?_⟩
    · have hbefore : requester.pending = requester.block.isNone := by
        simp [Requester.pending, hlisted, hidle]
      have hafter : requester.redo.pending = true := by
        simp [Requester.pending, Requester.redo, Requester.outstanding, hlisted]
      rw [hbefore, hafter]
      cases requester.block <;> rfl
    · rw [hloads]
      symm
      apply not_assignedTo _ (not_assigning_of_peerID hsound hassigned id)
      rw [hpeer]
      intro hsame
      cases hsame
      exact hid hmem
    · have hselecting := selecting_of_assigned hsound hlisted hassigned hidle
      refine ⟨.inr ⟨?_, hselecting⟩, fun h ↦ ?_, hregular.stored, fun _ h ↦ (by cases h)⟩
      · rw [Requester.redo, redos_of_not_outstanding hidle]
      · cases hlisted.symm.trans h
  | false =>
    rw [if_neg Bool.false_ne_true]
    refine ⟨rfl, fun _ _ ↦ rfl, fun id hid hroutine ↦ ?_, hregular⟩
    by_cases hpeer : requester.peerID = some id
    · have hunlisted : requester.listed = false := by
        by_contra hlisted
        rw [Bool.not_eq_false] at hlisted
        have hyes : requester.servedBy ids = true := by
          rw [Requester.servedBy, hlisted, Bool.true_and, decide_eq_true_eq]
          exact ⟨id, hid, hpeer⟩
        cases hserved.symm.trans hyes
      exact not_loads_of_block (hregular.unlisted hunlisted).2.1 id
    · exact not_assignedTo hpeer hroutine

end Requesters

/-! ## The counters along transitions -/

section Pools

variable {heightOf : Block → ℤ} {holder : Option (Delivery PeerID)} {ref : ℕ}
  {pool after : Pool PeerID Block} {requester new : Requester PeerID Block}

theorem counted_newBlockPool (start : ℤ) :
    Counted (newBlockPool start : System PeerID Block).pool none where
  regular _ _ h := nomatch h
  numPending := rfl
  peer _ _ h := nomatch h
  absent _ _ _ h := absurd h List.not_mem_nil
  present _ h := nomatch h
  monitored _ _ h := nomatch h

theorem Counted.regular_setCell (hcounted : Counted pool holder)
    {holder' : Option (Delivery PeerID)} (hregular : Regular holder' ref new)
    (hothers : ∀ (other : ℕ) (cell : Requester PeerID Block), other ≠ ref →
      Regular holder other cell → Regular holder' other cell)
    (other : ℕ) (cell : Requester PeerID Block)
    (hget : (pool.setCell ref new).cells[other]? = some cell) : Regular holder' other cell := by
  rcases Cells.get_set hget with ⟨rfl, rfl⟩ | ⟨hne, hold⟩
  · exact hregular
  · exact hothers other cell hne (hcounted.regular other cell hold)

theorem Counted.setCell (hcounted : Counted pool holder) (hcell : pool.cells[ref]? = some requester)
    (hpending : new.pending = requester.pending) (hloads : ∀ id, new.loads id = requester.loads id)
    (hregular : Regular holder ref new) : Counted (pool.setCell ref new) holder := by
  refine ⟨hcounted.regular_setCell hregular fun _ _ _ ↦ id, ?_, ?_, ?_, hcounted.present,
    hcounted.monitored⟩
  · rw [Pool.setCell, Cells.countP_set _ hcell, hpending, sub_add_cancel]
    exact hcounted.numPending
  · intro id peer hpeer
    rw [Pool.setCell, Cells.countP_set _ hcell, hloads, sub_add_cancel]
    exact hcounted.peer id peer hpeer
  · intro id hpeer cell hmem
    rcases List.mem_or_eq_of_mem_set hmem with hold | rfl
    · exact hcounted.absent id hpeer cell hold
    · rw [hloads]
      exact hcounted.absent id hpeer requester (List.mem_of_getElem? hcell)

/-- The removal of peers whose requesters have no redo outstanding. -/
theorem Counted.removed (hwell : WellFormed heightOf pool none) (hcounted : Counted pool none)
    {ids : List PeerID} (hremoved : Removed ids pool after)
    (hundisturbed : Undisturbed pool after) : Counted after none := by
  have hserved : ∀ requester ∈ pool.cells, requester.servedBy ids = true →
      requester.outstanding = false := by
    intro requester hmem hserved
    obtain ⟨ref, hget⟩ := List.mem_iff_getElem?.mp hmem
    have hasked := hremoved.get hget
    rw [Requester.asked, if_pos hserved] at hasked
    exact hundisturbed.redo _ (Cells.mem_zip_of_get hget hasked) (Nat.lt_succ_self _)
  have hasked : ∀ ref requester, pool.cells[ref]? = some requester → _ := fun ref requester hget ↦
    (hcounted.regular ref requester hget).asked (hwell.sound requester (List.mem_of_getElem? hget))
      (hserved requester (List.mem_of_getElem? hget))
  have hmem : ∀ requester ∈ pool.cells, ∃ ref, pool.cells[ref]? = some requester :=
    fun requester hmem ↦ List.mem_iff_getElem?.mp hmem
  refine ⟨?_, ?_, ?_, ?_, (fun _ h ↦ (by cases h)), ?_⟩
  · intro ref cell hget
    rw [hremoved.cells, List.getElem?_map] at hget
    obtain ⟨requester, hold, rfl⟩ := Option.map_eq_some_iff.mp hget
    exact (hasked ref requester hold).2.2.2
  · have hcounts : pool.cells.countP Requester.pending + (pool.cells.countP fun requester ↦
        requester.servedBy ids && requester.block.isSome) =
          after.cells.countP Requester.pending := by
      rw [hremoved.cells, List.countP_map]
      apply Cells.countP_add
      intro requester hold
      obtain ⟨ref, hget⟩ := hmem requester hold
      exact (hasked ref requester hget).1
    rw [hremoved.numPending, hcounted.numPending, ← hcounts]
    simp
  · intro id peer hpeer
    rw [hremoved.lookup] at hpeer
    by_cases hid : id ∈ ids
    · rw [if_pos hid] at hpeer
      cases hpeer
    · rw [if_neg hid] at hpeer
      rw [hcounted.peer id peer hpeer, hremoved.cells, List.countP_map]
      congr 2
      apply List.countP_congr
      intro requester hold
      obtain ⟨ref, hget⟩ := hmem requester hold
      rw [Function.comp_apply, (hasked ref requester hget).2.1 id hid]
  · intro id hpeer cell hcell
    rw [hremoved.cells] at hcell
    obtain ⟨requester, hold, rfl⟩ := List.mem_map.mp hcell
    obtain ⟨ref, hget⟩ := hmem requester hold
    by_cases hid : id ∈ ids
    · refine (hasked ref requester hget).2.2.1 id hid fun hroutine ↦ ?_
      cases hbefore : pool.peers.lookup id with
      | none =>
        have hloads := loads_of_assigning (hcounted.regular ref requester hget)
          (hwell.sound requester hold) hroutine
        cases hloads.symm.trans (hcounted.absent id hbefore requester hold)
      | some peer =>
        have hkey : id ∈ pool.peers.keys := by
          by_contra hkey
          cases hbefore.symm.trans (AList.lookup_eq_none.mpr hkey)
        exact hundisturbed.removed id hkey hpeer requester hold hroutine
    · rw [hremoved.lookup, if_neg hid] at hpeer
      rw [(hasked ref requester hget).2.1 id hid]
      exact hcounted.absent id hpeer requester hold
  · intro id peer hpeer
    rw [hremoved.lookup] at hpeer
    exact hcounted.monitored id peer (Option.ite_none_left_eq_some.mp hpeer).2

theorem Undisturbed.of_picked {mid found : Pool PeerID Block} {picked : Option PeerID}
    {routine : Routine PeerID}
    (hundisturbed : Undisturbed pool (found.setCell ref { requester with routine := routine }))
    (hfound : Found mid found picked) (hcell : mid.cells[ref]? = some requester) :
    Undisturbed pool mid := by
  have hpair : ∀ pair ∈ pool.cells.zip mid.cells, ∃ last,
      (pair.1, last) ∈
        pool.cells.zip (found.setCell ref { requester with routine := routine }).cells ∧
      last.redos = pair.2.redos ∧ last.block = pair.2.block ∧ last.listed = pair.2.listed := by
    intro pair hmem
    obtain ⟨index, hget⟩ := List.mem_iff_getElem?.mp hmem
    obtain ⟨hold, hnew⟩ := List.getElem?_zip_eq_some.mp hget
    have hcells : (found.setCell ref { requester with routine := routine }).cells =
        mid.cells.set ref { requester with routine := routine } := by
      rw [Pool.setCell, hfound.cells_eq.1]
    rw [hcells]
    by_cases href : ref = index
    · subst href
      cases hcell.symm.trans hnew
      exact ⟨_, Cells.mem_zip_of_get hold (Cells.get_set_self hcell), rfl, rfl, rfl⟩
    · exact ⟨pair.2, Cells.mem_zip_of_get hold ((List.getElem?_set_ne href).trans hnew), rfl, rfl,
        rfl⟩
  refine ⟨?_, ?_, ?_, ?_⟩
  · intro pair hmem hredos
    obtain ⟨last, hlast, hsame, -⟩ := hpair pair hmem
    rw [← hsame] at hredos
    exact hundisturbed.redo (pair.1, last) hlast hredos
  · intro pair hmem hnone hsome
    obtain ⟨last, hlast, -, hsame, -⟩ := hpair pair hmem
    rw [← hsame] at hsome
    exact hundisturbed.stored (pair.1, last) hlast hnone hsome
  · intro pair hmem hlisted hunlisted
    obtain ⟨last, hlast, -, -, hsame⟩ := hpair pair hmem
    rw [← hsame] at hunlisted
    exact hundisturbed.popped (pair.1, last) hlast hlisted hunlisted
  · intro id hkey hnone
    apply hundisturbed.removed id hkey
    cases picked with
    | none =>
      rw [hfound]
      exact hnone
    | some other =>
      obtain ⟨peer, hpeer, rfl⟩ := hfound
      have hne : id ≠ other := by
        rintro rfl
        cases hnone.symm.trans hpeer
      exact (AList.lookup_insert_ne hne).trans hnone

omit [DecidableEq PeerID] in
theorem incrPending_monitored {peer : Peer}
    (hmonitored : peer.numPending ≠ 0 → peer.recvMonitor = true ∧ peer.timeout = true) :
    peer.incrPending.numPending = peer.numPending + 1 ∧ peer.incrPending.recvMonitor = true ∧
      peer.incrPending.timeout = true := by
  unfold Peer.incrPending
  by_cases hzero : peer.numPending = 0
  · simp [hzero, Peer.resetMonitor, Peer.resetTimeout]
  · simp [hzero, hmonitored hzero]

theorem Counted.picked {picked : Option PeerID} {found : Pool PeerID Block}
    (hwell : WellFormed heightOf pool none) (hcounted : Counted pool none)
    (hfound : Found pool found picked) (hcell : pool.cells[ref]? = some requester)
    (hroutine : requester.routine = .picking) :
    Counted (found.setCell ref { requester with
      routine := (picked.map Routine.assigning).getD .checking }) none := by
  have hregular := hcounted.regular ref requester hcell
  have hfits := (hwell.sound requester (List.mem_of_getElem? hcell)).fits
  rw [hroutine] at hfits
  obtain ⟨hredos, hidle⟩ := hregular.not_outstanding (by rw [hroutine]; rfl) (by simp [hroutine])
  have hlisted := hregular.listed (by rw [hroutine]; rfl) (by simp [hroutine])
  cases picked with
  | none =>
    rw [hfound]
    apply hcounted.setCell hcell
    · simp [Requester.pending, Requester.outstanding, hroutine]
    · intro id
      simp [Requester.loads, Requester.assignedTo, Requester.outstanding, hroutine]
    · exact regular_of_searching hlisted hredos rfl fun _ h ↦ (by cases h)
  | some id =>
    obtain ⟨peer, hpeer, rfl⟩ := hfound
    obtain ⟨hincr, hmonitored⟩ := incrPending_monitored (hcounted.monitored id peer hpeer)
    have hbefore : ∀ other, requester.loads other = false := fun other ↦
      not_assignedTo (by simp [hfits.1]) (by simp [hroutine])
    have hafter : ∀ other, ({ requester with routine := .assigning id } :
        Requester PeerID Block).loads other = decide (id = other) := by
      intro other
      simp [Requester.loads, Requester.assignedTo, Requester.outstanding, hfits.1, hfits.2, hredos]
    refine ⟨hcounted.regular_setCell
      (regular_of_searching hlisted hredos rfl fun _ h ↦ (by cases h))
      fun _ _ _ ↦ fun h ↦ h, ?_, ?_, ?_, (fun _ h ↦ (by cases h)), ?_⟩
    · have hpending : ({ requester with routine := .assigning id } :
          Requester PeerID Block).pending = requester.pending := by
        simp [Requester.pending, Requester.outstanding, hroutine]
      show pool.numPending =
        ((pool.cells.set ref { requester with routine := .assigning id }).countP
        Requester.pending : ℤ) + 0
      rw [Cells.countP_set _ hcell, hpending, sub_add_cancel]
      exact hcounted.numPending
    · have hcount : ∀ other, ((pool.cells.set ref { requester with
          routine := .assigning id }).countP fun requester ↦ requester.loads other : ℤ) =
          (pool.cells.countP fun requester ↦ requester.loads other) +
          (decide (id = other)).toNat := by
        intro other
        rw [Cells.countP_set _ hcell, hbefore, hafter]
        simp
      dsimp only [Pool.setCell, Option.map_some, Option.getD_some]
      refine Cells.forall_lookup_insert ?_ fun other hother renewed hold ↦ ?_
      · rw [hcount, hincr, hcounted.peer id peer hpeer]
        simp
      · rw [hcount, hcounted.peer other renewed hold]
        simp [Ne.symm hother]
    · intro other hnone cell hmem
      obtain ⟨hother, hold⟩ := Cells.lookup_insert_eq_none hnone
      rcases List.mem_or_eq_of_mem_set hmem with hmem | rfl
      · exact hcounted.absent other hold cell hmem
      · exact (hafter other).trans (decide_eq_false (Ne.symm hother))
    · exact Cells.forall_lookup_insert (fun _ ↦ hmonitored) fun other _ renewed hold ↦
        hcounted.monitored other renewed hold

theorem Counted.stored {peerID : PeerID} {block : Block}
    (hwell : WellFormed heightOf pool none) (hcounted : Counted pool none)
    (hat : pool.requesterAt (heightOf block) = some (ref, requester))
    (hblock : requester.block = none) (hpeer : requester.peerID = some peerID)
    (hundisturbed : Undisturbed pool (pool.setCell ref { requester with block := some block })) :
    Counted (pool.setCell ref { requester with block := some block }) (some ⟨ref, peerID⟩) := by
  have hcell := (Pool.requesterAt_eq_some_iff.mp hat).2
  have hlisted := (Pool.listed_of_requesterAt hat).1
  have hsound := hwell.sound requester (List.mem_of_getElem? hcell)
  have hregular := hcounted.regular ref requester hcell
  have hassigned := ne_of_eq_of_ne hpeer (Option.some_ne_none _)
  have hidle : requester.outstanding = false :=
    hundisturbed.stored _ (Cells.mem_zip_of_get hcell (Cells.get_set_self hcell))
      (by rw [hblock]; rfl) rfl
  have hreceptive : requester.routine.receptive = true := by
    rcases hsound.routine_of_setBlock hlisted hblock hassigned with hreceptive | hresetting
    · exact hreceptive
    · simp [Requester.outstanding, hresetting] at hidle
  have hloads : ∀ id, requester.loads id = decide (peerID = id) := by
    intro id
    have hroutine := not_assigning_of_peerID hsound hassigned id
    simp [Requester.loads, Requester.assignedTo, hpeer, hblock, hidle, hroutine]
  have hstored : ∀ id, ({ requester with block := some block } :
      Requester PeerID Block).loads id = false :=
    not_loads_of_block (Option.some_ne_none _)
  refine ⟨hcounted.regular_setCell ?_ ?_, ?_, ?_, ?_, ?_, hcounted.monitored⟩
  · refine ⟨hregular.redos, fun h ↦ ?_, fun _ _ ↦ ⟨_, rfl, rfl⟩, ?_⟩
    · cases hlisted.symm.trans h
    · rintro delivery hholder -
      cases hholder
      exact ⟨hidle, hreceptive, hpeer, Option.some_ne_none _⟩
  · rintro other cell hne hold
    refine ⟨hold.redos, hold.unlisted, fun hreceptive hblock ↦ ?_, ?_⟩
    · obtain ⟨delivery, hnone, -⟩ := hold.stored hreceptive hblock
      cases hnone
    · rintro delivery hholder href
      cases hholder
      exact absurd href.symm hne
  · have hbefore : requester.pending = true := by simp [Requester.pending, hlisted, hblock]
    have hafter : ({ requester with block := some block } :
        Requester PeerID Block).pending = false := by
      simpa [Requester.pending, hlisted, Requester.outstanding] using hidle
    rw [Pool.setCell, Cells.countP_set _ hcell, hbefore, hafter]
    show pool.numPending = _
    rw [hcounted.numPending]
    simp
  · intro id peer hlookup
    rw [Pool.setCell, Cells.countP_set _ hcell, hstored, hloads, hcounted.peer id peer hlookup]
    simp
  · intro id hnone cell hmem
    rcases List.mem_or_eq_of_mem_set hmem with hold | rfl
    · exact hcounted.absent id hnone cell hold
    · exact hstored id
  · rintro delivery hholder hnone
    cases hholder
    have habsent := hcounted.absent peerID hnone requester (List.mem_of_getElem? hcell)
    rw [hloads, decide_eq_true rfl] at habsent
    cases habsent

omit [DecidableEq PeerID] in
theorem decrPending_of_monitored {peer : Peer}
    (hmonitored : peer.recvMonitor = true ∧ peer.timeout = true) :
    ∃ answered, peer.decrPending = .ok answered ∧ answered.numPending = peer.numPending - 1 ∧
      answered.recvMonitor = true ∧ answered.timeout = true := by
  unfold Peer.decrPending
  dsimp only
  rw [hmonitored.1, hmonitored.2, if_pos rfl, if_pos rfl]
  split
  · exact ⟨_, rfl, rfl, rfl, rfl⟩
  · exact ⟨_, rfl, rfl, rfl, rfl⟩

theorem Counted.answering {delivery : Delivery PeerID} (hcounted : Counted pool (some delivery)) :
    ∃ peer answered, pool.peers.lookup delivery.peerID = some peer ∧
      peer.decrPending = .ok answered ∧ answered.numPending = peer.numPending - 1 ∧
      answered.recvMonitor = true ∧ answered.timeout = true := by
  obtain ⟨peer, hpeer⟩ := Option.ne_none_iff_exists'.mp (hcounted.present delivery rfl)
  have hpending : peer.numPending ≠ 0 := by
    rw [hcounted.peer _ peer hpeer, Option.map_some, decide_eq_true rfl]
    have hone : (true.toNat : ℤ) = 1 := rfl
    omega
  obtain ⟨answered, hdecr⟩ := decrPending_of_monitored (hcounted.monitored _ peer hpeer hpending)
  exact ⟨peer, answered, hpeer, hdecr⟩

theorem Counted.received {delivery : Delivery PeerID}
    (hcounted : Counted pool (some delivery))
    (hcell : pool.cells[delivery.ref]? = some requester) (hroutine : requester.routine = .waiting)
    (hdecr : (pool.setCell delivery.ref { requester with routine := .got }).decrPending
      delivery.peerID = .ok after) : Counted after none := by
  obtain ⟨peer, answered, hpeer, hanswer, hnumPending, hmonitored⟩ := hcounted.answering
  have hregular := hcounted.regular delivery.ref requester hcell
  obtain ⟨hidle, -, -, hblock⟩ := hregular.held delivery rfl rfl
  have hredos := redos_of_not_outstanding hidle
  have hlisted := hregular.listed_of_receptive (by rw [hroutine]; rfl)
  have hafter : after = { pool.setCell delivery.ref { requester with routine := .got } with
      numPending := pool.numPending - 1
      peers := pool.peers.insert delivery.peerID answered } := by
    unfold Pool.decrPending Pool.setCell at hdecr
    dsimp only at hdecr
    rw [hpeer] at hdecr
    obtain ⟨found, hfound, hreturn⟩ := Results.bind_eq_ok_iff.mp hdecr
    cases hanswer.symm.trans hfound
    cases hreturn
    rfl
  have hpending : ({ requester with routine := .got } : Requester PeerID Block).pending =
      requester.pending := by
    simp [Requester.pending, Requester.outstanding, hroutine]
  have hloads : ∀ id, ({ requester with routine := .got } : Requester PeerID Block).loads id =
      requester.loads id := by
    intro id
    simp [Requester.loads, Requester.assignedTo, Requester.outstanding, hroutine]
  subst hafter
  refine ⟨hcounted.regular_setCell ?_ ?_, ?_, ?_, ?_, (fun _ h ↦ (by cases h)), ?_⟩
  · refine ⟨.inl hredos, fun h ↦ ?_, fun h ↦ ?_, fun _ h ↦ (by cases h)⟩
    · cases hlisted.symm.trans h
    · cases h
  · rintro other cell hne hold
    refine ⟨hold.redos, hold.unlisted, fun hreceptive hblock ↦ ?_, fun _ h ↦ (by cases h)⟩
    obtain ⟨found, hfound, href⟩ := hold.stored hreceptive hblock
    cases hfound
    exact absurd href.symm hne
  · show pool.numPending - 1 = ((pool.cells.set delivery.ref { requester with
      routine := .got }).countP Requester.pending : ℤ) + 0
    rw [Cells.countP_set _ hcell, hpending, sub_add_cancel, hcounted.numPending]
    simp
  · have hcount : ∀ id, ((pool.cells.set delivery.ref { requester with
        routine := .got }).countP fun requester ↦ requester.loads id : ℤ) =
        pool.cells.countP fun requester ↦ requester.loads id := by
      intro id
      rw [Cells.countP_set _ hcell, hloads, sub_add_cancel]
    dsimp only [Pool.setCell]
    refine Cells.forall_lookup_insert ?_ fun id hid renewed hold ↦ ?_
    · rw [hcount, hnumPending, hcounted.peer _ peer hpeer]
      simp
    · rw [hcount, hcounted.peer id renewed hold]
      simp [Ne.symm hid]
  · intro id hnone cell hmem
    have habsent := hcounted.absent id (Cells.lookup_insert_eq_none hnone).2
    rcases List.mem_or_eq_of_mem_set hmem with hold | rfl
    · exact habsent cell hold
    · rw [hloads]
      exact habsent requester (List.mem_of_getElem? hcell)
  · exact Cells.forall_lookup_insert (fun _ ↦ hmonitored) fun id _ renewed hold ↦
      hcounted.monitored id renewed hold

/-- The requester of the next block leaves the map with its block. -/
theorem Counted.popped (hwell : WellFormed heightOf pool none) (hcounted : Counted pool none)
    (hat : pool.requesterAt pool.height = some (ref, requester))
    (hundisturbed : Undisturbed pool
      { pool.setCell ref requester.pop with height := pool.height + 1 }) :
    Counted { pool.setCell ref requester.pop with height := pool.height + 1 } none := by
  have hcell := (Pool.requesterAt_eq_some_iff.mp hat).2
  have hlisted := (Pool.listed_of_requesterAt hat).1
  have hsound := hwell.sound requester (List.mem_of_getElem? hcell)
  have hregular := hcounted.regular ref requester hcell
  obtain ⟨hsome, hidle⟩ := hundisturbed.popped _
    (Cells.mem_zip_of_get hcell (Cells.get_set_self hcell)) hlisted Bool.false_ne_true
  have hblock : requester.block ≠ none := Option.isSome_iff_ne_none.mp hsome
  have hredos := redos_of_not_outstanding hidle
  have hgot : requester.routine = .got := by
    have hselecting := selecting_of_assigned hsound hlisted (hsound.assigned hblock) hidle
    cases hroutine : requester.routine with
    | got => rfl
    | sending peerID =>
      obtain ⟨delivery, hnone, -⟩ := hregular.stored (by rw [hroutine]; rfl) hblock
      cases hnone
    | waiting =>
      obtain ⟨delivery, hnone, -⟩ := hregular.stored (by rw [hroutine]; rfl) hblock
      cases hnone
    | _ =>
      rw [hroutine] at hselecting
      cases hselecting
  have hset : Counted (pool.setCell ref requester.pop) none := by
    apply hcounted.setCell hcell
    · simp [Requester.pending, Requester.pop, hidle, hsome]
    · intro id
      rw [not_loads_of_block hblock]
      exact not_loads_of_block hblock id
    · refine ⟨.inl hredos, fun _ ↦ ⟨.inl hgot, hblock, hredos⟩, fun h ↦ ?_, fun _ h ↦ (by cases h)⟩
      rw [Requester.pop, hgot] at h
      cases h
  exact ⟨hset.regular, hset.numPending, hset.peer, hset.absent, hset.present, hset.monitored⟩

theorem Counted.renewed {peerID : PeerID} {peer : Peer} (hcounted : Counted pool none)
    (hrenewed : Renewed (pool.peers.lookup peerID) peer) :
    Counted { pool with peers := pool.peers.insert peerID peer } none := by
  have hpeer : peer.numPending =
      (pool.cells.countP fun requester ↦ requester.loads peerID : ℤ) + 0 ∧
      (peer.numPending ≠ 0 → peer.recvMonitor = true ∧ peer.timeout = true) := by
    cases hlookup : pool.peers.lookup peerID with
    | none =>
      rw [hlookup] at hrenewed
      obtain ⟨height, rfl⟩ := hrenewed
      have hzero : (pool.cells.countP fun requester ↦ requester.loads peerID) = 0 :=
        List.countP_eq_zero.mpr fun requester hmem ↦
          Bool.eq_false_iff.mp (hcounted.absent peerID hlookup requester hmem)
      rw [hzero]
      exact ⟨rfl, fun h ↦ absurd rfl h⟩
    | some old =>
      rw [hlookup] at hrenewed
      obtain ⟨hsame, hmonitor, htimeout⟩ := hrenewed
      rw [hsame, hmonitor, htimeout]
      exact ⟨hcounted.peer peerID old hlookup, hcounted.monitored peerID old hlookup⟩
  refine ⟨hcounted.regular, hcounted.numPending, ?_, ?_, (fun _ h ↦ (by cases h)), ?_⟩
  · exact Cells.forall_lookup_insert hpeer.1 fun id _ found hold ↦ hcounted.peer id found hold
  · exact fun id hnone ↦ hcounted.absent id (Cells.lookup_insert_eq_none hnone).2
  · exact Cells.forall_lookup_insert hpeer.2 fun id _ found hold ↦ hcounted.monitored id found hold

theorem Counted.made (hcounted : Counted pool none) (height : ℤ) :
    Counted { pool with
      cells := pool.cells ++ [newBPRequester height]
      numPending := pool.numPending + 1 } none := by
  refine ⟨?_, ?_, ?_, ?_, (fun _ h ↦ (by cases h)), hcounted.monitored⟩
  · intro other cell hget
    dsimp only at hget
    rw [List.getElem?_append] at hget
    split at hget
    · exact hcounted.regular other cell hget
    · rw [List.mem_singleton.mp (List.mem_of_getElem? hget)]
      exact regular_of_searching rfl rfl rfl fun _ h ↦ (by cases h)
  · rw [List.countP_append, hcounted.numPending]
    show _ = ((_ + 1 : ℕ) : ℤ) + 0
    simp
  · intro id peer hpeer
    rw [List.countP_append, hcounted.peer id peer hpeer]
    rfl
  · intro id hnone cell hmem
    rcases List.mem_append.mp hmem with hold | hnew
    · exact hcounted.absent id hnone cell hold
    · rw [List.mem_singleton.mp hnew]
      rfl

theorem Counted.transition {event : Event PeerID Block} {holder' : Option (Delivery PeerID)}
    (hwell : WellFormed heightOf pool holder) (hcounted : Counted pool holder)
    (hundisturbed : Undisturbed pool after)
    (htransition : Transition heightOf pool holder event after holder') :
    Counted after holder' := by
  cases htransition with
  | still => exact hcounted
  | acted hcell hacted =>
    obtain ⟨hpending, hloads, hregular⟩ := hacted.counted
      (hwell.sound _ (List.mem_of_getElem? hcell)) (hcounted.regular _ _ hcell)
    exact hcounted.setCell hcell hpending hloads hregular
  | sent hcell hroutine =>
    have hregular := hcounted.regular _ _ hcell
    have hlisted := hregular.listed_of_receptive (by rw [hroutine]; rfl)
    apply hcounted.setCell hcell
    · simp [Requester.pending, Requester.outstanding, hroutine]
    · intro id
      simp [Requester.loads, Requester.assignedTo, Requester.outstanding, hroutine]
    · refine ⟨hregular.redos.imp_right fun h ↦ ⟨h.1, rfl⟩, fun h ↦ ?_, fun _ ↦ ?_,
        fun delivery hholder href ↦ ?_⟩
      · cases hlisted.symm.trans h
      · exact hregular.stored (by rw [hroutine]; rfl)
      · obtain ⟨hidle, -, hpeer, hblock⟩ := hregular.held delivery hholder href
        refine ⟨?_, rfl, hpeer, hblock⟩
        simp [Requester.outstanding, redos_of_not_outstanding hidle]
  | removed _ hremoved => exact hcounted.removed hwell hremoved hundisturbed
  | picked hremoved hfound hcell hroutine =>
    have hmid := hcounted.removed hwell hremoved (hundisturbed.of_picked hfound hcell)
    exact hmid.picked (hwell.removed hremoved) hfound hcell hroutine
  | renewed _ hrenewed => exact hcounted.renewed hrenewed
  | made => exact hcounted.made _
  | stored hat hblock hpeer => exact hcounted.stored hwell hat hblock hpeer hundisturbed
  | received hcell hroutine hdecr => exact hcounted.received hcell hroutine hdecr
  | popped hat => exact hcounted.popped hwell hat hundisturbed

end Pools

/-! ## The counters along runs -/

section Runs

variable {heightOf : Block → ℤ} {s : System PeerID Block}

theorem counted_of_run {start : ℤ} {events : List (Event PeerID Block)}
    (hrun : run heightOf (newBlockPool start) events = .ok s)
    (hundisturbed : Schedules.Along (step heightOf) (fun s next ↦ Undisturbed s.pool next.pool)
      (newBlockPool start) events) :
    Counted s.pool s.holder := by
  have hboth : WellFormed heightOf s.pool s.holder ∧ Counted s.pool s.holder := by
    refine Schedules.invariant_along
      (fun s ↦ WellFormed heightOf s.pool s.holder ∧ Counted s.pool s.holder) ?_
      ⟨wellFormed_newBlockPool start, counted_newBlockPool start⟩ hundisturbed hrun
    intro s event next hs hundisturbed hstep
    have htransition := transition_of_step hs.1 hstep
    exact ⟨hs.1.transition htransition, hs.2.transition hs.1 hundisturbed htransition⟩
  exact hboth.2

theorem Counted.survives_gotBlock (hcounted : Counted s.pool s.holder) :
    Survives (step heightOf s .gotBlock) := by
  cases hholder : s.holder with
  | none =>
    intro panic
    simp only [step, hholder]
    exact fun h ↦ (by cases h)
  | some delivery =>
    rw [hholder] at hcounted
    obtain ⟨peer, answered, hpeer, hdecr, -⟩ := hcounted.answering
    intro panic hpanic
    simp only [step, hholder] at hpanic
    split at hpanic
    next => cases hpanic
    next requester hcell =>
      split at hpanic
      next =>
        unfold Pool.decrPending Pool.setCell at hpanic
        dsimp only at hpanic
        rw [hpeer] at hpanic
        dsimp only at hpanic
        rw [hdecr] at hpanic
        cases hpanic
      next => cases hpanic

/-- If nothing was disturbed, no counter is negative and counting down does not panic. In a state
without outstanding redos, `numPending` of the pool is the number of requesters without a block and
`numPending` of a peer the number of those that are assigned to it, where a block for which
`AddBlock` still holds the lock has not been counted down yet. -/
theorem counters_agree {start : ℤ} {events : List (Event PeerID Block)}
    (hrun : run heightOf (newBlockPool start) events = .ok s)
    (hundisturbed : Schedules.Along (step heightOf) (fun s next ↦ Undisturbed s.pool next.pool)
      (newBlockPool start) events) :
    0 ≤ s.pool.numPending ∧
    (∀ id peer, s.pool.peers.lookup id = some peer → 0 ≤ peer.numPending) ∧
    Survives (step heightOf s .gotBlock) ∧
    ((∀ requester ∈ s.pool.cells, requester.listed = true → requester.outstanding = false) →
      s.pool.numPending = (s.pool.cells.countP fun requester ↦
        requester.listed && requester.block.isNone : ℤ) + s.holder.isSome.toNat ∧
      ∀ id peer, s.pool.peers.lookup id = some peer →
        peer.numPending = (s.pool.cells.countP fun requester ↦
          requester.listed && requester.block.isNone && requester.assignedTo id : ℤ) +
            (decide (s.holder.map Delivery.peerID = some id)).toNat) := by
  have hcounted := counted_of_run hrun hundisturbed
  refine ⟨?_, ?_, hcounted.survives_gotBlock, fun hidle ↦ ⟨?_, ?_⟩⟩
  · rw [hcounted.numPending]
    omega
  · intro id peer hpeer
    rw [hcounted.peer id peer hpeer]
    omega
  · rw [hcounted.numPending]
    congr 2
    apply List.countP_congr
    intro requester hmem
    unfold Requester.pending
    cases hlisted : requester.listed with
    | false => rfl
    | true => rw [hidle requester hmem hlisted, Bool.or_false]
  · intro id peer hpeer
    rw [hcounted.peer id peer hpeer]
    congr 2
    apply List.countP_congr
    intro requester hmem
    cases hlisted : requester.listed with
    | false =>
      obtain ⟨ref, hget⟩ := List.mem_iff_getElem?.mp hmem
      rw [not_loads_of_block ((hcounted.regular ref requester hget).unlisted hlisted).2.1]
      rfl
    | true =>
      unfold Requester.loads
      rw [hidle requester hmem hlisted, Bool.true_and, Bool.not_false, Bool.and_true, Bool.and_comm]

/-- A block arrives, its peer is removed and comes back, and the block is requested once more. -/
def requestedAgain : List (Event ℕ ℤ) :=
  oneRequest ++ [.addBlock 7 1, .gotBlock, .removePeer 7, .act 0 .receiveRedo, .act 0 .reset,
    .setPeerHeight 7 5, .act 0 .check, .pick 0 [7]]

/-- One requester without a block, which counts for the pool and for its peer. -/
theorem counters_agree_requestedAgain : ∃ s,
    run id (newBlockPool 1) requestedAgain = .ok s ∧ Survives (step id s .gotBlock) ∧
    s.pool.numPending = (s.pool.cells.countP fun requester ↦
      requester.listed && requester.block.isNone : ℤ) + s.holder.isSome.toNat ∧
    s.pool.numPending = 1 ∧ (s.pool.peers.lookup 7).map Peer.numPending = some 1 := by
  obtain ⟨s, hrun, hcells, hpending, hpeer⟩ : ∃ s, run id (newBlockPool 1) requestedAgain = .ok s ∧
      s.pool.cells.map Requester.outstanding = [false] ∧ s.pool.numPending = 1 ∧
      (s.pool.peers.lookup 7).map Peer.numPending = some 1 := ⟨_, rfl, rfl, rfl, rfl⟩
  obtain ⟨-, -, hsurvives, hcounts⟩ := counters_agree hrun (by decide +kernel)
  have hidle : ∀ requester ∈ s.pool.cells, requester.listed = true →
      requester.outstanding = false := by
    intro requester hmem _
    have houtstanding : requester.outstanding ∈ s.pool.cells.map Requester.outstanding :=
      List.mem_map_of_mem hmem
    rw [hcells] at houtstanding
    exact List.mem_singleton.mp houtstanding
  exact ⟨s, hrun, hsurvives, (hcounts hidle).1, hpending, hpeer⟩

/-- The peer is removed and its block arrives before the requester has received the redo. -/
def answeredLate : List (Event ℕ ℤ) :=
  oneRequest ++ [.removePeer 7, .addBlock 7 1, .gotBlock, .act 0 .receiveRedo, .act 0 .reset]

/-- If the peer has come back, counting down panics. If not, the block is counted down and then
thrown away: the requester has no block and no redo is outstanding, but the counter is zero. With
the block of the next peer it is negative. -/
theorem counters_miss_redo :
    run id (newBlockPool 1) (oneRequest ++ [.removePeer 7, .setPeerHeight 7 5, .addBlock 7 1,
      .gotBlock]) = .error (.panic .nilDereference) ∧
    (∃ s, run id (newBlockPool 1) answeredLate = .ok s ∧ s.holder = none ∧
      s.pool.cells = [newBPRequester 1] ∧ s.pool.numPending = 0) ∧
    ∃ s, run id (newBlockPool 1) (answeredLate ++ [.setPeerHeight 8 5, .act 0 .check, .pick 0 [8],
        .act 0 .assign, .send 0, .addBlock 8 1, .gotBlock]) = .ok s ∧ s.pool.numPending = -1 :=
  ⟨rfl, ⟨_, rfl, rfl, rfl, rfl⟩, _, rfl, rfl⟩

end Runs

end LkChain.BlockPool
