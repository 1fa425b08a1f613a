import LkChain.BlockPool.Model
import LkChain.Foundation.Cells

/-!
# The life of a requester

What a step does to the pool and to its lock is said once, by `Transition`; what holds of every
requester in every run follows from it. A requester has a peer from the assignment to the reset, and
never a block without one; a stored block has the height of its requester; the map holds the heights
from that of the pool on, without a gap; and a requester that `AddBlock` waits for can still
receive, unless it has received a redo.
-/

namespace LkChain.BlockPool

open Foundation Foundation.Stops
open Tendermint.Types (Panic Fallible)

variable {PeerID Block : Type}

/-! ## Requesters -/

/-- What a place in `requestRoutine` says about the fields of the requester. -/
def Routine.Fits (routine : Routine PeerID) (peerID : Option PeerID) (block : Option Block)
    (running : Bool) : Prop :=
  match routine with
  | .checking | .picking | .assigning _ => peerID = none ∧ block = none
  | .sending _ | .waiting | .resetting => peerID ≠ none
  | .got => peerID ≠ none ∧ block ≠ none
  | .returned => running = false

/-- The routine has not yet come past the receive from `gotBlockCh`. -/
def Routine.receptive : Routine PeerID → Bool
  | .sending _ | .waiting => true
  | _ => false

/-- The routine has received a redo and is on its way to the next peer. -/
def Routine.past : Routine PeerID → Bool
  | .resetting | .checking | .picking => true
  | _ => false

/-- What holds of a requester in every state. -/
structure Requester.Sound (heightOf : Block → ℤ) (requester : Requester PeerID Block) : Prop where
  fits : requester.routine.Fits requester.peerID requester.block requester.running
  assigned : requester.block ≠ none → requester.peerID ≠ none
  running : requester.listed = true → requester.running = true
  height : ∀ block, requester.block = some block → heightOf block = requester.height

/-- The steps of `requestRoutine`, by the place they start from. -/
inductive Acted (requester : Requester PeerID Block) : Action → Requester PeerID Block → Prop where
  | check (hroutine : requester.routine = .checking) :
    Acted requester .check
      { requester with routine := if requester.running then .picking else .returned }
  | assign {peerID : PeerID} (hroutine : requester.routine = .assigning peerID) :
    Acted requester .assign { requester with peerID := some peerID, routine := .sending peerID }
  | receiveRedo (hroutine : requester.routine = .waiting ∨ requester.routine = .got)
      (hredos : 0 < requester.redos) :
    Acted requester .receiveRedo
      { requester with redos := requester.redos - 1, routine := .resetting }
  | reset (hroutine : requester.routine = .resetting) :
    Acted requester .reset { requester.reset with routine := .checking }
  | quit (hroutine : requester.routine = .waiting ∨ requester.routine = .got)
      (hrunning : requester.running = false) :
    Acted requester .quit { requester with routine := .returned }

section Requesters

variable {heightOf : Block → ℤ} {requester after : Requester PeerID Block}

theorem acted_of_act [DecidableEq PeerID] {action : Action}
    (hact : requester.act action = some after) : Acted requester action after := by
  cases action with
  | check =>
    obtain ⟨hroutine, hafter⟩ := Option.ite_none_right_eq_some.mp hact
    cases hafter
    exact .check hroutine
  | assign =>
    simp only [Requester.act] at hact
    split at hact
    next peerID hroutine =>
      cases hact
      exact .assign hroutine
    next => cases hact
  | receiveRedo =>
    obtain ⟨⟨hroutine, hredos⟩, hafter⟩ := Option.ite_none_right_eq_some.mp hact
    cases hafter
    exact .receiveRedo hroutine hredos
  | reset =>
    obtain ⟨hroutine, hafter⟩ := Option.ite_none_right_eq_some.mp hact
    cases hafter
    exact .reset hroutine
  | quit =>
    obtain ⟨⟨hroutine, hrunning⟩, hafter⟩ := Option.ite_none_right_eq_some.mp hact
    cases hafter
    exact .quit hroutine (by simpa using hrunning)

theorem setBlock_eq_none_iff [DecidableEq PeerID] {block : Block} {peerID : PeerID} :
    requester.setBlock block peerID = none ↔
      requester.block ≠ none ∨ requester.peerID ≠ some peerID := by
  unfold Requester.setBlock
  rw [ite_eq_left_iff, Option.isSome_iff_ne_none]
  simp only [reduceCtorEq, imp_false, not_not]

theorem setBlock_eq_some_iff [DecidableEq PeerID] {block : Block} {peerID : PeerID} :
    requester.setBlock block peerID = some after ↔
      (requester.block = none ∧ requester.peerID = some peerID) ∧
        after = { requester with block := some block } := by
  unfold Requester.setBlock
  rw [Option.ite_none_left_eq_some, not_or, Option.isSome_iff_ne_none, not_not, not_not,
    Option.some.injEq]
  exact and_congr_right fun _ ↦ eq_comm

theorem Acted.key_eq {action : Action} (hacted : Acted requester action after) :
    after.key = requester.key := by
  cases hacted <;> rfl

theorem sound_newBPRequester (height : ℤ) :
    (newBPRequester height : Requester PeerID Block).Sound heightOf :=
  ⟨⟨rfl, rfl⟩, fun h ↦ absurd rfl h, fun _ ↦ rfl, fun _ h ↦ nomatch h⟩

namespace Requester.Sound

theorem goto (hsound : requester.Sound heightOf) {routine : Routine PeerID}
    (hfits : routine.Fits requester.peerID requester.block requester.running) :
    { requester with routine := routine }.Sound heightOf :=
  ⟨hfits, hsound.assigned, hsound.running, hsound.height⟩

theorem redo (hsound : requester.Sound heightOf) : requester.redo.Sound heightOf :=
  ⟨hsound.fits, hsound.assigned, hsound.running, hsound.height⟩

theorem peerID_of_select (hsound : requester.Sound heightOf)
    (hroutine : requester.routine = .waiting ∨ requester.routine = .got) :
    requester.peerID ≠ none := by
  have hfits := hsound.fits
  rcases hroutine with hroutine | hroutine <;> rw [hroutine] at hfits
  · exact hfits
  · exact hfits.1

theorem act (hsound : requester.Sound heightOf) {action : Action}
    (hacted : Acted requester action after) : after.Sound heightOf := by
  have hfits := hsound.fits
  cases hacted with
  | check hroutine =>
    apply hsound.goto
    rw [hroutine] at hfits
    cases hrunning : requester.running with
    | true => exact hfits
    | false => exact rfl
  | assign hroutine =>
    rw [hroutine] at hfits
    exact ⟨Option.some_ne_none _, fun _ ↦ Option.some_ne_none _, hsound.running, hsound.height⟩
  | receiveRedo hroutine hredos =>
    exact ⟨hsound.peerID_of_select hroutine, hsound.assigned, hsound.running, hsound.height⟩
  | reset hroutine =>
    exact ⟨⟨rfl, rfl⟩, fun h ↦ absurd rfl h, hsound.running, fun _ h ↦ nomatch h⟩
  | quit hroutine hrunning => exact hsound.goto hrunning

theorem pop (hsound : requester.Sound heightOf) : requester.pop.Sound heightOf := by
  refine ⟨?_, hsound.assigned, fun h ↦ absurd h Bool.false_ne_true, hsound.height⟩
  have hfits := hsound.fits
  unfold Requester.pop
  dsimp only
  cases hroutine : requester.routine <;> rw [hroutine] at hfits
  case returned => exact rfl
  all_goals exact hfits

/-- A requester that takes a block is before its receive, or has just received a redo. -/
theorem routine_of_setBlock (hsound : requester.Sound heightOf) (hlisted : requester.listed = true)
    (hblock : requester.block = none) (hpeer : requester.peerID ≠ none) :
    requester.routine.receptive = true ∨ requester.routine = .resetting := by
  have hfits := hsound.fits
  cases hroutine : requester.routine <;> rw [hroutine] at hfits
  case resetting => exact .inr rfl
  case got => exact absurd hblock hfits.2
  case returned =>
    rw [hsound.running hlisted] at hfits
    cases hfits
  case sending => exact .inl rfl
  case waiting => exact .inl rfl
  all_goals exact absurd hfits.1 hpeer

theorem setBlock (hsound : requester.Sound heightOf) {block : Block}
    (hpeer : requester.peerID ≠ none) (hheight : heightOf block = requester.height) :
    { requester with block := some block }.Sound heightOf := by
  refine ⟨?_, fun _ ↦ hpeer, hsound.running, ?_⟩
  · have hfits := hsound.fits
    dsimp only
    cases hroutine : requester.routine <;> rw [hroutine] at hfits
    case got => exact ⟨hpeer, Option.some_ne_none _⟩
    case sending => exact hpeer
    case waiting => exact hpeer
    case resetting => exact hpeer
    case returned => exact hfits
    all_goals exact absurd hfits.1 hpeer
  · intro stored hstored
    cases hstored
    exact hheight

end Requester.Sound

end Requesters

/-! ## The map of the pool -/

namespace Pool

variable {pool after : Pool PeerID Block}

theorem requesterAt_eq_some_iff {height : ℤ} {ref : ℕ} {requester : Requester PeerID Block} :
    pool.requesterAt height = some (ref, requester) ↔
      pool.find height = some ref ∧ pool.cells[ref]? = some requester := by
  unfold requesterAt
  simp only [Option.bind_eq_some_iff, Option.map_eq_some_iff, Prod.mk.injEq]
  exact ⟨fun ⟨_, hfind, _, hget, href, hcell⟩ ↦ (by subst href hcell; exact ⟨hfind, hget⟩),
    fun ⟨hfind, hget⟩ ↦ ⟨ref, hfind, requester, hget, rfl, rfl⟩⟩

theorem exists_of_find {height : ℤ} {ref : ℕ} (hfind : pool.find height = some ref) :
    ∃ requester, pool.cells[ref]? = some requester := by
  obtain ⟨hlt, -⟩ := List.findIdx?_eq_some_iff_getElem.mp hfind
  rw [keys, List.length_map] at hlt
  exact ⟨_, List.getElem?_eq_getElem hlt⟩

theorem listed_of_requesterAt {height : ℤ} {ref : ℕ} {requester : Requester PeerID Block}
    (hat : pool.requesterAt height = some (ref, requester)) :
    requester.listed = true ∧ requester.height = height := by
  obtain ⟨hfind, hget⟩ := requesterAt_eq_some_iff.mp hat
  obtain ⟨hlt, hkey, -⟩ := List.findIdx?_eq_some_iff_getElem.mp hfind
  have hmapped : pool.keys[ref]? = some requester.key := by
    rw [keys, List.getElem?_map, hget, Option.map_some]
  rw [List.getElem?_eq_getElem hlt, Option.some.injEq] at hmapped
  have hsome : requester.key = some height := hmapped.symm.trans (of_decide_eq_true hkey)
  unfold Requester.key at hsome
  obtain ⟨hlisted, hheight⟩ := Option.ite_none_right_eq_some.mp hsome
  exact ⟨hlisted, Option.some.inj hheight⟩

theorem setRoutine_eq {ref : ℕ} {requester : Requester PeerID Block}
    {routine : Routine PeerID} (hcell : pool.cells[ref]? = some requester) :
    pool.setRoutine ref routine = pool.setCell ref { requester with routine := routine } := by
  unfold Pool.setRoutine Pool.setCell
  rw [List.modify_eq_set_getElem?, hcell]
  rfl

/-- The map holds the heights from that of the pool on. -/
def Window (pool : Pool PeerID Block) : Prop :=
  pool.keys.reduceOption = (List.range pool.requestersLen).map fun k : ℕ ↦ pool.height + k

theorem Window.congr (hwindow : pool.Window) (hkeys : after.keys = pool.keys)
    (hheight : after.height = pool.height) : after.Window := by
  unfold Window requestersLen
  rw [hkeys, hheight]
  exact hwindow

theorem keys_setCell {ref : ℕ} {requester new : Requester PeerID Block}
    (hcell : pool.cells[ref]? = some requester) (hkey : new.key = requester.key) :
    (pool.setCell ref new).keys = pool.keys := Cells.map_set hcell hkey

theorem Window.unlisted (hwindow : pool.Window) {requester : Requester PeerID Block}
    (hmem : requester ∈ pool.cells)
    (hheight : requester.height = pool.height + pool.requestersLen) :
    requester.listed = false := by
  by_contra hlisted
  rw [Bool.not_eq_false] at hlisted
  have hkey : some requester.height ∈ pool.keys :=
    List.mem_map.mpr ⟨requester, hmem, if_pos hlisted⟩
  rw [← List.reduceOption_mem_iff, hwindow, List.mem_map] at hkey
  obtain ⟨k, hk, hsame⟩ := hkey
  rw [List.mem_range] at hk
  omega

theorem Window.makeNextRequester_eq (hwindow : pool.Window) :
    pool.makeNextRequester =
      { pool with
        cells := pool.cells ++ [newBPRequester (pool.height + pool.requestersLen)]
        numPending := pool.numPending + 1 } := by
  have hkept : (pool.cells.map fun requester ↦
      if requester.height = pool.height + pool.requestersLen then
        { requester with listed := false } else requester) = pool.cells :=
    calc
      _ = pool.cells.map id := by
        apply List.map_congr_left
        intro requester hmem
        split
        next hheight => rw [← hwindow.unlisted hmem hheight, id]
        next => rfl
      _ = pool.cells := List.map_id _
  unfold makeNextRequester
  dsimp only
  rw [hkept]

theorem Window.make (hwindow : pool.Window) (hkeys : after.keys =
      pool.keys ++ [some (pool.height + pool.requestersLen)])
    (hheight : after.height = pool.height) : after.Window := by
  have hreduced : after.keys.reduceOption =
      pool.keys.reduceOption ++ [pool.height + (pool.requestersLen : ℤ)] := by
    rw [hkeys, List.reduceOption_append]
    rfl
  have hlen : after.requestersLen = pool.requestersLen + 1 := by
    unfold requestersLen
    rw [hreduced, List.length_append]
    rfl
  unfold Window
  rw [hlen, hheight, List.range_succ, List.map_append, ← hwindow, hreduced]
  rfl

/-- `PopRequest` removes the first height. -/
theorem Window.pop (hwindow : pool.Window) {ref : ℕ} {requester : Requester PeerID Block}
    (hat : pool.requesterAt pool.height = some (ref, requester)) :
    Window { pool.setCell ref requester.pop with height := pool.height + 1 } := by
  obtain ⟨hfind, hget⟩ := requesterAt_eq_some_iff.mp hat
  obtain ⟨hlisted, hheight⟩ := listed_of_requesterAt hat
  have hmem : pool.height ∈ pool.keys.reduceOption := by
    rw [List.reduceOption_mem_iff]
    exact List.mem_map.mpr ⟨requester, List.mem_of_getElem? hget, by
      rw [Requester.key, if_pos hlisted, hheight]⟩
  have hpopped : (pool.setCell ref requester.pop).keys = pool.keys.set ref none := List.map_set
  cases hlen : pool.requestersLen with
  | zero =>
    rw [List.length_eq_zero_iff.mp hlen] at hmem
    cases hmem
  | succ len =>
    have hheights : pool.keys.reduceOption =
        pool.height :: (List.range len).map fun k : ℕ ↦ pool.height + 1 + k := by
      rw [hwindow, hlen, List.range_succ_eq_map, List.map_cons, List.map_map,
        Nat.cast_zero, add_zero]
      congr 1
      apply List.map_congr_left
      intro k _
      rw [Function.comp_apply, Nat.cast_succ]
      omega
    have hafter : (pool.setCell ref requester.pop).keys.reduceOption =
        (List.range len).map fun k : ℕ ↦ pool.height + 1 + k := by
      rw [hpopped]
      exact Cells.reduceOption_set_none hheights hfind
    show (pool.setCell ref requester.pop).keys.reduceOption =
      (List.range (pool.setCell ref requester.pop).keys.reduceOption.length).map
        fun k : ℕ ↦ pool.height + 1 + k
    rw [hafter, List.length_map, List.length_range]

end Pool

theorem locked_eq_ok_iff {s next : System PeerID Block}
    {result : Fallible Blocked (Pool PeerID Block)} :
    s.locked result = .ok next ↔
      s.holder = none ∧ ∃ pool, result = .ok pool ∧ next = { s with pool := pool } := by
  unfold System.locked
  rw [Results.ite_error_eq_ok_iff, Results.bind_eq_ok_iff, Bool.not_eq_true,
    Option.isSome_eq_false_iff, Option.isNone_iff_eq_none]
  exact and_congr_right fun _ ↦ exists_congr fun pool ↦ and_congr_right fun _ ↦
    ⟨fun h ↦ (by cases h; rfl), fun h ↦ (by cases h; rfl)⟩

/-! ## Well-formed pools -/

/-- The requester that an `AddBlock` of a peer waits for has the block and can receive, or it has
received a redo. -/
def Requester.Delivering (peerID : PeerID) (requester : Requester PeerID Block) : Prop :=
  requester.listed = true ∧
    (requester.routine.receptive = true ∧ requester.block ≠ none ∧ requester.peerID = some peerID ∨
      requester.routine.past = true)

/-- What holds of the pool and its lock in every state. -/
structure WellFormed (heightOf : Block → ℤ) (pool : Pool PeerID Block)
    (holder : Option (Delivery PeerID)) : Prop where
  sound : ∀ requester ∈ pool.cells, requester.Sound heightOf
  window : pool.Window
  delivery : ∀ delivery, holder = some delivery →
    ∃ requester, pool.cells[delivery.ref]? = some requester ∧
      requester.Delivering delivery.peerID

section WellFormed

variable {heightOf : Block → ℤ} {pool after : Pool PeerID Block}
  {holder : Option (Delivery PeerID)}

theorem WellFormed.height_of_requesterAt (hwell : WellFormed heightOf pool holder) {height : ℤ}
    {ref : ℕ} {requester : Requester PeerID Block} {block : Block}
    (hat : pool.requesterAt height = some (ref, requester))
    (hblock : requester.block = some block) :
    heightOf block = height := by
  have hmem := List.mem_of_getElem? (Pool.requesterAt_eq_some_iff.mp hat).2
  rw [(hwell.sound requester hmem).height block hblock, (Pool.listed_of_requesterAt hat).2]

theorem wellFormed_newBlockPool (start : ℤ) :
    WellFormed heightOf (newBlockPool start : System PeerID Block).pool none :=
  ⟨fun _ h ↦ absurd h List.not_mem_nil, rfl, fun _ h ↦ nomatch h⟩

theorem Acted.delivering {requester new : Requester PeerID Block} {action : Action}
    {peerID : PeerID}
    (hacted : Acted requester action new) (hsound : requester.Sound heightOf)
    (hdelivering : requester.Delivering peerID) : new.Delivering peerID := by
  obtain ⟨hlisted, hstate⟩ := hdelivering
  have hrunning := hsound.running hlisted
  cases hacted with
  | check hroutine =>
    refine ⟨hlisted, .inr ?_⟩
    dsimp only
    rw [hrunning]
    rfl
  | assign hroutine =>
    rw [hroutine] at hstate
    rcases hstate with ⟨hreceptive, -⟩ | hpast
    · cases hreceptive
    · cases hpast
  | receiveRedo hroutine hredos => exact ⟨hlisted, .inr rfl⟩
  | reset hroutine => exact ⟨hlisted, .inr rfl⟩
  | quit hroutine hstopped =>
    rw [hrunning] at hstopped
    cases hstopped

theorem WellFormed.released (hwell : WellFormed heightOf pool holder) :
    WellFormed heightOf pool none := ⟨hwell.sound, hwell.window, fun _ h ↦ nomatch h⟩

/-- One requester is replaced by one that is as sound, and that `AddBlock` may wait for as well. -/
theorem WellFormed.setCell (hwell : WellFormed heightOf pool holder) {ref : ℕ}
    {requester new : Requester PeerID Block} (hcell : pool.cells[ref]? = some requester)
    (hsound : new.Sound heightOf) (hkey : new.key = requester.key)
    (hdelivering : ∀ delivery, holder = some delivery → delivery.ref = ref →
      requester.Delivering delivery.peerID → new.Delivering delivery.peerID) :
    WellFormed heightOf (pool.setCell ref new) holder := by
  refine ⟨?_, hwell.window.congr (Pool.keys_setCell hcell hkey) rfl, ?_⟩
  · intro cell hmem
    rcases List.mem_or_eq_of_mem_set hmem with hold | rfl
    · exact hwell.sound cell hold
    · exact hsound
  · intro delivery hholder
    obtain ⟨cell, hget, hwaits⟩ := hwell.delivery delivery hholder
    by_cases href : delivery.ref = ref
    · subst href
      rw [hcell] at hget
      cases hget
      exact ⟨new, Cells.get_set_self hcell, hdelivering delivery hholder rfl hwaits⟩
    · exact ⟨cell, by rw [Pool.setCell, List.getElem?_set_ne (Ne.symm href)]; exact hget, hwaits⟩

theorem WellFormed.of_cells_eq (hwell : WellFormed heightOf pool holder)
    (hcells : after.cells = pool.cells) (hheight : after.height = pool.height) :
    WellFormed heightOf after holder := by
  refine ⟨?_, hwell.window.congr ?_ hheight, ?_⟩
  · rw [hcells]
    exact hwell.sound
  · rw [Pool.keys, hcells, Pool.keys]
  · rw [hcells]
    exact hwell.delivery

end WellFormed

end LkChain.BlockPool
