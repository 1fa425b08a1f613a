import LkChain.Tendermint.Proposer
import LkChain.Tendermint.SortedSets
import LkChain.Validators.VotingPower

/-!
# The validator set of the consensus engine as a roster

`updateState` hands the updates of a block to the set of the engine, which finds its validators by
address. As long as the set is proper (sorted, under the addresses of its keys, without negative
powers) the set is a roster under the bytes of its keys: the check of the change looks the updates
up in it, and applying them revises it. The engine sees an update only as the key that it reads.
-/

namespace LkChain.Validators.NodeSet

open Foundation Foundation.Stops ParseTx TxBased VotingPower
open Tendermint.Types (Fallible)
open Tendermint.ValSet (ValidatorSet UpdateError)
open Tendermint.SortedSets (Proper decodedKey decodedKey_of_read decodedPair keyPair
  proper_of_foldlM represents_of_foldlM)

variable {PubKey Signature Address : Type}

/-- The keys of the set and their powers, in the order of the addresses. -/
def pairs (crypto : Crypto PubKey Signature Address) (valSet : ValidatorSet PubKey Address) :
    List (Bytes × ℤ) := valSet.validators.map (keyPair crypto)

/-- The key-to-power map of the set. -/
def table (crypto : Crypto PubKey Signature Address) (valSet : ValidatorSet PubKey Address) :
    Roster.Table Bytes := Roster.lookup (pairs crypto valSet)

/-! ## Updates as the engine reads them -/

section Keys

variable {crypto : Crypto PubKey Signature Address}

/-- Bytes that are read as a key that does not wrap nil. -/
def KeyReadable (crypto : Crypto PubKey Signature Address) (key : Bytes) : Prop :=
  ∃ pubKey, crypto.pubKeyFromBytes key = .ok pubKey ∧ crypto.empty pubKey = false

/-- Updates that the engine accepts: keys that it can read, and powers that stay below a third of
the total and leave a validator once they are filed under these keys. -/
structure Acceptable (crypto : Crypto PubKey Signature Address) (pairs : List (Bytes × ℤ))
    (table : Roster.Table Bytes) (items : List (Bytes × ℤ)) : Prop where
  readable : ∀ item ∈ items, KeyReadable crypto item.1
  change : BelowThird pairs table (items.map (decodedPair crypto))
  left : ∃ key, Roster.reviseAll table (items.map (decodedPair crypto)) key ≠ none

theorem Acceptable.perm {table : Roster.Table Bytes} {pairs pairs' items : List (Bytes × ℤ)}
    (hacceptable : Acceptable crypto pairs table items) (hperm : pairs.Perm pairs') :
    Acceptable crypto pairs' table items :=
  ⟨hacceptable.readable, hacceptable.change.perm hperm, hacceptable.left⟩

end Keys

section Updates

variable [LinearOrder Address] {crypto : Crypto PubKey Signature Address}
  {valSet next : ValidatorSet PubKey Address} {table : Roster.Table Bytes}
  {updates : List Validator}

theorem represents_table (hsound : Sound crypto) (hproper : Proper crypto valSet.validators) :
    Roster.Represents (pairs crypto valSet) (NodeSet.table crypto valSet) :=
  Roster.represents_lookup (hproper.nodup hsound)

omit [LinearOrder Address] in
theorem nonempty_iff (hpairs : Roster.Represents (pairs crypto valSet) table) :
    valSet.validators ≠ [] ↔ ∃ key, table key ≠ none := by
  constructor
  · intro hnonempty
    obtain ⟨v, hv⟩ := List.exists_mem_of_ne_nil _ hnonempty
    have hmem : keyPair crypto v ∈ pairs crypto valSet := List.mem_map_of_mem hv
    exact ⟨_, by rw [(hpairs.mem_iff _ _).mp hmem]; simp⟩
  · intro ⟨key, hkey⟩ hnone
    apply hkey
    rw [hpairs.eq_none_iff, pairs, hnone]
    exact List.not_mem_nil

/-- Looking a key up by its address is looking its bytes up in the roster. -/
theorem lookup_getByAddress (hsound : Sound crypto) (hproper : Proper crypto valSet.validators)
    (hpairs : Roster.Represents (pairs crypto valSet) table) (pubKey : PubKey) :
    (valSet.getByAddress (crypto.address pubKey)).map (·.2.votingPower) =
      table (crypto.bytes pubKey) := by
  ext power
  rw [← hpairs.mem_iff, Option.map_eq_some_iff]
  unfold pairs
  rw [List.mem_map]
  constructor
  · rintro ⟨⟨index, v⟩, hfound, hpower⟩
    obtain ⟨hindex, haddress⟩ := Tendermint.ValSet.getByIndex_of_getByAddress hfound
    have hmem : v ∈ valSet.validators := List.mem_of_getElem? hindex
    exact ⟨v, hmem, by rw [keyPair, hproper.pubKey_eq hsound hmem haddress, hpower]⟩
  · rintro ⟨v, hmem, hpair⟩
    obtain ⟨hbytes, hpower⟩ := Prod.mk.inj hpair
    have hkey : v.pubKey = pubKey := hsound.bytes_injective hbytes
    obtain ⟨index, hfound⟩ := Tendermint.SortedSets.getByAddress_of_mem hproper.sorted hmem
    rw [(hproper.each v hmem).1, hkey] at hfound
    exact ⟨(index, v), hfound, hpower⟩

/-- Under keys that it can read the engine looks its updates up in the roster, and lets them pass if
they stay below a third. -/
theorem change_eq_false_iff (hsound : Sound crypto) (hproper : Proper crypto valSet.validators)
    (hpairs : Roster.Represents (pairs crypto valSet) table)
    (hreadable : ∀ v ∈ updates, KeyReadable crypto v.pubKey)
    (hnonneg : ∀ v ∈ updates, 0 ≤ v.power) :
    ∃ reached, valSet.changeInVotingPowerMoreOrEqualToOneThird crypto updates = .ok reached ∧
      (reached = false ↔ BelowThird (pairs crypto valSet) table
        ((updates.map Validator.pair).map (decodedPair crypto))) := by
  have htotal : valSet.totalVotingPower = Int64.wrap (Roster.total (pairs crypto valSet)) := by
    rw [valSet.totalVotingPower_eq, Int64.accumulate_zero]
    unfold Tendermint.ValSet.powers Roster.total pairs
    rw [List.map_map]
    rfl
  unfold ValidatorSet.changeInVotingPowerMoreOrEqualToOneThird
  rw [htotal, @changeLoop_eq _ _ _ _ _ _ (fun key ↦ table (decodedKey crypto key)) _ hnonneg]
  · refine ⟨_, rfl, ?_⟩
    unfold BelowThird
    rw [List.map_map, List.map_map]
    exact Iff.rfl
  · intro v hv
    obtain ⟨pubKey, hread, hsolid⟩ := hreadable v hv
    rw [hread]
    dsimp only
    rw [hsolid, if_neg Bool.false_ne_true, decodedKey_of_read hread,
      lookup_getByAddress hsound hproper hpairs pubKey]

theorem foldlM_represents (hsound : Sound crypto) (hproper : Proper crypto valSet.validators)
    (hpairs : Roster.Represents (pairs crypto valSet) table)
    (hreadable : ∀ v ∈ updates, KeyReadable crypto v.pubKey)
    (hnonneg : ∀ v ∈ updates, 0 ≤ v.power) :
    ∃ next, updates.foldlM (·.applyUpdate crypto) valSet = .ok next ∧
      Proper crypto next.validators ∧ Roster.Represents (pairs crypto next)
        (Roster.reviseAll table ((updates.map Validator.pair).map (decodedPair crypto))) := by
  obtain ⟨next, hloop⟩ : ∃ next, updates.foldlM (·.applyUpdate crypto) valSet = .ok next := by
    clear hpairs
    induction updates generalizing valSet with
    | nil => exact ⟨valSet, rfl⟩
    | cons v rest ih =>
      obtain ⟨⟨pubKey, hread, hsolid⟩, hrest⟩ := List.forall_mem_cons.mp hreadable
      obtain ⟨hpower, hpowers⟩ := List.forall_mem_cons.mp hnonneg
      obtain ⟨middle, hstep, hchanged⟩ :=
        Tendermint.SortedSets.applyUpdate_of_sorted hproper.sorted hread hsolid hpower
      rw [List.foldlM_cons, hstep]
      exact ih (hchanged.proper hpower hproper) hrest hpowers
  exact ⟨next, hloop, proper_of_foldlM hloop hproper,
    represents_of_foldlM hsound hloop hproper hpairs⟩

/-- An update that the first loop gets past has a key that can be read. -/
theorem readable_of_change
    (hchange : valSet.changeInVotingPowerMoreOrEqualToOneThird crypto updates = .ok false) :
    ∀ v ∈ updates, KeyReadable crypto v.pubKey := by
  intro v hv
  obtain ⟨current, hfind⟩ := find_of_changeLoop hchange v hv
  split at hfind
  next => cases hfind
  next pubKey hread =>
    rw [Results.ite_error_eq_ok_iff] at hfind
    exact ⟨pubKey, hread, eq_false_of_ne_true hfind.1⟩

/-- The set after `updateState` has the members that the updates leave. -/
structure Follows (crypto : Crypto PubKey Signature Address) (table : Roster.Table Bytes)
    (items : List (Bytes × ℤ)) (next : ValidatorSet PubKey Address) : Prop where
  proper : Proper crypto next.validators
  nonempty : next.validators ≠ []
  represents : Roster.Represents (pairs crypto next)
    (Roster.reviseAll table (items.map (decodedPair crypto)))

theorem follows_of_incrementAccum {items : List (Bytes × ℤ)}
    (hproper : Proper crypto valSet.validators) (hnonempty : valSet.validators ≠ [])
    (hpairs : Roster.Represents (pairs crypto valSet)
      (Roster.reviseAll table (items.map (decodedPair crypto)))) :
    ∃ next, (valSet.incrementAccum 1 : Fallible (UpdateError Address) _) = .ok next ∧
      Follows crypto table items next := by
  obtain ⟨next, hnext⟩ : Results.Returns
      (valSet.incrementAccum 1 : Fallible (UpdateError Address) _) :=
    Tendermint.Proposer.incrementAccum_returns 1 (List.pairwise_map.mpr
      (hproper.sorted.imp fun hlt ↦ hlt.ne)) hnonempty
  have hmembers := ValidatorSet.members_of_incrementAccum hnext
  refine ⟨next, hnext, hproper.congr hmembers, ?_, ?_⟩
  · exact ValidatorSet.nonempty_of_incrementAccum hnext
  · unfold pairs at hpairs ⊢
    rw [Tendermint.SortedSets.map_keyPair_eq] at hpairs ⊢
    rwa [show next.validators.map _ = valSet.validators.map _ from hmembers]

theorem updateState_of_acceptable (hsound : Sound crypto)
    (hproper : Proper crypto valSet.validators)
    (hpairs : Roster.Represents (pairs crypto valSet) table)
    (hnonneg : ∀ v ∈ updates, 0 ≤ v.power) (hempty : updates ≠ [])
    (hacceptable : Acceptable crypto (pairs crypto valSet) table (updates.map Validator.pair)) :
    ∃ next, valSet.updateState crypto updates = .ok next ∧
      Follows crypto table (updates.map Validator.pair) next := by
  have hreadable := List.forall_mem_map.mp hacceptable.readable
  obtain ⟨reached, hchange, hreached⟩ :=
    change_eq_false_iff hsound hproper hpairs hreadable hnonneg
  cases hreached.mpr hacceptable.change
  obtain ⟨middle, hloop, hmiddle, hrevised⟩ :=
    foldlM_represents hsound hproper hpairs hreadable hnonneg
  obtain ⟨next, hnext, hfollows⟩ := follows_of_incrementAccum hmiddle
    ((nonempty_iff hrevised).mpr hacceptable.left) hrevised
  refine ⟨next, ?_, hfollows⟩
  unfold ValidatorSet.updateState ValidatorSet.changed ValidatorSet.updateValidators
  rw [if_neg (mt List.isEmpty_iff.mp hempty), hchange]
  show (updates.foldlM (·.applyUpdate crypto) valSet >>= fun set ↦ set.incrementAccum 1) = _
  rw [hloop]
  exact hnext

theorem updateState_nil (hproper : Proper crypto valSet.validators)
    (hnonempty : valSet.validators ≠ [])
    (hpairs : Roster.Represents (pairs crypto valSet) table) :
    ∃ next, valSet.updateState crypto [] = .ok next ∧ Follows crypto table [] next :=
  follows_of_incrementAccum hproper hnonempty hpairs

theorem updateState_ok_iff (hsound : Sound crypto) (hproper : Proper crypto valSet.validators)
    (hpairs : Roster.Represents (pairs crypto valSet) table)
    (hnonneg : ∀ v ∈ updates, 0 ≤ v.power) (hempty : updates ≠ []) :
    (∃ next, valSet.updateState crypto updates = .ok next) ↔
      Acceptable crypto (pairs crypto valSet) table (updates.map Validator.pair) := by
  constructor
  · rintro ⟨next, hstate⟩
    unfold ValidatorSet.updateState ValidatorSet.changed ValidatorSet.updateValidators at hstate
    rw [if_neg (mt List.isEmpty_iff.mp hempty)] at hstate
    simp only [Results.bind_eq_ok_iff, Results.ite_error_eq_ok_iff] at hstate
    obtain ⟨middle, ⟨reached, hchange, hnot, hloop⟩, hincremented⟩ := hstate
    cases eq_false_of_ne_true hnot
    have hreadable := readable_of_change hchange
    obtain ⟨found, hfound, hreached⟩ :=
      change_eq_false_iff hsound hproper hpairs hreadable hnonneg
    cases hchange.symm.trans hfound
    obtain ⟨applied, happlied, -, hrevised⟩ :=
      foldlM_represents hsound hproper hpairs hreadable hnonneg
    cases hloop.symm.trans happlied
    refine ⟨List.forall_mem_map.mpr hreadable, hreached.mp rfl, (nonempty_iff hrevised).mp ?_⟩
    intro hnone
    apply ValidatorSet.nonempty_of_incrementAccum hincremented
    have hmembers := ValidatorSet.members_of_incrementAccum hincremented
    unfold ValidatorSet.members at hmembers
    rw [hnone, List.map_nil] at hmembers
    exact List.map_eq_nil_iff.mp hmembers
  · intro hacceptable
    obtain ⟨next, hstate, -⟩ :=
      updateState_of_acceptable hsound hproper hpairs hnonneg hempty hacceptable
    exact ⟨next, hstate⟩

end Updates

end LkChain.Validators.NodeSet
