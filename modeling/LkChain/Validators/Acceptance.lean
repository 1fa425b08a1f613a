import LkChain.Validators.Agreement

/-!
# Updates that the engine accepts

`EndBlock` returns the items of the last transaction of the block that has passed the check, applied
or not, and with what applying them has written into their cells. The engine measures them against
the validators at the start of the block, while the check has measured them against those it met,
and it files them under the keys that it reads.
-/

namespace LkChain.Validators.Acceptance

open Foundation ParseTx TxBased VotingPower Collect Agreement
open NodeSet (Acceptable)

section Blocks

variable {PubKey Signature Address : Type} (codec : Codec)
  (crypto : Crypto PubKey Signature Address)

/-- The last transaction of a block that passes the check, with the strategy it meets. -/
def lastChecked (strategy : Strategy) : List String → Option (Strategy × ValidatorTx)
  | [] => none
  | tx :: rest =>
    match lastChecked (strategy.collectTx codec crypto tx).1 rest with
    | some found => some found
    | none =>
      match strategy.checkValidatorTx codec crypto tx with
      | .error _ => none
      | .ok data => some (strategy, data)

variable {codec crypto} {strategy meets : Strategy} {txs : List String} {data : ValidatorTx}

theorem lastChecked_cons {tx : String} {rest : List String}
    (hlast : lastChecked codec crypto strategy (tx :: rest) = some (meets, data)) :
    lastChecked codec crypto (strategy.collectTx codec crypto tx).1 rest = some (meets, data) ∨
      lastChecked codec crypto (strategy.collectTx codec crypto tx).1 rest = none ∧
        meets = strategy ∧ strategy.checkValidatorTx codec crypto tx = .ok data := by
  unfold lastChecked at hlast
  split at hlast
  next found hfound =>
    cases hlast
    exact .inl hfound
  next hnone =>
    split at hlast <;> cases hlast
    next hcheck => exact .inr ⟨hnone, rfl, hcheck⟩

theorem checkValidatorTx_of_lastChecked
    (hlast : lastChecked codec crypto strategy txs = some (meets, data)) :
    ∃ tx, meets.checkValidatorTx codec crypto tx = .ok data := by
  induction txs generalizing strategy with
  | nil => cases hlast
  | cons tx rest ih =>
    rcases lastChecked_cons hlast with hrest | ⟨-, rfl, hcheck⟩
    · exact ih hrest
    · exact ⟨tx, hcheck⟩

/-- A block without such a transaction leaves the strategy as it is. -/
theorem collectAll_of_lastChecked_none (hnone : lastChecked codec crypto strategy txs = none) :
    collectAll codec crypto strategy txs = strategy := by
  induction txs generalizing strategy with
  | nil => rfl
  | cons tx rest ih =>
    unfold lastChecked at hnone
    split at hnone
    next => cases hnone
    next hrest =>
      split at hnone
      next error hcheck =>
        have hsame : (strategy.collectTx codec crypto tx).1 = strategy := by
          rw [collectTx_of_error hcheck]
        rw [hsame] at hrest
        have hstep : collectAll codec crypto strategy (tx :: rest) =
            collectAll codec crypto (strategy.collectTx codec crypto tx).1 rest := rfl
        rw [hstep, hsame]
        exact ih hrest
      next => cases hnone

/-- At the end of the block the pending updates read as that transaction has left them. -/
theorem updates_of_lastChecked (hwellFormed : strategy.WellFormed)
    (hnodup : (strategy.pairs.map Prod.fst).Nodup)
    (hlast : lastChecked codec crypto strategy txs = some (meets, data)) :
    (collectAll codec crypto strategy txs).updates.map Validator.pair =
      pendingItems meets.pairs meets.table (data.txs.map Item.pair) := by
  induction txs generalizing strategy with
  | nil => cases hlast
  | cons tx rest ih =>
    have hstep : collectAll codec crypto strategy (tx :: rest) =
        collectAll codec crypto (strategy.collectTx codec crypto tx).1 rest := rfl
    rw [hstep]
    rcases lastChecked_cons hlast with hrest | ⟨hnone, rfl, hcheck⟩
    · exact ih (collectTx_wellFormed hwellFormed) (collectTx_nodup hwellFormed hnodup) hrest
    · rw [collectAll_of_lastChecked_none hnone]
      exact collectTx_updates hwellFormed (Roster.represents_lookup hnodup) hcheck

end Blocks

section Engine

variable {PubKey Signature Address : Type} [LinearOrder Address]
  {crypto : Crypto PubKey Signature Address}

/-- The engine accepts what `EndBlock` returns if and only if the last checked transaction of the
block has no items, or what its items have become can be read as keys, moves less than a third of
the power that the validators had at the start of the block, and leaves a validator. Where no sum
overflows the change is the drift of the roster. -/
theorem endBlock_accepted_iff (codec : Codec) (hsound : Sound crypto) (node : Node PubKey Address)
    (hsynced : Synced crypto node) (txs : List String) :
    ((∃ valSet, node.valSet.updateState crypto
        (collectAll codec crypto node.strategy txs).getUpdateValidators.1 = .ok valSet) ↔
      ∀ meets data, lastChecked codec crypto node.strategy txs = some (meets, data) →
        data.txs ≠ [] → Acceptable crypto node.strategy.pairs node.strategy.table
          (pendingItems meets.pairs meets.table (data.txs.map Item.pair))) ∧
      ∀ items, (∀ item ∈ items, 0 ≤ item.2 ∧ item.2 < 2 ^ 63) → items ≠ [] →
        Roster.total node.strategy.pairs < 2 ^ 63 →
        Roster.drift node.strategy.table items < 2 ^ 63 →
        (BelowThird node.strategy.pairs node.strategy.table items ↔
          Roster.drift node.strategy.table items < Roster.total node.strategy.pairs / 3) := by
  have hpairs := hsynced.represents hsound
  obtain ⟨unchanged, hunchanged, -⟩ := NodeSet.updateState_nil hsynced.proper hsynced.nonempty
    (hpairs.perm hsynced.agree)
  refine ⟨?_, fun items hitems hnonempty htotal ↦
    belowThird_iff ⟨hsynced.nonneg, htotal⟩ hpairs hitems hnonempty⟩
  unfold Strategy.getUpdateValidators
  cases hlast : lastChecked codec crypto node.strategy txs with
  | none =>
    have hupdates : node.strategy.updates = [] := by
      rw [Strategy.updates, hsynced.idle, List.map_nil]
    rw [collectAll_of_lastChecked_none hlast, hupdates]
    exact ⟨fun _ _ _ hfound ↦ (by cases hfound), fun _ ↦ ⟨unchanged, hunchanged⟩⟩
  | some last =>
    obtain ⟨meets, data⟩ := last
    obtain ⟨tx, hcheck⟩ := checkValidatorTx_of_lastChecked hlast
    have hrange := range_of_checkChange (checkValidatorTx_ok hcheck).2
    have hupdates := updates_of_lastChecked hsynced.wellFormed hpairs.nodup hlast
    have hcondition : (∀ found items, some (meets, data) = some (found, items) → items.txs ≠ [] →
        Acceptable crypto node.strategy.pairs node.strategy.table
          (pendingItems found.pairs found.table (items.txs.map Item.pair))) ↔ (data.txs ≠ [] →
        Acceptable crypto node.strategy.pairs node.strategy.table
          (pendingItems meets.pairs meets.table (data.txs.map Item.pair))) :=
      ⟨fun h ↦ h meets data rfl, fun h found items hfound ↦ by cases hfound; exact h⟩
    rw [hcondition, ← hupdates]
    generalize (collectAll codec crypto node.strategy txs).updates = updates at hupdates ⊢
    have hempty : data.txs = [] ↔ updates = [] := by
      rw [← List.map_eq_nil_iff (f := Validator.pair), hupdates, pendingItems_eq_nil_iff,
        List.map_eq_nil_iff]
    by_cases hnil : updates = []
    · subst hnil
      exact ⟨fun _ h ↦ absurd (hempty.mpr rfl) h, fun _ ↦ ⟨unchanged, hunchanged⟩⟩
    · have hnonneg : ∀ v ∈ updates, 0 ≤ v.power := fun v hv ↦ by
        have hmem : v.pair ∈ pendingItems meets.pairs meets.table (data.txs.map Item.pair) :=
          hupdates ▸ List.mem_map_of_mem hv
        exact pendingItems_nonneg (fun item hitem ↦ (hrange item hitem).1) v.pair hmem
      rw [NodeSet.updateState_ok_iff hsound hsynced.proper (hpairs.perm hsynced.agree) hnonneg hnil,
        forall_prop_of_true (mt hempty.mp hnil)]
      exact ⟨fun h ↦ h.perm hsynced.agree.symm, fun h ↦ h.perm hsynced.agree⟩

end Engine

theorem endBlock_accepted_raiseFirst :
    ∃ valSet, fourValidators.updateState sampleCrypto
      (collectAll (sampleCodec [raiseFirst]) sampleCrypto
        (initChain sampleCrypto fourValidators).strategy ["0x00"]).getUpdateValidators.1 =
      .ok valSet := by
  apply (endBlock_accepted_iff (sampleCodec [raiseFirst]) sound_sampleCrypto
    (initChain sampleCrypto fourValidators)
    (initChain_synced proper_fourValidators (by decide)) ["0x00"]).1.mpr
  intro meets data hlast hnonempty
  cases hlast
  refine ⟨fun item hitem ↦ ?_, by decide, [0xbb], by decide⟩
  cases List.mem_singleton.mp hitem
  exact ⟨0xaa, rfl, rfl⟩

/-- A validator joins with power five and is raised to seven in the same transaction. -/
def joinTwice : ValidatorTx :=
  signedByThree [{ cmd := "", pubKey := "ee", power := 5, name := "" },
    { cmd := "", pubKey := "ee", power := 7, name := "" }]

/-- The second item writes through the pointer that the first one shares with the pending updates:
the engine sees a change of fourteen where the application saw twelve, and stops. -/
theorem endBlock_rejected_shared_cell :
    (collectAll (sampleCodec [joinTwice]) sampleCrypto
        (initChain sampleCrypto fourValidators).strategy ["0x00"]).getUpdateValidators.1 =
      [⟨[0xee], 7⟩, ⟨[0xee], 7⟩] ∧
    fourValidators.updateState sampleCrypto
      (collectAll (sampleCodec [joinTwice]) sampleCrypto
        (initChain sampleCrypto fourValidators).strategy ["0x00"]).getUpdateValidators.1 =
      .error (.error .change) :=
  ⟨rfl, rfl⟩

end LkChain.Validators.Acceptance
