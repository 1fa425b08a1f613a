import LkChain.Tendermint.Proposer
import LkChain.Tendermint.SortedSets
import LkChain.Validators.VotingPower
import Mathlib.Algebra.Order.Group.Abs

/-!
# The bound on a change of the validators

`updateValidators` refuses updates that move a third of the voting power. It adds the changes up in
an `int64` and stops when the sum reaches the threshold, so a single change that makes the sum wrap
around is not seen. As long as the exact sum fits, what passes the check moves less than a third:
the new total stays between two thirds and four thirds of the old one, somebody with power is left,
and a proposer can be chosen. Addresses may repeat among the updates; each of them is measured
against the old set, and the last one is what remains.
-/

namespace LkChain.Tendermint.PowerBound

open Foundation Foundation.Stops Tendermint.Types ValSet SortedSets Proposer
open Validators.ParseTx (Crypto powerStep sampleCrypto)
open Validators.TxBased (changeLoop)

variable {PubKey Signature Address : Type}

/-- The address and the power of a validator. -/
def addressPair (v : Validator PubKey Address) : Address × ℤ := (v.address, v.votingPower)

/-- The powers that the updates give to addresses. -/
def updateItems (crypto : Crypto PubKey Signature Address)
    (updates : List Validators.TxBased.Validator) : List (Address × ℤ) :=
  updates.filterMap fun v ↦ match crypto.pubKeyFromBytes v.pubKey with
    | .ok pubkey => some (crypto.address pubkey, v.power)
    | .error _ => none

/-- The exact total power of a set. -/
def exactTotal (valSet : ValidatorSet PubKey Address) : ℤ := (powers valSet.validators).sum

/-- The exact sum of the changes that the updates make, all against the old set. -/
def powerChange [DecidableEq Address] (crypto : Crypto PubKey Signature Address)
    (valSet : ValidatorSet PubKey Address) (updates : List Validators.TxBased.Validator) : ℤ :=
  Roster.drift (Roster.lookup (valSet.validators.map addressPair)) (updateItems crypto updates)

theorem updateItems_cons {crypto : Crypto PubKey Signature Address}
    {v : Validators.TxBased.Validator} {updates : List Validators.TxBased.Validator}
    {pubKey : PubKey} (hread : crypto.pubKeyFromBytes v.pubKey = .ok pubKey) :
    updateItems crypto (v :: updates) =
      (crypto.address pubKey, v.power) :: updateItems crypto updates := by
  unfold updateItems
  rw [List.filterMap_cons, hread]

theorem exactTotal_eq (valSet : ValidatorSet PubKey Address) :
    exactTotal valSet = Roster.total (valSet.validators.map addressPair) := by
  unfold exactTotal powers Roster.total
  rw [List.map_map]
  rfl

/-! ## The set as a roster of addresses -/

section Roster

variable [LinearOrder Address] {crypto : Crypto PubKey Signature Address}
  {valSet next : ValidatorSet PubKey Address} {validators after : List (Validator PubKey Address)}

theorem nodup_address (hsorted : SortedSearch.Sorted Validator.address validators) :
    (validators.map Validator.address).Nodup :=
  List.pairwise_map.mpr (hsorted.imp fun hlt ↦ hlt.ne)

theorem represents_of_sorted (hsorted : SortedSearch.Sorted Validator.address validators) :
    Roster.Represents (validators.map addressPair)
      (Roster.lookup (validators.map addressPair)) := by
  apply Roster.represents_lookup
  rw [List.map_map]
  exact nodup_address hsorted

/-- `GetByAddress` on a sorted set reads the roster. -/
theorem getByAddress_eq_lookup
    (hsorted : SortedSearch.Sorted Validator.address valSet.validators) (address : Address) :
    (valSet.getByAddress address).map (·.2.votingPower) =
      Roster.lookup (valSet.validators.map addressPair) address := by
  have hpairs := represents_of_sorted hsorted
  obtain ⟨front, back, hcut, hsearch, hfront, hback⟩ := exists_cut hsorted address
  rw [getByAddress_of_cut hcut hsearch]
  rcases hback with ⟨val, rest, rfl, haddress⟩ | hback
  · have hmem : (address, val.votingPower) ∈ valSet.validators.map addressPair := by
      rw [← haddress, hcut]
      exact List.mem_map_of_mem (List.mem_append_right front List.mem_cons_self)
    rw [(hpairs.mem_iff _ _).mp hmem, List.head?_cons, Option.bind_some, if_pos haddress]
    rfl
  · have habsent : address ∉ (valSet.validators.map addressPair).map Prod.fst := by
      rw [List.map_map, hcut, List.mem_map]
      rintro ⟨v, hv, hsame⟩
      cases List.mem_append.mp hv with
      | inl hbelow => exact (hfront v hbelow).ne hsame
      | inr habove => exact (hback v habove).ne' hsame
    rw [hpairs.eq_none_iff.mpr habsent]
    cases back with
    | nil => rfl
    | cons other back =>
      rw [List.head?_cons, Option.bind_some, if_neg (hback other List.mem_cons_self).ne']
      rfl

variable {pubKey : PubKey} {power : ℤ}

theorem Changed.sorted (hchanged : Changed crypto validators pubKey power after)
    (hsorted : SortedSearch.Sorted Validator.address validators) :
    SortedSearch.Sorted Validator.address after := by
  cases hchanged with
  | @added front back hcut hfront hback =>
    subst hcut
    exact hsorted.insert hfront hback
  | @removed front back val hcut haddress hzero =>
    subst hcut
    exact hsorted.remove
  | @replaced front back val hcut haddress hne =>
    subst hcut
    exact hsorted.replace rfl

/-- An update under the address of a key revises the roster of addresses. -/
theorem Changed.revises {table : Roster.Table Address}
    (hchanged : Changed crypto validators pubKey power after)
    (hpairs : Roster.Represents (validators.map addressPair) table) :
    Roster.Represents (after.map addressPair)
      (Roster.revise table (crypto.address pubKey, power)) := by
  cases hchanged with
  | @added front back hcut hfront hback =>
    subst hcut
    have hunknown : table (crypto.address pubKey) = none := by
      rw [hpairs.eq_none_iff, List.map_map, List.mem_map]
      rintro ⟨v, hv, hsame⟩
      cases List.mem_append.mp hv with
      | inl hbelow => exact (hfront v hbelow).ne hsame
      | inr habove => exact (hback v habove).ne' hsame
    have hperm : (newValidator crypto pubKey power :: (front ++ back)).Perm
        (front ++ newValidator crypto pubKey power :: back) := List.perm_middle.symm
    exact (hpairs.add hunknown).perm (hperm.map addressPair)
  | @removed front back val hcut haddress hzero =>
    subst hcut
    have hhead := hpairs.perm (List.perm_middle.map addressPair)
    rw [List.map_cons, addressPair, haddress] at hhead
    rw [hzero]
    exact hhead.remove
  | @replaced front back val hcut haddress hne =>
    subst hcut
    have hhead := hpairs.perm (List.perm_middle.map addressPair)
    rw [List.map_cons, addressPair, haddress] at hhead
    have hperm : ({ val with votingPower := power } :: (front ++ back)).Perm
        (front ++ { val with votingPower := power } :: back) := List.perm_middle.symm
    have hpair : addressPair { val with votingPower := power } = (crypto.address pubKey, power) :=
      Prod.ext haddress rfl
    have hreplaced := hperm.map addressPair
    rw [List.map_cons, hpair] at hreplaced
    exact (hhead.replace hne).perm hreplaced

/-- The loop over the updates revises the roster, and keeps the set sorted. -/
theorem revises_of_foldlM {updates : List Validators.TxBased.Validator}
    {table : Roster.Table Address}
    (hloop : updates.foldlM (·.applyUpdate crypto) valSet = .ok next)
    (hsorted : SortedSearch.Sorted Validator.address valSet.validators)
    (hpairs : Roster.Represents (valSet.validators.map addressPair) table) :
    SortedSearch.Sorted Validator.address next.validators ∧
      Roster.Represents (next.validators.map addressPair)
        (Roster.reviseAll table (updateItems crypto updates)) := by
  induction updates generalizing valSet table with
  | nil =>
    cases hloop
    exact ⟨hsorted, hpairs⟩
  | cons v updates ih =>
    rw [List.foldlM_cons, Results.bind_eq_ok_iff] at hloop
    obtain ⟨middle, hstep, hrest⟩ := hloop
    obtain ⟨-, pubKey, hread, hchanged⟩ := changed_of_applyUpdate hsorted hstep
    rw [updateItems_cons hread]
    exact ih hrest (Changed.sorted hchanged hsorted) (Changed.revises hchanged hpairs)

end Roster

/-! ## The check -/

section Check

variable [LinearOrder Address] {crypto : Crypto PubKey Signature Address}
  {valSet after : ValidatorSet PubKey Address} {updates : List Validators.TxBased.Validator}

omit [LinearOrder Address] in
/-- The loop that finds no third has read every update, and none of its sums reaches the
threshold. -/
theorem not_reaches_of_changeLoop {find : Validators.TxBased.Validator →
    Fallible (UpdateError Address) (Option ℤ)} {negative : ℤ → Stop Panic (UpdateError Address)}
    {threshold acc : ℤ} {table : Roster.Table Address}
    (hfind : ∀ v current, find v = .ok current →
      ∃ pubKey, crypto.pubKeyFromBytes v.pubKey = .ok pubKey ∧ current =
        table (crypto.address pubKey))
    (hloop : changeLoop find negative threshold acc updates = .ok false) :
    (updateItems crypto updates).length = updates.length ∧
      (∀ item ∈ updateItems crypto updates, ∃ v ∈ updates, item.2 = v.power ∧ 0 ≤ v.power) ∧
      Int64.reaches threshold acc
        ((updateItems crypto updates).map fun item ↦ powerStep (table item.1) item.2) = false := by
  induction updates generalizing acc with
  | nil => exact ⟨rfl, fun item hitem ↦ absurd hitem List.not_mem_nil, rfl⟩
  | cons v updates ih =>
    unfold changeLoop at hloop
    split at hloop
    next => cases hloop
    next current hcurrent =>
      obtain ⟨pubKey, hread, rfl⟩ := hfind v current hcurrent
      rw [Results.ite_error_eq_ok_iff] at hloop
      obtain ⟨hnonneg, hloop⟩ := hloop
      split at hloop
      next => cases hloop
      next hbelow =>
        obtain ⟨hlength, hitems, hreaches⟩ := ih hloop
        rw [updateItems_cons hread]
        refine ⟨?_, ?_, ?_⟩
        · rw [List.length_cons, hlength, List.length_cons]
        · intro item hitem
          cases List.mem_cons.mp hitem with
          | inl hhead =>
            rw [hhead]
            exact ⟨v, List.mem_cons_self, rfl, not_lt.mp hnonneg⟩
          | inr htail =>
            obtain ⟨other, hother, hpower⟩ := hitems item htail
            exact ⟨other, List.mem_cons_of_mem v hother, hpower⟩
        · rw [List.map_cons, Int64.reaches, hreaches, Bool.or_false]
          exact decide_eq_false hbelow

theorem checks_of_updateValidators
    (hsorted : SortedSearch.Sorted Validator.address valSet.validators)
    (hok : valSet.updateValidators crypto updates = .ok after) :
    updates.foldlM (·.applyUpdate crypto) valSet = .ok after ∧
      (updateItems crypto updates).length = updates.length ∧
      (∀ item ∈ updateItems crypto updates, ∃ v ∈ updates, item.2 = v.power ∧ 0 ≤ v.power) ∧
      Int64.reaches ((valSet.totalVotingPower * 1).tdiv 3) 0
        ((updateItems crypto updates).map fun item ↦
          powerStep (Roster.lookup (valSet.validators.map addressPair) item.1) item.2) = false := by
  unfold ValidatorSet.updateValidators at hok
  rw [Results.bind_eq_ok_iff] at hok
  obtain ⟨vp23, hcheck, hloop⟩ := hok
  rw [Results.ite_error_eq_ok_iff, Bool.not_eq_true] at hloop
  rw [hloop.1] at hcheck
  refine ⟨hloop.2, not_reaches_of_changeLoop ?_ hcheck⟩
  intro v current hcurrent
  split at hcurrent
  next => cases hcurrent
  next pubKey hread =>
    rw [Results.ite_error_eq_ok_iff] at hcurrent
    refine ⟨pubKey, hread, ?_⟩
    rw [← getByAddress_eq_lookup hsorted]
    exact (Except.ok.inj hcurrent.2).symm

/-- A sorted set of positive powers whose sum fits `int64`. -/
structure Admitted (valSet : ValidatorSet PubKey Address) : Prop where
  sorted : SortedSearch.Sorted Validator.address valSet.validators
  positive : ∀ v ∈ valSet.validators, 0 < v.votingPower
  fits : exactTotal valSet < 2 ^ 63

theorem Admitted.powers_nonneg (hset : Admitted valSet) :
    ∀ power ∈ powers valSet.validators, 0 ≤ power := by
  intro power hpower
  obtain ⟨v, hv, rfl⟩ := List.mem_map.mp hpower
  exact (hset.positive v hv).le

theorem Admitted.threshold_eq (hset : Admitted valSet) :
    (valSet.totalVotingPower * 1).tdiv 3 = exactTotal valSet / 3 := by
  have hfits : 0 + (powers valSet.validators).sum < 2 ^ 63 := by
    rw [zero_add]
    exact hset.fits
  have htotal : valSet.totalVotingPower = exactTotal valSet := by
    rw [ValidatorSet.totalVotingPower_eq, Int64.accumulate_eq hset.powers_nonneg le_rfl hfits,
      zero_add]
    rfl
  rw [htotal, mul_one]
  exact Int.tdiv_eq_ediv_of_nonneg (List.sum_nonneg hset.powers_nonneg)

theorem Admitted.lookup_range (hset : Admitted valSet) {address : Address} {power : ℤ}
    (hpower : Roster.lookup (valSet.validators.map addressPair) address = some power) :
    0 ≤ power ∧ power < 2 ^ 63 := by
  have hpair := ((represents_of_sorted hset.sorted).mem_iff address power).mpr hpower
  obtain ⟨v, hv, hsame⟩ := List.mem_map.mp hpair
  have hmem : power ∈ powers valSet.validators :=
    List.mem_map.mpr ⟨v, hv, congrArg Prod.snd hsame⟩
  exact ⟨hset.powers_nonneg power hmem,
    (List.single_le_sum hset.powers_nonneg power hmem).trans_lt hset.fits⟩

theorem Admitted.map_powerStep (hset : Admitted valSet) {items : List (Address × ℤ)}
    (hitems : ∀ item ∈ items, 0 ≤ item.2 ∧ item.2 < 2 ^ 63) :
    (items.map fun item ↦
      powerStep (Roster.lookup (valSet.validators.map addressPair) item.1) item.2) =
      items.map fun item ↦
        Roster.shift (Roster.lookup (valSet.validators.map addressPair) item.1) item.2 := by
  apply List.map_congr_left
  intro item hitem
  apply Validators.VotingPower.powerStep_of_range
  · exact fun old hold ↦ hset.lookup_range hold
  · exact (hitems item hitem).1
  · exact (hitems item hitem).2

omit [LinearOrder Address] in
theorem exists_positive (htotal : 0 < exactTotal valSet) :
    ∃ v ∈ valSet.validators, 0 < v.votingPower := by
  apply List.exists_lt_of_sum_lt
  rw [List.map_const', List.sum_replicate, nsmul_zero]
  exact htotal

/-- Accepted updates move less than a third exactly when the sum of their changes fits `int64`, or
there are none and a third is something. Then the new total stays between two thirds and four thirds
of the old one, a validator with power is left, and the next proposer can be chosen. -/
theorem accepted_change_bounded_iff (hset : Admitted valSet)
    (hupdates : ∀ v ∈ updates, -2 ^ 63 ≤ v.power ∧ v.power < 2 ^ 63)
    (hok : valSet.updateValidators crypto updates = .ok after) :
    (powerChange crypto valSet updates < exactTotal valSet / 3 ↔
      powerChange crypto valSet updates < 2 ^ 63 ∧ (updates = [] → 3 ≤ exactTotal valSet)) ∧
    (powerChange crypto valSet updates < exactTotal valSet / 3 →
      2 * exactTotal valSet < 3 * exactTotal after ∧ 3 * exactTotal after < 4 * exactTotal valSet ∧
      (∃ v ∈ after.validators, 0 < v.votingPower) ∧
      Results.Returns (after.incrementAccum 1 : Fallible (UpdateError Address) _)) := by
  obtain ⟨hloop, hlength, hread, hreaches⟩ := checks_of_updateValidators hset.sorted hok
  have hitems : ∀ item ∈ updateItems crypto updates, 0 ≤ item.2 ∧ item.2 < 2 ^ 63 := by
    intro item hitem
    obtain ⟨v, hv, hpower, hnonneg⟩ := hread item hitem
    rw [hpower]
    exact ⟨hnonneg, (hupdates v hv).2⟩
  have hnonneg : ∀ step ∈ (updateItems crypto updates).map (fun item ↦
      Roster.shift (Roster.lookup (valSet.validators.map addressPair) item.1) item.2), 0 ≤
        step := by
    intro step hstep
    obtain ⟨item, hitem, rfl⟩ := List.mem_map.mp hstep
    exact Roster.shift_nonneg (hitems item hitem).1
  have hchange : 0 ≤ powerChange crypto valSet updates := List.sum_nonneg hnonneg
  have htotal := hset.fits
  rw [hset.threshold_eq, hset.map_powerStep hitems] at hreaches
  constructor
  · constructor
    · intro hbounded
      refine ⟨by omega, ?_⟩
      intro hempty
      omega
    · intro ⟨hfits, hempty⟩
      by_contra hlarge
      -- a sum that fits and is large would have been seen, unless there is nothing to add
      by_cases hnil : updates = []
      · have hthree := hempty hnil
        have hzero : powerChange crypto valSet updates = 0 := by
          rw [hnil]
          rfl
        omega
      · have hsteps : (updateItems crypto updates).map (fun item ↦ Roster.shift
            (Roster.lookup (valSet.validators.map addressPair) item.1) item.2) ≠ [] := by
          rw [← List.length_pos_iff, List.length_map, hlength, List.length_pos_iff]
          exact hnil
        have hseen : Int64.reaches (exactTotal valSet / 3) 0 _ = true :=
          Int64.reaches_of_le_sum hsteps hnonneg le_rfl (by rw [zero_add]; exact hfits)
            (by rw [zero_add]; exact not_lt.mp hlarge)
        rw [hreaches] at hseen
        cases hseen
  · intro hbounded
    obtain ⟨hsorted, hrevised⟩ :=
      revises_of_foldlM hloop hset.sorted (represents_of_sorted hset.sorted)
    have hmoved : |exactTotal after - exactTotal valSet| ≤ powerChange crypto valSet updates := by
      rw [exactTotal_eq, exactTotal_eq]
      exact (represents_of_sorted hset.sorted).abs_total_sub_le hrevised
        fun item hitem ↦ (hitems item hitem).1
    obtain ⟨hlow, hhigh⟩ := abs_le.mp hmoved
    have hleft : 0 < exactTotal after := by omega
    obtain ⟨v, hv, hpower⟩ := exists_positive hleft
    refine ⟨by omega, by omega, ⟨v, hv, hpower⟩, ?_⟩
    exact incrementAccum_returns 1 (nodup_address hsorted) (List.ne_nil_of_mem hv)

end Check

/-! ## Two lists of updates -/

/-- Three validators of power ten. -/
def threeOfTen : ValidatorSet UInt8 ℕ := .of [⟨1, 1, 10, 0⟩, ⟨2, 2, 10, 0⟩, ⟨3, 3, 10, 0⟩]

theorem admitted_threeOfTen : Admitted threeOfTen where
  sorted := by unfold SortedSearch.Sorted; decide
  positive := by decide
  fits := by decide

/-- One more vote for the first of them. -/
theorem accepted_change_bounded_one : ∃ after,
    threeOfTen.updateValidators sampleCrypto [⟨[1], 11⟩] = .ok after ∧
    powerChange sampleCrypto threeOfTen [⟨[1], 11⟩] < exactTotal threeOfTen / 3 ∧
    2 * exactTotal threeOfTen < 3 * exactTotal after ∧
    3 * exactTotal after < 4 * exactTotal threeOfTen ∧
    (∃ v ∈ after.validators, 0 < v.votingPower) ∧
    Results.Returns (after.incrementAccum 1 : Fallible (UpdateError ℕ) _) := by
  obtain ⟨after, hok⟩ : ∃ after,
      threeOfTen.updateValidators sampleCrypto [⟨[1], 11⟩] = .ok after := ⟨_, rfl⟩
  have hbounded := accepted_change_bounded_iff admitted_threeOfTen (by decide) hok
  have hchange := hbounded.1.mpr ⟨by decide, by decide⟩
  exact ⟨after, hok, hchange, hbounded.2 hchange⟩

/-- The second update makes the sum wrap around to a negative number: a newcomer with all the power
that fits `int64` is let in. -/
theorem change_unbounded_after_overflow : ∃ after, Admitted threeOfTen ∧
    threeOfTen.updateValidators sampleCrypto [⟨[1], 11⟩, ⟨[4], 2 ^ 63 - 1⟩] = .ok after ∧
    exactTotal threeOfTen / 3 = 10 ∧
    powerChange sampleCrypto threeOfTen [⟨[1], 11⟩, ⟨[4], 2 ^ 63 - 1⟩] = 2 ^ 63 ∧
    exactTotal after = 2 ^ 63 + 30 :=
  ⟨_, admitted_threeOfTen, rfl, rfl, rfl, rfl⟩

end LkChain.Tendermint.PowerBound
