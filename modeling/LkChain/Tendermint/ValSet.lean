import LkChain.Foundation.Int64
import LkChain.Tendermint.Types
import LkChain.Validators.TxBased
import Mathlib.Data.List.Sort

/-!
# Validator sets

`types.ValidatorSet` with everything it stores: the validators in the order of their addresses, the
accumulators that take turns in choosing a proposer, and the cached total of the voting power. The
cache is empty or right, since every change of the validators clears it. Nothing else is assumed of
a set, because a set can come off the wire: addresses may repeat, and need not be sorted.

`sort.Search` and `container/heap` are modelled by their code, so that they have a result on sets
that are not sorted as well.
-/

namespace LkChain.Tendermint.ValSet

open Foundation Foundation.Stops Tendermint.Types
open Validators.ParseTx (Bytes Crypto)
open Validators.TxBased (changeLoop)

/-! ## Searching and heaps of the standard library -/

/-- `sort.Search` between two indices; the fuel bounds the number of halvings. -/
def sortSearch (found : ℕ → Bool) : ℕ → ℕ → ℕ → ℕ
  | 0, low, _ => low
  | fuel + 1, low, high =>
    if low < high then
      let middle := (low + high) / 2
      if found middle then sortSearch found fuel low middle
      else sortSearch found fuel (middle + 1) high
    else low

section Heap

variable {Error : Type} (less : ℕ → ℕ → Except Error Bool)

/-- Exchange two elements. -/
def swap (heap : List ℕ) (i j : ℕ) : List ℕ :=
  (heap.set i (heap.getD j 0)).set j (heap.getD i 0)

/-- `up` of `container/heap`. -/
def heapUp : ℕ → List ℕ → ℕ → Except Error (List ℕ)
  | 0, heap, _ => .ok heap
  | fuel + 1, heap, j =>
    let i := (j - 1) / 2
    if i = j then .ok heap
    else do
      if ← less (heap.getD j 0) (heap.getD i 0) then heapUp fuel (swap heap i j) i else .ok heap

/-- `down` of `container/heap`. -/
def heapDown : ℕ → List ℕ → ℕ → Except Error (List ℕ)
  | 0, heap, _ => .ok heap
  | fuel + 1, heap, i =>
    let left := 2 * i + 1
    if heap.length ≤ left then .ok heap
    else do
      let right ← if left + 1 < heap.length then less (heap.getD (left + 1) 0) (heap.getD left 0)
        else .ok false
      let j := if right then left + 1 else left
      if ← less (heap.getD j 0) (heap.getD i 0) then heapDown fuel (swap heap i j) j else .ok heap

/-- `heap.Push`. -/
def heapPush (heap : List ℕ) (element : ℕ) : Except Error (List ℕ) :=
  heapUp less (heap.length + 1) (heap ++ [element]) heap.length

/-- `heap.Fix` at the root. -/
def heapFix (heap : List ℕ) : Except Error (List ℕ) := heapDown less heap.length heap 0

end Heap

/-! ## Validators -/

structure Validator (PubKey Address : Type) where
  address : Address
  pubKey : PubKey
  votingPower : ℤ
  accum : ℤ
deriving DecidableEq

variable {PubKey Signature Address : Type}

/-- A validator without its accumulator. -/
def Validator.member (v : Validator PubKey Address) : Address × PubKey × ℤ :=
  (v.address, v.pubKey, v.votingPower)

/-- `NewValidator`, for a key that does not wrap nil. -/
def newValidator (crypto : Crypto PubKey Signature Address) (pubKey : PubKey) (votingPower : ℤ) :
    Validator PubKey Address := ⟨crypto.address pubKey, pubKey, votingPower, 0⟩

/-- The powers of a list of validators. -/
def powers (validators : List (Validator PubKey Address)) : List ℤ :=
  validators.map Validator.votingPower

theorem powers_eq_map_member (validators : List (Validator PubKey Address)) :
    powers validators = (validators.map Validator.member).map fun member ↦ member.2.2 := by
  unfold powers
  rw [List.map_map]
  rfl

structure ValidatorSet (PubKey Address : Type) where
  validators : List (Validator PubKey Address)
  proposer : Option (Validator PubKey Address)
  cachedTotal : ℤ
  cached : cachedTotal = 0 ∨ cachedTotal = Int64.accumulate 0 (powers validators)
deriving DecidableEq

/-- A set of these validators with its caches empty. -/
def ValidatorSet.of (validators : List (Validator PubKey Address)) : ValidatorSet PubKey Address :=
  ⟨validators, none, 0, .inl rfl⟩

/-- The addresses, keys and powers of a set, in its order. -/
def ValidatorSet.members (valSet : ValidatorSet PubKey Address) : List (Address × PubKey × ℤ) :=
  valSet.validators.map Validator.member

def ValidatorSet.size (valSet : ValidatorSet PubKey Address) : ℕ := valSet.validators.length

def ValidatorSet.totalVotingPower (valSet : ValidatorSet PubKey Address) : ℤ :=
  if valSet.cachedTotal = 0 then Int64.accumulate valSet.cachedTotal (powers valSet.validators)
  else valSet.cachedTotal

theorem ValidatorSet.totalVotingPower_eq (valSet : ValidatorSet PubKey Address) :
    valSet.totalVotingPower = Int64.accumulate 0 (powers valSet.validators) := by
  unfold ValidatorSet.totalVotingPower
  split
  next hzero => rw [hzero]
  next hne => exact valSet.cached.resolve_left hne

def ValidatorSet.getByIndex (valSet : ValidatorSet PubKey Address) (index : ℕ) :
    Option (Validator PubKey Address) := valSet.validators[index]?

def ValidatorSet.hash (valSet : ValidatorSet PubKey Address)
    (wire : Wire PubKey Signature Address) : Bytes :=
  if valSet.validators.isEmpty then [] else wire.validatorsHash valSet.members

/-! ## The next proposer -/

theorem map_member_modify {validators : List (Validator PubKey Address)} {index : ℕ} {total : ℤ} :
    (validators.modify index fun v ↦ { v with accum := Int64.wrap (v.accum - total) }).map
      Validator.member = validators.map Validator.member := by
  apply List.ext_getElem?
  intro position
  simp only [List.getElem?_map, List.getElem?_modify, Functor.map, Option.map_map]
  apply Option.map_congr
  intro v _
  simp only [Function.comp_apply]
  split <;> rfl

section Accums

variable {Error : Type} [LinearOrder Address]

/-- Whether `CompareAccum` prefers the first of two validators. -/
def compareAccum (v other : Validator PubKey Address) : Fallible Error Bool :=
  if other.accum < v.accum then .ok true
  else if v.accum < other.accum then .ok false
  else if v.address < other.address then .ok true
  else if other.address < v.address then .ok false
  else .error (.panic (.sanity "Cannot compare identical validators"))

/-- `accumComparable.Less`, which asks whether the preferred validator has the first address. -/
def accumLess (validators : List (Validator PubKey Address)) (i j : ℕ) : Fallible Error Bool :=
  match validators[i]?, validators[j]? with
  | some v, some other => do
    let first ← compareAccum v other
    return first || decide (v.address = other.address)
  | _, _ => .error (.panic .nilDereference)

/-- A round of `IncrementAccum`: the first validator of the heap pays with the total power. -/
def accumRound (total : ℤ) (validators : List (Validator PubKey Address)) (heap : List ℕ) :
    Fallible Error (List (Validator PubKey Address) × List ℕ × Option (Validator PubKey Address)) :=
  match heap.head? with
  | none => .error (.panic .nilDereference)
  | some mostest => do
    let lowered := validators.modify mostest fun v ↦
      { v with accum := Int64.wrap (v.accum - total) }
    let fixed ← heapFix (accumLess lowered) heap
    return (lowered, fixed, lowered[mostest]?)

/-- The rounds of `IncrementAccum`; the proposer is that of the last one. -/
def accumRounds (total : ℤ) : ℕ → List (Validator PubKey Address) → List ℕ →
    Option (Validator PubKey Address) →
    Fallible Error (List (Validator PubKey Address) × Option (Validator PubKey Address))
  | 0, validators, _, proposer => .ok (validators, proposer)
  | times + 1, validators, heap, _ => do
    let (lowered, fixed, proposer) ← accumRound total validators heap
    accumRounds total times lowered fixed proposer

/-- Every validator earns its power in each round. -/
def raiseAccums (times : ℕ) (validators : List (Validator PubKey Address)) :
    List (Validator PubKey Address) :=
  validators.map fun v ↦
    { v with accum := Int64.wrap (v.accum + Int64.wrap (v.votingPower * times)) }

/-- The validators and the proposer after `IncrementAccum`. -/
def incrementedAccums (total : ℤ) (times : ℕ) (validators : List (Validator PubKey Address))
    (proposer : Option (Validator PubKey Address)) :
    Fallible Error (List (Validator PubKey Address) × Option (Validator PubKey Address)) := do
  let raised := raiseAccums times validators
  let heap ← (List.range raised.length).foldlM (heapPush (accumLess raised)) []
  accumRounds total times raised heap proposer

theorem accumRounds_members {total : ℤ} {times : ℕ}
    {validators after : List (Validator PubKey Address)} {heap : List ℕ}
    {proposer chosen : Option (Validator PubKey Address)}
    (hrounds : (accumRounds total times validators heap proposer :
      Fallible Error _) = .ok (after, chosen)) :
    after.map Validator.member = validators.map Validator.member := by
  induction times generalizing validators heap proposer with
  | zero =>
    cases hrounds
    rfl
  | succ times ih =>
    unfold accumRounds at hrounds
    rw [Results.bind_eq_ok_iff] at hrounds
    obtain ⟨⟨lowered, fixed, next⟩, hround, hrest⟩ := hrounds
    rw [ih hrest]
    unfold accumRound at hround
    split at hround
    next => cases hround
    next mostest _ =>
      rw [Results.bind_eq_ok_iff] at hround
      obtain ⟨other, -, hreturn⟩ := hround
      cases hreturn
      exact map_member_modify

theorem incrementedAccums_members {total : ℤ} {times : ℕ}
    {validators after : List (Validator PubKey Address)}
    {proposer chosen : Option (Validator PubKey Address)}
    (hincremented : (incrementedAccums total times validators proposer : Fallible Error _) =
      .ok (after, chosen)) :
    after.map Validator.member = validators.map Validator.member := by
  unfold incrementedAccums at hincremented
  rw [Results.bind_eq_ok_iff] at hincremented
  obtain ⟨heap, -, hrounds⟩ := hincremented
  rw [accumRounds_members hrounds, raiseAccums, List.map_map]
  rfl

/-- `IncrementAccum`, which asks for the total in every round. -/
def ValidatorSet.incrementAccum (valSet : ValidatorSet PubKey Address) (times : ℕ) :
    Fallible Error (ValidatorSet PubKey Address) :=
  match hincremented : (incrementedAccums valSet.totalVotingPower times valSet.validators
      valSet.proposer : Fallible Error _) with
  | .error stop => .error stop
  | .ok (validators, proposer) => .ok
    { validators := validators
      proposer := proposer
      cachedTotal := valSet.totalVotingPower
      cached := by
        rw [powers_eq_map_member, incrementedAccums_members hincremented, ← powers_eq_map_member]
        exact .inr valSet.totalVotingPower_eq }

theorem ValidatorSet.members_of_incrementAccum {valSet after : ValidatorSet PubKey Address}
    {times : ℕ}
    (hincremented : (valSet.incrementAccum times : Fallible Error _) = .ok after) :
    after.members = valSet.members := by
  unfold ValidatorSet.incrementAccum at hincremented
  split at hincremented
  next => cases hincremented
  next validators proposer hlist =>
    cases hincremented
    exact incrementedAccums_members hlist

theorem ValidatorSet.nonempty_of_incrementAccum {valSet after : ValidatorSet PubKey Address}
    (hincremented : (valSet.incrementAccum 1 : Fallible Error _) = .ok after) :
    after.validators ≠ [] := by
  intro hnil
  have hmembers := ValidatorSet.members_of_incrementAccum hincremented
  unfold ValidatorSet.members at hmembers
  rw [hnil, List.map_nil] at hmembers
  have hbefore : valSet.validators = [] := List.map_eq_nil_iff.mp hmembers.symm
  have hpanic : (incrementedAccums valSet.totalVotingPower 1 valSet.validators valSet.proposer :
      Fallible Error _) = .error (.panic .nilDereference) := by
    rw [hbefore]
    rfl
  unfold ValidatorSet.incrementAccum at hincremented
  split at hincremented
  next => cases hincremented
  next validators proposer hlist =>
    rw [hpanic] at hlist
    cases hlist

/-- `NewValidatorSet`; sorting keeps the order of validators with one address. -/
def newValidatorSet (vals : Option (List (Validator PubKey Address))) :
    Fallible Error (ValidatorSet PubKey Address) :=
  match vals with
  | none => .ok (.of [])
  | some vals =>
    (ValidatorSet.of (vals.insertionSort fun v other ↦ v.address ≤ other.address)).incrementAccum 1

end Accums

/-! ## Changing a set -/

section Changes

variable [LinearOrder Address]

/-- The index that `sort.Search` finds for an address. -/
def ValidatorSet.search (valSet : ValidatorSet PubKey Address) (address : Address) : ℕ :=
  sortSearch
    (fun i ↦ match valSet.validators[i]? with
      | some v => address ≤ v.address
      | none => false)
    valSet.size 0 valSet.size

def ValidatorSet.getByAddress (valSet : ValidatorSet PubKey Address) (address : Address) :
    Option (ℕ × Validator PubKey Address) :=
  let idx := valSet.search address
  match valSet.validators[idx]? with
  | some v => if v.address = address then some (idx, v) else none
  | none => none

theorem getByIndex_of_getByAddress {valSet : ValidatorSet PubKey Address}
    {address : Address} {index : ℕ} {val : Validator PubKey Address}
    (hfound : valSet.getByAddress address = some (index, val)) :
    valSet.getByIndex index = some val ∧ val.address = address := by
  unfold ValidatorSet.getByAddress at hfound
  dsimp only at hfound
  split at hfound
  next v hv =>
    split_ifs at hfound with haddress
    cases hfound
    exact ⟨hv, haddress⟩
  next => cases hfound

/-- `Add`: `none` when the address is taken. -/
def ValidatorSet.add (valSet : ValidatorSet PubKey Address) (val : Validator PubKey Address) :
    Option (ValidatorSet PubKey Address) :=
  let idx := valSet.search val.address
  match valSet.validators[idx]? with
  | none => some (.of (valSet.validators ++ [val]))
  | some v =>
    if v.address = val.address then none
    else some (.of (valSet.validators.take idx ++ val :: valSet.validators.drop idx))

/-- `Update`: `none` when the address is unknown. -/
def ValidatorSet.update (valSet : ValidatorSet PubKey Address) (val : Validator PubKey Address) :
    Option (ValidatorSet PubKey Address) :=
  match valSet.getByAddress val.address with
  | none => none
  | some (index, _) => some (.of (valSet.validators.set index val))

/-- `Remove`: `none` when the address is unknown. -/
def ValidatorSet.remove (valSet : ValidatorSet PubKey Address) (address : Address) :
    Option (ValidatorSet PubKey Address) :=
  match valSet.getByAddress address with
  | none => none
  | some (idx, _) =>
    some (.of (valSet.validators.take idx ++ valSet.validators.drop (idx + 1)))

/-- The errors of `updateValidators`. -/
inductive UpdateError (Address : Type)
  | pubKey (error : String)
  | negative (power : ℤ)
  | change
  | add (address : Address) (power : ℤ)
  | remove (address : Address)
  | update (address : Address) (power : ℤ)

variable (crypto : Crypto PubKey Signature Address)

def ValidatorSet.changeInVotingPowerMoreOrEqualToOneThird (currentSet : ValidatorSet PubKey Address)
    (updates : List Validators.TxBased.Validator) : Fallible (UpdateError Address) Bool :=
  changeLoop
    (fun v ↦ match crypto.pubKeyFromBytes v.pubKey with
      | .error error => .error (.error (.pubKey error))
      | .ok pubkey =>
        if crypto.empty pubkey then .error (.panic .nilDereference)
        else .ok ((currentSet.getByAddress (crypto.address pubkey)).map (·.2.votingPower)))
    (fun power ↦ .error (.negative power)) ((currentSet.totalVotingPower * 1).tdiv 3) 0 updates

/-- The body of the loop of `updateValidators`. -/
def ValidatorSet.applyUpdate (currentSet : ValidatorSet PubKey Address)
    (v : Validators.TxBased.Validator) :
    Fallible (UpdateError Address) (ValidatorSet PubKey Address) :=
  match crypto.pubKeyFromBytes v.pubKey with
  | .error error => .error (.error (.pubKey error))
  | .ok pubkey =>
    let address := crypto.address pubkey
    if crypto.empty pubkey then .error (.panic .nilDereference)
    else if v.power < 0 then .error (.error (.negative v.power))
    else
      match currentSet.getByAddress address with
      | none =>
        (currentSet.add (newValidator crypto pubkey v.power)).elim
          (.error (.error (.add address v.power))) .ok
      | some (_, val) =>
        if v.power = 0 then
          (currentSet.remove address).elim (.error (.error (.remove address))) .ok
        else
          (currentSet.update { val with votingPower := v.power }).elim
            (.error (.error (.update address v.power))) .ok

def ValidatorSet.updateValidators (currentSet : ValidatorSet PubKey Address)
    (updates : List Validators.TxBased.Validator) :
    Fallible (UpdateError Address) (ValidatorSet PubKey Address) := do
  let vp23 ← currentSet.changeInVotingPowerMoreOrEqualToOneThird crypto updates
  if vp23 then .error (.error .change) else updates.foldlM (·.applyUpdate crypto) currentSet

/-- The validators after the updates of a block, if there are any. -/
def ValidatorSet.changed (valSet : ValidatorSet PubKey Address)
    (updates : List Validators.TxBased.Validator) :
    Fallible (UpdateError Address) (ValidatorSet PubKey Address) :=
  if updates.isEmpty then .ok valSet else valSet.updateValidators crypto updates

/-- The validators after `updateState`. -/
def ValidatorSet.updateState (valSet : ValidatorSet PubKey Address)
    (updates : List Validators.TxBased.Validator) :
    Fallible (UpdateError Address) (ValidatorSet PubKey Address) := do
  let nextValSet ← valSet.changed crypto updates
  nextValSet.incrementAccum 1

end Changes

end LkChain.Tendermint.ValSet
