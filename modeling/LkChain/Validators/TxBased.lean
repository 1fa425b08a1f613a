import LkChain.Foundation.Roster
import LkChain.Validators.ParseTx

/-!
# The strategy that collects validator transactions

`TxBasedValidatorsStrategy` keeps two slices of pointers: the current validators, and the updates
that the next `EndBlock` hands to the consensus engine. `updateValidators` appends the pointer of an
update to the current validators and later writes through it, so both slices can share a cell. The
model keeps the cells in a heap and the slices as lists of references into it.
-/

namespace LkChain.Validators.TxBased

open Foundation ParseTx

structure Validator where
  pubKey : Bytes
  power : ℤ
  deriving DecidableEq

def Validator.pair (v : Validator) : Bytes × ℤ := (v.pubKey, v.power)

/-- `TxBasedValidatorsStrategy`, with the cells its pointers refer to. -/
structure Strategy where
  heap : ℕ → Validator
  /-- The first cell that is not in use. -/
  next : ℕ
  currentValidators : List ℕ
  updateValidators : List ℕ

/-- Different pointers to cells in use. -/
structure Strategy.WellFormed (strategy : Strategy) : Prop where
  nodup : strategy.currentValidators.Nodup
  allocated : ∀ ref ∈ strategy.currentValidators, ref < strategy.next

theorem Strategy.WellFormed.cleared {strategy : Strategy} (hwellFormed : strategy.WellFormed) :
    { strategy with updateValidators := [] }.WellFormed :=
  ⟨hwellFormed.nodup, hwellFormed.allocated⟩

/-- `GetCurrentValidators`. -/
def Strategy.current (strategy : Strategy) : List Validator :=
  strategy.currentValidators.map strategy.heap

/-- What the pending updates read at present. -/
def Strategy.updates (strategy : Strategy) : List Validator :=
  strategy.updateValidators.map strategy.heap

/-- The keys of the current validators and their powers, in the order of the slice. -/
def Strategy.pairs (strategy : Strategy) : List (Bytes × ℤ) :=
  strategy.currentValidators.map fun ref ↦ (strategy.heap ref).pair

theorem pairs_eq_map_current (strategy : Strategy) :
    strategy.pairs = strategy.current.map Validator.pair := by
  unfold Strategy.pairs Strategy.current
  rw [List.map_map]
  rfl

/-- The key-to-power map of the current validators. -/
def Strategy.table (strategy : Strategy) : Roster.Table Bytes := Roster.lookup strategy.pairs

def newValidatorsStrategy : Strategy := ⟨fun _ ↦ ⟨[], 0⟩, 0, [], []⟩

/-- `SetValidators`, with the validators of the request in fresh cells. -/
def Strategy.setValidators (strategy : Strategy) (validators : List Validator) : Strategy :=
  { strategy with
    heap := fun ref ↦ if ref < strategy.next then strategy.heap ref
      else validators.getD (ref - strategy.next) ⟨[], 0⟩
    next := strategy.next + validators.length
    currentValidators := List.range' strategy.next validators.length }

def totalVotingPower (currentSet : List Validator) : ℤ :=
  Int64.accumulate 0 (currentSet.map Validator.power)

/-- `getValidatorByPubKey`, as a lookup. -/
def getValidatorByPubKey (currentSet : List Validator) (pubKey : Bytes) : Option Validator :=
  currentSet.find? fun v ↦ v.pubKey = pubKey

/-- The loop of `changeInVotingPowerMoreOrEqualToOneThird`, which both the strategy and the
consensus engine have: `find` looks an update up in the set, or fails. -/
def changeLoop {Error : Type} (find : Validator → Except Error (Option ℤ))
    (negative : ℤ → Error) (threshold : ℤ) : ℤ → List Validator → Except Error Bool
  | _, [] => .ok false
  | acc, v :: rest =>
    match find v with
    | .error error => .error error
    | .ok current =>
      if v.power < 0 then .error (negative v.power)
      else if threshold ≤ Int64.wrap (acc + powerStep current v.power) then .ok true
      else changeLoop find negative threshold (Int64.wrap (acc + powerStep current v.power)) rest

def changeInVotingPowerMoreOrEqualToOneThird (currentSet updates : List Validator) :
    Except String Bool :=
  changeLoop (fun v ↦ .ok ((getValidatorByPubKey currentSet v.pubKey).map Validator.power))
    negativePower ((totalVotingPower currentSet * 1).tdiv 3) 0 updates

/-- The pointer that `getValidatorByPubKey` returns. -/
def Strategy.find (strategy : Strategy) (pubKey : Bytes) : Option ℕ :=
  strategy.currentValidators.find? fun ref ↦ (strategy.heap ref).pubKey = pubKey

/-- `val.Power = power`, seen by every slice that holds the pointer. -/
def Strategy.write (strategy : Strategy) (val : ℕ) (power : ℤ) : Strategy :=
  { strategy with
    heap := Function.update strategy.heap val { strategy.heap val with power := power } }

/-- The body of the loop of `updateValidators`. -/
def Strategy.applyUpdate (strategy : Strategy) (ref : ℕ) : Except String Strategy :=
  let v := strategy.heap ref
  if v.power < 0 then .error (negativePower v.power)
  else
    match strategy.find v.pubKey with
    | none => .ok { strategy with currentValidators := strategy.currentValidators ++ [ref] }
    | some val =>
      if v.power = 0 then
        .ok { strategy with currentValidators := strategy.currentValidators.erase val }
      else .ok (strategy.write val v.power)

/-- `updateValidators`, applied to the two slices of the strategy. -/
def Strategy.applyUpdates (strategy : Strategy) : Except String Strategy := do
  let vp23 ← changeInVotingPowerMoreOrEqualToOneThird strategy.current strategy.updates
  if vp23 then .error "the change in voting power must be strictly less than 1/3"
  else strategy.updateValidators.foldlM Strategy.applyUpdate strategy

/-- Put a new update into a fresh cell. -/
def Strategy.push (strategy : Strategy) (v : Validator) : Strategy :=
  { strategy with
    heap := Function.update strategy.heap strategy.next v
    next := strategy.next + 1
    updateValidators := strategy.updateValidators ++ [strategy.next] }

/-- The error of `CheckValidatorTx`: the reason, the keys and the text of the transaction. -/
structure CheckError where
  reason : String
  keys : GoMap ℤ
  json : Option Bytes

inductive CollectError
  | check (error : CheckError)
  | decode (error : String)
  | update (error : String)

/-- The key map that `CheckValidatorTx` builds. -/
def Strategy.keyMap (strategy : Strategy) : GoMap ℤ :=
  strategy.currentValidators.foldl (fun keyMap ref ↦
    keyMap.insert (Hex.encode (strategy.heap ref).pubKey) (strategy.heap ref).power) ∅

section Collect

variable {PubKey Signature Address : Type} (codec : Codec)
  (crypto : Crypto PubKey Signature Address)

def Strategy.checkValidatorTx (strategy : Strategy) (tx : String) :
    Except CheckError ValidatorTx :=
  match parseValidatorTx codec crypto tx strategy.keyMap with
  | .error reason => .error ⟨reason, strategy.keyMap, codec.fromHex tx⟩
  | .ok data => .ok data

/-- `CheckValidatorTx` does not return, and neither does `CollectTx`. -/
def Strategy.checkPanics (strategy : Strategy) (tx : String) : Bool :=
  parsePanics codec crypto tx strategy.keyMap

/-- The loop of `CollectTx` that fills the pending updates; it stops at a key that is not
hexadecimal. -/
def Strategy.fill (strategy : Strategy) : List Item → Strategy × Option String
  | [] => (strategy, none)
  | tx :: rest =>
    match codec.decodeString tx.pubKey with
    | .error error => (strategy, some error)
    | .ok keyBytes => (strategy.push ⟨keyBytes, tx.power⟩).fill rest

def Strategy.collectTx (strategy : Strategy) (tx : String) : Strategy × Option CollectError :=
  match strategy.checkValidatorTx codec crypto tx with
  | .error error => (strategy, some (.check error))
  | .ok data =>
    match { strategy with updateValidators := [] }.fill codec data.txs with
    | (filled, some error) => (filled, some (.decode error))
    | (filled, none) =>
      match filled.applyUpdates with
      | .error error => (filled, some (.update error))
      | .ok updated => (updated, none)

end Collect

def Strategy.getUpdateValidators (strategy : Strategy) : List Validator × Strategy :=
  (strategy.updates, { strategy with updateValidators := [] })

end LkChain.Validators.TxBased
