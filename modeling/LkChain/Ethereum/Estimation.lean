import LkChain.Ethereum.Transition
import LkChain.Ethereum.Fees

/-!
# Estimating gas

`EstimateGas` of `internal/ethapi/api.go` looks for the least gas with which a call succeeds, by
bisection between the price of a transaction and an upper limit. The limit and the two ends are
`uint64`, and so is their sum: above `2 ^ 63` the middle of the interval can lie below it, and the
search may come back to where it was.
-/

namespace LkChain.Ethereum.Estimation

open Foundation
open State Transactions Calls Transition

structure CallArgs where
  sender : Address
  recipient : Option Address
  gas : ℕ
  gasPrice : ℕ
  value : ℕ
  data : Bytes
  nonce : ℕ

def defaultGasPrice : ℕ := 100000000000

def maxBig256 : ℤ := 2 ^ 256 - 1

/-- The latest block, and the first account of the node's wallets. -/
structure EthApiBackend where
  header : Header
  firstAccount : Option Address

/-- `doCall`. The nonce of the message is not checked, as if it were the expected one. -/
def doCall (env : Environment) (b : EthApiBackend) (state : StateDB) (args : CallArgs) :
    TransitionResult :=
  let addr := if args.sender = 0 then b.firstAccount.getD args.sender else args.sender
  let gas := if args.gas = 0 then 50000000 else args.gas
  let gasPrice := if args.gasPrice = 0 then defaultGasPrice else args.gasPrice
  let nonce := if args.recipient.isNone ∧ args.nonce = 0 then state.getNonce addr else args.nonce
  let msg : Message := ⟨addr, args.recipient, nonce, args.value, gas, gasPrice, args.data⟩
  let env := { env with vmConfig := ⟨false, env.vmConfig.feeUpdateTime⟩ }
  applyMessage (env.evm b.header msg) env.config (state.setBalance addr maxBig256)
    { msg with nonce := state.getNonce addr }

/-- `executable`: the call has neither an error nor a failure of the machine. -/
def executable (env : Environment) (b : EthApiBackend) (state : StateDB) (args : CallArgs)
    (gas : ℕ) :
    Bool :=
  let result := doCall env b state { args with gas := gas }
  result.err.isNone && result.vmerr.isNone

/-- Whether the fee of the new rule applies to the latest block. -/
def newFeeRule (env : Environment) (b : EthApiBackend) : Bool :=
  env.vmConfig.feeUpdateTime ≤ b.header.time && env.vmConfig.feeUpdateTime ≠ 0

/-- Whether the call is to an account without code. -/
def codeless (state : StateDB) (args : CallArgs) : Bool :=
  args.recipient.any fun recipient ↦ state.getCodeSize recipient = 0

section Search

variable (executable : ℕ → Bool)

/-- The loop of the search, within a number of turns. -/
def search : ℕ → ℕ → ℕ → Option ℕ
  | 0, _, _ => none
  | fuel + 1, lo, hi =>
    if (lo + 1) % 2 ^ 64 < hi then
      let mid := (hi + lo) % 2 ^ 64 / 2
      if !executable mid then search fuel mid hi else search fuel lo mid
    else some hi

/-- The upper limit: the low 64 bits of the gas, if they pay for a transaction. -/
def ceiling (args : CallArgs) : ℕ :=
  if txGas ≤ args.gas % 2 ^ 64 then args.gas % 2 ^ 64 else maxGasLimit * 2

/-- `EstimateGas`, within a number of turns, with the test for a gas left open. There may be no
state of the latest block. -/
def estimateWith (env : Environment) (b : EthApiBackend) (latest : Option StateDB) (args : CallArgs)
    (fuel : ℕ) : Option (Except String ℕ) :=
  let cap := ceiling args
  match latest with
  | none => some (.error "state get failed.")
  | some state =>
    if codeless state args then
      some (.ok (if newFeeRule env b then calNewFee args.value else 100000))
    else
      (search executable fuel (txGas - 1) cap).map fun hi ↦
        if hi = cap ∧ !executable hi then
          .error "gas required exceeds allowance or always failing transaction"
        else .ok hi

end Search

/-- `EstimateGas`, within a number of turns. -/
def estimateGas (env : Environment) (b : EthApiBackend) (state : StateDB) (args : CallArgs)
    (fuel : ℕ) :
    Option (Except String ℕ) :=
  estimateWith (executable env b state args) env b (some state) args fuel

/-! ## The search -/

section Search

variable {executable : ℕ → Bool} {fuel lo hi : ℕ}

/-- Up to `2 ^ 63` neither sum leaves 64 bits. -/
theorem search_succ (hhi : hi ≤ 2 ^ 63) (hlt : lo < hi) :
    search executable (fuel + 1) lo hi =
      if lo + 1 < hi then
        if executable ((lo + hi) / 2) then search executable fuel lo ((lo + hi) / 2)
        else search executable fuel ((lo + hi) / 2) hi
      else some hi := by
  have hlo : (lo + 1) % 2 ^ 64 = lo + 1 := Nat.mod_eq_of_lt (by omega)
  have hsum : (hi + lo) % 2 ^ 64 = lo + hi := by
    rw [Nat.add_comm]
    exact Nat.mod_eq_of_lt (by omega)
  rw [search, hlo, hsum]
  cases hmid : executable ((lo + hi) / 2) <;>
    simp only [hmid, Bool.not_true, Bool.not_false, Bool.false_eq_true, if_true, if_false]

/-- The search ends after as many halvings as the interval is wide. -/
theorem exists_search {steps : ℕ} (hhi : hi ≤ 2 ^ 63) (hlt : lo < hi)
    (hwidth : hi - lo ≤ 2 ^ steps) (hfuel : steps < fuel) :
    ∃ found, search executable fuel lo hi = some found := by
  induction steps generalizing fuel lo hi with
  | zero =>
    obtain ⟨fuel, rfl⟩ : ∃ rest, fuel = rest + 1 := ⟨fuel - 1, by omega⟩
    rw [search_succ hhi hlt, if_neg (by omega)]
    exact ⟨hi, rfl⟩
  | succ steps ih =>
    obtain ⟨fuel, rfl⟩ : ∃ rest, fuel = rest + 1 := ⟨fuel - 1, by omega⟩
    rw [search_succ hhi hlt]
    obtain ⟨hlower, hupper⟩ := Bisection.halves_le hwidth
    split_ifs
    · exact ih (by omega) (by omega) hlower (by omega)
    · exact ih hhi (by omega) hupper (by omega)
    · exact ⟨hi, rfl⟩

/-- What is found lies above the lower end, whatever the test is. -/
theorem lt_of_search (hhi : hi ≤ 2 ^ 63) (hlt : lo < hi) {found : ℕ}
    (hfound : search executable fuel lo hi = some found) : lo < found := by
  induction fuel generalizing lo hi with
  | zero => cases hfound
  | succ fuel ih =>
    rw [search_succ hhi hlt] at hfound
    split_ifs at hfound
    · exact ih (by omega) (by omega) hfound
    · exact (show lo < (lo + hi) / 2 by omega).trans (ih hhi (by omega) hfound)
    · cases hfound
      exact hlt

theorem narrowed_of_search (hmono : Monotone executable) {floor cap found : ℕ}
    (hnarrowed : Bisection.Narrowed executable floor cap lo hi) (hhi : hi ≤ 2 ^ 63)
    (hfound : search executable fuel lo hi = some found) :
    ∃ low, Bisection.Narrowed executable floor cap low found ∧ found ≤ low + 1 := by
  induction fuel generalizing lo hi with
  | zero => cases hfound
  | succ fuel ih =>
    rw [search_succ hhi hnarrowed.lt] at hfound
    split_ifs at hfound with hapart hexecutable
    · exact ih (hnarrowed.reduce (by omega) (by omega) hexecutable) (by omega) hfound
    · exact ih (hnarrowed.raise hmono (by omega) (by omega) (Bool.not_eq_true _ ▸ hexecutable)) hhi
        hfound
    · cases hfound
      exact ⟨lo, hnarrowed, not_lt.mp hapart⟩

/-- Above `2 ^ 63` the search for what does not exist never ends: the middle stays below. -/
theorem search_of_never (hnever : ∀ gas < 2 ^ 64, executable gas = false) (hhi : 2 ^ 63 < hi)
    (hlo : lo < 2 ^ 63) : search executable fuel lo hi = none := by
  induction fuel generalizing lo with
  | zero => rfl
  | succ fuel ih =>
    have hmid : (hi + lo) % 2 ^ 64 / 2 < 2 ^ 63 := by omega
    rw [search, if_pos (by omega)]
    simp only [hnever _ (by omega : (hi + lo) % 2 ^ 64 / 2 < 2 ^ 64), Bool.not_false, if_true]
    exact ih hmid

end Search

/-! ## What an estimate is -/

section Estimates

variable (executable : ℕ → Bool) (env : Environment) (b : EthApiBackend) (state : StateDB)
  (args : CallArgs)

/-- The gas that the caller allows. -/
def allowance (args : CallArgs) : ℕ := if txGas ≤ args.gas then args.gas else 2 * maxGasLimit

/-- The search ends. If more gas does not hurt, an estimate for a call of code or a creation is the
least gas that pays for a transaction and works, and there is an error exactly when no gas that is
allowed works. -/
structure Correct : Prop where
  terminates : ∃ fuel result, estimateWith executable env b (some state) args fuel = some result
  minimal : Monotone executable → codeless state args = false → ∀ fuel gas,
    estimateWith executable env b (some state) args fuel = some (.ok gas) →
      IsLeast {gas | txGas ≤ gas ∧ executable gas = true} gas
  refused_iff : Monotone executable → codeless state args = false → ∀ fuel result,
    estimateWith executable env b (some state) args fuel = some result →
      ((∃ error, result = .error error) ↔ ∀ gas ≤ allowance args, executable gas = false)

end Estimates

variable {executable : ℕ → Bool} {env : Environment} {b : EthApiBackend} {state : StateDB}
  {args : CallArgs} {fuel : ℕ}

theorem txGas_le_ceiling (args : CallArgs) : txGas ≤ ceiling args := by
  unfold ceiling
  split_ifs with hpays
  · exact hpays
  · decide

theorem floor_lt_ceiling (args : CallArgs) : txGas - 1 < ceiling args :=
  (Nat.sub_lt (by decide) Nat.one_pos).trans_le (txGas_le_ceiling args)

theorem estimateWith_of_codeless (hcodeless : codeless state args = true) :
    estimateWith executable env b (some state) args fuel =
      some (.ok (if newFeeRule env b then calNewFee args.value else 100000)) := by
  simp only [estimateWith, hcodeless, if_true]

theorem estimateWith_of_code (hcode : codeless state args = false) :
    estimateWith executable env b (some state) args fuel =
      (search executable fuel (txGas - 1) (ceiling args)).map fun hi ↦
        if hi = ceiling args ∧ !executable hi then
          .error "gas required exceeds allowance or always failing transaction"
        else .ok hi := by
  simp only [estimateWith, hcode, Bool.false_eq_true, if_false]

theorem correct_of_codeless (hcodeless : codeless state args = true) :
    Correct executable env b state args where
  terminates := ⟨0, _, estimateWith_of_codeless hcodeless⟩
  minimal _ hcode := by
    rw [hcodeless] at hcode
    cases hcode
  refused_iff _ hcode := by
    rw [hcodeless] at hcode
    cases hcode

theorem ceiling_of_le (hgas : args.gas ≤ 2 ^ 63) : ceiling args = allowance args := by
  unfold ceiling allowance
  rw [Nat.mod_eq_of_lt (by omega), Nat.mul_comm]

theorem allowance_le (hgas : args.gas ≤ 2 ^ 63) : allowance args ≤ 2 ^ 63 := by
  unfold allowance
  split_ifs
  · exact hgas
  · decide

/-- What an estimate rests on: the upper one of two neighbours, tested if it is the ceiling. -/
theorem exists_of_estimateWith (hcode : codeless state args = false) (hgas : args.gas ≤ 2 ^ 63)
    (hmono : Monotone executable) {result : Except String ℕ}
    (hresult : estimateWith executable env b (some state) args fuel = some result) :
    ∃ hi low, Bisection.Narrowed executable (txGas - 1) (allowance args) low hi ∧ hi ≤ low + 1 ∧
      result = if executable hi then .ok hi
        else .error "gas required exceeds allowance or always failing transaction" := by
  have hfloor := floor_lt_ceiling args
  rw [estimateWith_of_code hcode, Option.map_eq_some_iff] at hresult
  rw [ceiling_of_le hgas] at hfloor hresult
  obtain ⟨hi, hfound, hresult⟩ := hresult
  obtain ⟨low, hnarrowed, hadjacent⟩ := narrowed_of_search hmono
    (Bisection.narrowed_start executable hfloor) (allowance_le hgas) hfound
  refine ⟨hi, low, hnarrowed, hadjacent, ?_⟩
  rw [← hresult]
  cases hexecutable : executable hi with
  | true => simp
  | false =>
    have hcap : hi = allowance args := hnarrowed.upper.resolve_right (by simp [hexecutable])
    simp [hcap]

theorem correct_of_le (hcode : codeless state args = false) (hgas : args.gas ≤ 2 ^ 63) :
    Correct executable env b state args where
  terminates := by
    have hcap := allowance_le hgas
    have hfloor := floor_lt_ceiling args
    rw [ceiling_of_le hgas] at hfloor
    have hwidth : allowance args - (txGas - 1) ≤ 2 ^ 63 := (Nat.sub_le _ _).trans hcap
    obtain ⟨hi, hfound⟩ : ∃ hi, search executable 64 (txGas - 1) (allowance args) = some hi :=
      exists_search hcap hfloor hwidth (by decide)
    rw [← ceiling_of_le hgas] at hfound
    exact ⟨64, _, (estimateWith_of_code hcode).trans (by rw [hfound, Option.map_some])⟩
  minimal hmono _ fuel gas hestimate := by
    obtain ⟨hi, low, hnarrowed, hadjacent, hresult⟩ :=
      exists_of_estimateWith hcode hgas hmono hestimate
    split_ifs at hresult with hexecutable
    cases hresult
    exact hnarrowed.isLeast hadjacent hexecutable
  refused_iff hmono _ fuel result hestimate := by
    obtain ⟨hi, low, hnarrowed, -, hresult⟩ := exists_of_estimateWith hcode hgas hmono hestimate
    rw [hresult]
    constructor
    · rintro ⟨error, herror⟩ gas hle
      split_ifs at herror with hexecutable
      have hcap : hi = allowance args := hnarrowed.upper.resolve_right hexecutable
      rw [Bool.not_eq_true] at hexecutable
      exact Bool.eq_false_of_le_false (hexecutable ▸ hmono (hcap ▸ hle))
    · intro hnone
      rw [if_neg (by rw [hnone hi hnarrowed.le]; exact Bool.false_ne_true)]
      exact ⟨_, rfl⟩

/-- A gas beyond `2 ^ 63` is one for which some test is not met. -/
theorem le_of_correct (hcode : codeless state args = false)
    (hcorrect : ∀ executable, Correct executable env b state args) : args.gas ≤ 2 ^ 63 := by
  by_contra hgas
  by_cases hcap : 2 ^ 63 < ceiling args
  · -- Nothing that fits into 64 bits works, and the search never ends.
    obtain ⟨fuel, result, hresult⟩ := (hcorrect fun _ ↦ false).terminates
    rw [estimateWith_of_code hcode, search_of_never (fun _ _ ↦ rfl) hcap (by decide)] at hresult
    cases hresult
  · -- The ceiling lies below what is allowed, and something in between works.
    have hmono : Monotone fun gas ↦ decide (ceiling args < gas) := by
      intro gas gas' hle
      rw [Bool.le_iff_imp]
      simp only [decide_eq_true_eq]
      omega
    have hcorrect := hcorrect fun gas ↦ decide (ceiling args < gas)
    have hallowed : ceiling args + 1 ≤ allowance args := by
      rw [allowance, if_pos ((by decide : txGas ≤ 2 ^ 63).trans (not_le.mp hgas).le)]
      omega
    obtain ⟨fuel, result, hresult⟩ := hcorrect.terminates
    cases result with
    | error error =>
      have hnone := (hcorrect.refused_iff hmono hcode fuel _ hresult).mp ⟨error, rfl⟩
      have hworks := hnone (ceiling args + 1) hallowed
      simp at hworks
    | ok gas =>
      have habove := (hcorrect.minimal hmono hcode fuel gas hresult).1.2
      rw [decide_eq_true_eq] at habove
      rw [estimateWith_of_code hcode, Option.map_eq_some_iff] at hresult
      obtain ⟨hi, hfound, hresult⟩ := hresult
      obtain ⟨low, hnarrowed, -⟩ := narrowed_of_search hmono
        (Bisection.narrowed_start _ (floor_lt_ceiling args)) (not_lt.mp hcap) hfound
      split_ifs at hresult
      cases hresult
      exact absurd habove (not_lt.mpr hnarrowed.le)

/-- The search ends, and an estimate is minimal, whatever the test is, exactly when the gas is at
most `2 ^ 63` or the call needs no search. -/
theorem estimateWith_correct_iff (env : Environment) (b : EthApiBackend) (state : StateDB)
    (args : CallArgs) :
    (∀ executable, Correct executable env b state args) ↔
      codeless state args = true ∨ args.gas ≤ 2 ^ 63 := by
  constructor
  · intro hcorrect
    cases hcode : codeless state args with
    | true => exact .inl rfl
    | false => exact .inr (le_of_correct hcode hcorrect)
  · intro hcase executable
    cases hcode : codeless state args with
    | true => exact correct_of_codeless hcode
    | false =>
      rw [hcode] at hcase
      exact correct_of_le hcode (hcase.resolve_left Bool.false_ne_true)

/-- A creation with the largest gas that fits into 64 bits: nothing works, and no number of turns
is enough. -/
theorem estimateWith_diverges :
    estimateWith (fun _ ↦ false) (sampleEnvironment 7 stopInterpreter) ⟨sampleHeader 9, none⟩
      (some (StateDB.new fun _ ↦ none)) ⟨1, none, 2 ^ 64 - 1, 0, 0, [], 0⟩ = fun _ ↦ none := by
  funext fuel
  have hcode : codeless (StateDB.new fun _ ↦ none) ⟨1, none, 2 ^ 64 - 1, 0, 0, [], 0⟩ = false := rfl
  rw [estimateWith_of_code hcode, search_of_never (fun _ _ ↦ rfl) (by decide) (by decide)]
  rfl

/-! ## What a working gas pays -/

/-- The code that a message runs, which decides whether the fee is due. -/
def feeCode (state : StateDB) (recipient : Option Address) (data : Bytes) : Bytes :=
  match recipient with
  | none => data
  | some recipient => state.getCode recipient

section Paid

variable {evm : EVM} {config : ChainConfig} {msg : Message}

/-- A transition without an error and without a failure of the machine. -/
theorem executed_of_transitionDb (herr : (transitionDb evm config state msg).err = none)
    (hvmerr : (transitionDb evm config state msg).vmerr = none) :
    (executed evm config state msg).err = none := by
  by_cases hpays : PaysGas state msg
  · rcases lt_or_ge msg.gas (messageGas evm config msg) with hlow | hhigh
    · rw [transitionDb_of_lt_intrinsic hpays hlow] at herr
      cases herr
    · rw [transitionDb_of_intrinsic_le hpays hhigh] at hvmerr
      split_ifs at hvmerr with hrefused
      · rw [hrefused] at hvmerr
        cases hvmerr
      · exact hvmerr
  · obtain ⟨error, hresult⟩ := transitionDb_of_not_paysGas evm config hpays
    rw [hresult] at herr
    cases herr

theorem getCode_bought (state : StateDB) (msg : Message) (sender recipient observed : Address) :
    (ensureAccount (bumpNonce (bought state msg) sender) recipient).getCode observed =
      state.getCode observed := by
  calc (ensureAccount (bumpNonce (bought state msg) sender) recipient).getCode observed
      = ((bumpNonce (bought state msg) sender).standing observed).code := by
        rw [← standing_ensureAccount _ recipient]
        rfl
    _ = ((bought state msg).standing observed).code := (code_bumpNonce _ _ _).1
    _ = state.getCode observed := by
        rw [standing_bought]
        rfl

theorem totalFee_le_of_createContract {caller address : Address} {code : Bytes} {gas value : ℕ}
    (herr : (createContract evm state caller address code gas value).err = none) :
    totalFee evm code value ≤ gas := by
  unfold createContract at herr
  dsimp only at herr
  split_ifs at herr with hused hunpaid
  · exact not_lt.mp hunpaid
  · exact not_lt.mp hunpaid

theorem totalFee_le_of_callContract {snapshot : StateDB} {caller address : Address} {input : Bytes}
    {gas value : ℕ}
    (herr : (callContract evm snapshot state caller address input gas value).err = none) :
    totalFee evm (state.getCode address) value ≤ gas := by
  unfold callContract at herr
  dsimp only at herr
  split_ifs at herr with hunpaid
  exact not_lt.mp hunpaid

theorem totalFee_le_of_executed (hdepth : evm.depth = 0)
    (herr : (executed evm config state msg).err = none) :
    totalFee evm (feeCode state msg.recipient msg.data) msg.value ≤ msg.gas := by
  have hcovered : (msg.value : ℤ) ≤ (bought state msg).getBalance msg.sender := by
    by_contra hshort
    rw [getBalance_bought] at hshort
    have hrefused : (executed evm config state msg).err = some .insufficientBalance :=
      (executed_insufficientBalance_iff hdepth).mpr (by omega)
    rw [herr] at hrefused
    cases hrefused
  unfold executed at herr
  cases hrecipient : msg.recipient with
  | none =>
    rw [execute_of_none hdepth hcovered hrecipient] at herr
    exact (totalFee_le_of_createContract herr).trans (Nat.sub_le _ _)
  | some recipient =>
    rw [execute_of_some hdepth hcovered hrecipient] at herr
    have hfee := totalFee_le_of_callContract herr
    rw [getCode_bought] at hfee
    exact hfee.trans (Nat.sub_le _ _)

end Paid

theorem feeCode_setBalance (state : StateDB) (address : Address) (amount : ℤ)
    (recipient : Option Address) (data : Bytes) :
    feeCode (state.setBalance address amount) recipient data = feeCode state recipient data := by
  cases recipient with
  | none => rfl
  | some recipient =>
    exact congrArg (fun standing ↦ (standing recipient).code) (StateDB.standing_setBalance amount)

/-- A gas that works pays the fee of the new rule. No gas at all stands for the default. -/
theorem calNewFee_le_of_executable {gas : ℕ} (hgas : gas ≠ 0)
    (hworks : Estimation.executable env b state args gas = true)
    (hrule : newFeeRule env b = true) (hcode : feeCode state args.recipient args.data ≠ [])
    (hvalue : 0 < args.value) : calNewFee args.value ≤ gas := by
  simp only [Estimation.executable, Bool.and_eq_true, Option.isNone_iff_eq_none] at hworks
  have hfee := totalFee_le_of_executed rfl (executed_of_transitionDb hworks.1 hworks.2)
  dsimp only at hfee
  rw [if_neg hgas, feeCode_setBalance] at hfee
  simp only [newFeeRule, Bool.and_eq_true, decide_eq_true_eq] at hrule
  have hupdate (msg : Message) : isFeeUpdate
      (({ env with vmConfig := ⟨false, env.vmConfig.feeUpdateTime⟩ }).evm b.header msg)
      (feeCode state args.recipient args.data) args.value = true := by
    simp only [isFeeUpdate, Bool.and_eq_true, decide_eq_true_eq]
    exact ⟨⟨⟨hrule.2, hrule.1⟩, List.length_pos_iff.mpr hcode⟩, hvalue⟩
  rw [totalFee, if_pos (hupdate _)] at hfee
  exact hfee

theorem executable_of_search {lo hi found : ℕ}
    (hfound : search executable fuel lo hi = some found) :
    found = hi ∨ executable found = true := by
  induction fuel generalizing lo hi with
  | zero => cases hfound
  | succ fuel ih =>
    rw [search] at hfound
    dsimp only at hfound
    split_ifs at hfound with hapart hmid
    · exact ih hfound
    · refine .inr ((ih hfound).elim (fun heq ↦ ?_) id)
      rw [heq]
      simpa using hmid
    · cases hfound
      exact .inl rfl

theorem search_lt {lo hi found : ℕ} (hhi : hi < 2 ^ 64)
    (hfound : search executable fuel lo hi = some found) : found < 2 ^ 64 := by
  induction fuel generalizing lo hi with
  | zero => cases hfound
  | succ fuel ih =>
    rw [search] at hfound
    dsimp only at hfound
    split_ifs at hfound
    · exact ih hhi hfound
    · exact ih (by omega) hfound
    · cases hfound
      exact hhi

/-- An estimate for a call of code or a creation works, and has 64 bits. -/
theorem executable_of_estimateWith {gas : ℕ} (hcode : codeless state args = false)
    (hestimate : estimateWith executable env b (some state) args fuel = some (.ok gas)) :
    executable gas = true ∧ gas < 2 ^ 64 := by
  have hceiling : ceiling args < 2 ^ 64 := by
    unfold ceiling
    split_ifs
    · exact Nat.mod_lt _ (by decide)
    · decide
  rw [estimateWith_of_code hcode, Option.map_eq_some_iff] at hestimate
  obtain ⟨hi, hfound, hresult⟩ := hestimate
  split_ifs at hresult with hrefused
  cases hresult
  refine ⟨?_, search_lt hceiling hfound⟩
  cases executable_of_search hfound with
  | inl hcap => simpa [hcap] using hrefused
  | inr hworks => exact hworks

end LkChain.Ethereum.Estimation
