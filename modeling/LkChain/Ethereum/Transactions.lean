import LkChain.Ethereum.State

/-!
# Ethereum transactions, signers and fees

The transaction record and the sender recovery of `core/types/transaction.go` and
`core/types/transaction_signing.go`, the fork schedule of `params/config.go`, and the proportional
fee of `common/lkfee.go`. RLP and `hexutil.Big` decode non-negative integers only, so the numeric
fields of a decoded transaction are natural numbers.

The elliptic-curve recovery and the signature hashes are parameters, collected in `Recovery`.
-/

namespace LkChain.Ethereum.Transactions

open State

/-- A decoded transaction. -/
structure Transaction where
  accountNonce : ℕ
  price : ℕ
  gasLimit : ℕ
  recipient : Option Address
  amount : ℕ
  payload : Bytes
  v : ℕ
  r : ℕ
  s : ℕ
deriving DecidableEq

/-- `Cost`: amount + gasprice * gaslimit. -/
def Transaction.cost (tx : Transaction) : ℕ := tx.price * tx.gasLimit + tx.amount

/-! ## Fork schedule -/

structure ChainConfig where
  chainId : Option ℕ
  homesteadBlock : Option ℕ
  eip155Block : Option ℕ
  eip158Block : Option ℕ
  byzantiumBlock : Option ℕ

def isForked (fork : Option ℕ) (head : ℕ) : Bool :=
  match fork with
  | none => false
  | some start => start ≤ head

namespace ChainConfig

variable (config : ChainConfig) (number : ℕ)

def isHomestead : Bool := isForked config.homesteadBlock number

def isEIP155 : Bool := isForked config.eip155Block number

def isEIP158 : Bool := isForked config.eip158Block number

def isByzantium : Bool := isForked config.byzantiumBlock number

end ChainConfig

/-! ## Signers -/

inductive Signer where
  | frontier
  | homestead
  | eip155 (chainId : ℕ)
deriving DecidableEq

inductive SenderError where
  | invalidSig
  | invalidChainId
  | recoveryFailed
deriving DecidableEq, Repr

/-- `MakeSigner`: the signer a block of the given number uses. -/
def makeSigner (config : ChainConfig) (number : ℕ) : Signer :=
  if config.isEIP155 number then .eip155 (config.chainId.getD 0)
  else if config.isHomestead number then .homestead
  else .frontier

/-- `isProtectedV`: every V other than 27 and 28 counts as replay protected. -/
def isProtectedV (v : ℕ) : Bool := !(v == 27 || v == 28)

/-- `deriveChainId`: up to 64 bits the subtraction wraps around. -/
def deriveChainId (v : ℕ) : ℕ :=
  if v < 2 ^ 64 then
    if v = 27 ∨ v = 28 then 0 else ((v + 2 ^ 64 - 35) % 2 ^ 64) / 2
  else (v - 35) / 2

namespace Transaction

def isProtected (tx : Transaction) : Bool := isProtectedV tx.v

def chainId (tx : Transaction) : ℕ := deriveChainId tx.v

end Transaction

def secp256k1N : ℕ := 0xfffffffffffffffffffffffffffffffebaaedce6af48a03bbfd25e8cd0364141

def secp256k1HalfN : ℕ := secp256k1N / 2

/-- `ValidateSignatureValues`: from Homestead on, the upper half of the S range is refused. -/
def validateSignatureValues (v r s : ℕ) (homestead : Bool) : Bool :=
  if r < 1 ∨ s < 1 then false
  else if homestead && secp256k1HalfN < s then false
  else r < secp256k1N && s < secp256k1N && (v == 0 || v == 1)

/-- The hashing and curve operations behind sender recovery: the hashes of the unsigned fields with
and without a chain id, the recovered address of a 65-byte signature, and the transaction hash. -/
structure Recovery where
  plainHash : Transaction → Hash
  chainHash : ℕ → Transaction → Hash
  ecrecover : Hash → ℕ → ℕ → ℕ → Option Address
  txHash : Transaction → Hash

variable (recovery : Recovery)

/-- `recoverPlain`. The sign of `vb` is dropped by `Uint64`, which reads the absolute value. -/
def recoverPlain (sighash : Hash) (r s : ℕ) (vb : ℤ) (homestead : Bool) :
    Except SenderError Address :=
  if 2 ^ 8 ≤ vb.natAbs then .error .invalidSig
  else
    let v := (vb.natAbs + 256 - 27) % 256
    if !validateSignatureValues v r s homestead then .error .invalidSig
    else
      match recovery.ecrecover sighash r s v with
      | none => .error .recoveryFailed
      | some address => .ok address

/-- The `Sender` method of the three signers. -/
def Signer.sender (signer : Signer) (tx : Transaction) : Except SenderError Address :=
  match signer with
  | .frontier => recoverPlain recovery (recovery.plainHash tx) tx.r tx.s tx.v false
  | .homestead => recoverPlain recovery (recovery.plainHash tx) tx.r tx.s tx.v true
  | .eip155 chainId =>
    if !tx.isProtected then recoverPlain recovery (recovery.plainHash tx) tx.r tx.s tx.v true
    else if tx.chainId ≠ chainId then .error .invalidChainId
    else recoverPlain recovery (recovery.chainHash chainId tx) tx.r tx.s
      ((tx.v : ℤ) - chainId * 2 - 8) true

/-- The signer that the mempool check and the delivery report pick from the transaction itself. -/
def ownSigner (tx : Transaction) : Signer :=
  if tx.isProtected then .eip155 tx.chainId else .frontier

/-! ## Which signers accept a transaction -/

section Senders

variable {recovery} {tx : Transaction} {address : Address}

theorem recoverPlain_ok_iff {sighash : Hash} {r s : ℕ} {vb : ℤ} {homestead : Bool} :
    recoverPlain recovery sighash r s vb homestead = .ok address ↔
      vb.natAbs < 2 ^ 8 ∧
      validateSignatureValues ((vb.natAbs + 256 - 27) % 256) r s homestead = true ∧
        recovery.ecrecover sighash r s ((vb.natAbs + 256 - 27) % 256) = some address := by
  unfold recoverPlain
  simp only
  split_ifs with hlarge hvalid
  · exact ⟨fun hok ↦ (by cases hok), fun hok ↦ absurd hok.1 (not_lt.mpr hlarge)⟩
  · refine ⟨fun hok ↦ (by cases hok), fun hok ↦ ?_⟩
    rw [hok.2.1] at hvalid
    cases hvalid
  · simp only [Bool.not_eq_true', Bool.not_eq_false] at hvalid
    simp only [hvalid, not_le.mp hlarge, true_and]
    split <;> simp_all

theorem isProtected_of_recoverPlain {sighash : Hash} {homestead : Bool}
    (hok : recoverPlain recovery sighash tx.r tx.s tx.v homestead = .ok address) :
    tx.isProtected = false := by
  obtain ⟨hsmall, hvalid, -⟩ := recoverPlain_ok_iff.mp hok
  have hv : tx.v = 27 ∨ tx.v = 28 := by
    unfold validateSignatureValues at hvalid
    split_ifs at hvalid
    simp only [Bool.and_eq_true, Bool.or_eq_true, beq_iff_eq] at hvalid
    omega
  rcases hv with hv | hv <;> simp [Transaction.isProtected, isProtectedV, hv]

/-- Whether a signer applies the Homestead bound to unprotected transactions. -/
def Signer.homesteadRules : Signer → Bool
  | .frontier => false
  | _ => true

theorem sender_of_not_isProtected (signer : Signer) (hplain : tx.isProtected = false) :
    signer.sender recovery tx =
      recoverPlain recovery (recovery.plainHash tx) tx.r tx.s tx.v signer.homesteadRules := by
  cases signer <;> simp [Signer.sender, Signer.homesteadRules, hplain]

/-- A protected transaction is accepted by the signer of its own chain only. -/
theorem sender_of_isProtected {signer : Signer} (hprotected : tx.isProtected = true)
    (hok : signer.sender recovery tx = .ok address) : signer = .eip155 tx.chainId := by
  have hplain : ∀ homestead,
      recoverPlain recovery (recovery.plainHash tx) tx.r tx.s tx.v homestead ≠ .ok address := by
    intro homestead hplain
    rw [isProtected_of_recoverPlain hplain] at hprotected
    cases hprotected
  cases signer with
  | frontier => exact absurd hok (hplain false)
  | homestead => exact absurd hok (hplain true)
  | eip155 chainId =>
    simp only [Signer.sender, hprotected, Bool.not_true, Bool.false_eq_true, if_false] at hok
    split_ifs at hok with hchain
    rw [not_not.mp hchain]

theorem exists_ecrecover_of_sender {signer : Signer}
    (hok : signer.sender recovery tx = .ok address) :
    ∃ sighash r s v, recovery.ecrecover sighash r s v = some address := by
  cases hprotected : tx.isProtected with
  | false =>
    rw [sender_of_not_isProtected _ hprotected, recoverPlain_ok_iff] at hok
    exact ⟨_, _, _, _, hok.2.2⟩
  | true =>
    have hsigner := sender_of_isProtected hprotected hok
    subst hsigner
    simp only [Signer.sender, hprotected, Bool.not_true, Bool.false_eq_true, if_false, ne_eq,
      not_true_eq_false] at hok
    exact ⟨_, _, _, _, (recoverPlain_ok_iff.mp hok).2.2⟩

/-- All signers that accept a transaction recover the same sender. -/
theorem sender_unique {signer other : Signer} {address' : Address}
    (hsigner : signer.sender recovery tx = .ok address)
    (hother : other.sender recovery tx = .ok address') : address = address' := by
  cases hprotected : tx.isProtected with
  | false =>
    rw [sender_of_not_isProtected _ hprotected, recoverPlain_ok_iff] at hsigner hother
    exact Option.some.inj (hsigner.2.2.symm.trans hother.2.2)
  | true =>
    rw [sender_of_isProtected hprotected hsigner] at hsigner
    rw [sender_of_isProtected hprotected hother] at hother
    exact Except.ok.inj (hsigner.symm.trans hother)

end Senders

/-! ## The proportional fee -/

def maxGasLimit : ℕ := 5000000000
def minGasLimit : ℕ := 500000
def everLiankeFee : ℕ := 50000
def gasToLiankeRate : ℕ := 10000000
def gasPrice : ℕ := 100000000000

/-- `CalNewFee`. The remainder is tested through its low 64 bits. -/
def calNewFee (value : ℕ) : ℕ :=
  let lianke := gasPrice * gasToLiankeRate
  let liankeCount := if (value % lianke) % 2 ^ 64 ≠ 0 then value / lianke + 1 else value / lianke
  let calFeeGas := everLiankeFee * liankeCount
  let calFeeGas := if calFeeGas < minGasLimit then minGasLimit else calFeeGas
  let calFeeGas := if maxGasLimit ≠ 0 ∧ maxGasLimit < calFeeGas then maxGasLimit else calFeeGas
  calFeeGas % 2 ^ 64

/-! ## Intrinsic gas -/

def txGas : ℕ := 21000
def txGasContractCreation : ℕ := 53000
def txDataNonZeroGas : ℕ := 68
def txDataZeroGas : ℕ := 4

/-- `IntrinsicGas`: the base price plus the price of the zero and non-zero payload bytes. -/
def intrinsicGas (data : Bytes) (contractCreation homestead : Bool) : ℕ :=
  let igas := if contractCreation && homestead then txGasContractCreation else txGas
  if 0 < data.length then
    let nz := data.countP fun byt ↦ byt ≠ 0
    igas + nz * txDataNonZeroGas + (data.length - nz) * txDataZeroGas
  else igas

/-- The Homestead price of a transaction bounds the price under any rule set. -/
theorem intrinsicGas_le_homestead (data : Bytes) (contractCreation homestead : Bool) :
    intrinsicGas data contractCreation homestead ≤ intrinsicGas data contractCreation true := by
  have hbase : (if contractCreation && homestead then txGasContractCreation else txGas) ≤
      (if contractCreation && true then txGasContractCreation else txGas) := by
    cases contractCreation <;> cases homestead <;> decide
  unfold intrinsicGas
  by_cases hdata : 0 < data.length
  · simp only [hdata, if_true]
    omega
  · simpa only [hdata, if_false] using hbase

end LkChain.Ethereum.Transactions
