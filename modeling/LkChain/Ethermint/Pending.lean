import LkChain.Ethereum.Outcomes
import LkChain.Foundation.Results

/-!
# The block under construction

`work` of `ethereum/pending.go` collects the transactions of the block that is being delivered. Its
`deliverTx` takes no snapshot: what `ApplyTransaction` leaves behind stays, also when it reports an
error. After an execution the gas record is written to a database of its own, and a failed write is
reported as the error of the delivery although the transaction stays in the block.

The outcome of that write is an input of the model. The batch holds the gas record in any case, so
the write always takes place.
-/

namespace LkChain.Ethermint.Pending

open Ethereum State Transactions Calls Transition Outcomes

/-- A block in the database, with its recorded total difficulty and the state it leads to. -/
structure Block where
  header : Header
  td : ℤ
  trie : Trie

structure Work where
  header : Header
  parent : Block
  state : StateDB
  txIndex : ℕ
  transactions : List Transaction
  receipts : List Receipt
  allLogs : List Log
  totalUsedGas : ℤ

/-- Errors of a delivery: the transaction is invalid, or its gas record could not be written. -/
inductive DeliverError where
  | transaction (error : TxError)
  | gasRecord
deriving DecidableEq, Repr

/-- What a delivery leaves behind when the transaction has been executed. -/
def Work.append (w : Work) (tx : Transaction) (hash : Hash) (result : ApplyResult)
    (receipt : Receipt) : Work :=
  { w with
    state := result.state
    txIndex := w.txIndex + 1
    transactions := w.transactions ++ [tx]
    receipts := w.receipts ++ [receipt]
    allLogs := w.allLogs ++ result.state.getLogs hash
    totalUsedGas := result.usedGas }

/-- The state on which the next transaction is applied. -/
def Work.prepared (w : Work) (env : Environment) (tx : Transaction) : StateDB :=
  w.state.prepare (env.recovery.txHash tx) 0 w.txIndex

/-- `work.deliverTx`. `written` is whether the batch with the gas record reaches the database. -/
def deliverTx (env : Environment) (written : Bool) (w : Work) (tx : Transaction) :
    Except Panic (Work × Option DeliverError) :=
  match applyTransaction env (w.prepared env tx) w.header tx w.totalUsedGas with
  | .error panic => .error panic
  | .ok result =>
    match result.outcome with
    | .error error =>
      .ok ({ w with state := result.state, totalUsedGas := result.usedGas },
        some (.transaction error))
    | .ok (receipt, _) =>
      .ok (w.append tx (env.recovery.txHash tx) result receipt,
        if written then none else some .gasRecord)

section Prepared

variable {env : Environment} {w : Work} {tx : Transaction} {msg : Message}

@[simp]
theorem view_prepared : (w.prepared env tx).view = w.state.view := rfl

theorem paysGas_prepared : PaysGas (w.prepared env tx) msg ↔ PaysGas w.state msg :=
  ⟨fun h ↦ ⟨h.nonce_eq, h.gas_lt, h.cost_le⟩, fun h ↦ ⟨h.nonce_eq, h.gas_lt, h.cost_le⟩⟩

end Prepared

/-! ## Deliveries that fail -/

/-- The observable parts of the work: every account, the gas total and the block contents. An
account record that reads as empty is not observable. -/
structure SameWork (before after : Work) : Prop where
  balance : ∀ address, after.state.getBalance address = before.state.getBalance address
  nonce : ∀ address, after.state.getNonce address = before.state.getNonce address
  code : ∀ address, after.state.getCode address = before.state.getCode address
  storage : ∀ address key, after.state.getState address key = before.state.getState address key
  totalUsedGas : after.totalUsedGas = before.totalUsedGas
  txIndex : after.txIndex = before.txIndex
  transactions : after.transactions = before.transactions
  receipts : after.receipts = before.receipts

/-- The sender buys gas for a positive amount, but less gas than the message costs up front. -/
def LosesGas (env : Environment) (w : Work) (tx : Transaction) : Prop :=
  ∃ msg, Carries env w.header tx msg ∧ Underpays env w.state w.header msg ∧
    0 < msg.gas * msg.gasPrice

/-- The transaction is executed. -/
def Executes (env : Environment) (w : Work) (tx : Transaction) : Prop :=
  ∃ msg, Carries env w.header tx msg ∧ Covers env w.state w.header msg

variable {env : Environment} {written : Bool} {w : Work} {tx : Transaction}

theorem sameWork_of_view {after : StateDB} (hview : after.view = w.state.view) :
    SameWork w { w with state := after } := by
  constructor <;> intros <;>
    simp only [StateDB.getBalance, StateDB.getNonce, StateDB.getCode, StateDB.getState, hview]

/-- What `ApplyTransaction` returns for an executed message. -/
def applied (env : Environment) (w : Work) (tx : Transaction) (msg : Message) : ApplyResult :=
  recordReceipt env w.header tx msg w.totalUsedGas (gasUsed env (w.prepared env tx) w.header msg)
    (settled (env.evm w.header msg) env.config (w.prepared env tx) msg)

/-- The ends of a delivery, in terms of the work before it. -/
inductive Delivery (env : Environment) (written : Bool) (w : Work) (tx : Transaction) :
    Except Panic (Work × Option DeliverError) → Prop where
  | invisible (after : StateDB) (error : TxError) (hview : after.view = w.state.view)
      (hsteady : ∀ observed, (w.state.standing observed).nonce ≠ 0 →
        StateDB.Steady w.state after observed)
      (hinvalid : ∀ msg, Carries env w.header tx msg → ¬ PaysGas w.state msg) :
      Delivery env written w tx (.ok ({ w with state := after }, some (.transaction error)))
  | underpaid (msg : Message) (hmsg : Carries env w.header tx msg)
      (hunder : Underpays env w.state w.header msg) :
      Delivery env written w tx
        (.ok ({ w with state := bought (w.prepared env tx) msg }, some (.transaction .outOfGas)))
  | overdrawn (hover : Overdrawn env w.state w.header tx) :
      Delivery env written w tx (.error .nilDereference)
  | executed (msg : Message) (hmsg : Carries env w.header tx msg)
      (hcovers : Covers env w.state w.header msg) (receipt : Receipt) (gas : ℤ)
      (houtcome : (applied env w tx msg).outcome = .ok (receipt, gas)) :
      Delivery env written w tx
        (.ok (w.append tx (env.recovery.txHash tx) (applied env w tx msg) receipt,
          if written then none else some .gasRecord))

theorem deliverTx_delivery (env : Environment) (written : Bool) (w : Work) (tx : Transaction) :
    Delivery env written w tx (deliverTx env written w tx) := by
  unfold deliverTx
  have houtcome := applyTransaction_outcome env (w.prepared env tx) w.header tx w.totalUsedGas
  generalize applyTransaction env (w.prepared env tx) w.header tx w.totalUsedGas = result
    at houtcome
  cases houtcome with
  | unsigned error hsender =>
    refine .invisible _ _ rfl (fun _ _ ↦ ⟨rfl, .inl rfl⟩) fun msg hmsg ↦ ?_
    simp [Carries, hsender] at hmsg
  | refused msg hmsg hpays error =>
    refine .invisible _ error (view_ensureAccount _ _) (fun _ hnonce ↦ ?_) fun other hother ↦ ?_
    · have hensured := steady_ensureAccount (show
        ((w.prepared env tx).standing _).nonce ≠ 0 from hnonce) msg.sender
      exact ⟨hensured.trie, hensured.mark⟩
    rw [← hmsg.unique hother]
    exact fun h ↦ hpays (paysGas_prepared.mpr h)
  | underpaid msg hmsg hunder =>
    exact .underpaid msg hmsg ⟨paysGas_prepared.mp hunder.paysGas, hunder.intrinsic_gt⟩
  | overdrawn msg hmsg hover =>
    exact .overdrawn
      ⟨msg, hmsg, paysGas_prepared.mp hover.paysGas, hover.intrinsic_le, hover.cost_gt⟩
  | executed msg hmsg hcovers =>
    exact .executed msg hmsg
      ⟨paysGas_prepared.mp hcovers.paysGas, hcovers.intrinsic_le, hcovers.cost_le⟩ _ _ rfl

theorem deliverTx_header {after : Work} {error : Option DeliverError}
    (hdelivered : deliverTx env written w tx = .ok (after, error)) :
    after.header = w.header ∧ after.parent = w.parent := by
  have hdelivery := deliverTx_delivery env written w tx
  rw [hdelivered] at hdelivery
  cases hdelivery <;> exact ⟨rfl, rfl⟩

theorem deliverTx_parent {after : Work} {error : Option DeliverError}
    (hdelivered : deliverTx env written w tx = .ok (after, error)) : after.parent = w.parent :=
  (deliverTx_header hdelivered).2

section Exclusive

variable {msg : Message}

theorem losesGas_iff (hmsg : Carries env w.header tx msg) :
    LosesGas env w tx ↔ Underpays env w.state w.header msg ∧ 0 < msg.gas * msg.gasPrice := by
  refine ⟨?_, fun h ↦ ⟨msg, hmsg, h⟩⟩
  rintro ⟨other, hother, h⟩
  rwa [hmsg.unique hother]

theorem executes_iff (hmsg : Carries env w.header tx msg) :
    Executes env w tx ↔ Covers env w.state w.header msg := by
  refine ⟨?_, fun h ↦ ⟨msg, hmsg, h⟩⟩
  rintro ⟨other, hother, h⟩
  rwa [hmsg.unique hother]

theorem not_covers_of_underpays (hunder : Underpays env w.state w.header msg) :
    ¬ Covers env w.state w.header msg :=
  fun hcovers ↦ absurd hunder.intrinsic_gt (not_lt.mpr hcovers.intrinsic_le)

/-- Bought gas that is not used leaves a trace unless it was free. -/
theorem sameWork_bought_iff (env : Environment) (w : Work) (tx : Transaction) :
    SameWork w { w with state := bought (w.prepared env tx) msg } ↔
      ¬ 0 < msg.gas * msg.gasPrice := by
  constructor
  · intro hsame
    have hbalance : (w.prepared env tx).getBalance msg.sender -
        ((msg.gas * msg.gasPrice : ℕ) : ℤ) = w.state.getBalance msg.sender := by
      simpa only [getBalance_bought] using hsame.balance msg.sender
    have hprepared : (w.prepared env tx).getBalance = w.state.getBalance := rfl
    rw [hprepared] at hbalance
    omega
  · intro hfree
    have hzero : msg.gas * msg.gasPrice = 0 := by omega
    refine sameWork_of_view ?_
    simp [bought, hzero]

end Exclusive

/-- A delivery returns nil exactly when the transaction is executed and its gas record written. -/
theorem deliverTx_nil_iff :
    (∃ after, deliverTx env written w tx = .ok (after, none)) ↔
      written = true ∧ Executes env w tx := by
  have hdelivery := deliverTx_delivery env written w tx
  generalize deliverTx env written w tx = delivered at hdelivery
  cases hdelivery with
  | invisible left error hview hsteady hinvalid =>
    refine ⟨fun ⟨_, heq⟩ ↦ (by cases heq), ?_⟩
    rintro ⟨-, msg, hmsg, hcovers⟩
    exact absurd hcovers.paysGas (hinvalid msg hmsg)
  | underpaid msg hmsg hunder =>
    refine ⟨fun ⟨_, heq⟩ ↦ (by cases heq), fun ⟨_, hexecutes⟩ ↦ ?_⟩
    exact absurd ((executes_iff hmsg).mp hexecutes) (not_covers_of_underpays hunder)
  | overdrawn hover =>
    refine ⟨fun ⟨_, heq⟩ ↦ (by cases heq), fun ⟨_, hexecutes⟩ ↦ ?_⟩
    obtain ⟨msg, hmsg, hover⟩ := hover
    exact absurd ((executes_iff hmsg).mp hexecutes).cost_le (not_le.mpr hover.cost_gt)
  | executed msg hmsg hcovers receipt gas =>
    have hexecutes : Executes env w tx := ⟨msg, hmsg, hcovers⟩
    cases written with
    | true => exact ⟨fun _ ↦ ⟨rfl, hexecutes⟩, fun _ ↦ ⟨_, rfl⟩⟩
    | false => exact ⟨fun ⟨_, heq⟩ ↦ (by cases heq), fun ⟨hwritten, _⟩ ↦ (by cases hwritten)⟩

/-- A delivery panics exactly when the transaction overdraws its sender. -/
theorem returns_deliverTx_iff :
    Foundation.Results.Returns (deliverTx env written w tx) ↔
      ¬ Overdrawn env w.state w.header tx := by
  have hdelivery := deliverTx_delivery env written w tx
  generalize deliverTx env written w tx = delivered at hdelivery
  cases hdelivery with
  | invisible left error hview hsteady hinvalid =>
    refine ⟨fun _ hover ↦ ?_, fun _ ↦ ⟨_, rfl⟩⟩
    obtain ⟨msg, hmsg, hover⟩ := hover
    exact hinvalid msg hmsg hover.paysGas
  | underpaid msg hmsg hunder =>
    refine ⟨fun _ hover ↦ ?_, fun _ ↦ ⟨_, rfl⟩⟩
    obtain ⟨other, hother, hover⟩ := hover
    rw [← hmsg.unique hother] at hover
    exact absurd hunder.intrinsic_gt (not_lt.mpr hover.intrinsic_le)
  | overdrawn hover => simp [hover]
  | executed msg hmsg hcovers receipt gas =>
    refine ⟨fun _ hover ↦ ?_, fun _ ↦ ⟨_, rfl⟩⟩
    obtain ⟨other, hother, hover⟩ := hover
    rw [← hmsg.unique hother] at hover
    exact absurd hcovers.cost_le (not_le.mpr hover.cost_gt)

/-- A delivery that returns an error leaves the work as it was, if and only if the sender does not
lose gas that cannot pay for the message, and an executed transaction gets its gas record
written. -/
theorem deliverTx_error_sameWork_iff (env : Environment) (written : Bool) (w : Work)
    (tx : Transaction) :
    (∀ after error, deliverTx env written w tx = .ok (after, some error) → SameWork w after) ↔
      ¬ LosesGas env w tx ∧ ¬ (written = false ∧ Executes env w tx) := by
  have hdelivery := deliverTx_delivery env written w tx
  generalize deliverTx env written w tx = delivered at hdelivery
  cases hdelivery with
  | invisible left error hview hsteady hinvalid =>
    refine ⟨fun _ ↦ ⟨?_, ?_⟩, fun _ after error heq ↦ ?_⟩
    · rintro ⟨msg, hmsg, hunder, -⟩
      exact hinvalid msg hmsg hunder.paysGas
    · rintro ⟨-, msg, hmsg, hcovers⟩
      exact hinvalid msg hmsg hcovers.paysGas
    · cases heq
      exact sameWork_of_view hview
  | underpaid msg hmsg hunder =>
    have hnot := not_covers_of_underpays hunder
    simp only [losesGas_iff hmsg, executes_iff hmsg, hunder, hnot, true_and, and_false,
      not_false_eq_true, and_true, ← sameWork_bought_iff env w tx]
    refine ⟨fun h ↦ h _ _ rfl, fun hsame after error heq ↦ ?_⟩
    cases heq
    exact hsame
  | overdrawn hover =>
    obtain ⟨msg, hmsg, hover⟩ := hover
    have hcost := hover.cost_gt
    have hintrinsic := hover.intrinsic_le
    refine ⟨fun _ ↦ ⟨?_, ?_⟩, fun _ after error heq ↦ by cases heq⟩
    · rw [losesGas_iff hmsg]
      exact fun h ↦ absurd h.1.intrinsic_gt (not_lt.mpr hintrinsic)
    · rw [executes_iff hmsg]
      exact fun h ↦ absurd h.2.cost_le (not_le.mpr hcost)
  | executed msg hmsg hcovers receipt gas =>
    have hnot : ¬ LosesGas env w tx := fun h ↦
      not_covers_of_underpays ((losesGas_iff hmsg).mp h).1 hcovers
    simp only [hnot, not_false_eq_true, true_and, executes_iff hmsg, hcovers, and_true]
    cases written with
    | true => simp
    | false =>
      refine ⟨fun h ↦ ?_, fun h ↦ absurd rfl h⟩
      have hindex := (h _ _ rfl).txIndex
      simp [Work.append] at hindex

/-- A work with an empty block on the given state. -/
def emptyWork (header : Header) (state : StateDB) : Work where
  header := header
  parent := ⟨⟨0, 0, 0, 0, 0⟩, 0, fun _ ↦ none⟩
  state := state
  txIndex := 0
  transactions := []
  receipts := []
  allLogs := []
  totalUsedGas := 0

/-- A transfer with ten units of gas is answered with an error, and the ten units are gone. -/
theorem deliverTx_keeps_gas_of_rejected :
    ∃ after error,
      deliverTx (sampleEnvironment 7 stopInterpreter) true
          (emptyWork (sampleHeader 9) (soleAccount 7 10)) (sampleTransfer 8 1 10 0) =
        .ok (after, some error) ∧
      (emptyWork (sampleHeader 9) (soleAccount 7 10)).state.getBalance 7 = 10 ∧
      after.state.getBalance 7 = 0 :=
  ⟨_, _, rfl, rfl, rfl⟩

end LkChain.Ethermint.Pending
