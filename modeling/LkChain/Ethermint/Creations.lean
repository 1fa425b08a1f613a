import LkChain.Ethermint.AtMostOnce
import LkChain.Ethereum.Failures

/-!
# The addresses of created contracts

`ApplyTransaction` computes the address of a created contract once more for the receipt, from the
nonce and the payload of the transaction, where `Create` uses the nonce in the state and the code it
was given. The nonce test makes them the same. Along a run no two transactions have the same sender
and nonce, so no two creations have the same address as long as the addresses tell them apart.

This rests on the nonces of senders. An account with code can lose its nonce by self-destruction,
and nothing keeps such an account from being the sender of a transaction. An account whose object
cannot report any more loses it at the commit.
-/

namespace LkChain.Ethermint.Creations

open Ethereum State Transactions Transition Outcomes Nonces Pending Blocks AtMostOnce
open Calls hiding run

/-! ## One creation -/

/-- The creation that a message without recipient starts. -/
def creation (env : Environment) (state : StateDB) (header : Header) (msg : Message) :
    CreateResult :=
  create (env.evm header msg) (bought state msg) msg.sender msg.data
    (msg.gas - messageGas (env.evm header msg) env.config msg) msg.value

section Address

variable {env : Environment} {state : StateDB} {header : Header} {tx : Transaction} {msg : Message}

theorem executed_of_recipient_none (hrecipient : msg.recipient = none) :
    (executed (env.evm header msg) env.config state msg).err =
      (creation env state header msg).err := by
  unfold executed execute creation
  rw [hrecipient]

theorem stored_of_creation (herr : (creation env state header msg).err = none) :
    (creation env state header msg).contractAddr =
        env.vm.createAddress msg.sender (state.getNonce msg.sender) msg.data ∧
      (creation env state header msg).state.getCode (creation env state header msg).contractAddr =
        (creation env state header msg).ret := by
  have hexit : Failures.CreateExit (env.evm header msg) (bought state msg) msg.sender msg.data
      (msg.gas - messageGas (env.evm header msg) env.config msg) msg.value
      (creation env state header msg) := Failures.create_exit
  have hnonce : (bought state msg).getNonce msg.sender = state.getNonce msg.sender :=
    congrArg Standing.nonce (congrFun (standing_bought state msg) msg.sender)
  generalize creation env state header msg = result at hexit herr ⊢
  cases hexit with
  | guarded => cases herr
  | collision => cases herr
  | unpaid => cases herr
  | banned hbanned => exact absurd hbanned.2 (lt_irrefl 0)
  | ran frame hgas result hstore =>
    cases hstore with
    | failed => cases herr
    | lost => cases herr
    | stored =>
      refine ⟨congrArg (env.vm.createAddress msg.sender · msg.data) hnonce, ?_⟩
      simp [StateDB.getCode]

theorem creation_of_applyTransaction {usedGas : ℤ} {result : ApplyResult} {receipt : Receipt}
    {gas : ℤ} (happly : applyTransaction env state header tx usedGas = .ok result)
    (houtcome : result.outcome = .ok (receipt, gas)) :
    ∃ msg, Carries env header tx msg ∧ state.getNonce msg.sender = tx.accountNonce ∧
      result.vmerr = (executed (env.evm header msg) env.config state msg).err ∧
      receipt.contractAddress =
        if tx.recipient.isNone ∧ result.vmerr.isNone then
          some (env.vm.createAddress msg.sender tx.accountNonce tx.payload)
        else none := by
  have hcases := applyTransaction_outcome env state header tx usedGas
  rw [happly] at hcases
  cases hcases with
  | unsigned => cases houtcome
  | refused => cases houtcome
  | underpaid => cases houtcome
  | executed msg hmsg hcovers =>
    cases houtcome
    refine ⟨msg, hmsg, ?_, rfl, rfl⟩
    rw [hcovers.paysGas.nonce_eq, hmsg.eq]

end Address

/-! ## Creations along a run -/

/-- The contract address in the receipt of an executed delivery. -/
def created (delivered : Delivered) : Option Address :=
  if delivered.executed then delivered.after.receipts.getLast?.bind Receipt.contractAddress
  else none

section Runs

variable {env : Environment}

theorem exists_deliverTx_of_mem_deliverAll {deliveries : List (Transaction × Bool)} :
    ∀ {node : Node}, ∀ delivered ∈ (deliverAll env node deliveries).1, ∃ written,
      deliverTx env written delivered.before delivered.tx =
        .ok (delivered.after, delivered.error) := by
  induction deliveries with
  | nil => simp [deliverAll]
  | cons delivery rest ih =>
    intro node delivered hmem
    unfold deliverAll at hmem
    cases hdelivered : node.deliver env delivery.2 delivery.1 with
    | error panic => simp [hdelivered] at hmem
    | ok result =>
      simp only [hdelivered, List.mem_cons] at hmem
      rcases hmem with rfl | hlater
      · exact ⟨delivery.2, (deliver_eq hdelivered).1⟩
      · exact ih delivered hlater

theorem exists_deliverTx_of_mem_run {inputs : List BlockInput} :
    ∀ {node : Node}, ∀ delivered ∈ (run env node inputs).1, ∃ written,
      deliverTx env written delivered.before delivered.tx =
        .ok (delivered.after, delivered.error) := by
  induction inputs with
  | nil => simp [run]
  | cons input rest ih =>
    intro node delivered hmem
    unfold run at hmem
    dsimp only at hmem
    split at hmem
    next => exact exists_deliverTx_of_mem_deliverAll delivered hmem
    next =>
      rcases List.mem_append.mp hmem with hnow | hlater
      · exact exists_deliverTx_of_mem_deliverAll delivered hnow
      · exact ih delivered hlater

/-- The address in the receipt is that of the sender, the nonce and the payload. -/
theorem created_eq_some {delivered : Delivered} {written : Bool} {address : Address}
    (hdelivered : deliverTx env written delivered.before delivered.tx =
      .ok (delivered.after, delivered.error))
    (hcreated : created delivered = some address) :
    delivered.executed = true ∧ delivered.tx.recipient = none ∧
      ∃ msg, Carries env delivered.before.header delivered.tx msg ∧
        address =
          env.vm.createAddress msg.sender delivered.tx.accountNonce delivered.tx.payload := by
  obtain ⟨before, tx, after, error⟩ := delivered
  have hdelivery := deliverTx_delivery env written before tx
  rw [hdelivered] at hdelivery
  have hexecuted : (⟨before, tx, after, error⟩ : Delivered).executed = true := by
    by_contra hnot
    rw [created, if_neg hnot] at hcreated
    cases hcreated
  rw [created, if_pos hexecuted] at hcreated
  cases hdelivery with
  | invisible => cases hexecuted
  | underpaid => cases hexecuted
  | executed msg hmsg hcovers receipt gas houtcome =>
    cases houtcome
    simp only [List.getLast?_append, List.getLast?_singleton, Option.some_or, Option.bind_some]
      at hcreated
    split_ifs at hcreated with hcreation
    exact ⟨hexecuted, Option.isNone_iff_eq_none.mp hcreation.1, msg, hmsg,
      (Option.some.inj hcreated).symm⟩

/-- The addresses tell the creations of a list of deliveries apart. -/
def AddressesApart (env : Environment) (log : List Delivered) : Prop :=
  ∀ delivered ∈ log, ∀ other ∈ log, delivered.tx.recipient = none → other.tx.recipient = none →
    ∀ msg, Carries env delivered.before.header delivered.tx msg →
    ∀ msg', Carries env other.before.header other.tx msg' →
      env.vm.createAddress msg.sender delivered.tx.accountNonce delivered.tx.payload =
        env.vm.createAddress msg'.sender other.tx.accountNonce other.tx.payload →
      msg.sender = msg'.sender ∧ delivered.tx.accountNonce = other.tx.accountNonce ∧
        delivered.tx.payload = other.tx.payload

theorem pairwise_created (hvm : LeavesExternal env.vm) {node : Node} {inputs : List BlockInput}
    (hsenders : ∀ delivered ∈ (run env node inputs).1,
      SenderExternal env delivered.before delivered.tx ∧
        SenderReports env delivered.before delivered.tx)
    (hapart : AddressesApart env (run env node inputs).1) :
    (run env node inputs).1.Pairwise fun earlier later ↦
      ∀ address, created earlier = some address → created later ≠ some address := by
  obtain ⟨htracked, final, hrun⟩ := run_run hvm inputs node hsenders
  apply (pairwise_senderNonce htracked hrun).imp_of_mem
  intro earlier later hearlier hlater hdistinct address hcreated hagain
  obtain ⟨_, hfirst⟩ := exists_deliverTx_of_mem_run earlier hearlier
  obtain ⟨_, hsecond⟩ := exists_deliverTx_of_mem_run later hlater
  obtain ⟨hexec, hnone, msg, hmsg, haddress⟩ := created_eq_some hfirst hcreated
  obtain ⟨hexec', hnone', msg', hmsg', haddress'⟩ := created_eq_some hsecond hagain
  apply (hdistinct hexec hexec').1
  obtain ⟨hsender, hnonce, -⟩ := hapart earlier hearlier later hlater hnone hnone' msg hmsg msg'
    hmsg' (haddress.symm.trans haddress')
  rw [senderNonce_of_carries hmsg, senderNonce_of_carries hmsg', hsender, hnonce]

end Runs

/-- A block of transactions to account 9. -/
def blockOfFree (transactions : List Transaction) : BlockInput :=
  ⟨9, 10, transactions.map fun tx ↦ (tx, true), .stored false⟩

/-- Two creations of account 7. -/
def twoCreations : List BlockInput :=
  [blockOfFree [freeTransaction 7 0 none [1], freeTransaction 7 1 none [1]]]

theorem addressesApart_sample {env : Environment} (signer : Address)
    (haddress : env.vm.createAddress = fun _ nonce _ ↦ BitVec.ofNat 160 (1000 + nonce))
    {log : List Delivered}
    (hlog : log.all (fun delivered ↦ delivered.tx.recipient.isSome ||
      (decide (delivered.tx.accountNonce < 2) && delivered.tx.payload == [1] &&
        onSender env (fun _ sender ↦ sender == signer) delivered)) = true) :
    AddressesApart env log := by
  have hfields : ∀ delivered ∈ log, delivered.tx.recipient = none →
      delivered.tx.accountNonce < 2 ∧ delivered.tx.payload = [1] ∧
        onSender env (fun _ sender ↦ sender == signer) delivered = true := by
    intro delivered hmem hrecipient
    simpa [hrecipient, and_assoc] using List.all_eq_true.mp hlog delivered hmem
  intro delivered hmem other hother hrecipient hrecipient' msg hmsg msg' hmsg' hsame
  obtain ⟨hnonce, hpayload, hsender⟩ := hfields delivered hmem hrecipient
  obtain ⟨hnonce', hpayload', hsender'⟩ := hfields other hother hrecipient'
  unfold Carries at hmsg hmsg'
  simp only [onSender, hmsg, hmsg', beq_iff_eq] at hsender hsender'
  refine ⟨hsender.trans hsender'.symm, ?_, hpayload.trans hpayload'.symm⟩
  rw [haddress] at hsame
  have hnumber : (1000 + delivered.tx.accountNonce) % 2 ^ 160 =
      (1000 + other.tx.accountNonce) % 2 ^ 160 := congrArg BitVec.toNat hsame
  omega

/-- Code that starts with byte 255 self-destructs when it runs, the code of contract 5 touches
account 8 and fails, and all other code returns byte 255. -/
def destroyer (context : Context) (state : StateDB) (contract : Contract) (input : Bytes) :
    RunResult :=
  if contract.code.head? = some 255 then ⟨state.suicide contract.self, [], contract.gas, none⟩
  else if contract.code = touchingCode then toucher context state contract input
  else ⟨state, [255], contract.gas, none⟩

/-- A chain on which the account of signer 7 has code that self-destructs. -/
def destroyableNode : Node where
  currentBlock := ⟨⟨0, 0, 0, 0, 131072⟩, 131072,
    fun observed ↦ if observed = 7 then some ⟨0, 100000, [255], fun _ ↦ 0⟩ else none⟩
  work := resetWork ⟨⟨0, 0, 0, 0, 131072⟩, 131072,
    fun observed ↦ if observed = 7 then some ⟨0, 100000, [255], fun _ ↦ 0⟩ else none⟩
  linked := rfl

/-- A contract is created and destroyed, the account of its creator is destroyed, and the creation
is sent again. -/
def repeatedCreation : List BlockInput :=
  [blockOfFree [freeTransaction 7 0 none [1], freeTransaction 7 1 (some 1000) [],
    freeTransaction 7 2 (some 7) [], freeTransaction 7 0 none [1]]]

/-- Account 8 creates a contract after a touch of the account was undone. The contract is destroyed,
and the creation is sent again in the next block. -/
def forgottenCreation : List BlockInput :=
  [blockOfFree [freeTransaction 7 0 (some 5) [], freeTransaction 8 0 none [1],
    freeTransaction 7 1 (some 1000) []], blockOfFree [freeTransaction 8 0 none [1]]]

theorem leavesExternal_destroyer : LeavesExternal (signedEnvironment destroyer).vm where
  standing_eq context state contract input observed _ hself _ _ := by
    show (destroyer context state contract input).state.standing observed = state.standing observed
    unfold destroyer StateDB.suicide
    split_ifs
    · dsimp only
      split
      next object hobject => exact StateDB.standing_of_update (StateDB.view_setStateObject _) hself
      next => rfl
    · exact congrFun (StateDB.standing_addBalance 0) observed
    · rfl
  steady context state contract input observed _ _ _ hnonce := by
    show StateDB.Steady state (destroyer context state contract input).state observed
    unfold destroyer StateDB.suicide
    split_ifs
    · dsimp only
      split
      next => exact StateDB.steady_setStateObject _ _
      next => exact .refl _ _
    · exact StateDB.steady_addBalance hnonce 0
    · exact .refl _ _

end LkChain.Ethermint.Creations
