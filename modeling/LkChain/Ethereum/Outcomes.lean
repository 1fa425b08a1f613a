import LkChain.Ethereum.Transition

/-!
# The outcomes of a transaction

`ApplyTransaction` ends in one of five ways, and which one it is can be read off the state before
the transaction: the signature, the nonce and the balance of the sender decide. `Outcome` lists the
five together with the result of each, so that properties of transactions are proved by cases on it.

The gas amount of `ApplyMessage` is missing on one of the five exits: the machine has refused the
transfer and `TransitionDb` returns without an error. Adding the missing amount to the running total
is a nil dereference.
-/

namespace LkChain.Ethereum.Outcomes

open State Transactions Calls Transition

/-- The sender covers the gas and the intrinsic price but not the transferred value on top of it. -/
structure Overdraws (env : Environment) (state : StateDB) (header : Header) (msg : Message) :
    Prop where
  paysGas : PaysGas state msg
  intrinsic_le : messageGas (env.evm header msg) env.config msg ≤ msg.gas
  cost_gt : state.getBalance msg.sender < ((msg.gas * msg.gasPrice : ℕ) : ℤ) + msg.value

/-- The sender buys the gas, but less of it than the message costs before any code runs. -/
structure Underpays (env : Environment) (state : StateDB) (header : Header) (msg : Message) :
    Prop where
  paysGas : PaysGas state msg
  intrinsic_gt : msg.gas < messageGas (env.evm header msg) env.config msg

/-- The sender covers the gas, the intrinsic price and the transferred value. -/
structure Covers (env : Environment) (state : StateDB) (header : Header) (msg : Message) :
    Prop where
  paysGas : PaysGas state msg
  intrinsic_le : messageGas (env.evm header msg) env.config msg ≤ msg.gas
  cost_le : ((msg.gas * msg.gasPrice : ℕ) : ℤ) + msg.value ≤ state.getBalance msg.sender

/-- The message that the signer of the block reads from a transaction. -/
def Carries (env : Environment) (header : Header) (tx : Transaction) (msg : Message) : Prop :=
  asMessage env.recovery (makeSigner env.config header.number) tx = .ok msg

/-- The gas that an executed message is charged for. -/
def gasUsed (env : Environment) (state : StateDB) (header : Header) (msg : Message) : ℤ :=
  (msg.gas : ℤ) - unusedGas (env.evm header msg) env.config state msg

/-- The five ends of `ApplyTransaction`. -/
inductive Outcome (env : Environment) (state : StateDB) (header : Header) (tx : Transaction)
    (usedGas : ℤ) : Except Panic ApplyResult → Prop where
  | unsigned (error : SenderError)
      (hsender : asMessage env.recovery (makeSigner env.config header.number) tx = .error error) :
      Outcome env state header tx usedGas (.ok ⟨state, usedGas, none, .error (.sender error)⟩)
  | refused (msg : Message) (hmsg : Carries env header tx msg) (hpays : ¬ PaysGas state msg)
      (error : TxError) :
      Outcome env state header tx usedGas
        (.ok ⟨ensureAccount state msg.sender, usedGas, none, .error error⟩)
  | underpaid (msg : Message) (hmsg : Carries env header tx msg)
      (hunder : Underpays env state header msg) :
      Outcome env state header tx usedGas (.ok ⟨bought state msg, usedGas, none, .error .outOfGas⟩)
  | overdrawn (msg : Message) (hmsg : Carries env header tx msg)
      (hover : Overdraws env state header msg) :
      Outcome env state header tx usedGas (.error .nilDereference)
  | executed (msg : Message) (hmsg : Carries env header tx msg)
      (hcovers : Covers env state header msg) :
      Outcome env state header tx usedGas
        (.ok (recordReceipt env header tx msg usedGas (gasUsed env state header msg)
          (settled (env.evm header msg) env.config state msg)))

section

variable {env : Environment} {state : StateDB} {header : Header} {tx : Transaction} {msg : Message}

theorem Covers.value_le (hcovers : Covers env state header msg) :
    (msg.value : ℤ) ≤ (bought state msg).getBalance msg.sender := by
  have hcost := hcovers.cost_le
  rw [getBalance_bought]
  omega

theorem transitionDb_of_overdraws (hover : Overdraws env state header msg) :
    (transitionDb (env.evm header msg) env.config state msg).err = none ∧
      (transitionDb (env.evm header msg) env.config state msg).usedGas = none := by
  have hrefused : (executed (env.evm header msg) env.config state msg).err =
      some .insufficientBalance := (executed_insufficientBalance_iff rfl).mpr hover.cost_gt
  rw [transitionDb_of_intrinsic_le hover.paysGas hover.intrinsic_le, if_pos hrefused]
  exact ⟨rfl, rfl⟩

theorem transitionDb_of_covers (hcovers : Covers env state header msg) :
    transitionDb (env.evm header msg) env.config state msg =
      settled (env.evm header msg) env.config state msg := by
  have haccepted : (executed (env.evm header msg) env.config state msg).err ≠
      some .insufficientBalance := by
    rw [Ne, executed_insufficientBalance_iff rfl]
    exact not_lt.mpr hcovers.cost_le
  rw [transitionDb_of_intrinsic_le hcovers.paysGas hcovers.intrinsic_le, if_neg haccepted]

/-- A message is refused, pays too little gas, overdraws its sender, or is covered. -/
theorem message_cases (env : Environment) (state : StateDB) (header : Header) (msg : Message) :
    ¬ PaysGas state msg ∨ Underpays env state header msg ∨ Overdraws env state header msg ∨
      Covers env state header msg := by
  by_cases hpays : PaysGas state msg
  · rcases lt_or_ge msg.gas (messageGas (env.evm header msg) env.config msg) with hlow | hhigh
    · exact .inr (.inl ⟨hpays, hlow⟩)
    · rcases lt_or_ge (state.getBalance msg.sender)
        (((msg.gas * msg.gasPrice : ℕ) : ℤ) + msg.value) with hover | hcovers
      · exact .inr (.inr (.inl ⟨hpays, hhigh, hover⟩))
      · exact .inr (.inr (.inr ⟨hpays, hhigh, hcovers⟩))
  · exact .inl hpays

theorem applyTransaction_outcome (env : Environment) (state : StateDB) (header : Header)
    (tx : Transaction) (usedGas : ℤ) :
    Outcome env state header tx usedGas (applyTransaction env state header tx usedGas) := by
  unfold applyTransaction applyMessage
  cases hmsg : asMessage env.recovery (makeSigner env.config header.number) tx with
  | error error => exact .unsigned error hmsg
  | ok msg =>
    rcases message_cases env state header msg with hpays | hunder | hover | hcovers
    · obtain ⟨error, hresult⟩ :=
        transitionDb_of_not_paysGas (env.evm header msg) env.config hpays
      simp only [hresult]
      exact .refused msg hmsg hpays error
    · simp only [transitionDb_of_lt_intrinsic hunder.paysGas hunder.intrinsic_gt]
      exact .underpaid msg hmsg hunder
    · obtain ⟨herr, hgas⟩ := transitionDb_of_overdraws hover
      simp only [herr, hgas]
      exact .overdrawn msg hmsg hover
    · simp only [transitionDb_of_covers hcovers]
      exact .executed msg hmsg hcovers

theorem Carries.unique {other : Message} (hmsg : Carries env header tx msg)
    (hother : Carries env header tx other) : msg = other :=
  Except.ok.inj (hmsg.symm.trans hother)

theorem Carries.eq (hmsg : Carries env header tx msg) :
    msg = ⟨msg.sender, tx.recipient, tx.accountNonce, tx.amount, tx.gasLimit, tx.price,
      tx.payload⟩ := by
  unfold Carries asMessage at hmsg
  split at hmsg
  · cases hmsg
  · cases hmsg
    rfl

theorem Carries.sender_eq (hmsg : Carries env header tx msg) :
    (makeSigner env.config header.number).sender env.recovery tx = .ok msg.sender := by
  unfold Carries asMessage at hmsg
  split at hmsg
  · cases hmsg
  · cases hmsg
    assumption

theorem Carries.gas_eq (hmsg : Carries env header tx msg) : msg.gas = tx.gasLimit := by
  rw [hmsg.eq]

end

/-! ## When the gas amount is defined -/

/-- The transaction carries a message that overdraws its sender. -/
def Overdrawn (env : Environment) (state : StateDB) (header : Header) (tx : Transaction) : Prop :=
  ∃ msg, Carries env header tx msg ∧ Overdraws env state header msg

section

variable {env : Environment} {state : StateDB} {header : Header} {tx : Transaction} {msg : Message}

theorem applyMessage_gas_missing_iff :
    ((applyMessage (env.evm header msg) env.config state msg).err = none ∧
        (applyMessage (env.evm header msg) env.config state msg).usedGas = none) ↔
      Overdraws env state header msg := by
  unfold applyMessage
  refine ⟨fun hmissing ↦ ?_, transitionDb_of_overdraws⟩
  rcases message_cases env state header msg with hpays | hunder | hover | hcovers
  · obtain ⟨error, hresult⟩ :=
      transitionDb_of_not_paysGas (env.evm header msg) env.config hpays
    simp [hresult] at hmissing
  · simp [transitionDb_of_lt_intrinsic hunder.paysGas hunder.intrinsic_gt] at hmissing
  · exact hover
  · simp [transitionDb_of_covers hcovers, settled] at hmissing

theorem applyTransaction_of_overdraws (usedGas : ℤ) (hmsg : Carries env header tx msg)
    (hover : Overdraws env state header msg) :
    applyTransaction env state header tx usedGas = .error .nilDereference := by
  obtain ⟨herr, hgas⟩ := applyMessage_gas_missing_iff.mpr hover
  unfold Carries at hmsg
  simp only [applyTransaction, hmsg, herr, hgas]

/-- Whatever does not overdraw its sender ends with an error or with a receipt. -/
theorem applyTransaction_of_not_overdrawn (usedGas : ℤ)
    (hfine : ¬ Overdrawn env state header tx) :
    ∃ result, applyTransaction env state header tx usedGas = .ok result ∧
      ((∃ error, result.outcome = .error error) ∨
        ∃ receipt gas, result.outcome = .ok (receipt, gas) ∧ receipt.gasUsed = gas) := by
  have houtcome := applyTransaction_outcome env state header tx usedGas
  generalize applyTransaction env state header tx usedGas = applied at houtcome
  cases houtcome with
  | unsigned error => exact ⟨_, rfl, .inl ⟨_, rfl⟩⟩
  | refused msg hmsg hpays error => exact ⟨_, rfl, .inl ⟨_, rfl⟩⟩
  | underpaid msg => exact ⟨_, rfl, .inl ⟨_, rfl⟩⟩
  | overdrawn msg hmsg hover => exact absurd ⟨msg, hmsg, hover⟩ hfine
  | executed msg => exact ⟨_, rfl, .inr ⟨_, _, rfl, rfl⟩⟩

end

/-- `ApplyMessage` reports a gas amount whenever it reports no error, and `ApplyTransaction` returns
an error without a receipt or a receipt with its gas amount, if and only if the transaction does not
overdraw a sender that can pay for the gas. -/
theorem applyTransaction_defined_iff (env : Environment) (state : StateDB) (header : Header)
    (tx : Transaction) (usedGas : ℤ) :
    ((∀ msg, asMessage env.recovery (makeSigner env.config header.number) tx = .ok msg →
        (applyMessage (env.evm header msg) env.config state msg).err = none →
        (applyMessage (env.evm header msg) env.config state msg).usedGas.isSome) ∧
      ∃ result, applyTransaction env state header tx usedGas = .ok result ∧
        ((∃ error, result.outcome = .error error) ∨
          ∃ receipt gas, result.outcome = .ok (receipt, gas) ∧ receipt.gasUsed = gas)) ↔
      ¬ Overdrawn env state header tx := by
  constructor
  · rintro ⟨hdefined, -⟩ ⟨msg, hmsg, hover⟩
    obtain ⟨herr, hgas⟩ := applyMessage_gas_missing_iff.mpr hover
    have hsome := hdefined msg hmsg herr
    simp [hgas] at hsome
  · intro hfine
    refine ⟨fun msg hmsg herr ↦ ?_, applyTransaction_of_not_overdrawn usedGas hfine⟩
    by_contra hnone
    have hgas := Option.not_isSome_iff_eq_none.mp hnone
    exact hfine ⟨msg, hmsg, applyMessage_gas_missing_iff.mp ⟨herr, hgas⟩⟩

/-- A sender that owns exactly the price of the gas and transfers one more unit crashes the node. -/
theorem applyTransaction_panics_on_overdraft :
    applyTransaction (sampleEnvironment 7 stopInterpreter) (soleAccount 7 21000) (sampleHeader 9)
      (sampleTransfer 8 1 21000 1) 0 = .error .nilDereference := by
  have hover : Overdraws (sampleEnvironment 7 stopInterpreter) (soleAccount 7 21000)
      (sampleHeader 9) ⟨7, some 8, 0, 1, 21000, 1, []⟩ :=
    ⟨⟨by decide, by decide, by decide⟩, by decide, by decide⟩
  exact applyTransaction_of_overdraws 0 rfl hover

end LkChain.Ethereum.Outcomes
