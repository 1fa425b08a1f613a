import LkChain.Ethermint.Application
import LkChain.Ethermint.Blocks
import LkChain.Foundation.Schedules

/-!
# The nonces that admission hands out

`validateEthTx` expects the larger one of two nonces: that of its copy of the state, which `Commit`
replaces, and that of a map which nothing ever resets. The run of an application is any sequence of
`CheckTx`, `BeginBlock`, `DeliverTx`, `EndBlock` and `Commit`, with the bytes that `CheckTx`
admitted on record. What `CheckTx` and `DeliverTx` see of the databases may change from one call to
the next.
-/

namespace LkChain.Ethermint.NonceCache

open Foundation
open Ethereum State Transactions Calls Transition Outcomes
open Pending Blocks Admission Application
open Validators.TxBased (Strategy)

variable {PubKey Signature NodeAddress : Type}

/-- What a call sees of the databases. -/
structure World where
  backend : Backend
  getEthTransactionGas : Hash → Except String (Option ℤ)

/-- The application in front of these databases. -/
def seen (setup : Setup PubKey Signature NodeAddress) (world : World) :
    Setup PubKey Signature NodeAddress :=
  { setup with
    backend := world.backend
    services := { setup.services with getEthTransactionGas := world.getEthTransactionGas } }

/-! ## Runs of the application -/

/-- The application with the chain that it commits to, and the bytes it has admitted. -/
structure ChainApp where
  node : Node
  check : CheckState
  strategy : Strategy
  admitted : List String

def ChainApp.app (chain : ChainApp) : EthermintApplication :=
  ⟨chain.check, chain.node.work, chain.strategy⟩

inductive Call where
  | checkTx (world : World) (txBytes : String)
  | beginBlock (coinbase : Address) (time : ℕ)
  | deliverTx (world : World) (written : Bool) (txBytes : String)
  | endBlock
  | commit (outcome : CommitOutcome)

section Step

variable (setup : Setup PubKey Signature NodeAddress)

section Deliveries

variable {setup} {written : Bool} {work : Work} {app after : EthermintApplication}

/-- The work is left alone, or an Ethereum transaction is delivered to it. -/
def Worked (env : Environment) (written : Bool) (work after : Work) : Prop :=
  after = work ∨ ∃ tx error, Pending.deliverTx env written work tx = .ok (after, error)

theorem worked_backendDeliverTx {tx : Option Transaction} {delivered : Work × Option DeliverError}
    (hdelivered : backendDeliverTx setup written work tx = .ok delivered) :
    Worked setup.env written work delivered.1 := by
  unfold backendDeliverTx at hdelivered
  split at hdelivered
  next => cases hdelivered
  next => exact .inr ⟨_, _, hdelivered⟩

theorem worked_handleLKTransaction {lkx : LKTransaction} {handled : Work × Option String}
    (hhandled : handleLKTransaction setup written work lkx = .ok handled) :
    Worked setup.env written work handled.1 := by
  unfold handleLKTransaction at hhandled
  rw [Results.bind_eq_ok_iff] at hhandled
  obtain ⟨isValid, -, hhandled⟩ := hhandled
  split_ifs at hhandled <;> rw [Results.bind_eq_ok_iff] at hhandled
  · obtain ⟨delivered, hdelivered, hreturn⟩ := hhandled
    cases hreturn
    unfold deliverEthTransaction at hdelivered
    split at hdelivered
    next => cases hdelivered
    next =>
      simp only [Results.bind_eq_ok_iff] at hdelivered
      obtain ⟨_, hwork, _, -, hsame⟩ := hdelivered
      cases hsame
      exact worked_backendDeliverTx hwork
  · obtain ⟨_, -, hreturn⟩ := hhandled
    cases hreturn
    exact .inl rfl
  · obtain ⟨_, -, hreturn⟩ := hhandled
    cases hreturn
    exact .inl rfl

theorem deliverEnvelope_keeps {etherTx : EtherTx} {response : Response}
    (hdelivered : deliverEnvelope setup written app etherTx = .ok (after, response)) :
    after.check = app.check ∧ Worked setup.env written app.work after.work := by
  unfold deliverEnvelope at hdelivered
  split_ifs at hdelivered
  · split at hdelivered
    next =>
      cases hdelivered
      exact ⟨rfl, .inl rfl⟩
    next =>
      rw [Results.bind_eq_ok_iff] at hdelivered
      obtain ⟨delivered, hwork, hreturn⟩ := hdelivered
      cases hreturn
      exact ⟨rfl, worked_backendDeliverTx hwork⟩
  · cases hdelivered
    exact ⟨rfl, .inl rfl⟩
  · split at hdelivered
    next =>
      cases hdelivered
      exact ⟨rfl, .inl rfl⟩
    next =>
      split_ifs at hdelivered
      · rw [Results.bind_eq_ok_iff] at hdelivered
        obtain ⟨handled, hhandled, hreturn⟩ := hdelivered
        cases hreturn
        exact ⟨rfl, worked_handleLKTransaction hhandled⟩
      · cases hdelivered
        exact ⟨rfl, .inl rfl⟩
  · cases hdelivered
    exact ⟨rfl, .inl rfl⟩

theorem deliverTx_keeps {txBytes : String} {response : Response}
    (hdelivered : Application.deliverTx setup written app txBytes = .ok (after, response)) :
    after.check = app.check ∧ Worked setup.env written app.work after.work := by
  unfold Application.deliverTx at hdelivered
  split at hdelivered
  next =>
    cases hdelivered
    exact ⟨rfl, .inl rfl⟩
  next => exact deliverEnvelope_keeps hdelivered

theorem Worked.parent_eq {env : Environment} {later : Work}
    (hworked : Worked env written work later) : later.parent = work.parent := by
  rcases hworked with rfl | ⟨tx, error, hdelivered⟩
  · rfl
  · exact deliverTx_parent hdelivered

end Deliveries

/-- `CheckTx`, with the answer on record. -/
def ChainApp.checkTx (chain : ChainApp) (world : World) (txBytes : String) :
    Except Panic (ChainApp × Response) := do
  let checked ← Application.checkTx (seen setup world) chain.app txBytes
  return ({ chain with
    check := checked.1.check
    strategy := checked.1.strategy
    admitted := if checked.2.code = 0 then chain.admitted ++ [txBytes] else chain.admitted },
    checked.2)

def ChainApp.deliverTx (chain : ChainApp) (world : World) (written : Bool) (txBytes : String) :
    Except Panic ChainApp :=
  match hdelivered : Application.deliverTx (seen setup world) written chain.app txBytes with
  | .error panic => .error panic
  | .ok (after, _) =>
    .ok { chain with
      node := ⟨chain.node.currentBlock, after.work,
        (deliverTx_keeps hdelivered).2.parent_eq.trans chain.node.linked⟩
      check := after.check
      strategy := after.strategy }

/-- `Commit`. When the block has been written, the check goes on with a copy of the state at the
head of the chain; the nonce map stays. -/
def ChainApp.commit (chain : ChainApp) (outcome : CommitOutcome) : Except Panic ChainApp := do
  let node ← chain.node.commit outcome
  match outcome with
  | .stateFails | .writeFails | .resetFails => return { chain with node := node }
  | .stored _ =>
    return { chain with
      node := node
      check := ⟨StateDB.new node.currentBlock.trie, chain.check.nonceMap⟩ }

def step (chain : ChainApp) (call : Call) : Except Panic ChainApp :=
  match call with
  | .checkTx world txBytes => do
    let checked ← chain.checkTx setup world txBytes
    return checked.1
  | .beginBlock coinbase time =>
    .ok { chain with node := chain.node.beginBlock setup.env coinbase time }
  | .deliverTx world written txBytes => chain.deliverTx setup world written txBytes
  | .endBlock => .ok { chain with strategy := chain.strategy.getUpdateValidators.2 }
  | .commit outcome => chain.commit outcome

/-- `NewEthermintApplication` on a chain: the check starts from the head, without any nonces. -/
def newApplication (node : Node) (strategy : Strategy) : ChainApp :=
  ⟨node, freshCheck (StateDB.new node.currentBlock.trie), strategy, []⟩

end Step

/-! ## The transaction in the bytes -/

section Bytes

variable (setup : Setup PubKey Signature NodeAddress)

/-- The Ethereum transaction that some bytes carry, alone or in an `lk` transaction. -/
def ethTransaction (txBytes : String) : Option Transaction :=
  match readEnvelope setup txBytes with
  | .error _ => none
  | .ok etherTx =>
    if etherTx.type = "tx" then (decodeTxString setup etherTx.tx).toOption
    else if etherTx.type = lkTxType then
      match setup.services.decodeLK etherTx.tx with
      | .error _ => none
      | .ok lkx => if lkx.type = ethTxType then lkx.etx.bind EthTransaction.tx else none
    else none

/-- The sender that admission recovers, and the nonce. -/
def senderNonce (txBytes : String) : Option (Address × ℕ) :=
  (ethTransaction setup txBytes).bind fun tx ↦
    match (ownSigner tx).sender setup.env.recovery tx with
    | .ok sender => some (sender, tx.accountNonce)
    | .error _ => none

end Bytes

section Check

variable {setup : Setup PubKey Signature NodeAddress} {world : World}
  {app after : EthermintApplication} {txBytes : String} {response : Response}

theorem refused_or_ite {check : CheckState} {condition : Prop} [Decidable condition] {code : ℕ}
    {log : String} {rest accepted : CheckState × Response} (hrefuses : code ≠ 0)
    (hrest : (rest.1 = check ∧ rest.2.code ≠ 0) ∨ rest = accepted) :
    ((if condition then (check, ⟨code, log⟩) else rest).1 = check ∧
        (if condition then (check, ⟨code, log⟩) else rest).2.code ≠ 0) ∨
      (if condition then (check, ⟨code, log⟩) else rest) = accepted := by
  by_cases hcondition : condition
  · rw [if_pos hcondition]
    exact .inl ⟨rfl, hrefuses⟩
  · rw [if_neg hcondition]
    exact hrest

theorem validateFrom_cases (env : Environment) (backend : Backend) (check : CheckState)
    (tx : Transaction) (sender : Address) :
    ((validateFrom env backend check tx sender).1 = check ∧
        (validateFrom env backend check tx sender).2.code ≠ 0) ∨
      validateFrom env backend check tx sender = (check.accept sender tx, ⟨0, ""⟩) := by
  unfold validateFrom
  iterate 8 refine refused_or_ite (by decide) ?_
  exact .inr rfl

/-- What `validateEthTx` does: nothing, or it admits the transaction with the nonce it expects. -/
theorem validateEthTx_cases (env : Environment) (backend : Backend) (check : CheckState)
    (tx : Transaction) :
    (validateEthTx env backend check (some tx)).1 = check ∧
        (validateEthTx env backend check (some tx)).2.code ≠ 0 ∨
      ∃ sender, Admitted env backend check tx sender ∧
        (validateEthTx env backend check (some tx)).1 = check.accept sender tx ∧
        (validateEthTx env backend check (some tx)).2.code = 0 := by
  unfold validateEthTx
  dsimp only
  split
  next => exact .inl ⟨rfl, Nat.one_ne_zero⟩
  next =>
    split
    next => exact .inl ⟨rfl, Nat.one_ne_zero⟩
    next sender hsender =>
      cases validateFrom_cases env backend check tx sender with
      | inl hrefused => exact .inl hrefused
      | inr haccepted =>
        have hcode : (validateFrom env backend check tx sender).2.code = 0 := by rw [haccepted]
        refine .inr ⟨sender, admitted_of_validateFrom hsender hcode, ?_, hcode⟩
        rw [haccepted]

/-- What `CheckTx` does to the check state, and what its answer says about an Ethereum
transaction. -/
inductive Checks (setup : Setup PubKey Signature NodeAddress) (world : World) (check : CheckState)
    (txBytes : String) : CheckState → Response → Prop
  | kept {response : Response} :
      (response.code = 0 → senderNonce setup txBytes = none) →
      Checks setup world check txBytes check response
  | admitted {tx : Transaction} {sender : Address} {response : Response} :
      ethTransaction setup txBytes = some tx →
      Admitted setup.env world.backend check tx sender → response.code = 0 →
      Checks setup world check txBytes (check.accept sender tx) response

theorem checks_validateEthTx {check : CheckState} {tx : Transaction}
    (htx : ethTransaction setup txBytes = some tx) :
    Checks setup world check txBytes
      (validateEthTx setup.env world.backend check (some tx)).1
      (validateEthTx setup.env world.backend check (some tx)).2 := by
  cases validateEthTx_cases setup.env world.backend check tx with
  | inl hrefused =>
    rw [hrefused.1]
    exact .kept fun hcode ↦ absurd hcode hrefused.2
  | inr hadmitted =>
    obtain ⟨sender, hadmitted, hafter, hcode⟩ := hadmitted
    rw [hafter]
    exact .admitted htx hadmitted hcode

theorem checks_refused {check : CheckState} {log : String} :
    Checks setup world check txBytes check ⟨1, log⟩ :=
  .kept fun hcode ↦ absurd hcode Nat.one_ne_zero

theorem checks_checkLKTransaction {check : CheckState} {lkx : LKTransaction}
    {checked : CheckState × Response} (htype : lkx.type = ethTxType)
    (htx : ethTransaction setup txBytes = lkx.etx.bind EthTransaction.tx)
    (hchecked : checkLKTransaction (seen setup world) check lkx = .ok checked) :
    Checks setup world check txBytes checked.1 checked.2 := by
  unfold checkLKTransaction at hchecked
  rw [Results.bind_eq_ok_iff] at hchecked
  obtain ⟨isValid, -, hchecked⟩ := hchecked
  split_ifs at hchecked
  · unfold checkEthTransaction at hchecked
    rw [Results.bind_eq_ok_iff] at hchecked
    obtain ⟨hash, -, hreturn⟩ := hchecked
    split at hreturn <;> cases hreturn
    · exact checks_refused
    · exact checks_refused
    · cases hbound : lkx.etx.bind EthTransaction.tx with
      | none => exact checks_refused
      | some tx => exact checks_validateEthTx (htx.trans hbound)
  · rw [Results.bind_eq_ok_iff] at hchecked
    obtain ⟨hash, -, hreturn⟩ := hchecked
    cases hreturn
    exact checks_refused

theorem checks_checkEnvelope {etherTx : EtherTx}
    (hread : readEnvelope setup txBytes = .ok etherTx)
    (hchecked : checkEnvelope (seen setup world) app etherTx = .ok (after, response)) :
    Checks setup world app.check txBytes after.check response := by
  unfold checkEnvelope at hchecked
  split_ifs at hchecked with htx hval hpanics hlk
  · have hdecode : decodeTxString (seen setup world) etherTx.tx =
        decodeTxString setup etherTx.tx := rfl
    rw [hdecode] at hchecked
    split at hchecked <;> cases hchecked
    next => exact checks_refused
    next tx hdecoded =>
      apply checks_validateEthTx
      simp only [ethTransaction, hread, htx, if_true, hdecoded]
      rfl
  · have hnone : senderNonce setup txBytes = none := by
      simp [senderNonce, ethTransaction, hread, hval, lkTxType]
    split at hchecked <;> cases hchecked <;> exact .kept fun _ ↦ hnone
  · have hdecode : (seen setup world).services.decodeLK etherTx.tx =
        setup.services.decodeLK etherTx.tx := rfl
    rw [hdecode] at hchecked
    split at hchecked
    next =>
      cases hchecked
      exact checks_refused
    next lkx hlkx =>
      split_ifs at hchecked with htype
      · rw [Results.bind_eq_ok_iff] at hchecked
        obtain ⟨checked, hlkchecked, hreturn⟩ := hchecked
        cases hreturn
        apply checks_checkLKTransaction htype _ hlkchecked
        unfold ethTransaction
        rw [hread]
        dsimp only
        rw [if_neg htx, if_pos hlk, hlkx]
        exact if_pos htype
      · cases hchecked
        exact checks_refused
  · cases hchecked
    exact checks_refused

theorem checks_checkTx
    (hchecked : Application.checkTx (seen setup world) app txBytes = .ok (after, response)) :
    Checks setup world app.check txBytes after.check response := by
  have hread : readEnvelope (seen setup world) txBytes = readEnvelope setup txBytes := rfl
  unfold Application.checkTx at hchecked
  rw [hread] at hchecked
  split at hchecked
  next =>
    cases hchecked
    exact checks_refused
  next etherTx henvelope => exact checks_checkEnvelope henvelope hchecked

end Check

/-! ## What holds along a run -/

section Invariant

/-- The nonce of an account at the head of the chain. -/
def committedNonce (chain : ChainApp) (sender : Address) : ℕ :=
  (StateDB.new chain.node.currentBlock.trie).getNonce sender

/-- The only nonce that `validateEthTx` admits from a sender. -/
def expectedNonce (check : CheckState) (sender : Address) : ℕ :=
  max (check.checkTxState.getNonce sender) (check.nonceMap sender)

variable (setup : Setup PubKey Signature NodeAddress)

/-- The nonces of each sender strictly increase along these bytes. -/
def Ordered (bytes : List String) : Prop :=
  bytes.Pairwise fun earlier later ↦ ∀ sender nonce nonce',
    senderNonce setup earlier = some (sender, nonce) →
      senderNonce setup later = some (sender, nonce') → nonce < nonce'

/-- The nonce in the bytes can be raised. -/
def Bounded (txBytes : String) : Prop :=
  ∀ sender nonce, senderNonce setup txBytes = some (sender, nonce) → nonce < 2 ^ 64 - 1

/-- The nonce map is one ahead of what has been admitted last, and the copy of the state shows the
committed nonce or that of the map. -/
structure Filed (chain : ChainApp) : Prop where
  ordered : Ordered setup chain.admitted
  below : ∀ txBytes ∈ chain.admitted, ∀ sender nonce,
    senderNonce setup txBytes = some (sender, nonce) → nonce < chain.check.nonceMap sender
  reached : ∀ sender, chain.check.nonceMap sender = 0 ∨ ∃ txBytes ∈ chain.admitted, ∃ nonce,
    senderNonce setup txBytes = some (sender, nonce) ∧ chain.check.nonceMap sender = nonce + 1
  copied : ∀ sender, chain.check.checkTxState.getNonce sender = committedNonce chain sender ∨
    committedNonce chain sender ≤ chain.check.nonceMap sender ∧
      chain.check.checkTxState.getNonce sender = chain.check.nonceMap sender

variable {setup} {chain after : ChainApp}

theorem Filed.expectedNonce_eq (hfiled : Filed setup chain) (sender : Address) :
    expectedNonce chain.check sender =
      max (committedNonce chain sender) (chain.check.nonceMap sender) := by
  unfold expectedNonce
  cases hfiled.copied sender with
  | inl hcommitted => rw [hcommitted]
  | inr hmap => rw [hmap.2, max_self, max_eq_right hmap.1]

/-- What is not about the check or the head of the chain does not matter. -/
theorem Filed.congr (hfiled : Filed setup chain) (hcheck : after.check = chain.check)
    (hhead : after.node.currentBlock = chain.node.currentBlock)
    (hadmitted : after.admitted = chain.admitted) : Filed setup after := by
  have hcommitted : committedNonce after = committedNonce chain := by
    unfold committedNonce
    rw [hhead]
  constructor
  · rw [hadmitted]
    exact hfiled.ordered
  · rw [hadmitted, hcheck]
    exact hfiled.below
  · rw [hadmitted, hcheck]
    exact hfiled.reached
  · rw [hcheck, hcommitted]
    exact hfiled.copied

theorem senderNonce_of_admitted {world : World} {check : CheckState} {txBytes : String}
    {tx : Transaction} {sender : Address} (htx : ethTransaction setup txBytes = some tx)
    (hadmitted : Admitted setup.env world.backend check tx sender) :
    senderNonce setup txBytes = some (sender, tx.accountNonce) := by
  unfold senderNonce
  rw [htx, Option.bind_some, hadmitted.sender_ok]

theorem getNonce_setNonce (state : StateDB) (address : Address) (nonce : ℕ) :
    (state.setNonce address nonce).getNonce = Function.update state.getNonce address nonce := by
  funext observed
  unfold StateDB.getNonce
  rw [StateDB.view_setNonce]
  by_cases hsame : observed = address
  · subst hsame
    rw [Function.update_self, Function.update_self]
  · rw [Function.update_of_ne hsame, Function.update_of_ne hsame]

theorem getNonce_eq_of_standing {state other : StateDB}
    (hstanding : other.standing = state.standing) :
    other.getNonce = state.getNonce := by
  funext observed
  exact congrArg Standing.nonce (congrFun hstanding observed)

theorem getNonce_accept (check : CheckState) (sender : Address) (tx : Transaction) :
    (check.accept sender tx).checkTxState.getNonce =
      Function.update check.checkTxState.getNonce sender ((tx.accountNonce + 1) % 2 ^ 64) := by
  unfold CheckState.accept
  dsimp only
  rw [getNonce_setNonce]
  apply congrArg (Function.update · sender _)
  apply getNonce_eq_of_standing
  cases tx.recipient with
  | none => exact StateDB.standing_subBalance _
  | some recipient => rw [StateDB.standing_addBalance, StateDB.standing_subBalance]

theorem Filed.accepted (hfiled : Filed setup chain) {world : World} {txBytes : String}
    {tx : Transaction} {sender : Address} (hbounded : Bounded setup txBytes)
    (htx : ethTransaction setup txBytes = some tx)
    (hadmitted : Admitted setup.env world.backend chain.check tx sender) :
    Filed setup { chain with
      check := chain.check.accept sender tx
      admitted := chain.admitted ++ [txBytes] } := by
  have hread := senderNonce_of_admitted htx hadmitted
  have hnext : (tx.accountNonce + 1) % 2 ^ 64 = tx.accountNonce + 1 := by
    have hbound := hbounded sender tx.accountNonce hread
    omega
  have hmap : (chain.check.accept sender tx).nonceMap =
      Function.update chain.check.nonceMap sender (tx.accountNonce + 1) := by
    rw [← hnext]
    rfl
  have hnonce : tx.accountNonce = max (committedNonce chain sender)
      (chain.check.nonceMap sender) := by
    rw [← hfiled.expectedNonce_eq sender]
    exact hadmitted.nonce_eq.symm
  have hcommitted : committedNonce chain sender ≤ tx.accountNonce := hnonce ▸ le_max_left _ _
  have hcached : chain.check.nonceMap sender ≤ tx.accountNonce := hnonce ▸ le_max_right _ _
  constructor
  · apply List.pairwise_append.mpr
    refine ⟨hfiled.ordered, List.pairwise_singleton _ _, ?_⟩
    intro earlier hearlier later hlater other nonce nonce' hfirst hsecond
    rw [List.mem_singleton.mp hlater, hread] at hsecond
    cases hsecond
    exact (hfiled.below earlier hearlier _ _ hfirst).trans_le hcached
  · intro bytes hbytes other nonce hother
    show nonce < (chain.check.accept sender tx).nonceMap other
    rw [hmap]
    cases List.mem_append.mp hbytes with
    | inl hearlier =>
      have hlt := hfiled.below bytes hearlier other nonce hother
      by_cases hsame : other = sender
      · subst hsame
        rw [Function.update_self]
        omega
      · rwa [Function.update_of_ne hsame]
    | inr hlast =>
      rw [List.mem_singleton.mp hlast, hread] at hother
      cases hother
      rw [Function.update_self]
      exact Nat.lt_succ_self _
  · intro other
    show (chain.check.accept sender tx).nonceMap other = 0 ∨
      ∃ bytes ∈ chain.admitted ++ [txBytes], _
    rw [hmap]
    by_cases hsame : other = sender
    · subst hsame
      refine .inr ⟨txBytes, List.mem_append_right _ List.mem_cons_self, _, hread, ?_⟩
      rw [Function.update_self]
    · rw [Function.update_of_ne hsame]
      cases hfiled.reached other with
      | inl hzero => exact .inl hzero
      | inr hearlier =>
        obtain ⟨bytes, hbytes, hrest⟩ := hearlier
        exact .inr ⟨bytes, List.mem_append_left _ hbytes, hrest⟩
  · intro other
    show (chain.check.accept sender tx).checkTxState.getNonce other = committedNonce chain other ∨
      committedNonce chain other ≤ (chain.check.accept sender tx).nonceMap other ∧
        (chain.check.accept sender tx).checkTxState.getNonce other =
          (chain.check.accept sender tx).nonceMap other
    rw [hmap, getNonce_accept, hnext]
    by_cases hsame : other = sender
    · subst hsame
      rw [Function.update_self, Function.update_self]
      exact .inr ⟨Nat.le_succ_of_le hcommitted, rfl⟩
    · rw [Function.update_of_ne hsame, Function.update_of_ne hsame]
      exact hfiled.copied other

theorem Filed.record (hfiled : Filed setup chain) {txBytes : String}
    (hnone : senderNonce setup txBytes = none) :
    Filed setup { chain with admitted := chain.admitted ++ [txBytes] } := by
  constructor
  · apply List.pairwise_append.mpr
    refine ⟨hfiled.ordered, List.pairwise_singleton _ _, ?_⟩
    intro earlier _ later hlater sender nonce nonce' _ hsecond
    rw [List.mem_singleton.mp hlater, hnone] at hsecond
    cases hsecond
  · intro bytes hbytes sender nonce hread
    cases List.mem_append.mp hbytes with
    | inl hearlier => exact hfiled.below bytes hearlier sender nonce hread
    | inr hlast =>
      rw [List.mem_singleton.mp hlast, hnone] at hread
      cases hread
  · intro sender
    cases hfiled.reached sender with
    | inl hzero => exact .inl hzero
    | inr hearlier =>
      obtain ⟨bytes, hbytes, hrest⟩ := hearlier
      exact .inr ⟨bytes, List.mem_append_left _ hbytes, hrest⟩
  · exact hfiled.copied

theorem filed_checkTx {world : World} {txBytes : String} {response : Response}
    (hbounded : Bounded setup txBytes) (hfiled : Filed setup chain)
    (hchecked : chain.checkTx setup world txBytes = .ok (after, response)) :
    Filed setup after := by
  unfold ChainApp.checkTx at hchecked
  rw [Results.bind_eq_ok_iff] at hchecked
  obtain ⟨⟨app, answer⟩, happ, hreturn⟩ := hchecked
  cases hreturn
  have hchecks := checks_checkTx happ
  dsimp only
  generalize app.check = check at hchecks
  cases hchecks with
  | kept hnone =>
    split_ifs with hcode
    · exact (hfiled.record (hnone hcode)).congr rfl rfl rfl
    · exact hfiled.congr rfl rfl rfl
  | admitted htx hadmitted hcode =>
    rw [if_pos hcode]
    exact (hfiled.accepted hbounded htx hadmitted).congr rfl rfl rfl

theorem filed_deliverTx {world : World} {written : Bool} {txBytes : String}
    (hfiled : Filed setup chain)
    (hdelivered : chain.deliverTx setup world written txBytes = .ok after) :
    Filed setup after := by
  unfold ChainApp.deliverTx at hdelivered
  split at hdelivered
  next => cases hdelivered
  next later response happ =>
    cases hdelivered
    exact hfiled.congr (deliverTx_keeps happ).1 rfl rfl

theorem filed_commit {outcome : CommitOutcome} (hfiled : Filed setup chain)
    (hcommitted : chain.commit outcome = .ok after) : Filed setup after := by
  unfold ChainApp.commit at hcommitted
  rw [Results.bind_eq_ok_iff] at hcommitted
  obtain ⟨node, hnode, hreturn⟩ := hcommitted
  cases outcome with
  | stateFails => cases hnode
  | resetFails => cases hnode
  | writeFails =>
    cases hnode
    cases hreturn
    exact hfiled.congr rfl rfl rfl
  | stored coin =>
    cases hreturn
    exact ⟨hfiled.ordered, hfiled.below, hfiled.reached, fun sender ↦ .inl rfl⟩

theorem filed_step {call : Call}
    (hbounded : ∀ world txBytes, call = .checkTx world txBytes → Bounded setup txBytes)
    (hfiled : Filed setup chain) (hstep : step setup chain call = .ok after) :
    Filed setup after := by
  cases call with
  | checkTx world txBytes =>
    unfold step at hstep
    dsimp only at hstep
    rw [Results.bind_eq_ok_iff] at hstep
    obtain ⟨checked, hchecked, hreturn⟩ := hstep
    cases hreturn
    exact filed_checkTx (hbounded world txBytes rfl) hfiled hchecked
  | beginBlock coinbase time =>
    cases hstep
    exact hfiled.congr rfl rfl rfl
  | deliverTx world written txBytes => exact filed_deliverTx hfiled hstep
  | endBlock =>
    cases hstep
    exact hfiled.congr rfl rfl rfl
  | commit outcome => exact filed_commit hfiled hstep

theorem filed_newApplication (node : Node) (strategy : Strategy) :
    Filed setup (newApplication node strategy) where
  ordered := List.Pairwise.nil
  below _ hbytes := absurd hbytes List.not_mem_nil
  reached _ := .inl rfl
  copied _ := .inl rfl

theorem filed_run {calls : List Call} {node : Node} {strategy : Strategy}
    (hbounded : ∀ world txBytes, Call.checkTx world txBytes ∈ calls → Bounded setup txBytes)
    (hrun : Schedules.run (step setup) (newApplication node strategy) calls = .ok after) :
    Filed setup after := by
  apply Schedules.invariant (Filed setup) _ (filed_newApplication node strategy) hrun
  intro chain call next hcall hfiled hstep
  apply filed_step _ hfiled hstep
  intro world txBytes hcheck
  exact hbounded world txBytes (hcheck ▸ hcall)

end Invariant

/-! ## An application to compute with -/

/-- An application whose bytes carry these transactions by number. -/
def numberedSetup (txs : List Transaction) : Setup UInt8 UInt8 ℕ :=
  let setup := sampleSetup [⟨"tx", "0x00"⟩, ⟨"tx", "0x01"⟩] ⟨"", none, none, none, ""⟩ []
  { setup with
    services := { setup.services with
      decodeRLP := fun bytes ↦ match bytes with
        | [number] => match txs[number.toNat]? with
          | some tx => .ok tx
          | none => .error "unknown number"
        | _ => .error "not one byte" } }

/-- A transfer that admission and delivery accept. -/
def legalTransfer (nonce : ℕ) : Transaction :=
  ⟨nonce, 100000000000, 100000, some 8, 1, [], 27, 1, 1⟩

def sampleWorld : World := ⟨sampleBackend, fun _ ↦ .ok none⟩

def richTrie : Trie := fun observed ↦
  if observed = 7 then some ⟨0, 100000000000000000, [], fun _ ↦ 0⟩ else none

/-- A chain that begins with one account. -/
def richNode : Node where
  currentBlock := ⟨⟨0, 0, 0, 0, 131072⟩, 131072, richTrie⟩
  work := resetWork ⟨⟨0, 0, 0, 0, 131072⟩, 131072, richTrie⟩
  linked := rfl

end LkChain.Ethermint.NonceCache
