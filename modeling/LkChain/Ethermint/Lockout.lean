import LkChain.Ethermint.AtMostOnce
import LkChain.Ethermint.NonceCache

/-!
# Senders that are locked out

`validateEthTx` remembers the nonces it has admitted, and nothing takes them back. A transaction
that is admitted and then refused by its delivery leaves the nonce of its sender where it was, while
admission waits for the next one. A sender whose admitted transactions are all put into blocks that
are stored is not locked out.
-/

namespace LkChain.Ethermint.Lockout

open Foundation
open Ethereum State Transactions Calls Transition Outcomes Nonces
open Pending Blocks Admission Application NonceCache
open AtMostOnce
open Validators.TxBased (Strategy newValidatorsStrategy)

section Deliveries

variable {env : Environment} {written : Bool} {w after : Work} {tx : Transaction}

theorem getNonce_of_refused {error : TxError}
    (hdelivered : deliverTx env written w tx = .ok (after, some (.transaction error))) :
    after.state.getNonce = w.state.getNonce := by
  have hdelivery := deliverTx_delivery env written w tx
  generalize deliverTx env written w tx = result at hdelivered hdelivery
  cases hdelivery with
  | invisible refused _ hview =>
    cases hdelivered
    funext observed
    unfold StateDB.getNonce
    rw [hview]
  | underpaid msg =>
    cases hdelivered
    exact getNonce_eq_of_standing (standing_bought _ _)
  | executed => cases written <;> cases hdelivered
  | overdrawn => cases hdelivered

end Deliveries

section Runs

variable {PubKey Signature NodeAddress : Type} {setup : Setup PubKey Signature NodeAddress}

theorem expectedNonce_of_validateEthTx {env : Environment} {backend : Backend} {check : CheckState}
    {tx : Transaction} {sender : Address}
    (hsender : (ownSigner tx).sender env.recovery tx = .ok sender)
    (hcode : (validateEthTx env backend check (some tx)).2.code = 0) :
    tx.accountNonce = expectedNonce check sender := by
  cases validateEthTx_cases env backend check tx with
  | inl hrefused => exact absurd hcode hrefused.2
  | inr hadmitted =>
    obtain ⟨other, hadmitted, -⟩ := hadmitted
    have hsame : other = sender := Except.ok.inj (hadmitted.sender_ok.symm.trans hsender)
    exact hsame ▸ hadmitted.nonce_eq.symm

theorem nonceMap_le_iff {chain : ChainApp} (hfiled : Filed setup chain) (sender : Address)
    (bound : ℕ) :
    chain.check.nonceMap sender ≤ bound ↔
      ∀ txBytes ∈ chain.admitted, ∀ nonce,
        senderNonce setup txBytes = some (sender, nonce) → nonce < bound := by
  constructor
  · intro hmap txBytes hadmitted nonce hread
    exact (hfiled.below txBytes hadmitted sender nonce hread).trans_le hmap
  · intro hpassed
    cases hfiled.reached sender with
    | inl hzero =>
      rw [hzero]
      exact Nat.zero_le bound
    | inr hlast =>
      obtain ⟨txBytes, hadmitted, nonce, hread, hmap⟩ := hlast
      rw [hmap]
      exact hpassed txBytes hadmitted nonce hread

/-! ### Runs with regular calls -/

/-- The step puts this transaction into the block. -/
def Puts (before after : ChainApp) (tx : Transaction) : Prop :=
  after.node.work.transactions = before.node.work.transactions ++ [tx]

/-- A transaction that is put into the block has a sender without code whose object can report, and
a block that is committed has begun. -/
structure Regular (setup : Setup PubKey Signature NodeAddress) (chain : ChainApp) (call : Call) :
    Prop where
  senders : ∀ after tx, step setup chain call = .ok after → Puts chain after tx →
    SenderExternal setup.env chain.node.work tx ∧ SenderReports setup.env chain.node.work tx
  begun : ∀ outcome, call = .commit outcome → 0 < chain.node.work.header.difficulty

/-- The run puts a transaction of the sender with at least this nonce into a block, and stores a
block after that. -/
def Settles (setup : Setup PubKey Signature NodeAddress) (start : ChainApp) (calls : List Call)
    (sender : Address) (nonce : ℕ) : Prop :=
  ∃ before call later mid after tx msg coin, calls = before ++ call :: later ∧
    Schedules.run (step setup) start before = .ok mid ∧ step setup mid call = .ok after ∧
    Puts mid after tx ∧ Carries setup.env mid.node.work.header tx msg ∧ msg.sender = sender ∧
    nonce ≤ tx.accountNonce ∧ .commit (.stored coin) ∈ later

/-- The nonce of the sender is above this one and will stay there. -/
def Passed (state : StateDB) (sender : Address) (nonce : ℕ) : Prop :=
  nonceBook.Secured state sender ∧ nonce < state.getNonce sender

theorem Passed.keeps {state after : StateDB} {sender : Address} {nonce : ℕ}
    (hpassed : Passed state sender nonce) (hkeeps : Tickets.Keeps nonceBook state after) :
    Passed after sender nonce := by
  obtain ⟨hsecured, hle⟩ := hkeeps sender hpassed.1
  exact ⟨hsecured, hpassed.2.trans_le hle⟩

variable {chain after : ChainApp} {call : Call} {sender : Address} {nonce : ℕ}

theorem worked_of_deliverTx {world : World} {written : Bool} {txBytes : String}
    (hstep : chain.deliverTx setup world written txBytes = .ok after) :
    Worked setup.env written chain.node.work after.node.work := by
  unfold ChainApp.deliverTx at hstep
  split at hstep
  next => cases hstep
  next later response hdelivered =>
    cases hstep
    exact (deliverTx_keeps hdelivered).2

theorem node_of_checkTx {world : World} {txBytes : String}
    (hstep : step setup chain (.checkTx world txBytes) = .ok after) : after.node = chain.node := by
  unfold step at hstep
  dsimp only [ChainApp.checkTx] at hstep
  simp only [Results.bind_eq_ok_iff] at hstep
  obtain ⟨_, ⟨_, -, hchecked⟩, hreturn⟩ := hstep
  cases hchecked
  cases hreturn
  rfl

theorem step_work (hstep : step setup chain call = .ok after) :
    after.node.work = chain.node.work ∨ after.node.work.transactions = [] ∨
      after.node.work.transactions = chain.node.work.transactions ∨
      ∃ written, Worked setup.env written chain.node.work after.node.work := by
  cases call with
  | checkTx world txBytes => exact .inl (by rw [node_of_checkTx hstep])
  | beginBlock =>
    cases hstep
    exact .inr (.inl rfl)
  | deliverTx world written txBytes =>
    exact .inr (.inr (.inr ⟨written, worked_of_deliverTx hstep⟩))
  | endBlock =>
    cases hstep
    exact .inl rfl
  | commit outcome =>
    unfold step ChainApp.commit at hstep
    dsimp only at hstep
    rw [Results.bind_eq_ok_iff] at hstep
    obtain ⟨node, hnode, hreturn⟩ := hstep
    cases outcome with
    | stateFails => cases hnode
    | resetFails => cases hnode
    | writeFails =>
      cases hnode
      cases hreturn
      exact .inr (.inr (.inl rfl))
    | stored =>
      cases hnode
      cases hreturn
      exact .inr (.inl rfl)

theorem exists_deliverTx_of_puts {tx : Transaction} (hstep : step setup chain call = .ok after)
    (hputs : Puts chain after tx) :
    ∃ written error, Pending.deliverTx setup.env written chain.node.work tx =
        .ok (after.node.work, error) ∧
      (⟨chain.node.work, tx, after.node.work, error⟩ : Delivered).executed = true := by
  unfold Puts at hputs
  rcases step_work hstep with hsame | hnil | hsame | ⟨written, hsame | ⟨found, error, hfound⟩⟩
  · simp [hsame] at hputs
  · simp [hnil] at hputs
  · simp [hsame] at hputs
  · simp [hsame] at hputs
  · rcases transactions_of_deliverTx hfound with hsame | ⟨happended, hexecuted⟩
    · simp [hsame] at hputs
    · obtain rfl : found = tx := by simpa [hputs] using happended.symm
      exact ⟨written, error, hfound, hexecuted⟩

theorem keeps_of_regular (hvm : LeavesExternal setup.env.vm) (hregular : Regular setup chain call)
    (hstep : step setup chain call = .ok after) :
    Tickets.Keeps nonceBook chain.node.work.state after.node.work.state := by
  cases call with
  | checkTx world txBytes =>
    rw [node_of_checkTx hstep]
    exact .refl _ _
  | beginBlock | endBlock =>
    cases hstep
    exact .refl _ _
  | deliverTx world written txBytes =>
    rcases worked_of_deliverTx hstep with hsame | ⟨tx, error, hdelivered⟩
    · rw [hsame]
      exact .refl _ _
    · exact (deliverTx_tracked hvm (hregular.senders after tx hstep) hdelivered).valid.keeps
  | commit outcome =>
    have hbegun := hregular.begun outcome rfl
    unfold step ChainApp.commit at hstep
    dsimp only at hstep
    rw [Results.bind_eq_ok_iff] at hstep
    obtain ⟨node, hnode, hreturn⟩ := hstep
    have hkeeps := commit_keeps hbegun hnode
    cases outcome <;> cases hreturn <;> exact hkeeps

/-- The transaction that a regular step puts into the block takes the nonce of its sender past its
own. -/
theorem passed_of_puts (hvm : LeavesExternal setup.env.vm) (hregular : Regular setup chain call)
    (hstep : step setup chain call = .ok after) {tx : Transaction} (hputs : Puts chain after tx)
    {msg : Message} (hmsg : Carries setup.env chain.node.work.header tx msg) :
    Passed after.node.work.state msg.sender tx.accountNonce := by
  obtain ⟨written, error, hdelivered, hexecuted⟩ := exists_deliverTx_of_puts hstep hputs
  have htracked := deliverTx_tracked hvm (hregular.senders after tx hstep) hdelivered
  have hissues := htracked.valid.issues msg.sender tx.accountNonce
    (congrArg Tickets.Entry.issued (entry_of_executed hexecuted hmsg))
  exact ⟨hissues.2.2, (Nat.lt_succ_self _).trans_eq hissues.2.1.symm⟩

/-- The head of the chain changes only with the work. -/
theorem step_currentBlock (hstep : step setup chain call = .ok after) :
    after.node.currentBlock = chain.node.currentBlock ∨
      after.node.work.state = StateDB.new after.node.currentBlock.trie := by
  cases call with
  | checkTx world txBytes => exact .inl (by rw [node_of_checkTx hstep])
  | beginBlock | endBlock =>
    cases hstep
    exact .inl rfl
  | deliverTx world written txBytes =>
    unfold step ChainApp.deliverTx at hstep
    dsimp only at hstep
    split at hstep
    next => cases hstep
    next =>
      cases hstep
      exact .inl rfl
  | commit outcome =>
    unfold step ChainApp.commit at hstep
    dsimp only at hstep
    rw [Results.bind_eq_ok_iff] at hstep
    obtain ⟨node, hnode, hreturn⟩ := hstep
    cases outcome with
    | stateFails => cases hnode
    | resetFails => cases hnode
    | writeFails =>
      cases hnode
      cases hreturn
      exact .inl rfl
    | stored =>
      cases hnode
      cases hreturn
      exact .inr rfl

variable {start final : ChainApp} {calls : List Call}

theorem lt_committedNonce_of_settles (hvm : LeavesExternal setup.env.vm)
    (hregular : ∀ mid call, Schedules.Takes (step setup) start calls mid call →
      Regular setup mid call)
    (hrun : Schedules.run (step setup) start calls = .ok final)
    (hsettles : Settles setup start calls sender nonce) : nonce < committedNonce final sender := by
  obtain ⟨before, call, later, mid, after, tx, msg, coin, rfl, hbefore, hcall, hputs, hmsg, rfl,
    hnonce, hmem⟩ := hsettles
  obtain ⟨between, rest, rfl⟩ := List.append_of_mem hmem
  have hafter : Schedules.run (step setup) start (before ++ [call]) = .ok after :=
    Schedules.run_append_eq_ok_iff.mpr
      ⟨mid, hbefore, Schedules.run_cons_eq_ok_iff.mpr ⟨after, hcall, rfl⟩⟩
  rw [List.append_cons] at hrun hregular
  obtain ⟨_, hsame, hlater⟩ := Schedules.run_append_eq_ok_iff.mp hrun
  obtain rfl := Except.ok.inj (hafter.symm.trans hsame)
  obtain ⟨ready, hbetween, hcommitted⟩ := Schedules.run_append_eq_ok_iff.mp hlater
  obtain ⟨head, hcommit, hrest⟩ := Schedules.run_cons_eq_ok_iff.mp hcommitted
  have hkeeps : ∀ mid call next, Schedules.Takes (step setup) after
      (between ++ .commit (.stored coin) :: rest) mid call → step setup mid call = .ok next →
      Tickets.Keeps nonceBook mid.node.work.state next.node.work.state :=
    fun mid call next htakes hstep ↦
      keeps_of_regular hvm (hregular mid call (htakes.append hafter)) hstep
  have hput : Passed after.node.work.state msg.sender tx.accountNonce :=
    passed_of_puts hvm (hregular mid call ⟨before, between ++ .commit (.stored coin) :: rest,
      by rw [← List.append_cons], hbefore⟩) hcall hputs hmsg
  have hready : Passed ready.node.work.state msg.sender tx.accountNonce := by
    refine Schedules.invariant_taken
      (fun chain ↦ Passed chain.node.work.state msg.sender tx.accountNonce)
      (fun mid call next htakes hpassed hstep ↦ hpassed.keeps (hkeeps mid call next ?_ hstep))
      hput hbetween
    obtain ⟨first, last, rfl, hfirst⟩ := htakes
    exact ⟨first, last ++ .commit (.stored coin) :: rest, by simp, hfirst⟩
  have hstored : Passed head.node.work.state msg.sender tx.accountNonce :=
    hready.keeps (hkeeps ready _ head ⟨between, rest, rfl, hbetween⟩ hcommit)
  -- from the stored block on the head is past the nonce as well
  have hhead : head.node.work.state = StateDB.new head.node.currentBlock.trie := by
    cases hcommit
    rfl
  have hfinal : Passed final.node.work.state msg.sender tx.accountNonce ∧
      Passed (StateDB.new final.node.currentBlock.trie) msg.sender tx.accountNonce := by
    refine Schedules.invariant_taken (fun chain ↦
        Passed chain.node.work.state msg.sender tx.accountNonce ∧
          Passed (StateDB.new chain.node.currentBlock.trie) msg.sender tx.accountNonce)
      (fun mid call next htakes hpassed hstep ↦ ?_) ⟨hstored, hhead ▸ hstored⟩ hrest
    have hone : Schedules.run (step setup) after (between ++ [.commit (.stored coin)]) =
        .ok head :=
      Schedules.run_append_eq_ok_iff.mpr
        ⟨ready, hbetween, Schedules.run_cons_eq_ok_iff.mpr ⟨head, hcommit, rfl⟩⟩
    have htaken := htakes.append hone
    rw [← List.append_cons] at htaken
    have hnext := hpassed.1.keeps (hkeeps mid call next htaken hstep)
    refine ⟨hnext, ?_⟩
    rcases step_currentBlock hstep with hblock | hopened
    · rw [hblock]
      exact hpassed.2
    · rwa [← hopened]
  exact hnonce.trans_lt hfinal.2.2

/-- After a regular run in which, for every admitted transaction of a sender, a transaction of that
sender with at least its nonce has been put into a block and a block has been stored since,
admission of the sender is at the committed nonce: that is the nonce of every transaction of the
sender that `validateEthTx` accepts. A refused delivery leaves all nonces as they are. -/
theorem not_lockedOut_of_settled (setup : Setup PubKey Signature NodeAddress)
    (hvm : LeavesExternal setup.env.vm) (node : Node) (strategy : Strategy) (calls : List Call)
    (after : ChainApp)
    (hbounded : ∀ world txBytes, Call.checkTx world txBytes ∈ calls → Bounded setup txBytes)
    (hrun : Schedules.run (step setup) (newApplication node strategy) calls = .ok after)
    (hregular : ∀ mid call, Schedules.Takes (step setup) (newApplication node strategy) calls mid
      call → Regular setup mid call)
    (sender : Address)
    (hsettled : ∀ txBytes ∈ after.admitted, ∀ nonce,
      senderNonce setup txBytes = some (sender, nonce) →
      Settles setup (newApplication node strategy) calls sender nonce) :
    expectedNonce after.check sender = committedNonce after sender ∧
    (∀ backend tx, (ownSigner tx).sender setup.env.recovery tx = .ok sender →
      (validateEthTx setup.env backend after.check (some tx)).2.code = 0 →
      tx.accountNonce = committedNonce after sender) ∧
    (∀ written w tx delivered error,
      deliverTx setup.env written w tx = .ok (delivered, some (.transaction error)) →
      delivered.state.getNonce = w.state.getNonce) := by
  have hfiled := filed_run hbounded hrun
  have hexpected : expectedNonce after.check sender = committedNonce after sender := by
    rw [hfiled.expectedNonce_eq sender, max_eq_left_iff, nonceMap_le_iff hfiled]
    exact fun txBytes hadmitted nonce hread ↦
      lt_committedNonce_of_settles hvm hregular hrun (hsettled txBytes hadmitted nonce hread)
  refine ⟨hexpected, fun backend tx hsender hcode ↦ ?_,
    fun written w tx delivered error hrefused ↦ getNonce_of_refused hrefused⟩
  rw [← hexpected]
  exact expectedNonce_of_validateEthTx hsender hcode

end Runs

/-! ## A transfer that is executed and one that is refused -/

/-- A transaction is admitted and delivered in a block that is committed. -/
def oneBlock : List Call :=
  [.checkTx sampleWorld "0x00", .beginBlock 9 10, .deliverTx sampleWorld true "0x00", .endBlock,
    .commit (.stored false)]

theorem regular_sample {txs : List Transaction} {chain : ChainApp} {call : Call}
    (hexternal : isExternal chain.node.work.state 7 = true)
    (hmark : chain.node.work.state.marks 7 ≠ .silent)
    (hbegun : ∀ outcome, call = .commit outcome → 0 < chain.node.work.header.difficulty) :
    Regular (numberedSetup txs) chain call := by
  refine ⟨fun after tx _ _ ↦ ⟨fun msg hmsg ↦ ?_, fun msg hmsg _ ↦ ?_⟩, hbegun⟩
  · rw [sender_sampleEnvironment hmsg]
    simpa [isExternal, and_assoc] using hexternal
  · rwa [sender_sampleEnvironment hmsg]

theorem not_lockedOut_legalTransfer : ∃ after,
    Schedules.run (step (numberedSetup [legalTransfer 0]))
      (newApplication richNode newValidatorsStrategy) oneBlock = .ok after ∧
    after.admitted = ["0x00"] ∧ committedNonce after 7 = 1 ∧
    expectedNonce after.check 7 = committedNonce after 7 := by
  have hread : senderNonce (numberedSetup [legalTransfer 0]) "0x00" = some (7, 0) := by rfl
  have hbounded : ∀ world txBytes, Call.checkTx world txBytes ∈ oneBlock →
      Bounded (numberedSetup [legalTransfer 0]) txBytes := by
    intro world txBytes hcall
    simp only [oneBlock, List.mem_cons, Call.checkTx.injEq, reduceCtorEq, List.not_mem_nil,
      or_false] at hcall
    rw [hcall.2]
    simp [Bounded, hread]
  have hregular : ∀ mid call, Schedules.Takes (step (numberedSetup [legalTransfer 0]))
      (newApplication richNode newValidatorsStrategy) oneBlock mid call →
      Regular (numberedSetup [legalTransfer 0]) mid call := by
    intro mid call htakes
    simp only [oneBlock, Schedules.takes_cons_iff, Schedules.not_takes_nil, and_false,
      exists_false, or_false] at htakes
    rcases htakes with ⟨rfl, rfl⟩ | ⟨_, ⟨⟩, ⟨rfl, rfl⟩ | ⟨_, ⟨⟩, ⟨rfl, rfl⟩ | ⟨_, ⟨⟩, ⟨rfl, rfl⟩ |
      ⟨_, ⟨⟩, rfl, rfl⟩⟩⟩⟩ <;> refine regular_sample rfl (by decide) fun outcome hcommit ↦ ?_
    · cases hcommit
    · cases hcommit
    · cases hcommit
    · cases hcommit
    · decide
  refine ⟨_, rfl, rfl, rfl, ?_⟩
  refine (not_lockedOut_of_settled (numberedSetup [legalTransfer 0])
    (leavesExternal_stopInterpreter 7) richNode newValidatorsStrategy oneBlock _ hbounded rfl
    hregular 7 ?_).1
  intro txBytes hadmitted nonce hnonce
  rw [List.mem_singleton.mp hadmitted, hread] at hnonce
  cases hnonce
  exact ⟨[.checkTx sampleWorld "0x00", .beginBlock 9 10], .deliverTx sampleWorld true "0x00",
    [.endBlock, .commit (.stored false)], _, _, legalTransfer 0, _, false, rfl, rfl, rfl, rfl, rfl,
    rfl, le_rfl, by simp⟩

/-- A transfer signed for another chain is admitted; its delivery is refused. The block is
committed, and admission waits for nonce 1 while the chain is at nonce 0. -/
theorem lockedOut_foreignTransfer : ∃ after,
    Schedules.run (step (numberedSetup [foreignTransfer]))
      (newApplication richNode newValidatorsStrategy) oneBlock = .ok after ∧
    after.admitted = ["0x00"] ∧ senderNonce (numberedSetup [foreignTransfer]) "0x00" = some (7, 0) ∧
    after.node.currentBlock.header.number = 1 ∧
    expectedNonce after.check 7 = 1 ∧ committedNonce after 7 = 0 :=
  ⟨_, rfl, rfl, rfl, rfl, rfl, rfl⟩

end LkChain.Ethermint.Lockout
