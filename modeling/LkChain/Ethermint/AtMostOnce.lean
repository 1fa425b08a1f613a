import LkChain.Ethereum.Nonces
import LkChain.Ethermint.Blocks
import LkChain.Foundation.Tickets

/-!
# Transactions are executed at most once

A node runs through blocks: each begins, has transactions delivered to it, and is committed. The
pairs of sender and nonce of the executed transactions are tickets in the sense of
`Foundation.Tickets`. The nonce of an account is its counter, and an account is secured when it has
no code, has used its nonce, is not marked as self-destructed, and is dirty or stored with that
nonce. Deliveries, commits and new works keep the secured accounts.

An executed transaction secures its sender only if the object of the sender can still report. After
a touch that was undone it cannot: the new nonce is not written by the commit, and the transaction
is executed again in the next block.
-/

open LkChain.Foundation

namespace LkChain.Ethermint.AtMostOnce

open Ethereum State Transactions Calls Transition Outcomes Nonces Pending Blocks

/-! ## Runs of blocks -/

/-- A delivery that returned, with the work before and after it. -/
structure Delivered where
  before : Work
  tx : Transaction
  after : Work
  error : Option DeliverError

/-- What happens to a node between two blocks. -/
structure BlockInput where
  coinbase : Address
  time : ℕ
  deliveries : List (Transaction × Bool)
  outcome : CommitOutcome

/-- Deliver transactions one by one. There is no node any more after a panic. -/
def deliverAll (env : Environment) (node : Node) :
    List (Transaction × Bool) → List Delivered × Option Node
  | [] => ([], some node)
  | (tx, written) :: rest =>
    match node.deliver env written tx with
    | .error _ => ([], none)
    | .ok (after, error) =>
      let later := deliverAll env after rest
      (⟨node.work, tx, after.work, error⟩ :: later.1, later.2)

/-- Begin a block, deliver its transactions and commit it. -/
def runBlock (env : Environment) (node : Node) (input : BlockInput) :
    List Delivered × Option Node :=
  let delivered := deliverAll env (node.beginBlock env input.coinbase input.time) input.deliveries
  (delivered.1, delivered.2.bind fun after ↦ (after.commit input.outcome).toOption)

/-- Run through a list of blocks; the deliveries are recorded in order. -/
def run (env : Environment) (node : Node) : List BlockInput → List Delivered × Option Node
  | [] => ([], some node)
  | input :: rest =>
    let block := runBlock env node input
    match block.2 with
    | none => (block.1, none)
    | some after =>
      let later := run env after rest
      (block.1 ++ later.1, later.2)

/-! ## Deliveries as tickets -/

/-- The transaction was executed: its delivery returned nil, or only its gas record is missing. -/
def Delivered.executed (delivered : Delivered) : Bool :=
  match delivered.error with
  | some (.transaction _) => false
  | _ => true

/-- The sender that the signer of the block recovers, and the nonce of the transaction. -/
def Delivered.senderNonce (env : Environment) (delivered : Delivered) : Option (Address × ℕ) :=
  match asMessage env.recovery (makeSigner env.config delivered.before.header.number)
    delivered.tx with
  | .ok msg => some (msg.sender, delivered.tx.accountNonce)
  | .error _ => none

def Delivered.entry (env : Environment) (delivered : Delivered) :
    Tickets.Entry StateDB Address where
  before := delivered.before.state
  issued := if delivered.executed then delivered.senderNonce env else none
  after := delivered.after.state

/-- Nonces as counters of the accounts. -/
def nonceBook : Tickets.Book StateDB Address where
  next state address := state.getNonce address
  Secured state address :=
    External (state.standing address) ∧ (state.standing address).suicided = false ∧
      state.Safe address

/-- A recovered sender has no code and no self-destruct mark, and its nonce can still be raised. -/
def SenderExternal (env : Environment) (w : Work) (tx : Transaction) : Prop :=
  ∀ msg, Carries env w.header tx msg →
    w.state.getCode msg.sender = [] ∧ w.state.getNonce msg.sender + 1 < 2 ^ 64 ∧
      w.state.hasSuicided msg.sender = false

/-- The object of a recovered sender can report. -/
def SenderReports (env : Environment) (w : Work) (tx : Transaction) : Prop :=
  ∀ msg, Carries env w.header tx msg → w.state.Reports msg.sender

variable {env : Environment}

theorem keeps_of_steady {before after : StateDB} (hstanding : after.standing = before.standing)
    (hsteady : ∀ address, (before.standing address).nonce ≠ 0 →
      StateDB.Steady before after address) :
    Tickets.Keeps nonceBook before after := by
  rintro address ⟨hexternal, hmark, hsafe⟩
  have hsame := congrFun hstanding address
  refine ⟨⟨?_, ?_, hsafe.of_steady (hsteady address hexternal.nonce) hsame⟩,
    (congrArg Standing.nonce hsame).ge⟩
  · rwa [hsame]
  · rwa [hsame]

theorem external_bumpNonce_self {state : StateDB} {sender : Address}
    (hcode : state.getCode sender = []) (hbound : state.getNonce sender + 1 < 2 ^ 64) :
    External ((bumpNonce state sender).standing sender) ∧
      ((bumpNonce state sender).standing sender).nonce = state.getNonce sender + 1 := by
  have hnonce : ((bumpNonce state sender).standing sender).nonce = state.getNonce sender + 1 := by
    rw [standing_bumpNonce_self]
    exact Nat.mod_eq_of_lt hbound
  refine ⟨⟨?_, by omega⟩, hnonce⟩
  rw [standing_bumpNonce_self]
  exact hcode

theorem dirty_bumped_iff (state : StateDB) (msg : Message) :
    (bumpNonce (bought state msg) msg.sender).dirty msg.sender = true ↔
      state.Reports msg.sender := by
  unfold bumpNonce bought
  rw [StateDB.dirty_setNonce_iff, StateDB.reports_subBalance, reports_ensureAccount]

/-- What an execution leaves of an account without code whose nonce has been used. -/
def Executed (before after : StateDB) (msg : Message) : Prop :=
  ∀ observed, (before.standing observed).suicided = false →
    External ((bumpNonce before msg.sender).standing observed) →
      after.standing observed = (bumpNonce before msg.sender).standing observed ∧
        StateDB.Steady (bumpNonce (bought before msg) msg.sender) after observed

section Executions

variable {before after : StateDB} {msg : Message}

/-- The raised nonce is dirty exactly if the object of the sender could report. -/
theorem Executed.dirty_iff (hafter : Executed before after msg)
    (hmark : (before.standing msg.sender).suicided = false)
    (hexternal : External ((bumpNonce before msg.sender).standing msg.sender)) :
    after.dirty msg.sender = true ↔ before.Reports msg.sender := by
  have hchange : ((bumpNonce (bought before msg) msg.sender).marks msg.sender).change =
      (bumpNonce (bought before msg) msg.sender).marks msg.sender :=
    StateDB.marks_setNonce_change _
  rw [← dirty_bumped_iff, StateDB.dirty, StateDB.dirty]
  rcases (hafter msg.sender hmark hexternal).2.mark with hsame | hsame
  · rw [hsame]
  · rw [hsame, hchange]

/-- An executed transaction takes the ticket with the nonce of its sender. -/
theorem executed_valid (hmark : (before.standing msg.sender).suicided = false)
    (hcode : before.getCode msg.sender = []) (hbound : before.getNonce msg.sender + 1 < 2 ^ 64)
    (hreports : before.Reports msg.sender) (hafter : Executed before after msg) :
    Tickets.Entry.Valid nonceBook
      ⟨before, some (msg.sender, before.getNonce msg.sender), after⟩ := by
  obtain ⟨hexternal, hraised⟩ := external_bumpNonce_self hcode hbound
  have hstanding := (hafter msg.sender hmark hexternal).1
  have hnonce : (after.standing msg.sender).nonce = before.getNonce msg.sender + 1 := by
    rw [hstanding, hraised]
  have hsender : nonceBook.Secured after msg.sender := by
    refine ⟨by rwa [hstanding], ?_, .inl ((hafter.dirty_iff hmark hexternal).mpr hreports)⟩
    rw [hstanding, (code_bumpNonce before msg.sender msg.sender).2, hmark]
  constructor
  · rintro observed ⟨hexternal', hmark', hsafe⟩
    by_cases hsame : observed = msg.sender
    · subst hsame
      exact ⟨hsender, (Nat.le_succ _).trans_eq hnonce.symm⟩
    · have hbumped : (bumpNonce before msg.sender).standing observed = before.standing observed :=
        standing_bumpNonce_of_ne hsame
      obtain ⟨hkept, hsteady⟩ := hafter observed hmark' (by rwa [hbumped])
      rw [hbumped] at hkept
      have hpaid : StateDB.Steady before (bumpNonce (bought before msg) msg.sender) observed :=
        (steady_bought hexternal'.nonce msg).trans
          (StateDB.steady_setNonce (by rw [standing_bought]; exact hexternal'.nonce) _)
      refine ⟨⟨by rwa [hkept], by rwa [hkept], hsafe.of_steady (hpaid.trans hsteady) hkept⟩, ?_⟩
      exact (congrArg Standing.nonce hkept).ge
  · rintro _ _ ⟨⟩
    exact ⟨rfl, hnonce, hsender⟩

end Executions

theorem senderNonce_of_carries {delivered : Delivered} {msg : Message}
    (hmsg : Carries env delivered.before.header delivered.tx msg) :
    delivered.senderNonce env = some (msg.sender, delivered.tx.accountNonce) := by
  unfold Carries at hmsg
  simp only [Delivered.senderNonce, hmsg]

theorem entry_of_executed {delivered : Delivered} {msg : Message}
    (hexecuted : delivered.executed = true)
    (hmsg : Carries env delivered.before.header delivered.tx msg) :
    delivered.entry env =
      ⟨delivered.before.state, some (msg.sender, delivered.tx.accountNonce),
        delivered.after.state⟩ := by
  simp [Delivered.entry, hexecuted, senderNonce_of_carries hmsg]

/-- What is known of every delivery of a run. -/
structure Tracked (env : Environment) (delivered : Delivered) : Prop where
  valid : (delivered.entry env).Valid nonceBook
  carries : delivered.executed = true → ∃ msg, Carries env delivered.before.header delivered.tx msg

theorem applied_executed (hvm : LeavesExternal env.vm) {w : Work} {tx : Transaction}
    {msg : Message} (hcovers : Covers env w.state w.header msg) :
    Executed (w.prepared env tx) (applied env w tx msg).state msg := by
  intro observed hmark hexternal
  have hcovers' : Covers env (w.prepared env tx) w.header msg :=
    ⟨paysGas_prepared.mpr hcovers.paysGas, hcovers.intrinsic_le, hcovers.cost_le⟩
  exact recordReceipt_standing hvm hcovers' hmark hexternal tx _ _

theorem deliverTx_tracked (hvm : LeavesExternal env.vm) {w after : Work} {tx : Transaction}
    {written : Bool} {error : Option DeliverError}
    (hsender : after.transactions = w.transactions ++ [tx] →
      SenderExternal env w tx ∧ SenderReports env w tx)
    (hdelivered : deliverTx env written w tx = .ok (after, error)) :
    Tracked env ⟨w, tx, after, error⟩ := by
  have hrefused : ∀ {refused : StateDB} {refusal : TxError},
      refused.standing = w.state.standing →
      (∀ observed, (w.state.standing observed).nonce ≠ 0 →
        StateDB.Steady w.state refused observed) →
      Tracked env ⟨w, tx, { w with state := refused }, some (.transaction refusal)⟩ :=
    fun hstanding hsteady ↦
      { valid := ⟨keeps_of_steady hstanding hsteady, by simp [Delivered.entry, Delivered.executed]⟩
        carries := by simp [Delivered.executed] }
  have hdelivery := deliverTx_delivery env written w tx
  rw [hdelivered] at hdelivery
  cases hdelivery with
  | invisible refused refusal hview hsteady =>
    exact hrefused (funext fun observed ↦ by simp only [StateDB.standing, hview]) hsteady
  | underpaid msg =>
    refine hrefused (standing_bought _ _) fun observed hnonce ↦ ?_
    have hbought := steady_bought (show ((w.prepared env tx).standing observed).nonce ≠ 0
      from hnonce) msg
    exact ⟨hbought.trie, hbought.mark⟩
  | executed msg hmsg hcovers receipt gas =>
    obtain ⟨hexternal, hreports⟩ := hsender rfl
    obtain ⟨hcode, hbound, hmark⟩ := hexternal msg hmsg
    have hnonce : w.state.getNonce msg.sender = tx.accountNonce := by
      rw [hcovers.paysGas.nonce_eq, hmsg.eq]
    have hvalid : Tickets.Entry.Valid nonceBook
        ⟨w.prepared env tx, some (msg.sender, (w.prepared env tx).getNonce msg.sender),
          (applied env w tx msg).state⟩ :=
      executed_valid hmark hcode hbound (hreports msg hmsg) (applied_executed hvm hcovers)
    refine ⟨?_, fun _ ↦ ⟨msg, hmsg⟩⟩
    rw [entry_of_executed (by cases written <;> rfl) hmsg, ← hnonce]
    exact ⟨hvalid.keeps, hvalid.issues⟩

theorem transactions_of_deliverTx {w after : Work} {tx : Transaction} {written : Bool}
    {error : Option DeliverError} (hdelivered : deliverTx env written w tx = .ok (after, error)) :
    after.transactions = w.transactions ∨ after.transactions = w.transactions ++ [tx] ∧
      (⟨w, tx, after, error⟩ : Delivered).executed = true := by
  have hdelivery := deliverTx_delivery env written w tx
  rw [hdelivered] at hdelivery
  cases hdelivery with
  | invisible => exact .inl rfl
  | underpaid => exact .inl rfl
  | executed => exact .inr ⟨rfl, by cases written <;> rfl⟩

theorem deliver_eq {node after : Node} {written : Bool} {tx : Transaction}
    {error : Option DeliverError} (hdelivered : node.deliver env written tx = .ok (after, error)) :
    deliverTx env written node.work tx = .ok (after.work, error) ∧
      after.currentBlock = node.currentBlock := by
  unfold Node.deliver at hdelivered
  split at hdelivered
  · cases hdelivered
  · cases hdelivered
    exact ⟨‹_›, rfl⟩

theorem deliverAll_run (hvm : LeavesExternal env.vm) (deliveries : List (Transaction × Bool)) :
    ∀ node : Node,
      (∀ delivered ∈ (deliverAll env node deliveries).1,
        SenderExternal env delivered.before delivered.tx ∧
          SenderReports env delivered.before delivered.tx) →
      (∀ delivered ∈ (deliverAll env node deliveries).1, Tracked env delivered) ∧
      ∃ final, Tickets.Run nonceBook node.work.state
          ((deliverAll env node deliveries).1.map (Delivered.entry env)) final ∧
        ∀ after, (deliverAll env node deliveries).2 = some after →
          after.work.state = final ∧ after.work.header = node.work.header := by
  induction deliveries with
  | nil =>
    intro node _
    refine ⟨by simp [deliverAll], _, .nil _, ?_⟩
    rintro _ ⟨⟩
    exact ⟨rfl, rfl⟩
  | cons delivery rest ih =>
    obtain ⟨tx, written⟩ := delivery
    intro node hsenders
    unfold deliverAll at hsenders ⊢
    cases hdelivered : node.deliver env written tx with
    | error panic =>
      refine ⟨by simp, _, .nil _, ?_⟩
      rintro _ ⟨⟩
    | ok result =>
      obtain ⟨after, error⟩ := result
      simp only [hdelivered, List.mem_cons, forall_eq_or_imp] at hsenders ⊢
      obtain ⟨hdeliver, -⟩ := deliver_eq hdelivered
      have htracked := deliverTx_tracked hvm (fun _ ↦ hsenders.1) hdeliver
      obtain ⟨hlater, final, hrun, hfinal⟩ := ih after hsenders.2
      refine ⟨⟨htracked, hlater⟩, final, .record htracked.valid hrun, fun last hlast ↦ ?_⟩
      obtain ⟨hstate, hheader⟩ := hfinal last hlast
      exact ⟨hstate, hheader.trans (deliverTx_header hdeliver).1⟩

theorem commit_keeps {node after : Node} {outcome : CommitOutcome}
    (hdifficulty : 0 < node.work.header.difficulty) (hcommit : node.commit outcome = .ok after) :
    Tickets.Keeps nonceBook node.work.state after.work.state := by
  have hfork := standing_accountBalanceFork node.work.header.number node.work.state
  refine (keeps_of_steady hfork fun _ hnonce ↦ steady_accountBalanceFork hnonce _).trans ?_
  rintro address ⟨hexternal, hmark, hsafe⟩
  cases outcome with
  | stateFails => cases hcommit
  | resetFails => cases hcommit
  | writeFails =>
    cases hcommit
    have hstanding := StateDB.standing_committed hmark
    refine ⟨⟨?_, ?_, hsafe.committed hmark⟩, (congrArg Standing.nonce hstanding).ge⟩
    · rwa [hstanding]
    · rwa [hstanding]
  | stored coin =>
    simp only [Node.commit, reorg_block node coin hdifficulty, if_true] at hcommit
    cases hcommit
    have hstanding := hsafe.standing_new_commitTo hmark
    refine ⟨⟨?_, ?_, StateDB.safe_new _ _⟩, (congrArg Standing.nonce hstanding).ge⟩
    · exact (congrArg External hstanding).mpr hexternal
    · exact (congrArg Standing.suicided hstanding).trans hmark

theorem runBlock_run (hvm : LeavesExternal env.vm) {node : Node} {input : BlockInput}
    (hsenders : ∀ delivered ∈ (runBlock env node input).1,
      SenderExternal env delivered.before delivered.tx ∧
        SenderReports env delivered.before delivered.tx) :
    (∀ delivered ∈ (runBlock env node input).1, Tracked env delivered) ∧
    ∃ final, Tickets.Run nonceBook node.work.state
        ((runBlock env node input).1.map (Delivered.entry env)) final ∧
      ∀ after, (runBlock env node input).2 = some after →
        Tickets.Keeps nonceBook final after.work.state := by
  let begun := node.beginBlock env input.coinbase input.time
  have hdifficulty : 0 < begun.work.header.difficulty :=
    lt_of_lt_of_le (by decide)
      (minimumDifficulty_le env.config input.time node.work.parent.header)
  obtain ⟨htracked, final, hrun, hfinal⟩ :=
    deliverAll_run hvm input.deliveries begun hsenders
  refine ⟨htracked, final, hrun, ?_⟩
  intro after hafter
  obtain ⟨last, hlast, hcommitted⟩ := Option.bind_eq_some_iff.mp hafter
  obtain ⟨hstate, hheader⟩ := hfinal last hlast
  cases hcommit : last.commit input.outcome with
  | error panic =>
    rw [hcommit] at hcommitted
    cases hcommitted
  | ok found =>
    rw [hcommit] at hcommitted
    cases hcommitted
    rw [← hstate]
    rw [← hheader] at hdifficulty
    exact commit_keeps hdifficulty hcommit

theorem run_run (hvm : LeavesExternal env.vm) (inputs : List BlockInput) :
    ∀ node : Node,
      (∀ delivered ∈ (run env node inputs).1, SenderExternal env delivered.before delivered.tx ∧
        SenderReports env delivered.before delivered.tx) →
      (∀ delivered ∈ (run env node inputs).1, Tracked env delivered) ∧
      ∃ final, Tickets.Run nonceBook node.work.state
        ((run env node inputs).1.map (Delivered.entry env)) final := by
  induction inputs with
  | nil => exact fun node _ ↦ ⟨by simp [run], _, .nil _⟩
  | cons input rest ih =>
    intro node hsenders
    unfold run at hsenders ⊢
    dsimp only at hsenders ⊢
    cases hblock : (runBlock env node input).2 with
    | none =>
      rw [hblock] at hsenders
      obtain ⟨htracked, final, hrun, -⟩ := runBlock_run hvm hsenders
      exact ⟨htracked, final, hrun⟩
    | some after =>
      rw [hblock] at hsenders
      obtain ⟨hnow, hlater⟩ := List.forall_mem_append.mp hsenders
      obtain ⟨htracked, final, hrun, hend⟩ := runBlock_run hvm hnow
      obtain ⟨htracked', final', hrun'⟩ := ih after hlater
      refine ⟨List.forall_mem_append.mpr ⟨htracked, htracked'⟩, final', ?_⟩
      rw [List.map_append]
      exact hrun.append (.silent (hend after hblock) hrun')

/-! ## The run as a whole -/

/-- An account without code whose nonce the next commit keeps. -/
structure Kept (state : StateDB) (address : Address) : Prop where
  code : state.getCode address = []
  mark : state.hasSuicided address = false
  safe : state.Safe address

theorem getNonce_le_of_keeps {before after : StateDB}
    (hkeeps : Tickets.Keeps nonceBook before after) {address : Address}
    (hkept : Kept before address) : before.getNonce address ≤ after.getNonce address := by
  by_cases hzero : before.getNonce address = 0
  · rw [hzero]
    exact Nat.zero_le _
  · exact (hkeeps address ⟨⟨hkept.code, hzero⟩, hkept.mark, hkept.safe⟩).2

/-- A transaction has one sender, whatever block it is delivered in. -/
theorem senderNonce_congr {delivered other : Delivered} (hsame : delivered.tx = other.tx)
    {msg msg' : Message} (hmsg : Carries env delivered.before.header delivered.tx msg)
    (hmsg' : Carries env other.before.header other.tx msg') :
    delivered.senderNonce env = other.senderNonce env := by
  rw [senderNonce_of_carries hmsg, senderNonce_of_carries hmsg', hsame]
  rw [hsame] at hmsg
  rw [sender_unique hmsg.sender_eq hmsg'.sender_eq]

theorem pairwise_senderNonce {log : List Delivered} {before after : StateDB}
    (htracked : ∀ delivered ∈ log, Tracked env delivered)
    (hrun : Tickets.Run nonceBook before (log.map (Delivered.entry env)) after) :
    log.Pairwise fun earlier later ↦ earlier.executed = true → later.executed = true →
      earlier.senderNonce env ≠ later.senderNonce env ∧ earlier.tx ≠ later.tx := by
  have hnodup := hrun.nodup
  rw [List.filterMap_map, List.Nodup, List.pairwise_filterMap] at hnodup
  refine hnodup.imp_of_mem fun {earlier later} hearlier hlater hne hexec hexec' ↦ ?_
  obtain ⟨msg, hmsg⟩ := (htracked earlier hearlier).carries hexec
  obtain ⟨msg', hmsg'⟩ := (htracked later hlater).carries hexec'
  have hticket := hne _ (congrArg Tickets.Entry.issued (entry_of_executed hexec hmsg)) _
    (congrArg Tickets.Entry.issued (entry_of_executed hexec' hmsg'))
  have hpair : earlier.senderNonce env ≠ later.senderNonce env := by
    rw [senderNonce_of_carries hmsg, senderNonce_of_carries hmsg']
    exact fun h ↦ hticket (Option.some.inj h)
  exact ⟨hpair, fun hsame ↦ hpair (senderNonce_congr hsame hmsg hmsg')⟩

/-- What an execution and the commit after it do to the nonce of the sender. -/
theorem dirty_of_executed_iff (hvm : LeavesExternal env.vm) {w after : Work} {tx : Transaction}
    {written : Bool} {error : Option DeliverError} {msg : Message}
    (hdelivered : deliverTx env written w tx = .ok (after, error))
    (hexecuted : (⟨w, tx, after, error⟩ : Delivered).executed = true)
    (hmsg : Carries env w.header tx msg) (hsender : SenderExternal env w tx) :
    after.state.dirty msg.sender = true ↔ w.state.Reports msg.sender := by
  have hdelivery := deliverTx_delivery env written w tx
  rw [hdelivered] at hdelivery
  obtain ⟨hcode, hbound, hmark⟩ := hsender msg hmsg
  cases hdelivery with
  | invisible => cases hexecuted
  | underpaid => cases hexecuted
  | executed other hother hcovers =>
    obtain rfl := hmsg.unique hother
    have hexternal : External ((bumpNonce (w.prepared env tx) msg.sender).standing msg.sender) :=
      (external_bumpNonce_self (show (w.prepared env tx).getCode msg.sender = [] from hcode)
        hbound).1
    exact (applied_executed hvm hcovers).dirty_iff hmark hexternal

/-- Along every run through blocks in which the objects of senders can report: an executed
transaction carries the nonce of its sender and raises it by one, no delivery lowers the nonce of a
kept account without code and neither does anything between two deliveries, and no two executed
transactions have the same sender and nonce. Therefore no transaction is executed twice, and no
transaction hash as long as the hash tells the delivered transactions apart. Deliveries that return
nil are executed.

The condition on senders is exact for each execution: otherwise the raised nonce is not dirty, and a
commit takes an account that is not dirty back to what the trie has. -/
theorem run_atMostOnce (env : Environment) (hvm : LeavesExternal env.vm) :
    (∀ (node : Node) (inputs : List BlockInput),
      (∀ delivered ∈ (run env node inputs).1, SenderExternal env delivered.before delivered.tx ∧
        SenderReports env delivered.before delivered.tx) →
      (∀ delivered ∈ (run env node inputs).1, delivered.executed = true →
        ∃ msg, Carries env delivered.before.header delivered.tx msg ∧
          delivered.before.state.getNonce msg.sender = delivered.tx.accountNonce ∧
          delivered.after.state.getNonce msg.sender =
            delivered.before.state.getNonce msg.sender + 1) ∧
      (∀ delivered ∈ (run env node inputs).1, ∀ address, Kept delivered.before.state address →
        delivered.before.state.getNonce address ≤ delivered.after.state.getNonce address) ∧
      ((run env node inputs).1.Pairwise fun earlier later ↦ ∀ address,
        Kept earlier.after.state address →
          earlier.after.state.getNonce address ≤ later.before.state.getNonce address) ∧
      ((run env node inputs).1.Pairwise fun earlier later ↦
        earlier.executed = true → later.executed = true →
          earlier.senderNonce env ≠ later.senderNonce env ∧ earlier.tx ≠ later.tx) ∧
      ((∀ delivered ∈ (run env node inputs).1, ∀ other ∈ (run env node inputs).1,
          env.recovery.txHash delivered.tx = env.recovery.txHash other.tx →
          delivered.tx = other.tx) →
        (run env node inputs).1.Pairwise fun earlier later ↦
          earlier.executed = true → later.executed = true →
            env.recovery.txHash earlier.tx ≠ env.recovery.txHash later.tx)) ∧
    (∀ written w tx after error msg, deliverTx env written w tx = .ok (after, error) →
      (⟨w, tx, after, error⟩ : Delivered).executed = true → Carries env w.header tx msg →
      SenderExternal env w tx →
      (after.state.dirty msg.sender = true ↔ w.state.Reports msg.sender)) ∧
    (∀ (state : StateDB) address, state.hasSuicided address = false →
      (StateDB.new (state.commitTo false)).getNonce address =
        if state.exist address ∧ !state.dirty address then (StateDB.new state.trie).getNonce address
        else state.getNonce address) := by
  refine ⟨fun node inputs hsenders ↦ ?_, fun written w tx after error msg hdelivered hexecuted
    hmsg hsender ↦ dirty_of_executed_iff hvm hdelivered hexecuted hmsg hsender,
    fun state address hmark ↦ ?_⟩
  · obtain ⟨htracked, final, hrun⟩ := run_run hvm inputs node hsenders
    have hdistinct := pairwise_senderNonce htracked hrun
    refine ⟨fun delivered hmem hexec ↦ ?_, fun delivered hmem address hkept ↦ ?_, ?_, hdistinct,
      fun hhash ↦ ?_⟩
    · obtain ⟨msg, hmsg⟩ := (htracked delivered hmem).carries hexec
      have hvalid := (htracked delivered hmem).valid
      rw [entry_of_executed hexec hmsg] at hvalid
      obtain ⟨hbefore, hafter, -⟩ := hvalid.issues _ _ rfl
      exact ⟨msg, hmsg, hbefore, hafter.trans (congrArg (· + 1) hbefore.symm)⟩
    · exact getNonce_le_of_keeps (htracked delivered hmem).valid.keeps hkept
    · have hkeeps := hrun.pairwise_keeps
      rw [List.pairwise_map] at hkeeps
      exact hkeeps.imp fun hkeeps address hkept ↦ getNonce_le_of_keeps hkeeps hkept
    · refine hdistinct.imp_of_mem fun hearlier hlater hne hexec hexec' hsame ↦ ?_
      exact (hne hexec hexec').2 (hhash _ hearlier _ hlater hsame)
  · have hcommit := congrArg Standing.nonce (StateDB.standing_new_commitTo hmark)
    rw [apply_ite Standing.nonce] at hcommit
    exact hcommit

theorem leavesExternal_stopInterpreter (signer : Address) :
    LeavesExternal (sampleEnvironment signer stopInterpreter).vm where
  standing_eq _ _ _ _ _ _ _ _ _ := rfl
  steady _ _ _ _ _ _ _ _ _ := .refl _ _

section Samples

variable {signer : Address} {interpreter : Context → StateDB → Contract → Bytes → RunResult}

theorem sender_sampleEnvironment {header : Header} {tx : Transaction} {msg : Message}
    (hmsg : Carries (sampleEnvironment signer interpreter) header tx msg) :
    msg.sender = signer := by
  obtain ⟨_, _, _, _, hrecovered⟩ := exists_ecrecover_of_sender hmsg.sender_eq
  exact (Option.some.inj hrecovered).symm

/-- A test of the state of the sender that a delivery recovers. -/
def onSender (env : Environment) (test : StateDB → Address → Bool) (delivered : Delivered) : Bool :=
  match asMessage env.recovery (makeSigner env.config delivered.before.header.number)
    delivered.tx with
  | .ok msg => test delivered.before.state msg.sender
  | .error _ => true

def isExternal (state : StateDB) (sender : Address) : Bool :=
  state.getCode sender == [] && decide (state.getNonce sender + 1 < 2 ^ 64) &&
    !state.hasSuicided sender

theorem onSender_carries {test : StateDB → Address → Bool} {log : List Delivered}
    (hlog : log.all (onSender env test) = true) {delivered : Delivered} (hmem : delivered ∈ log)
    {msg : Message} (hmsg : Carries env delivered.before.header delivered.tx msg) :
    test delivered.before.state msg.sender = true := by
  have hpassed := List.all_eq_true.mp hlog delivered hmem
  unfold Carries at hmsg
  simpa only [onSender, hmsg] using hpassed

theorem senderExternal_of_log {log : List Delivered}
    (hlog : log.all (onSender env isExternal) = true) :
    ∀ delivered ∈ log, SenderExternal env delivered.before delivered.tx := by
  intro delivered hmem msg hmsg
  simpa [isExternal, and_assoc] using onSender_carries hlog hmem hmsg

theorem senders_of_log {log : List Delivered} (hlog : log.all (onSender env isExternal) = true)
    (hmarks : log.all (onSender env fun state sender ↦ state.marks sender ≠ .silent) = true) :
    ∀ delivered ∈ log, SenderExternal env delivered.before delivered.tx ∧
      SenderReports env delivered.before delivered.tx := by
  intro delivered hmem
  refine ⟨senderExternal_of_log hlog delivered hmem, fun msg hmsg _ ↦ ?_⟩
  simpa using onSender_carries hmarks hmem hmsg

end Samples

/-- A chain on which account 7 owns 100000 units. -/
def sampleNode : Node where
  currentBlock := ⟨⟨0, 0, 0, 0, 131072⟩, 131072,
    fun observed ↦ if observed = 7 then some ⟨0, 100000, [], fun _ ↦ 0⟩ else none⟩
  work := resetWork ⟨⟨0, 0, 0, 0, 131072⟩, 131072,
    fun observed ↦ if observed = 7 then some ⟨0, 100000, [], fun _ ↦ 0⟩ else none⟩
  linked := rfl

/-- The same transfer in two blocks. -/
def repeatedTransfer : List BlockInput :=
  [⟨9, 10, [(sampleTransfer 8 1 21000 1, true)], .stored false⟩,
    ⟨9, 20, [(sampleTransfer 8 1 21000 1, true)], .stored false⟩]

/-- The second delivery of the transfer is refused, as the run of two blocks requires. -/
theorem run_atMostOnce_repeatedTransfer :
    (run (sampleEnvironment 7 stopInterpreter) sampleNode repeatedTransfer).1.map Delivered.error =
      [none, some (.transaction .nonceTooLow)] ∧
    (run (sampleEnvironment 7 stopInterpreter) sampleNode repeatedTransfer).1.Pairwise
      fun earlier later ↦ earlier.executed = true → later.executed = true →
        earlier.senderNonce (sampleEnvironment 7 stopInterpreter) ≠
          later.senderNonce (sampleEnvironment 7 stopInterpreter) ∧ earlier.tx ≠ later.tx := by
  obtain ⟨-, -, -, hdistinct, -⟩ := (run_atMostOnce (sampleEnvironment 7 stopInterpreter)
    (leavesExternal_stopInterpreter 7)).1 sampleNode repeatedTransfer
    (senders_of_log (by rfl) (by rfl))
  exact ⟨by rfl, hdistinct⟩

/-! ## A nonce that is forgotten -/

/-- Code that calls account 8 without value and ends with an invalid instruction. -/
def touchingCode : Bytes :=
  [0x60, 0, 0x60, 0, 0x60, 0, 0x60, 0, 0x60, 0, 0x60, 8, 0x61, 0xff, 0xff, 0xf1, 0xfe]

/-- What that code does. -/
def toucher (_ : Context) (state : StateDB) (_ : Contract) (_ : Bytes) : RunResult :=
  ⟨state.addBalance 8 0, [], 0, some .faulty⟩

/-- An environment in which `r` is the address of the signer. -/
def signedEnvironment (interpreter : Context → StateDB → Contract → Bytes → RunResult) :
    Environment :=
  { sampleEnvironment 7 interpreter with
    recovery :=
      { (sampleEnvironment 7 interpreter).recovery with
        ecrecover := fun _ r _ _ ↦ some (BitVec.ofNat 160 r) } }

/-- A chain with an empty account 8 and a contract 5 that touches it. -/
def touchableBlock : Block :=
  ⟨⟨0, 0, 0, 0, 131072⟩, 131072, fun observed ↦
    if observed = 5 then some ⟨1, 0, touchingCode, fun _ ↦ 0⟩
    else if observed = 7 then some ⟨0, 100000, [], fun _ ↦ 0⟩
    else if observed = 8 then some ⟨0, 0, [], fun _ ↦ 0⟩ else none⟩

def touchableNode : Node := ⟨touchableBlock, resetWork touchableBlock, rfl⟩

/-- A transaction of account `signer` without value and price. -/
def freeTransaction (signer nonce : ℕ) (recipient : Option Address) (payload : Bytes) :
    Transaction :=
  ⟨nonce, 0, 100000, recipient, 0, payload, 27, signer, 1⟩

/-- Account 7 calls the contract and account 8 sends its first transaction, which comes again in the
next block. -/
def forgottenNonce : List BlockInput :=
  [⟨9, 10, [(freeTransaction 7 0 (some 5) [], true), (freeTransaction 8 0 (some 7) [], true)],
      .stored false⟩,
    ⟨9, 20, [(freeTransaction 8 0 (some 7) [], true)], .stored false⟩]

theorem leavesExternal_toucher : LeavesExternal (signedEnvironment toucher).vm where
  standing_eq _ _ _ _ observed _ _ _ _ := congrFun (StateDB.standing_addBalance 0) observed
  steady _ _ _ _ _ _ _ _ hnonce := StateDB.steady_addBalance hnonce 0

/-- The contract fails, its touch of account 8 is undone, and the transaction of account 8 is
executed twice. -/
theorem run_executes_twice :
    LeavesExternal (signedEnvironment toucher).vm ∧
    (∀ delivered ∈ (run (signedEnvironment toucher) touchableNode forgottenNonce).1,
      SenderExternal (signedEnvironment toucher) delivered.before delivered.tx) ∧
    (run (signedEnvironment toucher) touchableNode forgottenNonce).1.map
      (fun delivered ↦ (delivered.error, delivered.senderNonce (signedEnvironment toucher))) =
        [(none, some (7, 0)), (none, some (8, 0)), (none, some (8, 0))] :=
  ⟨leavesExternal_toucher, senderExternal_of_log (by rfl), by rfl⟩

end LkChain.Ethermint.AtMostOnce
