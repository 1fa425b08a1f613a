import LkChain.Ethermint.NonceCache
import LkChain.Tendermint.Mempools

/-!
# The order of the transactions of one sender

The mempool of the consensus engine in front of the application. Transactions reach the application
through the mempool, when they arrive and again when a block was committed; the application may also
be asked directly. Whatever the interleaving with blocks, the transactions of one sender are
admitted in the order of their nonces, and so they stand in the mempool and in every block that is
reaped from it.
-/

namespace LkChain.Ethermint.Reaping

open Foundation
open Ethereum State Transactions Transition
open Blocks Admission Application NonceCache
open Tendermint.Mempools
open Validators.TxBased (Strategy newValidatorsStrategy)

variable {PubKey Signature NodeAddress : Type}

/-- The application and the mempool in front of it. -/
structure System where
  chain : ChainApp
  mem : Mempool String

/-- What happens to a node: transactions arrive, the engine calls the application, or it tells the
mempool which transactions are in a block. -/
inductive Event where
  | checkTx (world : World) (txBytes : String) (connFails : Bool)
  | call (call : Call)
  | update (world : World) (height : ℕ) (blockTxs : List String)
  | flush
  | notifyTx

variable (setup : Setup PubKey Signature NodeAddress)

/-- The application as the mempool sees it: a state and a code. -/
def answer (world : World) (chain : ChainApp) (txBytes : String) :
    Except Panic (ChainApp × ℕ) := do
  let (after, response) ← chain.checkTx setup world txBytes
  return (after, response.code)

def System.step (system : System) (event : Event) : Except Panic System :=
  match event with
  | .checkTx world txBytes connFails => do
    let (mem, chain) ←
      system.mem.checkTx (answer setup world) system.chain txBytes connFails
    return ⟨chain, mem⟩
  | .call call => do
    let chain ← NonceCache.step setup system.chain call
    return { system with chain := chain }
  | .update world height blockTxs => do
    let (mem, chain) ← system.mem.update (answer setup world) system.chain height blockTxs
    return ⟨chain, mem⟩
  | .flush => .ok { system with mem := system.mem.flush }
  | .notifyTx => .ok { system with mem := { system.mem with notifyTx := true } }

/-- A node that starts on a chain. -/
def newSystem (node : Node) (strategy : Strategy) (height : ℕ) : System :=
  ⟨newApplication node strategy, newMempool String height⟩

/-- The bytes that an event brings along can be raised in their nonce. -/
def EventBounded (event : Event) : Prop :=
  match event with
  | .checkTx _ txBytes _ => Bounded setup txBytes
  | .call (.checkTx _ txBytes) => Bounded setup txBytes
  | _ => True

/-- The mempool holds a part of the record, and nothing that cannot be raised is put off. -/
structure InOrder (system : System) : Prop where
  filed : Filed setup system.chain
  listed : system.mem.listed.Sublist system.chain.admitted
  bounded : ∀ memTx ∈ system.mem.futuretxs, Bounded setup memTx.tx

variable {setup} {world : World}

theorem records_answer : Records (answer setup world) ChainApp.admitted := by
  intro chain txBytes later code hanswer
  unfold answer ChainApp.checkTx at hanswer
  simp only [Results.bind_eq_ok_iff] at hanswer
  obtain ⟨_, ⟨checked, -, hreturn⟩, hcode⟩ := hanswer
  cases hreturn
  cases hcode
  rfl

theorem keeps_answer : Keeps (answer setup world) (Bounded setup) (Filed setup) := by
  intro chain txBytes later code hbounded hfiled hanswer
  unfold answer at hanswer
  rw [Results.bind_eq_ok_iff] at hanswer
  obtain ⟨⟨after, response⟩, hchecked, hreturn⟩ := hanswer
  cases hreturn
  exact filed_checkTx hbounded hfiled hchecked

theorem sublist_call {chain after : ChainApp} {call : Call}
    (hstep : NonceCache.step setup chain call = .ok after) :
    chain.admitted.Sublist after.admitted := by
  cases call with
  | checkTx world txBytes =>
    unfold NonceCache.step ChainApp.checkTx at hstep
    simp only [Results.bind_eq_ok_iff] at hstep
    obtain ⟨_, ⟨checked, -, hreturn⟩, hafter⟩ := hstep
    cases hreturn
    cases hafter
    dsimp only
    split_ifs
    · exact List.sublist_append_left _ _
    · exact List.Sublist.refl _
  | beginBlock | endBlock =>
    cases hstep
    exact List.Sublist.refl _
  | deliverTx world written txBytes =>
    unfold NonceCache.step ChainApp.deliverTx at hstep
    dsimp only at hstep
    split at hstep
    next => cases hstep
    next =>
      cases hstep
      exact List.Sublist.refl _
  | commit outcome =>
    unfold NonceCache.step ChainApp.commit at hstep
    dsimp only at hstep
    rw [Results.bind_eq_ok_iff] at hstep
    obtain ⟨node, -, hreturn⟩ := hstep
    cases outcome <;> cases hreturn <;> exact List.Sublist.refl _

theorem inOrder_step {system after : System} {event : Event}
    (hbounded : EventBounded setup event) (hsystem : InOrder setup system)
    (hstep : system.step setup event = .ok after) : InOrder setup after := by
  unfold System.step at hstep
  cases event with
  | checkTx world txBytes connFails =>
    dsimp only at hstep
    rw [Results.bind_eq_ok_iff] at hstep
    obtain ⟨⟨mem, chain⟩, hchecked, hreturn⟩ := hstep
    cases hreturn
    refine ⟨keeps_answer.checkTx hbounded hsystem.filed hchecked,
      sublist_checkTx records_answer hsystem.listed hchecked, ?_⟩
    intro memTx hmem
    cases futuretxs_checkTx hchecked memTx hmem with
    | inl hearlier => exact hsystem.bounded memTx hearlier
    | inr hsame => exact hsame ▸ hbounded
  | call call =>
    dsimp only at hstep
    rw [Results.bind_eq_ok_iff] at hstep
    obtain ⟨chain, hcall, hreturn⟩ := hstep
    cases hreturn
    refine ⟨filed_step ?_ hsystem.filed hcall, hsystem.listed.trans (sublist_call hcall),
      hsystem.bounded⟩
    intro world txBytes hcheck
    subst hcheck
    exact hbounded
  | update world height blockTxs =>
    dsimp only at hstep
    rw [Results.bind_eq_ok_iff] at hstep
    obtain ⟨⟨mem, chain⟩, hupdated, hreturn⟩ := hstep
    have hfiled := keeps_answer.update hsystem.bounded hsystem.filed hupdated
    have hsublist := sublist_update records_answer hsystem.listed hupdated
    cases hreturn
    exact ⟨hfiled, hsublist.1, fun memTx hmem ↦ hsystem.bounded memTx (hsublist.2.subset hmem)⟩
  | flush =>
    cases hstep
    exact ⟨hsystem.filed, List.nil_sublist _, fun memTx hmem ↦ absurd hmem List.not_mem_nil⟩
  | notifyTx =>
    cases hstep
    exact ⟨hsystem.filed, hsystem.listed, hsystem.bounded⟩

theorem inOrder_run {node : Node} {strategy : Strategy} {height : ℕ} {events : List Event}
    {after : System} (hbounded : ∀ event ∈ events, EventBounded setup event)
    (hrun : Schedules.run (System.step setup) (newSystem node strategy height) events = .ok after) :
    InOrder setup after := by
  apply Schedules.invariant (InOrder setup) _ _ hrun
  · intro system event next hevent hsystem hstep
    exact inOrder_step (hbounded event hevent) hsystem hstep
  · exact ⟨filed_newApplication node strategy, List.Sublist.refl [],
      fun memTx hmem ↦ absurd hmem List.not_mem_nil⟩

/-- Along every run of the application the nonces of a sender are admitted in strictly increasing
order. Along every run of the application and its mempool they stand so in the mempool and in
whatever is reaped from it. -/
theorem nonces_strictly_increase (setup : Setup PubKey Signature NodeAddress) :
    (∀ node strategy calls after,
      (∀ world txBytes, Call.checkTx world txBytes ∈ calls → Bounded setup txBytes) →
      Schedules.run (NonceCache.step setup) (newApplication node strategy) calls = .ok after →
      Ordered setup after.admitted) ∧
    ∀ node strategy height events after,
      (∀ event ∈ events, EventBounded setup event) →
      Schedules.run (System.step setup) (newSystem node strategy height) events = .ok after →
      Ordered setup after.mem.listed ∧ ∀ maxTxs, Ordered setup (after.mem.reap maxTxs) := by
  constructor
  · intro node strategy calls after hbounded hrun
    exact (filed_run hbounded hrun).ordered
  · intro node strategy height events after hbounded hrun
    have horder := inOrder_run hbounded hrun
    have hlisted : Ordered setup after.mem.listed := horder.filed.ordered.sublist horder.listed
    exact ⟨hlisted, fun maxTxs ↦ hlisted.sublist (sublist_reap after.mem maxTxs)⟩

/-- Two transfers of account 7 arrive, and the first one is put into a block. -/
def twoTransfers : List Event :=
  [.checkTx sampleWorld "0x00" false, .checkTx sampleWorld "0x01" false, .call (.beginBlock 9 10),
    .call (.deliverTx sampleWorld true "0x00"), .call .endBlock, .call (.commit (.stored false)),
    .checkTx sampleWorld "0x00" false]

theorem nonces_strictly_increase_twoTransfers :
    let setup := numberedSetup [legalTransfer 0, legalTransfer 1]
    senderNonce setup "0x00" = some (7, 0) ∧ senderNonce setup "0x01" = some (7, 1) ∧
    ∃ after, Schedules.run (System.step setup) (newSystem richNode newValidatorsStrategy 0)
        twoTransfers = .ok after ∧
      after.mem.listed = ["0x00", "0x01"] ∧ after.mem.reap 1 = ["0x00"] ∧
      Ordered setup after.mem.listed ∧ ∀ maxTxs, Ordered setup (after.mem.reap maxTxs) := by
  intro setup
  have hfirst : senderNonce setup "0x00" = some (7, 0) := by rfl
  have hsecond : senderNonce setup "0x01" = some (7, 1) := by rfl
  have hbounded : ∀ event ∈ twoTransfers, EventBounded setup event := by
    intro event hevent
    simp only [twoTransfers, List.mem_cons, List.not_mem_nil, or_false] at hevent
    rcases hevent with rfl | rfl | rfl | rfl | rfl | rfl | rfl <;>
      simp [EventBounded, Bounded, hfirst, hsecond]
  exact ⟨hfirst, hsecond, _, rfl, rfl, rfl,
    (nonces_strictly_increase setup).2 richNode newValidatorsStrategy 0 twoTransfers _ hbounded rfl⟩

end LkChain.Ethermint.Reaping
