import LkChain.Tendermint.Mempools

/-!
# Committed transactions in the mempool

`Update` takes the transactions of a block out of the list of good ones, which keeps its order. The
postponed ones are not looked through: they are only checked again, and not even that before
`NotifyTx`. So a committed transaction that was postponed stays, or becomes a good one, unless the
application refuses it when it is checked again.
-/

namespace LkChain.Tendermint.Mempools

open Foundation

variable {Tx App Panic : Type} [DecidableEq Tx] {check : App → Tx → Except Panic (App × ℕ)}
  {mem after : Mempool Tx} {app later : App}

/-- The postponed transactions with the codes that the application answers one after the other. -/
def recheckAnswers (check : App → Tx → Except Panic (App × ℕ)) :
    App → List (MempoolTx Tx) → Except Panic (List (MempoolTx Tx × ℕ))
  | _, [] => .ok []
  | app, memTx :: rest => do
    let (app, code) ← check app memTx.tx
    let answers ← recheckAnswers check app rest
    return (memTx, code) :: answers

/-- The transactions that were put off. -/
def Mempool.postponed (mem : Mempool Tx) : List Tx := mem.futuretxs.map MempoolTx.tx

/-- The postponed transactions that are good now, and those that are still postponed. -/
def promoted (answers : List (MempoolTx Tx × ℕ)) : List Tx :=
  (answers.filter fun answer ↦ answer.2 = 0).map fun answer ↦ answer.1.tx

def stillPostponed (answers : List (MempoolTx Tx × ℕ)) : List (MempoolTx Tx) :=
  (answers.filter fun answer ↦ answer.2 = futurenum).map Prod.fst

theorem stays_iff (mem : Mempool Tx) (memTx : MempoolTx Tx) (code : ℕ) :
    (mem.resCbRecheck memTx code).2 = true ↔ code = futurenum := by
  unfold Mempool.resCbRecheck
  split_ifs with hgood hfuture
  · rw [hgood]
    decide
  · exact ⟨fun _ ↦ hfuture, fun _ ↦ rfl⟩
  · exact ⟨False.elim, hfuture⟩

/-- What a check of the postponed transactions does with the lists. -/
theorem exists_answers {future kept : List (MempoolTx Tx)}
    (hrechecked : recheckFutureTxs check mem app future = .ok (after, later, kept)) :
    ∃ answers, recheckAnswers check app future = .ok answers ∧
      after.listed = mem.listed ++ promoted answers ∧ kept = stillPostponed answers := by
  induction future generalizing mem app kept with
  | nil =>
    cases hrechecked
    exact ⟨[], rfl, (List.append_nil _).symm, rfl⟩
  | cons memTx rest ih =>
    unfold recheckFutureTxs at hrechecked
    simp only [Results.bind_eq_ok_iff] at hrechecked
    obtain ⟨⟨checkedApp, code⟩, hcheck, ⟨restMem, restApp, restKept⟩, hrest, hreturn⟩ := hrechecked
    cases hreturn
    obtain ⟨answers, hanswers, hlisted, hkept⟩ := ih hrest
    refine ⟨(memTx, code) :: answers, ?_, ?_, ?_⟩
    · unfold recheckAnswers
      simp only [Results.bind_eq_ok_iff]
      exact ⟨_, hcheck, _, hanswers, rfl⟩
    · rw [hlisted, listed_resCbRecheck]
      by_cases hcode : code = 0 <;> simp [promoted, hcode]
    · simp only [stays_iff, hkept]
      by_cases hfuture : code = futurenum <;> simp [stillPostponed, hfuture]

/-! ## What an update leaves -/

theorem listed_filterTxsNoResult (mem : Mempool Tx) (blockTxs : List Tx) :
    (mem.filterTxsNoResult blockTxs).listed = mem.listed.filter fun tx ↦ !blockTxs.contains tx := by
  unfold Mempool.listed Mempool.filterTxsNoResult
  rw [List.filter_map]
  rfl

theorem not_mem_filter {blockTxs listed : List Tx} {tx : Tx} (htx : tx ∈ blockTxs) :
    tx ∉ listed.filter fun tx ↦ !blockTxs.contains tx := by
  simp [htx]

omit [DecidableEq Tx] in
theorem mem_promoted {answers : List (MempoolTx Tx × ℕ)} {tx : Tx} :
    tx ∈ promoted answers ↔ ∃ answer ∈ answers, answer.1.tx = tx ∧ answer.2 = 0 := by
  simp only [promoted, List.mem_map, List.mem_filter, decide_eq_true_eq, and_assoc,
    and_comm (a := _ = 0)]

omit [DecidableEq Tx] in
theorem mem_stillPostponed {answers : List (MempoolTx Tx × ℕ)} {tx : Tx} :
    tx ∈ (stillPostponed answers).map MempoolTx.tx ↔
      ∃ answer ∈ answers, answer.1.tx = tx ∧ answer.2 = futurenum := by
  simp only [stillPostponed, List.map_map, List.mem_map, List.mem_filter, decide_eq_true_eq,
    and_assoc, and_comm (a := _ = futurenum), Function.comp_apply]

/-- No postponed transaction of the block survives: there is none, or the application refuses it. -/
def Refuses (check : App → Tx → Except Panic (App × ℕ)) (mem : Mempool Tx) (app : App)
    (blockTxs : List Tx) : Prop :=
  if mem.notifyTx then
    ∃ answers, recheckAnswers check app mem.futuretxs = .ok answers ∧
      ∀ answer ∈ answers, answer.1.tx ∈ blockTxs → answer.2 ≠ 0 ∧ answer.2 ≠ futurenum
  else ∀ tx ∈ mem.postponed, tx ∉ blockTxs

/-- What is left after the postponed transactions were checked again. -/
theorem clears_iff_of_answers {blockTxs listed : List Tx} {answers : List (MempoolTx Tx × ℕ)} :
    (∀ tx ∈ blockTxs, tx ∉ (listed.filter fun tx ↦ !blockTxs.contains tx) ++ promoted answers ∧
        tx ∉ (stillPostponed answers).map MempoolTx.tx) ↔
      ∀ answer ∈ answers, answer.1.tx ∈ blockTxs → answer.2 ≠ 0 ∧ answer.2 ≠ futurenum := by
  simp only [List.mem_append, mem_promoted, mem_stillPostponed]
  constructor
  · intro hcleared answer hanswer htx
    obtain ⟨hlisted, hpostponed⟩ := hcleared answer.1.tx htx
    exact ⟨fun hgood ↦ hlisted (.inr ⟨answer, hanswer, rfl, hgood⟩),
      fun hfuture ↦ hpostponed ⟨answer, hanswer, rfl, hfuture⟩⟩
  · intro hrefused tx htx
    constructor
    · rintro (hfiltered | ⟨answer, hanswer, rfl, hgood⟩)
      · exact not_mem_filter htx hfiltered
      · exact (hrefused answer hanswer htx).1 hgood
    · rintro ⟨answer, hanswer, rfl, hfuture⟩
      exact (hrefused answer hanswer htx).2 hfuture

/-- The good transactions that are not in the block stay, in their order. No transaction of the
block is left exactly when the application refuses those of them that were postponed. -/
theorem update_clears_iff {height : ℕ} {blockTxs : List Tx}
    (hupdated : mem.update check app height blockTxs = .ok (after, later)) :
    (mem.listed.filter fun tx ↦ !blockTxs.contains tx) <+: after.listed ∧
      ((∀ tx ∈ blockTxs, tx ∉ after.listed ∧ tx ∉ after.postponed) ↔
        Refuses check mem app blockTxs) := by
  have hfiltered : ({ mem with height := height }.filterTxsNoResult blockTxs).listed =
      mem.listed.filter fun tx ↦ !blockTxs.contains tx := listed_filterTxsNoResult _ _
  unfold Refuses
  cases update_cases hupdated with
  | inl hunnotified =>
    obtain ⟨hnotify, rfl, -⟩ := hunnotified
    rw [hfiltered, if_neg (by rw [hnotify]; exact Bool.false_ne_true)]
    refine ⟨List.prefix_refl _, fun hcleared tx hpostponed htx ↦ (hcleared tx htx).2 hpostponed, ?_⟩
    intro hnone tx htx
    exact ⟨not_mem_filter htx, fun hpostponed ↦ hnone tx hpostponed htx⟩
  | inr hnotified =>
    obtain ⟨hnotify, checked, kept, hrechecked, rfl⟩ := hnotified
    obtain ⟨answers, hanswers, hlisted, hkept⟩ := exists_answers hrechecked
    have hafter : ({ checked with futuretxs := kept } : Mempool Tx).listed =
        (mem.listed.filter fun tx ↦ !blockTxs.contains tx) ++ promoted answers :=
      hlisted.trans (by rw [hfiltered])
    have hpostponed : ({ checked with futuretxs := kept } : Mempool Tx).postponed =
        (stillPostponed answers).map MempoolTx.tx := congrArg (List.map MempoolTx.tx) hkept
    rw [hnotify, if_pos rfl, hafter, hpostponed, clears_iff_of_answers]
    refine ⟨List.prefix_append _ _, fun hrefused ↦ ⟨answers, hanswers, hrefused⟩, ?_⟩
    rintro ⟨answers', hanswers', hrefused⟩
    cases hanswers.symm.trans hanswers'
    exact hrefused

/-- An application that puts off the first transaction it sees and refuses all later ones. -/
def sampleCheck (app : ℕ) (_ : ℕ) : Except Unit (ℕ × ℕ) :=
  .ok (app + 1, if app = 0 then futurenum else 1)

/-- The mempool after that application has put off a transaction. -/
def samplePool (notifyTx : Bool) : Mempool ℕ :=
  ⟨[], [⟨0, 0, 5⟩], 0, 0, ((newTxCache ℕ).push cacheSize 5).1, notifyTx⟩

/-- After `NotifyTx` a postponed transaction is checked again when its block is committed; the
application refuses it, and it is gone. -/
theorem update_clears_sample :
    ({ newMempool ℕ 0 with notifyTx := true }).checkTx sampleCheck 0 5 false =
        .ok (samplePool true, 1) ∧
      ∃ after later, (samplePool true).update sampleCheck 1 1 [5] = .ok (after, later) ∧
        ∀ tx ∈ [5], tx ∉ after.listed ∧ tx ∉ after.postponed := by
  have hupdated : (samplePool true).update sampleCheck 1 1 [5] =
      .ok (⟨[], [], 0, 1, (samplePool true).cache.remove 5, true⟩, 2) := rfl
  have hrefuses : Refuses sampleCheck (samplePool true) 1 [5] :=
    ⟨[(⟨0, 0, 5⟩, 1)], rfl, by decide⟩
  exact ⟨rfl, _, _, hupdated, (update_clears_iff hupdated).2.mpr hrefuses⟩

/-- Before `NotifyTx` a postponed transaction is still postponed when its block is committed. -/
theorem postponed_of_update :
    (newMempool ℕ 0).checkTx sampleCheck 0 5 false = .ok (samplePool false, 1) ∧
      ∃ after later, (samplePool false).update sampleCheck 1 1 [5] = .ok (after, later) ∧
        5 ∈ after.postponed :=
  ⟨rfl, _, _, rfl, List.mem_singleton_self 5⟩

end LkChain.Tendermint.Mempools
