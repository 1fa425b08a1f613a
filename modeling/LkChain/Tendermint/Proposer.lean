import LkChain.Tendermint.ValSet
import Mathlib.Data.List.GetD

/-!
# Choosing a proposer

`IncrementAccum` compares validators in a heap and panics when it compares two with one accumulator
and one address, or when there is none to choose. The heap never compares an element with itself.
So it has a result for every set of at least one validator in which the addresses differ, whatever
the accumulators are and whatever they wrap to.
-/

namespace LkChain.Tendermint.Proposer

open Foundation Foundation.Stops Tendermint.Types ValSet

/-! ## Heaps of different elements -/

section Heap

variable {Error : Type} {less : ℕ → ℕ → Except Error Bool} {heap : List ℕ}

/-- A heap without repetition whose elements can be compared. -/
structure Comparable (less : ℕ → ℕ → Except Error Bool) (heap : List ℕ) : Prop where
  nodup : heap.Nodup
  answers : ∀ a ∈ heap, ∀ b ∈ heap, a ≠ b → Results.Returns (less a b)

theorem Comparable.perm {heap' : List ℕ} (hheap : Comparable less heap)
    (hperm : heap'.Perm heap) : Comparable less heap' where
  nodup := hperm.nodup_iff.mpr hheap.nodup
  answers a ha b hb := hheap.answers a (hperm.mem_iff.mp ha) b (hperm.mem_iff.mp hb)

theorem Comparable.answers_at (hheap : Comparable less heap) {i j : ℕ} (hi : i < heap.length)
    (hj : j < heap.length) (hne : i ≠ j) :
    Results.Returns (less (heap.getD i 0) (heap.getD j 0)) := by
  rw [List.getD_eq_getElem _ _ hi, List.getD_eq_getElem _ _ hj]
  apply hheap.answers _ (List.getElem_mem hi) _ (List.getElem_mem hj)
  intro hsame
  exact hne ((hheap.nodup.getElem_inj_iff).mp hsame)

theorem swap_perm {i j : ℕ} (hi : i < heap.length) (hj : j < heap.length) :
    (swap heap i j).Perm heap := by
  unfold swap
  rw [List.getD_eq_getElem _ _ hi, List.getD_eq_getElem _ _ hj]
  exact List.set_set_perm hi hj

/-- A step that goes on, or ends where it is, rearranges the heap when the rest does. -/
theorem rearranges_of_answer {first : Except Error Bool} {next : Except Error (List ℕ)}
    (hfirst : Results.Returns first) (hnext : ∃ after, next = .ok after ∧ after.Perm heap) :
    ∃ after, (do if ← first then next else .ok heap) = .ok after ∧ after.Perm heap := by
  obtain ⟨answer, rfl⟩ := hfirst
  cases answer with
  | false => exact ⟨heap, rfl, List.Perm.refl heap⟩
  | true => exact hnext

theorem heapUp_rearranges (fuel : ℕ) {j : ℕ} (hheap : Comparable less heap)
    (hj : j < heap.length) :
    ∃ after, heapUp less fuel heap j = .ok after ∧ after.Perm heap := by
  induction fuel generalizing heap j with
  | zero => exact ⟨heap, rfl, List.Perm.refl heap⟩
  | succ fuel ih =>
    rw [heapUp]
    by_cases hroot : (j - 1) / 2 = j
    · rw [if_pos hroot]
      exact ⟨heap, rfl, List.Perm.refl heap⟩
    · rw [if_neg hroot]
      have hi : (j - 1) / 2 < heap.length := by omega
      have hswap : (swap heap ((j - 1) / 2) j).Perm heap := swap_perm hi hj
      apply rearranges_of_answer (hheap.answers_at hj hi (Ne.symm hroot))
      obtain ⟨after, hup, hperm⟩ := ih (hheap.perm hswap) (hswap.length_eq.symm ▸ hi)
      exact ⟨after, hup, hperm.trans hswap⟩

theorem heapDown_rearranges (fuel : ℕ) {i : ℕ} (hheap : Comparable less heap) :
    ∃ after, heapDown less fuel heap i = .ok after ∧ after.Perm heap := by
  induction fuel generalizing heap i with
  | zero => exact ⟨heap, rfl, List.Perm.refl heap⟩
  | succ fuel ih =>
    rw [heapDown]
    dsimp only
    by_cases hleaf : heap.length ≤ 2 * i + 1
    · rw [if_pos hleaf]
      exact ⟨heap, rfl, List.Perm.refl heap⟩
    · rw [if_neg hleaf]
      have hi : i < heap.length := by omega
      have hsift : ∀ j, i ≠ j → j < heap.length → ∃ after,
          (do
            if ← less (heap.getD j 0) (heap.getD i 0) then heapDown less fuel (swap heap i j) j
            else .ok heap) = .ok after ∧ after.Perm heap := by
        intro j hne hj
        have hswap : (swap heap i j).Perm heap := swap_perm hi hj
        apply rearranges_of_answer (hheap.answers_at hj hi hne.symm)
        obtain ⟨after, hdown, hperm⟩ := ih (i := j) (hheap.perm hswap)
        exact ⟨after, hdown, hperm.trans hswap⟩
      -- the smaller of the children, where there are two
      by_cases hboth : 2 * i + 1 + 1 < heap.length
      · rw [if_pos hboth]
        obtain ⟨right, hright⟩ := hheap.answers_at hboth (j := 2 * i + 1) (by omega) (by omega)
        rw [hright]
        cases right with
        | false => exact hsift (2 * i + 1) (by omega) (by omega)
        | true => exact hsift (2 * i + 1 + 1) (by omega) hboth
      · rw [if_neg hboth]
        exact hsift (2 * i + 1) (by omega) (by omega)

theorem heapPush_rearranges {element : ℕ} (hheap : Comparable less (heap ++ [element])) :
    ∃ after, heapPush less heap element = .ok after ∧ after.Perm (heap ++ [element]) := by
  apply heapUp_rearranges _ hheap
  rw [List.length_append, List.length_singleton]
  exact Nat.lt_succ_self heap.length

theorem foldlM_heapPush_rearranges {count : ℕ} (hheap : Comparable less (List.range count)) :
    ∃ after, (List.range count).foldlM (heapPush less) [] = .ok after ∧
      after.Perm (List.range count) := by
  induction count with
  | zero => exact ⟨[], rfl, List.Perm.refl []⟩
  | succ count ih =>
    have hfewer : Comparable less (List.range count) := by
      rw [List.range_succ] at hheap
      exact ⟨(List.nodup_append.mp hheap.nodup).1, fun a ha b hb ↦
        hheap.answers a (List.mem_append_left _ ha) b (List.mem_append_left _ hb)⟩
    obtain ⟨before, hbefore, hperm⟩ := ih hfewer
    have hpushed : (before ++ [count]).Perm (List.range (count + 1)) := by
      rw [List.range_succ]
      exact hperm.append_right [count]
    obtain ⟨after, hafter, hperm'⟩ := heapPush_rearranges (hheap.perm hpushed)
    refine ⟨after, ?_, hperm'.trans hpushed⟩
    rw [List.range_succ, List.foldlM_append, Results.bind_eq_ok_iff]
    refine ⟨before, hbefore, ?_⟩
    rw [List.foldlM_cons, Results.bind_eq_ok_iff]
    exact ⟨after, hafter, rfl⟩

end Heap

/-! ## Validators with different addresses -/

section Accums

variable {PubKey Address Error : Type} [LinearOrder Address]
  {validators : List (Validator PubKey Address)}

theorem returns_compareAccum {v other : Validator PubKey Address}
    (hne : v.address ≠ other.address) :
    Results.Returns (compareAccum v other : Fallible Error Bool) := by
  unfold compareAccum
  split_ifs with hmore hless hbelow habove
  · exact Results.returns_ok true
  · exact Results.returns_ok false
  · exact Results.returns_ok true
  · exact Results.returns_ok false
  · exact absurd (le_antisymm (not_lt.mp habove) (not_lt.mp hbelow)) hne

theorem comparable_accumLess (hnodup : (validators.map Validator.address).Nodup)
    {heap : List ℕ} (hperm : heap.Perm (List.range validators.length)) :
    Comparable (accumLess validators : ℕ → ℕ → Fallible Error Bool) heap where
  nodup := hperm.nodup_iff.mpr List.nodup_range
  answers a ha b hb hne := by
    have ha : a < validators.length := List.mem_range.mp (hperm.mem_iff.mp ha)
    have hb : b < validators.length := List.mem_range.mp (hperm.mem_iff.mp hb)
    have haddress : validators[a].address ≠ validators[b].address := by
      intro hsame
      apply hne
      rw [← List.getElem_map Validator.address (h := by simpa using ha),
        ← List.getElem_map Validator.address (h := by simpa using hb)] at hsame
      exact (hnodup.getElem_inj_iff).mp hsame
    unfold accumLess
    rw [List.getElem?_eq_getElem ha, List.getElem?_eq_getElem hb]
    exact Results.returns_bind_pure_iff.mpr (returns_compareAccum haddress)

omit [LinearOrder Address] in
theorem map_address_eq (validators : List (Validator PubKey Address)) :
    validators.map Validator.address = (validators.map Validator.member).map Prod.fst := by
  rw [List.map_map]
  rfl

omit [LinearOrder Address] in
theorem map_address_modify {index : ℕ} {total : ℤ} :
    (validators.modify index fun v ↦ { v with accum := Int64.wrap (v.accum - total) }).map
      Validator.address = validators.map Validator.address := by
  rw [map_address_eq, map_member_modify, ← map_address_eq]

theorem accumRound_returns {total : ℤ} {heap : List ℕ}
    (hnodup : (validators.map Validator.address).Nodup)
    (hperm : heap.Perm (List.range validators.length)) (hnonempty : validators ≠ []) :
    ∃ mostest fixed, (accumRound total validators heap : Fallible Error _) =
        .ok (validators.modify mostest fun v ↦ { v with accum := Int64.wrap (v.accum - total) },
          fixed, (validators.modify mostest fun v ↦
            { v with accum := Int64.wrap (v.accum - total) })[mostest]?) ∧
      fixed.Perm heap := by
  cases heap with
  | nil =>
    have hlength := hperm.length_eq
    rw [List.length_range, List.length_nil] at hlength
    exact absurd (List.length_eq_zero_iff.mp hlength.symm) hnonempty
  | cons mostest heap =>
    have hlowered : Comparable (accumLess (validators.modify mostest fun v ↦
        { v with accum := Int64.wrap (v.accum - total) }) : ℕ → ℕ → Fallible Error Bool)
        (mostest :: heap) := by
      apply comparable_accumLess
      · rw [map_address_modify]
        exact hnodup
      · rw [List.length_modify]
        exact hperm
    obtain ⟨fixed, hfixed, hrearranged⟩ :=
      heapDown_rearranges (mostest :: heap).length (i := 0) hlowered
    refine ⟨mostest, fixed, ?_, hrearranged⟩
    unfold accumRound
    rw [List.head?_cons]
    exact Results.bind_eq_ok_iff.mpr ⟨fixed, hfixed, rfl⟩

theorem accumRounds_returns {total : ℤ} {heap : List ℕ} (times : ℕ)
    {proposer : Option (Validator PubKey Address)}
    (hnodup : (validators.map Validator.address).Nodup)
    (hperm : heap.Perm (List.range validators.length)) (hnonempty : validators ≠ []) :
    Results.Returns (accumRounds total times validators heap proposer : Fallible Error _) := by
  induction times generalizing validators heap proposer with
  | zero => exact Results.returns_ok _
  | succ times ih =>
    obtain ⟨mostest, fixed, hround, hrearranged⟩ : ∃ mostest fixed, _ ∧ _ :=
      accumRound_returns hnodup hperm hnonempty
    unfold accumRounds
    rw [hround]
    apply ih
    · rw [map_address_modify]
      exact hnodup
    · rw [List.length_modify]
      exact hrearranged.trans hperm
    · intro hempty
      apply hnonempty
      rw [← List.length_eq_zero_iff, List.length_modify] at hempty
      exact List.length_eq_zero_iff.mp hempty

/-- A set of at least one validator with different addresses has a next proposer. -/
theorem incrementAccum_returns {valSet : ValidatorSet PubKey Address} (times : ℕ)
    (hnodup : (valSet.validators.map Validator.address).Nodup)
    (hnonempty : valSet.validators ≠ []) :
    Results.Returns (valSet.incrementAccum times : Fallible Error _) := by
  have hraised : (raiseAccums times valSet.validators).map Validator.address =
      valSet.validators.map Validator.address := by
    rw [raiseAccums, List.map_map]
    rfl
  have hincremented : Results.Returns (incrementedAccums valSet.totalVotingPower times
      valSet.validators valSet.proposer : Fallible Error _) := by
    have hcomparable : Comparable (accumLess (raiseAccums times valSet.validators) :
        ℕ → ℕ → Fallible Error Bool) (List.range (raiseAccums times valSet.validators).length) := by
      apply comparable_accumLess _ (List.Perm.refl _)
      rwa [hraised]
    obtain ⟨heap, hheap, hperm⟩ := foldlM_heapPush_rearranges hcomparable
    unfold incrementedAccums
    dsimp only
    rw [hheap]
    apply accumRounds_returns times _ hperm
    · intro hempty
      rw [raiseAccums, List.map_eq_nil_iff] at hempty
      exact hnonempty hempty
    · rwa [hraised]
  obtain ⟨⟨validators, proposer⟩, hlist⟩ := hincremented
  unfold ValidatorSet.incrementAccum
  split
  next hstop =>
    rw [hlist] at hstop
    cases hstop
  next => exact Results.returns_ok _

end Accums

end LkChain.Tendermint.Proposer
