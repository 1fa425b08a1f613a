import Mathlib.Order.Basic

/-!
# Registers that only grow

A register holds a key and a value, and its key only grows. What is entered in the ledger is what
the register holds at that time. Then a key is never entered with two values, however often it is
entered, and the keys that the register was moved to are growing.
-/

namespace LkChain.Foundation.Registers

/-- How an entry is read. -/
structure Labels (Entry Key Value : Type) where
  key : Entry → Key
  value : Entry → Value

variable {Entry Key Value : Type} [PartialOrder Key]

/-- The ledger is backed by a register with this key and value, which has made these moves. -/
structure Guarded (labels : Labels Entry Key Value) (key : Key) (value : Value)
    (entries : List Entry) (moves : List Key) : Prop where
  past : ∀ entry ∈ entries, labels.key entry ≤ key
  current : ∀ entry ∈ entries, labels.key entry = key → labels.value entry = value
  unique : ∀ entry ∈ entries, ∀ other ∈ entries, labels.key entry = labels.key other →
    labels.value entry = labels.value other
  moved : ∀ move ∈ moves, move ≤ key
  increasing : moves.Pairwise (· < ·)

variable {labels : Labels Entry Key Value} {key newKey : Key} {value : Value} {entries : List Entry}
  {moves : List Key} {entry : Entry}

theorem guarded_nil : Guarded labels key value [] [] where
  past _ hmem := absurd hmem List.not_mem_nil
  current _ hmem := absurd hmem List.not_mem_nil
  unique _ hmem := absurd hmem List.not_mem_nil
  moved _ hmem := absurd hmem List.not_mem_nil
  increasing := List.Pairwise.nil

/-- A register that has moved has nothing in the ledger under its key. -/
theorem Guarded.advance (hguarded : Guarded labels key value entries moves) (hlt : key < newKey)
    (newValue : Value) : Guarded labels newKey newValue entries (moves ++ [newKey]) := by
  constructor
  · exact fun entry hmem ↦ (hguarded.past entry hmem).trans hlt.le
  · intro entry hmem hkey
    exact absurd (hkey ▸ hguarded.past entry hmem) (not_le_of_gt hlt)
  · exact hguarded.unique
  · intro move hmem
    cases List.mem_append.mp hmem with
    | inl hold => exact (hguarded.moved move hold).trans hlt.le
    | inr hlast => rw [List.mem_singleton.mp hlast]
  · rw [List.pairwise_append]
    refine ⟨hguarded.increasing, List.pairwise_singleton _ _, ?_⟩
    intro move hmem last hlast
    rw [List.mem_singleton.mp hlast]
    exact (hguarded.moved move hmem).trans_lt hlt

theorem Guarded.concat (hguarded : Guarded labels key value entries moves)
    (hkey : labels.key entry = key) (hvalue : labels.value entry = value) :
    Guarded labels key value (entries ++ [entry]) moves := by
  have hcurrent : ∀ other ∈ entries ++ [entry], labels.key other = key →
      labels.value other = value := by
    intro other hmem hother
    cases List.mem_append.mp hmem with
    | inl hold => exact hguarded.current other hold hother
    | inr hlast => rw [List.mem_singleton.mp hlast, hvalue]
  refine ⟨?_, hcurrent, ?_, hguarded.moved, hguarded.increasing⟩
  · intro other hmem
    cases List.mem_append.mp hmem with
    | inl hold => exact hguarded.past other hold
    | inr hlast => rw [List.mem_singleton.mp hlast, hkey]
  · intro first hfirst second hsecond hsame
    by_cases hnow : labels.key second = key
    · rw [hcurrent first hfirst (hsame.trans hnow), hcurrent second hsecond hnow]
    · -- both were entered before
      have hold : ∀ other ∈ entries ++ [entry], labels.key other ≠ key → other ∈ entries := by
        intro other hmem hother
        apply (List.mem_append.mp hmem).resolve_right
        intro hlast
        exact hother (List.mem_singleton.mp hlast ▸ hkey)
      exact hguarded.unique first (hold first hfirst (hsame ▸ hnow)) second
        (hold second hsecond hnow) hsame

end LkChain.Foundation.Registers
