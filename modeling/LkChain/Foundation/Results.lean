import Mathlib.Logic.Basic

/-!
# Computations that may fail

A sequence of fallible steps returns a value exactly when every step does. `Returns` forgets the
value: it is the totality statement of a single computation.
-/

namespace LkChain.Foundation.Results

variable {Error Input Output : Type} {first : Except Error Input}
  {next : Input → Except Error Output}

theorem bind_eq_ok_iff {output : Output} :
    (first >>= next) = .ok output ↔ ∃ input, first = .ok input ∧ next input = .ok output := by
  cases first with
  | error error => exact ⟨fun h ↦ (by cases h), fun ⟨_, h, _⟩ ↦ (by cases h)⟩
  | ok input => exact ⟨fun h ↦ ⟨input, rfl, h⟩, fun ⟨_, h, hnext⟩ ↦ (by cases h; exact hnext)⟩

theorem mapError_eq_ok_iff {Error' : Type} {wrap : Error → Error'} {input : Input} :
    first.mapError wrap = .ok input ↔ first = .ok input := by
  cases first with
  | error error => exact ⟨fun h ↦ (by cases h), fun h ↦ (by cases h)⟩
  | ok found => exact ⟨fun h ↦ (by cases h; rfl), fun h ↦ (by cases h; rfl)⟩

theorem ite_error_eq_ok_iff {condition : Prop} [Decidable condition] {error : Error}
    {input : Input} :
    (if condition then .error error else first) = .ok input ↔ ¬ condition ∧ first = .ok input := by
  split
  next h => exact ⟨fun hok ↦ (by cases hok), fun hok ↦ absurd h hok.1⟩
  next h => exact ⟨fun hok ↦ ⟨h, hok⟩, And.right⟩

/-- The computation returns a value. -/
def Returns (result : Except Error Output) : Prop := ∃ output, result = .ok output

@[simp]
theorem returns_ok (output : Output) : Returns (.ok output : Except Error Output) := ⟨output, rfl⟩

@[simp]
theorem returns_pure (output : Output) : Returns (pure output : Except Error Output) :=
  ⟨output, rfl⟩

@[simp]
theorem not_returns_error (error : Error) : ¬ Returns (.error error : Except Error Output) :=
  fun ⟨_, h⟩ ↦ (by cases h)

theorem returns_bind_iff :
    Returns (first >>= next) ↔ ∃ input, first = .ok input ∧ Returns (next input) := by
  unfold Returns
  simp only [bind_eq_ok_iff]
  exact ⟨fun ⟨output, input, hfirst, hnext⟩ ↦ ⟨input, hfirst, output, hnext⟩,
    fun ⟨input, hfirst, output, hnext⟩ ↦ ⟨output, input, hfirst, hnext⟩⟩

/-- What is done with the value at the end does not decide whether there is one. -/
theorem returns_bind_pure_iff {finish : Input → Output} :
    Returns (first >>= fun input ↦ pure (finish input)) ↔ Returns first := by
  rw [returns_bind_iff]
  exact ⟨fun ⟨input, hfirst, _⟩ ↦ ⟨input, hfirst⟩,
    fun ⟨input, hfirst⟩ ↦ ⟨input, hfirst, returns_pure _⟩⟩

end LkChain.Foundation.Results
