import LkChain.Foundation.Results

/-!
# Computations that return an error or panic

A call can stop short of its value in two ways. An error is an answer of the callee, a panic is not.
`Survives` says that a computation ends without a panic, with a value or with an error.
-/

namespace LkChain.Foundation.Stops

/-- The two ways in which a call stops short of its value. -/
inductive Stop (Panic Error : Type) where
  | error (cause : Error)
  | panic (cause : Panic)
deriving DecidableEq, Repr

variable {Panic Error Input Output : Type}

/-- The same stop, its error seen by the caller. -/
def Stop.map {Error' : Type} (wrap : Error → Error') : Stop Panic Error → Stop Panic Error'
  | .error cause => .error (wrap cause)
  | .panic cause => .panic cause

/-- What the caller of a check gets to see: nothing, or the error. -/
def answer : Except (Stop Panic Error) Unit → Except Panic (Option Error)
  | .ok () => .ok none
  | .error (.error cause) => .ok (some cause)
  | .error (.panic cause) => .error cause

/-- The computation ends without a panic. -/
def Survives (result : Except (Stop Panic Error) Output) : Prop :=
  ∀ panic, result ≠ .error (.panic panic)

section Rules

variable {first : Except (Stop Panic Error) Input}
  {next : Input → Except (Stop Panic Error) Output}

theorem answer_eq_none_iff {check : Except (Stop Panic Error) Unit} :
    answer check = .ok none ↔ check = .ok () := by
  cases check with
  | ok value => exact ⟨fun _ ↦ rfl, fun _ ↦ rfl⟩
  | error stop => cases stop <;> exact ⟨fun h ↦ (by cases h), fun h ↦ (by cases h)⟩

@[simp]
theorem survives_ok (output : Output) :
    Survives (.ok output : Except (Stop Panic Error) Output) := fun _ h ↦ (by cases h)

@[simp]
theorem survives_pure (output : Output) :
    Survives (pure output : Except (Stop Panic Error) Output) := fun _ h ↦ (by cases h)

@[simp]
theorem survives_error (error : Error) :
    Survives (.error (.error error) : Except (Stop Panic Error) Output) := fun _ h ↦ (by cases h)

@[simp]
theorem not_survives_panic (panic : Panic) :
    ¬ Survives (.error (.panic panic) : Except (Stop Panic Error) Output) := fun h ↦ h panic rfl

theorem survives_ite_error_iff {condition : Prop} [Decidable condition] {error : Error} :
    Survives (if condition then .error (.error error) else first) ↔
      (¬ condition → Survives first) := by
  split
  next hcondition => exact iff_of_true (survives_error error) fun h ↦ absurd hcondition h
  next hcondition => exact ⟨fun h _ ↦ h, fun h ↦ h hcondition⟩

/-- A sequence survives when its first step does, and the rest does on every value of it. -/
theorem survives_bind_iff :
    Survives (first >>= next) ↔
      Survives first ∧ ∀ input, first = .ok input → Survives (next input) := by
  cases first with
  | ok input =>
    have hbind : ((.ok input : Except (Stop Panic Error) Input) >>= next) = next input := rfl
    rw [hbind]
    exact ⟨fun h ↦ ⟨survives_ok input, fun other hother ↦ (by cases hother; exact h)⟩,
      fun h ↦ h.2 input rfl⟩
  | error stop =>
    have hbind : ((.error stop : Except (Stop Panic Error) Input) >>= next) = .error stop := rfl
    rw [hbind]
    constructor
    · intro h
      refine ⟨fun panic hpanic ↦ h panic ?_, fun input hinput ↦ (by cases hinput)⟩
      cases hpanic
      rfl
    · intro h panic hpanic
      cases hpanic
      exact h.1 panic rfl

theorem survives_mapError_iff {Error' : Type} (wrap : Error → Error') :
    Survives (first.mapError (Stop.map wrap)) ↔ Survives first := by
  cases first with
  | ok input => exact ⟨fun _ ↦ survives_ok input, fun _ ↦ survives_ok input⟩
  | error stop =>
    cases stop with
    | error cause => exact ⟨fun _ ↦ survives_error cause, fun _ ↦ survives_error (wrap cause)⟩
    | panic cause =>
      exact ⟨fun h ↦ absurd h (not_survives_panic cause),
        fun h ↦ absurd h (not_survives_panic cause)⟩

theorem survives_mapError_error {result : Except Error Output} :
    Survives (result.mapError (Stop.error : Error → Stop Panic Error)) := by
  cases result with
  | ok output => exact survives_ok output
  | error cause => exact survives_error cause

end Rules

end LkChain.Foundation.Stops
