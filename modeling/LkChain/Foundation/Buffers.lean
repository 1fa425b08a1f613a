import Mathlib.Data.List.Induction
import Mathlib.Data.List.Nodup
import Mathlib.Order.Basic

/-!
# Flat buffers

A program that undoes part of its work may still collect what it did in one flat buffer, and clear
all of it at some of the failures. A step of such a program puts an element, whose effect survives
or is undone later, or it clears the buffer. The buffer ends up with what survives exactly when
nothing that survives was put before a clearing, and everything that is undone was.
-/

namespace LkChain.Foundation.Buffers

inductive Step (Element : Type) where
  | put (element : Element) (survives : Bool)
  | clear

variable {Element : Type}

/-- Whether the element that is put survives; nothing for a clearing. -/
def Step.fate : Step Element → Option Bool
  | .put _ survives => some survives
  | .clear => none

/-- The buffer after a step. -/
def keep (buffer : List Element) : Step Element → List Element
  | .put element _ => buffer ++ [element]
  | .clear => []

/-- What is in the buffer after some steps. -/
def kept (steps : List (Step Element)) : List Element := steps.foldl keep []

/-- Every element that is put. -/
def puts (steps : List (Step Element)) : List Element :=
  steps.filterMap fun step ↦ match step with
    | .put element _ => some element
    | .clear => none

/-- The elements that survive. -/
def wanted (steps : List (Step Element)) : List Element :=
  steps.filterMap fun step ↦ match step with
    | .put element true => some element
    | _ => none

/-- Nothing that survives is put before a clearing. -/
def NoneLost (steps : List (Step Element)) : Prop :=
  steps.Pairwise fun earlier later ↦ later.fate = none → earlier.fate ≠ some true

/-- Everything that does not survive is put before a clearing. -/
def NoneLeft : List (Step Element) → Prop
  | [] => True
  | step :: rest => (step.fate = some false → ∃ later ∈ rest, later.fate = none) ∧ NoneLeft rest

section Last

variable (steps : List (Step Element)) (step : Step Element) (element : Element) (survives : Bool)

theorem kept_put : kept (steps ++ [.put element survives]) = kept steps ++ [element] := by
  rw [kept, List.foldl_append]
  rfl

theorem kept_clear : kept (steps ++ [.clear]) = [] := by
  rw [kept, List.foldl_append]
  rfl

theorem puts_put : puts (steps ++ [.put element survives]) = puts steps ++ [element] := by
  rw [puts, List.filterMap_append]
  rfl

theorem puts_clear : puts (steps ++ [.clear]) = puts steps := by
  rw [puts, List.filterMap_append]
  exact List.append_nil _

theorem wanted_put : wanted (steps ++ [.put element survives]) =
    wanted steps ++ if survives then [element] else [] := by
  rw [wanted, List.filterMap_append]
  cases survives <;> rfl

theorem wanted_clear : wanted (steps ++ [.clear]) = wanted steps := by
  rw [wanted, List.filterMap_append]
  exact List.append_nil _

theorem noneLost_concat : NoneLost (steps ++ [step]) ↔
    NoneLost steps ∧ (step.fate = none → ∀ earlier ∈ steps, earlier.fate ≠ some true) := by
  unfold NoneLost
  rw [List.pairwise_append]
  simp only [List.pairwise_singleton, List.mem_singleton, forall_eq, true_and]
  exact and_congr_right fun _ ↦
    ⟨fun h hclear earlier hearlier ↦ h earlier hearlier hclear,
      fun h earlier hearlier hclear ↦ h hclear earlier hearlier⟩

theorem noneLeft_concat : NoneLeft (steps ++ [step]) ↔
    step.fate = none ∨ NoneLeft steps ∧ step.fate ≠ some false := by
  induction steps with
  | nil => cases step <;> simp [NoneLeft, Step.fate]
  | cons first steps ih =>
    rw [List.cons_append, NoneLeft, NoneLeft, ih]
    simp only [List.mem_append, List.mem_singleton]
    constructor
    · rintro ⟨hfirst, hclear | ⟨hleft, hstep⟩⟩
      · exact .inl hclear
      · by_cases hclear : step.fate = none
        · exact .inl hclear
        · refine .inr ⟨⟨fun hundone ↦ ?_, hleft⟩, hstep⟩
          obtain ⟨later, hlater | rfl, hfate⟩ := hfirst hundone
          · exact ⟨later, hlater, hfate⟩
          · exact absurd hfate hclear
    · rintro (hclear | ⟨⟨hfirst, hleft⟩, hstep⟩)
      · exact ⟨fun _ ↦ ⟨step, .inr rfl, hclear⟩, .inl hclear⟩
      · refine ⟨fun hundone ↦ ?_, .inr ⟨hleft, hstep⟩⟩
        obtain ⟨later, hlater, hfate⟩ := hfirst hundone
        exact ⟨later, .inl hlater, hfate⟩

end Last

variable {steps : List (Step Element)}

theorem kept_subset : kept steps ⊆ puts steps := by
  induction steps using List.reverseRecOn with
  | nil => exact List.nil_subset _
  | append_singleton steps step ih =>
    cases step with
    | put element survives =>
      rw [kept_put, puts_put]
      exact List.append_subset.mpr ⟨List.Subset.trans ih (List.subset_append_left _ _),
        List.subset_append_right _ _⟩
    | clear =>
      rw [kept_clear]
      exact List.nil_subset _

theorem wanted_subset : wanted steps ⊆ puts steps := by
  induction steps using List.reverseRecOn with
  | nil => exact List.nil_subset _
  | append_singleton steps step ih =>
    cases step with
    | put element survives =>
      rw [wanted_put, puts_put]
      refine List.append_subset.mpr ⟨List.Subset.trans ih (List.subset_append_left _ _), ?_⟩
      cases survives with
      | false => exact List.nil_subset _
      | true => exact List.subset_append_right _ _
    | clear =>
      rw [wanted_clear, puts_clear]
      exact ih

theorem wanted_eq_nil_iff : wanted steps = [] ↔ ∀ step ∈ steps, step.fate ≠ some true := by
  unfold wanted
  rw [List.filterMap_eq_nil_iff]
  apply forall₂_congr
  intro step _
  cases step with
  | put element survives => cases survives <;> simp [Step.fate]
  | clear => simp [Step.fate]

/-- When the elements are different, the buffer ends up with what survives exactly when nothing is
lost and nothing is left over. -/
theorem kept_exact_iff (hnodup : (puts steps).Nodup) :
    (∀ element, element ∈ kept steps ↔ element ∈ wanted steps) ↔
      NoneLost steps ∧ NoneLeft steps := by
  induction steps using List.reverseRecOn with
  | nil => simp [kept, wanted, NoneLost, NoneLeft]
  | append_singleton steps step ih =>
    rw [noneLost_concat, noneLeft_concat]
    cases step with
    | clear =>
      rw [kept_clear, wanted_clear]
      simp only [Step.fate, forall_const, true_or, and_true, List.not_mem_nil, false_iff]
      rw [← List.eq_nil_iff_forall_not_mem, wanted_eq_nil_iff]
      refine ⟨fun hundone ↦ ⟨?_, hundone⟩, And.right⟩
      apply List.pairwise_of_forall_mem_list
      exact fun earlier hearlier _ _ _ ↦ hundone earlier hearlier
    | put element survives =>
      rw [puts_put, List.nodup_append] at hnodup
      have hfresh : element ∉ puts steps := fun hmem ↦
        hnodup.2.2 element hmem element List.mem_cons_self rfl
      have hnotKept : element ∉ kept steps := fun hmem ↦ hfresh (kept_subset hmem)
      have hnotWanted : element ∉ wanted steps := fun hmem ↦ hfresh (wanted_subset hmem)
      rw [kept_put, wanted_put]
      cases survives with
      | false =>
        simp only [Step.fate, Bool.false_eq_true, if_false, List.append_nil]
        constructor
        · intro hexact
          exact absurd ((hexact element).mp (List.mem_append_right _ List.mem_cons_self)) hnotWanted
        · intro hright
          simp at hright
      | true =>
        simp only [Step.fate, if_true, List.mem_append, List.mem_singleton]
        have hothers : (∀ other, other ∈ kept steps ∨ other = element ↔
            other ∈ wanted steps ∨ other = element) ↔
            ∀ other, other ∈ kept steps ↔ other ∈ wanted steps := by
          apply forall_congr'
          intro other
          by_cases hsame : other = element
          · subst hsame
            simp [hnotKept, hnotWanted]
          · simp [hsame]
        rw [hothers, ih hnodup.1]
        simp

/-! ## Numbering -/

/-- The elements with the numbers under which they are put. -/
def numbered : ℕ → List (Step Element) → List (Step (ℕ × Element))
  | _, [] => []
  | number, .put element survives :: rest =>
    .put (number, element) survives :: numbered (number + 1) rest
  | number, .clear :: rest => .clear :: numbered number rest

theorem map_fate_numbered (number : ℕ) :
    (numbered number steps).map Step.fate = steps.map Step.fate := by
  induction steps generalizing number with
  | nil => rfl
  | cons step steps ih =>
    cases step with
    | put element survives => exact congrArg _ (ih (number + 1))
    | clear => exact congrArg _ (ih number)

theorem noneLost_numbered (number : ℕ) : NoneLost (numbered number steps) ↔ NoneLost steps := by
  have hfates : ∀ {Element : Type} (steps : List (Step Element)), NoneLost steps ↔
      (steps.map Step.fate).Pairwise fun earlier later ↦ later = none → earlier ≠ some true :=
    fun steps ↦ (List.pairwise_map (R := fun earlier later : Option Bool ↦
      later = none → earlier ≠ some true)).symm
  rw [hfates, hfates, map_fate_numbered]

theorem noneLeft_numbered (number : ℕ) : NoneLeft (numbered number steps) ↔ NoneLeft steps := by
  have hexists : ∀ {Element : Type} (steps : List (Step Element)),
      (∃ later ∈ steps, later.fate = none) ↔ none ∈ steps.map Step.fate :=
    fun _ ↦ List.mem_map.symm
  induction steps generalizing number with
  | nil => exact Iff.rfl
  | cons step steps ih =>
    cases step with
    | put element survives =>
      apply and_congr _ (ih (number + 1))
      rw [hexists, hexists, map_fate_numbered]
      exact Iff.rfl
    | clear =>
      apply and_congr _ (ih number)
      rw [hexists, hexists, map_fate_numbered]
      exact Iff.rfl

theorem le_of_mem_puts {number : ℕ} {element : ℕ × Element}
    (hmem : element ∈ puts (numbered number steps)) : number ≤ element.1 := by
  induction steps generalizing number with
  | nil => cases hmem
  | cons step steps ih =>
    cases step with
    | put other survives =>
      cases List.mem_cons.mp hmem with
      | inl hhead => exact hhead ▸ Nat.le_refl number
      | inr htail => exact Nat.le_of_succ_le (ih htail)
    | clear => exact ih hmem

theorem nodup_puts_numbered (number : ℕ) : (puts (numbered number steps)).Nodup := by
  induction steps generalizing number with
  | nil => exact List.nodup_nil
  | cons step steps ih =>
    cases step with
    | put element survives =>
      refine List.nodup_cons.mpr ⟨fun hmem ↦ ?_, ih (number + 1)⟩
      exact absurd (le_of_mem_puts hmem) (Nat.not_succ_le_self number)
    | clear => exact ih number

theorem map_snd_wanted_numbered (number : ℕ) :
    (wanted (numbered number steps)).map Prod.snd = wanted steps := by
  induction steps generalizing number with
  | nil => rfl
  | cons step steps ih =>
    cases step with
    | put element survives =>
      cases survives with
      | true => exact congrArg _ (ih (number + 1))
      | false => exact ih (number + 1)
    | clear => exact ih number

end LkChain.Foundation.Buffers
