import Mathlib.Algebra.Order.Ring.Int
import Mathlib.Data.List.AList
import Mathlib.Data.List.ReduceOption

/-!
# Cells that change one at a time

A list of cells stands for a heap. One cell is replaced by another one; what is counted in the
cells, or read from each of them, changes at most by the cell. In a map one value is replaced, and
the values of the other keys stay.
-/

namespace LkChain.Foundation.Cells

variable {Cell : Type} {cells : List Cell} {index : ℕ} {old new : Cell}

theorem length_lt_of_get (hget : cells[index]? = some old) : index < cells.length :=
  (List.getElem?_eq_some_iff.mp hget).1

theorem get_set_self (hget : cells[index]? = some old) : (cells.set index new)[index]? =
    some new := by
  rw [List.getElem?_set_self (length_lt_of_get hget)]

/-- A cell after the replacement is the new one or was there before. -/
theorem get_set {other : ℕ} {cell : Cell} (hget : (cells.set index new)[other]? = some cell) :
    other = index ∧ cell = new ∨ other ≠ index ∧ cells[other]? = some cell := by
  rw [List.getElem?_set] at hget
  split at hget
  next hsame =>
    split at hget
    next =>
      cases hget
      exact .inl ⟨hsame.symm, rfl⟩
    next => cases hget
  next hne => exact .inr ⟨Ne.symm hne, hget⟩

theorem mem_zip_of_get {after : List Cell} (hold : cells[index]? = some old)
    (hnew : after[index]? = some new) : (old, new) ∈ cells.zip after :=
  List.mem_of_getElem? (List.getElem?_zip_eq_some.mpr ⟨hold, hnew⟩)

theorem countP_set (counted : Cell → Bool) (hget : cells[index]? = some old) :
    ((cells.set index new).countP counted : ℤ) =
      cells.countP counted - (counted old).toNat + (counted new).toNat := by
  induction cells generalizing index with
  | nil => cases hget
  | cons cell cells ih =>
    cases index with
    | zero =>
      cases hget
      simp only [List.set_cons_zero, List.countP_cons]
      cases counted old <;> cases counted new <;> simp
    | succ index =>
      have ih := ih hget
      simp only [List.set_cons_succ, List.countP_cons]
      omega

theorem countP_add {first second both : Cell → Bool}
    (hadd : ∀ cell ∈ cells, (first cell).toNat + (second cell).toNat = (both cell).toNat) :
    cells.countP first + cells.countP second = cells.countP both := by
  induction cells with
  | nil => rfl
  | cons cell cells ih =>
    have hcell := hadd cell List.mem_cons_self
    have ih := ih fun cell hmem ↦ hadd cell (List.mem_cons_of_mem _ hmem)
    simp only [List.countP_cons]
    revert hcell
    cases first cell <;> cases second cell <;> cases both cell <;> simp <;> omega

/-- What is read from the cells stays, if it is the same for the new one. -/
theorem map_set {Value : Type} {value : Cell → Value} (hget : cells[index]? = some old)
    (hsame : value new = value old) : (cells.set index new).map value = cells.map value := by
  apply List.ext_getElem?
  intro other
  rw [List.getElem?_map, List.getElem?_map, List.getElem?_set]
  by_cases hother : index = other
  · subst hother
    rw [if_pos rfl, if_pos (length_lt_of_get hget), hget, Option.map_some, Option.map_some, hsame]
  · rw [if_neg hother]

theorem reduceOption_set_none {Key : Type} [DecidableEq Key] {keys : List (Option Key)}
    {first : Key}
    {rest : List Key} (hkeys : keys.reduceOption = first :: rest)
    (hfound : keys.findIdx? (fun key ↦ key = some first) = some index) :
    (keys.set index none).reduceOption = rest := by
  induction keys generalizing index with
  | nil => cases hkeys
  | cons key keys ih =>
    rw [List.findIdx?_cons] at hfound
    cases key with
    | none =>
      obtain ⟨later, hlater, rfl⟩ := Option.map_eq_some_iff.mp hfound
      rw [List.set_cons_succ, List.reduceOption_cons_of_none]
      exact ih hkeys hlater
    | some key =>
      rw [List.reduceOption_cons_of_some, List.cons.injEq] at hkeys
      obtain ⟨rfl, rfl⟩ := hkeys
      rw [if_pos (decide_eq_true rfl), Option.some.injEq] at hfound
      rw [← hfound, List.set_cons_zero, List.reduceOption_cons_of_none]

section Maps

variable {Key Value : Type} [DecidableEq Key] {map : AList fun _ : Key ↦ Value} {key : Key}
  {value : Value}

theorem forall_lookup_insert {holds : Key → Value → Prop} (hself : holds key value)
    (hothers : ∀ other ≠ key, ∀ found, map.lookup other = some found → holds other found)
    (other : Key) (found : Value) (hfound : (map.insert key value).lookup other = some found) :
    holds other found := by
  by_cases hother : other = key
  · subst hother
    rw [AList.lookup_insert, Option.some_inj] at hfound
    exact hfound ▸ hself
  · rw [AList.lookup_insert_ne hother] at hfound
    exact hothers other hother found hfound

theorem lookup_insert_eq_none {other : Key} (hnone : (map.insert key value).lookup other = none) :
    other ≠ key ∧ map.lookup other = none := by
  have hother : other ≠ key := by
    rintro rfl
    rw [AList.lookup_insert] at hnone
    cases hnone
  exact ⟨hother, (AList.lookup_insert_ne hother).symm.trans hnone⟩

end Maps

end LkChain.Foundation.Cells
