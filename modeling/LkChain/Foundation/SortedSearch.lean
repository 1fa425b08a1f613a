import Mathlib.Data.List.Basic
import Mathlib.Order.Lattice

/-!
# Positions in a sorted list

A list sorted by a key is cut at a bound into the elements below it and the others. On a sorted list
this is the position a binary search finds. Inserting, replacing and removing at the cut keep the
order.
-/

namespace LkChain.Foundation.SortedSearch

variable {Element Key : Type*} [LinearOrder Key] (key : Element → Key)

/-- Strictly increasing keys. -/
def Sorted (elements : List Element) : Prop := elements.Pairwise fun a b ↦ key a < key b

/-- The elements below the bound at the front of the list, and the rest from there on. -/
def search (bound : Key) : List Element → List Element × List Element
  | [] => ([], [])
  | element :: rest =>
    if key element < bound then (element :: (search bound rest).1, (search bound rest).2)
    else ([], element :: rest)

theorem search_append (bound : Key) (elements : List Element) :
    (search key bound elements).1 ++ (search key bound elements).2 = elements := by
  induction elements with
  | nil => rfl
  | cons element rest ih =>
    unfold search
    split
    · exact congrArg (List.cons element) ih
    · rfl

theorem lt_of_mem_front {bound : Key} {elements : List Element} :
    ∀ element ∈ (search key bound elements).1, key element < bound := by
  induction elements with
  | nil => exact fun element hmem ↦ absurd hmem List.not_mem_nil
  | cons first rest ih =>
    unfold search
    split
    next hlt => exact List.forall_mem_cons.mpr ⟨hlt, ih⟩
    next => exact fun element hmem ↦ absurd hmem List.not_mem_nil

section Sorted

variable {key} {bound : Key} {elements : List Element}

theorem le_of_mem_back (hsorted : Sorted key elements) :
    ∀ element ∈ (search key bound elements).2, bound ≤ key element := by
  induction elements with
  | nil => exact fun element hmem ↦ absurd hmem List.not_mem_nil
  | cons first rest ih =>
    obtain ⟨hfirst, hrest⟩ := List.pairwise_cons.mp hsorted
    unfold search
    split
    next => exact ih hrest
    next hge =>
      have hbound := not_lt.mp hge
      exact List.forall_mem_cons.mpr
        ⟨hbound, fun element hmem ↦ hbound.trans (hfirst element hmem).le⟩

/-- The search finds the element whose key is the bound, at the head of the back part. -/
theorem back_of_mem (hsorted : Sorted key elements) {element : Element}
    (hmem : element ∈ elements) (hkey : key element = bound) :
    ∃ rest, (search key bound elements).2 = element :: rest := by
  induction elements with
  | nil => exact absurd hmem List.not_mem_nil
  | cons first rest ih =>
    obtain ⟨hfirst, hrest⟩ := List.pairwise_cons.mp hsorted
    unfold search
    cases List.mem_cons.mp hmem with
    | inl hsame =>
      subst hsame
      rw [if_neg hkey.not_lt]
      exact ⟨rest, rfl⟩
    | inr htail =>
      rw [if_pos (hkey ▸ hfirst element htail)]
      exact ih hrest htail

variable {front back : List Element} {element old : Element}

/-- Between the two parts there is room for a key that neither has. -/
theorem Sorted.insert (hsorted : Sorted key (front ++ back))
    (hfront : ∀ other ∈ front, key other < key element)
    (hback : ∀ other ∈ back, key element < key other) :
    Sorted key (front ++ element :: back) := by
  obtain ⟨hleft, hright, hcross⟩ := List.pairwise_append.mp hsorted
  apply List.pairwise_append.mpr
  refine ⟨hleft, List.pairwise_cons.mpr ⟨hback, hright⟩, ?_⟩
  intro low hlow high hhigh
  cases List.mem_cons.mp hhigh with
  | inl hsame => exact hsame ▸ hfront low hlow
  | inr hmem => exact hcross low hlow high hmem

theorem Sorted.remove (hsorted : Sorted key (front ++ old :: back)) :
    Sorted key (front ++ back) :=
  hsorted.sublist ((List.Sublist.refl front).append (List.sublist_cons_self old back))

theorem Sorted.replace (hsorted : Sorted key (front ++ old :: back))
    (hkey : key element = key old) : Sorted key (front ++ element :: back) := by
  obtain ⟨-, hright, hcross⟩ := List.pairwise_append.mp hsorted
  apply hsorted.remove.insert
  · intro other hother
    rw [hkey]
    exact hcross other hother old List.mem_cons_self
  · intro other hother
    rw [hkey]
    exact (List.pairwise_cons.mp hright).1 other hother

end Sorted

end LkChain.Foundation.SortedSearch
