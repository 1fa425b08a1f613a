import Mathlib.Algebra.BigOperators.Group.Finset.Piecewise
import Mathlib.Algebra.BigOperators.Group.List.Basic
import Mathlib.Algebra.Group.Nat.Even
import Mathlib.Algebra.Order.BigOperators.Group.Finset
import Mathlib.Algebra.Order.BigOperators.Group.List
import Mathlib.Algebra.Order.Ring.Int
import Mathlib.Data.List.Nodup
import Mathlib.Data.List.Perm.Basic

/-!
# Rosters

A roster gives weights to some keys. An item revises one of them: it adds an unknown key, removes a
known one when its weight is zero, and replaces the weight otherwise. Programs keep a roster as a
list of pairs in an order of their own; `Represents` relates such a list to the table it stands for,
and its rules say which change of the list carries out which item. `enter` is the change of a list
that is edited in place.
-/

namespace LkChain.Foundation.Roster

variable {Key : Type*}

/-- The weight of each key that is in the roster. -/
abbrev Table (Key : Type*) := Key → Option ℤ

/-- A list of pairs in which each key of the table stands once, with its weight. -/
structure Represents (pairs : List (Key × ℤ)) (table : Table Key) : Prop where
  nodup : (pairs.map Prod.fst).Nodup
  mem_iff : ∀ key weight, (key, weight) ∈ pairs ↔ table key = some weight

/-- The sum of the weights of a list. -/
def total (pairs : List (Key × ℤ)) : ℤ := (pairs.map Prod.snd).sum

/-- By how much a new weight differs from the current one. -/
def shift (current : Option ℤ) (weight : ℤ) : ℤ :=
  match current with
  | none => weight
  | some old => |old - weight|

/-- How far a list of items moves a roster, all items measured against the same table. -/
def drift (table : Table Key) (items : List (Key × ℤ)) : ℤ :=
  (items.map fun item ↦ shift (table item.1) item.2).sum

theorem total_perm {pairs pairs' : List (Key × ℤ)} (hperm : pairs.Perm pairs') :
    total pairs = total pairs' := (hperm.map Prod.snd).sum_eq

theorem shift_nonneg {current : Option ℤ} {weight : ℤ} (hweight : 0 ≤ weight) :
    0 ≤ shift current weight := by
  cases current with
  | none => exact hweight
  | some old => exact abs_nonneg _

section Represents

variable {pairs pairs' rest : List (Key × ℤ)} {table : Table Key} {key : Key} {old : ℤ}

theorem Represents.perm (hpairs : Represents pairs table) (hperm : pairs.Perm pairs') :
    Represents pairs' table where
  nodup := (hperm.map Prod.fst).nodup_iff.mp hpairs.nodup
  mem_iff key weight := by rw [← hperm.mem_iff, hpairs.mem_iff]

theorem Represents.perm_of (hpairs : Represents pairs table) (hpairs' : Represents pairs' table) :
    pairs.Perm pairs' := by
  apply (List.perm_ext_iff_of_nodup hpairs.nodup.of_map hpairs'.nodup.of_map).mpr
  intro ⟨key, weight⟩
  rw [hpairs.mem_iff, hpairs'.mem_iff]

theorem Represents.eq_none_iff (hpairs : Represents pairs table) :
    table key = none ↔ key ∉ pairs.map Prod.fst := by
  constructor
  · intro hnone hmem
    obtain ⟨⟨_, weight⟩, hpair, rfl⟩ := List.mem_map.mp hmem
    rw [(hpairs.mem_iff _ weight).mp hpair] at hnone
    cases hnone
  · intro hmem
    cases hweight : table key with
    | none => rfl
    | some weight =>
      have hpair := (hpairs.mem_iff key weight).mpr hweight
      exact absurd (List.mem_map.mpr ⟨_, hpair, rfl⟩) hmem

theorem Represents.head (hpairs : Represents ((key, old) :: rest) table) :
    table key = some old := (hpairs.mem_iff key old).mp List.mem_cons_self

theorem Represents.tail_iff (hpairs : Represents ((key, old) :: rest) table) (observed : Key)
    (value : ℤ) : (observed, value) ∈ rest ↔ observed ≠ key ∧ table observed = some value := by
  have hkey : key ∉ rest.map Prod.fst := (List.nodup_cons.mp hpairs.nodup).1
  rw [← hpairs.mem_iff, List.mem_cons]
  constructor
  · intro hmem
    refine ⟨?_, Or.inr hmem⟩
    intro hsame
    exact hkey (List.mem_map.mpr ⟨_, hmem, hsame⟩)
  · intro ⟨hne, hmem⟩
    cases hmem with
    | inl hhead => exact absurd (congrArg Prod.fst hhead) hne
    | inr hrest => exact hrest

end Represents

section Revision

variable [DecidableEq Key]

/-- Add an unknown key, remove a known one with weight zero, replace the weight otherwise. -/
def revise (table : Table Key) (item : Key × ℤ) : Table Key :=
  Function.update table item.1
    (if (table item.1).isSome ∧ item.2 = 0 then none else some item.2)

def reviseAll (table : Table Key) (items : List (Key × ℤ)) : Table Key := items.foldl revise table

/-- The table of a list: the first weight filed under each key. -/
def lookup (pairs : List (Key × ℤ)) : Table Key :=
  fun key ↦ (pairs.find? fun pair ↦ pair.1 = key).map Prod.snd

variable {pairs pairs' rest items : List (Key × ℤ)} {table : Table Key} {key : Key}
  {weight old : ℤ}

theorem represents_lookup (hnodup : (pairs.map Prod.fst).Nodup) :
    Represents pairs (lookup pairs) where
  nodup := hnodup
  mem_iff key weight := by
    induction pairs with
    | nil => simp [lookup]
    | cons pair pairs ih =>
      obtain ⟨hfresh, hnodup⟩ := List.nodup_cons.mp hnodup
      have htail := ih hnodup
      unfold lookup at htail ⊢
      rw [List.mem_cons, List.find?_cons]
      by_cases hsame : pair.1 = key
      · have habsent : (key, weight) ∉ pairs :=
          fun hmem ↦ hfresh (List.mem_map.mpr ⟨_, hmem, hsame.symm⟩)
        simp [habsent, Prod.ext_iff, hsame, eq_comm]
      · have hother : (key, weight) ≠ pair := fun heq ↦ hsame (congrArg Prod.fst heq).symm
        simp [htail, hother, hsame]

theorem Represents.lookup_eq (hpairs : Represents pairs table) : lookup pairs = table := by
  ext key weight
  rw [← (represents_lookup hpairs.nodup).mem_iff, hpairs.mem_iff]

theorem Represents.add (hpairs : Represents pairs table) (habsent : table key = none) :
    Represents ((key, weight) :: pairs) (revise table (key, weight)) where
  nodup := List.nodup_cons.mpr ⟨hpairs.eq_none_iff.mp habsent, hpairs.nodup⟩
  mem_iff observed value := by
    have hfresh : ∀ value, (key, value) ∉ pairs := by
      intro value hmem
      rw [hpairs.mem_iff, habsent] at hmem
      cases hmem
    rw [List.mem_cons, revise, habsent]
    by_cases hsame : observed = key
    · subst hsame
      simp [hfresh value, eq_comm]
    · simp [hsame, hpairs.mem_iff]

theorem Represents.remove (hpairs : Represents ((key, old) :: rest) table) :
    Represents rest (revise table (key, 0)) where
  nodup := (List.nodup_cons.mp hpairs.nodup).2
  mem_iff observed value := by
    rw [hpairs.tail_iff, revise, hpairs.head]
    by_cases hsame : observed = key
    · subst hsame
      simp
    · simp [hsame]

theorem Represents.replace (hpairs : Represents ((key, old) :: rest) table)
    (hweight : weight ≠ 0) :
    Represents ((key, weight) :: rest) (revise table (key, weight)) where
  nodup := hpairs.nodup
  mem_iff observed value := by
    rw [List.mem_cons, hpairs.tail_iff, revise]
    by_cases hsame : observed = key
    · subst hsame
      simp only [Prod.mk.injEq, true_and, ne_eq, not_true_eq_false, false_and, or_false,
        Function.update_self, hweight, and_false, if_false, Option.some.injEq]
      exact eq_comm
    · simp [hsame]

/-! ## Revising by many items -/

theorem reviseAll_append {later : List (Key × ℤ)} :
    reviseAll table (items ++ later) = reviseAll (reviseAll table items) later := List.foldl_append

/-- The weights that the items give to a key, in order. -/
def weightsOf (key : Key) (items : List (Key × ℤ)) : List ℤ :=
  (items.filter fun item ↦ item.1 = key).map Prod.snd

/-- What items with these weights make of the weight of their key. -/
def follow (current : Option ℤ) (weights : List ℤ) : Option ℤ :=
  weights.foldl (fun current weight ↦ if current.isSome ∧ weight = 0 then none else some weight)
    current

theorem reviseAll_apply :
    reviseAll table items key = follow (table key) (weightsOf key items) := by
  induction items generalizing table with
  | nil => rfl
  | cons item items ih =>
    have hstep : reviseAll table (item :: items) key = reviseAll (revise table item) items key :=
      rfl
    rw [hstep, ih]
    unfold weightsOf
    by_cases hsame : item.1 = key
    · subst hsame
      rw [List.filter_cons_of_pos (by simp), List.map_cons, revise, Function.update_self]
      rfl
    · rw [List.filter_cons_of_neg (by simpa using hsame), revise,
        Function.update_of_ne (Ne.symm hsame)]

theorem follow_append (current : Option ℤ) (weights : List ℤ) (weight : ℤ) :
    follow current (weights ++ [weight]) =
      if (follow current weights).isSome ∧ weight = 0 then none else some weight := by
  unfold follow
  rw [List.foldl_append, List.foldl_cons, List.foldl_nil]

theorem getD_follow_append (current : Option ℤ) (weights : List ℤ) (weight : ℤ) :
    (follow current (weights ++ [weight])).getD 0 = weight := by
  rw [follow_append]
  split
  next hremoved => exact hremoved.2.symm
  next => rfl

/-- The last weight that is not zero. -/
def lastWeight (weights : List ℤ) : Option ℤ := weights.reverse.find? (· ≠ 0)

/-- How many zeros come after it. -/
def removals (weights : List ℤ) : ℕ := (weights.reverse.takeWhile (· = 0)).length

theorem lastWeight_append (weights : List ℤ) (weight : ℤ) :
    lastWeight (weights ++ [weight]) = if weight = 0 then lastWeight weights else some weight := by
  unfold lastWeight
  rw [List.reverse_append, List.reverse_singleton, List.singleton_append, List.find?_cons]
  by_cases hzero : weight = 0 <;> simp [hzero]

theorem removals_append (weights : List ℤ) (weight : ℤ) :
    removals (weights ++ [weight]) = if weight = 0 then removals weights + 1 else 0 := by
  unfold removals
  rw [List.reverse_append, List.reverse_singleton, List.singleton_append, List.takeWhile_cons]
  by_cases hzero : weight = 0 <;> simp [hzero]

/-- The weights leave a key with its last weight; zeros after it remove the key and add it again by
turns. -/
theorem follow_eq (current : Option ℤ) (weights : List ℤ) :
    follow current weights =
      if removals weights = 0 then (lastWeight weights).or current
      else if ((lastWeight weights).or current).isSome ↔ Odd (removals weights) then none
      else some 0 := by
  induction weights using List.reverseRecOn with
  | nil => rfl
  | append_singleton weights weight ih =>
    rw [follow_append, lastWeight_append, removals_append, ih]
    by_cases hzero : weight = 0
    · simp only [hzero, and_true, if_true]
      grind
    · simp [hzero]

/-- The weights of a key lead back to the weight that it has. -/
def EndsAt (current : Option ℤ) (weights : List ℤ) : Prop :=
  match lastWeight weights with
  | none => removals weights = 0 ∨ Even (removals weights) ∧ current.getD 0 = 0
  | some weight =>
    if removals weights = 0 then current = some weight
    else if Odd (removals weights) then current = none else current = some 0

/-- The weights of a key leave it in the roster if it is there, and outside otherwise. -/
def Stays (current : Option ℤ) (weights : List ℤ) : Prop :=
  (current.isSome ∨ lastWeight weights = none) ↔ Even (removals weights)

theorem follow_eq_self_iff {current : Option ℤ} {weights : List ℤ} :
    follow current weights = current ↔ EndsAt current weights := by
  rw [follow_eq]
  unfold EndsAt
  cases lastWeight weights <;> cases current <;> grind

theorem isSome_follow_iff {current : Option ℤ} {weights : List ℤ} :
    ((follow current weights).isSome ↔ current.isSome) ↔ Stays current weights := by
  rw [follow_eq]
  unfold Stays
  cases lastWeight weights <;> cases current <;> grind

theorem removals_eq_zero_iff {weights : List ℤ} (hzeros : lastWeight weights = none) :
    removals weights = 0 ↔ weights = [] := by
  cases weights using List.reverseRecOn with
  | nil => exact iff_of_true rfl rfl
  | append_singleton weights weight =>
    have hzero : weight = 0 := by
      by_contra hne
      rw [lastWeight_append, if_neg hne] at hzeros
      cases hzeros
    rw [removals_append, if_pos hzero]
    exact iff_of_false (Nat.succ_ne_zero _) (by simp)

/-- The same weights make two keys alike: keys that differ need a weight, and keys of which one is
missing need a weight that is not zero. -/
theorem follow_eq_follow_iff {first second : Option ℤ} {weights : List ℤ} :
    follow first weights = follow second weights ↔ (weights = [] → first = second) ∧
      (lastWeight weights = none → (first.isSome ↔ second.isSome)) := by
  rw [follow_eq, follow_eq]
  cases hlast : lastWeight weights with
  | none =>
    have hempty := removals_eq_zero_iff hlast
    grind
  | some weight =>
    have hne : weights ≠ [] := by
      rintro rfl
      cases hlast
    simp [hne]

theorem follow_nonneg {current : Option ℤ} {weights : List ℤ}
    (hcurrent : ∀ weight ∈ current, 0 ≤ weight) (hweights : ∀ weight ∈ weights, 0 ≤ weight) :
    ∀ weight ∈ follow current weights, 0 ≤ weight := by
  cases weights using List.reverseRecOn with
  | nil => exact hcurrent
  | append_singleton weights weight =>
    have hlast : 0 ≤ weight := hweights weight (by simp)
    rw [follow_append]
    split
    next => exact fun other hother ↦ absurd hother (Option.not_mem_none other)
    next => exact fun other hother ↦ Option.mem_some.mp hother ▸ hlast

/-- Items that give every key the weight it has change nothing. -/
theorem reviseAll_eq_self (hitems : ∀ item ∈ items, item.2 ≠ 0 ∧ table item.1 = some item.2) :
    reviseAll table items = table := by
  induction items with
  | nil => rfl
  | cons item items ih =>
    obtain ⟨⟨hne, hsame⟩, hrest⟩ := List.forall_mem_cons.mp hitems
    have hstep : revise table item = table := by
      unfold revise
      rw [if_neg (fun h ↦ hne h.2), ← hsame, Function.update_eq_self]
    show reviseAll (revise table item) items = table
    rw [hstep]
    exact ih hrest

theorem shift_eq_abs {current : Option ℤ} (hweight : 0 ≤ weight) :
    shift current weight = |weight - current.getD 0| := by
  cases current with
  | none =>
    rw [Option.getD_none, sub_zero, abs_of_nonneg hweight]
    rfl
  | some old => exact abs_sub_comm old weight

/-- The items of a key move its weight by at most the sum of their shifts. -/
theorem abs_follow_sub_le {current : Option ℤ} {weights : List ℤ}
    (hnonneg : ∀ weight ∈ weights, 0 ≤ weight) :
    |(follow current weights).getD 0 - current.getD 0| ≤ (weights.map (shift current)).sum := by
  induction weights using List.reverseRecOn with
  | nil => simp [follow]
  | append_singleton weights weight _ =>
    rw [List.forall_mem_append] at hnonneg
    have hlast : 0 ≤ weight := hnonneg.2 weight List.mem_cons_self
    have hearlier : 0 ≤ (weights.map (shift current)).sum := by
      apply List.sum_nonneg
      intro step hstep
      obtain ⟨weight, hweight, rfl⟩ := List.mem_map.mp hstep
      exact shift_nonneg (hnonneg.1 weight hweight)
    calc |(follow current (weights ++ [weight])).getD 0 - current.getD 0|
        = shift current weight := by rw [getD_follow_append, shift_eq_abs hlast]
      _ ≤ (weights.map (shift current)).sum + shift current weight := le_add_of_nonneg_left hearlier
      _ = ((weights ++ [weight]).map (shift current)).sum := by simp

theorem sum_shift_weightsOf {keys : Finset Key} (hkeys : ∀ item ∈ items, item.1 ∈ keys) :
    ∑ key ∈ keys, ((weightsOf key items).map (shift (table key))).sum = drift table items := by
  induction items with
  | nil => simp [weightsOf, drift]
  | cons item items ih =>
    rw [List.forall_mem_cons] at hkeys
    have hsplit : ∀ key ∈ keys, ((weightsOf key (item :: items)).map (shift (table key))).sum =
        (if key = item.1 then shift (table item.1) item.2 else 0) +
          ((weightsOf key items).map (shift (table key))).sum := by
      intro key _
      unfold weightsOf
      by_cases hsame : item.1 = key
      · subst hsame
        simp
      · simp [hsame, Ne.symm hsame]
    rw [Finset.sum_congr rfl hsplit, Finset.sum_add_distrib, ih hkeys.2, Finset.sum_ite_eq',
      if_pos hkeys.1]
    exact List.sum_cons.symm

theorem Represents.total_eq {keys : Finset Key} (hpairs : Represents pairs table)
    (hkeys : ∀ key, table key ≠ none → key ∈ keys) :
    total pairs = ∑ key ∈ keys, (table key).getD 0 := by
  have hsubset : (pairs.map Prod.fst).toFinset ⊆ keys := by
    intro key hkey
    apply hkeys
    rw [ne_eq, hpairs.eq_none_iff, not_not]
    exact List.mem_toFinset.mp hkey
  have houtside : ∀ key ∈ keys, key ∉ (pairs.map Prod.fst).toFinset → (table key).getD 0 = 0 := by
    intro key _ habsent
    rw [List.mem_toFinset, ← hpairs.eq_none_iff] at habsent
    rw [habsent, Option.getD_none]
  rw [← Finset.sum_subset hsubset houtside, List.sum_toFinset _ hpairs.nodup, List.map_map]
  apply congrArg List.sum
  apply List.map_congr_left
  intro pair hpair
  rw [Function.comp_apply, (hpairs.mem_iff pair.1 pair.2).mp hpair, Option.getD_some]

theorem Represents.abs_total_sub_le (hpairs : Represents pairs table)
    (hpairs' : Represents pairs' (reviseAll table items)) (hnonneg : ∀ item ∈ items, 0 ≤ item.2) :
    |total pairs' - total pairs| ≤ drift table items := by
  let keys := ((pairs ++ pairs' ++ items).map Prod.fst).toFinset
  have hkeys : ∀ {other : List (Key × ℤ)} {key : Key}, other ⊆ pairs ++ pairs' ++ items →
      key ∈ other.map Prod.fst → key ∈ keys := by
    intro other key hother hkey
    exact List.mem_toFinset.mpr (List.map_subset Prod.fst hother hkey)
  have hbefore : total pairs = ∑ key ∈ keys, (table key).getD 0 := by
    apply hpairs.total_eq
    intro key hkey
    rw [ne_eq, hpairs.eq_none_iff, not_not] at hkey
    exact hkeys (by simp) hkey
  have hafter : total pairs' = ∑ key ∈ keys, (reviseAll table items key).getD 0 := by
    apply hpairs'.total_eq
    intro key hkey
    rw [ne_eq, hpairs'.eq_none_iff, not_not] at hkey
    exact hkeys (by simp) hkey
  have hweights : ∀ key, ∀ weight ∈ weightsOf key items, 0 ≤ weight := by
    intro key weight hweight
    obtain ⟨item, hitem, rfl⟩ := List.mem_map.mp hweight
    exact hnonneg item (List.mem_of_mem_filter hitem)
  calc |total pairs' - total pairs|
      = |∑ key ∈ keys, ((reviseAll table items key).getD 0 - (table key).getD 0)| := by
        rw [hafter, hbefore, Finset.sum_sub_distrib]
    _ ≤ ∑ key ∈ keys, |(reviseAll table items key).getD 0 - (table key).getD 0| :=
        Finset.abs_sum_le_sum_abs _ _
    _ ≤ ∑ key ∈ keys, ((weightsOf key items).map (shift (table key))).sum := by
        apply Finset.sum_le_sum
        intro key _
        rw [reviseAll_apply]
        exact abs_follow_sub_le (hweights key)
    _ = drift table items := by
        apply sum_shift_weightsOf
        intro item hitem
        exact hkeys (by simp) (List.mem_map_of_mem hitem)

theorem exists_isSome_reviseAll (hpairs : Represents pairs table)
    (hnonneg : ∀ item ∈ items, 0 ≤ item.2) (hdrift : drift table items < total pairs) :
    ∃ key, reviseAll table items key ≠ none := by
  by_contra hempty
  push Not at hempty
  have hnil : Represents [] (reviseAll table items) := by
    constructor
    · exact List.nodup_nil
    · intro key weight
      rw [hempty key]
      simp
  have hnothing : total ([] : List (Key × ℤ)) = 0 := rfl
  have hmoved := hpairs.abs_total_sub_le hnil hnonneg
  rw [hnothing, abs_sub_comm, sub_zero] at hmoved
  exact absurd ((le_abs_self _).trans hmoved) (not_le.mpr hdrift)

/-! ## Lists that are edited in place -/

/-- Replace the first weight filed under the key of the item, or append the item. -/
def enter : List (Key × ℤ) → Key × ℤ → List (Key × ℤ)
  | [], item => [item]
  | pair :: rest, item =>
    if pair.1 = item.1 then (pair.1, item.2) :: rest else pair :: enter rest item

def enterAll (pairs items : List (Key × ℤ)) : List (Key × ℤ) := items.foldl enter pairs

/-- The last weight that the items give to the key, or the weight it has. -/
def latest (key : Key) (weight : ℤ) (items : List (Key × ℤ)) : ℤ :=
  items.foldl (fun weight item ↦ if item.1 = key then item.2 else weight) weight

variable {front back : List (Key × ℤ)} {item : Key × ℤ}

theorem enter_of_absent (habsent : item.1 ∉ pairs.map Prod.fst) :
    enter pairs item = pairs ++ [item] := by
  induction pairs with
  | nil => rfl
  | cons pair pairs ih =>
    rw [List.map_cons, List.mem_cons, not_or] at habsent
    rw [enter, if_neg (Ne.symm habsent.1), ih habsent.2, List.cons_append]

theorem enter_of_cut (habsent : key ∉ front.map Prod.fst) :
    enter (front ++ (key, old) :: back) (key, weight) = front ++ (key, weight) :: back := by
  induction front with
  | nil => exact if_pos rfl
  | cons pair front ih =>
    rw [List.map_cons, List.mem_cons, not_or] at habsent
    rw [List.cons_append, enter, if_neg (Ne.symm habsent.1), ih habsent.2, List.cons_append]

/-- The first pair takes the last weight given to its key, and leaves the other items to the
rest. -/
theorem enterAll_cons (pair : Key × ℤ) (rest items : List (Key × ℤ)) :
    enterAll (pair :: rest) items =
      (pair.1, latest pair.1 pair.2 items) :: enterAll rest (items.filter (·.1 ≠ pair.1)) := by
  induction items generalizing pair rest with
  | nil => rfl
  | cons item items ih =>
    have hstep : enterAll (pair :: rest) (item :: items) =
        enterAll (enter (pair :: rest) item) items := rfl
    rw [hstep, enter]
    by_cases hsame : pair.1 = item.1
    · rw [if_pos hsame, ih]
      simp [latest, hsame]
    · rw [if_neg hsame, ih]
      simp [latest, enterAll, Ne.symm hsame]

/-- The items overwrite a weight, or they do not mention its key. -/
theorem latest_latest (key : Key) (weight : ℤ) (items : List (Key × ℤ)) :
    latest key (latest key weight items) items = latest key weight items := by
  have hcases : (∀ old new, latest key old items = latest key new items) ∨
      ∀ old, latest key old items = old := by
    induction items with
    | nil => exact Or.inr fun old ↦ rfl
    | cons item items ih =>
      by_cases hsame : item.1 = key
      · left
        intro old new
        simp [latest, hsame]
      · simpa [latest, hsame] using ih
  cases hcases with
  | inl hoverwritten => exact hoverwritten _ _
  | inr hkept => exact hkept _

theorem enterAll_nil_idem (items : List (Key × ℤ)) :
    enterAll (enterAll [] items) items = enterAll [] items := by
  induction hlength : items.length using Nat.strong_induction_on generalizing items with
  | h length ih =>
    cases items with
    | nil => rfl
    | cons item items =>
      have hstart : enterAll [] (item :: items) = enterAll [item] items := rfl
      have hshorter : (items.filter (·.1 ≠ item.1)).length < length := by
        rw [← hlength]
        exact Nat.lt_succ_of_le (List.length_filter_le _ _)
      have hlatest : ∀ weight, latest item.1 weight (item :: items) =
          latest item.1 item.2 items := by
        intro weight
        simp [latest]
      rw [hstart, enterAll_cons, enterAll_cons, hlatest]
      simp only [ne_eq, not_true_eq_false, decide_false, Bool.false_eq_true, not_false_eq_true,
        List.filter_cons_of_neg]
      rw [ih _ hshorter _ rfl]

theorem enterAll_idem (pairs items : List (Key × ℤ)) :
    enterAll (enterAll pairs items) items = enterAll pairs items := by
  induction pairs generalizing items with
  | nil => exact enterAll_nil_idem items
  | cons pair rest ih => rw [enterAll_cons, enterAll_cons, latest_latest, ih]

end Revision

end LkChain.Foundation.Roster
