import Mathlib.Algebra.BigOperators.Group.List.Basic
import Mathlib.Algebra.GroupWithZero.Nat
import Mathlib.Data.List.Nodup
import Mathlib.Data.Set.Insert
import Mathlib.Logic.Relation

/-!
# Two lanes of numbered items

The items of one owner carry a number and a cost. Those that can be taken next stand in the ready
lane, the others wait. Beside the lanes there are an index of the known items, the number that comes
next, and the funds that are left once the ready items are paid for.

The lanes change by shifts: waiting items are dropped, an item arrives, its turn comes, or it is
removed. An item that is removed from the ready lane sends those behind it back to the waiting lane,
unless it was the first one: then they are in neither lane, and the index still knows them.
-/

namespace LkChain.Foundation.Lanes

variable {Item : Type}

/-- What one owner holds. -/
@[ext]
structure Holding (Item : Type) where
  ready : List Item
  waiting : List Item
  known : Set Item
  next : ℕ
  funds : ℤ

section Insertion

variable (number : Item → ℕ) {x y : Item} {items added : List Item}

/-- Insert an item at its number, in place of the one that has it. -/
def put (x : Item) (items : List Item) : List Item :=
  items.filter (number · < number x) ++ x :: items.filter (number x < number ·)

/-- Insert several items. -/
def putAll (added items : List Item) : List Item :=
  added.foldl (fun present x ↦ put number x present) items

/-- Rising numbers. -/
def Rising (items : List Item) : Prop := items.Pairwise (number · < number ·)

variable {number}

theorem Rising.filter_ne (hrising : Rising number (x :: items)) :
    (x :: items).filter (number · ≠ number x) = items := by
  rw [List.filter_cons_of_neg (by simp), List.filter_eq_self]
  exact fun y hy ↦ decide_eq_true ((List.pairwise_cons.mp hrising).1 y hy).ne'

theorem Rising.lt_last (hrising : Rising number (items ++ [x])) (hy : y ∈ items) :
    number y < number x :=
  (List.pairwise_append.mp hrising).2.2 y hy x (List.mem_singleton_self x)

theorem mem_put : y ∈ put number x items ↔ y = x ∨ y ∈ items ∧ number y ≠ number x := by
  simp only [put, List.mem_append, List.mem_cons, List.mem_filter, decide_eq_true_eq]
  constructor
  · rintro (⟨hmem, hlt⟩ | hx | ⟨hmem, hlt⟩)
    · exact .inr ⟨hmem, hlt.ne⟩
    · exact .inl hx
    · exact .inr ⟨hmem, hlt.ne'⟩
  · rintro (hx | ⟨hmem, hne⟩)
    · exact .inr (.inl hx)
    · rcases Nat.lt_or_gt_of_ne hne with hlt | hgt
      · exact .inl ⟨hmem, hlt⟩
      · exact .inr (.inr ⟨hmem, hgt⟩)

theorem put_ne_nil : put number x items ≠ [] := by
  simp [put]

theorem Rising.put (hrising : Rising number items) : Rising number (put number x items) := by
  unfold Rising Lanes.put
  simp only [List.pairwise_append, List.pairwise_cons, List.mem_filter, List.mem_cons,
    decide_eq_true_eq]
  refine ⟨hrising.filter _, ⟨fun y hy ↦ hy.2, hrising.filter _⟩, ?_⟩
  rintro y ⟨-, hlow⟩ z (rfl | ⟨-, hhigh⟩)
  · exact hlow
  · exact hlow.trans hhigh

theorem Rising.eq_of_number (hrising : Rising number items) (hx : x ∈ items) (hy : y ∈ items)
    (hnumber : number x = number y) : x = y := by
  have hnodup : (items.map number).Nodup := List.pairwise_map.mpr (hrising.imp fun h ↦ h.ne)
  exact List.inj_on_of_nodup_map hnodup hx hy hnumber

theorem put_eq_append (hbelow : ∀ y ∈ items, number y < number x) :
    put number x items = items ++ [x] := by
  have hfront : items.filter (number · < number x) = items := by
    apply List.filter_eq_self.mpr
    simpa using hbelow
  have hback : items.filter (number x < number ·) = [] := by
    apply List.filter_eq_nil_iff.mpr
    intro y hy
    simpa using (hbelow y hy).le
  rw [put, hfront, hback]

theorem mem_putAll (hfresh : ∀ x ∈ added, ∀ y ∈ items, number x ≠ number y)
    (hrising : added.Pairwise (number · ≠ number ·)) :
    y ∈ putAll number added items ↔ y ∈ added ∨ y ∈ items := by
  induction added generalizing items with
  | nil => simp [putAll]
  | cons x added ih =>
    obtain ⟨hhead, htail⟩ := List.pairwise_cons.mp hrising
    have hstep : y ∈ putAll number added (put number x items) ↔
        y ∈ added ∨ y ∈ put number x items := by
      apply ih _ htail
      intro z hz w hw
      rcases mem_put.mp hw with rfl | ⟨hw, -⟩
      · exact (hhead z hz).symm
      · exact hfresh z (List.mem_cons_of_mem x hz) w hw
    rw [show putAll number (x :: added) items = putAll number added (put number x items) from rfl,
      hstep, mem_put, List.mem_cons]
    have hne (hy : y ∈ items) : number y ≠ number x := (hfresh x (List.mem_cons_self ..) y hy).symm
    rw [and_iff_left_of_imp hne, or_left_comm, or_assoc]

theorem Rising.putAll (hrising : Rising number items) :
    Rising number (putAll number added items) := by
  induction added generalizing items with
  | nil => exact hrising
  | cons x added ih => exact ih hrising.put

end Insertion

section Consecutive

variable {number : Item → ℕ} {items kept : List Item} {start bound : ℕ}

theorem range'_filter_lt (start length bound : ℕ) (hlow : start ≤ bound)
    (hhigh : bound ≤ start + length) :
    (List.range' start length).filter (· < bound) = List.range' start (bound - start) := by
  induction length generalizing start with
  | zero =>
    rw [show bound - start = 0 by omega]
    rfl
  | succ length ih =>
    rw [List.range'_succ, List.filter_cons]
    rcases hlow.lt_or_eq with hlt | rfl
    · rw [if_pos (decide_eq_true hlt), ih (start + 1) hlt (by omega),
        show bound - start = (bound - (start + 1)) + 1 by omega, List.range'_succ]
    · rw [if_neg (by simp), Nat.sub_self, List.range'_zero, List.filter_eq_nil_iff]
      intro n hn
      have := List.mem_range'_1.mp hn
      simp only [decide_eq_true_eq]
      omega

theorem of_consecutive_cons {x : Item}
    (hnumbers : (x :: items).map number = List.range' start (x :: items).length) :
    number x = start ∧ items.map number = List.range' (start + 1) items.length ∧
      ∀ y ∈ items, start < number y := by
  obtain ⟨hx, hrest⟩ : number x = start ∧
      items.map number = List.range' (start + 1) items.length := by
    simpa [List.range'_succ] using hnumbers
  refine ⟨hx, hrest, fun y hy ↦ ?_⟩
  have hmem : number y ∈ items.map number := List.mem_map_of_mem hy
  rw [hrest] at hmem
  exact (List.mem_range'_1.mp hmem).1

theorem map_filter_le (hnumbers : items.map number = List.range' start items.length)
    (hbound : start ≤ bound) :
    (items.filter (bound ≤ number ·)).map number =
      List.range' bound (items.filter (bound ≤ number ·)).length := by
  induction items generalizing start with
  | nil => rfl
  | cons x items ih =>
    obtain ⟨hx, hrest, habove⟩ := of_consecutive_cons hnumbers
    rw [List.filter_cons]
    rcases hbound.lt_or_eq with hlt | rfl
    · rw [if_neg (by simp [hx, hlt])]
      exact ih hrest hlt
    · have hall : items.filter (start ≤ number ·) = items := by
        apply List.filter_eq_self.mpr
        exact fun y hy ↦ decide_eq_true (habove y hy).le
      rw [if_pos (by simp [hx]), hall]
      exact hnumbers

/-- A part of consecutive items that has all below each of its items is consecutive from the same
number on. -/
theorem map_of_closed (hnumbers : items.map number = List.range' start items.length)
    (hkept : kept.Sublist items)
    (hclosed : ∀ x ∈ kept, ∀ y ∈ items, number y ≤ number x → y ∈ kept) :
    kept.map number = List.range' start kept.length := by
  induction hkept generalizing start with
  | slnil => rfl
  | @cons kept items y hkept ih =>
    obtain ⟨hy, hrest, habove⟩ := of_consecutive_cons hnumbers
    -- the first item is below all others, so that nothing is kept without it
    cases kept with
    | nil => rfl
    | cons x kept =>
      have hx : x ∈ items := hkept.subset (List.mem_cons_self ..)
      have hmem := hclosed x (List.mem_cons_self ..) y (List.mem_cons_self ..)
        (hy.le.trans (habove x hx).le)
      exact absurd hy (habove y (hkept.subset hmem)).ne'
  | @cons_cons kept items y hkept ih =>
    obtain ⟨hy, hrest, habove⟩ := of_consecutive_cons hnumbers
    rw [List.map_cons, List.length_cons, List.range'_succ, hy, ih hrest]
    intro x hx z hz hle
    rcases List.mem_cons.mp
      (hclosed x (List.mem_cons_of_mem y hx) z (List.mem_cons_of_mem y hz) hle)
      with rfl | hmem
    · exact absurd hy (habove z hz).ne'
    · exact hmem

end Consecutive

namespace Holding

section Changes

variable (number : Item → ℕ) (cost : Item → ℕ) (modulus : ℕ) (v : Holding Item)

/-- Drop all waiting items but those kept, also from the index. -/
def keepWaiting (kept : List Item) : Holding Item :=
  { v with waiting := kept, known := {x | x ∈ v.known ∧ (x ∈ v.waiting → x ∈ kept)} }

/-- Let an item wait, in place of one with its number. -/
def enqueue (x : Item) : Holding Item :=
  { v with
    waiting := put number x v.waiting
    known := {y | y = x ∨ y ∈ v.known ∧ ¬(y ∈ v.waiting ∧ number y = number x)} }

/-- Put an item in the place of a ready one with its number. -/
def replace (x : Item) : Holding Item :=
  { v with
    ready := put number x v.ready
    known := {y | y = x ∨ y ∈ v.known ∧ ¬(y ∈ v.ready ∧ number y = number x)} }

/-- Move a waiting item to the ready lane and pay for it. -/
def promote (x : Item) : Holding Item :=
  { v with
    ready := put number x v.ready
    waiting := v.waiting.filter (number · ≠ number x)
    next := (number x + 1) % modulus
    funds := v.funds - cost x }

/-- The ready items before the number of an item, and those behind it. -/
def front (x : Item) : List Item := v.ready.filter (number · < number x)

@[inherit_doc front]
def behind (x : Item) : List Item := v.ready.filter (number x < number ·)

/-- Remove an item by its number. Nothing is paid back. -/
def remove (x : Item) : Holding Item :=
  if ∃ y ∈ v.ready, number y = number x then
    { v with
      ready := v.front number x
      waiting := if v.front number x = [] then v.waiting
        else putAll number (v.behind number x) v.waiting
      known := v.known \ {x}
      next := if number x < v.next then number x else v.next }
  else { v with waiting := v.waiting.filter (number · ≠ number x), known := v.known \ {x} }

/-- Removing the item leaves others in neither lane. -/
def Strands (x : Item) : Prop :=
  (∃ y ∈ v.ready, number y = number x) ∧ v.front number x = [] ∧ v.behind number x ≠ []

/-- Begin anew with another next number and other funds. -/
def restart (next : ℕ) (funds : ℤ) : Holding Item := { v with next := next, funds := funds }

/-- Keep some ready items, let others wait and drop the rest. -/
def demote (kept demoted : List Item) : Holding Item :=
  { v with
    ready := kept
    waiting := putAll number demoted v.waiting
    known := {x | x ∈ v.known ∧ (x ∈ v.ready → x ∈ kept ∨ x ∈ demoted)} }

end Changes

/-! ## Soundness of the index -/

section Index

variable (number : Item → ℕ)

/-- Both lanes rise, have no number in common, and hold known items only. -/
structure Sound (v : Holding Item) : Prop where
  ready_known : ∀ x ∈ v.ready, x ∈ v.known
  waiting_known : ∀ x ∈ v.waiting, x ∈ v.known
  ready_rising : Rising number v.ready
  waiting_rising : Rising number v.waiting
  apart : ∀ x ∈ v.ready, ∀ y ∈ v.waiting, number x ≠ number y

/-- Every known item is in a lane. -/
def Complete (v : Holding Item) : Prop := ∀ x ∈ v.known, x ∈ v.ready ∨ x ∈ v.waiting

variable {number} {cost : Item → ℕ} {modulus : ℕ} {v : Holding Item} {x : Item} {kept : List Item}

theorem Sound.front_last (hsound : v.Sound number) (hlast : v.ready = kept ++ [x]) :
    v.front number x = kept := by
  have hrising := hsound.ready_rising
  rw [hlast] at hrising
  rw [front, hlast, List.filter_append, List.filter_eq_self.mpr fun y hy ↦
    decide_eq_true (hrising.lt_last hy)]
  simp

theorem Sound.behind_last (hsound : v.Sound number) (hlast : v.ready = kept ++ [x]) :
    v.behind number x = [] := by
  have hrising := hsound.ready_rising
  rw [hlast] at hrising
  rw [behind, hlast, List.filter_append, List.filter_eq_nil_iff.mpr fun y hy ↦ by
    simpa using (hrising.lt_last hy).le]
  simp

theorem Sound.keepWaiting (hsound : v.Sound number) (hkept : kept.Sublist v.waiting) :
    (v.keepWaiting kept).Sound number where
  ready_known y hy :=
    ⟨hsound.ready_known y hy, fun hwaiting ↦ absurd rfl (hsound.apart y hy y hwaiting)⟩
  waiting_known y hy := ⟨hsound.waiting_known y (hkept.subset hy), fun _ ↦ hy⟩
  ready_rising := hsound.ready_rising
  waiting_rising := hsound.waiting_rising.sublist hkept
  apart y hy z hz := hsound.apart y hy z (hkept.subset hz)

theorem Complete.keepWaiting (hcomplete : v.Complete) : (v.keepWaiting kept).Complete := by
  rintro y ⟨hknown, hkept⟩
  exact (hcomplete y hknown).imp_right hkept

theorem Sound.enqueue (hsound : v.Sound number) (hx : ∀ y ∈ v.ready, number y ≠ number x) :
    (v.enqueue number x).Sound number where
  ready_known y hy :=
    .inr ⟨hsound.ready_known y hy, fun hwaiting ↦ hx y hy hwaiting.2⟩
  waiting_known y hy := by
    rcases mem_put.mp hy with rfl | ⟨hy, hne⟩
    · exact .inl rfl
    · exact .inr ⟨hsound.waiting_known y hy, fun h ↦ hne h.2⟩
  ready_rising := hsound.ready_rising
  waiting_rising := hsound.waiting_rising.put
  apart y hy z hz := by
    rcases mem_put.mp hz with rfl | ⟨hz, -⟩
    · exact hx y hy
    · exact hsound.apart y hy z hz

theorem Complete.enqueue (hcomplete : v.Complete) : (v.enqueue number x).Complete := by
  rintro y (rfl | ⟨hknown, hother⟩)
  · exact .inr (mem_put.mpr (.inl rfl))
  · apply (hcomplete y hknown).imp_right
    intro hy
    exact mem_put.mpr (.inr ⟨hy, fun hnumber ↦ hother ⟨hy, hnumber⟩⟩)

theorem Sound.replace (hsound : v.Sound number) (hx : ∃ y ∈ v.ready, number y = number x) :
    (v.replace number x).Sound number where
  ready_known y hy := by
    rcases mem_put.mp hy with rfl | ⟨hy, hne⟩
    · exact .inl rfl
    · exact .inr ⟨hsound.ready_known y hy, fun h ↦ hne h.2⟩
  waiting_known y hy :=
    .inr ⟨hsound.waiting_known y hy, fun h ↦ absurd rfl (hsound.apart y h.1 y hy)⟩
  ready_rising := hsound.ready_rising.put
  waiting_rising := hsound.waiting_rising
  apart y hy z hz := by
    rcases mem_put.mp hy with rfl | ⟨hy, -⟩
    · obtain ⟨w, hw, hnumber⟩ := hx
      exact hnumber ▸ hsound.apart w hw z hz
    · exact hsound.apart y hy z hz

theorem Complete.replace (hcomplete : v.Complete) : (v.replace number x).Complete := by
  rintro y (rfl | ⟨hknown, hother⟩)
  · exact .inl (mem_put.mpr (.inl rfl))
  · apply (hcomplete y hknown).imp_left
    intro hy
    exact mem_put.mpr (.inr ⟨hy, fun hnumber ↦ hother ⟨hy, hnumber⟩⟩)

theorem Sound.promote (hsound : v.Sound number) (hx : x ∈ v.waiting) :
    (v.promote number cost modulus x).Sound number where
  ready_known y hy := by
    rcases mem_put.mp hy with rfl | ⟨hy, -⟩
    · exact hsound.waiting_known y hx
    · exact hsound.ready_known y hy
  waiting_known y hy := hsound.waiting_known y (List.mem_of_mem_filter hy)
  ready_rising := hsound.ready_rising.put
  waiting_rising := hsound.waiting_rising.filter _
  apart y hy z hz := by
    obtain ⟨hz, hne⟩ := List.mem_filter.mp hz
    rcases mem_put.mp hy with rfl | ⟨hy, -⟩
    · exact fun hnumber ↦ of_decide_eq_true hne hnumber.symm
    · exact hsound.apart y hy z hz

theorem Complete.promote (hsound : v.Sound number) (hcomplete : v.Complete) (hx : x ∈ v.waiting) :
    (v.promote number cost modulus x).Complete := by
  intro y hknown
  rcases hcomplete y hknown with hy | hy
  · exact .inl (mem_put.mpr (.inr ⟨hy, hsound.apart y hy x hx⟩))
  · by_cases hnumber : number y = number x
    · exact .inl (mem_put.mpr (.inl (hsound.waiting_rising.eq_of_number hy hx hnumber)))
    · exact .inr (List.mem_filter.mpr ⟨hy, decide_eq_true hnumber⟩)

theorem mem_waiting_remove (hsound : v.Sound number) (hx : ∃ y ∈ v.ready, number y = number x)
    {z : Item} : z ∈ (v.remove number x).waiting ↔
      z ∈ v.waiting ∨ v.front number x ≠ [] ∧ z ∈ v.behind number x := by
  rw [remove, if_pos hx]
  by_cases hfront : v.front number x = []
  · simp [hfront]
  · have hbehind : z ∈ putAll number (v.behind number x) v.waiting ↔
        z ∈ v.behind number x ∨ z ∈ v.waiting := by
      apply mem_putAll
      · intro y hy w hw
        exact hsound.apart y (List.mem_of_mem_filter hy) w hw
      · exact (hsound.ready_rising.filter _).imp fun h ↦ h.ne
    simp only [hfront, if_false, hbehind, ne_eq, not_false_eq_true, true_and]
    exact or_comm

theorem Sound.remove (hsound : v.Sound number) : (v.remove number x).Sound number := by
  by_cases hx : ∃ y ∈ v.ready, number y = number x
  · have hremove := hx
    obtain ⟨w, hw, hnumber⟩ := hx
    have hready : (v.remove number x).ready = v.front number x := by
      rw [Holding.remove, if_pos hremove]
    have hknown : (v.remove number x).known = v.known \ {x} := by
      rw [Holding.remove, if_pos hremove]
    constructor
    · intro y hy
      rw [hready] at hy
      obtain ⟨hy, hlow⟩ := List.mem_filter.mp hy
      rw [hknown]
      exact ⟨hsound.ready_known y hy, fun h ↦ (of_decide_eq_true hlow).ne (congrArg number h)⟩
    · intro y hy
      rw [hknown]
      rcases (mem_waiting_remove hsound hremove).mp hy with hy | ⟨-, hy⟩
      · refine ⟨hsound.waiting_known y hy, fun h ↦ hsound.apart w hw y hy ?_⟩
        rw [hnumber, h]
      · obtain ⟨hy, hhigh⟩ := List.mem_filter.mp hy
        exact ⟨hsound.ready_known y hy, fun h ↦ (of_decide_eq_true hhigh).ne' (congrArg number h)⟩
    · rw [hready]
      exact hsound.ready_rising.filter _
    · rw [Holding.remove, if_pos hremove]
      by_cases hfront : v.front number x = []
      · simpa [hfront] using hsound.waiting_rising
      · simpa [hfront] using hsound.waiting_rising.putAll
    · intro y hy z hz
      rw [hready] at hy
      obtain ⟨hy, hlow⟩ := List.mem_filter.mp hy
      rcases (mem_waiting_remove hsound hremove).mp hz with hz | ⟨-, hz⟩
      · exact hsound.apart y hy z hz
      · exact ((of_decide_eq_true hlow).trans (of_decide_eq_true (List.mem_filter.mp hz).2)).ne
  · rw [Holding.remove, if_neg hx]
    constructor
    · exact fun y hy ↦ ⟨hsound.ready_known y hy, fun h ↦ hx ⟨y, hy, congrArg number h⟩⟩
    · intro y hy
      obtain ⟨hy, hne⟩ := List.mem_filter.mp hy
      exact ⟨hsound.waiting_known y hy, fun h ↦ of_decide_eq_true hne (congrArg number h)⟩
    · exact hsound.ready_rising
    · exact hsound.waiting_rising.filter _
    · exact fun y hy z hz ↦ hsound.apart y hy z (List.mem_of_mem_filter hz)

theorem Complete.remove (hsound : v.Sound number) (hcomplete : v.Complete) (hknown : x ∈ v.known)
    (hstrands : ¬v.Strands number x) : (v.remove number x).Complete := by
  intro z hz
  by_cases hx : ∃ y ∈ v.ready, number y = number x
  · have hremove := hx
    obtain ⟨y, hy, hnumber⟩ := hx
    obtain ⟨hz, hne⟩ : z ∈ v.known ∧ z ≠ x := by
      rw [Holding.remove, if_pos hremove] at hz
      exact hz
    have hready : (v.remove number x).ready = v.front number x := by
      rw [Holding.remove, if_pos hremove]
    rw [mem_waiting_remove hsound hremove, hready]
    rcases hcomplete z hz with hz | hz
    · -- the removed item is the only ready one of its number
      have hself : x = y := by
        rcases hcomplete x hknown with hx | hx
        · exact hsound.ready_rising.eq_of_number hx hy hnumber.symm
        · exact absurd hnumber (hsound.apart y hy x hx)
      have hother : number z ≠ number x := by
        intro h
        exact hne (hsound.ready_rising.eq_of_number hz (hself ▸ hy) h)
      rcases Nat.lt_or_gt_of_ne hother with hlow | hhigh
      · exact .inl (List.mem_filter.mpr ⟨hz, decide_eq_true hlow⟩)
      · have hbehind : z ∈ v.behind number x := List.mem_filter.mpr ⟨hz, decide_eq_true hhigh⟩
        refine .inr (.inr ⟨fun hfront ↦ hstrands ⟨hremove, hfront, ?_⟩, hbehind⟩)
        exact List.ne_nil_of_mem hbehind
    · exact .inr (.inl hz)
  · rw [Holding.remove, if_neg hx] at hz ⊢
    obtain ⟨hz, hne⟩ := hz
    apply (hcomplete z hz).imp_right
    intro hz
    refine List.mem_filter.mpr ⟨hz, decide_eq_true fun hnumber ↦ hne ?_⟩
    have hself : x ∈ v.waiting := (hcomplete x hknown).resolve_left fun h ↦ hx ⟨x, h, rfl⟩
    exact hsound.waiting_rising.eq_of_number hz hself hnumber

theorem remove_of_waiting (hsound : v.Sound number) (hx : x ∈ v.waiting) :
    v.remove number x = v.keepWaiting (v.waiting.filter (number · ≠ number x)) := by
  have hready : ¬∃ y ∈ v.ready, number y = number x := by
    rintro ⟨y, hy, hnumber⟩
    exact hsound.apart y hy x hx hnumber
  rw [remove, if_neg hready, Holding.keepWaiting]
  congr 1
  ext y
  simp only [Set.mem_sdiff, Set.mem_singleton_iff, Set.mem_ofPred_eq, List.mem_filter, ne_eq,
    decide_eq_true_eq]
  constructor
  · rintro ⟨hknown, hne⟩
    exact ⟨hknown, fun hy ↦ ⟨hy, fun h ↦ hne (hsound.waiting_rising.eq_of_number hy hx h)⟩⟩
  · rintro ⟨hknown, hkept⟩
    exact ⟨hknown, fun h ↦ (hkept (h ▸ hx)).2 (congrArg number h)⟩

theorem Sound.restart (hsound : v.Sound number) (next : ℕ) (funds : ℤ) :
    (v.restart next funds).Sound number :=
  ⟨hsound.ready_known, hsound.waiting_known, hsound.ready_rising, hsound.waiting_rising,
    hsound.apart⟩

theorem Sound.demote {demoted : List Item} (hsound : v.Sound number)
    (hkept : kept.Sublist v.ready) (hdemoted : ∀ x ∈ demoted, x ∈ v.ready)
    (hdistinct : demoted.Pairwise (number · ≠ number ·))
    (hapart : ∀ x ∈ kept, ∀ y ∈ demoted, number x ≠ number y) :
    (v.demote number kept demoted).Sound number := by
  have hmem {y : Item} : y ∈ putAll number demoted v.waiting ↔ y ∈ demoted ∨ y ∈ v.waiting :=
    mem_putAll (fun y hy z hz ↦ hsound.apart y (hdemoted y hy) z hz) hdistinct
  constructor
  · exact fun y hy ↦ ⟨hsound.ready_known y (hkept.subset hy), fun _ ↦ .inl hy⟩
  · intro y hy
    rcases hmem.mp hy with hy | hy
    · exact ⟨hsound.ready_known y (hdemoted y hy), fun _ ↦ .inr hy⟩
    · exact ⟨hsound.waiting_known y hy, fun h ↦ absurd rfl (hsound.apart y h y hy)⟩
  · exact hsound.ready_rising.sublist hkept
  · exact hsound.waiting_rising.putAll
  · intro y hy z hz
    rcases hmem.mp hz with hz | hz
    · exact hapart y hy z hz
    · exact hsound.apart y (hkept.subset hy) z hz

theorem Complete.demote {demoted : List Item} (hsound : v.Sound number) (hcomplete : v.Complete)
    (hdemoted : ∀ x ∈ demoted, x ∈ v.ready)
    (hdistinct : demoted.Pairwise (number · ≠ number ·)) :
    (v.demote number kept demoted).Complete := by
  have hmem {y : Item} : y ∈ putAll number demoted v.waiting ↔ y ∈ demoted ∨ y ∈ v.waiting :=
    mem_putAll (fun y hy z hz ↦ hsound.apart y (hdemoted y hy) z hz) hdistinct
  rintro y ⟨hknown, hkept⟩
  rcases hcomplete y hknown with hy | hy
  · exact (hkept hy).imp_right fun h ↦ hmem.mpr (.inl h)
  · exact .inr (hmem.mpr (.inr hy))

end Index

/-! ## Numbers in step and settled funds -/

section Steps

variable (number : Item → ℕ) (cost : Item → ℕ)

/-- The ready numbers follow each other from the start on, and the next number comes after them. -/
structure InStep (start : ℕ) (v : Holding Item) : Prop where
  numbers : v.ready.map number = List.range' start v.ready.length
  next : v.next = start + v.ready.length

/-- The funds are what the ready items leave of the balance. -/
def Settled (balance : ℤ) (v : Holding Item) : Prop :=
  v.funds = balance - (v.ready.map cost).sum

/-- Nothing waits beyond the next number, and the funds pay for an item with it. -/
structure Covered (v : Holding Item) : Prop where
  funds : 0 ≤ v.funds
  early : ∀ y ∈ v.waiting, number y ≤ v.next
  due : ∀ y ∈ v.waiting, number y = v.next → (cost y : ℤ) ≤ v.funds

variable {number cost} {modulus start : ℕ} {balance : ℤ} {v : Holding Item} {x : Item}

theorem InStep.mem_number (hstep : v.InStep number start) {n : ℕ} :
    (∃ y ∈ v.ready, number y = n) ↔ start ≤ n ∧ n < v.next := by
  rw [← List.mem_map, hstep.numbers, List.mem_range'_1, hstep.next]

theorem InStep.number_eq_next (hstep : v.InStep number start) (hsound : v.Sound number)
    (hx : x ∈ v.waiting) (hlow : start ≤ number x) (hturn : number x ≤ v.next) :
    number x = v.next := by
  by_contra hne
  obtain ⟨y, hy, hnumber⟩ := hstep.mem_number.mpr ⟨hlow, lt_of_le_of_ne hturn hne⟩
  exact hsound.apart y hy x hx hnumber

theorem InStep.put_ready (hstep : v.InStep number start) (hnext : number x = v.next) :
    put number x v.ready = v.ready ++ [x] := by
  apply put_eq_append
  intro y hy
  rw [hnext]
  exact (hstep.mem_number.mp ⟨y, hy, rfl⟩).2

theorem InStep.promote (hstep : v.InStep number start) (hnext : number x = v.next)
    (hmodulus : number x + 1 < modulus) :
    (v.promote number cost modulus x).InStep number start where
  numbers := by
    rw [Holding.promote, hstep.put_ready hnext, List.map_append, hstep.numbers, List.map_singleton,
      hnext, hstep.next, List.length_append, List.length_singleton, List.range'_concat, one_mul]
  next := by
    simp only [Holding.promote, hstep.put_ready hnext, List.length_append, List.length_singleton,
      Nat.mod_eq_of_lt hmodulus]
    rw [hnext, hstep.next, add_assoc]

theorem Settled.promote (hsettled : v.Settled cost balance) (hstep : v.InStep number start)
    (hnext : number x = v.next) : (v.promote number cost modulus x).Settled cost balance := by
  unfold Settled Holding.promote at *
  simp only [hstep.put_ready hnext, List.map_append, List.sum_append, List.map_singleton,
    List.sum_singleton, Int.natCast_add, hsettled]
  omega

theorem Covered.enqueue (hcovered : v.Covered number cost) (hnext : number x = v.next)
    (hcost : (cost x : ℤ) ≤ v.funds) : (v.enqueue number x).Covered number cost where
  funds := hcovered.funds
  early y hy := by
    rcases mem_put.mp hy with rfl | ⟨hy, -⟩
    · exact hnext.le
    · exact hcovered.early y hy
  due y hy hturn := by
    rcases mem_put.mp hy with rfl | ⟨hy, -⟩
    · exact hcost
    · exact hcovered.due y hy hturn

theorem Covered.promote (hcovered : v.Covered number cost) (hx : x ∈ v.waiting)
    (hnext : number x = v.next) (hmodulus : number x + 1 < modulus) :
    (v.promote number cost modulus x).Covered number cost := by
  have hlater (y : Item) (hy : y ∈ v.waiting) : number y < (number x + 1) % modulus := by
    rw [Nat.mod_eq_of_lt hmodulus, hnext]
    exact Nat.lt_succ_of_le (hcovered.early y hy)
  constructor
  · exact Int.sub_nonneg_of_le (hcovered.due x hx hnext)
  · exact fun y hy ↦ (hlater y (List.mem_of_mem_filter hy)).le
  · exact fun y hy hturn ↦ absurd hturn (hlater y (List.mem_of_mem_filter hy)).ne

theorem InStep.front (hstep : v.InStep number start) (hlow : start ≤ number x)
    (hhigh : number x < v.next) :
    (v.front number x).map number = List.range' start (v.front number x).length ∧
      start + (v.front number x).length = number x := by
  have hmap : (v.front number x).map number = List.range' start (number x - start) := by
    have hfilter : (v.front number x).map number =
        (List.range' start v.ready.length).filter (· < number x) := by
      rw [← hstep.numbers, List.filter_map]
      rfl
    rw [hfilter]
    apply range'_filter_lt _ _ _ hlow
    rw [← hstep.next]
    exact hhigh.le
  have hlength : (v.front number x).length = number x - start := by
    rw [← List.length_map (f := number), hmap, List.length_range']
  exact ⟨hlength ▸ hmap, by omega⟩

theorem InStep.remove (hstep : v.InStep number start) :
    (v.remove number x).InStep number start := by
  by_cases hx : ∃ y ∈ v.ready, number y = number x
  · obtain ⟨hlow, hhigh⟩ := hstep.mem_number.mp hx
    obtain ⟨hnumbers, hlength⟩ := hstep.front hlow hhigh
    rw [Holding.remove, if_pos hx]
    exact ⟨hnumbers, by simp only [if_pos hhigh, hlength]⟩
  · rw [Holding.remove, if_neg hx]
    exact ⟨hstep.numbers, hstep.next⟩

theorem next_remove_le : (v.remove number x).next ≤ v.next := by
  by_cases hx : ∃ y ∈ v.ready, number y = number x
  · rw [Holding.remove, if_pos hx]
    show (if number x < v.next then number x else v.next) ≤ v.next
    split_ifs with hlt
    · exact hlt.le
    · exact le_rfl
  · rw [Holding.remove, if_neg hx]

end Steps

/-! ## Shifts -/

section Shifts

variable (number : Item → ℕ) (cost : Item → ℕ) (modulus : ℕ)

/-- What the shifts of a run may do: the number the ready lane starts at, the items that may come,
whether items may be removed, and whether a removal may leave items in neither lane. -/
structure Terms (Item : Type) where
  start : ℕ
  admitted : Item → Prop
  removing : Prop
  stranding : Prop

/-- One change of an owner's lanes. An item has its turn when its number is not beyond the next one,
or when it follows the item that was promoted last. -/
inductive Shift (terms : Terms Item) : Holding Item → Holding Item → Prop where
  | keepWaiting {v : Holding Item} {kept : List Item} (hkept : kept.Sublist v.waiting) :
    Shift terms v (v.keepWaiting kept)
  | enqueue {v : Holding Item} {x : Item} (hadmitted : terms.admitted x)
    (hx : ∀ y ∈ v.ready, number y ≠ number x) : Shift terms v (v.enqueue number x)
  | replace {v : Holding Item} {x : Item} (hadmitted : terms.admitted x) (hlate : v.next ≤ number x)
    (hx : ∃ y ∈ v.ready, number y = number x) : Shift terms v (v.replace number x)
  | promote {v : Holding Item} {x : Item} (hx : x ∈ v.waiting) (hlow : terms.start ≤ number x)
    (hturn : number x ≤ v.next ∨ v.next = number x % modulus) :
    Shift terms v (v.promote number cost modulus x)
  | remove {v : Holding Item} {x : Item} (hremoving : terms.removing) (hknown : x ∈ v.known)
    (hstranding : v.Strands number x → terms.stranding) : Shift terms v (v.remove number x)

/-- Any number of changes. -/
def Shifts (terms : Terms Item) : Holding Item → Holding Item → Prop :=
  Relation.ReflTransGen (Shift number cost modulus terms)

/-- Every item of both lanes was admitted. -/
def Admitted (admitted : Item → Prop) (v : Holding Item) : Prop :=
  ∀ x, x ∈ v.ready ∨ x ∈ v.waiting → admitted x

variable {number cost modulus} {terms : Terms Item} {balance : ℤ} {v after : Holding Item}

theorem Admitted.demote {admitted : Item → Prop} {kept demoted : List Item}
    (hadmitted : v.Admitted admitted) (hsound : v.Sound number) (hkept : kept.Sublist v.ready)
    (hdemoted : ∀ x ∈ demoted, x ∈ v.ready)
    (hdistinct : demoted.Pairwise (number · ≠ number ·)) :
    (v.demote number kept demoted).Admitted admitted := by
  have hmem {y : Item} : y ∈ putAll number demoted v.waiting ↔ y ∈ demoted ∨ y ∈ v.waiting :=
    mem_putAll (fun y hy z hz ↦ hsound.apart y (hdemoted y hy) z hz) hdistinct
  rintro y (hy | hy)
  · exact hadmitted y (.inl (hkept.subset hy))
  · rcases hmem.mp hy with hy | hy
    · exact hadmitted y (.inl (hdemoted y hy))
    · exact hadmitted y (.inr hy)

theorem Shift.sound (hshift : Shift number cost modulus terms v after) (hsound : v.Sound number) :
    after.Sound number := by
  cases hshift with
  | keepWaiting hkept => exact hsound.keepWaiting hkept
  | enqueue _ hx => exact hsound.enqueue hx
  | replace _ _ hx => exact hsound.replace hx
  | promote hx _ _ => exact hsound.promote hx
  | remove _ _ _ => exact hsound.remove

theorem Shift.complete (hshift : Shift number cost modulus terms v after)
    (hstranding : ¬terms.stranding) (hsound : v.Sound number) (hcomplete : v.Complete) :
    after.Complete := by
  cases hshift with
  | keepWaiting _ => exact hcomplete.keepWaiting
  | enqueue _ _ => exact hcomplete.enqueue
  | replace _ _ _ => exact hcomplete.replace
  | promote hx _ _ => exact hcomplete.promote hsound hx
  | remove _ hknown hstrands =>
    exact hcomplete.remove hsound hknown fun h ↦ hstranding (hstrands h)

theorem Shift.admitted (hshift : Shift number cost modulus terms v after) (hsound : v.Sound number)
    (hadmitted : v.Admitted terms.admitted) : after.Admitted terms.admitted := by
  cases hshift with
  | keepWaiting hkept => exact fun y hy ↦ hadmitted y (hy.imp_right fun h ↦ hkept.subset h)
  | enqueue hx _ =>
    rintro y (hy | hy)
    · exact hadmitted y (.inl hy)
    · rcases mem_put.mp hy with rfl | ⟨hy, -⟩
      · exact hx
      · exact hadmitted y (.inr hy)
  | replace hx _ _ =>
    rintro y (hy | hy)
    · rcases mem_put.mp hy with rfl | ⟨hy, -⟩
      · exact hx
      · exact hadmitted y (.inl hy)
    · exact hadmitted y (.inr hy)
  | promote hx _ _ =>
    rintro y (hy | hy)
    · rcases mem_put.mp hy with rfl | ⟨hy, -⟩
      · exact hadmitted y (.inr hx)
      · exact hadmitted y (.inl hy)
    · exact hadmitted y (.inr (List.mem_of_mem_filter hy))
  | @remove x _ _ _ =>
    intro y hy
    by_cases hx : ∃ z ∈ v.ready, number z = number x
    · have hready : (v.remove number x).ready = v.front number x := by
        rw [Holding.remove, if_pos hx]
      rw [hready, mem_waiting_remove hsound hx] at hy
      rcases hy with hy | hy | ⟨-, hy⟩
      · exact hadmitted y (.inl (List.mem_of_mem_filter hy))
      · exact hadmitted y (.inr hy)
      · exact hadmitted y (.inl (List.mem_of_mem_filter hy))
    · rw [Holding.remove, if_neg hx] at hy
      exact hadmitted y (hy.imp_right List.mem_of_mem_filter)

theorem le_next_of_turn {x : Item} (hturn : number x ≤ v.next ∨ v.next = number x % modulus)
    (hmodulus : number x + 1 < modulus) : number x ≤ v.next := by
  rcases hturn with hturn | hturn
  · exact hturn
  · rw [hturn, Nat.mod_eq_of_lt (by omega)]

theorem Shift.inStep (hshift : Shift number cost modulus terms v after)
    (hbound : ∀ x, terms.admitted x → number x + 1 < modulus) (hsound : v.Sound number)
    (hadmitted : v.Admitted terms.admitted) (hstep : v.InStep number terms.start) :
    after.InStep number terms.start := by
  cases hshift with
  | keepWaiting _ => exact ⟨hstep.numbers, hstep.next⟩
  | enqueue _ _ => exact ⟨hstep.numbers, hstep.next⟩
  | replace _ hlate hx => exact absurd (hstep.mem_number.mp hx).2 (not_lt.mpr hlate)
  | @promote x hx hlow hturn =>
    have hmodulus := hbound x (hadmitted x (.inr hx))
    exact hstep.promote (hstep.number_eq_next hsound hx hlow (le_next_of_turn hturn hmodulus))
      hmodulus
  | remove _ _ _ => exact hstep.remove

theorem Shift.settled (hshift : Shift number cost modulus terms v after)
    (hremoving : ¬terms.removing) (hbound : ∀ x, terms.admitted x → number x + 1 < modulus)
    (hsound : v.Sound number) (hadmitted : v.Admitted terms.admitted)
    (hstep : v.InStep number terms.start) (hsettled : v.Settled cost balance) :
    after.Settled cost balance := by
  cases hshift with
  | keepWaiting _ => exact hsettled
  | enqueue _ _ => exact hsettled
  | replace _ hlate hx => exact absurd (hstep.mem_number.mp hx).2 (not_lt.mpr hlate)
  | @promote x hx hlow hturn =>
    have hmodulus := hbound x (hadmitted x (.inr hx))
    exact hsettled.promote hstep
      (hstep.number_eq_next hsound hx hlow (le_next_of_turn hturn hmodulus))
  | remove h _ _ => exact absurd h hremoving

theorem Shift.covered (hshift : Shift number cost modulus terms v after)
    (hadmitted : ∀ x, ¬terms.admitted x) (hremoving : ¬terms.removing)
    (hbound : ∀ x ∈ v.waiting, number x + 1 < modulus) (hsound : v.Sound number)
    (hstep : v.InStep number terms.start) (hcovered : v.Covered number cost) :
    after.Covered number cost := by
  cases hshift with
  | keepWaiting hkept =>
    exact ⟨hcovered.funds, fun y hy ↦ hcovered.early y (hkept.subset hy),
      fun y hy ↦ hcovered.due y (hkept.subset hy)⟩
  | enqueue h _ => exact absurd h (hadmitted _)
  | replace h _ _ => exact absurd h (hadmitted _)
  | @promote x hx hlow hturn =>
    have hmodulus := hbound x hx
    exact hcovered.promote hx
      (hstep.number_eq_next hsound hx hlow (le_next_of_turn hturn hmodulus)) hmodulus
  | remove h _ _ => exact absurd h hremoving

/-- What may be done under some terms may be done under wider ones. -/
theorem Shift.mono {wider : Terms Item} (hshift : Shift number cost modulus terms v after)
    (hstart : wider.start = terms.start) (hadmitted : ∀ x, terms.admitted x → wider.admitted x)
    (hremoving : terms.removing → wider.removing)
    (hstranding : terms.stranding → wider.stranding) : Shift number cost modulus wider v after := by
  cases hshift with
  | keepWaiting hkept => exact .keepWaiting hkept
  | enqueue h hx => exact .enqueue (hadmitted _ h) hx
  | replace h hlate hx => exact .replace (hadmitted _ h) hlate hx
  | promote hx hlow hturn => exact .promote hx (hstart ▸ hlow) hturn
  | remove h hknown hstrands => exact .remove (hremoving h) hknown fun h ↦ hstranding (hstrands h)

theorem Shift.funds_le (hshift : Shift number cost modulus terms v after) :
    after.funds ≤ v.funds := by
  cases hshift with
  | keepWaiting _ => exact le_rfl
  | enqueue _ _ => exact le_rfl
  | replace _ _ _ => exact le_rfl
  | promote _ _ _ => exact Int.sub_le_self _ (Int.natCast_nonneg _)
  | remove _ _ _ =>
    unfold Holding.remove
    split_ifs <;> exact le_rfl

theorem Shifts.sound (hshifts : Shifts number cost modulus terms v after)
    (hsound : v.Sound number) : after.Sound number := by
  induction hshifts with
  | refl => exact hsound
  | tail _ hshift ih => exact hshift.sound ih

theorem Shifts.complete (hshifts : Shifts number cost modulus terms v after)
    (hstranding : ¬terms.stranding) (hsound : v.Sound number) (hcomplete : v.Complete) :
    after.Complete := by
  induction hshifts with
  | refl => exact hcomplete
  | tail hbefore hshift ih => exact hshift.complete hstranding (Shifts.sound hbefore hsound) ih

theorem Shifts.admitted (hshifts : Shifts number cost modulus terms v after)
    (hsound : v.Sound number) (hadmitted : v.Admitted terms.admitted) :
    after.Admitted terms.admitted := by
  induction hshifts with
  | refl => exact hadmitted
  | tail hbefore hshift ih => exact hshift.admitted (Shifts.sound hbefore hsound) ih

theorem Shifts.inStep (hshifts : Shifts number cost modulus terms v after)
    (hbound : ∀ x, terms.admitted x → number x + 1 < modulus) (hsound : v.Sound number)
    (hadmitted : v.Admitted terms.admitted) (hstep : v.InStep number terms.start) :
    after.InStep number terms.start := by
  induction hshifts with
  | refl => exact hstep
  | tail hbefore hshift ih =>
    exact hshift.inStep hbound (Shifts.sound hbefore hsound)
      (Shifts.admitted hbefore hsound hadmitted)
      ih

theorem Shifts.settled (hshifts : Shifts number cost modulus terms v after)
    (hremoving : ¬terms.removing) (hbound : ∀ x, terms.admitted x → number x + 1 < modulus)
    (hsound : v.Sound number) (hadmitted : v.Admitted terms.admitted)
    (hstep : v.InStep number terms.start) (hsettled : v.Settled cost balance) :
    after.Settled cost balance := by
  induction hshifts with
  | refl => exact hsettled
  | tail hbefore hshift ih =>
    exact hshift.settled hremoving hbound (Shifts.sound hbefore hsound)
      (Shifts.admitted hbefore hsound hadmitted)
      (Shifts.inStep hbefore hbound hsound hadmitted hstep) ih

theorem Shifts.funds_le (hshifts : Shifts number cost modulus terms v after) :
    after.funds ≤ v.funds := by
  induction hshifts with
  | refl => exact le_rfl
  | tail _ hshift ih => exact hshift.funds_le.trans ih

theorem Shifts.mono {wider : Terms Item} (hshifts : Shifts number cost modulus terms v after)
    (hstart : wider.start = terms.start) (hadmitted : ∀ x, terms.admitted x → wider.admitted x)
    (hremoving : terms.removing → wider.removing)
    (hstranding : terms.stranding → wider.stranding) :
    Shifts number cost modulus wider v after := by
  induction hshifts with
  | refl => exact .refl
  | tail _ hshift ih => exact ih.tail (hshift.mono hstart hadmitted hremoving hstranding)

theorem Shifts.covered {admitted : Item → Prop}
    (hshifts : Shifts number cost modulus terms v after) (hnone : ∀ x, ¬terms.admitted x)
    (hremoving : ¬terms.removing) (hbound : ∀ x, admitted x → number x + 1 < modulus)
    (hsound : v.Sound number) (hadmitted : v.Admitted admitted)
    (hstep : v.InStep number terms.start) (hcovered : v.Covered number cost) :
    after.Covered number cost := by
  induction hshifts with
  | refl => exact hcovered
  | tail hbefore hshift ih =>
    -- the same shifts under terms that admit the bounded items
    have hwider : Shifts number cost modulus { terms with admitted := admitted } v _ :=
      Shifts.mono hbefore rfl (fun x h ↦ absurd h (hnone x)) id id
    exact hshift.covered hnone hremoving
      (fun x hx ↦ hbound x (hwider.admitted hsound hadmitted x (.inr hx)))
      (Shifts.sound hbefore hsound) (hwider.inStep hbound hsound hadmitted hstep) ih

end Shifts

end Holding

end LkChain.Foundation.Lanes
