import Mathlib.Algebra.Order.Ring.Int
import Mathlib.Logic.Function.Basic
import Mathlib.Order.Lattice

/-!
# Versions kept by height of change

A store keeps one record for every height of a history. A record at which the version changes holds
it; any other record holds the height of the last change, where a reader finds the version.
`resolve_saveAll` says what a reader gets from the store of a whole history: the version in force,
as long as the height of its last change lies in the history.
-/

namespace LkChain.Foundation.Versions

/-- The version, if it changed at the height of the record, and the height of the last change. -/
structure Record (Version : Type) where
  version : Option Version
  changed : ℤ

/-- A store of records by height. -/
abbrev Store (Version : Type) := ℤ → Option (Record Version)

/-- The version in force at a height, and the height of its last change. -/
structure Entry (Version : Type) where
  changed : ℤ
  version : Version

variable {Version : Type}

/-- The record of a height. -/
def Entry.record (entry : Entry Version) (height : ℤ) : Record Version :=
  ⟨if entry.changed = height then some entry.version else none, entry.changed⟩

/-- Write the record of a height. -/
def save (store : Store Version) (height : ℤ) (entry : Entry Version) : Store Version :=
  Function.update store height (some (entry.record height))

/-- Write the records of a history, from its first height on. -/
def saveAll (store : Store Version) : ℤ → List (Entry Version) → Store Version
  | _, [] => store
  | height, entry :: rest => saveAll (save store height entry) (height + 1) rest

/-- The version that a reader finds for a height, following at most one reference. -/
def resolve (store : Store Version) (height : ℤ) : Option Version :=
  match store height with
  | none => none
  | some found =>
    match found.version with
    | some version => some version
    | none => (store found.changed).bind Record.version

section Records

variable {store : Store Version} {first : ℤ} {entries : List (Entry Version)}

theorem saveAll_of_lt {height : ℤ} (hheight : height < first) :
    saveAll store first entries height = store height := by
  induction entries generalizing store first with
  | nil => rfl
  | cons entry entries ih =>
    rw [saveAll, ih (by omega)]
    exact Function.update_of_ne (by omega) _ _

theorem saveAll_get {index : ℕ} {entry : Entry Version} (hentry : entries[index]? = some entry) :
    saveAll store first entries (first + index) = some (entry.record (first + index)) := by
  induction entries generalizing store first index with
  | nil => cases hentry
  | cons head entries ih =>
    cases index with
    | zero =>
      cases hentry
      rw [saveAll, saveAll_of_lt (by omega), Nat.cast_zero, add_zero]
      exact Function.update_self _ _ _
    | succ index =>
      have hheight : first + ((index + 1 : ℕ) : ℤ) = first + 1 + index := by omega
      rw [saveAll, hheight]
      exact ih hentry

theorem save_saveAll_get {index : ℕ} {entry : Entry Version}
    (hentry : entries[index]? = some entry) :
    save (saveAll store first entries) (first + index) entry = saveAll store first entries := by
  unfold save
  rw [← saveAll_get hentry]
  exact Function.update_eq_self _ _

end Records

/-- Every entry of a history is new at its height or continues the one before. The change that the
first entry goes back to may lie before the history. -/
structure History (first : ℤ) (entries : List (Entry Version)) : Prop where
  head : ∀ entry, entries[0]? = some entry → entry.changed ≤ first
  next : ∀ index entry after, entries[index]? = some entry → entries[index + 1]? = some after →
    after.changed = first + ((index + 1 : ℕ) : ℤ) ∨ after = entry

section Reading

variable {first : ℤ} {entries : List (Entry Version)}

/-- An entry goes back to an earlier height, where it was new, or to one before the history. -/
theorem History.origin (hhistory : History first entries) {index : ℕ} {entry : Entry Version}
    (hentry : entries[index]? = some entry) :
    entry.changed ≤ first + index ∧
      (first ≤ entry.changed → ∃ origin : ℕ, entry.changed = first + origin ∧
        entries[origin]? = some entry) := by
  induction index generalizing entry with
  | zero =>
    have hhead := hhistory.head entry hentry
    exact ⟨by omega, fun hfirst ↦ ⟨0, by omega, hentry⟩⟩
  | succ index ih =>
    have hindex : index < entries.length := by
      have hlt := (List.getElem?_eq_some_iff.mp hentry).1
      omega
    have hbefore : entries[index]? = some entries[index] := List.getElem?_eq_getElem hindex
    rcases hhistory.next index _ entry hbefore hentry with hnew | hsame
    · exact ⟨hnew.le, fun _ ↦ ⟨index + 1, hnew, hentry⟩⟩
    · obtain ⟨hle, horigin⟩ := ih hbefore
      rw [hsame]
      exact ⟨by omega, horigin⟩

/-- A reader finds the version in force, unless it goes back to a change before the history. -/
theorem resolve_saveAll (hhistory : History first entries) {index : ℕ} {entry : Entry Version}
    (hentry : entries[index]? = some entry) :
    resolve (saveAll (fun _ ↦ none) first entries) (first + index) =
      if first ≤ entry.changed then some entry.version else none := by
  obtain ⟨hle, horigin⟩ := hhistory.origin hentry
  unfold resolve
  rw [saveAll_get hentry]
  unfold Entry.record
  dsimp only
  by_cases hnew : entry.changed = first + index
  · rw [if_pos hnew, if_pos (by omega)]
  · rw [if_neg hnew]
    dsimp only
    by_cases hfirst : first ≤ entry.changed
    · obtain ⟨origin, hchanged, hget⟩ := horigin hfirst
      rw [if_pos hfirst, hchanged, saveAll_get hget]
      unfold Entry.record
      rw [Option.bind_some, if_pos hchanged]
    · rw [if_neg hfirst, saveAll_of_lt (not_le.mp hfirst), Option.bind_none]

end Reading

end LkChain.Foundation.Versions
