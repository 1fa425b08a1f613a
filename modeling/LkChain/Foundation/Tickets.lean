import Mathlib.Data.List.Nodup
import Mathlib.Data.List.Pairwise
import Mathlib.Data.Nat.Basic
import Mathlib.Order.Basic

/-!
# Numbered tickets

A book hands out tickets. Every key has a next number, and a ticket carries a key and the number
that was next for it when it was issued. Counters may be reset as long as a key is not secured; once
it is, its counter never falls, and issuing a ticket secures its key. Under these rules no ticket is
issued twice, whatever else happens between the steps.
-/

namespace LkChain.Foundation.Tickets

variable {State Key : Type}

/-- The counters that can be read off a state, and the keys whose counters can no longer fall. -/
structure Book (State Key : Type) where
  next : State → Key → ℕ
  Secured : State → Key → Prop

/-- Secured keys stay secured and their counters do not fall. -/
def Keeps (book : Book State Key) (before after : State) : Prop :=
  ∀ key, book.Secured before key →
    book.Secured after key ∧ book.next before key ≤ book.next after key

/-- A recorded step with the ticket that it issues, if any. -/
structure Entry (State Key : Type) where
  before : State
  issued : Option (Key × ℕ)
  after : State

/-- What a recorded step has to satisfy. -/
structure Entry.Valid (book : Book State Key) (entry : Entry State Key) : Prop where
  keeps : Keeps book entry.before entry.after
  issues : ∀ key number, entry.issued = some (key, number) →
    book.next entry.before key = number ∧ book.next entry.after key = number + 1 ∧
      book.Secured entry.after key

/-- A sequence of recorded steps with unrecorded ones in between. -/
inductive Run (book : Book State Key) : State → List (Entry State Key) → State → Prop where
  | nil (state : State) : Run book state [] state
  | silent {before between after : State} {log : List (Entry State Key)}
      (hkeeps : Keeps book before between) (later : Run book between log after) :
      Run book before log after
  | record {entry : Entry State Key} {log : List (Entry State Key)} {after : State}
      (hvalid : entry.Valid book) (later : Run book entry.after log after) :
      Run book entry.before (entry :: log) after

theorem Keeps.refl (book : Book State Key) (state : State) : Keeps book state state :=
  fun _ hsecured ↦ ⟨hsecured, le_rfl⟩

theorem Keeps.trans {book : Book State Key} {before between after : State}
    (first : Keeps book before between) (later : Keeps book between after) :
    Keeps book before after := by
  intro key hsecured
  obtain ⟨hbetween, hfirst⟩ := first key hsecured
  obtain ⟨hafter, hlater⟩ := later key hbetween
  exact ⟨hafter, hfirst.trans hlater⟩

namespace Run

variable {book : Book State Key} {before between after : State} {log rest : List (Entry State Key)}
  {entry : Entry State Key} {key : Key} {number : ℕ}

theorem append (first : Run book before log between) (later : Run book between rest after) :
    Run book before (log ++ rest) after := by
  induction first with
  | nil => exact later
  | silent hkeeps _ ih => exact .silent hkeeps (ih later)
  | record hvalid _ ih => exact .record hvalid (ih later)

theorem valid_of_mem (run : Run book before log after) (hmem : entry ∈ log) : entry.Valid book := by
  induction run with
  | nil => cases hmem
  | silent _ _ ih => exact ih hmem
  | record hvalid _ ih =>
    rcases List.mem_cons.mp hmem with rfl | hlater
    · exact hvalid
    · exact ih hlater

theorem keeps_of_mem (run : Run book before log after) (hmem : entry ∈ log) :
    Keeps book before entry.before := by
  induction run with
  | nil => cases hmem
  | silent hkeeps _ ih => exact hkeeps.trans (ih hmem)
  | record hvalid _ ih =>
    rcases List.mem_cons.mp hmem with rfl | hlater
    · exact .refl _ _
    · exact hvalid.keeps.trans (ih hlater)

/-- From one recorded step to every later one, secured keys are kept. -/
theorem pairwise_keeps (run : Run book before log after) :
    log.Pairwise fun earlier later ↦ Keeps book earlier.after later.before := by
  induction run with
  | nil => exact .nil
  | silent _ _ ih => exact ih
  | record hvalid later ih => exact .cons (fun _ hmem ↦ later.keeps_of_mem hmem) ih

theorem le_of_mem (run : Run book before log after) (hsecured : book.Secured before key)
    (hmem : entry ∈ log) (hissued : entry.issued = some (key, number)) :
    book.next before key ≤ number := by
  obtain ⟨-, hle⟩ := run.keeps_of_mem hmem key hsecured
  obtain ⟨hnext, -⟩ := (run.valid_of_mem hmem).issues key number hissued
  omega

theorem nodup (run : Run book before log after) : (log.filterMap Entry.issued).Nodup := by
  induction run with
  | nil => exact List.nodup_nil
  | silent _ _ ih => exact ih
  | @record entry log after hvalid later ih =>
    cases hissued : entry.issued with
    | none => simpa [hissued] using ih
    | some ticket =>
      simp only [List.filterMap_cons, hissued]
      refine List.nodup_cons.mpr ⟨fun hagain ↦ ?_, ih⟩
      obtain ⟨again, hmem, hsame⟩ := List.mem_filterMap.mp hagain
      obtain ⟨-, hnext, hsecured⟩ := hvalid.issues ticket.1 ticket.2 hissued
      have hle := later.le_of_mem hsecured hmem hsame
      omega

end Run

end LkChain.Foundation.Tickets
