import Mathlib.Data.List.Basic

/-!
# Streams that arrive in chunks

A reader asks for some elements of a stream and receives those of one chunk at most; what does not
fit is left for the next time. A reader may report less than it takes. Over any sequence of reads,
what was reported and what is pending make up the stream exactly if every read reported all it took.
-/

namespace LkChain.Foundation.Streams

variable {α : Type}

/-- What is left of the last chunk, and the chunks that have not been begun. -/
structure Source (α : Type) where
  left : List α
  chunks : List (List α)

/-- Everything that is still to be read. -/
def Source.pending (source : Source α) : List α := source.left ++ source.chunks.flatten

/-- What a read takes: from what is left, if anything is, and else from the next chunk. -/
def Source.taken (source : Source α) (size : ℕ) : List α :=
  match source.left, source.chunks with
  | [], [] => []
  | [], chunk :: _ => chunk.take size
  | left, _ => left.take size

/-- The source after a read. -/
def Source.advance (source : Source α) (size : ℕ) : Source α :=
  match source.left, source.chunks with
  | [], [] => source
  | [], chunk :: chunks => ⟨chunk.drop size, chunks⟩
  | left, chunks => ⟨left.drop size, chunks⟩

theorem taken_append_pending (source : Source α) (size : ℕ) :
    source.taken size ++ (source.advance size).pending = source.pending := by
  rcases source with ⟨left, chunks⟩
  cases left with
  | nil =>
    cases chunks with
    | nil => rfl
    | cons chunk chunks =>
      calc
        chunk.take size ++ (chunk.drop size ++ chunks.flatten) = chunk ++ chunks.flatten := by
          rw [← List.append_assoc, List.take_append_drop]
  | cons element left =>
    calc
      (element :: left).take size ++ ((element :: left).drop size ++ chunks.flatten) =
          (element :: left) ++ chunks.flatten := by
        rw [← List.append_assoc, List.take_append_drop]

section Reports

variable (report : Source α → ℕ → List α)

/-- What a sequence of reads reports. -/
def reported : Source α → List ℕ → List α
  | _, [] => []
  | source, size :: sizes => report source size ++ reported (source.advance size) sizes

/-- The source after a sequence of reads. -/
def advanceAll : Source α → List ℕ → Source α
  | source, [] => source
  | source, size :: sizes => advanceAll (source.advance size) sizes

/-- Every read reports all that it takes. -/
def AllReported : Source α → List ℕ → Prop
  | _, [] => True
  | source, size :: sizes =>
    report source size = source.taken size ∧ AllReported (source.advance size) sizes

variable {report}

theorem length_reported_le (hreport : ∀ source size, (report source size).Sublist
      (source.taken size)) (source : Source α) (sizes : List ℕ) :
    (reported report source sizes).length + (advanceAll source sizes).pending.length ≤
      source.pending.length := by
  induction sizes generalizing source with
  | nil => exact Nat.le_of_eq (Nat.zero_add _)
  | cons size sizes ih =>
    have hrest := ih (source.advance size)
    have hfirst := (hreport source size).length_le
    have hsplit := congrArg List.length (taken_append_pending source size)
    rw [List.length_append] at hsplit
    unfold reported advanceAll
    rw [List.length_append]
    omega

theorem reported_append_pending_iff (hreport : ∀ source size, (report source size).Sublist
      (source.taken size)) (source : Source α) (sizes : List ℕ) :
    reported report source sizes ++ (advanceAll source sizes).pending = source.pending ↔
      AllReported report source sizes := by
  induction sizes generalizing source with
  | nil => exact ⟨fun _ ↦ trivial, fun _ ↦ rfl⟩
  | cons size sizes ih =>
    unfold reported advanceAll AllReported
    rw [← ih, ← taken_append_pending source size, List.append_assoc]
    constructor
    · intro hexact
      -- what is missing in one read cannot be made up for by the others
      have hlength := congrArg List.length hexact
      have hrest := length_reported_le hreport (source.advance size) sizes
      have hfirst := (hreport source size).length_le
      simp only [List.length_append] at hlength
      have hsame := (hreport source size).eq_of_length (by omega)
      rw [hsame] at hexact
      exact ⟨hsame, List.append_cancel_left hexact⟩
    · intro hexact
      rw [hexact.1, hexact.2]

end Reports

end LkChain.Foundation.Streams
