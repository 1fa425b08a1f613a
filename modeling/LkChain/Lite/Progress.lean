import LkChain.Lite.Certifiers

/-!
# Heights of the light client

A `Dynamic` certifier has the height that it has seen last. `Update` only accepts a full commit of a
larger height, "only to the future". `Certify` sets the height to that of any header that the
trusted validators have signed, an older one as well, so a later update can go to a height below one
that was certified before.
-/

namespace LkChain.Lite.Progress

open Foundation Foundation.Stops
open Tendermint Tendermint.Types ValSet
open Validators.ParseTx (Crypto sampleCrypto)
open Certifiers

variable {PubKey Signature Address : Type}

/-- The height that a call is about. -/
def callHeight : Call PubKey Signature Address → ℤ
  | .certify check => check.height
  | .update fc => fc.height

/-- A call that has returned, with the certifier before and after it. -/
structure Passage (wire : Wire PubKey Signature Address) where
  before : Dynamic wire
  call : Call PubKey Signature Address
  err : Option (LiteError Signature Address)
  after : Dynamic wire

section Program

variable {wire : Wire PubKey Signature Address} (crypto : Crypto PubKey Signature Address)
  [DecidableEq PubKey] [LinearOrder Address]

/-- The calls of a sequence, which ends with a panic. -/
def passages : Dynamic wire → List (Call PubKey Signature Address) → List (Passage wire)
  | _, [] => []
  | c, call :: rest =>
    match c.call crypto call with
    | .error _ => []
    | .ok (next, err) => ⟨c, call, err, next⟩ :: passages next rest

end Program

section Specification

variable {wire : Wire PubKey Signature Address}

/-- A successful update. -/
def Passage.Updates (passage : Passage wire) : Prop :=
  passage.err = none ∧ ∃ fc, passage.call = .update fc

/-- The last height never decreases, and a successful update goes beyond every height that was
certified or updated to before. -/
structure MovesForward (run : List (Passage wire)) : Prop where
  monotone : ∀ passage ∈ run, passage.before.lastHeight ≤ passage.after.lastHeight
  beyond : run.Pairwise fun earlier later ↦ earlier.err = none → later.Updates →
    callHeight earlier.call < callHeight later.call

/-- No header below the last height is given to `Certify` that the trusted validators have
signed. -/
def NeverLooksBack (crypto : Crypto PubKey Signature Address) (run : List (Passage wire)) : Prop :=
  ∀ passage ∈ run, ∀ check, passage.call = .certify check →
    (∃ cert, passage.before.cert.certify crypto check = .ok (cert, none)) →
    passage.before.lastHeight ≤ check.height

end Specification

/-! ## One call -/

section Calls

variable {wire : Wire PubKey Signature Address} {crypto : Crypto PubKey Signature Address}

theorem certify_lastHeight {c after : Dynamic wire} {check : SignedHeader Signature Address}
    {err : Option (LiteError Signature Address)} (hok : c.certify crypto check = .ok (after, err)) :
    after.lastHeight = if err.isNone then check.height else c.lastHeight := by
  obtain ⟨⟨cert, found⟩, -, hreturn⟩ := Results.bind_eq_ok_iff.mp hok
  cases hreturn
  rfl

theorem certify_eq_ok_none_iff {c : Dynamic wire} {check : SignedHeader Signature Address} :
    (∃ after, c.certify crypto check = .ok (after, none)) ↔
      ∃ cert, c.cert.certify crypto check = .ok (cert, none) := by
  constructor
  · rintro ⟨after, hok⟩
    obtain ⟨⟨cert, found⟩, hcert, hreturn⟩ := Results.bind_eq_ok_iff.mp hok
    cases hreturn
    exact ⟨cert, hcert⟩
  · rintro ⟨cert, hcert⟩
    exact ⟨_, Results.bind_eq_ok_iff.mpr ⟨_, hcert, rfl⟩⟩

variable [DecidableEq PubKey] [LinearOrder Address]

theorem lastHeight_lt_of_update {c after : Dynamic wire} {fc : FullCommit PubKey Signature Address}
    (hok : c.update crypto fc = .ok (after, none)) : c.lastHeight < fc.height := by
  by_contra hpast
  unfold Dynamic.update at hok
  rw [if_pos (not_lt.mp hpast)] at hok
  cases hok

theorem call_lastHeight {c after : Dynamic wire} {call : Call PubKey Signature Address}
    {err : Option (LiteError Signature Address)} (hok : c.call crypto call = .ok (after, err)) :
    after.lastHeight = if err.isNone then callHeight call else c.lastHeight := by
  cases call with
  | certify check => exact certify_lastHeight hok
  | update fc =>
    cases Dynamic.update_cases hok with
    | inl hsame =>
      rw [hsame.1, if_neg (by simp [Option.isSome_iff_ne_none.mp hsame.2])]
    | inr hadopted =>
      obtain ⟨hnone, commit, validators, -, -, -, -, hafter⟩ := hadopted
      rw [hnone, hafter]
      rfl

/-- The last height goes down exactly when an older header is certified. -/
theorem lastHeight_le_of_call {c after : Dynamic wire} {call : Call PubKey Signature Address}
    {err : Option (LiteError Signature Address)} (hok : c.call crypto call = .ok (after, err)) :
    c.lastHeight ≤ after.lastHeight ↔
      ∀ check, call = .certify check →
        (∃ cert, c.cert.certify crypto check = .ok (cert, none)) → c.lastHeight ≤ check.height := by
  have hheight := call_lastHeight hok
  cases call with
  | certify check =>
    simp only [← certify_eq_ok_none_iff, Call.certify.injEq, forall_eq']
    cases err with
    | none =>
      rw [hheight]
      exact ⟨fun hle _ ↦ hle, fun hle ↦ hle ⟨after, hok⟩⟩
    | some cause =>
      rw [hheight]
      refine ⟨?_, fun _ ↦ le_rfl⟩
      rintro - ⟨other, hother⟩
      cases hok.symm.trans hother
  | update fc =>
    refine ⟨fun _ check hcall ↦ (by cases hcall), fun _ ↦ ?_⟩
    rw [hheight]
    cases err with
    | none => exact (lastHeight_lt_of_update hok).le
    | some cause => exact le_rfl

end Calls

/-! ## Whole runs -/

section Runs

variable {wire : Wire PubKey Signature Address} {crypto : Crypto PubKey Signature Address}
  [DecidableEq PubKey] [LinearOrder Address]

theorem call_of_mem_passages {c : Dynamic wire} {calls : List (Call PubKey Signature Address)}
    {passage : Passage wire} (hmem : passage ∈ passages crypto c calls) :
    passage.before.call crypto passage.call = .ok (passage.after, passage.err) := by
  induction calls generalizing c with
  | nil => cases hmem
  | cons call calls ih =>
    unfold passages at hmem
    split at hmem
    next => cases hmem
    next next err hcall =>
      cases List.mem_cons.mp hmem with
      | inl hfirst =>
        rw [hfirst]
        exact hcall
      | inr hlater => exact ih hlater

theorem lastHeight_le_of_mem_passages {c : Dynamic wire}
    {calls : List (Call PubKey Signature Address)}
    (hmonotone : ∀ passage ∈ passages crypto c calls,
      passage.before.lastHeight ≤ passage.after.lastHeight)
    {passage : Passage wire} (hmem : passage ∈ passages crypto c calls) :
    c.lastHeight ≤ passage.before.lastHeight := by
  induction calls generalizing c with
  | nil => cases hmem
  | cons call calls ih =>
    unfold passages at hmem hmonotone
    split at hmem
    next => cases hmem
    next next err hcall =>
      rw [hcall, List.forall_mem_cons] at hmonotone
      cases List.mem_cons.mp hmem with
      | inl hfirst => rw [hfirst]
      | inr hlater => exact hmonotone.1.trans (ih hmonotone.2 hlater)

theorem beyond_of_monotone {c : Dynamic wire} {calls : List (Call PubKey Signature Address)}
    (hmonotone : ∀ passage ∈ passages crypto c calls,
      passage.before.lastHeight ≤ passage.after.lastHeight) :
    (passages crypto c calls).Pairwise fun earlier later ↦ earlier.err = none → later.Updates →
      callHeight earlier.call < callHeight later.call := by
  induction calls generalizing c with
  | nil => exact List.Pairwise.nil
  | cons call calls ih =>
    unfold passages at hmonotone ⊢
    split
    next => exact List.Pairwise.nil
    next next err hcall =>
      rw [hcall, List.forall_mem_cons] at hmonotone
      rw [List.pairwise_cons]
      refine ⟨?_, ih hmonotone.2⟩
      intro later hlater haccepted hupdates
      obtain ⟨hlaterAccepted, fc, hfc⟩ := hupdates
      have hlaterCall := call_of_mem_passages hlater
      rw [hfc, hlaterAccepted] at hlaterCall
      have hnext : next.lastHeight = callHeight call := by
        rw [call_lastHeight hcall, if_pos (Option.isNone_iff_eq_none.mpr haccepted)]
      calc callHeight call = next.lastHeight := hnext.symm
        _ ≤ later.before.lastHeight := lastHeight_le_of_mem_passages hmonotone.2 hlater
        _ < fc.height := lastHeight_lt_of_update hlaterCall
        _ = callHeight later.call := by rw [hfc]; rfl

/-- The light client moves forward exactly when no header below the last height is certified. -/
theorem movesForward_iff_neverLooksBack (c : Dynamic wire)
    (calls : List (Call PubKey Signature Address)) :
    MovesForward (passages crypto c calls) ↔ NeverLooksBack crypto (passages crypto c calls) := by
  have hmonotone : (∀ passage ∈ passages crypto c calls,
      passage.before.lastHeight ≤ passage.after.lastHeight) ↔
      NeverLooksBack crypto (passages crypto c calls) :=
    forall₂_congr fun passage hmem ↦ lastHeight_le_of_call (call_of_mem_passages hmem)
  rw [← hmonotone]
  exact ⟨MovesForward.monotone, fun h ↦ ⟨h, beyond_of_monotone h⟩⟩

end Runs

/-! ## Samples -/

/-- A full commit of some height, signed by three validators. -/
def fullAt (height : ℤ) : FullCommit UInt8 UInt8 ℕ :=
  let header : Header := { sampleHeader (threeValidators 10 10 10) with height := height }
  let blockID : BlockID := ⟨header.hash sampleWire, ⟨1, [9]⟩⟩
  ⟨⟨some header, some ⟨blockID, [1, 2, 3].map fun key ↦
    some { VerifyCommit.samplePrecommit blockID key with height := height }, 0⟩⟩,
    some (threeValidators 10 10 10)⟩

/-- A header of height 9 is certified, then an older one of height 7. -/
def olderHeader : List (Passage sampleWire) :=
  passages sampleCrypto sampleDynamic
    [.certify (fullAt 9).toSignedHeader, .certify (fullAt 7).toSignedHeader, .update (fullAt 8)]

/-- The last height goes back to 7, and an update to height 8 follows the header of height 9. -/
theorem update_below_certified_header :
    olderHeader.map (fun passage ↦ (passage.err, passage.after.lastHeight)) =
        [(none, 9), (none, 7), (none, 8)] ∧
      ¬ MovesForward olderHeader := by
  refine ⟨rfl, fun hforward ↦ ?_⟩
  have hback : (9 : ℤ) ≤ 7 :=
    hforward.monotone (olderHeader.get ⟨1, Nat.le_of_ble_eq_true rfl⟩) (List.get_mem _ _)
  exact absurd hback (by decide)

end LkChain.Lite.Progress
