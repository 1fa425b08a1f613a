import LkChain.Foundation.Schedules
import LkChain.Lite.VerifyCommitAny
import LkChain.Tendermint.Blocks
import Mathlib.Logic.Relation

/-!
# The certifiers of the light client

A `Static` certifier checks signed headers against a validator set that it was given. A `Dynamic`
one also lets that set be replaced, by the set of a full commit that the known validators have
signed. Headers, commits and validator sets come from a full node that is not trusted, and any of
them may be nil.

`Update` asks whether the known validators have signed the header, and adopts the set that came with
it. It does not ask whether the header commits to that set. The known validators are asked for more
than two thirds of their power in 64-bit words, which is what it says as long as twice the total
fits in a word.
-/

namespace LkChain.Lite.Certifiers

open Foundation Foundation.Stops
open Tendermint Tendermint.Types ValSet
open Validators.ParseTx (Bytes Crypto sampleCrypto)
open VerifyCommit (CommitError verifyCommit)
open VerifyCommitAny (Signers powerAt verifyCommitAny)

variable {PubKey Signature Address : Type}

/-- The errors of the certifiers. -/
inductive LiteError (Signature Address : Type) where
  | missingHeader
  | otherChain (found expected : String)
  | missingSignatures
  | heightMismatch (commit header : ℤ)
  | otherBlock (commit header : Bytes)
  | basic (error : BasicError)
  | validatorsChanged
  | commit (error : CommitError Signature Address)
  | pastTime
  | tooMuchChange
deriving DecidableEq

/-- `lite.Commit`, which is a `types.SignedHeader`. -/
structure SignedHeader (Signature Address : Type) where
  header : Option Header
  commit : Option (Commit Signature Address)
deriving DecidableEq

structure FullCommit (PubKey Signature Address : Type) extends SignedHeader Signature Address where
  validators : Option (ValidatorSet PubKey Address)
deriving DecidableEq

def SignedHeader.height (c : SignedHeader Signature Address) : ℤ := c.header.elim 0 Header.height

def SignedHeader.validatorsHash (c : SignedHeader Signature Address) : Bytes :=
  c.header.elim [] Header.validatorsHash

def SignedHeader.validateBasic (c : SignedHeader Signature Address)
    (wire : Wire PubKey Signature Address) (chainID : String) :
    Fallible (LiteError Signature Address) Unit :=
  match c.header with
  | none => .error (.error .missingHeader)
  | some header =>
    if header.chainID ≠ chainID then .error (.error (.otherChain header.chainID chainID))
    else
      match c.commit with
      | none => .error (.error .missingSignatures)
      | some commit => do
        let height ← commit.height
        if height ≠ header.height then .error (.error (.heightMismatch height header.height))
        else if header.hash wire ≠ commit.blockID.hash then
          .error (.error (.otherBlock commit.blockID.hash (header.hash wire)))
        else commit.validateBasic.mapError (Stop.map .basic)

/-- `Static`. The hash of the set is cached when it is first asked for. -/
structure Static (wire : Wire PubKey Signature Address) where
  chainID : String
  vSet : ValidatorSet PubKey Address
  vhash : Bytes
  cached : vhash = [] ∨ vhash = vSet.hash wire

structure Dynamic (wire : Wire PubKey Signature Address) where
  cert : Static wire
  lastHeight : ℤ

section Program

variable {wire : Wire PubKey Signature Address}

def newStatic (wire : Wire PubKey Signature Address) (chainID : String)
    (vals : ValidatorSet PubKey Address) : Static wire := ⟨chainID, vals, [], .inl rfl⟩

def newDynamic (wire : Wire PubKey Signature Address) (chainID : String)
    (vals : ValidatorSet PubKey Address) (height : ℤ) : Dynamic wire :=
  ⟨newStatic wire chainID vals, height⟩

/-- `Static.Hash`, with the certifier that has cached it. -/
def Static.hash (c : Static wire) : Static wire × Bytes :=
  if c.vhash.isEmpty then
    ({ c with vhash := c.vSet.hash wire, cached := .inr rfl }, c.vSet.hash wire)
  else (c, c.vhash)

variable (crypto : Crypto PubKey Signature Address)

def Static.certify (c : Static wire) (check : SignedHeader Signature Address) :
    Except Panic (Static wire × Option (LiteError Signature Address)) := do
  match ← answer (check.validateBasic wire c.chainID) with
  | some err => .ok (c, some err)
  | none =>
    match check.header, check.commit with
    | some header, some commit => do
      let (c, hash) := c.hash
      if hash ≠ header.validatorsHash then .ok (c, some .validatorsChanged)
      else
        let err ← answer (verifyCommit crypto wire c.vSet c.chainID commit.blockID header.height
          (some commit))
        return (c, err.map .commit)
    | _, _ => .error .nilDereference

def Dynamic.certify (c : Dynamic wire) (check : SignedHeader Signature Address) :
    Except Panic (Dynamic wire × Option (LiteError Signature Address)) := do
  let (cert, err) ← c.cert.certify crypto check
  return (⟨cert, if err.isNone then check.height else c.lastHeight⟩, err)

variable [DecidableEq PubKey] [LinearOrder Address]

def Dynamic.update (c : Dynamic wire) (fc : FullCommit PubKey Signature Address) :
    Except Panic (Dynamic wire × Option (LiteError Signature Address)) :=
  if fc.height ≤ c.lastHeight then .ok (c, some .pastTime)
  else do
    match ← answer (fc.validateBasic wire c.cert.chainID) with
    | some err => .ok (c, some err)
    | none =>
      match fc.commit, fc.validators with
      | some commit, some validators => do
        match ← answer (verifyCommitAny crypto wire c.cert.vSet validators c.cert.chainID
          commit.blockID fc.height commit) with
        | some _ => .ok (c, some .tooMuchChange)
        | none => .ok (newDynamic wire c.cert.chainID validators fc.height, none)
      | _, _ => .error .nilDereference

/-- A call of a dynamic certifier. -/
inductive Call (PubKey Signature Address : Type) where
  | certify (check : SignedHeader Signature Address)
  | update (fc : FullCommit PubKey Signature Address)

/-- The certifier after a call, and what the call returns. -/
def Dynamic.call (c : Dynamic wire) : Call PubKey Signature Address →
    Except Panic (Dynamic wire × Option (LiteError Signature Address))
  | .certify check => c.certify crypto check
  | .update fc => c.update crypto fc

/-- The certifier after a call. -/
def Dynamic.step (c : Dynamic wire) (call : Call PubKey Signature Address) :
    Except Panic (Dynamic wire) := do
  let (next, _) ← c.call crypto call
  return next

/-- A change of the trusted set, by an update that has returned nil. -/
structure Adoption (PubKey Signature Address : Type) where
  trusted : ValidatorSet PubKey Address
  full : FullCommit PubKey Signature Address
  adopted : ValidatorSet PubKey Address

/-- The change of the trusted set by a call that has returned. -/
def adoptionOf (c next : Dynamic wire) (err : Option (LiteError Signature Address)) :
    Call PubKey Signature Address → Option (Adoption PubKey Signature Address)
  | .certify _ => none
  | .update fc => if err.isNone then some ⟨c.cert.vSet, fc, next.cert.vSet⟩ else none

/-- The changes of the trusted set in a sequence of calls, which ends with a panic. -/
def adoptions : Dynamic wire → List (Call PubKey Signature Address) →
    List (Adoption PubKey Signature Address)
  | _, [] => []
  | c, call :: rest =>
    match c.call crypto call with
    | .error _ => []
    | .ok (next, err) => (adoptionOf c next err call).toList ++ adoptions next rest

end Program

/-! ## What an update has to be -/

section Specification

variable (crypto : Crypto PubKey Signature Address) (wire : Wire PubKey Signature Address)
  (chainID : String)

/-- Different validators of a set with more than two thirds of its power have signed the block of a
commit. -/
def Endorsed (trusted : ValidatorSet PubKey Address) (height : ℤ)
    (commit : Commit Signature Address) : Prop :=
  ∃ signers, Signers crypto wire chainID commit.blockID height trusted commit.precommits signers ∧
    2 * (powers trusted.validators).sum < 3 * (signers.map (powerAt trusted)).sum

/-- The header is that of the block that the trusted validators have signed. -/
def Adoption.Signed (adoption : Adoption PubKey Signature Address) : Prop :=
  ∃ header commit, adoption.full.header = some header ∧ adoption.full.commit = some commit ∧
    header.chainID = chainID ∧ header.hash wire = commit.blockID.hash ∧
    Endorsed crypto wire chainID adoption.trusted header.height commit

/-- The adopted set is the one that a header commits to which the trusted validators have
signed. -/
structure Adoption.Authenticated (adoption : Adoption PubKey Signature Address) : Prop where
  committed : adoption.adopted.hash wire = adoption.full.validatorsHash
  signed : adoption.Signed crypto wire chainID

/-- A set that did not get out of hand: no power is negative, and twice their sum fits in a word. -/
structure Sized (valSet : ValidatorSet PubKey Address) : Prop where
  nonneg : ∀ v ∈ valSet.validators, 0 ≤ v.votingPower
  fits : 2 * (powers valSet.validators).sum < 2 ^ 63

/-- The set of a full commit is the one of its header. -/
def FullCommit.Consistent (fc : FullCommit PubKey Signature Address) : Prop :=
  ∃ validators, fc.validators = some validators ∧ validators.hash wire = fc.validatorsHash

end Specification

/-! ## One call -/

section Calls

variable {wire : Wire PubKey Signature Address} {crypto : Crypto PubKey Signature Address}
  {chainID : String}

theorem validateBasic_eq_ok {c : SignedHeader Signature Address}
    (hok : c.validateBasic wire chainID = .ok ()) :
    ∃ header commit, c.header = some header ∧ c.commit = some commit ∧
      header.chainID = chainID ∧ header.hash wire = commit.blockID.hash := by
  unfold SignedHeader.validateBasic at hok
  cases hheader : c.header with
  | none =>
    rw [hheader] at hok
    cases hok
  | some header =>
    rw [hheader] at hok
    dsimp only at hok
    rw [Results.ite_error_eq_ok_iff] at hok
    obtain ⟨hchain, hok⟩ := hok
    cases hcommit : c.commit with
    | none =>
      rw [hcommit] at hok
      cases hok
    | some commit =>
      rw [hcommit] at hok
      dsimp only at hok
      rw [Results.bind_eq_ok_iff] at hok
      obtain ⟨height, -, hok⟩ := hok
      rw [Results.ite_error_eq_ok_iff, Results.ite_error_eq_ok_iff] at hok
      exact ⟨header, commit, rfl, rfl, not_not.mp hchain, not_not.mp hok.2.1⟩

theorem Static.hash_fst_vSet (c : Static wire) :
    c.hash.1.vSet = c.vSet ∧ c.hash.1.chainID = c.chainID := by
  unfold Static.hash
  split <;> exact ⟨rfl, rfl⟩

theorem Static.certify_keeps {c after : Static wire} {check : SignedHeader Signature Address}
    {err : Option (LiteError Signature Address)} (hok : c.certify crypto check = .ok (after, err)) :
    after.vSet = c.vSet ∧ after.chainID = c.chainID := by
  unfold Static.certify at hok
  rw [Results.bind_eq_ok_iff] at hok
  obtain ⟨basic, -, hok⟩ := hok
  cases basic with
  | some cause =>
    cases hok
    exact ⟨rfl, rfl⟩
  | none =>
    dsimp only at hok
    split at hok
    next header commit _ _ =>
      split at hok
      next =>
        cases hok
        exact c.hash_fst_vSet
      next =>
        rw [Results.bind_eq_ok_iff] at hok
        obtain ⟨verified, -, hok⟩ := hok
        cases hok
        exact c.hash_fst_vSet
    next => cases hok

theorem Dynamic.certify_keeps {c after : Dynamic wire} {check : SignedHeader Signature Address}
    {err : Option (LiteError Signature Address)} (hok : c.certify crypto check = .ok (after, err)) :
    after.cert.vSet = c.cert.vSet ∧ after.cert.chainID = c.cert.chainID := by
  unfold Dynamic.certify at hok
  rw [Results.bind_eq_ok_iff] at hok
  obtain ⟨⟨cert, found⟩, hcert, hok⟩ := hok
  cases hok
  exact Static.certify_keeps hcert

variable [DecidableEq PubKey] [LinearOrder Address]

/-- An update changes nothing and returns an error, or it adopts the set of the full commit. -/
theorem Dynamic.update_cases {c after : Dynamic wire} {fc : FullCommit PubKey Signature Address}
    {err : Option (LiteError Signature Address)} (hok : c.update crypto fc = .ok (after, err)) :
    (after = c ∧ err.isSome) ∨
      err = none ∧ ∃ commit validators, fc.commit = some commit ∧ fc.validators = some validators ∧
        fc.validateBasic wire c.cert.chainID = .ok () ∧
        verifyCommitAny crypto wire c.cert.vSet validators c.cert.chainID commit.blockID fc.height
          commit = .ok () ∧
        after = newDynamic wire c.cert.chainID validators fc.height := by
  unfold Dynamic.update at hok
  split at hok
  next =>
    cases hok
    exact .inl ⟨rfl, rfl⟩
  next =>
    rw [Results.bind_eq_ok_iff] at hok
    obtain ⟨basic, hbasic, hok⟩ := hok
    cases basic with
    | some cause =>
      cases hok
      exact .inl ⟨rfl, rfl⟩
    | none =>
      dsimp only at hok
      split at hok
      next commit validators hcommit hvalidators =>
        rw [Results.bind_eq_ok_iff] at hok
        obtain ⟨verified, hverified, hok⟩ := hok
        cases verified with
        | some cause =>
          cases hok
          exact .inl ⟨rfl, rfl⟩
        | none =>
          cases hok
          exact .inr ⟨rfl, commit, validators, hcommit, hvalidators, answer_eq_none_iff.mp hbasic,
            answer_eq_none_iff.mp hverified, rfl⟩
      next => cases hok

/-- An update that returns nil was signed by the trusted validators, if their power fits, and adopts
the set of the full commit. -/
theorem Dynamic.update_eq_ok_none {c after : Dynamic wire}
    {fc : FullCommit PubKey Signature Address} (hsized : Sized c.cert.vSet)
    (hok : c.update crypto fc = .ok (after, none)) :
    fc.validators = some after.cert.vSet ∧
      (Adoption.mk c.cert.vSet fc after.cert.vSet).Signed crypto wire c.cert.chainID := by
  cases Dynamic.update_cases hok with
  | inl hsame => cases hsame.2
  | inr hadopted =>
    obtain ⟨-, commit, validators, hcommit, hvalidators, hbasic, hverified, hafter⟩ := hadopted
    rw [hafter]
    refine ⟨hvalidators, ?_⟩
    obtain ⟨header, signed, hheader, hsigned, hchain, hhash⟩ := validateBasic_eq_ok hbasic
    rw [hcommit] at hsigned
    cases hsigned
    have hheight : fc.height = header.height := by
      unfold SignedHeader.height
      rw [hheader, Option.elim_some]
    rw [hheight] at hverified
    obtain ⟨signers, hsigners, hpower⟩ := VerifyCommitAny.signers_of_verifyCommitAny hverified
    refine ⟨header, commit, hheader, hcommit, hchain, hhash, signers, hsigners, ?_⟩
    apply (VerifyCommitAny.twoThirds_lt_signers_iff hsized.nonneg hsized.fits hsigners.nodup
      ?_).mp hpower
    intro index hindex
    obtain ⟨val, hval, -⟩ := hsigners.signed index hindex
    exact (List.getElem?_eq_some_iff.mp hval).1

theorem Dynamic.call_keeps_chainID {c after : Dynamic wire} {call : Call PubKey Signature Address}
    {err : Option (LiteError Signature Address)} (hok : c.call crypto call = .ok (after, err)) :
    after.cert.chainID = c.cert.chainID := by
  cases call with
  | certify check => exact (Dynamic.certify_keeps hok).2
  | update fc =>
    cases Dynamic.update_cases hok with
    | inl hsame => rw [hsame.1]
    | inr hadopted =>
      obtain ⟨-, commit, validators, -, -, -, -, hafter⟩ := hadopted
      rw [hafter]
      rfl

end Calls

/-! ## Whole runs -/

section Runs

variable {wire : Wire PubKey Signature Address} {crypto : Crypto PubKey Signature Address}
  [DecidableEq PubKey] [LinearOrder Address]

/-- Every change of the trusted set is an update that returned nil, on the same chain. -/
theorem exists_update_of_mem_adoptions {c : Dynamic wire}
    {calls : List (Call PubKey Signature Address)} {adoption : Adoption PubKey Signature Address}
    (hmem : adoption ∈ adoptions crypto c calls) :
    ∃ before after : Dynamic wire, before.cert.chainID = c.cert.chainID ∧
      before.update crypto adoption.full = .ok (after, none) ∧
      adoption = ⟨before.cert.vSet, adoption.full, after.cert.vSet⟩ := by
  induction calls generalizing c with
  | nil => cases hmem
  | cons call calls ih =>
    unfold adoptions at hmem
    split at hmem
    next => cases hmem
    next next err hcall =>
      cases List.mem_append.mp hmem with
      | inl hnow =>
        rw [Option.mem_toList] at hnow
        cases call with
        | certify check => cases hnow
        | update fc =>
          dsimp only [adoptionOf] at hnow
          split at hnow
          next hnone =>
            cases hnow
            rw [Option.isNone_iff_eq_none.mp hnone] at hcall
            exact ⟨c, next, rfl, hcall, rfl⟩
          next => cases hnow
      | inr hlater =>
        obtain ⟨before, after, hchain, hupdate, hadoption⟩ := ih hlater
        exact ⟨before, after, hchain.trans (Dynamic.call_keeps_chainID hcall), hupdate, hadoption⟩

/-- A set is authenticated by another one. -/
def Follows (crypto : Crypto PubKey Signature Address) (wire : Wire PubKey Signature Address)
    (chainID : String) (trusted adopted : ValidatorSet PubKey Address) : Prop :=
  ∃ full, (Adoption.mk trusted full adopted).Authenticated crypto wire chainID

/-- What is kept of a run from an initial certifier. -/
structure Trusting (crypto : Crypto PubKey Signature Address) (initial c : Dynamic wire) :
    Prop where
  sized : Sized c.cert.vSet
  chain : c.cert.chainID = initial.cert.chainID
  follows : Relation.ReflTransGen (Follows crypto wire initial.cert.chainID) initial.cert.vSet
    c.cert.vSet

theorem Trusting.step {initial c after : Dynamic wire} {call : Call PubKey Signature Address}
    (htrusting : Trusting crypto initial c)
    (hcall : ∀ fc, call = .update fc → fc.Consistent wire ∧
      ∀ validators, fc.validators = some validators → Sized validators)
    (hstep : c.step crypto call = .ok after) : Trusting crypto initial after := by
  unfold Dynamic.step at hstep
  rw [Results.bind_eq_ok_iff] at hstep
  obtain ⟨⟨next, err⟩, hok, hnext⟩ := hstep
  cases hnext
  have hchain := (Dynamic.call_keeps_chainID hok).trans htrusting.chain
  cases call with
  | certify check =>
    have hset := (Dynamic.certify_keeps hok).1
    exact ⟨hset ▸ htrusting.sized, hchain, hset ▸ htrusting.follows⟩
  | update fc =>
    cases err with
    | some cause =>
      cases Dynamic.update_cases hok with
      | inl hsame =>
        rw [hsame.1]
        exact htrusting
      | inr hadopted => cases hadopted.1
    | none =>
      obtain ⟨⟨validators, hfull, hhash⟩, hsized⟩ := hcall fc rfl
      obtain ⟨hvalidators, hsigned⟩ := Dynamic.update_eq_ok_none htrusting.sized hok
      rw [hvalidators] at hfull
      cases hfull
      rw [htrusting.chain] at hsigned
      exact ⟨hsized _ hvalidators, hchain, htrusting.follows.tail ⟨fc, hhash, hsigned⟩⟩

/-- As long as full commits hold the set of their header, the trusted set is linked to the initial
one by sets of which each was signed for by the one before. -/
theorem follows_of_run {initial final : Dynamic wire} {calls : List (Call PubKey Signature Address)}
    (hinitial : Sized initial.cert.vSet)
    (hcalls : ∀ fc, .update fc ∈ calls → fc.Consistent wire ∧
      ∀ validators, fc.validators = some validators → Sized validators)
    (hrun : Schedules.run (Dynamic.step crypto) initial calls = .ok final) :
    Relation.ReflTransGen (Follows crypto wire initial.cert.chainID) initial.cert.vSet
      final.cert.vSet := by
  have htrusting : Trusting crypto initial final := by
    apply Schedules.invariant (Trusting crypto initial) _ ⟨hinitial, rfl, .refl⟩ hrun
    intro c call after hmem htrusting hstep
    apply htrusting.step _ hstep
    rintro fc rfl
    exact hcalls fc hmem
  exact htrusting.follows

/-- A set that the certifier adopts is authenticated exactly when it is the one of the header, which
`Update` does not look at. The header is always that of the block the trusted validators have
signed. -/
theorem adoption_authenticated_iff {c : Dynamic wire} {calls : List (Call PubKey Signature Address)}
    {adoption : Adoption PubKey Signature Address}
    (hmem : adoption ∈ adoptions crypto c calls) (hsized : Sized adoption.trusted) :
    adoption.Authenticated crypto wire c.cert.chainID ↔ adoption.full.Consistent wire := by
  obtain ⟨before, after, hchain, hupdate, hadoption⟩ := exists_update_of_mem_adoptions hmem
  have htrusted : adoption.trusted = before.cert.vSet := by rw [hadoption]
  have hadopted : adoption.adopted = after.cert.vSet := by rw [hadoption]
  obtain ⟨hvalidators, hsigned⟩ := Dynamic.update_eq_ok_none (htrusted ▸ hsized) hupdate
  rw [← hadoption, hchain] at hsigned
  constructor
  · intro hauthenticated
    exact ⟨after.cert.vSet, hvalidators, hadopted ▸ hauthenticated.committed⟩
  · rintro ⟨validators, hfull, hhash⟩
    refine ⟨?_, hsigned⟩
    rw [hvalidators] at hfull
    cases hfull
    rw [hadopted]
    exact hhash

end Runs

/-! ## Samples -/

/-- Three validators with these powers. -/
def threeValidators (first second third : ℤ) : ValidatorSet UInt8 ℕ :=
  .of [⟨1, 1, first, 0⟩, ⟨2, 2, second, 0⟩, ⟨3, 3, third, 0⟩]

/-- A header of height 7 that commits to a validator set. -/
def sampleHeader (valSet : ValidatorSet UInt8 ℕ) : Header :=
  ⟨"chain", 7, 3, 0, .zero, 0, none, none, valSet.hash sampleWire, [], [], [], none, ""⟩

/-- The header, signed by the validators with these keys, with some validator set. -/
def sampleFull (header : Header) (keys : List UInt8) (valSet : ValidatorSet UInt8 ℕ) :
    FullCommit UInt8 UInt8 ℕ :=
  let blockID : BlockID := ⟨header.hash sampleWire, ⟨1, [9]⟩⟩
  ⟨⟨some header, some ⟨blockID,
    keys.map fun key ↦ some (VerifyCommit.samplePrecommit blockID key), 0⟩⟩, some valSet⟩

/-- The honest change of one power, signed by all. -/
def honestFull : FullCommit UInt8 UInt8 ℕ :=
  sampleFull (sampleHeader (threeValidators 10 10 12)) [1, 2, 3] (threeValidators 10 10 12)

/-- The same signed header with other powers, which leave two validators without a say. -/
def forgedFull : FullCommit UInt8 UInt8 ℕ :=
  sampleFull (sampleHeader (threeValidators 10 10 12)) [1, 2, 3] (threeValidators 100 1 1)

/-- A certifier that trusts three equal validators. -/
def sampleDynamic : Dynamic sampleWire := newDynamic sampleWire "chain" (threeValidators 10 10 10) 0

theorem sized_threeValidators : Sized (threeValidators 10 10 10) := ⟨by decide, by decide⟩

theorem adoption_authenticated_honestFull :
    (Adoption.mk (threeValidators 10 10 10) honestFull (threeValidators 10 10 12)).Authenticated
      sampleCrypto sampleWire "chain" := by
  have hmem : Adoption.mk (threeValidators 10 10 10) honestFull (threeValidators 10 10 12) ∈
      adoptions sampleCrypto sampleDynamic [.update honestFull] := List.mem_singleton.mpr rfl
  exact (adoption_authenticated_iff hmem sized_threeValidators).mpr ⟨_, rfl, rfl⟩

theorem follows_of_run_honestFull :
    Relation.ReflTransGen (Follows sampleCrypto sampleWire "chain") (threeValidators 10 10 10)
      (threeValidators 10 10 12) := by
  have hrun : Schedules.run (Dynamic.step sampleCrypto) sampleDynamic [.update honestFull] =
      .ok (newDynamic sampleWire "chain" (threeValidators 10 10 12) 7) := rfl
  apply follows_of_run sized_threeValidators _ hrun
  intro fc hmem
  cases List.mem_singleton.mp hmem
  refine ⟨⟨_, rfl, rfl⟩, ?_⟩
  rintro _ ⟨⟩
  exact ⟨by decide, by decide⟩

/-- Powers that no header commits to are adopted. -/
theorem forged_powers_adopted :
    adoptions sampleCrypto sampleDynamic [.update forgedFull] =
        [⟨threeValidators 10 10 10, forgedFull, threeValidators 100 1 1⟩] ∧
      Sized (threeValidators 10 10 10) ∧
      ¬ (Adoption.mk (threeValidators 10 10 10) forgedFull
        (threeValidators 100 1 1)).Authenticated sampleCrypto sampleWire "chain" :=
  ⟨rfl, sized_threeValidators, fun hauthenticated ↦
    absurd hauthenticated.committed (by decide)⟩

-- a validator whose power overflows is replaced by another one that nobody has signed for
example :
    (adoptions sampleCrypto (newDynamic sampleWire "chain" (.of [⟨1, 1, 2 ^ 62, 0⟩]) 0)
      [.update (sampleFull (sampleHeader (.of [⟨2, 2, 2 ^ 62, 0⟩])) [2]
        (.of [⟨2, 2, 2 ^ 62, 0⟩]))]).map Adoption.adopted = [.of [⟨2, 2, 2 ^ 62, 0⟩]] := rfl

end LkChain.Lite.Certifiers
