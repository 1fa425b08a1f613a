import LkChain.Foundation.Registers
import LkChain.Foundation.Schedules
import LkChain.Tendermint.PrivValidator
import Mathlib

/-!
# No double signing

The height, round and step of the last signature are a register that only grows, and the last
signature is its value. A call returns what the register holds, or moves it first. The file has
what the register holds, because it is written before the signature is returned; so a crash does
not set the register back, other than over a signature that nobody has seen.
-/

namespace LkChain.Tendermint.PrivValidator

open Foundation Foundation.Stops Tendermint.Types
open Registers (Guarded Labels)

variable {PrivKey PubKey Signature Address Text Content Error SignerError : Type}

/-! ## Texts that differ in the timestamp only -/

section Texts

variable {stamp : Stamp Content} {json : Json Content Text}

/-- A text is read as this content, at some time. -/
def Covers (stamp : Stamp Content) (json : Json Content Text) (text : Option Text)
    (once : String × Content) : Prop :=
  ∃ content, text.bind json.unmarshal = some (once.1, content) ∧
    ∀ time, stamp.write time content = stamp.write time once.2

/-- The texts are the same, or differ in the timestamp only. -/
def Json.SameButTimestamp (stamp : Stamp Content) (json : Json Content Text)
    (first second : Text) : Prop :=
  ∃ chainID content time other, first = json.signBytes (chainID, stamp.write time content) ∧
    second = json.signBytes (chainID, stamp.write other content)

theorem covers_signBytes (once : String × Content) :
    Covers stamp json (some (json.signBytes once)) once :=
  ⟨once.2, json.unmarshal_signBytes once, fun _ ↦ rfl⟩

theorem Json.marshal_injective (json : Json Content Text) : Function.Injective json.marshal := by
  intro once other hsame
  apply Option.some.inj
  rw [← json.unmarshal_marshal once, hsame, json.unmarshal_marshal other]

/-- What is found to differ by the timestamp only, does. The time of the check plays no part. -/
theorem covers_of_check [DecidableEq Text] {kind : String} {now : ℤ} {last : Option Text}
    {once : String × Content}
    (hcheck : (checkOnlyDifferByTimestamp stamp json kind now last (json.signBytes once) :
      Fallible Error Bool) = .ok true) :
    Covers stamp json last once := by
  unfold checkOnlyDifferByTimestamp at hcheck
  rw [json.unmarshal_signBytes] at hcheck
  cases hlast : last.bind json.unmarshal with
  | none =>
    rw [hlast] at hcheck
    cases hcheck
  | some found =>
    rw [hlast] at hcheck
    have hmarshal := json.marshal_injective (of_decide_eq_true (Except.ok.inj hcheck))
    obtain ⟨hchain, hcontent⟩ := Prod.mk.inj hmarshal
    refine ⟨found.2, hlast.trans (by rw [hchain]), ?_⟩
    intro time
    calc stamp.write time found.2
        = stamp.write time (stamp.write now found.2) := (stamp.write_write _ _ _).symm
      _ = stamp.write time (stamp.write now once.2) := by rw [hcontent]
      _ = stamp.write time once.2 := stamp.write_write _ _ _

theorem Covers.sameButTimestamp {text : Option Text} {once other : String × Content}
    (hcovers : Covers stamp json text once) (hother : Covers stamp json text other) :
    json.SameButTimestamp stamp (json.signBytes once) (json.signBytes other) := by
  obtain ⟨content, hread, hcontent⟩ := hcovers
  obtain ⟨again, hreadAgain, hagain⟩ := hother
  rw [hread] at hreadAgain
  obtain ⟨hchain, hsame⟩ := Prod.mk.inj (Option.some.inj hreadAgain)
  refine ⟨once.1, content, stamp.read once.2, stamp.read other.2, ?_, ?_⟩
  · rw [hcontent, stamp.write_read]
  · rw [hsame, hagain, stamp.write_read, hchain]

end Texts

section Requests

variable (setup : Setup PrivKey PubKey Signature Address Text)

/-- A text is the one of a request, but for the timestamp. -/
def Request.Matches (text : Option Text) : Request Signature Address → Prop
  | .signVote chainID vote => Covers voteStamp setup.votes text (chainID, vote.canonical)
  | .signProposal chainID proposal =>
    Covers proposalStamp setup.proposals text (chainID, proposal.canonical)

/-- Sign bytes of two votes or of two proposals that are the same, or differ in the timestamp
only. -/
def SameButTimestamp (first second : Text) : Prop :=
  setup.votes.SameButTimestamp voteStamp first second ∨
    setup.proposals.SameButTimestamp proposalStamp first second

variable {setup}

theorem Request.matches_signBytes (request : Request Signature Address) :
    request.Matches setup (some (request.signBytes setup)) := by
  cases request with
  | signVote chainID vote => exact covers_signBytes _
  | signProposal chainID proposal => exact covers_signBytes _

theorem Request.step_signVote_ne (chainID : String) (vote : Vote Signature Address) :
    (Request.signVote chainID vote).step ≠ stepPropose := by
  unfold Request.step voteToStep
  dsimp only
  split_ifs <;> decide

theorem step_eq_of_hrs_eq {height round step height' round' step' : ℤ}
    (hsame : hrs height round step = hrs height' round' step') : step = step' :=
  (Prod.mk.inj (Prod.mk.inj hsame).2).2

theorem Request.sameButTimestamp {text : Option Text} {first second : Request Signature Address}
    (hfirst : first.Matches setup text) (hsecond : second.Matches setup text)
    (hhrs : first.hrs = second.hrs) :
    SameButTimestamp setup (first.signBytes setup) (second.signBytes setup) := by
  have hstep : first.step = second.step := step_eq_of_hrs_eq hhrs
  cases first with
  | signVote chainID vote =>
    cases second with
    | signVote => exact .inl (hfirst.sameButTimestamp hsecond)
    | signProposal => exact absurd hstep (Request.step_signVote_ne chainID vote)
  | signProposal =>
    cases second with
    | signVote chainID vote => exact absurd hstep.symm (Request.step_signVote_ne chainID vote)
    | signProposal => exact .inr (hfirst.sameButTimestamp hsecond)

end Requests

/-! ## One call -/

section Calls

variable {setup : Setup PrivKey PubKey Signature Address Text}

/-- One level of `checkHRS`: a larger number settles the matter, an equal one leaves it to the
next level. -/
theorem compared_eq_ok_iff {last new : ℤ} {error : HRSError SignerError}
    {rest : Fallible (HRSError SignerError) Bool} {same : Bool} :
    (if new < last then .error (.error error) else if last = new then rest else .ok false) =
        .ok same ↔
      (last < new ∧ same = false) ∨ (last = new ∧ rest = .ok same) := by
  rw [Results.ite_error_eq_ok_iff]
  by_cases heq : last = new
  · rw [if_pos heq]
    constructor
    · exact fun h ↦ .inr ⟨heq, h.2⟩
    · exact fun h ↦ ⟨heq.not_gt, (h.resolve_left fun hlt ↦ hlt.1.ne heq).2⟩
  · rw [if_neg heq]
    constructor
    · exact fun h ↦ .inl ⟨lt_of_le_of_ne (not_lt.mp h.1) heq, (Except.ok.inj h.2).symm⟩
    · intro h
      obtain ⟨hlt, hsame⟩ := h.resolve_right fun h ↦ heq h.1
      rw [hsame]
      exact ⟨not_lt_of_gt hlt, rfl⟩

theorem checkHRS_eq_ok {last : LastSigned Signature Text} {height round step : ℤ} {same : Bool}
    (hcheck : (last.checkHRS setup height round step : Fallible (HRSError SignerError) Bool) =
      .ok same) :
    (same = false ∧ last.hrs < hrs height round step) ∨
      (same = true ∧ last.hrs = hrs height round step) := by
  unfold LastSigned.checkHRS at hcheck
  unfold LastSigned.hrs hrs
  rw [Prod.Lex.toLex_lt_toLex, Prod.Lex.toLex_lt_toLex]
  rw [compared_eq_ok_iff, compared_eq_ok_iff, compared_eq_ok_iff] at hcheck
  obtain ⟨hheight, hsame⟩ | ⟨hheight, hcheck⟩ := hcheck
  · exact .inl ⟨hsame, .inl hheight⟩
  obtain ⟨hround, hsame⟩ | ⟨hround, hcheck⟩ := hcheck
  · exact .inl ⟨hsame, .inr ⟨hheight, .inl hround⟩⟩
  obtain ⟨hstep, hsame⟩ | ⟨hstep, hcheck⟩ := hcheck
  · exact .inl ⟨hsame, .inr ⟨hheight, .inr ⟨hround, hstep⟩⟩⟩
  · rw [hheight, hround, hstep]
    split at hcheck
    · rw [Results.ite_error_eq_ok_iff] at hcheck
      exact .inr ⟨(Except.ok.inj hcheck.2).symm, rfl⟩
    · cases hcheck

/-- What a call can do: it is refused, it repeats the last signature, or it makes a new one for a
later height, round or step. Without a path the new one is not saved, and not returned. -/
inductive Outcome (setup : Setup PrivKey PubKey Signature Address Text)
    (m : Machine PrivKey PubKey Signature Address Text)
    (sign : Text → Except SignerError Signature) (request : Request Signature Address) :
    Machine PrivKey PubKey Signature Address Text ×
      Fallible (SignError SignerError) Signature → Prop
  | refused (stop) (hsigns : m.signs setup sign request = false) :
    Outcome setup m sign request (m, .error stop)
  | repeated (hhrs : m.pv.hrs = request.hrs) (hmatches : request.Matches setup m.pv.lastSignBytes)
    (hsigns : m.signs setup sign request = false) :
    Outcome setup m sign request (m, .ok m.pv.lastSignature)
  | produced (signature file) (hhrs : m.pv.hrs < request.hrs)
    (hsign : sign (request.signBytes setup) = .ok signature)
    (hsave : (m.pv.signed request.height request.round request.step (request.signBytes setup)
      signature).save setup = .ok file)
    (hsigns : m.signs setup sign request = true) :
    Outcome setup m sign request
      (⟨m.pv.signed request.height request.round request.step (request.signBytes setup) signature,
        some file⟩, .ok signature)
  | unsaved (signature stop) (hhrs : m.pv.hrs < request.hrs)
    (hsign : sign (request.signBytes setup) = .ok signature) (hpath : m.pv.filePath = "")
    (hsigns : m.signs setup sign request = true) :
    Outcome setup m sign request
      (⟨m.pv.signed request.height request.round request.step (request.signBytes setup) signature,
        m.file⟩, .error stop)

theorem save_eq_ok {pv : PrivValidatorFS PrivKey PubKey Signature Address Text}
    {file : File PrivKey PubKey Signature Address Text} (hsave : pv.save setup = .ok file) :
    pv.filePath ≠ "" ∧ file.toLastSigned = pv.toLastSigned := by
  unfold PrivValidatorFS.save at hsave
  rw [Results.ite_error_eq_ok_iff] at hsave
  obtain ⟨hpath, hfile⟩ := hsave
  cases hfile
  exact ⟨hpath, rfl⟩

theorem save_eq_error {pv : PrivValidatorFS PrivKey PubKey Signature Address Text} {panic : Panic}
    (hsave : pv.save setup = .error panic) : pv.filePath = "" := by
  unfold PrivValidatorFS.save at hsave
  split_ifs at hsave with hpath
  exact hpath

variable [DecidableEq Text] {m : Machine PrivKey PubKey Signature Address Text}
  {sign : Text → Except SignerError Signature}

theorem outcome_signBytesHRS {request : Request Signature Address}
    {checkFn : Option Text → Text → Fallible (HRSError SignerError) Bool}
    (hknown : request.known = true)
    (hcheckFn : checkFn m.pv.lastSignBytes (request.signBytes setup) = .ok true →
      request.Matches setup m.pv.lastSignBytes)
    {wrap : HRSError SignerError → SignError SignerError}
    {out : Machine PrivKey PubKey Signature Address Text ×
      Fallible (HRSError SignerError) Signature}
    (hout : m.signBytesHRS setup sign request.height request.round request.step
      (request.signBytes setup) checkFn = out) :
    Outcome setup m sign request (out.1, out.2.mapError (Stop.map wrap)) := by
  unfold Machine.signBytesHRS at hout
  cases hcheck : (m.pv.checkHRS setup request.height request.round request.step :
      Fallible (HRSError SignerError) Bool) with
  | error stop =>
    have hsigns : m.signs setup sign request = false := by rw [Machine.signs, hknown, hcheck]; rfl
    rw [hcheck] at hout
    cases hout
    exact .refused _ hsigns
  | ok same =>
    rw [hcheck] at hout
    cases same with
    | true =>
      have hsigns : m.signs setup sign request = false := by rw [Machine.signs, hknown, hcheck]; rfl
      have hhrs := ((checkHRS_eq_ok hcheck).resolve_left (by simp)).2
      dsimp only at hout
      by_cases hsame : some (request.signBytes setup) = m.pv.lastSignBytes
      · rw [if_pos hsame] at hout
        cases hout
        exact .repeated hhrs (hsame ▸ request.matches_signBytes) hsigns
      · rw [if_neg hsame] at hout
        cases hdiffer : checkFn m.pv.lastSignBytes (request.signBytes setup) with
        | error stop =>
          rw [hdiffer] at hout
          cases hout
          exact .refused _ hsigns
        | ok only =>
          rw [hdiffer] at hout
          cases only <;> cases hout
          · exact .refused _ hsigns
          · exact .repeated hhrs (hcheckFn hdiffer) hsigns
    | false =>
      have hsigns : m.signs setup sign request = (sign (request.signBytes setup)).isOk := by
        rw [Machine.signs, hknown, hcheck]
        rfl
      have hhrs := ((checkHRS_eq_ok hcheck).resolve_right (by simp)).2
      dsimp only at hout
      cases hsign : sign (request.signBytes setup) with
      | error cause =>
        rw [hsign] at hout hsigns
        cases hout
        exact .refused _ hsigns
      | ok signature =>
        rw [hsign] at hout hsigns
        unfold Machine.saveSigned at hout
        dsimp only at hout
        cases hsave : (m.pv.signed request.height request.round request.step
            (request.signBytes setup) signature).save setup with
        | ok file =>
          rw [hsave] at hout
          cases hout
          exact .produced signature file hhrs hsign hsave hsigns
        | error panic =>
          rw [hsave] at hout
          cases hout
          have hpath := save_eq_error hsave
          exact .unsaved signature _ hhrs hsign hpath hsigns

theorem outcome_sign (now : ℤ) (request : Request Signature Address) :
    Outcome setup m sign request (m.sign setup sign now request) := by
  cases request with
  | signProposal chainID proposal =>
    exact outcome_signBytesHRS rfl covers_of_check rfl
  | signVote chainID vote =>
    unfold Machine.sign Machine.signVote
    dsimp only
    cases hstep : voteToStep vote with
    | error panic =>
      refine .refused _ ?_
      rw [Machine.signs, Request.known, hstep]
      rfl
    | ok step =>
      have hknown : (Request.signVote chainID vote).known = true := by
        rw [Request.known, hstep]
        rfl
      have hrequest : step = (Request.signVote chainID vote).step := by
        unfold Request.step
        dsimp only
        rw [hstep]
        rfl
      rw [hrequest]
      exact outcome_signBytesHRS hknown covers_of_check rfl

end Calls

/-! ## Whole runs -/

/-- The height, round and step are the key of a signature. Its value is the signature and the text
that was signed. -/
def labels : Labels (Returned Signature Address Text) (ℤ ×ₗ ℤ ×ₗ ℤ) (Signature × Option Text) where
  key entry := entry.request.hrs
  value entry := (entry.signature, entry.signed)

/-- The file, if there is one, has what was signed last. -/
def Machine.Stored (m : Machine PrivKey PubKey Signature Address Text) : Prop :=
  ∀ file ∈ m.file, m.pv.filePath ≠ "" ∧ file.toLastSigned = m.pv.toLastSigned

structure Safe (setup : Setup PrivKey PubKey Signature Address Text)
    (w : World PrivKey PubKey Signature Address Text) : Prop where
  stored : w.machine.Stored
  backed : Guarded labels w.machine.pv.hrs (w.machine.pv.lastSignature, w.machine.pv.lastSignBytes)
    w.returned w.produced
  matching : ∀ entry ∈ w.returned, entry.request.Matches setup entry.signed

section Runs

variable {setup : Setup PrivKey PubKey Signature Address Text}
  {w next : World PrivKey PubKey Signature Address Text}

theorem Safe.reload (hsafe : Safe setup w) (hreload : w.reload setup = .ok next) :
    Safe setup next := by
  unfold World.reload at hreload
  cases hfile : w.machine.file with
  | none =>
    rw [hfile] at hreload
    cases hreload
  | some file =>
    rw [hfile] at hreload
    cases hreload
    obtain ⟨hpath, hlast⟩ := hsafe.stored file hfile
    refine ⟨?_, ?_, hsafe.matching⟩
    · intro found hfound
      cases hfound
      exact ⟨hpath, rfl⟩
    · have hbacked := hsafe.backed
      unfold LastSigned.hrs at hbacked
      rw [← hlast] at hbacked
      exact hbacked

theorem Safe.signing (hsafe : Safe setup w) {request : Request Signature Address}
    {sign : Text → Except SignerError Signature}
    {out : Machine PrivKey PubKey Signature Address Text ×
      Fallible (SignError SignerError) Signature}
    (houtcome : Outcome setup w.machine sign request out) :
    Safe setup (w.signing setup sign request out.1) := by
  -- a later request moves the register, whether its signature is returned or not
  have hadvance : ∀ signature, w.machine.pv.hrs < request.hrs →
      w.machine.signs setup sign request = true →
      Guarded labels request.hrs (signature, some (request.signBytes setup)) w.returned
        (w.signing setup sign request out.1).produced := by
    intro signature hhrs hsigns
    unfold World.signing
    rw [if_pos hsigns]
    exact hsafe.backed.advance hhrs _
  have hsame : w.machine.signs setup sign request = false →
      Safe setup (w.signing setup sign request w.machine) := by
    intro hsigns
    unfold World.signing
    rw [hsigns]
    exact hsafe
  cases houtcome with
  | refused stop hsigns => exact hsame hsigns
  | repeated hhrs hmatches hsigns => exact hsame hsigns
  | produced signature file hhrs hsign hsave hsigns =>
    refine ⟨?_, hadvance signature hhrs hsigns, hsafe.matching⟩
    intro found hfound
    cases hfound
    exact save_eq_ok hsave
  | unsaved signature stop hhrs hsign hpath hsigns =>
    refine ⟨?_, hadvance signature hhrs hsigns, hsafe.matching⟩
    -- without a path there was never a file
    intro found hfound
    exact absurd hpath (hsafe.stored found hfound).1

theorem Outcome.returned {m after : Machine PrivKey PubKey Signature Address Text}
    {request : Request Signature Address} {sign : Text → Except SignerError Signature}
    {signature : Signature}
    (houtcome : Outcome setup m sign request
      (after, (.ok signature : Fallible (SignError SignerError) Signature))) :
    request.hrs = after.pv.hrs ∧ signature = after.pv.lastSignature ∧
      request.Matches setup after.pv.lastSignBytes := by
  cases houtcome with
  | repeated hhrs hmatches => exact ⟨hhrs.symm, rfl, hmatches⟩
  | produced signature file hhrs hsign hsave => exact ⟨rfl, rfl, request.matches_signBytes⟩

variable [DecidableEq Text]

theorem Safe.call (hsafe : Safe setup w) {request : Request Signature Address}
    {sign : Text → Except SignerError Signature} {now : ℤ}
    (hstep : w.step setup (.call request sign now) = .ok next) : Safe setup next := by
  have houtcome : Outcome setup w.machine sign request (w.machine.sign setup sign now request) :=
    outcome_sign now request
  dsimp only [World.step] at hstep
  generalize w.machine.sign setup sign now request = out at hstep houtcome
  obtain ⟨machine, result⟩ := out
  have hsigning := hsafe.signing houtcome
  cases result with
  | error stop =>
    cases hstep
    exact hsigning
  | ok signature =>
    cases hstep
    obtain ⟨hhrs, hsignature, hmatches⟩ := houtcome.returned
    refine ⟨hsigning.stored, ?_, ?_⟩
    · apply hsigning.backed.concat
      · exact hhrs
      · rw [hsignature]
        rfl
    · intro entry hmem
      cases List.mem_append.mp hmem with
      | inl hold => exact hsafe.matching entry hold
      | inr hlast =>
        rw [List.mem_singleton.mp hlast]
        exact hmatches

theorem Safe.step (hsafe : Safe setup w) {event : Event Signature Address Text SignerError}
    (hstep : w.step setup event = .ok next) : Safe setup next := by
  cases event with
  | call request sign now => exact hsafe.call hstep
  | crash => exact hsafe.reload hstep
  | crashInCall request sign now written =>
    dsimp only [World.step] at hstep
    cases written with
    | false => exact hsafe.reload hstep
    | true => exact (hsafe.signing (outcome_sign now request)).reload hstep

/-- All the signatures that were ever returned for a height, round and step are one signature, for
requests that differ in the timestamp only, and the new ones have growing heights, rounds and
steps. -/
theorem never_double_signs {start final : World PrivKey PubKey Signature Address Text}
    {events : List (Event Signature Address Text SignerError)} (hstored : start.machine.Stored)
    (hreturned : start.returned = []) (hproduced : start.produced = [])
    (hrun : Schedules.run (World.step setup) start events = .ok final) :
    (∀ entry ∈ final.returned, ∀ other ∈ final.returned, entry.request.hrs = other.request.hrs →
      SameButTimestamp setup (entry.request.signBytes setup) (other.request.signBytes setup) ∧
        entry.signature = other.signature ∧ entry.signed = other.signed) ∧
      final.produced.Pairwise (· < ·) := by
  have hstart : Safe setup start := by
    refine ⟨hstored, ?_, ?_⟩
    · rw [hreturned, hproduced]
      exact Registers.guarded_nil
    · rw [hreturned]
      exact List.forall_mem_nil _
  have hfinal : Safe setup final :=
    Schedules.invariant (Safe setup) (fun _ _ _ _ hsafe hstep ↦ hsafe.step hstep) hstart hrun
  refine ⟨?_, hfinal.backed.increasing⟩
  intro entry hentry other hother hhrs
  have hsame := hfinal.backed.unique entry hentry other hother hhrs
  obtain ⟨hsignature, hsigned⟩ := Prod.mk.inj hsame
  refine ⟨?_, hsignature, hsigned⟩
  have hmatches := hfinal.matching other hother
  rw [← hsigned] at hmatches
  exact Request.sameButTimestamp (hfinal.matching entry hentry) hmatches hhrs

end Runs

/-! ## Samples -/

/-- The text is the content itself. -/
abbrev SampleText := (String × CanonicalVote) ⊕ (String × CanonicalProposal)

/-- Numbers for keys, and zero for none. -/
def sampleSetup : Setup ℕ ℕ ℕ ℕ SampleText where
  pubKey key := key
  address key := key
  emptyKey key := key == 0
  emptySignature signature := signature == 0
  noSignature := 0
  votes := ⟨.inl, .inl, Sum.getLeft?, fun _ ↦ rfl, fun _ ↦ rfl⟩
  proposals := ⟨.inr, .inr, Sum.getRight?, fun _ ↦ rfl, fun _ ↦ rfl⟩

/-- A validator with a file, which has signed nothing. -/
def sampleWorld : World ℕ ℕ ℕ ℕ SampleText :=
  let pv := genPrivValidatorFS sampleSetup "priv_validator.json" 5
  ⟨⟨pv, some ⟨pv.toLastSigned, pv.address, pv.pubKey, 5⟩⟩, [], []⟩

/-- A prevote for a block of height 7, at some time. -/
def samplePrevote (hash : UInt8) (timestamp : ℤ) : Request ℕ ℕ :=
  .signVote "chain" ⟨5, 0, 7, 0, timestamp, voteTypePrevote, ⟨[hash], ⟨1, [hash]⟩⟩, 0⟩

/-- A signer that signs the `n`-th text with `n`. -/
def signNth (n : ℕ) : SampleText → Except Unit ℕ := fun _ ↦ .ok n

/-- A crash before a prevote was written, then two prevotes for another block. -/
def sampleEvents : List (Event ℕ ℕ SampleText Unit) :=
  [.crashInCall (samplePrevote 1 100) (signNth 1) 0 false,
    .call (samplePrevote 2 101) (signNth 2) 0, .crash,
    .call (samplePrevote 2 102) (signNth 3) 0, .call (samplePrevote 1 103) (signNth 4) 0]

theorem never_double_signs_prevotes :
    ∃ final, Schedules.run (World.step sampleSetup) sampleWorld sampleEvents = .ok final ∧
      final.returned.map Returned.signature = [2, 2] ∧
      (∀ entry ∈ final.returned, ∀ other ∈ final.returned, entry.request.hrs = other.request.hrs →
        SameButTimestamp sampleSetup (entry.request.signBytes sampleSetup)
          (other.request.signBytes sampleSetup) ∧
          entry.signature = other.signature ∧ entry.signed = other.signed) ∧
        final.produced.Pairwise (· < ·) := by
  have hstored : sampleWorld.machine.Stored := by
    intro file hfile
    cases hfile
    exact ⟨by decide, rfl⟩
  have hrun : Schedules.run (World.step sampleSetup) sampleWorld sampleEvents = .ok _ := rfl
  exact ⟨_, hrun, rfl, never_double_signs hstored rfl rfl hrun⟩

end LkChain.Tendermint.PrivValidator
