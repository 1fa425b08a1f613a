import LkChain.Tendermint.DoubleSigning

/-!
# Signatures that verify

`SignVote` and `SignProposal` put a signature into the message that they are given. The signature
that a validator keeps, in memory and in its file, is one for the sign bytes that it keeps next to
it. A message for the height, round and step of the last one gets that signature as well, when
nothing but the timestamp has changed; but the message keeps its own timestamp, which the signature
does not cover.
-/

namespace LkChain.Tendermint.PrivValidator

open Foundation Foundation.Stops Tendermint.Types

variable {PrivKey PubKey Signature Address Text SignerError : Type}

/-- The message that `SignVote` or `SignProposal` gives back. -/
def Request.withSignature (signature : Signature) :
    Request Signature Address → Request Signature Address
  | .signVote chainID vote => .signVote chainID { vote with signature := signature }
  | .signProposal chainID proposal =>
    .signProposal chainID { proposal with signature := signature }

theorem Request.signBytes_withSignature (setup : Setup PrivKey PubKey Signature Address Text)
    (signature : Signature) (request : Request Signature Address) :
    (request.withSignature signature).signBytes setup = request.signBytes setup := by
  cases request <;> rfl

section Specification

variable (setup : Setup PrivKey PubKey Signature Address Text)
  (verify : PubKey → Text → Signature → Bool)

/-- A signer whose signatures verify under a public key. -/
def SignsUnder (key : PubKey) (sign : Text → Except SignerError Signature) : Prop :=
  ∀ text signature, sign text = .ok signature → verify key text signature = true

/-- The signer of an event. -/
def Event.SignsUnder (key : PubKey) : Event Signature Address Text SignerError → Prop
  | .call _ sign _ => PrivValidator.SignsUnder verify key sign
  | .crashInCall _ sign _ _ => PrivValidator.SignsUnder verify key sign
  | .crash => True

/-- A message that repeats the height, round and step of the last one with other sign bytes. -/
def Machine.Restamps (m : Machine PrivKey PubKey Signature Address Text)
    (request : Request Signature Address) : Prop :=
  m.pv.hrs = request.hrs ∧ m.pv.lastSignBytes ≠ some (request.signBytes setup)

/-- The last signature verifies for the last sign bytes. -/
def LastSigned.Genuine (key : PubKey) (last : LastSigned Signature Text) : Prop :=
  ∀ text ∈ last.lastSignBytes, verify key text last.lastSignature = true

/-- A validator with one key, in memory and in its file, whose last signature verifies. -/
structure Machine.Genuine (privKey : PrivKey)
    (m : Machine PrivKey PubKey Signature Address Text) : Prop where
  pub : m.pv.pubKey = setup.pubKey privKey
  key : m.pv.privKey = privKey
  oldKey : m.pv.oldPrivKey = privKey
  last : m.pv.toLastSigned.Genuine verify (setup.pubKey privKey)
  file : ∀ file ∈ m.file, file.privKey = privKey ∧
    file.toLastSigned.Genuine verify (setup.pubKey privKey)

end Specification

section Runs

variable {setup : Setup PrivKey PubKey Signature Address Text}
  {verify : PubKey → Text → Signature → Bool} {privKey : PrivKey}
  {m : Machine PrivKey PubKey Signature Address Text}

theorem privKey_of_save {pv : PrivValidatorFS PrivKey PubKey Signature Address Text}
    {file : File PrivKey PubKey Signature Address Text} (hsave : pv.save setup = .ok file)
    (hkey : pv.privKey = privKey) (hold : pv.oldPrivKey = privKey) : file.privKey = privKey := by
  unfold PrivValidatorFS.save at hsave
  rw [Results.ite_error_eq_ok_iff] at hsave
  cases hsave.2
  dsimp only
  rw [hkey, hold, ite_self]

theorem genuine_gen {filePath : String}
    (hgen : loadOrGenPrivValidatorFS setup filePath none privKey = .ok m) :
    m.Genuine setup verify privKey := by
  obtain ⟨saved, hsave, hm⟩ := Results.bind_eq_ok_iff.mp hgen
  cases hm
  have hlast : LastSigned.Genuine verify (setup.pubKey privKey)
      (⟨0, 0, stepNone, setup.noSignature, none⟩ : LastSigned Signature Text) := by
    intro text htext
    cases htext
  refine ⟨rfl, rfl, rfl, hlast, ?_⟩
  intro file hfile
  cases hfile
  refine ⟨privKey_of_save hsave rfl rfl, ?_⟩
  rw [(save_eq_ok hsave).2]
  exact hlast

/-- A signature that is made verifies for the text of its request. -/
theorem Machine.Genuine.outcome {sign : Text → Except SignerError Signature}
    {request : Request Signature Address}
    {out : Machine PrivKey PubKey Signature Address Text ×
      Fallible (SignError SignerError) Signature}
    (hgenuine : m.Genuine setup verify privKey)
    (hsign : SignsUnder verify (setup.pubKey privKey) sign)
    (houtcome : Outcome setup m sign request out) : out.1.Genuine setup verify privKey := by
  have hlast : ∀ signature, sign (request.signBytes setup) = .ok signature →
      (m.pv.signed request.height request.round request.step (request.signBytes setup)
        signature).toLastSigned.Genuine verify (setup.pubKey privKey) := by
    intro signature hmade text htext
    cases htext
    exact hsign _ _ hmade
  cases houtcome with
  | refused stop => exact hgenuine
  | repeated hhrs hmatches => exact hgenuine
  | produced signature file hhrs hmade hsave =>
    refine ⟨hgenuine.pub, hgenuine.key, hgenuine.oldKey, hlast signature hmade, ?_⟩
    intro found hfound
    cases hfound
    refine ⟨privKey_of_save hsave hgenuine.key hgenuine.oldKey, ?_⟩
    rw [(save_eq_ok hsave).2]
    exact hlast signature hmade
  | unsaved signature stop hhrs hmade hpath =>
    exact ⟨hgenuine.pub, hgenuine.key, hgenuine.oldKey, hlast signature hmade,
      hgenuine.file⟩

theorem genuine_reload {w next : World PrivKey PubKey Signature Address Text}
    (hgenuine : w.machine.Genuine setup verify privKey) (hreload : w.reload setup = .ok next) :
    next.machine.Genuine setup verify privKey := by
  unfold World.reload at hreload
  cases hfile : w.machine.file with
  | none =>
    rw [hfile] at hreload
    cases hreload
  | some file =>
    rw [hfile] at hreload
    cases hreload
    obtain ⟨hkey, hlast⟩ := hgenuine.file file hfile
    refine ⟨congrArg setup.pubKey hkey, hkey, hkey, hlast, ?_⟩
    intro found hfound
    cases hfound
    exact ⟨hkey, hlast⟩

variable [DecidableEq Text]

theorem genuine_step {w next : World PrivKey PubKey Signature Address Text}
    {event : Event Signature Address Text SignerError}
    (hgenuine : w.machine.Genuine setup verify privKey)
    (hsigns : event.SignsUnder verify (setup.pubKey privKey))
    (hstep : w.step setup event = .ok next) : next.machine.Genuine setup verify privKey := by
  cases event with
  | call request sign now =>
    have hsigned := hgenuine.outcome hsigns (outcome_sign now request)
    dsimp only [World.step] at hstep
    split at hstep <;> cases hstep <;> exact hsigned
  | crash => exact genuine_reload hgenuine hstep
  | crashInCall request sign now written =>
    have hsigned := hgenuine.outcome hsigns (outcome_sign now request)
    dsimp only [World.step] at hstep
    cases written with
    | false => exact genuine_reload hgenuine hstep
    | true => exact genuine_reload (w := w.signing setup sign request _) hsigned hstep

theorem genuine_run {start w : World PrivKey PubKey Signature Address Text}
    {events : List (Event Signature Address Text SignerError)}
    (hstart : start.machine.Genuine setup verify privKey)
    (hsigns : ∀ event ∈ events, event.SignsUnder verify (setup.pubKey privKey))
    (hrun : Schedules.run (World.step setup) start events = .ok w) :
    w.machine.Genuine setup verify privKey := by
  apply Schedules.invariant (fun w ↦ w.machine.Genuine setup verify privKey) _ hstart hrun
  intro before event after hmem hgenuine hstep
  exact genuine_step hgenuine (hsigns event hmem) hstep

/-- In every state of a validator that signs and is loaded again, the signature of a message
verifies for it, unless the message repeats the last height, round and step with another timestamp.
Then it does not verify, as far as a signature is for one text only. -/
theorem signature_verifies_iff_not_restamps {filePath : String}
    {events : List (Event Signature Address Text SignerError)}
    {w : World PrivKey PubKey Signature Address Text}
    {sign : Text → Except SignerError Signature} {now : ℤ} {request : Request Signature Address}
    {signature : Signature}
    (hgen : loadOrGenPrivValidatorFS setup filePath none privKey = .ok m)
    (hsigns : ∀ event ∈ events, event.SignsUnder verify (setup.pubKey privKey))
    (hrun : Schedules.run (World.step setup) ⟨m, [], []⟩ events = .ok w)
    (hsign : SignsUnder verify (setup.pubKey privKey) sign)
    (hreturned : (w.machine.sign setup sign now request).2 = .ok signature) :
    (¬ w.machine.Restamps setup request → verify w.machine.pv.pubKey
      ((request.withSignature signature).signBytes setup) signature = true) ∧
    ((∀ text other, verify w.machine.pv.pubKey text signature = true →
        verify w.machine.pv.pubKey other signature = true → text = other) →
      w.machine.Restamps setup request → verify w.machine.pv.pubKey
        ((request.withSignature signature).signBytes setup) signature = false) := by
  have hstart : (World.mk m [] []).machine.Genuine setup verify privKey := genuine_gen hgen
  have hgenuine := genuine_run hstart hsigns hrun
  have houtcome : Outcome setup w.machine sign request (w.machine.sign setup sign now request) :=
    outcome_sign now request
  rw [request.signBytes_withSignature, hgenuine.pub]
  generalize w.machine.sign setup sign now request = out at hreturned houtcome
  cases houtcome with
  | refused stop => cases hreturned
  | unsaved made stop hhrs hmade hpath => cases hreturned
  | produced made file hhrs hmade hsave =>
    cases hreturned
    exact ⟨fun _ ↦ hsign _ _ hmade, fun _ hrestamps ↦ absurd hrestamps.1 hhrs.ne⟩
  | repeated hhrs hmatches =>
    cases hreturned
    -- there are last sign bytes, since they can be read
    obtain ⟨text, htext⟩ : ∃ text, w.machine.pv.lastSignBytes = some text := by
      cases htext : w.machine.pv.lastSignBytes with
      | some text => exact ⟨text, rfl⟩
      | none =>
        rw [htext] at hmatches
        cases request <;> obtain ⟨content, hread, -⟩ := hmatches <;> cases hread
    have hverifies := hgenuine.last text htext
    constructor
    · intro hsame
      have hbytes : w.machine.pv.lastSignBytes = some (request.signBytes setup) := by
        by_contra hother
        exact hsame ⟨hhrs, hother⟩
      exact hgenuine.last _ hbytes
    · intro hunique hrestamps
      apply Bool.eq_false_of_not_eq_true
      intro hother
      apply hrestamps.2
      rw [htext, hunique _ _ hverifies hother]

end Runs

/-! ## Samples -/

/-- A signature is the text that it is for, and `none` stands for no signature. -/
def textSetup : Setup ℕ ℕ (Option SampleText) ℕ SampleText where
  pubKey key := key
  address key := key
  emptyKey key := key == 0
  emptySignature signature := signature.isNone
  noSignature := none
  votes := sampleSetup.votes
  proposals := sampleSetup.proposals

def textVerify (_ : ℕ) (text : SampleText) (signature : Option SampleText) : Bool :=
  signature = some text

def textSigner (text : SampleText) : Except Unit (Option SampleText) := .ok (some text)

/-- A prevote for a block of height 7, at some time. -/
def stampedPrevote (timestamp : ℤ) : Request (Option SampleText) ℕ :=
  .signVote "chain" ⟨5, 0, 7, 0, timestamp, voteTypePrevote, ⟨[1], ⟨1, [1]⟩⟩, none⟩

/-- A validator that has signed a prevote at time 100. -/
def signedPrevote : World ℕ ℕ (Option SampleText) ℕ SampleText :=
  let pv := (genPrivValidatorFS textSetup "priv_validator.json" 5).signed 7 0 stepPrevote
    ((stampedPrevote 100).signBytes textSetup) (some ((stampedPrevote 100).signBytes textSetup))
  ⟨⟨pv, some ⟨pv.toLastSigned, pv.address, pv.pubKey, 5⟩⟩,
    [⟨stampedPrevote 100, some ((stampedPrevote 100).signBytes textSetup),
      some ((stampedPrevote 100).signBytes textSetup)⟩], [hrs 7 0 stepPrevote]⟩

theorem signsUnder_textSigner : SignsUnder textVerify 5 textSigner := by
  intro text signature hmade
  cases hmade
  exact decide_eq_true rfl

theorem signature_verifies_prevote :
    textVerify signedPrevote.machine.pv.pubKey ((stampedPrevote 100).signBytes textSetup)
      (some ((stampedPrevote 100).signBytes textSetup)) = true := by
  have hsigns : ∀ event ∈ [Event.call (stampedPrevote 100) textSigner 0],
      event.SignsUnder textVerify (textSetup.pubKey 5) := by
    intro event hevent
    rw [List.mem_singleton.mp hevent]
    exact signsUnder_textSigner
  have hrun : Schedules.run (World.step textSetup)
      ⟨⟨genPrivValidatorFS textSetup "priv_validator.json" 5,
        some ⟨⟨0, 0, stepNone, none, none⟩, 5, 5, 5⟩⟩, [], []⟩
      [.call (stampedPrevote 100) textSigner 0] = .ok signedPrevote := rfl
  have hreturned : (signedPrevote.machine.sign textSetup textSigner 0 (stampedPrevote 100)).2 =
      .ok (some ((stampedPrevote 100).signBytes textSetup)) := rfl
  have hgen : loadOrGenPrivValidatorFS textSetup "priv_validator.json" none 5 = .ok _ := rfl
  apply (signature_verifies_iff_not_restamps hgen hsigns hrun signsUnder_textSigner hreturned).1
  exact fun hrestamps ↦ hrestamps.2 rfl

/-- The same prevote at time 101 gets the signature for time 100. -/
theorem restamped_prevote_not_verified :
    (signedPrevote.machine.sign textSetup textSigner 0 (stampedPrevote 101)).2 =
        .ok (some ((stampedPrevote 100).signBytes textSetup)) ∧
      textVerify signedPrevote.machine.pv.pubKey
        (((stampedPrevote 101).withSignature
          (some ((stampedPrevote 100).signBytes textSetup))).signBytes textSetup)
        (some ((stampedPrevote 100).signBytes textSetup)) = false :=
  ⟨rfl, by decide⟩

end LkChain.Tendermint.PrivValidator
