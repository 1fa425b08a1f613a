import LkChain.Tendermint.Types
import Mathlib.Data.Prod.Lex

/-!
# The private validator

`PrivValidatorFS` signs votes and proposals, and keeps what it signed last, in memory and in a file,
so that it never signs two different things for one height, round and step. A request for the same
height, round and step again gets the last signature, if nothing but the timestamp has changed.

The JSON texts are of any type: what is used of them is that reading inverts writing. What the
signer does is up to each call, and so is the time. Writing the file is atomic: a crash happens
before it or after it.
-/

namespace LkChain.Tendermint.PrivValidator

open Foundation Foundation.Stops Tendermint.Types

def stepNone : ℤ := 0

def stepPropose : ℤ := 1

def stepPrevote : ℤ := 2

def stepPrecommit : ℤ := 3

def voteTypePrevote : UInt8 := 0x01

structure Proposal (Signature : Type) where
  height : ℤ
  round : ℤ
  timestamp : ℤ
  blockPartsHeader : PartSetHeader
  polRound : ℤ
  polBlockID : BlockID
  signature : Signature
deriving DecidableEq

/-- `CanonicalJSONProposal`: what a signature covers. -/
structure CanonicalProposal where
  blockPartsHeader : PartSetHeader
  height : ℤ
  polBlockID : BlockID
  polRound : ℤ
  round : ℤ
  timestamp : ℤ
deriving DecidableEq

/-- `CanonicalProposal`. -/
def Proposal.canonical {Signature : Type} (proposal : Proposal Signature) : CanonicalProposal :=
  ⟨proposal.blockPartsHeader, proposal.height, proposal.polBlockID, proposal.polRound,
    proposal.round, proposal.timestamp⟩

/-! ## Canonical texts -/

/-- The timestamp of some content. -/
structure Stamp (Content : Type) where
  read : Content → ℤ
  write : ℤ → Content → Content
  write_read : ∀ content, write (read content) content = content
  write_write : ∀ time before content, write time (write before content) = write time content

def voteStamp : Stamp CanonicalVote where
  read vote := vote.timestamp
  write time vote := { vote with timestamp := time }
  write_read _ := rfl
  write_write _ _ _ := rfl

def proposalStamp : Stamp CanonicalProposal where
  read proposal := proposal.timestamp
  write time proposal := { proposal with timestamp := time }
  write_read _ := rfl
  write_write _ _ _ := rfl

/-- JSON of some content with its chain. The sign bytes and `json.Marshal` may differ in their
format. -/
structure Json (Content Text : Type) where
  signBytes : String × Content → Text
  marshal : String × Content → Text
  unmarshal : Text → Option (String × Content)
  unmarshal_signBytes : ∀ once, unmarshal (signBytes once) = some once
  unmarshal_marshal : ∀ once, unmarshal (marshal once) = some once

variable {PrivKey PubKey Signature Address Text Content Error SignerError : Type}

section Check

variable [DecidableEq Text]

/-- Whether the texts are the same when both have the current time. -/
def checkOnlyDifferByTimestamp (stamp : Stamp Content) (json : Json Content Text) (kind : String)
    (now : ℤ) (lastSignBytes : Option Text) (newSignBytes : Text) : Fallible Error Bool :=
  match lastSignBytes.bind json.unmarshal with
  | none => .error (.panic (.sanity ("LastSignBytes cannot be unmarshalled into " ++ kind)))
  | some (lastChainID, last) =>
    match json.unmarshal newSignBytes with
    | none => .error (.panic (.sanity ("signBytes cannot be unmarshalled into " ++ kind)))
    | some (newChainID, new) =>
      .ok (decide (json.marshal (newChainID, stamp.write now new) =
        json.marshal (lastChainID, stamp.write now last)))

def checkVotesOnlyDifferByTimestamp (json : Json CanonicalVote Text) :
    ℤ → Option Text → Text → Fallible Error Bool :=
  checkOnlyDifferByTimestamp voteStamp json "vote"

def checkProposalsOnlyDifferByTimestamp (json : Json CanonicalProposal Text) :
    ℤ → Option Text → Text → Fallible Error Bool :=
  checkOnlyDifferByTimestamp proposalStamp json "proposal"

end Check

/-! ## The validator and its file -/

/-- What the validator has signed last. -/
structure LastSigned (Signature Text : Type) where
  lastHeight : ℤ
  lastRound : ℤ
  lastStep : ℤ
  lastSignature : Signature
  lastSignBytes : Option Text

/-- `PrivValidatorFS`, without its signer. -/
structure PrivValidatorFS (PrivKey PubKey Signature Address Text : Type)
    extends LastSigned Signature Text where
  address : Address
  pubKey : PubKey
  privKey : PrivKey
  filePath : String
  oldPrivKey : PrivKey

/-- The fields that are in the file. -/
structure File (PrivKey PubKey Signature Address Text : Type)
    extends LastSigned Signature Text where
  address : Address
  pubKey : PubKey
  privKey : PrivKey

/-- Keys, signatures and encodings. -/
structure Setup (PrivKey PubKey Signature Address Text : Type) where
  pubKey : PrivKey → PubKey
  address : PubKey → Address
  emptyKey : PrivKey → Bool
  emptySignature : Signature → Bool
  noSignature : Signature
  votes : Json CanonicalVote Text
  proposals : Json CanonicalProposal Text

/-- A validator and the file at its path, if there is one. -/
structure Machine (PrivKey PubKey Signature Address Text : Type) where
  pv : PrivValidatorFS PrivKey PubKey Signature Address Text
  file : Option (File PrivKey PubKey Signature Address Text)

/-- The errors of `signBytesHRS`. -/
inductive HRSError (SignerError : Type) where
  | heightRegression
  | roundRegression
  | stepRegression
  | noLastSignature
  | conflictingData
  | signer (cause : SignerError)
deriving DecidableEq

/-- The errors of `SignVote` and `SignProposal`. -/
inductive SignError (SignerError : Type) where
  | vote (cause : HRSError SignerError)
  | proposal (cause : HRSError SignerError)
deriving DecidableEq

section Program

variable (setup : Setup PrivKey PubKey Signature Address Text)

/-- `save`: what is written to the file. -/
def PrivValidatorFS.save (pv : PrivValidatorFS PrivKey PubKey Signature Address Text) :
    Except Panic (File PrivKey PubKey Signature Address Text) :=
  if pv.filePath = "" then .error (.sanity "Cannot save PrivValidator: filePath not set")
  else .ok
    { pv.toLastSigned with
      address := pv.address
      pubKey := pv.pubKey
      privKey := if setup.emptyKey pv.oldPrivKey then pv.privKey else pv.oldPrivKey }

/-- `LoadPrivValidatorFS`, on a file that was saved. -/
def loadPrivValidatorFS (filePath : String)
    (file : File PrivKey PubKey Signature Address Text) :
    PrivValidatorFS PrivKey PubKey Signature Address Text :=
  { file.toLastSigned with
    address := setup.address (setup.pubKey file.privKey)
    pubKey := setup.pubKey file.privKey
    privKey := file.privKey
    filePath := filePath
    oldPrivKey := file.privKey }

/-- `GenPrivValidatorFS`, with the key that was drawn. -/
def genPrivValidatorFS (filePath : String) (privKey : PrivKey) :
    PrivValidatorFS PrivKey PubKey Signature Address Text :=
  { lastHeight := 0, lastRound := 0, lastStep := stepNone, lastSignature := setup.noSignature
    lastSignBytes := none
    address := setup.address (setup.pubKey privKey)
    pubKey := setup.pubKey privKey
    privKey := privKey
    filePath := filePath
    oldPrivKey := privKey }

def loadOrGenPrivValidatorFS (filePath : String)
    (file : Option (File PrivKey PubKey Signature Address Text)) (privKey : PrivKey) :
    Except Panic (Machine PrivKey PubKey Signature Address Text) :=
  match file with
  | some file => .ok ⟨loadPrivValidatorFS setup filePath file, some file⟩
  | none => do
    let pv := genPrivValidatorFS setup filePath privKey
    let file ← pv.save setup
    return ⟨pv, some file⟩

def voteToStep (vote : Vote Signature Address) : Except Panic ℤ :=
  if vote.type = voteTypePrevote then .ok stepPrevote
  else if vote.type = voteTypePrecommit then .ok stepPrecommit
  else .error (.sanity "Unknown vote type")

/-- `checkHRS`: whether the height, the round and the step are those of the last signature. -/
def LastSigned.checkHRS (last : LastSigned Signature Text) (height round step : ℤ) :
    Fallible (HRSError SignerError) Bool :=
  if height < last.lastHeight then .error (.error .heightRegression)
  else if last.lastHeight = height then
    if round < last.lastRound then .error (.error .roundRegression)
    else if last.lastRound = round then
      if step < last.lastStep then .error (.error .stepRegression)
      else if last.lastStep = step then
        if last.lastSignBytes.isSome then
          if setup.emptySignature last.lastSignature then
            .error (.panic (.sanity "privVal: LastSignature is nil but LastSignBytes is not!"))
          else .ok true
        else .error (.error .noLastSignature)
      else .ok false
    else .ok false
  else .ok false

/-- The fields that `saveSigned` sets before it saves. -/
def PrivValidatorFS.signed (pv : PrivValidatorFS PrivKey PubKey Signature Address Text)
    (height round step : ℤ) (signBytes : Text) (sig : Signature) :
    PrivValidatorFS PrivKey PubKey Signature Address Text :=
  { pv with
    lastHeight := height, lastRound := round, lastStep := step
    lastSignature := sig, lastSignBytes := some signBytes }

def Machine.saveSigned (m : Machine PrivKey PubKey Signature Address Text)
    (height round step : ℤ) (signBytes : Text) (sig : Signature) :
    Machine PrivKey PubKey Signature Address Text × Except Panic Unit :=
  let pv := m.pv.signed height round step signBytes sig
  match pv.save setup with
  | .ok file => (⟨pv, some file⟩, .ok ())
  | .error panic => (⟨pv, m.file⟩, .error panic)

variable [DecidableEq Text]

def Machine.signBytesHRS (m : Machine PrivKey PubKey Signature Address Text)
    (sign : Text → Except SignerError Signature) (height round step : ℤ) (signBytes : Text)
    (checkFn : Option Text → Text → Fallible (HRSError SignerError) Bool) :
    Machine PrivKey PubKey Signature Address Text ×
      Fallible (HRSError SignerError) Signature :=
  match m.pv.checkHRS setup height round step with
  | .error stop => (m, .error stop)
  | .ok true =>
    if some signBytes = m.pv.lastSignBytes then (m, .ok m.pv.lastSignature)
    else
      match checkFn m.pv.lastSignBytes signBytes with
      | .error stop => (m, .error stop)
      | .ok true => (m, .ok m.pv.lastSignature)
      | .ok false => (m, .error (.error .conflictingData))
  | .ok false =>
    match sign signBytes with
    | .error cause => (m, .error (.error (.signer cause)))
    | .ok sig =>
      match m.saveSigned setup height round step signBytes sig with
      | (after, .ok ()) => (after, .ok sig)
      | (after, .error panic) => (after, .error (.panic panic))

/-- `SignVote`, with the signature that the vote gets. -/
def Machine.signVote (m : Machine PrivKey PubKey Signature Address Text)
    (sign : Text → Except SignerError Signature) (now : ℤ) (chainID : String)
    (vote : Vote Signature Address) :
    Machine PrivKey PubKey Signature Address Text ×
      Fallible (SignError SignerError) Signature :=
  match voteToStep vote with
  | .error panic => (m, .error (.panic panic))
  | .ok step =>
    let (after, result) := m.signBytesHRS setup sign vote.height vote.round step
      (setup.votes.signBytes (chainID, vote.canonical))
      (checkVotesOnlyDifferByTimestamp setup.votes now)
    (after, result.mapError (Stop.map .vote))

/-- `SignProposal`, with the signature that the proposal gets. -/
def Machine.signProposal (m : Machine PrivKey PubKey Signature Address Text)
    (sign : Text → Except SignerError Signature) (now : ℤ) (chainID : String)
    (proposal : Proposal Signature) :
    Machine PrivKey PubKey Signature Address Text ×
      Fallible (SignError SignerError) Signature :=
  let (after, result) := m.signBytesHRS setup sign proposal.height proposal.round stepPropose
    (setup.proposals.signBytes (chainID, proposal.canonical))
    (checkProposalsOnlyDifferByTimestamp setup.proposals now)
  (after, result.mapError (Stop.map .proposal))

end Program

/-! ## Runs with crashes -/

/-- Something to sign. -/
inductive Request (Signature Address : Type) where
  | signVote (chainID : String) (vote : Vote Signature Address)
  | signProposal (chainID : String) (proposal : Proposal Signature)

section Requests

variable (setup : Setup PrivKey PubKey Signature Address Text)

def Request.height : Request Signature Address → ℤ
  | .signVote _ vote => vote.height
  | .signProposal _ proposal => proposal.height

def Request.round : Request Signature Address → ℤ
  | .signVote _ vote => vote.round
  | .signProposal _ proposal => proposal.round

/-- The step, for a vote of a known type. -/
def Request.step : Request Signature Address → ℤ
  | .signVote _ vote => (voteToStep vote).toOption.getD stepNone
  | .signProposal _ _ => stepPropose

/-- A height, a round and a step, in lexicographic order. -/
def hrs (height round step : ℤ) : ℤ ×ₗ ℤ ×ₗ ℤ := toLex (height, toLex (round, step))

def Request.hrs (request : Request Signature Address) : ℤ ×ₗ ℤ ×ₗ ℤ :=
  PrivValidator.hrs request.height request.round request.step

def LastSigned.hrs (last : LastSigned Signature Text) : ℤ ×ₗ ℤ ×ₗ ℤ :=
  PrivValidator.hrs last.lastHeight last.lastRound last.lastStep

/-- The sign bytes of a request. -/
def Request.signBytes : Request Signature Address → Text
  | .signVote chainID vote => setup.votes.signBytes (chainID, vote.canonical)
  | .signProposal chainID proposal => setup.proposals.signBytes (chainID, proposal.canonical)

/-- The type of a vote is a known one. -/
def Request.known : Request Signature Address → Bool
  | .signVote _ vote => (voteToStep vote).isOk
  | .signProposal _ _ => true

/-- A call comes to the signer, and gets a new signature from it. -/
def Machine.signs (m : Machine PrivKey PubKey Signature Address Text)
    (sign : Text → Except SignerError Signature) (request : Request Signature Address) : Bool :=
  request.known &&
    match (m.pv.checkHRS setup request.height request.round request.step :
      Fallible (HRSError SignerError) Bool) with
    | .ok false => (sign (request.signBytes setup)).isOk
    | _ => false

variable [DecidableEq Text]

/-- A call of `SignVote` or `SignProposal`. -/
def Machine.sign (m : Machine PrivKey PubKey Signature Address Text)
    (sign : Text → Except SignerError Signature) (now : ℤ) :
    Request Signature Address → Machine PrivKey PubKey Signature Address Text ×
      Fallible (SignError SignerError) Signature
  | .signVote chainID vote => m.signVote setup sign now chainID vote
  | .signProposal chainID proposal => m.signProposal setup sign now chainID proposal

end Requests

/-- A signature that was returned, with the text that it was made for. -/
structure Returned (Signature Address Text : Type) where
  request : Request Signature Address
  signature : Signature
  signed : Option Text

/-- The validator and its file, all the signatures that have been returned, and the height, round
and step of all that the signer has made. One that was lost in a crash before it was saved does not
count. -/
structure World (PrivKey PubKey Signature Address Text : Type) where
  machine : Machine PrivKey PubKey Signature Address Text
  returned : List (Returned Signature Address Text)
  produced : List (ℤ ×ₗ ℤ ×ₗ ℤ)

/-- A call that returns, a crash in the course of a call, before or after the file was written, or a
crash between two calls. -/
inductive Event (Signature Address Text SignerError : Type) where
  | call (request : Request Signature Address) (sign : Text → Except SignerError Signature)
    (now : ℤ)
  | crashInCall (request : Request Signature Address)
    (sign : Text → Except SignerError Signature) (now : ℤ) (written : Bool)
  | crash

/-- Why the process cannot be started again. -/
inductive Exit where
  | noFile
deriving DecidableEq

section Runs

variable (setup : Setup PrivKey PubKey Signature Address Text)

/-- The process is started again, from its file. -/
def World.reload (w : World PrivKey PubKey Signature Address Text) :
    Except Exit (World PrivKey PubKey Signature Address Text) :=
  match w.machine.file with
  | none => .error .noFile
  | some file =>
    .ok { w with machine := ⟨loadPrivValidatorFS setup w.machine.pv.filePath file, some file⟩ }

/-- After the machine has done its part of a call, and before the call returns. -/
def World.signing (w : World PrivKey PubKey Signature Address Text)
    (sign : Text → Except SignerError Signature) (request : Request Signature Address)
    (machine : Machine PrivKey PubKey Signature Address Text) :
    World PrivKey PubKey Signature Address Text :=
  { machine := machine
    returned := w.returned
    produced := if w.machine.signs setup sign request then w.produced ++ [request.hrs]
      else w.produced }

variable [DecidableEq Text]

/-- One event. A call that panics leaves the process as it is, for whoever recovers from it. -/
def World.step (w : World PrivKey PubKey Signature Address Text) :
    Event Signature Address Text SignerError →
      Except Exit (World PrivKey PubKey Signature Address Text)
  | .call request sign now =>
    let (machine, result) := w.machine.sign setup sign now request
    match result with
    | .ok signature => .ok { w.signing setup sign request machine with
        returned := w.returned ++ [⟨request, signature, machine.pv.lastSignBytes⟩] }
    | .error _ => .ok (w.signing setup sign request machine)
  | .crashInCall request sign now written =>
    if written then
      (w.signing setup sign request (w.machine.sign setup sign now request).1).reload setup
    else w.reload setup
  | .crash => w.reload setup

end Runs

end LkChain.Tendermint.PrivValidator
