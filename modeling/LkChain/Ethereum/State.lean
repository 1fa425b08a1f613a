import LkChain.Foundation.Ledger
import Mathlib.Data.Fintype.Basic
import Mathlib.Data.FinEnum

/-!
# The Ethereum world state

`StateDB` is the cache of live account objects that transactions read and write
(`core/state/statedb.go`, `core/state/state_object.go`). An object carries the consensus data of
its account and the self-destruct mark; the dirty set records which objects `Finalise` and
`CommitTo` have to look at. An object reports to it once, through `onDirty`, which it then drops.
`Snapshot` and `RevertToSnapshot` are state passing: the snapshot is the earlier value. The dirty
set is what they do not restore: only the journal entry of a touch takes an account out of it again
(`core/state/journal.go`), and that does not give the object its `onDirty` back.

The code hash of an account is compared only with the hash of the empty code, and both tests are
written here as tests on the code itself.
-/

open LkChain.Foundation

namespace LkChain.Ethereum.State

abbrev Address := BitVec 160
abbrev Hash := BitVec 256
abbrev Bytes := List UInt8

/-- Consensus data of one account, as stored in the account trie. -/
structure Account where
  nonce : ℕ
  balance : ℤ
  code : Bytes
  storage : Hash → Hash

/-- A live object: the account data and the mark set by `Suicide`. -/
structure StateObject extends Account where
  suicided : Bool

/-- The persisted account trie. -/
abbrev Trie := Address → Option Account

structure Log where
  address : Address
  topics : List Hash
  data : Bytes
deriving DecidableEq

/-- Where an account stands with the dirty set. -/
inductive Mark where
  /-- Not dirty; the object has its `onDirty`. -/
  | clean
  /-- Dirty by a change. -/
  | changed
  /-- Dirty by a touch. -/
  | touched
  /-- The touch was undone: not dirty, and the `onDirty` is gone. -/
  | silent
  /-- Dirty by a new object in the place of an earlier one. -/
  | replaced (earlier : Mark)
  /-- Dirty, but the earlier object is back with its `onDirty`. -/
  | reinstated
  /-- Deleted by `Finalise` as empty, and still dirty. -/
  | emptied
deriving DecidableEq

namespace Mark

/-- The account is in `stateObjectsDirty`. -/
def dirty : Mark → Bool
  | .clean | .silent => false
  | _ => true

/-- A setter of the object reports if it can. -/
def change : Mark → Mark
  | .clean | .reinstated => .changed
  | mark => mark

/-- `stateObject.touch`. -/
def touch : Mark → Mark
  | .clean | .reinstated => .touched
  | mark => mark

/-- What undoing the journal makes of a mark that was `before` at the snapshot. -/
def undo (before : Mark) : Mark → Mark
  | .touched => if before = .touched then .touched else .silent
  | .replaced earlier =>
    match before, earlier with
    | .replaced _, _ => .replaced earlier
    | _, .clean | _, .reinstated => .reinstated
    | .touched, .touched => .touched
    | _, .touched => .silent
    | _, _ => .changed
  | mark => mark

/-- `CommitTo` empties the dirty set and leaves the objects as they are. -/
def commit : Mark → Mark
  | .clean | .reinstated => .clean
  | _ => .silent

@[simp]
theorem change_change (mark : Mark) : mark.change.change = mark.change := by cases mark <;> rfl

@[simp]
theorem undo_self (mark : Mark) : mark.undo mark = mark := by cases mark <;> rfl

@[simp]
theorem undo_change (mark : Mark) : mark.undo mark.change = mark.change := by cases mark <;> rfl

@[simp]
theorem change_eq_silent_iff {mark : Mark} : mark.change = .silent ↔ mark = .silent := by
  cases mark <;> simp [change]

theorem dirty_change_iff {mark : Mark} : mark.change.dirty = true ↔ mark ≠ .silent := by
  cases mark <;> simp [change, dirty]

theorem ne_silent_of_dirty {mark : Mark} (hdirty : mark.dirty = true) : mark ≠ .silent := by
  rintro rfl
  cases hdirty

end Mark

structure StateDB where
  objects : Address → Option StateObject
  marks : Address → Mark
  /-- The trie of the last commit. -/
  trie : Trie
  thash : Hash
  bhash : Hash
  txIndex : ℕ
  logs : Hash → List Log

/-- `newObject` on the zero `Account`. -/
def StateObject.fresh : StateObject where
  nonce := 0
  balance := 0
  code := []
  storage := fun _ ↦ 0
  suicided := false

/-- EIP-161 emptiness: no nonce, no balance, no code. -/
def StateObject.empty (object : StateObject) : Bool :=
  object.nonce == 0 && object.balance == 0 && object.code.isEmpty

/-- The objects that `Finalise` and `CommitTo` take out of the trie. -/
def StateObject.removed (deleteEmptyObjects : Bool) (object : StateObject) : Bool :=
  object.suicided || (deleteEmptyObjects && object.empty)

/-- What only nonces, creations and self-destructs change about an account. -/
structure Standing where
  nonce : ℕ
  code : Bytes
  suicided : Bool

def StateObject.standing (object : StateObject) : Standing :=
  ⟨object.nonce, object.code, object.suicided⟩

namespace StateDB

/-- A state opened on a committed trie. -/
def new (trie : Trie) : StateDB where
  objects address := (trie address).map fun account ↦ { account with suicided := false }
  marks _ := .clean
  trie := trie
  thash := 0
  bhash := 0
  txIndex := 0
  logs _ := []

variable (state : StateDB) (address : Address)

/-! ## Queries -/

def exist : Bool := (state.objects address).isSome

/-- What the getters see of an account: an absent account reads as a fresh one. -/
def view : StateObject := (state.objects address).getD StateObject.fresh

def getBalance : ℤ := (state.view address).balance

def getNonce : ℕ := (state.view address).nonce

def getCode : Bytes := (state.view address).code

def getCodeSize : ℕ := (state.getCode address).length

def getState (key : Hash) : Hash := (state.view address).storage key

def hasSuicided : Bool := (state.view address).suicided

def standing : Standing := (state.view address).standing

def getLogs (hash : Hash) : List Log := state.logs hash

def dirty : Bool := (state.marks address).dirty

/-! ## Updates -/

def install (mark : Mark) (object : StateObject) : StateDB :=
  { state with
    objects := Function.update state.objects address (some object)
    marks := Function.update state.marks address mark }

/-- Change an object, which reports it. -/
def setStateObject (object : StateObject) : StateDB :=
  state.install address (state.marks address).change object

/-- A new object is dirty from the start. -/
def createObject (object : StateObject) : StateDB :=
  state.install address
    (if state.exist address then .replaced (state.marks address) else .changed) object

def getOrNewStateObject : StateDB × StateObject :=
  match state.objects address with
  | some object => (state, object)
  | none => (state.createObject address StateObject.fresh, StateObject.fresh)

def touch : StateDB :=
  { state with marks := Function.update state.marks address (state.marks address).touch }

def setBalance (amount : ℤ) : StateDB :=
  let (created, object) := state.getOrNewStateObject address
  created.setStateObject address { object with balance := amount }

/-- Adding nothing only touches an empty account, so that account clearing can see it. -/
def addBalance (amount : ℤ) : StateDB :=
  let (created, object) := state.getOrNewStateObject address
  if amount = 0 then
    if object.empty then created.touch address else created
  else created.setStateObject address { object with balance := object.balance + amount }

def subBalance (amount : ℤ) : StateDB :=
  let (created, object) := state.getOrNewStateObject address
  if amount = 0 then created
  else created.setStateObject address { object with balance := object.balance - amount }

def setNonce (nonce : ℕ) : StateDB :=
  let (created, object) := state.getOrNewStateObject address
  created.setStateObject address { object with nonce := nonce }

def setCode (code : Bytes) : StateDB :=
  let (created, object) := state.getOrNewStateObject address
  created.setStateObject address { object with code := code }

/-- A fresh object that carries the balance of the one it replaces. -/
def createAccount : StateDB :=
  state.createObject address { StateObject.fresh with balance := state.getBalance address }

/-- Mark the account self-destructed and clear its balance. -/
def suicide : StateDB :=
  match state.objects address with
  | some object => state.setStateObject address { object with suicided := true, balance := 0 }
  | none => state

def prepare (thash bhash : Hash) (txIndex : ℕ) : StateDB :=
  { state with thash := thash, bhash := bhash, txIndex := txIndex }

def ripemd : Address := 3

/-- `RevertToSnapshot`. An account that did not exist is gone again with its mark; the touch of one
precompiled contract is never undone. -/
def revertToSnapshot (snapshot : StateDB) : StateDB :=
  { snapshot with
    marks := fun address ↦
      if snapshot.exist address then
        if address = ripemd ∧ state.marks address = .touched then .touched
        else (snapshot.marks address).undo (state.marks address)
      else if state.exist address then .clean
      else state.marks address }

/-- Remove self-destructed objects, and empty ones on request, among the dirty objects. -/
def finalise (deleteEmptyObjects : Bool) : StateDB :=
  { state with
    objects := fun address ↦
      if state.dirty address then
        (state.objects address).filter fun object ↦ !object.removed deleteEmptyObjects
      else state.objects address
    marks := fun address ↦
      if state.dirty address ∧ state.exist address ∧ !(state.view address).suicided ∧
        (state.view address).removed deleteEmptyObjects then .emptied
      else state.marks address }

/-- The trie written by `CommitTo`. An object that is not dirty is not written, whatever it holds;
one that `Finalise` has deleted as empty is still dirty and is written again. -/
def commitTo (deleteEmptyObjects : Bool) : Trie := fun address ↦
  match state.objects address with
  | none =>
    if state.marks address = .emptied ∧ !deleteEmptyObjects then some StateObject.fresh.toAccount
    else none
  | some object =>
    if object.removed (state.dirty address && deleteEmptyObjects) then none
    else if state.dirty address then some object.toAccount
    else state.trie address

/-- The state that `CommitTo` leaves behind: removed objects are gone and nothing is dirty. -/
def committed (deleteEmptyObjects : Bool) : StateDB :=
  { state with
    objects := fun address ↦
      (state.objects address).filter fun object ↦
        !object.removed (state.dirty address && deleteEmptyObjects)
    marks := fun address ↦ (state.marks address).commit
    trie := state.commitTo deleteEmptyObjects }

/-! ## What the updates do to the view

Each update changes the view of one account; every getter is then a projection. -/

variable {state address}

@[simp]
theorem view_install (mark : Mark) (object : StateObject) :
    (state.install address mark object).view = Function.update state.view address object := by
  funext observed
  by_cases hsame : observed = address
  · subst hsame
    simp [view, install]
  · simp [view, install, hsame]

@[simp]
theorem view_setStateObject (object : StateObject) :
    (state.setStateObject address object).view = Function.update state.view address object :=
  view_install _ object

@[simp]
theorem view_revertToSnapshot (snapshot : StateDB) :
    (state.revertToSnapshot snapshot).view = snapshot.view := rfl

@[simp]
theorem getBalance_revertToSnapshot (snapshot : StateDB) :
    (state.revertToSnapshot snapshot).getBalance = snapshot.getBalance := rfl

/-- Looking an object up, or creating it, is invisible to the getters. -/
theorem getOrNewStateObject_spec :
    (state.getOrNewStateObject address).1.view = state.view ∧
      (state.getOrNewStateObject address).2 = state.view address := by
  unfold getOrNewStateObject
  cases hobject : state.objects address with
  | some object => simp [view, hobject]
  | none =>
    have hview : state.view address = StateObject.fresh := by simp [view, hobject]
    refine ⟨?_, hview.symm⟩
    simp only [createObject, view_install]
    rw [← hview, Function.update_eq_self]

@[simp]
theorem view_getOrNewStateObject :
    (state.getOrNewStateObject address).1.view = state.view := getOrNewStateObject_spec.1

@[simp]
theorem getOrNewStateObject_snd :
    (state.getOrNewStateObject address).2 = state.view address := getOrNewStateObject_spec.2

@[simp]
theorem view_touch : (state.touch address).view = state.view := rfl

@[simp]
theorem view_setBalance (amount : ℤ) :
    (state.setBalance address amount).view =
      Function.update state.view address { state.view address with balance := amount } := by
  simp [setBalance]

@[simp]
theorem view_addBalance (amount : ℤ) :
    (state.addBalance address amount).view = Function.update state.view address
      { state.view address with balance := (state.view address).balance + amount } := by
  by_cases hzero : amount = 0
  · subst hzero
    by_cases hempty : (state.view address).empty <;> simp [addBalance, hempty]
  · simp [addBalance, hzero]

@[simp]
theorem view_subBalance (amount : ℤ) :
    (state.subBalance address amount).view = Function.update state.view address
      { state.view address with balance := (state.view address).balance - amount } := by
  by_cases hzero : amount = 0
  · subst hzero
    simp [subBalance]
  · simp [subBalance, hzero]

@[simp]
theorem view_setNonce (nonce : ℕ) :
    (state.setNonce address nonce).view =
      Function.update state.view address { state.view address with nonce := nonce } := by
  simp [setNonce]

@[simp]
theorem view_setCode (code : Bytes) :
    (state.setCode address code).view =
      Function.update state.view address { state.view address with code := code } := by
  simp [setCode]

@[simp]
theorem view_createAccount :
    (state.createAccount address).view = Function.update state.view address
      { StateObject.fresh with balance := (state.view address).balance } := by
  simp [createAccount, createObject, getBalance]

@[simp]
theorem view_suicide :
    (state.suicide address).view =
      if state.exist address then
        Function.update state.view address
          { state.view address with suicided := true, balance := 0 }
      else state.view := by
  unfold suicide
  cases hobject : state.objects address with
  | some object =>
    have hview : state.view address = object := by simp [view, hobject]
    simp [exist, hobject, hview]
  | none => simp [exist, hobject]

/-- `Finalise` turns exactly the removed objects into fresh ones. -/
theorem view_finalise (deleteEmptyObjects : Bool) (observed : Address) :
    (state.finalise deleteEmptyObjects).view observed =
      if state.dirty observed ∧ (state.view observed).removed deleteEmptyObjects then
        StateObject.fresh
      else state.view observed := by
  cases hobject : state.objects observed with
  | none => simp [view, finalise, hobject]
  | some object =>
    by_cases hdirty : state.dirty observed <;>
      cases hremoved : object.removed deleteEmptyObjects <;>
        simp [view, finalise, hobject, hdirty, hremoved, Option.filter]

/-! ## Balances as a ledger -/

theorem getBalance_addBalance (amount : ℤ) :
    (state.addBalance address amount).getBalance =
      Ledger.credit state.getBalance address amount := by
  funext observed
  by_cases hsame : observed = address
  · subst hsame
    simp [getBalance, Ledger.credit]
  · simp [getBalance, Ledger.credit, hsame]

theorem getBalance_subBalance (amount : ℤ) :
    (state.subBalance address amount).getBalance =
      Ledger.credit state.getBalance address (-amount) := by
  funext observed
  by_cases hsame : observed = address
  · subst hsame
    simp [getBalance, Ledger.credit, sub_eq_add_neg]
  · simp [getBalance, Ledger.credit, hsame]

@[simp]
theorem getBalance_setNonce (nonce : ℕ) :
    (state.setNonce address nonce).getBalance = state.getBalance := by
  funext observed
  by_cases hsame : observed = address
  · subst hsame
    simp [getBalance]
  · simp [getBalance, hsame]

@[simp]
theorem getBalance_setCode (code : Bytes) :
    (state.setCode address code).getBalance = state.getBalance := by
  funext observed
  by_cases hsame : observed = address
  · subst hsame
    simp [getBalance]
  · simp [getBalance, hsame]

/-- Creating an account over an existing one does not make its balance disappear. -/
@[simp]
theorem getBalance_createAccount :
    (state.createAccount address).getBalance = state.getBalance := by
  funext observed
  by_cases hsame : observed = address
  · subst hsame
    simp [getBalance]
  · simp [getBalance, hsame]

theorem getBalance_suicide :
    (state.suicide address).getBalance =
      Ledger.credit state.getBalance address (-state.getBalance address) := by
  funext observed
  cases hexist : state.exist address with
  | false =>
    have habsent : state.objects address = none := by simpa [exist] using hexist
    have hzero : state.getBalance address = 0 := by
      simp [getBalance, view, habsent, StateObject.fresh]
    rw [Ledger.credit_apply, hzero]
    simp [getBalance, hexist]
  | true =>
    by_cases hsame : observed = address
    · subst hsame
      simp [getBalance, Ledger.credit, hexist]
    · simp [getBalance, Ledger.credit, hexist, hsame]

/-! ## Standing -/

theorem standing_update {object : StateObject} {after : StateDB}
    (hview : after.view = Function.update state.view address object)
    (hsame : object.standing = state.standing address) : after.standing = state.standing := by
  funext observed
  unfold standing
  rw [hview]
  by_cases hobserved : observed = address
  · subst hobserved
    rwa [Function.update_self]
  · rw [Function.update_of_ne hobserved]

@[simp]
theorem standing_setBalance (amount : ℤ) :
    (state.setBalance address amount).standing = state.standing :=
  standing_update (view_setBalance amount) rfl

@[simp]
theorem standing_addBalance (amount : ℤ) :
    (state.addBalance address amount).standing = state.standing :=
  standing_update (view_addBalance amount) rfl

@[simp]
theorem standing_subBalance (amount : ℤ) :
    (state.subBalance address amount).standing = state.standing :=
  standing_update (view_subBalance amount) rfl

theorem standing_of_update {object : StateObject} {after : StateDB} {observed : Address}
    (hview : after.view = Function.update state.view address object) (hne : observed ≠ address) :
    after.standing observed = state.standing observed := by
  rw [standing, hview, Function.update_of_ne hne, standing]

/-! ## Finalisation and commits -/

/-- An account that has used its nonce and is not marked survives finalisation. -/
theorem standing_finalise {observed : Address} (hnonce : (state.standing observed).nonce ≠ 0)
    (hmark : (state.standing observed).suicided = false) (deleteEmptyObjects : Bool) :
    (state.finalise deleteEmptyObjects).standing observed = state.standing observed := by
  have hkept : (state.view observed).removed deleteEmptyObjects = false := by
    have hsuicided : (state.view observed).suicided = false := hmark
    have hused : (state.view observed).nonce ≠ 0 := hnonce
    simp [StateObject.removed, StateObject.empty, hsuicided, hused]
  rw [standing, view_finalise, hkept]
  simp [standing]

/-- The standing of the account that `CommitTo` would leave alone. -/
def stored (state : StateDB) (address : Address) : Standing := (new state.trie).standing address

/-- The account is dirty, or the trie has its standing. -/
def Safe (state : StateDB) (address : Address) : Prop :=
  state.dirty address = true ∨ state.standing address = state.stored address

theorem safe_new (trie : Trie) (address : Address) : (new trie).Safe address := .inr rfl

/-- What a commit without deletion of empty accounts makes of an account. -/
theorem standing_new_commitTo (hmark : (state.standing address).suicided = false) :
    (new (state.commitTo false)).standing address =
      if state.exist address ∧ !state.dirty address then state.stored address
      else state.standing address := by
  cases hobject : state.objects address with
  | none =>
    by_cases hemptied : state.marks address = .emptied <;>
      simp [standing, view, new, commitTo, exist, hobject, hemptied, StateObject.fresh]
  | some object =>
    have hsuicided : object.suicided = false := by
      simpa [standing, view, hobject, StateObject.standing] using hmark
    cases hdirty : state.dirty address <;>
      simp [standing, stored, view, new, commitTo, exist, hobject, hdirty, hsuicided,
        StateObject.removed, StateObject.standing]

theorem Safe.standing_new_commitTo (hsafe : state.Safe address)
    (hmark : (state.standing address).suicided = false) :
    (new (state.commitTo false)).standing address = state.standing address := by
  rw [StateDB.standing_new_commitTo hmark]
  split_ifs with hlost
  · exact (hsafe.resolve_left fun hdirty ↦ by simp [hdirty] at hlost).symm
  · rfl

theorem standing_committed (hmark : (state.standing address).suicided = false) :
    (state.committed false).standing address = state.standing address := by
  cases hobject : state.objects address with
  | none => simp [standing, view, committed, hobject]
  | some object =>
    have hsuicided : object.suicided = false := by
      simpa [standing, view, hobject, StateObject.standing] using hmark
    simp [standing, view, committed, hobject, StateObject.removed, hsuicided, Option.filter]

theorem Safe.committed (hsafe : state.Safe address)
    (hmark : (state.standing address).suicided = false) : (state.committed false).Safe address :=
  .inr ((standing_committed hmark).trans (hsafe.standing_new_commitTo hmark).symm)

/-! ## Changes that are reported -/

/-- From one state to the other the account has at most reported a change. -/
structure Steady (before after : StateDB) (address : Address) : Prop where
  trie : after.trie = before.trie
  mark : after.marks address = before.marks address ∨
    after.marks address = (before.marks address).change

theorem Steady.refl (state : StateDB) (address : Address) : Steady state state address :=
  ⟨rfl, .inl rfl⟩

theorem Steady.trans {first second third : StateDB} (hfirst : Steady first second address)
    (hsecond : Steady second third address) : Steady first third address := by
  refine ⟨hsecond.trie.trans hfirst.trie, ?_⟩
  rcases hfirst.mark with hmark | hmark <;> rcases hsecond.mark with hmark' | hmark' <;>
    simp [hmark, hmark']

/-- A change that is undone stays reported. -/
theorem Steady.revertToSnapshot {snapshot : StateDB} (hsteady : Steady snapshot state address)
    (hexist : snapshot.exist address = true) :
    Steady snapshot (state.revertToSnapshot snapshot) address := by
  refine ⟨rfl, ?_⟩
  have hmarks : (state.revertToSnapshot snapshot).marks address =
      if address = ripemd ∧ state.marks address = .touched then .touched
      else (snapshot.marks address).undo (state.marks address) := by
    simp [StateDB.revertToSnapshot, hexist]
  rw [hmarks]
  split_ifs with htouched
  · rcases hsteady.mark with hmark | hmark
    · exact .inl (htouched.2.symm.trans hmark)
    · exact .inr (htouched.2.symm.trans hmark)
  · rcases hsteady.mark with hmark | hmark <;> simp [hmark]

/-- An account whose standing does not change stays safe. -/
theorem Safe.of_steady {after : StateDB} (hsafe : state.Safe address)
    (hsteady : Steady state after address)
    (hstanding : after.standing address = state.standing address) : after.Safe address := by
  refine hsafe.imp (fun hdirty ↦ ?_) fun hstored ↦ ?_
  · unfold dirty at hdirty ⊢
    rcases hsteady.mark with hmark | hmark
    · rwa [hmark]
    · rw [hmark]
      exact Mark.dirty_change_iff.mpr (Mark.ne_silent_of_dirty hdirty)
  · rw [hstanding, hstored, stored, stored, hsteady.trie]

theorem steady_install_of_ne {observed : Address} (hne : observed ≠ address) (mark : Mark)
    (object : StateObject) : Steady state (state.install address mark object) observed :=
  ⟨rfl, .inl (by simp [install, hne])⟩

theorem steady_setStateObject (object : StateObject) (observed : Address) :
    Steady state (state.setStateObject address object) observed := by
  by_cases hsame : observed = address
  · subst hsame
    exact ⟨rfl, .inr (by simp [setStateObject, install])⟩
  · exact steady_install_of_ne hsame _ _

/-- An account whose nonce has been used is there. -/
theorem exist_of_nonce {observed : Address} (hnonce : (state.standing observed).nonce ≠ 0) :
    state.exist observed = true := by
  by_contra hexist
  have habsent : state.objects observed = none := by simpa [exist] using hexist
  exact hnonce (by simp [standing, view, habsent, StateObject.fresh, StateObject.standing])

theorem steady_getOrNewStateObject {observed : Address}
    (hnonce : (state.standing observed).nonce ≠ 0) :
    Steady state (state.getOrNewStateObject address).1 observed := by
  unfold getOrNewStateObject
  cases hobject : state.objects address with
  | some object => exact .refl _ _
  | none =>
    refine steady_install_of_ne ?_ _ _
    rintro rfl
    exact absurd (exist_of_nonce hnonce) (by simp [exist, hobject])

section Changes

variable {observed : Address} (hnonce : (state.standing observed).nonce ≠ 0)
include hnonce

theorem steady_setBalance (amount : ℤ) : Steady state (state.setBalance address amount) observed :=
  (steady_getOrNewStateObject hnonce).trans (steady_setStateObject _ _)

/-- An account whose nonce has been used is not empty, so it is not touched. -/
theorem steady_addBalance (amount : ℤ) :
    Steady state (state.addBalance address amount) observed := by
  have hlooked : Steady state (state.getOrNewStateObject address).1 observed :=
    steady_getOrNewStateObject hnonce
  refine hlooked.trans ?_
  unfold addBalance
  simp only
  split_ifs with hzero hempty
  · refine ⟨rfl, .inl ?_⟩
    have hne : observed ≠ address := by
      rintro rfl
      rw [getOrNewStateObject_snd] at hempty
      have hused : (state.view observed).nonce ≠ 0 := hnonce
      simp [StateObject.empty, hused] at hempty
    simp [touch, hne]
  · exact .refl _ _
  · exact steady_setStateObject _ _

theorem steady_subBalance (amount : ℤ) :
    Steady state (state.subBalance address amount) observed := by
  have hlooked : Steady state (state.getOrNewStateObject address).1 observed :=
    steady_getOrNewStateObject hnonce
  refine hlooked.trans ?_
  unfold subBalance
  simp only
  split_ifs
  · exact .refl _ _
  · exact steady_setStateObject _ _

theorem steady_setNonce (nonce : ℕ) : Steady state (state.setNonce address nonce) observed :=
  (steady_getOrNewStateObject hnonce).trans (steady_setStateObject _ _)

theorem steady_setCode (code : Bytes) : Steady state (state.setCode address code) observed :=
  (steady_getOrNewStateObject hnonce).trans (steady_setStateObject _ _)

theorem steady_finalise (hmark : (state.standing observed).suicided = false)
    (deleteEmptyObjects : Bool) : Steady state (state.finalise deleteEmptyObjects) observed := by
  refine ⟨rfl, .inl (if_neg ?_)⟩
  have hused : (state.view observed).nonce ≠ 0 := hnonce
  have hsuicided : (state.view observed).suicided = false := hmark
  simp [StateObject.removed, StateObject.empty, hused, hsuicided]

end Changes

/-- A change of the account will be written: there is no object yet, or it is dirty or can still
become so. -/
def Reports (state : StateDB) (address : Address) : Prop :=
  state.exist address = true → state.marks address ≠ .silent

theorem reports_subBalance (amount : ℤ) :
    (state.subBalance address amount).Reports address ↔ state.Reports address := by
  unfold Reports subBalance getOrNewStateObject
  cases hobject : state.objects address with
  | none => by_cases hzero : amount = 0 <;>
      simp [hzero, setStateObject, createObject, install, exist, hobject, Mark.change]
  | some object => by_cases hzero : amount = 0 <;>
      simp [hzero, setStateObject, install, exist, hobject]

theorem dirty_setNonce_iff (nonce : ℕ) :
    (state.setNonce address nonce).dirty address = true ↔ state.Reports address := by
  unfold Reports setNonce getOrNewStateObject
  cases hobject : state.objects address with
  | none => simp [setStateObject, createObject, install, exist, hobject, dirty, Mark.change,
      Mark.dirty]
  | some object => simp [setStateObject, install, exist, hobject, dirty, Mark.dirty_change_iff]

theorem marks_setNonce_change (nonce : ℕ) :
    ((state.setNonce address nonce).marks address).change =
      (state.setNonce address nonce).marks address := by
  simp [setNonce, setStateObject, install]

/-! ## Existence -/

theorem exist_install (mark : Mark) (object : StateObject) (observed : Address) :
    (state.install address mark object).exist observed =
      (decide (observed = address) || state.exist observed) := by
  by_cases hsame : observed = address
  · subst hsame
    simp [exist, install]
  · simp [exist, install, hsame]

theorem exist_getOrNewStateObject :
    (state.getOrNewStateObject address).1.exist address = true := by
  unfold getOrNewStateObject
  cases hobject : state.objects address with
  | some object => simp [exist, hobject]
  | none => simp [createObject, exist_install]

theorem exist_subBalance (amount : ℤ) : (state.subBalance address amount).exist address = true := by
  by_cases hzero : amount = 0
  · simpa [subBalance, hzero] using exist_getOrNewStateObject
  · simp [subBalance, hzero, setStateObject, exist_install]

end StateDB

end LkChain.Ethereum.State
