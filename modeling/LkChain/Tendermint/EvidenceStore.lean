import LkChain.Foundation.KeyValue
import LkChain.Foundation.Texts
import LkChain.Foundation.Schedules

/-!
# The evidence store

`EvidenceStore` keeps evidence in one database under three families of keys. The lookup entry says
whether the evidence was committed, the pending entry stands until it is, and the outqueue entry
until it was broadcast. Numbers in the keys have a fixed width, so that the outqueue is in the order
of the priorities.

What the store is for is said by a ledger: which evidence was added, and which was committed. The
store agrees with it as long as no evidence is added that was committed before the store saw it:
such evidence is stored as if it were new.
-/

namespace LkChain.Tendermint.EvidenceStore

open Foundation Foundation.KeyValue Foundation.Texts

/-! ## The database -/

/-- An `int64` that is not negative. -/
abbrev Int63 := Fin (2 ^ 63)

/-- Evidence is found by its height and its hash. -/
abbrev Id := Int63 × List UInt8

/-- `types.Evidence`, with `Height` and `Hash`. -/
structure Evidence (Content : Type) where
  id : Id
  content : Content
deriving DecidableEq

structure EvidenceInfo (Content : Type) where
  committed : Bool
  priority : Int63
  evidence : Option (Evidence Content)

def baseKeyLookup : List Char := "evidence-lookup".toList

def baseKeyOutqueue : List Char := "evidence-outqueue".toList

def baseKeyPending : List Char := "evidence-pending".toList

/-- `bE`: sixteen hexadecimal digits. -/
def bE (h : Int63) : List Char := fixedHex 16 h

/-- The end of every key: the height and the hash. -/
def idText (id : Id) : List Char := bE id.1 ++ '/' :: hexBytes id.2

/-- `keyLookupFromHeightAndHash`. -/
def keyLookup (id : Id) : List Char := baseKeyLookup ++ '/' :: idText id

def keyOutqueue (id : Id) (priority : Int63) : List Char :=
  baseKeyOutqueue ++ '/' :: (bE priority ++ '/' :: idText id)

def keyPending (id : Id) : List Char := baseKeyPending ++ '/' :: idText id

variable {Content : Type}

def getEvidence (db : Store (EvidenceInfo Content)) (id : Id) : Option (EvidenceInfo Content) :=
  db[keyLookup id]?

/-- `getEvidenceInfo`: what cannot be read is the zero value. -/
def getEvidenceInfo (db : Store (EvidenceInfo Content)) (evidence : Evidence Content) :
    EvidenceInfo Content :=
  db[keyLookup evidence.id]?.getD ⟨false, 0, none⟩

def listEvidence (db : Store (EvidenceInfo Content)) (prefixKey : List Char) :
    List (Option (Evidence Content)) :=
  (iterate db prefixKey).map fun entry ↦ entry.2.evidence

def priorityEvidence (db : Store (EvidenceInfo Content)) : List (Option (Evidence Content)) :=
  (listEvidence db baseKeyOutqueue).reverse

def pendingEvidence (db : Store (EvidenceInfo Content)) : List (Option (Evidence Content)) :=
  listEvidence db baseKeyPending

/-- `AddNewEvidence`, and whether the evidence was not stored already. -/
def addNewEvidence (db : Store (EvidenceInfo Content)) (evidence : Evidence Content)
    (priority : Int63) : Store (EvidenceInfo Content) × Bool :=
  if ((getEvidence db evidence.id).bind EvidenceInfo.evidence).isSome then (db, false)
  else
    let ei : EvidenceInfo Content := ⟨false, priority, some evidence⟩
    (((db.insert (keyOutqueue evidence.id priority) ei).insert (keyPending evidence.id) ei).insert
      (keyLookup evidence.id) ei, true)

def markEvidenceAsBroadcasted (db : Store (EvidenceInfo Content)) (evidence : Evidence Content) :
    Store (EvidenceInfo Content) :=
  db.erase (keyOutqueue evidence.id (getEvidenceInfo db evidence).priority)

def markEvidenceAsCommitted (db : Store (EvidenceInfo Content)) (evidence : Evidence Content) :
    Store (EvidenceInfo Content) :=
  let db := (markEvidenceAsBroadcasted db evidence).erase (keyPending evidence.id)
  db.insert (keyLookup evidence.id) { getEvidenceInfo db evidence with committed := true }

/-- A call that changes the store. -/
inductive Call (Content : Type) where
  | addNewEvidence (evidence : Evidence Content) (priority : Int63)
  | markEvidenceAsBroadcasted (evidence : Evidence Content)
  | markEvidenceAsCommitted (evidence : Evidence Content)

def step (db : Store (EvidenceInfo Content)) : Call Content → Store (EvidenceInfo Content)
  | .addNewEvidence evidence priority => (addNewEvidence db evidence priority).1
  | .markEvidenceAsBroadcasted evidence => markEvidenceAsBroadcasted db evidence
  | .markEvidenceAsCommitted evidence => markEvidenceAsCommitted db evidence

/-- The database after a sequence of calls on an empty store. -/
def run (calls : List (Call Content)) : Store (EvidenceInfo Content) := calls.foldl step ∅

/-! ## The ledger -/

/-- Evidence that was added, with its priority and whether it was broadcast since. -/
structure Item (Content : Type) where
  evidence : Evidence Content
  priority : Int63
  broadcast : Bool

/-- Which evidence was added, and which was committed. -/
structure Ledger (Content : Type) where
  added : Id → Option (Item Content)
  committed : Id → Bool

def Ledger.empty (Content : Type) : Ledger Content := ⟨fun _ ↦ none, fun _ ↦ false⟩

def Ledger.step (ledger : Ledger Content) : Call Content → Ledger Content
  | .addNewEvidence evidence priority =>
    { ledger with
      added := Function.update ledger.added evidence.id
        ((ledger.added evidence.id).or (some ⟨evidence, priority, false⟩)) }
  | .markEvidenceAsBroadcasted evidence =>
    { ledger with
      added := Function.update ledger.added evidence.id
        ((ledger.added evidence.id).map fun item ↦ { item with broadcast := true }) }
  | .markEvidenceAsCommitted evidence =>
    { ledger with committed := Function.update ledger.committed evidence.id true }

def Ledger.run (calls : List (Call Content)) : Ledger Content :=
  calls.foldl Ledger.step (.empty Content)

/-- Added and not committed. -/
def Ledger.Pending (ledger : Ledger Content) (item : Item Content) : Prop :=
  ledger.added item.evidence.id = some item ∧ ledger.committed item.evidence.id = false

/-- The list has the evidence of the wanted items, each once. -/
structure Lists (listed : List (Option (Evidence Content))) (items : List (Item Content))
    (wanted : Item Content → Prop) : Prop where
  evidence : listed = items.map fun item ↦ some item.evidence
  nodup : (items.map fun item ↦ item.evidence.id).Nodup
  mem : ∀ item, item ∈ items ↔ wanted item

/-- What the store shows is what the ledger says. -/
structure Agrees (db : Store (EvidenceInfo Content)) (ledger : Ledger Content) : Prop where
  pending : ∃ items, Lists (pendingEvidence db) items ledger.Pending
  priority : ∃ items, Lists (priorityEvidence db) items
      (fun item ↦ ledger.Pending item ∧ item.broadcast = false) ∧
    items.Pairwise fun item later ↦ later.priority ≤ item.priority
  committed : ∀ id, ledger.committed id = true →
    ∃ info, getEvidence db id = some info ∧ info.committed = true

/-! ## The keys -/

/-- The keys of the three families. -/
inductive Key where
  | lookup (id : Id)
  | outqueue (id : Id) (priority : Int63)
  | pending (id : Id)
deriving DecidableEq

def Key.text : Key → List Char
  | .lookup id => keyLookup id
  | .outqueue id priority => keyOutqueue id priority
  | .pending id => keyPending id

theorem bE_lt (h : Int63) : h.val < 16 ^ 16 := h.isLt.trans (by decide)

theorem bE_inj {h h' : Int63} : bE h = bE h' ↔ h = h' := by
  unfold bE
  rw [fixedHex_inj (bE_lt h) (bE_lt h'), Fin.val_inj]

theorem length_bE (h : Int63) : (bE h).length = 16 := length_fixedHex 16 h

theorem idText_injective : Function.Injective idText := by
  intro id id' heq
  obtain ⟨hheight, hhash⟩ := List.append_inj heq ((length_bE _).trans (length_bE _).symm)
  exact Prod.ext (bE_inj.mp hheight) (hexBytes_injective (List.cons.inj hhash).2)

/-- The tenth letter tells the families apart. -/
def Key.letter : Key → Char
  | .lookup _ => 'l'
  | .outqueue _ _ => 'o'
  | .pending _ => 'p'

theorem text_letter (key : Key) : key.text[9]? = some key.letter := by
  cases key <;> rfl

theorem text_injective : Function.Injective Key.text := by
  intro key key' heq
  have hletter : key.letter = key'.letter := by
    rw [← Option.some_inj, ← text_letter, ← text_letter, heq]
  cases key with
  | lookup id =>
    cases key' with
    | lookup id' =>
      have hid : idText id = idText id' := (List.cons.inj (List.append_cancel_left heq)).2
      rw [idText_injective hid]
    | outqueue id' priority' => cases hletter
    | pending id' => cases hletter
  | outqueue id priority =>
    cases key' with
    | lookup id' => cases hletter
    | outqueue id' priority' =>
      have htail : bE priority ++ '/' :: idText id = bE priority' ++ '/' :: idText id' :=
        (List.cons.inj (List.append_cancel_left heq)).2
      obtain ⟨hpriority, hid⟩ := List.append_inj htail ((length_bE _).trans (length_bE _).symm)
      rw [bE_inj.mp hpriority, idText_injective (List.cons.inj hid).2]
    | pending id' => cases hletter
  | pending id =>
    cases key' with
    | lookup id' => cases hletter
    | outqueue id' priority' => cases hletter
    | pending id' =>
      have hid : idText id = idText id' := (List.cons.inj (List.append_cancel_left heq)).2
      rw [idText_injective hid]

theorem letter_of_start {start : List Char} {key : Key} {c : Char} (hstart : start <+: key.text)
    (hletter : start[9]? = some c) : key.letter = c := by
  obtain ⟨rest, hrest⟩ := hstart
  rw [← Option.some_inj, ← text_letter, ← hrest, List.getElem?_append_left, hletter]
  exact (List.getElem?_eq_some_iff.mp hletter).1

theorem baseKeyPending_prefix_iff {key : Key} :
    baseKeyPending <+: key.text ↔ ∃ id, key = .pending id := by
  constructor
  · intro hstart
    have hletter := letter_of_start hstart (c := 'p') rfl
    cases key with
    | lookup id => cases hletter
    | outqueue id priority => cases hletter
    | pending id => exact ⟨id, rfl⟩
  · rintro ⟨id, rfl⟩
    exact List.prefix_append _ _

theorem baseKeyOutqueue_prefix_iff {key : Key} :
    baseKeyOutqueue <+: key.text ↔ ∃ id priority, key = .outqueue id priority := by
  constructor
  · intro hstart
    have hletter := letter_of_start hstart (c := 'o') rfl
    cases key with
    | lookup id => cases hletter
    | outqueue id priority => exact ⟨id, priority, rfl⟩
    | pending id => cases hletter
  · rintro ⟨id, priority, rfl⟩
    exact List.prefix_append _ _

theorem priority_le_of_compare {id id' : Id} {priority priority' : Int63}
    (hlt : compare (keyOutqueue id priority) (keyOutqueue id' priority') = .lt) :
    priority ≤ priority' := by
  unfold keyOutqueue at hlt
  rw [compare_append rfl, Std.compare_self, Ordering.eq_then, List.compare_cons_cons,
    Std.compare_self, Ordering.eq_then,
      compare_append ((length_bE _).trans (length_bE _).symm)] at hlt
  by_contra hgt
  have hcompare : compare (bE priority) (bE priority') = .gt := by
    unfold bE
    rw [compare_fixedHex_of_lt (bE_lt _) (bE_lt _), Nat.compare_eq_gt]
    exact not_le.mp hgt
  rw [hcompare] at hlt
  cases hlt

/-! ## What the database holds -/

/-- The entries that stand for a ledger. -/
def Ledger.contents (ledger : Ledger Content) : Key → Option (EvidenceInfo Content)
  | .lookup id =>
    match ledger.added id with
    | some item => some ⟨ledger.committed id, item.priority, some item.evidence⟩
    | none => if ledger.committed id then some ⟨true, 0, none⟩ else none
  | .outqueue id priority =>
    (ledger.added id).bind fun item ↦
      if ledger.committed id = false ∧ item.broadcast = false ∧ item.priority = priority then
        some ⟨false, priority, some item.evidence⟩
      else none
  | .pending id =>
    (ledger.added id).bind fun item ↦
      if ledger.committed id = false then some ⟨false, item.priority, some item.evidence⟩ else none

/-- What evidence an entry is about. -/
def Key.id : Key → Id
  | .lookup id => id
  | .outqueue id _ => id
  | .pending id => id

theorem contents_congr {ledger ledger' : Ledger Content} {key : Key}
    (hadded : ledger.added key.id = ledger'.added key.id)
    (hcommitted : ledger.committed key.id = ledger'.committed key.id) :
    ledger.contents key = ledger'.contents key := by
  cases key <;>
    (simp only [Key.id] at hadded hcommitted
     simp only [Ledger.contents, hadded, hcommitted])

theorem update_of_id_ne {contents : Key → Option (EvidenceInfo Content)} {key other : Key}
    (hid : other.id ≠ key.id) (value : Option (EvidenceInfo Content)) :
    Function.update contents key value other = contents other :=
  Function.update_of_ne (fun heq ↦ hid (congrArg Key.id heq)) _ _

/-- The database stands for the ledger. -/
structure Stands (db : Store (EvidenceInfo Content)) (ledger : Ledger Content) : Prop where
  represents : Represents Key.text db ledger.contents
  filed : ∀ id item, ledger.added id = some item → item.evidence.id = id

theorem stands_empty : Stands (∅ : Store (EvidenceInfo Content)) (.empty Content) where
  represents := by
    convert represents_empty Key.text with key
    cases key <;> rfl
  filed id item hadded := by cases hadded

variable {db : Store (EvidenceInfo Content)} {ledger : Ledger Content}

theorem Stands.getEvidence (hstands : Stands db ledger) (id : Id) :
    getEvidence db id = ledger.contents (.lookup id) :=
  hstands.represents.read (.lookup id)

theorem Stands.getEvidenceInfo (hstands : Stands db ledger) (evidence : Evidence Content) :
    getEvidenceInfo db evidence =
      (ledger.contents (.lookup evidence.id)).getD ⟨false, 0, none⟩ :=
  congrArg (Option.getD · _) (hstands.getEvidence evidence.id)

/-- Evidence that is added again was committed only after it was added. -/
def Timely (ledger : Ledger Content) : Call Content → Prop
  | .addNewEvidence evidence _ =>
    ledger.committed evidence.id = true → ledger.added evidence.id ≠ none
  | .markEvidenceAsBroadcasted _ => True
  | .markEvidenceAsCommitted _ => True

theorem contents_addNewEvidence {evidence : Evidence Content} (priority : Int63)
    (hnew : ledger.added evidence.id = none) (hpending : ledger.committed evidence.id = false) :
    let ei : EvidenceInfo Content := ⟨false, priority, some evidence⟩
    Function.update (Function.update (Function.update ledger.contents
        (.outqueue evidence.id priority) (some ei)) (.pending evidence.id) (some ei))
        (.lookup evidence.id) (some ei) =
      (ledger.step (.addNewEvidence evidence priority)).contents := by
  funext key
  by_cases hid : key.id = evidence.id
  · cases key with
    | lookup id =>
      obtain rfl : id = evidence.id := hid
      simp [Ledger.contents, Ledger.step, hnew, hpending]
    | outqueue id other =>
      obtain rfl : id = evidence.id := hid
      by_cases hother : other = priority
      · simp [Ledger.contents, Ledger.step, hnew, hpending, hother]
      · simp [Ledger.contents, Ledger.step, hnew, hother, Ne.symm hother]
    | pending id =>
      obtain rfl : id = evidence.id := hid
      simp [Ledger.contents, Ledger.step, hnew, hpending]
  · rw [update_of_id_ne hid, update_of_id_ne hid, update_of_id_ne hid]
    exact contents_congr (Function.update_of_ne hid _ _).symm rfl

theorem contents_markEvidenceAsBroadcasted (evidence : Evidence Content) :
    Function.update ledger.contents (.outqueue evidence.id
        ((ledger.contents (.lookup evidence.id)).getD ⟨false, 0, none⟩).priority) none =
      (ledger.step (.markEvidenceAsBroadcasted evidence)).contents := by
  funext key
  by_cases hid : key.id = evidence.id
  · cases key with
    | lookup id =>
      obtain rfl : id = evidence.id := hid
      cases hadded : ledger.added evidence.id <;> simp [Ledger.contents, Ledger.step, hadded]
    | outqueue id priority =>
      obtain rfl : id = evidence.id := hid
      cases hadded : ledger.added evidence.id with
      | none =>
        -- Nothing is in the queue under any priority.
        rw [Function.update_apply]
        simp [Ledger.contents, Ledger.step, hadded]
      | some item =>
        by_cases hpriority : priority = item.priority
        · simp [Ledger.contents, Ledger.step, hadded, hpriority]
        · simp [Ledger.contents, Ledger.step, hadded, hpriority, Ne.symm hpriority]
    | pending id =>
      obtain rfl : id = evidence.id := hid
      cases hadded : ledger.added evidence.id <;> simp [Ledger.contents, Ledger.step, hadded]
  · rw [update_of_id_ne hid]
    exact contents_congr (Function.update_of_ne hid _ _).symm rfl

/-- A commit comes after a broadcast, and takes the pending entry away. -/
theorem contents_markEvidenceAsCommitted (evidence : Evidence Content) :
    let broadcast := ledger.step (.markEvidenceAsBroadcasted evidence)
    Function.update (Function.update broadcast.contents (.pending evidence.id) none)
        (.lookup evidence.id) (some { (broadcast.contents (.lookup evidence.id)).getD
          ⟨false, 0, none⟩ with committed := true }) =
      (ledger.step (.markEvidenceAsCommitted evidence)).contents := by
  funext key
  by_cases hid : key.id = evidence.id
  · cases key with
    | lookup id =>
      obtain rfl : id = evidence.id := hid
      cases hadded : ledger.added evidence.id with
      | none =>
        cases hcommitted : ledger.committed evidence.id <;>
          simp [Ledger.contents, Ledger.step, hadded, hcommitted]
      | some item => simp [Ledger.contents, Ledger.step, hadded]
    | outqueue id priority =>
      obtain rfl : id = evidence.id := hid
      simp [Ledger.contents, Ledger.step, Option.bind_map]
    | pending id =>
      obtain rfl : id = evidence.id := hid
      simp [Ledger.contents, Ledger.step]
  · dsimp only
    rw [update_of_id_ne hid, update_of_id_ne hid]
    exact contents_congr (Function.update_of_ne hid _ _) (Function.update_of_ne hid _ _).symm

theorem Stands.addNewEvidence (hstands : Stands db ledger) {evidence : Evidence Content}
    {priority : Int63} (htimely : Timely ledger (.addNewEvidence evidence priority)) :
    Stands (addNewEvidence db evidence priority).1
      (ledger.step (.addNewEvidence evidence priority)) := by
  unfold EvidenceStore.addNewEvidence
  cases hadded : ledger.added evidence.id with
  | some item =>
    have hsame : ledger.step (.addNewEvidence evidence priority) = ledger := by
      simp only [Ledger.step, hadded, Option.some_or]
      rw [← hadded, Function.update_eq_self]
    have hstored : ((EvidenceStore.getEvidence db evidence.id).bind
        EvidenceInfo.evidence).isSome = true := by
      rw [hstands.getEvidence]
      simp [Ledger.contents, hadded]
    rw [if_pos hstored, hsame]
    exact hstands
  | none =>
    have hpending : ledger.committed evidence.id = false := by
      rw [← Bool.not_eq_true]
      exact fun hcommitted ↦ htimely hcommitted hadded
    have hnew : ¬ ((EvidenceStore.getEvidence db evidence.id).bind
        EvidenceInfo.evidence).isSome = true := by
      rw [hstands.getEvidence]
      simp [Ledger.contents, hadded, hpending]
    rw [if_neg hnew]
    constructor
    · rw [← contents_addNewEvidence priority hadded hpending]
      exact ((hstands.represents.insert text_injective (.outqueue evidence.id priority) _).insert
        text_injective (.pending evidence.id) _).insert text_injective (.lookup evidence.id) _
    · intro id item hitem
      by_cases hid : id = evidence.id
      · simp only [Ledger.step, hid, Function.update_self, hadded, Option.none_or,
          Option.some_inj] at hitem
        rw [← hitem, hid]
      · simp only [Ledger.step, Function.update_of_ne hid] at hitem
        exact hstands.filed id item hitem

theorem Stands.markEvidenceAsBroadcasted (hstands : Stands db ledger)
    (evidence : Evidence Content) :
    Stands (markEvidenceAsBroadcasted db evidence)
      (ledger.step (.markEvidenceAsBroadcasted evidence)) where
  represents := by
    rw [← contents_markEvidenceAsBroadcasted, EvidenceStore.markEvidenceAsBroadcasted,
      hstands.getEvidenceInfo]
    exact hstands.represents.erase text_injective (.outqueue evidence.id _)
  filed id item hitem := by
    by_cases hid : id = evidence.id
    · simp only [Ledger.step, hid, Function.update_self, Option.map_eq_some_iff] at hitem
      obtain ⟨earlier, hearlier, rfl⟩ := hitem
      rw [hid]
      exact hstands.filed evidence.id earlier hearlier
    · simp only [Ledger.step, Function.update_of_ne hid] at hitem
      exact hstands.filed id item hitem

theorem Stands.markEvidenceAsCommitted (hstands : Stands db ledger) (evidence : Evidence Content) :
    Stands (markEvidenceAsCommitted db evidence)
      (ledger.step (.markEvidenceAsCommitted evidence)) where
  represents := by
    have herased := (hstands.markEvidenceAsBroadcasted evidence).represents.erase text_injective
      (.pending evidence.id)
    have hinfo := herased.read (.lookup evidence.id)
    rw [Function.update_of_ne (by simp)] at hinfo
    rw [← contents_markEvidenceAsCommitted, ← hinfo]
    exact herased.insert text_injective (.lookup evidence.id) _
  filed := hstands.filed

theorem Stands.step (hstands : Stands db ledger) (call : Call Content)
    (htimely : Timely ledger call) : Stands (step db call) (ledger.step call) := by
  cases call with
  | addNewEvidence evidence priority => exact hstands.addNewEvidence htimely
  | markEvidenceAsBroadcasted evidence => exact hstands.markEvidenceAsBroadcasted evidence
  | markEvidenceAsCommitted evidence => exact hstands.markEvidenceAsCommitted evidence

/-! ## What the store shows -/

theorem Ledger.Pending.eq_of_id {item item' : Item Content} (hitem : ledger.Pending item)
    (hitem' : ledger.Pending item') (hid : item.evidence.id = item'.evidence.id) :
    item = item' := by
  rw [← Option.some_inj, ← hitem.1, ← hitem'.1, hid]

theorem contents_pending_eq_some_iff (hstands : Stands db ledger) {id : Id}
    {info : EvidenceInfo Content} :
    ledger.contents (.pending id) = some info ↔
      ∃ item, ledger.Pending item ∧ item.evidence.id = id ∧
        info = ⟨false, item.priority, some item.evidence⟩ := by
  simp only
    [Ledger.contents, Option.bind_eq_some_iff, Option.ite_none_right_eq_some, Option.some_inj,
    Ledger.Pending]
  constructor
  · rintro ⟨item, hadded, hpending, hinfo⟩
    have hid := hstands.filed id item hadded
    rw [← hid] at hadded hpending
    exact ⟨item, ⟨hadded, hpending⟩, hid, hinfo.symm⟩
  · rintro ⟨item, ⟨hadded, hpending⟩, rfl, rfl⟩
    exact ⟨item, hadded, hpending, rfl⟩

theorem contents_outqueue_eq_some_iff (hstands : Stands db ledger) {id : Id} {priority : Int63}
    {info : EvidenceInfo Content} :
    ledger.contents (.outqueue id priority) = some info ↔
      ∃ item, (ledger.Pending item ∧ item.broadcast = false) ∧ item.evidence.id = id ∧
        item.priority = priority ∧ info = ⟨false, item.priority, some item.evidence⟩ := by
  simp only
    [Ledger.contents, Option.bind_eq_some_iff, Option.ite_none_right_eq_some, Option.some_inj,
    Ledger.Pending]
  constructor
  · rintro ⟨item, hadded, ⟨hpending, hbroadcast, hpriority⟩, hinfo⟩
    have hid := hstands.filed id item hadded
    rw [← hid] at hadded hpending
    exact ⟨item, ⟨⟨hadded, hpending⟩, hbroadcast⟩, hid, hpriority, hpriority ▸ hinfo.symm⟩
  · rintro ⟨item, ⟨⟨hadded, hpending⟩, hbroadcast⟩, rfl, rfl, rfl⟩
    exact ⟨item, hadded, ⟨hpending, hbroadcast, rfl⟩, rfl⟩

theorem Lists.reverse {listed : List (Option (Evidence Content))} {items : List (Item Content)}
    {wanted : Item Content → Prop} (hlists : Lists listed items wanted) :
    Lists listed.reverse items.reverse wanted where
  evidence := by rw [hlists.evidence, List.map_reverse]
  nodup := by
    rw [List.map_reverse]
    exact List.nodup_reverse.mpr hlists.nodup
  mem item := by rw [List.mem_reverse, hlists.mem]

/-- Iterating over a family of keys that some of the pending items have, one each, lists their
evidence. -/
theorem Stands.lists (hstands : Stands db ledger) {base : List Char} {wanted : Item Content → Prop}
    {keyOf : Item Content → Key} (hwanted : ∀ item, wanted item → ledger.Pending item)
    (hid : ∀ item, (keyOf item).id = item.evidence.id)
    (hfamily : ∀ key info, base <+: key.text ∧ ledger.contents key = some info ↔
      ∃ item, wanted item ∧ keyOf item = key ∧
        info = ⟨false, item.priority, some item.evidence⟩) :
    ∃ items, Lists (listEvidence db base) items wanted ∧ iterate db base = items.map fun item ↦
      ((keyOf item).text, ⟨false, item.priority, some item.evidence⟩) := by
  have hunique : ∀ item item', wanted item → wanted item' →
      item.evidence.id = item'.evidence.id → item = item' :=
    fun item item' hitem hitem' ↦ (hwanted item hitem).eq_of_id (hwanted item' hitem')
  obtain ⟨items, hmem, hnodup, hiterate⟩ := hstands.represents.exists_items text_injective base
    wanted (fun item ↦ (keyOf item, ⟨false, item.priority, some item.evidence⟩))
    (fun item hitem ↦ (hfamily _ _).mpr ⟨item, hitem, rfl, rfl⟩)
    (fun key info hstart hinfo ↦ by
      obtain ⟨item, hitem, rfl, rfl⟩ := (hfamily key info).mp ⟨hstart, hinfo⟩
      exact ⟨item, hitem, rfl⟩)
    (fun item item' hitem hitem' hkey ↦ hunique item item' hitem hitem'
      ((hid item).symm.trans ((congrArg Key.id hkey).trans (hid item'))))
  refine ⟨items, ⟨?_, ?_, hmem⟩, hiterate⟩
  · unfold listEvidence
    rw [hiterate, List.map_map]
    rfl
  · apply hnodup.map_on
    intro item hitem item' hitem'
    exact hunique item item' ((hmem item).mp hitem) ((hmem item').mp hitem')

theorem Stands.pending (hstands : Stands db ledger) :
    ∃ items, Lists (pendingEvidence db) items ledger.Pending := by
  have hfamily : ∀ key info, baseKeyPending <+: key.text ∧ ledger.contents key = some info ↔
      ∃ item, ledger.Pending item ∧ Key.pending item.evidence.id = key ∧
        info = ⟨false, item.priority, some item.evidence⟩ := by
    intro key info
    rw [baseKeyPending_prefix_iff]
    constructor
    · rintro ⟨⟨id, rfl⟩, hinfo⟩
      obtain ⟨item, hitem, rfl, rfl⟩ := (contents_pending_eq_some_iff hstands).mp hinfo
      exact ⟨item, hitem, rfl, rfl⟩
    · rintro ⟨item, hitem, rfl, hinfo⟩
      exact ⟨⟨_, rfl⟩, (contents_pending_eq_some_iff hstands).mpr ⟨item, hitem, rfl, hinfo⟩⟩
  obtain ⟨items, hitems, -⟩ := hstands.lists (fun _ ↦ id) (fun _ ↦ rfl) hfamily
  exact ⟨items, hitems⟩

theorem Stands.priority (hstands : Stands db ledger) :
    ∃ items, Lists (priorityEvidence db) items
        (fun item ↦ ledger.Pending item ∧ item.broadcast = false) ∧
      items.Pairwise fun item later ↦ later.priority ≤ item.priority := by
  have hfamily : ∀ key info, baseKeyOutqueue <+: key.text ∧ ledger.contents key = some info ↔
      ∃ item, (ledger.Pending item ∧ item.broadcast = false) ∧
        Key.outqueue item.evidence.id item.priority = key ∧
        info = ⟨false, item.priority, some item.evidence⟩ := by
    intro key info
    rw [baseKeyOutqueue_prefix_iff]
    constructor
    · rintro ⟨⟨id, priority, rfl⟩, hinfo⟩
      obtain ⟨item, hitem, rfl, rfl, rfl⟩ := (contents_outqueue_eq_some_iff hstands).mp hinfo
      exact ⟨item, hitem, rfl, rfl⟩
    · rintro ⟨item, hitem, rfl, hinfo⟩
      exact ⟨⟨_, _, rfl⟩,
        (contents_outqueue_eq_some_iff hstands).mpr ⟨item, hitem, rfl, rfl, hinfo⟩⟩
  obtain ⟨items, hitems, hiterate⟩ := hstands.lists (fun _ ↦ And.left) (fun _ ↦ rfl) hfamily
  refine ⟨items.reverse, hitems.reverse, ?_⟩
  rw [List.pairwise_reverse]
  have hsorted := iterate_sorted db baseKeyOutqueue
  rw [hiterate, List.pairwise_map] at hsorted
  exact hsorted.imp priority_le_of_compare

theorem Stands.agrees (hstands : Stands db ledger) : Agrees db ledger where
  pending := hstands.pending
  priority := hstands.priority
  committed id hcommitted := by
    rw [hstands.getEvidence]
    cases hadded : ledger.added id with
    | none =>
      refine ⟨⟨true, 0, none⟩, ?_, rfl⟩
      simp only [Ledger.contents, hadded, hcommitted, if_true]
    | some item =>
      refine ⟨⟨ledger.committed id, item.priority, some item.evidence⟩, ?_, hcommitted⟩
      simp only [Ledger.contents, hadded]

/-- Evidence that was committed before it is added is stored as if it were new. -/
theorem Stands.addNewEvidence_of_committed (hstands : Stands db ledger)
    {evidence : Evidence Content} (priority : Int63)
    (hcommitted : ledger.committed evidence.id = true)
    (hadded : ledger.added evidence.id = none) :
    EvidenceStore.getEvidence (EvidenceStore.addNewEvidence db evidence priority).1 evidence.id =
      some ⟨false, priority, some evidence⟩ := by
  have hnew : ¬ ((EvidenceStore.getEvidence db evidence.id).bind
      EvidenceInfo.evidence).isSome = true := by
    rw [hstands.getEvidence]
    simp [Ledger.contents, hadded, hcommitted]
  unfold EvidenceStore.addNewEvidence
  rw [if_neg hnew]
  exact Std.ExtTreeMap.getElem?_insert_self

theorem Stands.timely_of_agrees (hstands : Stands db ledger) {call : Call Content}
    (hagrees : Agrees (EvidenceStore.step db call) (ledger.step call)) : Timely ledger call := by
  cases call with
  | addNewEvidence evidence priority =>
    intro hcommitted hadded
    obtain ⟨info, hinfo, htrue⟩ := hagrees.committed evidence.id hcommitted
    have hnew := hstands.addNewEvidence_of_committed priority hcommitted hadded
    rw [EvidenceStore.step, hnew, Option.some_inj] at hinfo
    rw [← hinfo] at htrue
    cases htrue
  | markEvidenceAsBroadcasted evidence => trivial
  | markEvidenceAsCommitted evidence => trivial

/-! ## Runs -/

/-- From a store that stands for a ledger, the two agree at all times exactly when no evidence is
added that was committed before it was ever added. -/
theorem Stands.agrees_iff (hstands : Stands db ledger) (calls : List (Call Content)) :
    (∀ n, Agrees ((calls.take n).foldl EvidenceStore.step db)
        ((calls.take n).foldl Ledger.step ledger)) ↔
      Schedules.Throughout Ledger.step Timely ledger calls := by
  have hrun : (Schedules.run (fun db call ↦ .ok (EvidenceStore.step db call)) db calls :
      Except Empty (Store (EvidenceInfo Content))) = .ok (calls.foldl EvidenceStore.step db) :=
    Schedules.run_ok EvidenceStore.step db calls
  have hagrees := Schedules.agrees_iff_throughout Stands Agrees (fun _ _ ↦ Stands.agrees)
    (fun _ _ call _ hstands htimely hstep ↦ Except.ok.inj hstep ▸ hstands.step call htimely)
    (fun _ _ _ _ hstands hstep hafter ↦ hstands.timely_of_agrees (Except.ok.inj hstep ▸ hafter))
    hstands hrun
  simpa only [Schedules.run_ok, Except.ok.injEq, forall_eq'] using hagrees

/-- The store shows at all times what was added and not committed, with what was not broadcast
first by priority, exactly when no evidence is added that was committed before it was ever added. -/
theorem evidenceStore_agrees_iff (calls : List (Call Content)) :
    (∀ n, Agrees (run (calls.take n)) (.run (calls.take n))) ↔
      Schedules.Throughout Ledger.step Timely (.empty Content) calls :=
  stands_empty.agrees_iff calls

/-- Evidence that the store never saw is committed, and is pending when it is added. -/
theorem pendingEvidence_of_committed :
    let evidence : Evidence Unit := ⟨(1, [7]), ()⟩
    let calls : List (Call Unit) := [.markEvidenceAsCommitted evidence, .addNewEvidence evidence 1]
    pendingEvidence (run calls) = [some evidence] ∧
      (getEvidence (run calls) evidence.id).map EvidenceInfo.committed = some false := by
  decide +kernel

end LkChain.Tendermint.EvidenceStore
