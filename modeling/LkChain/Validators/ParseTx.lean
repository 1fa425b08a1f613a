import LkChain.Foundation.Hex
import LkChain.Foundation.Int64
import LkChain.Foundation.Results
import Mathlib.Data.List.AList

/-!
# Validator transactions

A validator transaction lists new voting powers and carries signatures of the current validators.
`parseValidatorTx` reads it, bounds the change of voting power, and adds up the power of the keys
that signed. Go maps are association lists without repeated keys, in the order in which a loop
visits them; `int64` sums wrap around.

JSON, the public-key library and the text of a hexadecimal decoding error come from outside the
repository and are parameters. The library decodes the byte zero to a key that wraps nil, and
verifying a signature with it panics: `parseValidatorTx` is what the function returns where it
returns, and `parsePanics` says where it does not.
-/

namespace LkChain.Validators.ParseTx

open Foundation

abbrev Bytes := List UInt8

/-- A Go map in iteration order. -/
abbrev GoMap (Value : Type) := AList fun _ : String ↦ Value

/-- `ValidatorItemTx`. -/
structure Item where
  cmd : String
  pubKey : String
  power : ℤ
  name : String
  power_range : -2 ^ 63 ≤ power ∧ power < 2 ^ 63 := by decide

structure ValidatorTx where
  txs : List Item
  sign : GoMap String

/-- A map filled in a loop over elements with different keys holds one entry for each of them. -/
theorem lookup_foldl_insert {Element : Type} {key : Element → String} {value : Element → ℤ}
    {elements : List Element} (hnodup : (elements.map key).Nodup) {start : GoMap ℤ}
    {observed : String} {found : ℤ} :
    (elements.foldl (fun m element ↦ m.insert (key element) (value element)) start).lookup
        observed = some found ↔
      (∃ element ∈ elements, key element = observed ∧ value element = found) ∨
        observed ∉ elements.map key ∧ start.lookup observed = some found := by
  induction elements generalizing start with
  | nil => simp
  | cons element elements ih =>
    obtain ⟨hfresh, hnodup⟩ := List.nodup_cons.mp hnodup
    rw [List.foldl_cons, ih hnodup]
    by_cases hsame : observed = key element
    · subst hsame
      have hother : ¬ ∃ other ∈ elements, key other = key element ∧ value other = found :=
        fun ⟨other, hmem, hkey, _⟩ ↦ hfresh (List.mem_map.mpr ⟨other, hmem, hkey⟩)
      simp [hfresh, hother]
    · simp [AList.lookup_insert_ne hsame, hsame, Ne.symm hsame]

/-- The encodings of the Go standard library. -/
structure Codec where
  unmarshal : Bytes → Except String ValidatorTx
  marshal : List Item → Except String Bytes
  /-- What `hex.DecodeString` returns next to an error: nothing, or since Go 1.10 the bytes before
  the first bad digit. -/
  hexPrefix : String → Option Bytes
  hexError : String → String

/-- The public-key library, over its keys, signatures and addresses. -/
structure Crypto (PubKey Signature Address : Type) where
  pubKeyFromBytes : Bytes → Except String PubKey
  /-- The key wraps nil; calling one of its methods panics. -/
  empty : PubKey → Bool
  bytes : PubKey → Bytes
  address : PubKey → Address
  signatureFromBytes : Bytes → Except String Signature
  verifyBytes : PubKey → Bytes → Signature → Bool

/-- Different keys have different addresses, and a key is read back from its own bytes. -/
structure Sound {PubKey Signature Address : Type} (crypto : Crypto PubKey Signature Address) :
    Prop where
  address_injective : Function.Injective crypto.address
  fromBytes_bytes : ∀ pubKey, crypto.pubKeyFromBytes (crypto.bytes pubKey) = .ok pubKey

/-- Bytes that are the encoding of the key they are read as, which does not wrap nil. -/
def Canonical {PubKey Signature Address : Type} (crypto : Crypto PubKey Signature Address)
    (key : Bytes) : Prop :=
  ∃ pubKey, crypto.pubKeyFromBytes key = .ok pubKey ∧ crypto.empty pubKey = false ∧
    crypto.bytes pubKey = key

theorem Sound.bytes_injective {PubKey Signature Address : Type}
    {crypto : Crypto PubKey Signature Address} (hsound : Sound crypto) :
    Function.Injective crypto.bytes := by
  intro pubKey other hsame
  have hread := hsound.fromBytes_bytes pubKey
  rw [hsame, hsound.fromBytes_bytes other] at hread
  exact (Except.ok.inj hread).symm

def Codec.decodeString (codec : Codec) (s : String) : Except String Bytes :=
  match Hex.decode s with
  | some bytes => .ok bytes
  | none => .error (codec.hexError s)

def Codec.hex2Bytes (codec : Codec) (s : String) : Option Bytes :=
  match Hex.decode s with
  | some bytes => some bytes
  | none => codec.hexPrefix s

def Codec.fromHex (codec : Codec) (s : String) : Option Bytes :=
  if 1 < s.utf8ByteSize then
    let digits := match s.toList with
      | '0' :: 'x' :: rest => String.ofList rest
      | '0' :: 'X' :: rest => String.ofList rest
      | _ => s
    codec.hex2Bytes (if digits.utf8ByteSize % 2 = 1 then "0" ++ digits else digits)
  else none

section Parse

variable {PubKey Signature Address : Type} (codec : Codec)
  (crypto : Crypto PubKey Signature Address)

/-- `GenSignature`, without the text of its error. -/
def genSignature (sign : Bytes) : Option Signature := (crypto.signatureFromBytes sign).toOption

/-- `GenPubkey`, without the text of its errors. -/
def genPubkey (pub : String) : Option PubKey :=
  (Hex.decode pub).bind fun key ↦ (crypto.pubKeyFromBytes key).toOption

def verifySign (pub : String) (msg sign : Bytes) : Bool :=
  match genSignature crypto sign with
  | none => false
  | some signature =>
    match genPubkey crypto pub with
    | none => false
    | some pubKey => crypto.verifyBytes pubKey msg signature

/-- The first loop of `ParseValidatorTx`: every item names a public key. -/
def checkKeys : List Item → Except String Unit
  | [] => .ok ()
  | v :: rest =>
    match codec.decodeString v.pubKey with
    | .error error =>
      .error ("Error decoding validator pubkey: err=" ++ error ++ ", pubkey=" ++ v.pubKey)
    | .ok key =>
      match crypto.pubKeyFromBytes key with
      | .error error =>
        .error ("Error checking validator pubkey: err=" ++ error ++ ", pubkey=" ++ v.pubKey)
      | .ok _ => checkKeys rest

/-- `newPubKey`, the map with its keys in lower case. -/
def lowerKeys (pubkey : GoMap ℤ) : GoMap ℤ :=
  pubkey.entries.foldl (fun newPubKey entry ↦ newPubKey.insert (Hex.lower entry.1) entry.2) ∅

/-- The sum of all powers, as `int64`. -/
def totalPower (pubkey : GoMap ℤ) : ℤ := Int64.accumulate 0 (pubkey.entries.map Sigma.snd)

/-- By how much an item moves the power of a validator that has `current`, or of a new one. -/
def powerStep (current : Option ℤ) (power : ℤ) : ℤ :=
  match current with
  | none => power
  | some old =>
    let np := Int64.wrap (old - power)
    if np < 0 then Int64.wrap (-np) else np

def negativePower (power : ℤ) : String := "Power (" ++ toString power ++ ") overflows int64"

/-- The loop that adds up the change of voting power. -/
def changePower (newPubKey : GoMap ℤ) : ℤ → List Item → Except String ℤ
  | acc, [] => .ok acc
  | acc, v :: rest =>
    if v.power < 0 then .error (negativePower v.power)
    else
      let step := powerStep (newPubKey.lookup (Hex.lower v.pubKey)) v.power
      changePower newPubKey (Int64.wrap (acc + step)) rest

def decodeTx (data : String) : Except String ValidatorTx :=
  match codec.fromHex data with
  | none => .error "data error"
  | some databyte => codec.unmarshal databyte

/-- The change of voting power stays below one third of the total. -/
def checkChange (pubkey : GoMap ℤ) (txs : List Item) : Except String Unit := do
  let total := totalPower pubkey
  let threshold := (total * 1).tdiv 3
  let acc ← changePower (lowerKeys pubkey) 0 txs
  if threshold ≤ acc then
    .error ("the change in voting power must be strictly less than 1/3, changePower=" ++
      toString acc ++ ", threshold=" ++ toString threshold ++ ", totalPower=" ++ toString total)
  else .ok ()

/-- The part of `ParseValidatorTx` before the signatures: the transaction and its signed text. -/
def readTx (data : String) (pubkey : GoMap ℤ) : Except String (ValidatorTx × Bytes) :=
  if pubkey.entries.isEmpty then .error "pubkey list is empty"
  else do
    let txs ← decodeTx codec data
    checkKeys codec crypto txs.txs
    let txdata ← codec.marshal txs.txs
    checkChange pubkey txs.txs
    return (txs, txdata)

/-- Whether a signature of the transaction verifies under the key it is filed under. -/
def signs (txdata : Bytes) (pkey sign : String) : Bool :=
  verifySign crypto pkey txdata ((codec.fromHex sign).getD [])

/-- The signature loop: the power of the signing keys, until it exceeds `quorum`. -/
def tally (newPubKey : GoMap ℤ) (txdata : Bytes) (quorum : ℤ) :
    ℤ → List (Sigma fun _ : String ↦ String) → Bool
  | _, [] => false
  | signPower, ⟨pkey, sign⟩ :: rest =>
    match newPubKey.lookup (Hex.lower pkey) with
    | none => tally newPubKey txdata quorum signPower rest
    | some ipower =>
      if signs codec crypto txdata pkey sign then
        let signPower := Int64.wrap (signPower + ipower)
        if quorum < signPower then true else tally newPubKey txdata quorum signPower rest
      else tally newPubKey txdata quorum signPower rest

/-- `totalPower * 2 / 3`. -/
def twoThirds (total : ℤ) : ℤ := (Int64.wrap (total * 2)).tdiv 3

def parseValidatorTx (data : String) (pubkey : GoMap ℤ) : Except String ValidatorTx := do
  let (txs, txdata) ← readTx codec crypto data pubkey
  if tally codec crypto (lowerKeys pubkey) txdata (twoThirds (totalPower pubkey)) 0
      txs.sign.entries then
    .ok txs
  else .error "check sign error"

/-- `VerifySign` calls a method of a key that wraps nil. -/
def verifyPanics (pub : String) (sign : Bytes) : Bool :=
  (genSignature crypto sign).isSome && (genPubkey crypto pub).any crypto.empty

/-- The signature loop comes to a key that wraps nil. -/
def tallyPanics (newPubKey : GoMap ℤ) (txdata : Bytes) (quorum : ℤ) :
    ℤ → List (Sigma fun _ : String ↦ String) → Bool
  | _, [] => false
  | signPower, ⟨pkey, sign⟩ :: rest =>
    match newPubKey.lookup (Hex.lower pkey) with
    | none => tallyPanics newPubKey txdata quorum signPower rest
    | some ipower =>
      if verifyPanics crypto pkey ((codec.fromHex sign).getD []) then true
      else if signs codec crypto txdata pkey sign then
        let signPower := Int64.wrap (signPower + ipower)
        if quorum < signPower then false
        else tallyPanics newPubKey txdata quorum signPower rest
      else tallyPanics newPubKey txdata quorum signPower rest

/-- `ParseValidatorTx` does not return. -/
def parsePanics (data : String) (pubkey : GoMap ℤ) : Bool :=
  match readTx codec crypto data pubkey with
  | .error _ => false
  | .ok (txs, txdata) =>
    tallyPanics codec crypto (lowerKeys pubkey) txdata (twoThirds (totalPower pubkey)) 0
      txs.sign.entries

theorem lookup_lowerKeys {pubkey : GoMap ℤ} (hlower : ∀ key ∈ pubkey, Hex.lower key = key)
    (key : String) : (lowerKeys pubkey).lookup key = pubkey.lookup key := by
  have hentries : ∀ entry ∈ pubkey.entries, Hex.lower entry.1 = entry.1 :=
    fun entry hentry ↦ hlower entry.1 (List.mem_keys_of_mem hentry)
  have hkeys : pubkey.entries.map (fun entry ↦ Hex.lower entry.1) = pubkey.keys :=
    List.map_congr_left hentries
  have hnodup : (pubkey.entries.map fun entry ↦ Hex.lower entry.1).Nodup := by
    rw [hkeys]
    exact pubkey.keys_nodup
  ext value
  unfold lowerKeys
  rw [lookup_foldl_insert hnodup, AList.lookup_empty]
  constructor
  · intro hfound
    obtain ⟨entry, hentry, rfl, rfl⟩ := hfound.resolve_right fun h ↦ (by cases h.2)
    rw [hentries entry hentry]
    exact AList.mem_lookup_iff.mpr hentry
  · intro hfound
    have hentry := AList.mem_lookup_iff.mp hfound
    exact Or.inl ⟨_, hentry, hentries _ hentry, rfl⟩

/-- What is known of a transaction that has been read. -/
structure ReadsTo (pubkey : GoMap ℤ) (tx : ValidatorTx) (txdata : Bytes) : Prop where
  keys_checked : checkKeys codec crypto tx.txs = .ok ()
  signed : codec.marshal tx.txs = .ok txdata
  change_checked : checkChange pubkey tx.txs = .ok ()

variable {codec crypto} {data : String} {pubkey : GoMap ℤ} {tx : ValidatorTx}

theorem readTx_ok {txdata : Bytes}
    (hread : readTx codec crypto data pubkey = .ok (tx, txdata)) :
    ReadsTo codec crypto pubkey tx txdata := by
  unfold readTx at hread
  split at hread
  · cases hread
  · simp only [Results.bind_eq_ok_iff] at hread
    obtain ⟨txs, -, ⟨⟩, hkeys, signed, hmarshal, ⟨⟩, hchange, hpair⟩ := hread
    cases hpair
    exact ⟨hkeys, hmarshal, hchange⟩

theorem decodeTx_of_readTx {txdata : Bytes}
    (hread : readTx codec crypto data pubkey = .ok (tx, txdata)) :
    decodeTx codec data = .ok tx := by
  unfold readTx at hread
  split at hread
  · cases hread
  · rw [Results.bind_eq_ok_iff] at hread
    obtain ⟨txs, hdecode, hrest⟩ := hread
    simp only [Results.bind_eq_ok_iff] at hrest
    obtain ⟨⟨⟩, -, signed, -, ⟨⟩, -, hpair⟩ := hrest
    cases hpair
    exact hdecode

/-- A parsed transaction has been read, and its signatures have passed the loop. -/
theorem parseValidatorTx_ok_iff :
    parseValidatorTx codec crypto data pubkey = .ok tx ↔
      ∃ txdata, readTx codec crypto data pubkey = .ok (tx, txdata) ∧
        tally codec crypto (lowerKeys pubkey) txdata (twoThirds (totalPower pubkey)) 0
          tx.sign.entries = true := by
  unfold parseValidatorTx
  rw [Results.bind_eq_ok_iff]
  constructor
  · intro ⟨⟨txs, txdata⟩, hread, haccept⟩
    dsimp only at haccept
    split at haccept
    next htally =>
      cases haccept
      exact ⟨txdata, hread, htally⟩
    next => cases haccept
  · intro ⟨txdata, hread, htally⟩
    exact ⟨(tx, txdata), hread, if_pos htally⟩

/-- Where a list can be cut at an element: at its head or further on. -/
theorem exists_cut_cons {Element : Type} {head : Element} {rest : List Element}
    {property : List Element → Element → Prop} :
    (∃ before element after, head :: rest = before ++ element :: after ∧ property before element) ↔
      property [] head ∨ ∃ before element after,
        rest = before ++ element :: after ∧ property (head :: before) element := by
  constructor
  · intro ⟨before, element, after, hcut, hproperty⟩
    cases before with
    | nil =>
      cases hcut
      exact Or.inl hproperty
    | cons first before =>
      cases hcut
      exact Or.inr ⟨before, element, after, rfl, hproperty⟩
  · intro hcut
    cases hcut with
    | inl hproperty => exact ⟨[], head, rest, rfl, hproperty⟩
    | inr htail =>
      obtain ⟨before, element, after, rfl, hproperty⟩ := htail
      exact ⟨head :: before, element, after, rfl, hproperty⟩

/-- A signature filed under the key of a validator makes `VerifySign` panic. -/
def PanickingEntry (codec : Codec) (crypto : Crypto PubKey Signature Address)
    (newPubKey : GoMap ℤ) (entry : Sigma fun _ : String ↦ String) : Prop :=
  (newPubKey.lookup (Hex.lower entry.1)).isSome = true ∧
    verifyPanics crypto entry.1 ((codec.fromHex entry.2).getD []) = true

/-- The loop panics when such a signature comes before the quorum is complete. -/
theorem tallyPanics_iff {newPubKey : GoMap ℤ} {txdata : Bytes} {quorum signPower : ℤ}
    {entries : List (Sigma fun _ : String ↦ String)} :
    tallyPanics codec crypto newPubKey txdata quorum signPower entries = true ↔
      ∃ before entry after, entries = before ++ entry :: after ∧
        tally codec crypto newPubKey txdata quorum signPower before = false ∧
        PanickingEntry codec crypto newPubKey entry := by
  unfold PanickingEntry
  induction entries generalizing signPower with
  | nil => simp [tallyPanics]
  | cons entry rest ih =>
    rw [exists_cut_cons]
    unfold tallyPanics
    simp only [tally]
    cases hholder : newPubKey.lookup (Hex.lower entry.1) with
    | none => simp [ih]
    | some ipower =>
      cases hpanics : verifyPanics crypto entry.1 ((codec.fromHex entry.2).getD []) with
      | true => simp
      | false =>
        cases hsigns : signs codec crypto txdata entry.1 entry.2 with
        | false => simp [ih]
        | true =>
          by_cases hquorum : quorum < Int64.wrap (signPower + ipower)
          · simp [hquorum]
          · simp [hquorum, ih]

/-- The transaction can be read, and a signature under an empty key of a validator comes before the
signatures that complete the quorum. -/
def Unverifiable (codec : Codec) (crypto : Crypto PubKey Signature Address) (data : String)
    (pubkey : GoMap ℤ) : Prop :=
  ∃ tx txdata, readTx codec crypto data pubkey = .ok (tx, txdata) ∧
    ∃ before entry after, tx.sign.entries = before ++ entry :: after ∧
      tally codec crypto (lowerKeys pubkey) txdata (twoThirds (totalPower pubkey)) 0 before =
        false ∧
      PanickingEntry codec crypto (lowerKeys pubkey) entry

theorem parsePanics_iff :
    parsePanics codec crypto data pubkey = true ↔ Unverifiable codec crypto data pubkey := by
  unfold parsePanics Unverifiable
  cases hread : readTx codec crypto data pubkey with
  | error error => simp
  | ok result =>
    dsimp only
    rw [tallyPanics_iff]
    constructor
    · exact fun hpanics ↦ ⟨result.1, result.2, rfl, hpanics⟩
    · intro ⟨tx, txdata, hresult, hpanics⟩
      cases hresult
      exact hpanics

/-- The new power that an item gives to a public key. -/
def Item.pair (item : Item) : Bytes × ℤ := ((Hex.decode item.pubKey).getD [], item.power)

/-- Every item of a checked list names a key that the library accepts. -/
theorem checkKeys_ok {txs : List Item} (hchecked : checkKeys codec crypto txs = .ok ()) :
    ∀ item ∈ txs, Hex.decode item.pubKey = some item.pair.1 ∧
      ∃ pubKey, crypto.pubKeyFromBytes item.pair.1 = .ok pubKey := by
  induction txs with
  | nil => exact fun item hitem ↦ absurd hitem List.not_mem_nil
  | cons v rest ih =>
    unfold checkKeys Codec.decodeString at hchecked
    cases hdecode : Hex.decode v.pubKey with
    | none => simp [hdecode] at hchecked
    | some key =>
      cases hkey : crypto.pubKeyFromBytes key with
      | error error => simp [hdecode, hkey] at hchecked
      | ok pubKey =>
        simp only [hdecode, hkey] at hchecked
        intro item hitem
        cases List.mem_cons.mp hitem with
        | inl hhead =>
          subst hhead
          simp only [Item.pair, hdecode, Option.getD_some, true_and]
          exact ⟨pubKey, hkey⟩
        | inr hrest => exact ih hchecked item hrest

theorem changePower_ok {newPubKey : GoMap ℤ} {acc change : ℤ} {txs : List Item}
    (hchange : changePower newPubKey acc txs = .ok change) :
    (∀ item ∈ txs, 0 ≤ item.power) ∧
      change = Int64.accumulate acc
        (txs.map fun item ↦ powerStep (newPubKey.lookup (Hex.lower item.pubKey)) item.power) := by
  induction txs generalizing acc with
  | nil =>
    cases hchange
    exact ⟨fun item hitem ↦ absurd hitem List.not_mem_nil, rfl⟩
  | cons v rest ih =>
    unfold changePower at hchange
    split at hchange
    next => cases hchange
    next hnonneg =>
      obtain ⟨htail, hsum⟩ := ih hchange
      refine ⟨?_, hsum⟩
      intro item hitem
      cases List.mem_cons.mp hitem with
      | inl hhead => exact hhead ▸ not_lt.mp hnonneg
      | inr hrest => exact htail item hrest

end Parse

/-! ## A library to compute with -/

/-- A codec that reads a single byte as the transaction of that number. -/
def sampleCodec (txs : List ValidatorTx) : Codec where
  unmarshal bytes := match bytes with
    | [number] => match txs[number.toNat]? with
      | some tx => .ok tx
      | none => .error "unknown number"
    | _ => .error "not one byte"
  marshal _ := .ok []
  hexPrefix _ := none
  hexError _ := ""

/-- Keys of one byte, read without regard to what follows; a key is its own signature. -/
def sampleCrypto : Crypto UInt8 UInt8 ℕ where
  pubKeyFromBytes bytes := match bytes with
    | [] => .error "no key"
    | key :: _ => .ok key
  empty key := decide (key = 0)
  bytes key := [key]
  address key := key.toNat
  signatureFromBytes bytes := match bytes with
    | [signature] => .ok signature
    | _ => .error "no signature"
  verifyBytes key _ signature := decide (key = signature)

/-- A map with the given entries. -/
def goMap {Value : Type} (entries : List (String × Value)) : GoMap Value :=
  entries.foldr (fun entry m ↦ m.insert entry.1 entry.2) ∅

end LkChain.Validators.ParseTx
