import LkChain.Validators.ParseTx
import Mathlib.Algebra.BigOperators.Ring.Finset
import Mathlib.Algebra.Order.BigOperators.Group.Finset
import Mathlib.Algebra.Order.Ring.Int

/-!
# The quorum behind a validator transaction

`ParseValidatorTx` looks every key of `Sign` up in lower case, so a validator is counted once for
each spelling of its key that the transaction carries. The accepted power is therefore a weighted
count of spellings, and it is the power of a set of validators only when the repeated spellings do
not decide the vote.
-/

namespace LkChain.Validators.Quorum

open Foundation ParseTx

/-- The power of a key, zero for a stranger. -/
def power (pubkey : GoMap ℤ) (key : String) : ℤ := (pubkey.lookup key).getD 0

/-- The integer sum of all powers. -/
def total (pubkey : GoMap ℤ) : ℤ := (pubkey.entries.map Sigma.snd).sum

/-- The keys that hold power. -/
def holders (pubkey : GoMap ℤ) : Finset String := pubkey.keys.toFinset

/-- Lower-case hexadecimal keys with non-negative powers, whose doubled sum fits `int64`. -/
structure Electorate (pubkey : GoMap ℤ) : Prop where
  encoded : ∀ key ∈ pubkey, ∃ bytes, key = Hex.encode bytes
  nonneg : ∀ entry ∈ pubkey.entries, 0 ≤ entry.2
  fits : 2 * total pubkey < 2 ^ 63

/-! ## The electorate -/

section Electorate

variable {pubkey : GoMap ℤ} {key : String}

theorem Electorate.lower_eq (helectorate : Electorate pubkey) (hkey : key ∈ pubkey) :
    Hex.lower key = key := by
  obtain ⟨bytes, rfl⟩ := helectorate.encoded key hkey
  exact Hex.lower_encode bytes

theorem Electorate.power_mem (helectorate : Electorate pubkey) {value : ℤ}
    (hvalue : pubkey.lookup key = some value) : 0 ≤ value ∧ value ≤ total pubkey := by
  have hmem : (⟨key, value⟩ : Sigma fun _ : String ↦ ℤ) ∈ pubkey.entries :=
    AList.mem_lookup_iff.mp hvalue
  refine ⟨helectorate.nonneg _ hmem, ?_⟩
  apply List.single_le_sum
  · intro entry hentry
    obtain ⟨source, hsource, rfl⟩ := List.mem_map.mp hentry
    exact helectorate.nonneg source hsource
  · exact List.mem_map.mpr ⟨_, hmem, rfl⟩

theorem Electorate.power_nonneg (helectorate : Electorate pubkey) (key : String) :
    0 ≤ power pubkey key := by
  unfold power
  cases hvalue : pubkey.lookup key with
  | none => exact le_rfl
  | some value => exact (helectorate.power_mem hvalue).1

theorem Electorate.total_nonneg (helectorate : Electorate pubkey) : 0 ≤ total pubkey := by
  apply List.sum_nonneg
  intro value hvalue
  obtain ⟨entry, hentry, rfl⟩ := List.mem_map.mp hvalue
  exact helectorate.nonneg entry hentry

theorem Electorate.totalPower_eq (helectorate : Electorate pubkey) :
    totalPower pubkey = total pubkey := by
  have hfits := helectorate.fits
  have hnonneg := helectorate.total_nonneg
  unfold totalPower
  rw [Int64.accumulate_eq, zero_add]
  · rfl
  · intro value hvalue
    obtain ⟨entry, hentry, rfl⟩ := List.mem_map.mp hvalue
    exact helectorate.nonneg entry hentry
  · exact le_rfl
  · change 0 + total pubkey < 2 ^ 63
    omega

theorem Electorate.twoThirds_eq (helectorate : Electorate pubkey) :
    twoThirds (totalPower pubkey) = 2 * total pubkey / 3 := by
  have hfits := helectorate.fits
  have hnonneg := helectorate.total_nonneg
  unfold twoThirds
  rw [helectorate.totalPower_eq, Int64.wrap_of_fits (by omega) (by omega),
    Int.tdiv_eq_ediv_of_nonneg (by omega), mul_comm]

end Electorate

/-! ## Counting signatures -/

section Votes

variable {PubKey Signature Address : Type} (codec : Codec)
  (crypto : Crypto PubKey Signature Address) (pubkey : GoMap ℤ) (txdata : Bytes)

/-- The power that the signature loop adds for one entry of `Sign`. -/
def vote (entry : Sigma fun _ : String ↦ String) : Option ℤ :=
  if signs codec crypto txdata entry.1 entry.2 then pubkey.lookup (Hex.lower entry.1) else none

/-- The powers that the signature loop adds up, in its order. -/
def votes (entries : List (Sigma fun _ : String ↦ String)) : List ℤ :=
  entries.filterMap (vote codec crypto pubkey txdata)

/-- How many entries of `Sign` are filed under a spelling of `key` and verify. -/
def spellings (entries : List (Sigma fun _ : String ↦ String)) (key : String) : ℕ :=
  entries.countP fun entry ↦
    decide (Hex.lower entry.1 = key) && signs codec crypto txdata entry.1 entry.2

/-- Every holder's power, once for each verified spelling. -/
def counted (entries : List (Sigma fun _ : String ↦ String)) : ℤ :=
  ∑ key ∈ holders pubkey, spellings codec crypto txdata entries key * power pubkey key

/-- The holders with at least one verified spelling. -/
def signers (entries : List (Sigma fun _ : String ↦ String)) : Finset String :=
  {key ∈ holders pubkey | spellings codec crypto txdata entries key ≠ 0}

theorem tally_eq_reaches (quorum signPower : ℤ)
    (entries : List (Sigma fun _ : String ↦ String)) :
    tally codec crypto pubkey txdata quorum signPower entries =
      Int64.reaches (quorum + 1) signPower (votes codec crypto pubkey txdata entries) := by
  induction entries generalizing signPower with
  | nil => rfl
  | cons entry rest ih =>
    obtain ⟨pkey, sign⟩ := entry
    unfold votes at ih ⊢
    rw [tally, List.filterMap_cons, vote]
    cases hsigns : signs codec crypto txdata pkey sign with
    | false => cases pubkey.lookup (Hex.lower pkey) <;> simp [ih]
    | true =>
      cases pubkey.lookup (Hex.lower pkey) with
      | none => simp [ih]
      | some ipower =>
        have hbound : quorum + 1 ≤ Int64.wrap (signPower + ipower) ↔
            quorum < Int64.wrap (signPower + ipower) := Int.add_one_le_iff
        simp only [if_true, Int64.reaches, hbound, ih]
        by_cases hquorum : quorum < Int64.wrap (signPower + ipower) <;> simp [hquorum]

theorem counted_cons (entry : Sigma fun _ : String ↦ String)
    (rest : List (Sigma fun _ : String ↦ String)) :
    counted codec crypto pubkey txdata (entry :: rest) =
      counted codec crypto pubkey txdata rest +
        (vote codec crypto pubkey txdata entry).getD 0 := by
  have hone : ∀ key, (spellings codec crypto txdata (entry :: rest) key : ℤ) * power pubkey key =
      spellings codec crypto txdata rest key * power pubkey key +
        if Hex.lower entry.1 = key then
          (if signs codec crypto txdata entry.1 entry.2 then power pubkey key else 0) else 0 := by
    intro key
    unfold spellings
    rw [List.countP_cons]
    by_cases hkey : Hex.lower entry.1 = key
    · by_cases hsigns : signs codec crypto txdata entry.1 entry.2 = true
      · simp [hkey, hsigns, add_mul]
      · simp [hkey, hsigns]
    · simp [hkey]
  unfold counted
  rw [Finset.sum_congr rfl fun key _ ↦ hone key, Finset.sum_add_distrib, Finset.sum_ite_eq]
  congr 1
  unfold vote
  by_cases hsigns : signs codec crypto txdata entry.1 entry.2 = true
  · by_cases hholder : Hex.lower entry.1 ∈ holders pubkey
    · simp [hsigns, hholder, power]
    · have habsent : pubkey.lookup (Hex.lower entry.1) = none :=
        AList.lookup_eq_none.mpr fun hmem ↦ hholder (List.mem_toFinset.mpr hmem)
      simp [hsigns, hholder, habsent]
  · simp [hsigns]

theorem sum_votes (entries : List (Sigma fun _ : String ↦ String)) :
    (votes codec crypto pubkey txdata entries).sum =
      counted codec crypto pubkey txdata entries := by
  induction entries with
  | nil => simp [votes, counted, spellings]
  | cons entry rest ih =>
    rw [counted_cons, ← ih]
    unfold votes
    rw [List.filterMap_cons]
    cases vote codec crypto pubkey txdata entry with
    | none => simp
    | some value => simp [add_comm]

variable {codec crypto pubkey txdata}

theorem vote_mem (helectorate : Electorate pubkey) {entries : List (Sigma fun _ : String ↦ String)}
    {value : ℤ} (hvalue : value ∈ votes codec crypto pubkey txdata entries) :
    0 ≤ value ∧ value ≤ total pubkey := by
  obtain ⟨entry, -, hvote⟩ := List.mem_filterMap.mp hvalue
  unfold vote at hvote
  split at hvote
  · exact helectorate.power_mem hvote
  · cases hvote

theorem tally_congr {left right : GoMap ℤ} (hlookup : ∀ key, left.lookup key = right.lookup key)
    (quorum signPower : ℤ) (entries : List (Sigma fun _ : String ↦ String)) :
    tally codec crypto left txdata quorum signPower entries =
      tally codec crypto right txdata quorum signPower entries := by
  rw [tally_eq_reaches, tally_eq_reaches]
  unfold votes vote
  simp only [hlookup]

/-- The signature loop accepts exactly when the spellings carry more than two thirds. -/
theorem tally_iff (helectorate : Electorate pubkey)
    (entries : List (Sigma fun _ : String ↦ String)) :
    tally codec crypto (lowerKeys pubkey) txdata (twoThirds (totalPower pubkey)) 0 entries = true ↔
      2 * total pubkey / 3 < counted codec crypto pubkey txdata entries := by
  have hfits := helectorate.fits
  have hnonneg := helectorate.total_nonneg
  rw [tally_congr (lookup_lowerKeys fun _ hkey ↦ helectorate.lower_eq hkey), tally_eq_reaches,
    helectorate.twoThirds_eq, Int64.reaches_iff, sum_votes, zero_add, Int.add_one_le_iff]
  · exact fun value hvalue ↦ (vote_mem helectorate hvalue).1
  · intro value hvalue
    have hle := (vote_mem helectorate hvalue).2
    omega
  · exact le_rfl
  · omega

end Votes

/-! ## Who authorised a transaction -/

section Authorisation

variable {PubKey Signature Address : Type} {codec : Codec}
  {crypto : Crypto PubKey Signature Address} {pubkey : GoMap ℤ}

/-- A set of holders, different as public keys, each with a valid signature over the text of the
transaction, with more than two thirds of the power. -/
structure Authorises (codec : Codec) (crypto : Crypto PubKey Signature Address)
    (pubkey : GoMap ℤ) (tx : ValidatorTx) (txdata : Bytes) (quorum : Finset String) : Prop where
  holders : ∀ key ∈ quorum, key ∈ pubkey
  distinct : ∀ key ∈ quorum, ∀ other ∈ quorum, Hex.decode key = Hex.decode other → key = other
  signed : ∀ key ∈ quorum, ∃ spelling sign, tx.sign.lookup spelling = some sign ∧
    Hex.decode spelling = Hex.decode key ∧ signs codec crypto txdata key sign = true
  power_gt : 2 * total pubkey / 3 < ∑ key ∈ quorum, power pubkey key

theorem signs_congr {txdata : Bytes} {left right : String}
    (hdecode : Hex.decode left = Hex.decode right) (sign : String) :
    signs codec crypto txdata left sign = signs codec crypto txdata right sign := by
  unfold signs verifySign genPubkey
  rw [hdecode]

/-- A spelling of a holder's key is a string with that lower case. -/
theorem Electorate.decode_eq_iff (helectorate : Electorate pubkey) {key spelling : String}
    (hkey : key ∈ pubkey) : Hex.decode spelling = Hex.decode key ↔ Hex.lower spelling = key := by
  obtain ⟨bytes, rfl⟩ := helectorate.encoded key hkey
  rw [Hex.decode_encode, Hex.decode_eq_some_iff]

theorem spellings_ne_zero_iff {txdata : Bytes} {key : String}
    {entries : List (Sigma fun _ : String ↦ String)} :
    spellings codec crypto txdata entries key ≠ 0 ↔
      ∃ entry ∈ entries, Hex.lower entry.1 = key ∧
        signs codec crypto txdata entry.1 entry.2 = true := by
  unfold spellings
  rw [← Nat.pos_iff_ne_zero, List.countP_pos_iff]
  simp only [Bool.and_eq_true, decide_eq_true_eq]

/-- The holders with a verified spelling are the largest set that could authorise. -/
theorem exists_authorises_iff (helectorate : Electorate pubkey) (tx : ValidatorTx)
    (txdata : Bytes) :
    (∃ quorum, Authorises codec crypto pubkey tx txdata quorum) ↔
      2 * total pubkey / 3 <
        ∑ key ∈ signers codec crypto pubkey txdata tx.sign.entries, power pubkey key := by
  constructor
  · intro ⟨quorum, hquorum⟩
    apply lt_of_lt_of_le hquorum.power_gt
    apply Finset.sum_le_sum_of_subset_of_nonneg
    · intro key hkey
      obtain ⟨spelling, sign, hsign, hdecode, hsigns⟩ := hquorum.signed key hkey
      have hholder := hquorum.holders key hkey
      rw [← signs_congr hdecode] at hsigns
      apply Finset.mem_filter.mpr
      refine ⟨List.mem_toFinset.mpr hholder, spellings_ne_zero_iff.mpr ?_⟩
      exact ⟨⟨spelling, sign⟩, AList.mem_lookup_iff.mp hsign,
        (helectorate.decode_eq_iff hholder).mp hdecode, hsigns⟩
    · exact fun key _ _ ↦ helectorate.power_nonneg key
  · intro hpower
    refine ⟨signers codec crypto pubkey txdata tx.sign.entries, ?_, ?_, ?_, hpower⟩
    · exact fun key hkey ↦ List.mem_toFinset.mp (Finset.mem_filter.mp hkey).1
    · intro key hkey other hother hdecode
      have hkey := List.mem_toFinset.mp (Finset.mem_filter.mp hkey).1
      have hother := List.mem_toFinset.mp (Finset.mem_filter.mp hother).1
      rw [← helectorate.lower_eq hkey]
      exact (helectorate.decode_eq_iff hother).mp hdecode
    · intro key hkey
      obtain ⟨hholder, hspelling⟩ := Finset.mem_filter.mp hkey
      obtain ⟨⟨spelling, sign⟩, hentry, hlower, hsigns⟩ := spellings_ne_zero_iff.mp hspelling
      have hdecode := (helectorate.decode_eq_iff (List.mem_toFinset.mp hholder)).mpr hlower
      refine ⟨spelling, sign, AList.mem_lookup_iff.mpr hentry, hdecode, ?_⟩
      rwa [← signs_congr hdecode]

theorem counted_of_spellings_le_one {txdata : Bytes}
    {entries : List (Sigma fun _ : String ↦ String)}
    (hsingle : ∀ key ∈ holders pubkey, spellings codec crypto txdata entries key ≤ 1) :
    counted codec crypto pubkey txdata entries =
      ∑ key ∈ signers codec crypto pubkey txdata entries, power pubkey key := by
  unfold counted signers
  rw [Finset.sum_filter]
  apply Finset.sum_congr rfl
  intro key hkey
  have hle := hsingle key hkey
  split
  next hsigned =>
    have hone : spellings codec crypto txdata entries key = 1 := by omega
    rw [hone, Nat.cast_one, one_mul]
  next hunsigned =>
    rw [not_not.mp hunsigned, Nat.cast_zero, zero_mul]

/-- A parsed transaction is authorised by a quorum, if and only if no transaction reaches two thirds
by the repeated spellings of its signers alone. In particular it is authorised when no holder's key
is spelled twice. -/
theorem parseValidatorTx_authorised_iff (codec : Codec)
    (crypto : Crypto PubKey Signature Address) (data : String) (pubkey : GoMap ℤ)
    (helectorate : Electorate pubkey) :
    ((∀ tx, parseValidatorTx codec crypto data pubkey = .ok tx →
        ∃ txdata, codec.marshal tx.txs = .ok txdata ∧
          ∃ quorum, Authorises codec crypto pubkey tx txdata quorum) ↔
      ∀ tx txdata, readTx codec crypto data pubkey = .ok (tx, txdata) →
        2 * total pubkey / 3 < counted codec crypto pubkey txdata tx.sign.entries →
          2 * total pubkey / 3 <
            ∑ key ∈ signers codec crypto pubkey txdata tx.sign.entries, power pubkey key) ∧
    ((∀ tx txdata, readTx codec crypto data pubkey = .ok (tx, txdata) →
        ∀ key ∈ holders pubkey, spellings codec crypto txdata tx.sign.entries key ≤ 1) →
      ∀ tx, parseValidatorTx codec crypto data pubkey = .ok tx →
        ∃ txdata, codec.marshal tx.txs = .ok txdata ∧
          ∃ quorum, Authorises codec crypto pubkey tx txdata quorum) := by
  simp only [exists_authorises_iff helectorate, parseValidatorTx_ok_iff, tally_iff helectorate]
  constructor
  · constructor
    · intro hauthorised tx txdata hread hcounted
      obtain ⟨signed, hsigned, hpower⟩ := hauthorised tx ⟨txdata, hread, hcounted⟩
      have hsame : txdata = signed := by
        have hmarshal := (readTx_ok hread).signed
        rw [hsigned] at hmarshal
        exact (Except.ok.inj hmarshal).symm
      rwa [hsame]
    · intro hdecided tx ⟨txdata, hread, hcounted⟩
      exact ⟨txdata, (readTx_ok hread).signed, hdecided tx txdata hread hcounted⟩
  · intro hsingle tx ⟨txdata, hread, hcounted⟩
    refine ⟨txdata, (readTx_ok hread).signed, ?_⟩
    rwa [← counted_of_spellings_le_one (hsingle tx txdata hread)]

end Authorisation

/-- Three validators of power ten. -/
def threeValidators : GoMap ℤ := goMap [("aa", 10), ("bb", 10), ("cc", 10)]

theorem electorate_threeValidators : Electorate threeValidators where
  encoded := by
    intro key hkey
    have hkeys : key ∈ ["aa", "bb", "cc"] := hkey
    simp only [List.mem_cons, List.not_mem_nil, or_false] at hkeys
    rcases hkeys with rfl | rfl | rfl
    · exact ⟨[0xaa], by decide⟩
    · exact ⟨[0xbb], by decide⟩
    · exact ⟨[0xcc], by decide⟩
  nonneg := by decide
  fits := by decide

/-- All three validators give the first one five more votes. -/
def jointTx : ValidatorTx where
  txs := [{ cmd := "", pubKey := "aa", power := 15, name := "" }]
  sign := goMap [("aa", "0xaa"), ("bb", "0xbb"), ("cc", "0xcc")]

theorem parseValidatorTx_jointTx_authorised :
    parseValidatorTx (sampleCodec [jointTx]) sampleCrypto "0x00" threeValidators = .ok jointTx ∧
      ∃ txdata, (sampleCodec [jointTx]).marshal jointTx.txs = .ok txdata ∧
        ∃ quorum, Authorises (sampleCodec [jointTx]) sampleCrypto threeValidators jointTx txdata
          quorum := by
  have hparse : parseValidatorTx (sampleCodec [jointTx]) sampleCrypto "0x00" threeValidators =
      .ok jointTx := rfl
  refine ⟨hparse, (parseValidatorTx_authorised_iff (sampleCodec [jointTx]) sampleCrypto "0x00"
    threeValidators electorate_threeValidators).2 ?_ jointTx hparse⟩
  intro tx txdata hread
  have hpair : (jointTx, []) = (tx, txdata) := Except.ok.inj hread
  cases hpair
  decide

/-- The first validator alone gives itself five more votes, with three spellings of its key. -/
def spelledTx : ValidatorTx where
  txs := [{ cmd := "", pubKey := "aa", power := 15, name := "" }]
  sign := goMap [("aa", "0xaa"), ("aA", "0xaa"), ("AA", "0xaa")]

theorem parseValidatorTx_spelledTx_unauthorised :
    parseValidatorTx (sampleCodec [spelledTx]) sampleCrypto "0x00" threeValidators = .ok spelledTx ∧
      ¬ ∃ txdata, (sampleCodec [spelledTx]).marshal spelledTx.txs = .ok txdata ∧
        ∃ quorum, Authorises (sampleCodec [spelledTx]) sampleCrypto threeValidators spelledTx txdata
          quorum := by
  refine ⟨rfl, ?_⟩
  intro ⟨txdata, hmarshal, hauthorised⟩
  cases Except.ok.inj hmarshal
  rw [exists_authorises_iff electorate_threeValidators] at hauthorised
  revert hauthorised
  decide

end LkChain.Validators.Quorum
