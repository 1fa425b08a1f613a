import LkChain.Validators.TxBased

/-!
# Measuring the change of voting power

The change a validator transaction asks for is bounded three times: by `ParseValidatorTx` against a
map of hexadecimal keys, by the strategy against its slice, and by the consensus engine against its
sorted set. Each adds 64-bit distances in a loop of its own. As long as the sums fit, all three
measure the drift of one roster.
-/

namespace LkChain.Validators.VotingPower

open Foundation ParseTx TxBased

/-- Non-negative powers whose sum fits `int64`. -/
structure Sized (pairs : List (Bytes × ℤ)) : Prop where
  nonneg : ∀ pair ∈ pairs, 0 ≤ pair.2
  total_lt : Roster.total pairs < 2 ^ 63

section Sized

variable {pairs : List (Bytes × ℤ)} {table : Roster.Table Bytes}

theorem Sized.powers_nonneg (hsized : Sized pairs) : ∀ power ∈ pairs.map Prod.snd, 0 ≤ power := by
  intro power hpower
  obtain ⟨pair, hpair, rfl⟩ := List.mem_map.mp hpower
  exact hsized.nonneg pair hpair

theorem Sized.total_nonneg (hsized : Sized pairs) : 0 ≤ Roster.total pairs :=
  List.sum_nonneg hsized.powers_nonneg

theorem Sized.third_eq (hsized : Sized pairs) :
    (Roster.total pairs * 1).tdiv 3 = Roster.total pairs / 3 := by
  rw [mul_one, Int.tdiv_eq_ediv_of_nonneg hsized.total_nonneg]

theorem Sized.third_le (hsized : Sized pairs) :
    (Roster.total pairs * 1).tdiv 3 ≤ 2 ^ 63 := by
  have htotal := hsized.total_lt
  have hnonneg := hsized.total_nonneg
  rw [hsized.third_eq]
  omega

theorem Sized.power_range (hsized : Sized pairs) (hpairs : Roster.Represents pairs table)
    {key : Bytes} {power : ℤ} (hpower : table key = some power) : 0 ≤ power ∧ power < 2 ^ 63 := by
  have hpair := (hpairs.mem_iff key power).mpr hpower
  refine ⟨hsized.nonneg _ hpair, lt_of_le_of_lt ?_ hsized.total_lt⟩
  exact List.single_le_sum hsized.powers_nonneg power (List.mem_map.mpr ⟨_, hpair, rfl⟩)

theorem powerStep_of_range {current : Option ℤ} {power : ℤ}
    (hcurrent : ∀ old, current = some old → 0 ≤ old ∧ old < 2 ^ 63) (hpower : 0 ≤ power)
    (hfits : power < 2 ^ 63) : powerStep current power = Roster.shift current power := by
  cases current with
  | none => rfl
  | some old =>
    obtain ⟨hold, holdfits⟩ := hcurrent old rfl
    have hwrap : Int64.wrap (old - power) = old - power :=
      Int64.wrap_of_fits (by omega) (by omega)
    unfold powerStep Roster.shift
    dsimp only
    rw [hwrap]
    split
    next hneg => rw [Int64.wrap_of_fits (by omega) (by omega), abs_of_neg hneg]
    next hpos => rw [abs_of_nonneg (not_lt.mp hpos)]

theorem powerStep_eq_shift (hsized : Sized pairs) (hpairs : Roster.Represents pairs table)
    (key : Bytes) {power : ℤ} (hpower : 0 ≤ power) (hfits : power < 2 ^ 63) :
    powerStep (table key) power = Roster.shift (table key) power :=
  powerStep_of_range (fun _ hcurrent ↦ hsized.power_range hpairs hcurrent) hpower hfits

theorem sum_powerStep (hsized : Sized pairs) (hpairs : Roster.Represents pairs table)
    {items : List (Bytes × ℤ)} (hitems : ∀ item ∈ items, 0 ≤ item.2 ∧ item.2 < 2 ^ 63) :
    (items.map fun item ↦ powerStep (table item.1) item.2) =
      items.map fun item ↦ Roster.shift (table item.1) item.2 := by
  apply List.map_congr_left
  intro item hitem
  exact powerStep_eq_shift hsized hpairs item.1 (hitems item hitem).1 (hitems item hitem).2

theorem shifts_nonneg {items : List (Bytes × ℤ)} (hitems : ∀ item ∈ items, 0 ≤ item.2) :
    ∀ step ∈ items.map (fun item ↦ Roster.shift (table item.1) item.2), 0 ≤ step := by
  intro step hstep
  obtain ⟨item, hitem, rfl⟩ := List.mem_map.mp hstep
  exact Roster.shift_nonneg (hitems item hitem)

end Sized

/-! ## The loop that stops at a third -/

/-- The loop of the strategy and of the consensus engine asks whether a partial sum reaches the
threshold. -/
theorem changeLoop_eq {Error : Type} {find : Validator → Except Error (Option ℤ)}
    {negative : ℤ → Error} {threshold acc : ℤ} {updates : List Validator}
    {table : Roster.Table Bytes} (hfind : ∀ v ∈ updates, find v = .ok (table v.pubKey))
    (hnonneg : ∀ v ∈ updates, 0 ≤ v.power) :
    changeLoop find negative threshold acc updates = .ok (Int64.reaches threshold acc
      (updates.map fun v ↦ powerStep (table v.pubKey) v.power)) := by
  induction updates generalizing acc with
  | nil => rfl
  | cons v rest ih =>
    have htail (next : ℤ) : changeLoop find negative threshold next rest =
        .ok (Int64.reaches threshold next
          (rest.map fun v ↦ powerStep (table v.pubKey) v.power)) :=
      ih (fun v hv ↦ hfind v (List.mem_cons_of_mem _ hv))
        fun v hv ↦ hnonneg v (List.mem_cons_of_mem _ hv)
    have hhead : ¬ v.power < 0 := not_lt.mpr (hnonneg v List.mem_cons_self)
    rw [changeLoop, hfind v List.mem_cons_self, List.map_cons, Int64.reaches]
    dsimp only
    rw [if_neg hhead]
    split
    next hstop => simp [hstop]
    next hgo => simp [htail, hgo]

theorem find_of_changeLoop {Error : Type} {find : Validator → Except Error (Option ℤ)}
    {negative : ℤ → Error} {threshold acc : ℤ} {updates : List Validator}
    (hchange : changeLoop find negative threshold acc updates = .ok false) :
    ∀ v ∈ updates, ∃ current, find v = .ok current := by
  induction updates generalizing acc with
  | nil => exact fun v hv ↦ absurd hv List.not_mem_nil
  | cons v rest ih =>
    rw [changeLoop] at hchange
    split at hchange
    next => cases hchange
    next current hfind =>
      rw [Results.ite_error_eq_ok_iff] at hchange
      obtain ⟨-, hchange⟩ := hchange
      split at hchange
      next => cases hchange
      next => exact List.forall_mem_cons.mpr ⟨⟨current, hfind⟩, ih hchange⟩

section Drift

variable {pairs : List (Bytes × ℤ)} {table : Roster.Table Bytes}

/-- The loop that both sides have lets these items pass: no sum of a beginning of them, taken modulo
`2 ^ 64`, is a third of the total, taken in the same way. -/
def BelowThird (pairs : List (Bytes × ℤ)) (table : Roster.Table Bytes)
    (items : List (Bytes × ℤ)) : Prop :=
  Int64.reaches ((Int64.wrap (Roster.total pairs) * 1).tdiv 3) 0
    (items.map fun item ↦ powerStep (table item.1) item.2) = false

instance (items : List (Bytes × ℤ)) : Decidable (BelowThird pairs table items) :=
  inferInstanceAs (Decidable (_ = false))

theorem Sized.wrap_total (hsized : Sized pairs) :
    Int64.wrap (Roster.total pairs) = Roster.total pairs := by
  have hnonneg := hsized.total_nonneg
  exact Int64.wrap_of_fits (by omega) hsized.total_lt

theorem BelowThird.perm {pairs' items : List (Bytes × ℤ)} (hbelow : BelowThird pairs table items)
    (hperm : pairs.Perm pairs') : BelowThird pairs' table items := by
  unfold BelowThird at *
  rwa [← Roster.total_perm hperm]

theorem belowThird_of_drift_lt (hsized : Sized pairs) (hpairs : Roster.Represents pairs table)
    {items : List (Bytes × ℤ)} (hitems : ∀ item ∈ items, 0 ≤ item.2 ∧ item.2 < 2 ^ 63)
    (hdrift : Roster.drift table items < (Roster.total pairs * 1).tdiv 3) :
    BelowThird pairs table items := by
  unfold BelowThird
  rw [hsized.wrap_total, sum_powerStep hsized hpairs hitems]
  apply Int64.not_reaches_of_sum_lt (shifts_nonneg fun item hitem ↦ (hitems item hitem).1) le_rfl _
    hsized.third_le
  rwa [zero_add]

/-- As long as the sums fit, the items pass exactly if they move less than a third. -/
theorem belowThird_iff (hsized : Sized pairs) (hpairs : Roster.Represents pairs table)
    {items : List (Bytes × ℤ)} (hitems : ∀ item ∈ items, 0 ≤ item.2 ∧ item.2 < 2 ^ 63)
    (hnonempty : items ≠ []) (hfits : Roster.drift table items < 2 ^ 63) :
    BelowThird pairs table items ↔ Roster.drift table items < Roster.total pairs / 3 := by
  rw [← hsized.third_eq]
  refine ⟨fun hbelow ↦ ?_, belowThird_of_drift_lt hsized hpairs hitems⟩
  by_contra hdrift
  unfold BelowThird at hbelow
  rw [hsized.wrap_total, sum_powerStep hsized hpairs hitems] at hbelow
  refine Bool.false_ne_true (hbelow.symm.trans (Int64.reaches_of_le_sum ?_
    (shifts_nonneg fun item hitem ↦ (hitems item hitem).1) le_rfl ?_ ?_))
  · simpa using hnonempty
  · rwa [zero_add]
  · rw [zero_add]
    exact not_lt.mp hdrift

end Drift

/-! ## The change measured by the parser -/

section Parser

variable {strategy : Strategy} {table : Roster.Table Bytes}

theorem nodup_encoded (hpairs : Roster.Represents strategy.pairs table) :
    (strategy.currentValidators.map fun ref ↦ Hex.encode (strategy.heap ref).pubKey).Nodup := by
  have hencoded := hpairs.nodup.map Hex.encode_injective
  unfold Strategy.pairs at hencoded
  rwa [List.map_map, List.map_map] at hencoded

theorem mem_pairs_iff {key : Bytes} {power : ℤ} : (key, power) ∈ strategy.pairs ↔
    ∃ ref ∈ strategy.currentValidators, (strategy.heap ref).pubKey = key ∧
      (strategy.heap ref).power = power := by
  simp [Strategy.pairs, Validator.pair]

/-- The map of `CheckValidatorTx` files the powers under the encoded keys. -/
theorem lookup_keyMap_iff (hpairs : Roster.Represents strategy.pairs table) {key : String}
    {power : ℤ} : strategy.keyMap.lookup key = some power ↔
      ∃ pubKey, key = Hex.encode pubKey ∧ table pubKey = some power := by
  unfold Strategy.keyMap
  rw [lookup_foldl_insert (nodup_encoded hpairs), AList.lookup_empty]
  constructor
  · intro hfound
    obtain ⟨ref, href, rfl, rfl⟩ := hfound.resolve_right fun h ↦ (by cases h.2)
    refine ⟨_, rfl, (hpairs.mem_iff _ _).mp (mem_pairs_iff.mpr ⟨ref, href, rfl, rfl⟩)⟩
  · intro ⟨pubKey, hkey, hpower⟩
    obtain ⟨ref, href, hpub, hval⟩ := mem_pairs_iff.mp ((hpairs.mem_iff pubKey power).mpr hpower)
    exact Or.inl ⟨ref, href, by rw [hpub, hkey], hval⟩

theorem lookup_keyMap_encode (hpairs : Roster.Represents strategy.pairs table) (key : Bytes) :
    strategy.keyMap.lookup (Hex.encode key) = table key := by
  ext power
  rw [lookup_keyMap_iff hpairs]
  constructor
  · intro ⟨pubKey, hkey, hpower⟩
    rwa [Hex.encode_injective hkey]
  · exact fun hpower ↦ ⟨key, rfl, hpower⟩

theorem lookup_lowerKeys_keyMap (hpairs : Roster.Represents strategy.pairs table)
    {spelling : String} {key : Bytes} (hdecode : Hex.decode spelling = some key) :
    (lowerKeys strategy.keyMap).lookup (Hex.lower spelling) = table key := by
  rw [lookup_lowerKeys, Hex.decode_eq_some_iff.mp hdecode, lookup_keyMap_encode hpairs]
  intro key hkey
  obtain ⟨power, hpower⟩ := Option.isSome_iff_exists.mp (AList.lookup_isSome.mpr hkey)
  obtain ⟨pubKey, rfl, -⟩ := (lookup_keyMap_iff hpairs).mp hpower
  exact Hex.lower_encode pubKey

theorem entries_keyMap_perm (hpairs : Roster.Represents strategy.pairs table) :
    (strategy.keyMap.entries.map Sigma.snd).Perm (strategy.pairs.map Prod.snd) := by
  have hentries : strategy.keyMap.entries.Perm
      (strategy.pairs.map fun pair ↦ ⟨Hex.encode pair.1, pair.2⟩) := by
    apply (List.perm_ext_iff_of_nodup strategy.keyMap.nodupKeys.nodup _).mpr
    · intro ⟨key, power⟩
      rw [← AList.mem_lookup_iff, Option.mem_def, lookup_keyMap_iff hpairs, List.mem_map]
      constructor
      · intro ⟨pubKey, hkey, hpower⟩
        exact ⟨(pubKey, power), (hpairs.mem_iff _ _).mpr hpower, by rw [hkey]⟩
      · intro ⟨pair, hpair, heq⟩
        cases heq
        exact ⟨pair.1, rfl, (hpairs.mem_iff _ _).mp hpair⟩
    · apply hpairs.nodup.of_map.map
      intro pair other hsame
      rw [Sigma.mk.injEq, heq_eq_eq] at hsame
      exact Prod.ext (Hex.encode_injective hsame.1) hsame.2
  have hpowers := hentries.map Sigma.snd
  rwa [List.map_map] at hpowers

theorem totalPower_keyMap (hpairs : Roster.Represents strategy.pairs table)
    (hsized : Sized strategy.pairs) :
    totalPower strategy.keyMap = Roster.total strategy.pairs := by
  have hperm := entries_keyMap_perm hpairs
  have hsum : (strategy.keyMap.entries.map Sigma.snd).sum = Roster.total strategy.pairs :=
    hperm.sum_eq
  unfold totalPower
  rw [Int64.accumulate_eq, hsum, zero_add]
  · exact fun power hpower ↦ hsized.powers_nonneg power (hperm.mem_iff.mp hpower)
  · exact le_rfl
  · rw [hsum, zero_add]
    exact hsized.total_lt

/-- Items with powers of `int64` that move less than a third of the total. -/
structure Admissible (pairs : List (Bytes × ℤ)) (table : Roster.Table Bytes)
    (items : List (Bytes × ℤ)) : Prop where
  range : ∀ item ∈ items, 0 ≤ item.2 ∧ item.2 < 2 ^ 63
  drift_lt : Roster.drift table items < (Roster.total pairs * 1).tdiv 3

theorem Admissible.drift_lt_total {pairs items : List (Bytes × ℤ)}
    (hadmissible : Admissible pairs table items) (hsized : Sized pairs) :
    Roster.drift table items < Roster.total pairs := by
  have hdrift := hadmissible.drift_lt
  have hnonneg := hsized.total_nonneg
  have hsteps : 0 ≤ Roster.drift table items :=
    List.sum_nonneg (shifts_nonneg fun item hitem ↦ (hadmissible.range item hitem).1)
  rw [hsized.third_eq] at hdrift
  omega

theorem range_of_checkChange {txs : List Item}
    (hchecked : checkChange strategy.keyMap txs = .ok ()) :
    ∀ item ∈ txs.map Item.pair, 0 ≤ item.2 ∧ item.2 < 2 ^ 63 := by
  unfold checkChange at hchecked
  rw [Results.bind_eq_ok_iff] at hchecked
  obtain ⟨change, hchange, -⟩ := hchecked
  intro pair hpair
  obtain ⟨item, hitem, rfl⟩ := List.mem_map.mp hpair
  exact ⟨(changePower_ok hchange).1 item hitem, item.power_range.2⟩

theorem admissible_of_checkChange (hpairs : Roster.Represents strategy.pairs table)
    (hsized : Sized strategy.pairs) {txs : List Item}
    (hkeys : ∀ item ∈ txs, Hex.decode item.pubKey = some item.pair.1)
    (hfits : Roster.drift table (txs.map Item.pair) < 2 ^ 63)
    (hchecked : checkChange strategy.keyMap txs = .ok ()) :
    Admissible strategy.pairs table (txs.map Item.pair) := by
  have hrange := range_of_checkChange hchecked
  refine ⟨hrange, ?_⟩
  unfold checkChange at hchecked
  rw [Results.bind_eq_ok_iff] at hchecked
  obtain ⟨change, hchange, hbound⟩ := hchecked
  obtain ⟨-, hsum⟩ := changePower_ok hchange
  have hsteps : (txs.map fun item ↦
      powerStep ((lowerKeys strategy.keyMap).lookup (Hex.lower item.pubKey)) item.power) =
      (txs.map Item.pair).map fun item ↦ Roster.shift (table item.1) item.2 := by
    rw [← sum_powerStep hsized hpairs hrange, List.map_map]
    apply List.map_congr_left
    intro item hitem
    rw [lookup_lowerKeys_keyMap hpairs (hkeys item hitem)]
    rfl
  have hdrift : change = Roster.drift table (txs.map Item.pair) := by
    rw [hsum, hsteps, Int64.accumulate_eq, zero_add]
    · rfl
    · exact shifts_nonneg fun item hitem ↦ (hrange item hitem).1
    · exact le_rfl
    · rwa [zero_add]
  rw [totalPower_keyMap hpairs hsized] at hbound
  split at hbound
  next => cases hbound
  next hlt => rwa [hdrift, not_le] at hlt

section Check

variable {PubKey Signature Address : Type} {codec : Codec}
  {crypto : Crypto PubKey Signature Address} {tx : String} {data : ValidatorTx}

theorem readTx_of_checkValidatorTx
    (hcheck : strategy.checkValidatorTx codec crypto tx = .ok data) :
    ∃ txdata, readTx codec crypto tx strategy.keyMap = .ok (data, txdata) := by
  unfold Strategy.checkValidatorTx at hcheck
  split at hcheck
  next => cases hcheck
  next hparse =>
    cases hcheck
    obtain ⟨txdata, hread, -⟩ := parseValidatorTx_ok_iff.mp hparse
    exact ⟨txdata, hread⟩

theorem checkValidatorTx_ok (hcheck : strategy.checkValidatorTx codec crypto tx = .ok data) :
    checkKeys codec crypto data.txs = .ok () ∧
      checkChange strategy.keyMap data.txs = .ok () := by
  obtain ⟨txdata, hread⟩ := readTx_of_checkValidatorTx hcheck
  exact ⟨(readTx_ok hread).keys_checked, (readTx_ok hread).change_checked⟩

theorem decodeTx_of_checkValidatorTx
    (hcheck : strategy.checkValidatorTx codec crypto tx = .ok data) :
    decodeTx codec tx = .ok data := by
  obtain ⟨txdata, hread⟩ := readTx_of_checkValidatorTx hcheck
  exact decodeTx_of_readTx hread

end Check

end Parser

end LkChain.Validators.VotingPower
