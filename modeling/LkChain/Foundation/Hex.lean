import Mathlib.Data.List.Basic

/-!
# Hexadecimal strings

Encoding writes two lower-case digits for each byte. Decoding accepts digits of either case and
nothing else, so every decodable string is the encoding of its bytes up to letter case: lower-casing
is the normal form of a spelling.
-/

namespace LkChain.Foundation.Hex

/-- The lower-case digit of a value below 16. -/
def digit (n : ℕ) : Char := Char.ofNat (if n < 10 then 48 + n else 87 + n)

/-- The value of a digit of either case. -/
def value (c : Char) : Option ℕ :=
  if 48 ≤ c.toNat ∧ c.toNat ≤ 57 then some (c.toNat - 48)
  else if 97 ≤ c.toNat ∧ c.toNat ≤ 102 then some (c.toNat - 87)
  else if 65 ≤ c.toNat ∧ c.toNat ≤ 70 then some (c.toNat - 55)
  else none

def encodeChars : List UInt8 → List Char
  | [] => []
  | b :: bs => digit (b.toNat / 16) :: digit (b.toNat % 16) :: encodeChars bs

def decodeChars : List Char → Option (List UInt8)
  | [] => some []
  | [_] => none
  | high :: low :: rest => do
    let x ← value high
    let y ← value low
    let bs ← decodeChars rest
    return UInt8.ofNat (16 * x + y) :: bs

/-- Two lower-case digits for each byte. -/
def encode (bs : List UInt8) : String := String.ofList (encodeChars bs)

/-- The bytes of a string of digits of either case. -/
def decode (s : String) : Option (List UInt8) := decodeChars s.toList

/-- The string with its letters in lower case. -/
def lower (s : String) : String := String.ofList (s.toList.map Char.toLower)

/-! ## Digits -/

theorem value_digit {n : ℕ} (hn : n < 16) : value (digit n) = some n := by
  have hall : ∀ m : Fin 16, value (digit m) = some m.val := by decide
  exact hall ⟨n, hn⟩

theorem toNat_toLower (c : Char) :
    c.toLower.toNat = if 65 ≤ c.toNat ∧ c.toNat ≤ 90 then c.toNat + 32 else c.toNat := by
  have hrange : (c.val ≥ 'A'.val ∧ c.val ≤ 'Z'.val) ↔ 65 ≤ c.toNat ∧ c.toNat ≤ 90 := by
    rw [ge_iff_le, UInt32.le_iff_toNat_le, UInt32.le_iff_toNat_le]
    rfl
  unfold Char.toLower
  split
  next hupper =>
    rw [if_pos (hrange.mp hupper)]
    have hhigh := (hrange.mp hupper).2
    change (c.val + 32).toNat = c.toNat + 32
    rw [UInt32.toNat_add]
    exact Nat.mod_eq_of_lt (by change c.toNat + 32 < 2 ^ 32; omega)
  next hother => rw [if_neg (fun hcase ↦ hother (hrange.mpr hcase))]

theorem value_toLower (c : Char) : value c.toLower = value c := by
  unfold value
  rw [toNat_toLower]
  split_ifs <;> first | omega | (simp only [Option.some.injEq]; omega) | rfl

theorem toLower_of_value {c : Char} {n : ℕ} (hvalue : value c = some n) :
    n < 16 ∧ c.toLower = digit n := by
  have hnat := toNat_toLower c
  have hchar (m : ℕ) (hm : c.toLower.toNat = m) : c.toLower = Char.ofNat m := by
    rw [← hm, Char.ofNat_toNat]
  unfold value at hvalue
  split_ifs at hvalue
  all_goals
    cases hvalue
    refine ⟨by omega, hchar _ ?_⟩
    split_ifs at hnat ⊢ <;> omega

/-! ## Strings -/

theorem decodeChars_encodeChars (bs : List UInt8) : decodeChars (encodeChars bs) = some bs := by
  induction bs with
  | nil => rfl
  | cons b bs ih =>
    have hb : b.toNat < 256 := b.toNat_lt
    have hjoin : 16 * (b.toNat / 16) + b.toNat % 16 = b.toNat := Nat.div_add_mod b.toNat 16
    rw [encodeChars, decodeChars, value_digit (by omega), value_digit (by omega), ih]
    simp only [Option.bind_eq_bind, Option.bind_some, hjoin, UInt8.ofNat_toNat]
    rfl

theorem encodeChars_injective : Function.Injective encodeChars := by
  intro bs bs' hsame
  have hdecode := congrArg decodeChars hsame
  rwa [decodeChars_encodeChars, decodeChars_encodeChars, Option.some.injEq] at hdecode

theorem value_of_mem_encodeChars {bs : List UInt8} {c : Char} (hmem : c ∈ encodeChars bs) :
    value c ≠ none := by
  induction bs with
  | nil => cases hmem
  | cons b bs ih =>
    have hb : b.toNat < 256 := b.toNat_lt
    rcases List.mem_cons.mp hmem with rfl | hmem
    · rw [value_digit (by omega)]
      exact Option.some_ne_none _
    · rcases List.mem_cons.mp hmem with rfl | hmem
      · rw [value_digit (by omega)]
        exact Option.some_ne_none _
      · exact ih hmem

theorem decodeChars_map_toLower (cs : List Char) :
    decodeChars (cs.map Char.toLower) = decodeChars cs := by
  induction cs using decodeChars.induct with
  | case1 => rfl
  | case2 c => rfl
  | case3 high low rest ih =>
    simp only [List.map_cons, decodeChars, value_toLower, ih]

theorem map_toLower_of_decodeChars {cs : List Char} {bs : List UInt8}
    (hdecode : decodeChars cs = some bs) : cs.map Char.toLower = encodeChars bs := by
  induction cs using decodeChars.induct generalizing bs with
  | case1 =>
    cases hdecode
    rfl
  | case2 c => cases hdecode
  | case3 high low rest ih =>
    simp only [decodeChars, Option.bind_eq_bind, Option.bind_eq_some_iff, Option.pure_def,
      Option.some.injEq] at hdecode
    obtain ⟨x, hx, y, hy, tail, htail, rfl⟩ := hdecode
    obtain ⟨hxlt, hxdigit⟩ := toLower_of_value hx
    obtain ⟨hylt, hydigit⟩ := toLower_of_value hy
    have hbyte : (UInt8.ofNat (16 * x + y)).toNat = 16 * x + y :=
      UInt8.toNat_ofNat_of_lt' (by change 16 * x + y < 256; omega)
    rw [List.map_cons, List.map_cons, hxdigit, hydigit, ih htail, encodeChars, hbyte,
      show (16 * x + y) / 16 = x by omega, show (16 * x + y) % 16 = y by omega]

theorem decode_encode (bs : List UInt8) : decode (encode bs) = some bs := by
  unfold decode encode
  rw [String.toList_ofList]
  exact decodeChars_encodeChars bs

theorem encode_injective : Function.Injective encode := by
  intro bs bs' hsame
  have hdecode := congrArg decode hsame
  rwa [decode_encode, decode_encode, Option.some.injEq] at hdecode

/-- The spellings of some bytes are the strings whose lower case is their encoding. -/
theorem decode_eq_some_iff {s : String} {bs : List UInt8} :
    decode s = some bs ↔ lower s = encode bs := by
  unfold decode lower encode
  constructor
  · intro hdecode
    rw [map_toLower_of_decodeChars hdecode]
  · intro hlower
    rw [String.ofList_inj] at hlower
    rw [← decodeChars_map_toLower, hlower, decodeChars_encodeChars]

theorem lower_encode (bs : List UInt8) : lower (encode bs) = encode bs :=
  decode_eq_some_iff.mp (decode_encode bs)

end LkChain.Foundation.Hex
