import Mathlib.Data.List.Basic
import Mathlib.Algebra.Order.Ring.Nat

/-!
# Texts of numbers

Keys of a store are often put together from texts of numbers. A hexadecimal numeral of a fixed width
sorts as its number does. A decimal numeral has no fixed width, and a separator shows where it ends.
-/

namespace LkChain.Foundation.Texts

/-! ## The order of texts -/

/-- Texts with fronts of the same length are compared by their fronts first. -/
theorem compare_append {front front' : List Char} (hlength : front.length = front'.length)
    (back back' : List Char) :
    compare (front ++ back) (front' ++ back') =
      (compare front front').then (compare back back') := by
  induction front generalizing front' with
  | nil =>
    rw [List.length_nil, eq_comm, List.length_eq_zero_iff] at hlength
    rw [hlength]
    rfl
  | cons c front ih =>
    cases front' with
    | nil => cases hlength
    | cons c' front' =>
      have ih := ih (Nat.succ.inj hlength)
      rw [List.cons_append, List.cons_append, List.compare_cons_cons, List.compare_cons_cons, ih,
        Ordering.then_assoc]

/-- What comes before the first separator and what comes after it are determined. -/
theorem append_cons_inj {separator : Char} {front front' back back' : List Char}
    (hfront : separator ∉ front) (hfront' : separator ∉ front') :
    front ++ separator :: back = front' ++ separator :: back' ↔ front = front' ∧ back = back' := by
  constructor
  · intro heq
    induction front generalizing front' with
    | nil =>
      cases front' with
      | nil => exact ⟨rfl, (List.cons.inj heq).2⟩
      | cons c' front' =>
        rw [(List.cons.inj heq).1] at hfront'
        exact absurd List.mem_cons_self hfront'
    | cons c front ih =>
      cases front' with
      | nil =>
        rw [← (List.cons.inj heq).1] at hfront
        exact absurd List.mem_cons_self hfront
      | cons c' front' =>
        obtain ⟨hhead, htail⟩ := List.cons.inj heq
        have ih := ih (fun h ↦ hfront (List.mem_cons_of_mem _ h))
          (fun h ↦ hfront' (List.mem_cons_of_mem _ h)) htail
        rw [hhead, ih.1]
        exact ⟨rfl, ih.2⟩
  · rintro ⟨rfl, rfl⟩
    rfl

/-! ## Hexadecimal numerals of a fixed width -/

/-- The upper-case digit of a value below 16. -/
def hexDigit (n : ℕ) : Char := Char.ofNat (if n < 10 then 48 + n else 55 + n)

/-- The lowest digits of a number, the highest of them first. -/
def fixedHex : (width : ℕ) → ℕ → List Char
  | 0, _ => []
  | width + 1, n => hexDigit (n / 16 ^ width % 16) :: fixedHex width n

@[simp] theorem length_fixedHex (width n : ℕ) : (fixedHex width n).length = width := by
  induction width with
  | zero => rfl
  | succ width ih => rw [fixedHex, List.length_cons, ih]

theorem compare_hexDigit {a b : ℕ} (ha : a < 16) (hb : b < 16) :
    compare (hexDigit a) (hexDigit b) = compare a b := by
  have hall : ∀ a b : Fin 16, compare (hexDigit a) (hexDigit b) = compare a.val b.val := by decide
  exact hall ⟨a, ha⟩ ⟨b, hb⟩

theorem two_digits_lt {base high low high' low' : ℕ} (hlow : low < base) (hhigh : high < high') :
    base * high + low < base * high' + low' :=
  calc base * high + low < base * high + base := Nat.add_lt_add_left hlow _
    _ = base * (high + 1) := (Nat.mul_succ base high).symm
    _ ≤ base * high' := Nat.mul_le_mul_left base hhigh
    _ ≤ base * high' + low' := Nat.le_add_right _ _

theorem compare_two_digits {base high low high' low' : ℕ} (hlow : low < base)
    (hlow' : low' < base) :
    compare (base * high + low) (base * high' + low') =
      (compare high high').then (compare low low') := by
  rcases lt_trichotomy high high' with hlt | rfl | hgt
  · rw [Nat.compare_eq_lt.mpr hlt, Nat.compare_eq_lt.mpr (two_digits_lt hlow hlt)]
    rfl
  · rw [Nat.compare_eq_eq.mpr rfl, Ordering.eq_then]
    rcases lt_trichotomy low low' with hlt | rfl | hgt
    · rw [Nat.compare_eq_lt.mpr hlt, Nat.compare_eq_lt.mpr (Nat.add_lt_add_left hlt _)]
    · rw [Nat.compare_eq_eq.mpr rfl, Nat.compare_eq_eq.mpr rfl]
    · rw [Nat.compare_eq_gt.mpr hgt, Nat.compare_eq_gt.mpr (Nat.add_lt_add_left hgt _)]
  · rw [Nat.compare_eq_gt.mpr hgt, Nat.compare_eq_gt.mpr (two_digits_lt hlow' hgt)]
    rfl

theorem compare_fixedHex (width n m : ℕ) :
    compare (fixedHex width n) (fixedHex width m) =
      compare (n % 16 ^ width) (m % 16 ^ width) := by
  induction width with
  | zero => simp [fixedHex, Nat.mod_one]
  | succ width ih =>
    have hpos : 0 < 16 ^ width := Nat.pow_pos (by decide)
    rw [fixedHex, fixedHex, List.compare_cons_cons, ih,
      compare_hexDigit (Nat.mod_lt _ (by decide)) (Nat.mod_lt _ (by decide)), Nat.pow_succ,
      Nat.mod_mul, Nat.mod_mul, Nat.add_comm, Nat.add_comm (m % _)]
    exact (compare_two_digits (Nat.mod_lt n hpos) (Nat.mod_lt m hpos)).symm

theorem compare_fixedHex_of_lt {width n m : ℕ} (hn : n < 16 ^ width) (hm : m < 16 ^ width) :
    compare (fixedHex width n) (fixedHex width m) = compare n m := by
  rw [compare_fixedHex, Nat.mod_eq_of_lt hn, Nat.mod_eq_of_lt hm]

theorem fixedHex_inj {width n m : ℕ} (hn : n < 16 ^ width) (hm : m < 16 ^ width) :
    fixedHex width n = fixedHex width m ↔ n = m := by
  rw [← Std.compare_eq_iff_eq, compare_fixedHex_of_lt hn hm, Nat.compare_eq_eq]

/-- Two upper-case digits for each byte. -/
def hexBytes (bytes : List UInt8) : List Char := bytes.flatMap fun byte ↦ fixedHex 2 byte.toNat

theorem hexBytes_injective : Function.Injective hexBytes := by
  intro bytes bytes' heq
  induction bytes generalizing bytes' with
  | nil =>
    cases bytes' with
    | nil => rfl
    | cons byte' bytes' => cases heq
  | cons byte bytes ih =>
    cases bytes' with
    | nil => cases heq
    | cons byte' bytes' =>
      obtain ⟨hbyte, hbytes⟩ := List.append_inj heq rfl
      rw [ih hbytes, UInt8.toNat_inj.mp ((fixedHex_inj byte.toNat_lt byte'.toNat_lt).mp hbyte)]

/-! ## Decimal numerals -/

/-- The decimal numeral of a number. -/
def decimal (n : ℕ) : List Char := Nat.toDigits 10 n

theorem decimal_injective : Function.Injective decimal :=
  Function.LeftInverse.injective (g := fun digits ↦ Nat.ofDigitChars 10 digits 0)
    fun _ ↦ Nat.ofDigitChars_ten_toDigits

theorem isDigit_of_mem_decimal {n : ℕ} {c : Char} (hmem : c ∈ decimal n) : c.isDigit = true :=
  Nat.isDigit_of_mem_toDigits (by decide) (by decide) hmem

theorem dash_notMem_decimal (n : ℕ) : '-' ∉ decimal n :=
  fun hmem ↦ absurd (isDigit_of_mem_decimal hmem) (by decide)

/-! ## Integers

The sign is the character that separates numerals here, so only the first one in front of a digit
is a sign. -/

/-- The decimal numeral of an integer, with a sign when it is negative. -/
def integer : ℤ → List Char
  | .ofNat n => decimal n
  | .negSucc n => '-' :: decimal (n + 1)

theorem decimal_append_ne (n : ℕ) (back back' : List Char) : decimal n ++ back ≠ '-' :: back' := by
  intro heq
  cases hdecimal : decimal n with
  | nil => exact Nat.toDigits_ne_nil hdecimal
  | cons c digits =>
    rw [hdecimal, List.cons_append] at heq
    have hmem : c ∈ decimal n := hdecimal ▸ List.mem_cons_self
    rw [(List.cons.inj heq).1] at hmem
    exact dash_notMem_decimal n hmem

theorem integer_append_inj (n m : ℤ) (back back' : List Char) :
    integer n ++ '-' :: back = integer m ++ '-' :: back' ↔ n = m ∧ back = back' := by
  have hdigits : ∀ k l : ℕ, decimal k ++ '-' :: back = decimal l ++ '-' :: back' ↔
      k = l ∧ back = back' := fun k l ↦ by
    rw [append_cons_inj (dash_notMem_decimal k) (dash_notMem_decimal l), decimal_injective.eq_iff]
  cases n with
  | ofNat n =>
    cases m with
    | ofNat m =>
      rw [Int.ofNat.injEq]
      exact hdigits n m
    | negSucc m =>
      exact ⟨fun heq ↦ absurd heq (decimal_append_ne n _ _), fun h ↦ (by cases h.1)⟩
  | negSucc n =>
    cases m with
    | ofNat m =>
      exact ⟨fun heq ↦ absurd heq.symm (decimal_append_ne m _ _), fun h ↦ (by cases h.1)⟩
    | negSucc m =>
      rw [integer, integer, List.cons_append, List.cons_append, List.cons.injEq, hdigits,
        Int.negSucc.injEq, Nat.add_left_inj]
      exact and_iff_right rfl

/-- An integer in front of a separator is not the lack of one in front of a numeral. -/
theorem integer_append_ne (n : ℤ) (i : ℕ) (back : List Char) :
    integer n ++ '-' :: back ≠ '-' :: decimal i := by
  cases n with
  | ofNat n => exact decimal_append_ne n _ _
  | negSucc n =>
    intro heq
    apply dash_notMem_decimal i
    rw [← (List.cons.inj heq).2]
    exact List.mem_append_right _ List.mem_cons_self

end LkChain.Foundation.Texts
