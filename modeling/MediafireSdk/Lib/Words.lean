import Mathlib.Tactic

/-! Fixed-width machine words as natural numbers and integers. A `w`-bit
unsigned value is a natural number below `2 ^ w`; the same bits read as two's
complement are an integer between `-2 ^ (w - 1)` and `2 ^ (w - 1)`. Conversions
between the two readings and between widths are total and reduce modulo
`2 ^ w`. Signed subtraction is partial: a difference outside the range is
undefined, not wrapped. -/

namespace MediafireSdk.Words

/-- Reduction of an unsigned result to `w` bits. -/
def trunc (w n : ℕ) : ℕ := n % 2 ^ w

/-- Unsigned subtraction of `w`-bit words. -/
def sub (w a b : ℕ) : ℕ := trunc w (a + (2 ^ w - b))

/-- `++` on an unsigned word. -/
def increment (w n : ℕ) : ℕ := if n + 1 < 2 ^ w then n + 1 else 0

/-- `--` on an unsigned word. -/
def decrement (w n : ℕ) : ℕ := if n = 0 then 2 ^ w - 1 else n - 1

/-- The two's complement reading of the low `w` bits. -/
def signed (w n : ℕ) : ℤ :=
  if 2 * trunc w n < 2 ^ w then trunc w n else (trunc w n : ℤ) - 2 ^ w

/-- Conversion of an integer to an unsigned `w`-bit word. -/
def unsigned (w : ℕ) (z : ℤ) : ℕ := (z % 2 ^ w).toNat

/-- The values of a signed `w`-bit type. -/
def InRange (w : ℕ) (z : ℤ) : Prop := -2 ^ w ≤ 2 * z ∧ 2 * z < 2 ^ w

instance (w : ℕ) (z : ℤ) : Decidable (InRange w z) :=
  inferInstanceAs (Decidable (_ ∧ _))

/-- Signed subtraction; `none` is overflow. -/
def checkedSub (w : ℕ) (x y : ℤ) : Option ℤ :=
  if InRange w (x - y) then some (x - y) else none

theorem trunc_of_lt {w n : ℕ} (h : n < 2 ^ w) : trunc w n = n := Nat.mod_eq_of_lt h

theorem trunc_lt (w n : ℕ) : trunc w n < 2 ^ w := Nat.mod_lt _ (by positivity)

theorem sub_of_le {w a b : ℕ} (hba : b ≤ a) (ha : a < 2 ^ w) : sub w a b = a - b := by
  have hsplit : a + (2 ^ w - b) = (a - b) + 2 ^ w := by omega
  rw [sub, trunc, hsplit, Nat.add_mod_right, Nat.mod_eq_of_lt (by omega)]

theorem increment_of_lt {w n : ℕ} (h : n + 1 < 2 ^ w) : increment w n = n + 1 := if_pos h

theorem decrement_of_pos {w n : ℕ} (h : 0 < n) : decrement w n = n - 1 := if_neg h.ne'

theorem signed_of_lt {w n : ℕ} (h : 2 * n < 2 ^ w) : signed w n = n := by
  have ht : trunc w n = n := trunc_of_lt (by omega)
  rw [signed, ht, if_pos h]

theorem signed_neg {w n : ℕ} (hle : 2 ^ w ≤ 2 * n) (hlt : n < 2 ^ w) : signed w n < 0 := by
  have hcast : (n : ℤ) < 2 ^ w := by exact_mod_cast hlt
  rw [signed, trunc_of_lt hlt, if_neg (not_lt.mpr hle)]
  omega

theorem inRange_signed (w n : ℕ) : InRange w (signed w n) := by
  have hlt : (trunc w n : ℤ) < 2 ^ w := by exact_mod_cast trunc_lt w n
  unfold signed
  split_ifs with h
  · have h' : 2 * (trunc w n : ℤ) < 2 ^ w := by exact_mod_cast h
    constructor <;> omega
  · have h' : (2 : ℤ) ^ w ≤ 2 * (trunc w n : ℤ) := by exact_mod_cast not_lt.mp h
    constructor <;> omega

/-- A value of the signed type comes back from the bits of the unsigned one. -/
theorem signed_unsigned {w : ℕ} {z : ℤ} (h : InRange w z) : signed w (unsigned w z) = z := by
  obtain ⟨hlow, hhigh⟩ := h
  have hpow : (0 : ℤ) < 2 ^ w := by positivity
  have hnonneg : 0 ≤ z % 2 ^ w := Int.emod_nonneg _ hpow.ne'
  have hcast : ((unsigned w z : ℕ) : ℤ) = z % 2 ^ w := Int.toNat_of_nonneg hnonneg
  have hlt : unsigned w z < 2 ^ w := by
    have := Int.emod_lt_of_pos z hpow
    exact_mod_cast hcast ▸ this
  have hhalf : 2 * unsigned w z < 2 ^ w ↔ 2 * (z % 2 ^ w) < 2 ^ w := by
    rw [← hcast]
    norm_cast
  rw [signed, trunc_of_lt hlt, hcast]
  by_cases hz : 0 ≤ z
  · have hmod : z % 2 ^ w = z := Int.emod_eq_of_lt hz (by omega)
    rw [if_pos (hhalf.mpr (by rw [hmod]; exact hhigh)), hmod]
  · have hmod : z % 2 ^ w = z + 2 ^ w := by
      rw [← Int.add_emod_right, Int.emod_eq_of_lt (by omega) (by omega)]
    rw [if_neg (hhalf.not.mpr (by rw [hmod]; omega)), hmod]
    omega

theorem unsigned_natCast {w n : ℕ} (h : n < 2 ^ w) : unsigned w n = n := by
  have hc : ((n : ℤ) % 2 ^ w) = n := Int.emod_eq_of_lt (by positivity) (by exact_mod_cast h)
  rw [unsigned, hc, Int.toNat_natCast]

theorem checkedSub_of_inRange {w : ℕ} {x y : ℤ} (h : InRange w (x - y)) :
    checkedSub w x y = some (x - y) := if_pos h

/-- The difference of two non-negative values of a type is a value of it. -/
theorem checkedSub_natCast {w a b : ℕ} (ha : 2 * a < 2 ^ w) (hb : 2 * b < 2 ^ w) :
    checkedSub w b a = some ((b : ℤ) - a) := by
  apply checkedSub_of_inRange
  have ha' : 2 * (a : ℤ) < 2 ^ w := by exact_mod_cast ha
  have hb' : 2 * (b : ℤ) < 2 ^ w := by exact_mod_cast hb
  constructor <;> omega

/-- Multiples of a divisor of `2 ^ w` stay a full step below `2 ^ w` after reduction. -/
theorem trunc_mul_le {w c : ℕ} (hc : c ∣ 2 ^ w) (k : ℕ) : trunc w (c * k) ≤ 2 ^ w - c := by
  have hd : c ∣ trunc w (c * k) :=
    (Nat.dvd_mod_iff hc).mpr (Dvd.intro k rfl)
  obtain ⟨q, hq⟩ := hc
  obtain ⟨p, hp⟩ := hd
  have hlt := trunc_lt w (c * k)
  rw [hp, hq] at hlt ⊢
  have hpq : p < q := lt_of_mul_lt_mul_left hlt (Nat.zero_le c)
  calc c * p ≤ c * (q - 1) := Nat.mul_le_mul_left c (by omega)
    _ = c * q - c := by rw [Nat.mul_sub, Nat.mul_one]

end MediafireSdk.Words
