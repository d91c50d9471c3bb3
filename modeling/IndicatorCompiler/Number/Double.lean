/-!
# Binary64 numbers

The numbers of both languages are binary64 values.  A finite one is a sign and a `Magnitude`: a
mantissa of at most 53 bits times a power of two, in the one canonical form of its value.  Rounding
a ratio to the nearest value, ties to the even mantissa, is done in exact arithmetic on naturals.
-/

namespace IndicatorCompiler.Number

attribute [default_instance 20000] instPowNat

/-- Powers are core's own, whatever else is in sight. -/
@[default_instance 30000]
instance (priority := 30000) natPow : Pow Nat Nat := instPowNat

/-- `m · 2^k / 2^1074` is the canonical form of a finite magnitude: the mantissa has 53 bits, unless
the exponent is the least one. -/
def Canonical (m k : Nat) : Prop := m < 2 ^ 53 ∧ k ≤ 2045 ∧ (k = 0 ∨ 2 ^ 52 ≤ m)

instance (m k : Nat) : Decidable (Canonical m k) :=
  inferInstanceAs (Decidable (_ ∧ _ ∧ _))

/-- The finite magnitude `mantissa · 2^exponent / 2^1074`. -/
structure Magnitude where
  mantissa : Nat
  exponent : Nat
  canonical : Canonical mantissa exponent
  deriving DecidableEq

namespace Magnitude

/-- The magnitude of zero. -/
def zero : Magnitude := ⟨0, 0, by decide⟩

/-- The magnitude in units of `2^(-1074)`. -/
def units (x : Magnitude) : Nat := x.mantissa * 2 ^ x.exponent

end Magnitude

/-- A binary64 value. -/
inductive Double where
  | finite (negative : Bool) (magnitude : Magnitude)
  | infinite (negative : Bool)
  | nan
  deriving DecidableEq

/-! ## Rounding -/

/-- `numerator / denominator` to the nearest natural, a half to the even one. -/
def roundHalfEven (numerator denominator : Nat) : Nat :=
  let whole := numerator / denominator
  let twice := 2 * (numerator % denominator)
  if twice < denominator then whole
  else if denominator < twice then whole + 1
  else if whole % 2 = 0 then whole
  else whole + 1

theorem roundHalfEven_bounds (numerator denominator : Nat) :
    numerator / denominator ≤ roundHalfEven numerator denominator ∧
      roundHalfEven numerator denominator ≤ numerator / denominator + 1 := by
  simp only [roundHalfEven]
  split
  · omega
  · split
    · omega
    · split <;> omega

/-- How far the mantissa of a value of `floor` units has to be shifted to fit 53 bits. -/
def shiftFor (floor : Nat) : Nat := floor.log2 - 52

theorem div_shiftFor_lt (floor : Nat) : floor / 2 ^ shiftFor floor < 2 ^ 53 := by
  have hlt : floor < 2 ^ (floor.log2 + 1) := Nat.lt_log2_self
  have hle : floor.log2 + 1 ≤ 53 + shiftFor floor := by unfold shiftFor; omega
  have hpow : 2 ^ (floor.log2 + 1) ≤ 2 ^ 53 * 2 ^ shiftFor floor := by
    rw [← Nat.pow_add]
    exact Nat.pow_le_pow_right (by decide) hle
  exact Nat.div_lt_of_lt_mul (by rw [Nat.mul_comm]; omega)

theorem le_div_shiftFor {floor : Nat} (h : shiftFor floor ≠ 0) :
    2 ^ 52 ≤ floor / 2 ^ shiftFor floor := by
  have hne : floor ≠ 0 := by
    intro h0
    subst h0
    exact h (by decide)
  have hle : 2 ^ floor.log2 ≤ floor := Nat.log2_self_le hne
  have hlog : floor.log2 = 52 + shiftFor floor := by unfold shiftFor at h ⊢; omega
  rw [Nat.le_div_iff_mul_le (Nat.pos_of_ne_zero (by simp)), ← Nat.pow_add, ← hlog]
  exact hle

/-- The rounded mantissa fits, or is the next power of two. -/
theorem rounded_le (numerator denominator : Nat) :
    roundHalfEven numerator (denominator * 2 ^ shiftFor (numerator / denominator)) ≤ 2 ^ 53 := by
  have hround := (roundHalfEven_bounds numerator
    (denominator * 2 ^ shiftFor (numerator / denominator))).2
  have hfloor := div_shiftFor_lt (numerator / denominator)
  rw [Nat.div_div_eq_div_mul] at hfloor
  omega

theorem le_rounded {numerator denominator : Nat} (h : shiftFor (numerator / denominator) ≠ 0) :
    2 ^ 52 ≤ roundHalfEven numerator (denominator * 2 ^ shiftFor (numerator / denominator)) := by
  have hround := (roundHalfEven_bounds numerator
    (denominator * 2 ^ shiftFor (numerator / denominator))).1
  have hfloor := le_div_shiftFor h
  rw [Nat.div_div_eq_div_mul] at hfloor
  omega

namespace Double

/-- The value with canonical parts `m` and `k`; too large an exponent gives infinity. -/
def ofParts (negative : Bool) (m k : Nat) (hm : m < 2 ^ 53) (hk : k = 0 ∨ 2 ^ 52 ≤ m) : Double :=
  if h : k ≤ 2045 then .finite negative ⟨m, k, hm, h, hk⟩ else .infinite negative

/-- The value nearest to `numerator / denominator`, ties to the even mantissa. -/
def ofRatio (negative : Bool) (numerator denominator : Nat) : Double :=
  let scaled := numerator * 2 ^ 1074
  let k := shiftFor (scaled / denominator)
  let m := roundHalfEven scaled (denominator * 2 ^ k)
  if hcarry : m = 2 ^ 53 then
    ofParts negative (2 ^ 52) (k + 1) (by decide) (Or.inr (Nat.le_refl _))
  else
    ofParts negative m k
      (Nat.lt_of_le_of_ne (rounded_le scaled denominator) hcarry)
      (if hk : k = 0 then Or.inl hk else Or.inr (le_rounded hk))

/-- The value nearest to a natural number. -/
def ofNat (n : Nat) : Double := ofRatio false n 1

/-- Zero, without a sign. -/
def zero : Double := .finite false .zero

/-! ## Sign and order -/

/-- The value with its sign turned. -/
def neg : Double → Double
  | finite negative magnitude => .finite (!negative) magnitude
  | infinite negative => .infinite (!negative)
  | nan => .nan

/-- The value without its sign. -/
def abs : Double → Double
  | finite _ magnitude => .finite false magnitude
  | infinite _ => .infinite false
  | nan => .nan

/-- A finite value in units of `2^(-1074)`; both zeros are zero. -/
def signedUnits (negative : Bool) (magnitude : Magnitude) : Int :=
  if negative then -(magnitude.units : Int) else magnitude.units

/-- The order of numbers; a NaN is less than nothing and nothing is less than it. -/
def less : Double → Double → Bool
  | nan, _ => false
  | _, nan => false
  | infinite n, infinite n' => n && !n'
  | infinite n, finite _ _ => n
  | finite _ _, infinite n => !n
  | finite n x, finite n' x' => signedUnits n x < signedUnits n' x'

end Double

end IndicatorCompiler.Number
