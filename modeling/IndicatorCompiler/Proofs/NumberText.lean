import IndicatorCompiler.Number.Display
import Mathlib.Data.List.TakeWhile
import Mathlib.Tactic.Positivity
import Mathlib.Tactic.Ring

/-!
# Written numbers read back

The shortest digits of a finite magnitude are read as the magnitude.  Rounding a ratio does not see
a common factor, so a decimal is read the same in every representation `c · 10^e`; each candidate
for the shortest digits is checked by reading it, and the exact decimal expansion, which is taken if
no candidate passes, is read without any rounding.
-/

namespace IndicatorCompiler.Number

/-! ## Rounding and scaling -/

theorem roundHalfEven_mul_right (a b : Nat) {k} (hk : 0 < k) :
    roundHalfEven (a * k) (b * k) = roundHalfEven a b := by
  have hdiv : a * k / (b * k) = a / b := Nat.mul_div_mul_right a b hk
  have hmod : a * k % (b * k) = a % b * k := Nat.mul_mod_mul_right k a b
  have htwice : 2 * (a % b * k) = 2 * (a % b) * k := by ring
  simp only [roundHalfEven, hdiv, hmod, htwice, Nat.mul_lt_mul_right hk]

/-- A multiple of the denominator is not rounded. -/
theorem roundHalfEven_mul_self (m : Nat) {d} (hd : 0 < d) : roundHalfEven (m * d) d = m := by
  simp [roundHalfEven, Nat.mul_div_cancel m hd, Nat.mul_mod_left, hd]

namespace Double

/-- The value with a mantissa and an exponent, without asking for their bounds. -/
def assembled (negative : Bool) (m k : Nat) : Double :=
  if h : Canonical m k then .finite negative ⟨m, k, h⟩ else .infinite negative

theorem ofParts_eq {negative m k} (hm : m < 2 ^ 53) (hk : k = 0 ∨ 2 ^ 52 ≤ m) :
    ofParts negative m k hm hk = assembled negative m k := by
  unfold ofParts assembled
  by_cases h : k ≤ 2045
  · rw [dif_pos h, dif_pos ⟨hm, h, hk⟩]
  · rw [dif_neg h, dif_neg fun hcanonical => h hcanonical.2.1]

/-- The value nearest to a ratio, from its rounded mantissa and its exponent. -/
theorem ofRatio_eq (negative : Bool) (n d : Nat) : ofRatio negative n d =
      let k := shiftFor (n * 2 ^ 1074 / d)
      let m := roundHalfEven (n * 2 ^ 1074) (d * 2 ^ k)
      if m = 2 ^ 53 then assembled negative (2 ^ 52) (k + 1) else assembled negative m k := by
  rw [ofRatio]
  split
  · rw [ofParts_eq, if_pos ‹_›]
  · rw [ofParts_eq, if_neg ‹_›]

theorem ofRatio_mul_right (negative : Bool) (n d : Nat) {c} (hc : 0 < c) :
    ofRatio negative (n * c) (d * c) = ofRatio negative n d := by
  have hscaled : n * c * 2 ^ 1074 = n * 2 ^ 1074 * c := Nat.mul_right_comm n c _
  have hdenominator (k : Nat) : d * c * 2 ^ k = d * 2 ^ k * c := Nat.mul_right_comm d c _
  rw [ofRatio_eq, ofRatio_eq, hscaled, Nat.mul_div_mul_right _ _ hc]
  simp only [hdenominator, roundHalfEven_mul_right _ _ hc, -Nat.reducePow]

end Double

/-! ## Decimals -/

namespace Decimal

theorem digitCount_pos (c : Nat) : 0 < digitCount c := Nat.length_toDigits_pos

theorem digitCount_le_iff {c k} (hk : 0 < k) : digitCount c ≤ k ↔ c < 10 ^ k :=
  Nat.length_toDigits_le_iff (by decide) hk

theorem lt_pow_digitCount (c : Nat) : c < 10 ^ digitCount c :=
  (digitCount_le_iff (digitCount_pos c)).mp (Nat.le_refl _)

theorem pow_le_of_lt_digitCount {c k} (hc : 0 < c) (h : k < digitCount c) : 10 ^ k ≤ c := by
  rcases Nat.eq_zero_or_pos k with rfl | hk
  · exact hc
  · by_contra hlt
    have := (digitCount_le_iff hk).mpr (Nat.lt_of_not_le hlt)
    omega

/-- A power of ten adds that many digits. -/
theorem digitCount_mul_pow {c} (hc : 0 < c) (k : Nat) :
    digitCount (c * 10 ^ k) = digitCount c + k := by
  have hpos := digitCount_pos c
  have hle : digitCount (c * 10 ^ k) ≤ digitCount c + k := by
    rw [digitCount_le_iff (by omega), Nat.pow_add]
    exact Nat.mul_lt_mul_of_pos_right (lt_pow_digitCount c) (by positivity)
  by_contra hne
  have hlt : digitCount (c * 10 ^ k) ≤ digitCount c - 1 + k := by omega
  rcases Nat.eq_zero_or_pos (digitCount c - 1 + k) with h0 | h0
  · have := digitCount_pos (c * 10 ^ k)
    omega
  · rw [digitCount_le_iff h0, Nat.pow_add] at hlt
    have hsmall : c < 10 ^ (digitCount c - 1) := Nat.lt_of_mul_lt_mul_right hlt
    exact absurd (pow_le_of_lt_digitCount hc (by omega)) (Nat.not_le_of_lt hsmall)

end Decimal

namespace Double

/-- The ratio of a decimal, whatever the sign of its exponent. -/
theorem ofRatio_ratio (negative : Bool) (c : Nat) (e : Int) {a b : Nat} (he : e = a - b) :
    ofRatio negative (Decimal.ratio ⟨c, e⟩).1 (Decimal.ratio ⟨c, e⟩).2 =
      ofRatio negative (c * 10 ^ a) (10 ^ b) := by
  unfold Decimal.ratio
  split
  · rename_i hpos
    obtain rfl : a = e.toNat + b := by simp only at hpos; omega
    have hscale := ofRatio_mul_right negative (c * 10 ^ e.toNat) 1 (show 0 < 10 ^ b by positivity)
    rw [Nat.one_mul] at hscale
    rw [Nat.pow_add, ← Nat.mul_assoc]
    exact hscale.symm
  · rename_i hneg
    obtain rfl : b = a + (-e).toNat := by simp only at hneg; omega
    rw [Nat.pow_add, Nat.mul_comm (10 ^ a), ofRatio_mul_right _ _ _ (by positivity)]

/-- A decimal is read the same in every representation. -/
theorem ofDecimal_scale (negative : Bool) (c : Nat) (e : Int) (k : Nat) :
    ofDecimal negative ⟨c * 10 ^ k, e - k⟩ = ofDecimal negative ⟨c, e⟩ := by
  rcases Nat.eq_zero_or_pos c with rfl | hc
  · simp [ofDecimal]
  · have hsize : e - k + (Decimal.digitCount (c * 10 ^ k) : Int) =
        e + (Decimal.digitCount c : Int) := by
      rw [Decimal.digitCount_mul_pow hc]
      omega
    have hzero : (c * 10 ^ k = 0) = (c = 0) := by simp
    have hratio : ofRatio negative (Decimal.ratio ⟨c * 10 ^ k, e - k⟩).1
        (Decimal.ratio ⟨c * 10 ^ k, e - k⟩).2 =
        ofRatio negative (Decimal.ratio ⟨c, e⟩).1 (Decimal.ratio ⟨c, e⟩).2 := by
      rw [ofRatio_ratio negative c e (show e = (e.toNat : Int) - (-e).toNat by omega),
        ofRatio_ratio negative (c * 10 ^ k) (e - k)
          (show e - k = (e.toNat : Int) - ((-e).toNat + k : Nat) by omega),
        Nat.pow_add, Nat.mul_right_comm, ofRatio_mul_right _ _ _ (by positivity)]
    simp only [ofDecimal, hsize, hzero, hratio]

end Double

/-! ## The exact expansion -/

namespace Magnitude

theorem units_pos {x : Magnitude} (h : x.mantissa ≠ 0) : 0 < x.units :=
  Nat.mul_pos (Nat.pos_of_ne_zero h) (by positivity)

/-- The mantissa needs no further shift. -/
theorem shiftFor_units {x : Magnitude} (h : x.mantissa ≠ 0) : shiftFor x.units = x.exponent := by
  obtain ⟨m, k, hm, _, hk⟩ := x
  have h : m ≠ 0 := h
  show (m * 2 ^ k).log2 - 52 = k
  rcases hk with rfl | hk
  · have hlog : m.log2 < 53 := (Nat.log2_lt h).mpr hm
    rw [Nat.pow_zero, Nat.mul_one]
    omega
  · have hlow : 2 ^ (52 + k) ≤ m * 2 ^ k := by
      rw [Nat.pow_add]
      exact Nat.mul_le_mul_right _ hk
    have hhigh : m * 2 ^ k < 2 ^ (52 + k + 1) := by
      rw [show 52 + k + 1 = 53 + k by omega, Nat.pow_add]
      exact Nat.mul_lt_mul_of_pos_right hm (by positivity)
    have hlog : (m * 2 ^ k).log2 = 52 + k := (Nat.log2_eq_iff (by positivity)).mpr ⟨hlow, hhigh⟩
    rw [hlog]
    omega

theorem mul_pow_lt {m k n} (hm : m < 2 ^ 53) (hk : k ≤ n) : m * 2 ^ k < 2 ^ 53 * 2 ^ n :=
  calc m * 2 ^ k < 2 ^ 53 * 2 ^ k := Nat.mul_lt_mul_of_pos_right hm (by positivity)
    _ ≤ 2 ^ 53 * 2 ^ n := Nat.mul_le_mul_left _ (Nat.pow_le_pow_right (by decide) hk)

theorem units_lt (x : Magnitude) : x.units < 2 ^ 53 * 2 ^ 2045 :=
  mul_pow_lt x.canonical.1 x.canonical.2.1

/-- The exact expansion is neither too large nor too small for a finite value. -/
theorem digitCount_exact {x : Magnitude} (h : x.mantissa ≠ 0) :
    750 < Decimal.digitCount (x.units * 5 ^ 1074) ∧ Decimal.digitCount (x.units * 5 ^ 1074) ≤
      1383 := by
  constructor
  · have hlow : 10 ^ 750 ≤ x.units * 5 ^ 1074 := by
      calc 10 ^ 750 ≤ 5 ^ 1074 := by decide +kernel
        _ ≤ x.units * 5 ^ 1074 := Nat.le_mul_of_pos_left _ (units_pos h)
    by_contra hle
    have hlt := (Decimal.digitCount_le_iff (by decide)).mp (Nat.le_of_not_lt hle)
    exact absurd hlow (Nat.not_le_of_lt hlt)
  · rw [Decimal.digitCount_le_iff (by decide)]
    calc x.units * 5 ^ 1074 < 2 ^ 53 * 2 ^ 2045 * 5 ^ 1074 :=
        Nat.mul_lt_mul_of_pos_right (units_lt x) (by positivity)
      _ ≤ 10 ^ 1383 := by decide +kernel

theorem five_pow_mul_two_pow (n : Nat) : 5 ^ n * 2 ^ n = 10 ^ n := (Nat.mul_pow 5 2 n).symm

/-- The exact expansion is read without rounding. -/
theorem ofRatio_exact {x : Magnitude} (h : x.mantissa ≠ 0) :
    Double.ofRatio false (x.units * 5 ^ 1074) (10 ^ 1074) = .finite false x := by
  have hten : x.units * 5 ^ 1074 * 2 ^ 1074 = x.units * 10 ^ 1074 := by
    rw [Nat.mul_assoc, five_pow_mul_two_pow]
  have hround : roundHalfEven (x.units * 10 ^ 1074) (10 ^ 1074 * 2 ^ x.exponent) = x.mantissa := by
    rw [units, Nat.mul_assoc, Nat.mul_comm (2 ^ x.exponent)]
    exact roundHalfEven_mul_self _ (by positivity)
  have hmantissa : x.mantissa ≠ 2 ^ 53 := Nat.ne_of_lt x.canonical.1
  rw [Double.ofRatio_eq, hten, Nat.mul_div_cancel _ (by positivity), shiftFor_units h]
  simp only [hround, hmantissa, if_false, Double.assembled, x.canonical, dif_pos, -Nat.reducePow]

theorem ofDecimal_exact {x : Magnitude} (h : x.mantissa ≠ 0) :
    Double.ofDecimal false x.exact = .finite false x := by
  obtain ⟨hlow, hhigh⟩ := digitCount_exact h
  have hcoefficient : x.units * 5 ^ 1074 ≠ 0 := by
    have := units_pos h
    positivity
  have hratio := Double.ofRatio_ratio false (x.units * 5 ^ 1074) (-1074)
    (show (-1074 : Int) = (0 : Nat) - (1074 : Nat) by decide)
  rw [Nat.pow_zero, Nat.mul_one, ofRatio_exact h] at hratio
  unfold Double.ofDecimal exact
  rw [if_neg (by rintro (h | h) <;> simp only at h <;> omega), if_neg (by simp only; omega)]
  exact hratio

end Magnitude

/-- A decimal found on a grid has been read back. -/
theorem Magnitude.readsBack_of_onGrid {x : Magnitude} {power d} (h : x.onGrid power = some d) :
    x.readsBack d = true := by
  unfold Magnitude.onGrid at h
  extract_lets numerator denominator lower upper nearerUp at h
  clear_value lower upper nearerUp
  split at h
  · rename_i hlower hupper
    cases nearerUp with
    | true =>
      obtain rfl : upper = d := by simpa using h
      exact hupper
    | false =>
      obtain rfl : lower = d := by simpa using h
      exact hlower
  · rename_i hlower _
    obtain rfl := Option.some.inj h
    exact hlower
  · rename_i _ hupper
    obtain rfl := Option.some.inj h
    exact hupper
  · cases h

/-- The shortest decimal reads back. -/
theorem Magnitude.ofDecimal_shortest {x : Magnitude} (h : x.mantissa ≠ 0) :
    Double.ofDecimal false x.shortest = .finite false x := by
  unfold Magnitude.shortest
  simp only
  cases hfound : (List.range 17).findSome? fun n => x.onGrid (x.leading - (n + 1 : Nat)) with
  | none => exact Magnitude.ofDecimal_exact h
  | some d =>
    obtain ⟨n, -, hgrid⟩ := List.exists_of_findSome?_eq_some hfound
    simpa [Magnitude.readsBack] using Magnitude.readsBack_of_onGrid hgrid

/-! ## Digits -/

theorem naturalOf_eq (digits : List Char) : naturalOf digits = Nat.ofDigitChars 10 digits 0 := rfl

theorem naturalOf_append (left right : List Char) :
    naturalOf (left ++ right) = naturalOf left * 10 ^ right.length + naturalOf right := by
  simp only [naturalOf_eq]
  rw [Nat.ofDigitChars_append, Nat.ofDigitChars_eq_ofDigitChars_zero, Nat.mul_comm]

theorem naturalOf_zeros (n : Nat) : naturalOf (List.replicate n '0') = 0 := by simp [naturalOf_eq]

theorem naturalOf_toDigits (n : Nat) : naturalOf (Nat.toDigits 10 n) = n :=
  Nat.ofDigitChars_ten_toDigits

/-- A list is what is left without its trailing zeros, and these zeros. -/
theorem eq_append_zeros (digits : List Char) :
    ∃ k, digits = (digits.reverse.dropWhile (· = '0')).reverse ++ List.replicate k '0' := by
  refine ⟨(digits.reverse.takeWhile (· = '0')).length, ?_⟩
  have hzeros : digits.reverse.takeWhile (· = '0') =
      List.replicate (digits.reverse.takeWhile (· = '0')).length '0' := by
    refine List.eq_replicate_of_mem fun c hc => ?_
    simpa using List.mem_takeWhile_imp hc
  conv_lhs =>
    rw [← List.reverse_reverse digits,
      ← List.takeWhile_append_dropWhile (p := (· = '0')) (l := digits.reverse),
      List.reverse_append, hzeros, List.reverse_replicate]

/-- The digits of a decimal make up the decimal, up to a power of ten. -/
theorem Decimal.toDigits_spec {d : Decimal} (hd : d.coefficient ≠ 0) :
    d.toDigits.digits ≠ [] ∧ (∀ c ∈ d.toDigits.digits, c.isDigit = true) ∧
      ∃ k : Nat, d = ⟨naturalOf d.toDigits.digits * 10 ^ k,
        d.toDigits.point - d.toDigits.digits.length - k⟩ := by
  obtain ⟨c, e⟩ := d
  simp only [Decimal.toDigits, if_neg hd]
  obtain ⟨k, hall⟩ := eq_append_zeros (Nat.toDigits 10 c)
  generalize ((Nat.toDigits 10 c).reverse.dropWhile (· = '0')).reverse = digits at hall ⊢
  have hvalue : c = naturalOf digits * 10 ^ k := by
    have := naturalOf_toDigits c
    rw [hall, naturalOf_append, naturalOf_zeros, List.length_replicate] at this
    omega
  refine ⟨?_, fun x hx => ?_, k, ?_⟩
  · rintro rfl
    exact hd (by simpa [naturalOf] using hvalue)
  · refine Nat.isDigit_of_mem_toDigits (b := 10) (n := c) (by decide) (by decide) ?_
    rw [hall]
    exact List.mem_append_left _ hx
  · rw [hall]
    simp only [List.length_append, List.length_replicate, ← hvalue, Decimal.mk.injEq, true_and]
    omega

/-! ## Positional text -/

/-- Digits with a fraction behind a point, if there is one. -/
def numeral (whole fraction : List Char) : List Char :=
  whole ++ if fraction.isEmpty then [] else '.' :: fraction

theorem digitsOf_append {digits rest} (hdigits : ∀ c ∈ digits, c.isDigit = true)
    (hrest : ∀ c ∈ rest.head?, c.isDigit = false) : digitsOf (digits ++ rest) = digits := by
  have hnil : rest.takeWhile Char.isDigit = [] := by
    cases rest with
    | nil => rfl
    | cons c rest => simp [hrest c rfl]
  rw [digitsOf, List.takeWhile_append_of_pos hdigits, hnil, List.append_nil]

/-- What follows a number can neither lengthen its digits nor start an exponent. -/
def EndsNumeral (rest : List Char) : Prop := ∀ c ∈ rest.head?, c.isDigit = false ∧ c ≠ '.' ∧
    c ≠ 'e' ∧ c ≠ 'E'

/-- The same behind a number with this fraction; a second point does not belong to it. -/
def EndsFraction (fraction rest : List Char) : Prop :=
  ∀ c ∈ rest.head?, c.isDigit = false ∧ (fraction = [] → c ≠ '.') ∧ c ≠ 'e' ∧ c ≠ 'E'

theorem EndsNumeral.fraction {rest} (h : EndsNumeral rest) (fraction : List Char) :
    EndsFraction fraction rest := fun c hc =>
  let ⟨hdigit, hpoint, hexponent⟩ := h c hc
  ⟨hdigit, fun _ => hpoint, hexponent⟩

theorem exponentLexeme_of_ends {fraction rest} (h : EndsFraction fraction rest) :
    exponentLexeme rest = [] := by
  unfold exponentLexeme
  split
  · rename_i e sign rest
    obtain ⟨-, -, he, hE⟩ := h e rfl
    rw [if_neg (by simp [he, hE])]
  · rfl

section

variable {whole fraction rest : List Char} (hne : whole ≠ [])
  (hwhole : ∀ c ∈ whole, c.isDigit = true) (hfraction : ∀ c ∈ fraction, c.isDigit = true)
  (hrest : EndsFraction fraction rest)

include hne hwhole hfraction hrest

omit hne in
theorem digitsOf_numeral : digitsOf (numeral whole fraction ++ rest) = whole := by
  unfold numeral
  rw [List.append_assoc]
  refine digitsOf_append hwhole fun c hc => ?_
  cases fraction with
  | nil => exact (hrest c hc).1
  | cons d ds =>
    obtain rfl : '.' = c := by simpa using hc
    rfl

theorem significandLexeme_numeral :
    significandLexeme (numeral whole fraction ++ rest) = numeral whole fraction := by
  unfold significandLexeme
  rw [digitsOf_numeral hwhole hfraction hrest]
  split
  · exact absurd rfl hne
  · unfold numeral
    cases fraction with
    | nil =>
      simp only [List.isEmpty_nil, if_true, List.append_nil, List.drop_left]
      split
      · exact absurd rfl ((hrest '.' rfl).2.1 rfl)
      · rfl
    | cons d ds =>
      have hds : digitsOf (d :: ds ++ rest) = d :: ds :=
        digitsOf_append hfraction fun c hc => (hrest c hc).1
      simp only [List.isEmpty_cons, Bool.false_eq_true, if_false, List.append_assoc, List.drop_left]
      rw [List.cons_append]
      simp only [hds]

/-- A number ends where its digits end. -/
theorem lexeme_numeral : lexeme (numeral whole fraction ++ rest) = numeral whole fraction := by
  have hnonempty : numeral whole fraction ≠ [] := by
    unfold numeral
    simp [hne]
  unfold lexeme
  rw [significandLexeme_numeral hne hwhole hfraction hrest]
  split
  · rename_i hnil
    exact absurd hnil hnonempty
  · rw [List.drop_left, exponentLexeme_of_ends hrest, List.append_nil]

end

theorem ofText?_numeral {whole fraction} (hne : whole ≠ []) (hwhole : ∀ c ∈ whole, c.isDigit = true)
    (hfraction : ∀ c ∈ fraction, c.isDigit = true) :
    Decimal.ofText? (numeral whole fraction) =
      some ⟨naturalOf (whole ++ fraction), -(fraction.length : Int)⟩ := by
  have hends : EndsFraction fraction [] := by simp [EndsFraction]
  have hdigits := digitsOf_numeral hwhole hfraction hends
  rw [List.append_nil] at hdigits
  unfold Decimal.ofText?
  simp only [hdigits]
  have hwholeEmpty : whole.isEmpty = false := by simpa using hne
  unfold numeral
  cases fraction with
  | nil => simp [hwholeEmpty, Decimal.exponentOf?]
  | cons d ds =>
    have hds : digitsOf (d :: ds) = d :: ds := by
      have hend : ∀ c ∈ ([] : List Char).head?, c.isDigit = false := by simp
      simpa using digitsOf_append hfraction hend
    simp [hwholeEmpty, hds, Decimal.exponentOf?]

/-- The digits around a point, as a whole part and a fraction. -/
theorem Digits.positional_spec {d : Digits} (hne : d.digits ≠ [])
    (hdigits : ∀ c ∈ d.digits, c.isDigit = true) :
    ∃ whole fraction : List Char, d.positional.toList = numeral whole fraction ∧ whole ≠ [] ∧
      (∀ c ∈ whole, c.isDigit = true) ∧ (∀ c ∈ fraction, c.isDigit = true) ∧
      ∃ k : Nat, naturalOf (whole ++ fraction) = naturalOf d.digits * 10 ^ k ∧
        -(fraction.length : Int) = d.point - d.digits.length - k := by
  obtain ⟨digits, point⟩ := d
  have hempty : digits.isEmpty = false := by simpa using hne
  have hzeros (n : Nat) : ∀ c ∈ List.replicate n '0', c.isDigit = true := by
    intro c hc
    obtain rfl := List.eq_of_mem_replicate hc
    rfl
  unfold Digits.positional
  simp only [hempty, Bool.false_eq_true, if_false]
  split
  · -- All digits stand behind the point, after some zeros.
    rename_i hpoint
    refine ⟨['0'], List.replicate (-point).toNat '0' ++ digits, ?_, by simp, by simp, ?_, 0, ?_, ?_⟩
    · simp [numeral, Text.repeated, hne]
    · intro c hc
      rcases List.mem_append.mp hc with hc | hc
      · exact hzeros _ c hc
      · exact hdigits c hc
    · rw [naturalOf_append, naturalOf_append, naturalOf_zeros]
      simp [naturalOf, digitValue]
    · rw [List.length_append, List.length_replicate]
      omega
  split
  · -- All digits stand before the point, and zeros may follow them.
    rename_i hpoint hintegral
    have hlength : (digits.length : Int) ≤ point := by simpa [Digits.integral] using hintegral
    refine ⟨digits ++ List.replicate (point.toNat - digits.length) '0', [], ?_, by simp [hne], ?_,
      by simp, point.toNat - digits.length, ?_, ?_⟩
    · simp [numeral, Text.repeated]
    · intro c hc
      rcases List.mem_append.mp hc with hc | hc
      · exact hdigits c hc
      · exact hzeros _ c hc
    · rw [List.append_nil, naturalOf_append, naturalOf_zeros, List.length_replicate, Nat.add_zero]
    · rw [List.length_nil]
      omega
  · -- The point stands among the digits.
    rename_i hpoint hintegral
    have hlength : point < digits.length := by simpa [Digits.integral] using hintegral
    refine ⟨digits.take point.toNat, digits.drop point.toNat, ?_, ?_,
      fun c hc => hdigits c (List.mem_of_mem_take hc),
      fun c hc => hdigits c (List.mem_of_mem_drop hc), 0, ?_, ?_⟩
    · have hdrop : (digits.drop point.toNat).isEmpty = false := by
        simp only [List.isEmpty_eq_false_iff, ne_eq, List.drop_eq_nil_iff]
        omega
      simp [numeral, hdrop]
    · simp only [ne_eq, List.take_eq_nil_iff, not_or]
      exact ⟨by omega, hne⟩
    · rw [List.take_append_drop, Nat.pow_zero, Nat.mul_one]
    · rw [List.length_drop]
      omega

/-- A written magnitude is a numeral, and it is read as the magnitude. -/
theorem Magnitude.positional_spec (x : Magnitude) :
    ∃ whole fraction : List Char, x.digits.positional.toList = numeral whole fraction ∧ whole ≠ [] ∧
      (∀ c ∈ whole, c.isDigit = true) ∧ (∀ c ∈ fraction, c.isDigit = true) ∧
      Double.ofLexeme (numeral whole fraction) = .finite false x := by
  by_cases hzero : x.mantissa = 0
  · have hx : x = .zero := by
      obtain ⟨m, k, hcanonical⟩ := x
      obtain rfl : m = 0 := hzero
      obtain rfl : k = 0 := hcanonical.2.2.resolve_right (by decide)
      rfl
    subst hx
    exact ⟨['0'], [], rfl, by simp, by simp, by simp, rfl⟩
  · have hshortest := Magnitude.ofDecimal_shortest hzero
    have hcoefficient : x.shortest.coefficient ≠ 0 := by
      intro h0
      rw [Double.ofDecimal, if_pos (.inl h0)] at hshortest
      injection hshortest with _ hx
      exact hzero (by rw [← hx]; rfl)
    have hdigits : x.digits = x.shortest.toDigits := by rw [Magnitude.digits, if_neg hzero]
    obtain ⟨hne, hall, k, hd⟩ := Decimal.toDigits_spec hcoefficient
    rw [← hdigits] at hne hall hd
    obtain ⟨whole, fraction, htext, hwne, hwhole, hfraction, k', hvalue, hexponent⟩ :=
      Digits.positional_spec hne hall
    refine ⟨whole, fraction, htext, hwne, hwhole, hfraction, ?_⟩
    rw [Double.ofLexeme, ofText?_numeral hwne hwhole hfraction, hvalue, hexponent]
    simp only [Option.map_some, Option.getD_some]
    rw [Double.ofDecimal_scale, ← hshortest, hd, Double.ofDecimal_scale]

/-! ## Natural numbers -/

/-- From `2^1024` on, the nearest value is infinite. -/
theorem Double.ofNat_eq_infinite {n} (h : 2 ^ 1024 ≤ n) : ofNat n = .infinite false := by
  have hunits : 2 ^ 2098 ≤ n * 2 ^ 1074 := by
    rw [show 2098 = 1024 + 1074 from rfl, Nat.pow_add]
    exact Nat.mul_le_mul_right _ h
  have hne : n * 2 ^ 1074 ≠ 0 := Nat.ne_of_gt (Nat.lt_of_lt_of_le (by positivity) hunits)
  have hshift : 2046 ≤ shiftFor (n * 2 ^ 1074 / 1) := by
    have hlog : 2098 ≤ (n * 2 ^ 1074).log2 := (Nat.le_log2 hne).mpr hunits
    rw [Nat.div_one, shiftFor]
    omega
  have hassembled {m k : Nat} (hk : 2046 ≤ k) : assembled false m k = .infinite false :=
    dif_neg fun hcanonical => by have := hcanonical.2.1; omega
  rw [ofNat, ofRatio_eq]
  simp only
  split
  · exact hassembled (by omega)
  · exact hassembled hshift

/-- A natural number is written as a numeral without a fraction. -/
theorem toString_spec (n : Nat) : (toString n).toList = numeral (Nat.toDigits 10 n) [] ∧
    Nat.toDigits 10 n ≠ [] ∧ ∀ c ∈ Nat.toDigits 10 n, c.isDigit = true := by
  refine ⟨?_, Nat.toDigits_ne_nil,
    fun c hc => Nat.isDigit_of_mem_toDigits (by decide) (by decide) hc⟩
  rw [Nat.toString_eq_repr, Nat.toList_repr]
  simp [numeral]

/-- A written natural number is read as the value nearest to it. -/
theorem Double.ofLexeme_toString (n : Nat) : ofLexeme (toString n).toList = ofNat n := by
  obtain ⟨htext, hne, hdigits⟩ := toString_spec n
  rw [ofLexeme, htext, ofText?_numeral hne hdigits (by simp)]
  simp only [List.append_nil, naturalOf_toDigits, List.length_nil, Option.map_some,
    Option.getD_some]
  rw [ofDecimal]
  simp only
  split
  · rename_i hzero
    obtain rfl : n = 0 := by
      rcases hzero with hzero | hsize
      · exact hzero
      · have := Decimal.digitCount_pos n
        omega
    decide +kernel
  split
  · rename_i hsize
    refine (ofNat_eq_infinite ?_).symm
    have hlarge : 10 ^ 310 ≤ n := by
      by_contra hlt
      have := (Decimal.digitCount_le_iff (show 0 < 310 by decide)).mpr (Nat.lt_of_not_le hlt)
      omega
    exact Nat.le_trans (by decide +kernel) hlarge
  · simp [Decimal.ratio, ofNat]

end IndicatorCompiler.Number
