import ComponentSchema.Binary64.Nearest
import Mathlib.Algebra.Order.Field.Power
import Mathlib.Algebra.Order.Floor.Semifield
import Mathlib.Data.Int.Log
import Mathlib.Data.Rat.Floor
import Mathlib.Tactic.FieldSimp
import Mathlib.Tactic.Linarith
import Mathlib.Tactic.NormNum
import Mathlib.Tactic.Positivity
import Mathlib.Tactic.Ring

/-!
# Laws of rounding

The arithmetic on numerators and denominators computes a function of the quotient alone:
`nearest`, the magnitude of the nearest double. A decimal is rounded as the number that it
stands for, and a number close enough to a finite double is rounded to it.
-/

namespace ComponentSchema

theorem twoPow_eq (n : ℕ) : twoPow n = 2 ^ n := rfl

theorem tenPow_eq (n : ℕ) : tenPow n = 10 ^ n := rfl

namespace Binary64

/-! ## Rounding to an integer -/

/-- The integer nearest to a number that is not negative, a half going to the even one. -/
def roundEven (q : ℚ) : ℕ :=
  if 1 / 2 < q - ⌊q⌋₊ ∨ (q - ⌊q⌋₊ = 1 / 2 ∧ ⌊q⌋₊ % 2 = 1) then ⌊q⌋₊ + 1 else ⌊q⌋₊

theorem roundHalfEven_eq (num : ℕ) {den : ℕ} (hd : 0 < den) :
    roundHalfEven num den = roundEven (num / den) := by
  have hfloor : ⌊(num / den : ℚ)⌋₊ = num / den := Nat.floor_div_eq_div num den
  have hpos : (0 : ℚ) < den := by exact_mod_cast hd
  have hrest : (num / den : ℚ) - (num / den : ℕ) = (num % den : ℕ) / den := by
    have hsplit : ((num / den : ℕ) : ℚ) * den + (num % den : ℕ) = num := by
      exact_mod_cast Nat.div_add_mod' num den
    field_simp
    linarith
  have hlt : (1 / 2 : ℚ) < (num % den : ℕ) / den ↔ den < 2 * (num % den) := by
    rw [div_lt_div_iff₀ two_pos hpos]
    norm_cast
    omega
  have heq : ((num % den : ℕ) / den : ℚ) = 1 / 2 ↔ 2 * (num % den) = den := by
    rw [div_eq_div_iff hpos.ne' two_ne_zero]
    norm_cast
    omega
  simp only [roundHalfEven, roundEven, hfloor, hrest, hlt, heq, Bool.or_eq_true,
    Bool.and_eq_true, decide_eq_true_eq]

theorem floor_le_roundEven (q : ℚ) : ⌊q⌋₊ ≤ roundEven q := by
  unfold roundEven
  split <;> omega

theorem abs_sub_roundEven_le {q : ℚ} (hq : 0 ≤ q) : |(roundEven q : ℚ) - q| ≤ 1 / 2 := by
  have hle := Nat.floor_le hq
  have hlt := Nat.lt_floor_add_one q
  rw [abs_le]
  unfold roundEven
  split
  next h =>
    have hhalf : 1 / 2 ≤ q - ⌊q⌋₊ := by
      rcases h with h | h
      · exact h.le
      · exact h.1.ge
    push_cast
    constructor <;> linarith
  next h =>
    have hhalf : q - ⌊q⌋₊ ≤ 1 / 2 := not_lt.mp fun hn => h (.inl hn)
    constructor <;> linarith

/-- A number that is nearer than a half to an integer is rounded to it. -/
theorem roundEven_of_near {q : ℚ} {k : ℕ} (hq : 0 ≤ q) (h : |q - k| < 1 / 2) :
    roundEven q = k := by
  have hround := abs_le.mp (abs_sub_roundEven_le hq)
  have hnear := abs_lt.mp h
  have hlt : (roundEven q : ℚ) < k + 1 := by linarith
  have hgt : (k : ℚ) < roundEven q + 1 := by linarith
  norm_cast at hlt hgt
  omega

/-! ## Scaled quotients

A power of a base scales the denominator if its exponent is natural, and the numerator
otherwise. Scaling both, one of them by one, is the same. -/

theorem ite_scaled {α : Type} (base : ℕ) (e : ℤ) (num den : ℕ) (f : ℕ → ℕ → α) :
    (if 0 ≤ e then f num (den * base ^ e.toNat) else f (num * base ^ (-e).toNat) den) =
      f (num * base ^ (-e).toNat) (den * base ^ e.toNat) := by
  split
  next h => rw [Int.toNat_of_nonpos (neg_nonpos.mpr h), pow_zero, mul_one]
  next h => rw [Int.toNat_of_nonpos (not_le.mp h).le, pow_zero, mul_one]

theorem div_zpow_eq {base : ℕ} (hb : 0 < base) (num den : ℕ) (e : ℤ) :
    (num / den : ℚ) / (base : ℚ) ^ e =
      (num * base ^ (-e).toNat : ℕ) / (den * base ^ e.toNat : ℕ) := by
  have hb' : (base : ℚ) ≠ 0 := by exact_mod_cast hb.ne'
  obtain ⟨n, rfl | rfl⟩ := Int.eq_nat_or_neg e
  · simp [div_div]
  · simp [zpow_neg, div_mul_eq_mul_div]

theorem div_lt_zpow_iff {base : ℕ} (hb : 0 < base) (num : ℕ) {den : ℕ} (hd : 0 < den) (e : ℤ) :
    (num / den : ℚ) < (base : ℚ) ^ e ↔ num * base ^ (-e).toNat < den * base ^ e.toNat := by
  have hpow : (0 : ℚ) < (base : ℚ) ^ e := zpow_pos (by exact_mod_cast hb) e
  have hden : (0 : ℚ) < (den * base ^ e.toNat : ℕ) := by
    exact_mod_cast Nat.mul_pos hd (Nat.pow_pos hb)
  rw [← div_lt_one hpow, div_zpow_eq hb, div_lt_one hden, Nat.cast_lt]

theorem roundHalfEven_scaled {base : ℕ} (hb : 0 < base) (num : ℕ) {den : ℕ} (hd : 0 < den)
    (e : ℤ) : roundHalfEven (num * base ^ (-e).toNat) (den * base ^ e.toNat) =
      roundEven (num / den / (base : ℚ) ^ e) := by
  rw [div_zpow_eq hb, roundHalfEven_eq _ (Nat.mul_pos hd (Nat.pow_pos hb))]

/-! ## The binary logarithm -/

theorem le_log_of_le {q : ℚ} {e : ℤ} (h : (2 : ℚ) ^ e ≤ q) : e ≤ Int.log 2 q := by
  have hq : 0 < q := lt_of_lt_of_le (zpow_pos two_pos e) h
  exact (Int.zpow_le_iff_le_log (by norm_num) hq).mp (mod_cast h)

theorem log_lt_of_lt {q : ℚ} {e : ℤ} (hq : 0 < q) (h : q < 2 ^ e) : Int.log 2 q < e :=
  (Int.lt_zpow_iff_log_lt (by norm_num) hq).mp (mod_cast h)

theorem log_eq_of_bounds {q : ℚ} {e : ℤ} (hlo : (2 : ℚ) ^ e ≤ q) (hhi : q < 2 ^ (e + 1)) :
    Int.log 2 q = e := by
  have hlt := log_lt_of_lt (lt_of_lt_of_le (zpow_pos two_pos e) hlo) hhi
  have hle := le_log_of_le hlo
  omega

theorem quotientLog2_eq {num den : ℕ} (hn : 0 < num) (hd : 0 < den) :
    quotientLog2 num den = Int.log 2 (num / den : ℚ) := by
  have hden : (0 : ℚ) < den := by exact_mod_cast hd
  have hnum₁ : (2 : ℚ) ^ (num.log2 : ℤ) ≤ num := by exact_mod_cast Nat.log2_self_le hn.ne'
  have hnum₂ : (num : ℚ) < 2 ^ (num.log2 + 1 : ℤ) := by exact_mod_cast Nat.lt_log2_self
  have hden₁ : (2 : ℚ) ^ (den.log2 : ℤ) ≤ den := by exact_mod_cast Nat.log2_self_le hd.ne'
  have hden₂ : (den : ℚ) < 2 ^ (den.log2 + 1 : ℤ) := by exact_mod_cast Nat.lt_log2_self
  -- the difference of the logarithms is the logarithm of the quotient, or one more
  set guess : ℤ := (num.log2 : ℤ) - den.log2 with hguess
  have hlo : (2 : ℚ) ^ (guess - 1) ≤ num / den := by
    rw [le_div_iff₀ hden]
    calc (2 : ℚ) ^ (guess - 1) * den ≤ 2 ^ (guess - 1) * 2 ^ (den.log2 + 1 : ℤ) := by gcongr
      _ = 2 ^ (num.log2 : ℤ) := by rw [← zpow_add₀ two_ne_zero]; congr 1; omega
      _ ≤ num := hnum₁
  have hhi : (num / den : ℚ) < 2 ^ (guess + 1) := by
    rw [div_lt_iff₀ hden]
    calc (num : ℚ) < 2 ^ (num.log2 + 1 : ℤ) := hnum₂
      _ = 2 ^ (guess + 1) * 2 ^ (den.log2 : ℤ) := by rw [← zpow_add₀ two_ne_zero]; congr 1; omega
      _ ≤ 2 ^ (guess + 1) * den := by gcongr
  have hbelow : (if 0 ≤ guess then num < den * twoPow guess.toNat
      else num * twoPow (-guess).toNat < den) ↔ (num / den : ℚ) < 2 ^ guess := by
    rw [show (2 : ℚ) = (2 : ℕ) from rfl, div_lt_zpow_iff two_pos num hd]
    exact iff_of_eq (ite_scaled 2 guess num den (· < ·))
  simp only [quotientLog2, ← hguess]
  by_cases hlt : (num / den : ℚ) < 2 ^ guess
  · rw [if_pos (hbelow.mpr hlt), log_eq_of_bounds hlo (by simpa using hlt)]
  · rw [if_neg (mt hbelow.mp hlt), log_eq_of_bounds (not_lt.mp hlt) hhi]

/-! ## The nearest magnitude -/

/-- The magnitude of the double nearest to a number that is not negative. -/
def nearest (q : ℚ) : ℕ :=
  if q = 0 then 0
  else
    let scale := max (Int.log 2 q - 52) (-1074)
    min infinityMagnitude ((scale + 1074).toNat * 2 ^ 52 + roundEven (q / 2 ^ scale))

theorem nearestMagnitude_eq (num : ℕ) {den : ℕ} (hd : 0 < den) :
    nearestMagnitude num den = nearest (num / den) := by
  have hden : (den : ℚ) ≠ 0 := by exact_mod_cast hd.ne'
  by_cases hn : num = 0
  · simp [nearestMagnitude, nearest, hn]
  · have hq : (num / den : ℚ) ≠ 0 := div_ne_zero (by exact_mod_cast hn) hden
    have hround : ∀ scale : ℤ, (if 0 ≤ scale then roundHalfEven num (den * twoPow scale.toNat)
        else roundHalfEven (num * twoPow (-scale).toNat) den) =
          roundEven (num / den / 2 ^ scale) := by
      intro scale
      rw [show (2 : ℚ) = (2 : ℕ) from rfl, ← roundHalfEven_scaled two_pos num hd]
      exact ite_scaled 2 scale num den roundHalfEven
    rw [nearestMagnitude, nearest, if_neg hn, if_neg hq,
      quotientLog2_eq (Nat.pos_of_ne_zero hn) hd]
    simp only [hround, twoPow_eq 52]

/-- From the power of two above the largest double on, the infinity is the nearest one. -/
theorem nearest_of_large {q : ℚ} (h : (2 : ℚ) ^ (1024 : ℤ) ≤ q) :
    nearest q = infinityMagnitude := by
  have hq : 0 < q := lt_of_lt_of_le (zpow_pos two_pos _) h
  have hlog : 1024 ≤ Int.log 2 q := le_log_of_le h
  have hscale : max (Int.log 2 q - 52) (-1074) = Int.log 2 q - 52 := by omega
  have hexp : 2046 ≤ (Int.log 2 q - 52 + 1074).toNat := by omega
  have hround : 2 ^ 52 ≤ roundEven (q / 2 ^ (Int.log 2 q - 52)) := by
    refine le_trans (Nat.le_floor ?_) (floor_le_roundEven _)
    rw [le_div_iff₀ (by positivity), Nat.cast_pow, Nat.cast_ofNat, ← zpow_natCast,
      ← zpow_add₀ two_ne_zero]
    simpa using Int.zpow_log_le_self (b := 2) (by norm_num) hq
  simp only [nearest, if_neg hq.ne', hscale]
  refine min_eq_left ?_
  calc infinityMagnitude = 2046 * 2 ^ 52 + 2 ^ 52 := by norm_num [infinityMagnitude, twoPow_eq]
    _ ≤ _ := Nat.add_le_add (Nat.mul_le_mul_right _ hexp) hround

/-- A number below half of the smallest double is rounded to zero. -/
theorem nearest_of_small {q : ℚ} (hq : 0 ≤ q) (h : q < 2 ^ (-1075 : ℤ)) : nearest q = 0 := by
  by_cases hz : q = 0
  · rw [nearest, if_pos hz]
  have hpos : 0 < q := lt_of_le_of_ne hq (Ne.symm hz)
  have hlog : Int.log 2 q < -1075 := log_lt_of_lt hpos h
  have hscale : max (Int.log 2 q - 52) (-1074) = -1074 := by omega
  have hscaled : q / 2 ^ (-1074 : ℤ) < 1 / 2 := by
    rw [div_lt_iff₀ (by positivity)]
    calc q < 2 ^ (-1075 : ℤ) := h
      _ = 1 / 2 * 2 ^ (-1074 : ℤ) := by
        rw [show (-1075 : ℤ) = -1 + -1074 from rfl, zpow_add₀ two_ne_zero, zpow_neg_one, one_div]
  have hround : roundEven (q / 2 ^ (-1074 : ℤ)) = 0 := by
    have hnonneg : 0 ≤ q / 2 ^ (-1074 : ℤ) := by positivity
    refine roundEven_of_near hnonneg ?_
    rwa [Nat.cast_zero, sub_zero, abs_of_nonneg hnonneg]
  simp only [nearest, if_neg hz, hscale, hround]
  rfl

theorem eight_pow_le (n : ℕ) : (2 : ℚ) ^ (3 * n : ℤ) ≤ 10 ^ (n : ℤ) := by
  rw [zpow_mul, zpow_natCast, zpow_natCast]
  exact pow_le_pow_left₀ (by positivity) (by norm_num) n

/-- A decimal is rounded as the number that it stands for; the two shortcuts change
nothing. -/
theorem decimalMagnitude_eq (digits : ℕ) (e : ℤ) :
    decimalMagnitude digits e = nearest (digits * 10 ^ e) := by
  unfold decimalMagnitude
  split_ifs with hz hbig hsmall hnat
  · simp [hz, nearest]
  · have hone : (1 : ℚ) ≤ digits := by exact_mod_cast Nat.one_le_iff_ne_zero.mpr hz
    refine (nearest_of_large ?_).symm
    calc (2 : ℚ) ^ (1024 : ℤ) ≤ 2 ^ (3 * (401 : ℕ) : ℤ) :=
          zpow_le_zpow_right₀ (by norm_num) (by norm_num)
      _ ≤ 10 ^ ((401 : ℕ) : ℤ) := eight_pow_le 401
      _ ≤ 10 ^ e := zpow_le_zpow_right₀ (by norm_num) (by omega)
      _ ≤ digits * 10 ^ e := le_mul_of_one_le_left (by positivity) hone
  · refine (nearest_of_small (by positivity) ?_).symm
    have hdigits : (digits : ℚ) < 2 ^ (digits.log2 + 1 : ℤ) := by exact_mod_cast Nat.lt_log2_self
    obtain ⟨n, rfl⟩ : ∃ n : ℕ, e = -(n : ℤ) := ⟨(-e).toNat, by omega⟩
    have hpower : (10 : ℚ) ^ (-(n : ℤ)) ≤ 2 ^ (-(3 * n : ℤ)) := by
      rw [zpow_neg, zpow_neg]
      exact inv_anti₀ (zpow_pos two_pos _) (eight_pow_le n)
    calc (digits : ℚ) * 10 ^ (-(n : ℤ)) < 2 ^ (digits.log2 + 1 : ℤ) * 10 ^ (-(n : ℤ)) := by gcongr
      _ ≤ 2 ^ (digits.log2 + 1 : ℤ) * 2 ^ (-(3 * n : ℤ)) := by gcongr
      _ = 2 ^ (digits.log2 + 1 + -(3 * n) : ℤ) := (zpow_add₀ two_ne_zero _ _).symm
      _ ≤ 2 ^ (-1075 : ℤ) := zpow_le_zpow_right₀ (by norm_num) (by omega)
  · rw [nearestMagnitude_eq _ one_pos]
    obtain ⟨n, rfl⟩ := Int.eq_ofNat_of_zero_le hnat
    simp [tenPow_eq]
  · have hpos : 0 < tenPow (-e).toNat := Nat.pow_pos (by norm_num)
    rw [nearestMagnitude_eq _ hpos]
    obtain ⟨n, rfl⟩ : ∃ n : ℕ, e = -(n : ℤ) := ⟨(-e).toNat, by omega⟩
    simp [tenPow_eq, zpow_neg, div_eq_mul_inv]

/-! ## The value of a double -/

/-- The number that a finite magnitude stands for. -/
def value (x : Binary64) : ℚ := x.significand * 2 ^ x.exponent

theorem ratio_pos (x : Binary64) : 0 < x.ratio.2 := by
  unfold ratio
  split
  · exact one_pos
  · exact Nat.pow_pos two_pos

theorem ratio_eq (x : Binary64) : (x.ratio.1 / x.ratio.2 : ℚ) = x.value := by
  unfold ratio value
  split
  next h =>
    obtain ⟨n, hn⟩ := Int.eq_ofNat_of_zero_le h
    simp [hn, twoPow_eq]
  next h =>
    obtain ⟨n, hn⟩ : ∃ n : ℕ, x.exponent = -(n : ℤ) := ⟨(-x.exponent).toNat, by omega⟩
    simp [hn, twoPow_eq, zpow_neg, div_eq_mul_inv]

theorem magnitude_lt_twoPow (x : Binary64) : x.magnitude < twoPow 63 :=
  Nat.mod_lt _ (by norm_num [twoPow_eq])

theorem exponent_ge (x : Binary64) : -1074 ≤ x.exponent := by
  unfold exponent
  omega

theorem exponent_le (x : Binary64) : x.exponent ≤ 972 := by
  have hlt := x.magnitude_lt_twoPow
  simp only [exponent, exponentField, twoPow_eq] at *
  omega

theorem fraction_lt (x : Binary64) : x.fraction < 2 ^ 52 :=
  Nat.mod_lt _ (by norm_num [twoPow_eq])

theorem significand_lt (x : Binary64) : x.significand < 2 ^ 53 := by
  have h := x.fraction_lt
  unfold significand
  rw [twoPow_eq]
  split <;> omega

/-- Either the leading bit of the significand is set, or the exponent is the least one. -/
theorem significand_ge_or (x : Binary64) : 2 ^ 52 ≤ x.significand ∨ x.exponent = -1074 := by
  unfold significand exponent
  rw [twoPow_eq]
  split
  next h => exact .inr (by rw [h]; rfl)
  next h => exact .inl (by omega)

theorem magnitude_split (x : Binary64) :
    x.magnitude = x.exponentField * 2 ^ 52 + x.fraction := by
  rw [exponentField, fraction, twoPow_eq, Nat.div_add_mod']

/-- The magnitude counts the doubles below it: a binade for each exponent, and a step for
each significand in the last one. -/
theorem magnitude_eq (x : Binary64) :
    x.magnitude = (x.exponent + 1074).toNat * 2 ^ 52 + x.significand := by
  rw [magnitude_split, exponent, significand, twoPow_eq]
  split
  next h => simp [h]
  next h =>
    have hexp : ((max x.exponentField 1 : ℕ) - 1075 + 1074 : ℤ).toNat + 1 = x.exponentField := by
      omega
    rw [← Nat.add_assoc, ← Nat.succ_mul, Nat.succ_eq_add_one, hexp]

theorem magnitude_lt {x : Binary64} (h : x.isFinite = true) : x.magnitude < infinityMagnitude := by
  have hne : x.exponentField ≠ 2047 := by simpa [isFinite] using h
  have hlt := x.magnitude_lt_twoPow
  simp only [exponentField, infinityMagnitude, twoPow_eq] at *
  omega

theorem value_pos {x : Binary64} (hz : x.magnitude ≠ 0) : 0 < x.value := by
  have hsig : x.significand ≠ 0 := by
    intro h
    have hmag := x.magnitude_eq
    rcases x.significand_ge_or with hge | he
    · omega
    · rw [h, he] at hmag
      exact hz hmag
  have hpos : (0 : ℚ) < x.significand := by exact_mod_cast Nat.pos_of_ne_zero hsig
  exact mul_pos hpos (zpow_pos two_pos _)

/-- The word is made of its sign and its magnitude. -/
theorem ofMagnitude_self (x : Binary64) : ofMagnitude x.isNegative x.magnitude = x := by
  have hlt := x.bits.toNat_lt
  have hbits : (if x.isNegative = true then twoPow 63 else 0) + x.magnitude = x.bits.toNat := by
    by_cases h : twoPow 63 ≤ x.bits.toNat <;> simp only [isNegative, magnitude, h] <;>
      simp only [twoPow_eq] at h ⊢ <;> norm_num <;> omega
  rw [ofMagnitude, hbits, UInt64.ofNat_toNat]

theorem eq_infinity {x : Binary64} (hx : x.isFinite = false) (hn : x.isNaN = false) :
    x = infinity x.isNegative := by
  have hexp : x.exponentField = 2047 := by simpa [isFinite] using hx
  have hfrac : x.fraction = 0 := by simpa [isNaN, hx] using hn
  have hmag : x.magnitude = infinityMagnitude := by
    rw [magnitude_split, hexp, hfrac, infinityMagnitude, twoPow_eq, Nat.add_zero]
  rw [infinity, ← hmag, ofMagnitude_self]

/-! ## Numbers near a double -/

/-- The nearest double, where the binade of a number is known: `e` is the exponent of its
last place, and `k` the integer that it is near to in units of that place. -/
theorem nearest_of_scale {r : ℚ} {e : ℤ} {k : ℕ} (hr : 0 < r) (he : -1074 ≤ e)
    (hlow : 2 ^ 52 ≤ r ∨ e = -1074) (hhigh : r < 2 ^ 53) (hk : |r - k| < 1 / 2) :
    nearest (r * 2 ^ e) = min infinityMagnitude ((e + 1074).toNat * 2 ^ 52 + k) := by
  have hpow : (0 : ℚ) < 2 ^ e := zpow_pos two_pos e
  have hpos : 0 < r * 2 ^ e := mul_pos hr hpow
  have hlt : Int.log 2 (r * 2 ^ e) < 53 + e := by
    refine log_lt_of_lt hpos ?_
    rw [zpow_add₀ two_ne_zero]
    exact mul_lt_mul_of_pos_right (mod_cast hhigh) hpow
  have hscale : max (Int.log 2 (r * 2 ^ e) - 52) (-1074) = e := by
    rcases hlow with hlow | rfl
    · have hle : 52 + e ≤ Int.log 2 (r * 2 ^ e) := by
        refine le_log_of_le ?_
        rw [zpow_add₀ two_ne_zero]
        exact mul_le_mul_of_nonneg_right (mod_cast hlow) hpow.le
      omega
    · omega
  simp only [nearest, if_neg hpos.ne', hscale, mul_div_cancel_right₀ r hpow.ne',
    roundEven_of_near hr.le hk]

/-- A number that is much nearer to a finite double than the double is large is rounded to
it. Just below a power of two the doubles are twice as dense, and the number may fall there. -/
theorem nearest_of_near {x : Binary64} {q : ℚ} (hx : x.isFinite = true)
    (h : |q - x.value| * 2 ^ 54 < x.value) : nearest q = x.magnitude := by
  have hpow : (0 : ℚ) < 2 ^ x.exponent := zpow_pos two_pos _
  have hsig : (x.significand : ℚ) + 1 ≤ 2 ^ 53 := by exact_mod_cast x.significand_lt
  -- everything is said in units of the last place
  obtain ⟨r, rfl⟩ : ∃ r, q = r * 2 ^ x.exponent := ⟨q / 2 ^ x.exponent, by field_simp⟩
  have hnear : |r - x.significand| < x.significand / 2 ^ 54 := by
    rw [value, ← sub_mul, abs_mul, abs_of_pos hpow, mul_right_comm] at h
    rw [lt_div_iff₀ (by positivity)]
    exact lt_of_mul_lt_mul_right h hpow.le
  obtain ⟨hlo, hhi⟩ := abs_lt.mp hnear
  have hpos : (0 : ℚ) < r := by linarith
  rw [← min_eq_right (magnitude_lt hx).le, magnitude_eq]
  by_cases hlow : 2 ^ 52 ≤ r ∨ x.exponent = -1074
  · exact nearest_of_scale hpos x.exponent_ge hlow (by linarith) (by linarith)
  · obtain ⟨hr, he⟩ := not_or.mp hlow
    -- the significand is the least one of its binade, and the number lies in the one below
    have hge : 2 ^ 52 ≤ x.significand := x.significand_ge_or.resolve_right he
    have hlt : x.significand < 2 ^ 52 + 1 := by
      have hlt : (x.significand : ℚ) < 2 ^ 52 + 1 := by linarith
      exact_mod_cast hlt
    have hleast : x.significand = 2 ^ 52 := Nat.le_antisymm (Nat.lt_succ_iff.mp hlt) hge
    rw [hleast] at hlo hhi ⊢
    push_cast at hlo hhi
    have hdouble : r * 2 ^ x.exponent = (2 * r) * 2 ^ (x.exponent - 1) := by
      rw [zpow_sub_one₀ two_ne_zero]
      ring
    have hbelow : |2 * r - (2 ^ 53 : ℕ)| < 1 / 2 := by
      push_cast
      rw [abs_lt]
      constructor <;> linarith
    have hexp : -1074 ≤ x.exponent - 1 := by
      have := x.exponent_ge
      omega
    rw [hdouble,
      nearest_of_scale (by linarith) hexp (.inl (by linarith)) (by linarith) hbelow,
      show (x.exponent + 1074).toNat = (x.exponent - 1 + 1074).toNat + 1 by omega,
      Nat.succ_mul, Nat.add_assoc, ← Nat.two_mul, ← pow_succ']

end Binary64

end ComponentSchema
