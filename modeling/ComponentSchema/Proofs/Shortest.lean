import ComponentSchema.Binary64.Shortest
import ComponentSchema.Proofs.Nearest

/-!
# Laws of shortest decimals

Seventeen digits are enough for every finite double, so the search for a decimal always
finds one, and what it finds reads back as the double.
-/

namespace ComponentSchema

/-- The number that a decimal stands for. -/
def Decimal.value (d : Decimal) : ℚ := d.digits * 10 ^ d.exponent

theorem Decimal.value_carry (n : ℕ) (d : Decimal) : (d.carry n).value = d.value := by
  unfold carry
  split
  next h =>
    rw [value, value, h, tenPow_eq]
    push_cast
    rw [zpow_add₀ (by norm_num), one_mul, mul_comm]
    norm_cast
  next => rfl

namespace Binary64

theorem readsAs_iff {magnitude : ℕ} {d : Decimal} :
    readsAs magnitude d = true ↔ nearest d.value = magnitude := by
  rw [readsAs, decide_eq_true_eq, decimalMagnitude_eq, Decimal.value]

/-! ## The decimal logarithm -/

theorem tenPowerLe_iff (power : ℤ) (num : ℕ) {den : ℕ} (hd : 0 < den) :
    tenPowerLe power num den = true ↔ (10 : ℚ) ^ power ≤ num / den := by
  have hscaled : tenPowerLe power num den =
      decide (den * 10 ^ power.toNat ≤ num * 10 ^ (-power).toNat) :=
    ite_scaled 10 power num den fun n d => decide (d ≤ n)
  rw [← not_lt, show (10 : ℚ) = (10 : ℕ) from rfl, div_lt_zpow_iff (by norm_num) num hd, not_lt,
    hscaled, decide_eq_true_iff]

/-- Powers of ten and of two are compared through a common multiple of their exponents. -/
theorem ten_zpow_le_two_zpow {e l : ℤ} {a b : ℕ} (hb : b ≠ 0)
    (hpow : ((10 : ℚ) ^ a) ^ l ≤ ((2 : ℚ) ^ b) ^ l) (h : e * b ≤ a * l) :
    (10 : ℚ) ^ e ≤ 2 ^ l := by
  refine (pow_le_pow_iff_left₀ (by positivity) (by positivity) hb).mp ?_
  calc ((10 : ℚ) ^ e) ^ b = 10 ^ (e * b) := by rw [zpow_mul, zpow_natCast]
    _ ≤ 10 ^ (a * l : ℤ) := zpow_le_zpow_right₀ (by norm_num) h
    _ = (10 ^ a) ^ l := by rw [zpow_mul, zpow_natCast]
    _ ≤ (2 ^ b) ^ l := hpow
    _ = (2 ^ l) ^ b := by rw [← zpow_natCast, ← zpow_natCast, zpow_comm]

/-- The decimal logarithm guessed from a binary one is at most one too large. -/
theorem ten_zpow_guess_le {l : ℤ} (h : -1100 ≤ l) (h' : l ≤ 1100) :
    (10 : ℚ) ^ (l * 1233 / 4096 - 1) ≤ 2 ^ l := by
  rcases le_or_gt 0 l with hl | hl
  · have hpow : ((10 : ℚ) ^ 59) ^ l ≤ ((2 : ℚ) ^ 196) ^ l :=
      zpow_le_zpow_left₀ hl (by positivity) (by norm_num)
    exact ten_zpow_le_two_zpow (by norm_num) hpow (by omega)
  · obtain ⟨n, rfl⟩ : ∃ n : ℕ, l = -(n : ℤ) := ⟨(-l).toNat, by omega⟩
    have hpow : ((10 : ℚ) ^ 28) ^ (-(n : ℤ)) ≤ ((2 : ℚ) ^ 93) ^ (-(n : ℤ)) := by
      rw [zpow_neg, zpow_neg, zpow_natCast, zpow_natCast]
      exact inv_anti₀ (by positivity) (pow_le_pow_left₀ (by positivity) (by norm_num) n)
    exact ten_zpow_le_two_zpow (by norm_num) hpow (by omega)

theorem ten_zpow_quotientLog10_le {num den : ℕ} (hn : 0 < num) (hd : 0 < den)
    (h : -1100 ≤ quotientLog2 num den) (h' : quotientLog2 num den ≤ 1100) :
    (10 : ℚ) ^ quotientLog10 num den ≤ num / den := by
  simp only [quotientLog10]
  split_ifs with hup hguess
  · exact (tenPowerLe_iff _ _ hd).mp hup
  · exact (tenPowerLe_iff _ _ hd).mp hguess
  · refine (ten_zpow_guess_le h h').trans ?_
    rw [quotientLog2_eq hn hd]
    have hq : (0 : ℚ) < num / den := by positivity
    simpa using Int.zpow_log_le_self (b := 2) (by norm_num) hq

/-- The binary logarithm of a double is well within the range where it gives the decimal
one. -/
theorem log_value_bounds {x : Binary64} (hz : x.magnitude ≠ 0) :
    -1100 ≤ Int.log 2 x.value ∧ Int.log 2 x.value ≤ 1100 := by
  have hpos := value_pos hz
  have hpow : (0 : ℚ) < 2 ^ x.exponent := zpow_pos two_pos _
  have hone : (1 : ℚ) ≤ x.significand := by
    have hsig : (0 : ℚ) < x.significand := pos_of_mul_pos_left hpos hpow.le
    exact_mod_cast hsig
  have hlo : (2 : ℚ) ^ x.exponent ≤ x.value := le_mul_of_one_le_left hpow.le hone
  have hhi : x.value < 2 ^ (53 + x.exponent) := by
    rw [zpow_add₀ two_ne_zero]
    exact mul_lt_mul_of_pos_right (mod_cast x.significand_lt) hpow
  have hge := le_log_of_le hlo
  have hlt := log_lt_of_lt hpos hhi
  have hexp := x.exponent_ge
  have hexp' := x.exponent_le
  omega

/-! ## Grids of decimals -/

theorem roundHalfEven_eq_or (num den : ℕ) :
    roundHalfEven num den = num / den ∨ roundHalfEven num den = num / den + 1 := by
  simp only [roundHalfEven]
  split
  · exact .inr rfl
  · exact .inl rfl

/-- The first neighbour on a grid of decimals is the nearest one. -/
theorem gridNeighbours_eq (power : ℤ) (num : ℕ) {den : ℕ} (hd : 0 < den) :
    ∃ other, gridNeighbours power num den =
      [⟨roundEven (num / den / 10 ^ power), power⟩, other] := by
  have hscaled : (if 0 ≤ power then (num, den * tenPow power.toNat)
      else (num * tenPow (-power).toNat, den)) =
        (num * 10 ^ (-power).toNat, den * 10 ^ power.toNat) :=
    ite_scaled 10 power num den Prod.mk
  rw [show (10 : ℚ) = (10 : ℕ) from rfl, ← roundHalfEven_scaled (by norm_num) num hd,
    gridNeighbours]
  simp only [hscaled]
  split
  next h => exact ⟨_, by rw [h]⟩
  next h => exact ⟨_, by rw [(roundHalfEven_eq_or _ _).resolve_left h]⟩

/-- Seventeen digits are enough: the nearest decimal with as many reads back as the
double. -/
theorem nearest_seventeen_digits {x : Binary64} {top : ℤ} (hx : x.isFinite = true)
    (hz : x.magnitude ≠ 0) (htop : (10 : ℚ) ^ top ≤ x.value) :
    nearest (Decimal.value ⟨roundEven (x.value / 10 ^ (top - 16)), top - 16⟩) = x.magnitude := by
  have hvalue := value_pos hz
  have hpow : (0 : ℚ) < 10 ^ (top - 16) := by positivity
  have hstep : (10 : ℚ) ^ (top - 16) * 10 ^ 16 ≤ x.value := by
    calc (10 : ℚ) ^ (top - 16) * 10 ^ 16 = 10 ^ (top - 16 + (16 : ℕ)) := by
          rw [zpow_add₀ (by norm_num), zpow_natCast]
      _ = 10 ^ top := by congr 1; omega
      _ ≤ x.value := htop
  simp only [Decimal.value]
  generalize (10 : ℚ) ^ (top - 16) = step at hpow hstep ⊢
  -- the decimal is off by half a step of the grid at most
  have hround := abs_sub_roundEven_le (div_nonneg hvalue.le hpow.le)
  have herror : |roundEven (x.value / step) * step - x.value| ≤ 1 / 2 * step := by
    calc |roundEven (x.value / step) * step - x.value|
        = |(roundEven (x.value / step) - x.value / step) * step| := by field_simp
      _ = |roundEven (x.value / step) - x.value / step| * step := by rw [abs_mul, abs_of_pos hpow]
      _ ≤ 1 / 2 * step := mul_le_mul_of_nonneg_right hround hpow.le
  exact nearest_of_near hx (by linarith)

/-! ## The search -/

/-- The decimal that is found with `n + 1` digits. -/
def attempt? (x : Binary64) (n : ℕ) : Option Decimal :=
  ((gridNeighbours (quotientLog10 x.ratio.1 x.ratio.2 - n) x.ratio.1 x.ratio.2).find?
    (readsAs x.magnitude)).map (Decimal.carry n)

theorem shortest_eq (x : Binary64) :
    x.shortest = ((List.range 17).findSome? x.attempt?).getD ⟨x.significand, x.exponent⟩ := rfl

theorem nearest_of_attempt? {x : Binary64} {n : ℕ} {d : Decimal} (h : x.attempt? n = some d) :
    nearest d.value = x.magnitude := by
  obtain ⟨found, hfind, rfl⟩ := Option.map_eq_some_iff.mp h
  rw [Decimal.value_carry]
  exact readsAs_iff.mp (List.find?_some hfind)

theorem attempt?_last {x : Binary64} (hx : x.isFinite = true) (hz : x.magnitude ≠ 0) :
    (x.attempt? 16).isSome := by
  have hden := x.ratio_pos
  have hvalue : (0 : ℚ) < x.ratio.1 / x.ratio.2 := by
    rw [ratio_eq]
    exact value_pos hz
  have hnum : 0 < x.ratio.1 := by
    refine Nat.pos_of_ne_zero fun h => ?_
    simp [h] at hvalue
  have htop : (10 : ℚ) ^ quotientLog10 x.ratio.1 x.ratio.2 ≤ x.value := by
    have hlog := quotientLog2_eq hnum hden
    have hbounds := log_value_bounds hz
    rw [ratio_eq] at hlog
    rw [← ratio_eq]
    exact ten_zpow_quotientLog10_le hnum hden (by omega) (by omega)
  obtain ⟨other, hgrid⟩ :=
    gridNeighbours_eq (quotientLog10 x.ratio.1 x.ratio.2 - 16) x.ratio.1 hden
  have hreads := readsAs_iff.mpr (nearest_seventeen_digits hx hz htop)
  rw [ratio_eq] at hgrid
  rw [attempt?, Nat.cast_ofNat, hgrid, List.find?_cons_of_pos hreads]
  rfl

/-- The shortest decimal of a double reads back as the double. -/
theorem nearest_shortest {x : Binary64} (hx : x.isFinite = true) (hz : x.magnitude ≠ 0) :
    nearest x.shortest.value = x.magnitude := by
  have hsome : ((List.range 17).findSome? x.attempt?).isSome :=
    List.findSome?_isSome_iff.mpr ⟨16, by decide, attempt?_last hx hz⟩
  obtain ⟨d, hd⟩ := Option.isSome_iff_exists.mp hsome
  obtain ⟨n, -, hn⟩ := List.exists_of_findSome?_eq_some hd
  rw [shortest_eq, hd, Option.getD_some]
  exact nearest_of_attempt? hn

end Binary64

end ComponentSchema
