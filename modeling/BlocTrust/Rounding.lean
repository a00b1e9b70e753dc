import Mathlib.Algebra.Order.Floor.Ring
import Mathlib.Tactic.Linarith
import Mathlib.Tactic.FieldSimp
import Mathlib.Algebra.Order.Field.Power
import Mathlib.Tactic.Positivity
import BlocTrust.RiskEngine

/-!
Rounding to 53 significant bits.
A positive number lies between two consecutive powers of two; it is scaled to an integer part of
53 bits, rounded to an integer with ties to even, and scaled back.  Rounding is monotone, commutes
with doubling and moves a number by at most half a unit of its last place.
-/
namespace BlocTrust

/-- The nearest integer, ties to even. -/
def roundEven (x : ℚ) : ℤ :=
  if x - x.floor < 1 / 2 then x.floor
  else if 1 / 2 < x - x.floor then x.floor + 1
  else if x.floor % 2 = 0 then x.floor else x.floor + 1

section Integers

variable {x y : ℚ}

theorem roundEven_cases (x : ℚ) : roundEven x = x.floor ∧ x - x.floor ≤ 1 / 2 ∨
    roundEven x = x.floor + 1 ∧ 1 / 2 ≤ x - x.floor := by
  unfold roundEven
  split
  · rename_i h
    exact .inl ⟨rfl, le_of_lt h⟩
  · rename_i h
    split
    · rename_i h'
      exact .inr ⟨rfl, le_of_lt h'⟩
    · rename_i h'
      split
      · exact .inl ⟨rfl, not_lt.mp h'⟩
      · exact .inr ⟨rfl, not_lt.mp h⟩

theorem roundEven_error (x : ℚ) : |(roundEven x : ℚ) - x| ≤ 1 / 2 := by
  have hfloor : (x.floor : ℚ) ≤ x := Rat.floor_le x
  have hlt : x < x.floor + 1 := by
    have h := Rat.lt_floor_add_one x
    exact_mod_cast h
  rcases roundEven_cases x with ⟨heq, hhalf⟩ | ⟨heq, hhalf⟩
  · rw [heq, abs_le]
    constructor <;> linarith
  · rw [heq, abs_le]
    push_cast
    constructor <;> linarith

theorem roundEven_intCast (n : ℤ) : roundEven n = n := by
  have hfloor : (n : ℚ).floor = n := Rat.floor_intCast n
  unfold roundEven
  rw [hfloor, sub_self, if_pos (by norm_num)]

theorem roundEven_mono (h : x ≤ y) : roundEven x ≤ roundEven y := by
  have hfloor : x.floor ≤ y.floor := Rat.floor_monotone h
  have hlow : y.floor ≤ roundEven y := by
    rcases roundEven_cases y with ⟨heq, -⟩ | ⟨heq, -⟩ <;> omega
  have hhigh : roundEven x ≤ x.floor + 1 := by
    rcases roundEven_cases x with ⟨heq, -⟩ | ⟨heq, -⟩ <;> omega
  by_cases hsame : x.floor = y.floor
  · unfold roundEven
    rw [hsame]
    by_cases hx : x - y.floor < 1 / 2
    · rw [if_pos hx]
      split
      · exact le_refl _
      · split
        · omega
        · split <;> omega
    · have hy' : ¬ y - y.floor < 1 / 2 := by linarith
      rw [if_neg hx, if_neg hy']
      by_cases hx' : 1 / 2 < x - y.floor
      · have hy : 1 / 2 < y - y.floor := by linarith
        rw [if_pos hx', if_pos hy]
      · rw [if_neg hx']
        by_cases hy : 1 / 2 < y - y.floor
        · rw [if_pos hy]
          split <;> omega
        · rw [if_neg hy]
  · omega

end Integers

/-- The power of two just below a positive number. -/
def binaryExponent (q : ℚ) : ℤ :=
  if (2 : ℚ) ^ ((Nat.log2 q.num.toNat : ℤ) - (Nat.log2 q.den : ℤ)) ≤ q then
    (Nat.log2 q.num.toNat : ℤ) - (Nat.log2 q.den : ℤ)
  else (Nat.log2 q.num.toNat : ℤ) - (Nat.log2 q.den : ℤ) - 1

section Exponents

variable {q r : ℚ}

theorem binaryExponent_spec (hq : 0 < q) :
    (2 : ℚ) ^ binaryExponent q ≤ q ∧ q < (2 : ℚ) ^ (binaryExponent q + 1) := by
  have hnum : 0 < q.num := Rat.num_pos.mpr hq
  obtain ⟨n, hn⟩ := Int.eq_ofNat_of_zero_le (le_of_lt hnum)
  have hn' : q.num.toNat = n := by omega
  have hpos : n ≠ 0 := by omega
  have hden : q.den ≠ 0 := q.den_nz
  have hq' : q = (n : ℚ) / q.den := by
    conv_lhs => rw [← Rat.num_div_den q]
    rw [hn]
    rfl
  have h2 : (0 : ℚ) < 2 := by norm_num
  have hdpos : (0 : ℚ) < q.den := by exact_mod_cast Nat.pos_of_ne_zero hden
  -- the numerator and the denominator lie between powers of two
  have hnlow : (2 : ℚ) ^ (Nat.log2 n : ℤ) ≤ n := by
    rw [zpow_natCast]
    exact_mod_cast Nat.log2_self_le hpos
  have hnhigh : (n : ℚ) < (2 : ℚ) ^ ((Nat.log2 n : ℤ) + 1) := by
    have h := Nat.lt_log2_self (n := n)
    have hcast : ((Nat.log2 n : ℤ) + 1) = ((Nat.log2 n + 1 : ℕ) : ℤ) := by push_cast; rfl
    rw [hcast, zpow_natCast]
    exact_mod_cast h
  have hdlow : (2 : ℚ) ^ (Nat.log2 q.den : ℤ) ≤ q.den := by
    rw [zpow_natCast]
    exact_mod_cast Nat.log2_self_le hden
  have hdhigh : (q.den : ℚ) < (2 : ℚ) ^ ((Nat.log2 q.den : ℤ) + 1) := by
    have h := Nat.lt_log2_self (n := q.den)
    have hcast : ((Nat.log2 q.den : ℤ) + 1) = ((Nat.log2 q.den + 1 : ℕ) : ℤ) := by push_cast; rfl
    rw [hcast, zpow_natCast]
    exact_mod_cast h
  have hlow : (2 : ℚ) ^ ((Nat.log2 n : ℤ) - (Nat.log2 q.den : ℤ) - 1) ≤ q := by
    conv_rhs => rw [hq']
    rw [le_div_iff₀ hdpos]
    calc (2 : ℚ) ^ ((Nat.log2 n : ℤ) - (Nat.log2 q.den : ℤ) - 1) * q.den
        ≤ (2 : ℚ) ^ ((Nat.log2 n : ℤ) - (Nat.log2 q.den : ℤ) - 1) *
            (2 : ℚ) ^ ((Nat.log2 q.den : ℤ) + 1) :=
          mul_le_mul_of_nonneg_left (le_of_lt hdhigh) (by positivity)
      _ = (2 : ℚ) ^ (Nat.log2 n : ℤ) := by
          rw [← zpow_add₀ (by norm_num)]
          congr 1
          ring
      _ ≤ n := hnlow
  have hhigh : q < (2 : ℚ) ^ ((Nat.log2 n : ℤ) - (Nat.log2 q.den : ℤ) + 1) := by
    conv_lhs => rw [hq']
    rw [div_lt_iff₀ hdpos]
    calc (n : ℚ) < (2 : ℚ) ^ ((Nat.log2 n : ℤ) + 1) := hnhigh
      _ = (2 : ℚ) ^ ((Nat.log2 n : ℤ) - (Nat.log2 q.den : ℤ) + 1) *
            (2 : ℚ) ^ (Nat.log2 q.den : ℤ) := by
          rw [← zpow_add₀ (by norm_num)]
          congr 1
          ring
      _ ≤ (2 : ℚ) ^ ((Nat.log2 n : ℤ) - (Nat.log2 q.den : ℤ) + 1) * q.den :=
          mul_le_mul_of_nonneg_left hdlow (by positivity)
  unfold binaryExponent
  rw [hn']
  split
  · rename_i h
    exact ⟨h, hhigh⟩
  · rename_i h
    exact ⟨hlow, by rw [sub_add_cancel]; exact not_le.mp h⟩

theorem binaryExponent_unique (hq : 0 < q) {k : ℤ} (hlow : (2 : ℚ) ^ k ≤ q)
    (hhigh : q < (2 : ℚ) ^ (k + 1)) : binaryExponent q = k := by
  obtain ⟨hlow', hhigh'⟩ := binaryExponent_spec hq
  have h1 : k < binaryExponent q + 1 :=
    (zpow_lt_zpow_iff_right₀ (by norm_num : (1 : ℚ) < 2)).mp (lt_of_le_of_lt hlow hhigh')
  have h2 : binaryExponent q < k + 1 :=
    (zpow_lt_zpow_iff_right₀ (by norm_num : (1 : ℚ) < 2)).mp (lt_of_le_of_lt hlow' hhigh)
  omega

theorem binaryExponent_mono (hq : 0 < q) (h : q ≤ r) : binaryExponent q ≤ binaryExponent r := by
  have hlow := (binaryExponent_spec hq).1
  have hhigh := (binaryExponent_spec (lt_of_lt_of_le hq h)).2
  have hlt : binaryExponent q < binaryExponent r + 1 :=
    (zpow_lt_zpow_iff_right₀ (by norm_num : (1 : ℚ) < 2)).mp
      (lt_of_le_of_lt (hlow.trans h) hhigh)
  omega

theorem binaryExponent_double (hq : 0 < q) : binaryExponent (2 * q) = binaryExponent q + 1 := by
  obtain ⟨hlow, hhigh⟩ := binaryExponent_spec hq
  have hstep : ∀ k : ℤ, (2 : ℚ) ^ (k + 1) = 2 * (2 : ℚ) ^ k := by
    intro k
    rw [zpow_add₀ (by norm_num), zpow_one, mul_comm]
  refine binaryExponent_unique (by linarith) ?_ ?_
  · rw [hstep]
    linarith
  · rw [hstep]
    linarith

end Exponents

section Doubles

variable {q r : ℚ}

theorem roundToDouble_of_nonpos (hq : q ≤ 0) : roundToDouble q = 0 := by
  unfold roundToDouble
  rw [if_pos hq]

theorem roundToDouble_eq (hq : 0 < q) : roundToDouble q =
    roundEven (q / (2 : ℚ) ^ (binaryExponent q - 52)) * (2 : ℚ) ^ (binaryExponent q - 52) := by
  unfold roundToDouble
  rw [if_neg (not_le.mpr hq)]
  have hexponent : (if (2 : ℚ) ^ ((Nat.log2 q.num.toNat : ℤ) - (Nat.log2 q.den : ℤ)) ≤ q then
      (Nat.log2 q.num.toNat : ℤ) - (Nat.log2 q.den : ℤ) - 52
      else (Nat.log2 q.num.toNat : ℤ) - (Nat.log2 q.den : ℤ) - 53) = binaryExponent q - 52 := by
    unfold binaryExponent
    split <;> ring
  simp only [hexponent]
  rfl

/-- A rounded number stays between the powers of two around it. -/
theorem roundToDouble_bounds (hq : 0 < q) : (2 : ℚ) ^ binaryExponent q ≤ roundToDouble q ∧
    roundToDouble q ≤ (2 : ℚ) ^ (binaryExponent q + 1) := by
  obtain ⟨hlow, hhigh⟩ := binaryExponent_spec hq
  have hunit : (0 : ℚ) < (2 : ℚ) ^ (binaryExponent q - 52) := by positivity
  have hscale : ∀ n : ℕ, (((2 ^ n : ℤ) : ℚ)) * (2 : ℚ) ^ (binaryExponent q - 52) =
      (2 : ℚ) ^ (binaryExponent q - 52 + n) := by
    intro n
    rw [zpow_add₀ (by norm_num), zpow_natCast]
    push_cast
    ring
  rw [roundToDouble_eq hq]
  constructor
  · have hle : ((2 ^ 52 : ℤ) : ℚ) ≤ q / (2 : ℚ) ^ (binaryExponent q - 52) := by
      rw [le_div_iff₀ hunit, hscale 52]
      calc (2 : ℚ) ^ (binaryExponent q - 52 + (52 : ℕ)) = (2 : ℚ) ^ binaryExponent q := by
            congr 1
            push_cast
            ring
        _ ≤ q := hlow
    have hround := roundEven_mono hle
    rw [roundEven_intCast] at hround
    calc (2 : ℚ) ^ binaryExponent q
        = ((2 ^ 52 : ℤ) : ℚ) * (2 : ℚ) ^ (binaryExponent q - 52) := by
          rw [hscale 52]
          congr 1
          push_cast
          ring
      _ ≤ _ := mul_le_mul_of_nonneg_right (by exact_mod_cast hround) (le_of_lt hunit)
  · have hle : q / (2 : ℚ) ^ (binaryExponent q - 52) ≤ ((2 ^ 53 : ℤ) : ℚ) := by
      rw [div_le_iff₀ hunit, hscale 53]
      calc q ≤ (2 : ℚ) ^ (binaryExponent q + 1) := le_of_lt hhigh
        _ = (2 : ℚ) ^ (binaryExponent q - 52 + (53 : ℕ)) := by
            congr 1
            push_cast
            ring
    have hround := roundEven_mono hle
    rw [roundEven_intCast] at hround
    calc (roundEven (q / (2 : ℚ) ^ (binaryExponent q - 52)) : ℚ) *
          (2 : ℚ) ^ (binaryExponent q - 52)
        ≤ ((2 ^ 53 : ℤ) : ℚ) * (2 : ℚ) ^ (binaryExponent q - 52) :=
          mul_le_mul_of_nonneg_right (by exact_mod_cast hround) (le_of_lt hunit)
      _ = (2 : ℚ) ^ (binaryExponent q + 1) := by
          rw [hscale 53]
          congr 1
          push_cast
          ring

theorem roundToDouble_pos (hq : 0 < q) : 0 < roundToDouble q :=
  lt_of_lt_of_le (by positivity) (roundToDouble_bounds hq).1

theorem roundToDouble_nonneg (q : ℚ) : 0 ≤ roundToDouble q := by
  by_cases hq : 0 < q
  · exact le_of_lt (roundToDouble_pos hq)
  · rw [roundToDouble_of_nonpos (not_lt.mp hq)]

theorem roundToDouble_mono (h : q ≤ r) : roundToDouble q ≤ roundToDouble r := by
  by_cases hq : 0 < q
  · have hr : 0 < r := lt_of_lt_of_le hq h
    have hexponents := binaryExponent_mono hq h
    by_cases hsame : binaryExponent q = binaryExponent r
    · rw [roundToDouble_eq hq, roundToDouble_eq hr, hsame]
      have hunit : (0 : ℚ) < (2 : ℚ) ^ (binaryExponent r - 52) := by positivity
      refine mul_le_mul_of_nonneg_right ?_ (le_of_lt hunit)
      have hscaled := roundEven_mono (div_le_div_of_nonneg_right h (le_of_lt hunit))
      exact_mod_cast hscaled
    · calc roundToDouble q ≤ (2 : ℚ) ^ (binaryExponent q + 1) := (roundToDouble_bounds hq).2
        _ ≤ (2 : ℚ) ^ binaryExponent r := zpow_le_zpow_right₀ (by norm_num) (by omega)
        _ ≤ roundToDouble r := (roundToDouble_bounds hr).1
  · rw [roundToDouble_of_nonpos (not_lt.mp hq)]
    exact roundToDouble_nonneg r

theorem roundToDouble_double (q : ℚ) : roundToDouble (2 * q) = 2 * roundToDouble q := by
  by_cases hq : 0 < q
  · have hdouble : 0 < 2 * q := by linarith
    rw [roundToDouble_eq hdouble, roundToDouble_eq hq, binaryExponent_double hq]
    have hunit : (2 : ℚ) ^ (binaryExponent q + 1 - 52) = 2 * (2 : ℚ) ^ (binaryExponent q - 52) := by
      rw [show binaryExponent q + 1 - 52 = binaryExponent q - 52 + 1 by ring,
        zpow_add₀ (by norm_num), zpow_one, mul_comm]
    rw [hunit, mul_div_mul_left _ _ (by norm_num : (2 : ℚ) ≠ 0)]
    ring
  · rw [roundToDouble_of_nonpos (not_lt.mp hq), roundToDouble_of_nonpos (by linarith), mul_zero]

/-- Half a unit of the last place. -/
theorem roundToDouble_error (hq : 0 < q) :
    |roundToDouble q - q| ≤ 1 / 2 * (2 : ℚ) ^ (binaryExponent q - 52) := by
  have hunit : (0 : ℚ) < (2 : ℚ) ^ (binaryExponent q - 52) := by positivity
  have herror := roundEven_error (q / (2 : ℚ) ^ (binaryExponent q - 52))
  rw [roundToDouble_eq hq]
  calc |(roundEven (q / (2 : ℚ) ^ (binaryExponent q - 52)) : ℚ) *
        (2 : ℚ) ^ (binaryExponent q - 52) - q|
      = |((roundEven (q / (2 : ℚ) ^ (binaryExponent q - 52)) : ℚ) -
          q / (2 : ℚ) ^ (binaryExponent q - 52)) * (2 : ℚ) ^ (binaryExponent q - 52)| := by
        rw [sub_mul, div_mul_cancel₀ _ (ne_of_gt hunit)]
    _ = |(roundEven (q / (2 : ℚ) ^ (binaryExponent q - 52)) : ℚ) -
          q / (2 : ℚ) ^ (binaryExponent q - 52)| * (2 : ℚ) ^ (binaryExponent q - 52) := by
        rw [abs_mul, abs_of_pos hunit]
    _ ≤ 1 / 2 * (2 : ℚ) ^ (binaryExponent q - 52) :=
        mul_le_mul_of_nonneg_right herror (le_of_lt hunit)

end Doubles
end BlocTrust
