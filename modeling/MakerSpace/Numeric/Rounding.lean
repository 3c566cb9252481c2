import Mathlib.Data.Int.Log
import Mathlib.Data.Rat.Floor
import Mathlib.Tactic.Linarith
import Mathlib.Tactic.Positivity
import Mathlib.Tactic.FieldSimp
import Mathlib.Tactic.Ring

/-! Rounding to a binary significand of `p` bits, to nearest and ties to even.

The exponent is unbounded: the rounding is that of a binary format for values that
neither overflow nor fall below its least normal number. `le_round_iff` says, without
rounding anything, which values round to a given bound or above; from it, the rounding
is monotone. -/
namespace MakerSpace.Numeric

variable {K : Type*} [Field K] [LinearOrder K] [IsStrictOrderedRing K] [FloorRing K]

/-! ### To an integer -/

def roundEven (q : K) : Int :=
  if 2 * Int.fract q < 1 ∨ (2 * Int.fract q = 1 ∧ Even ⌊q⌋) then ⌊q⌋ else ⌊q⌋ + 1

/-- At least halfway up to `n`; halfway is enough for an even one. -/
def Nears (n : Int) (q : K) : Prop := if Even n then 2 * n - 1 ≤ 2 * q else 2 * n - 1 < 2 * q

instance (n : Int) (q : K) : Decidable (Nears n q) := by unfold Nears; infer_instance

theorem Nears.mono {n : Int} {q r : K} (h : Nears n q) (hqr : q ≤ r) : Nears n r := by
  unfold Nears at h ⊢
  split_ifs at h ⊢ <;> linarith

theorem nears_of_le {n : Int} {q : K} (h : (n : K) ≤ q) : Nears n q := by
  unfold Nears
  split_ifs <;> linarith

theorem Nears.lt {n : Int} {q : K} (h : Nears n q) : (n : K) < q + 1 := by
  unfold Nears at h
  split_ifs at h <;> linarith

/-- Just above the floor, by the half that is left and the parity. -/
theorem floor_lt_roundEven_iff (q : K) : ⌊q⌋ + 1 ≤ roundEven q ↔ Nears (⌊q⌋ + 1) q := by
  have hfract := Int.fract_add_floor q
  simp only [Nears, roundEven, Int.even_add_one, Int.cast_add, Int.cast_one]
  by_cases heven : Even ⌊q⌋
  · simp only [heven, and_true, not_true_eq_false, if_false, ← le_iff_lt_or_eq]
    split_ifs with h
    · exact iff_of_false (by omega) (by linarith)
    · exact iff_of_true (by omega) (by linarith)
  · simp only [heven, and_false, or_false, not_false_eq_true, if_true]
    split_ifs with h
    · exact iff_of_false (by omega) (by linarith)
    · exact iff_of_true (by omega) (by linarith)

theorem le_roundEven_iff (n : Int) (q : K) : n ≤ roundEven q ↔ Nears n q := by
  rcases lt_trichotomy n (⌊q⌋ + 1) with hlow | rfl | hhigh
  · refine iff_of_true ?_ (nears_of_le (Int.le_floor.mp (Int.lt_add_one_iff.mp hlow)))
    unfold roundEven
    split_ifs <;> omega
  · exact floor_lt_roundEven_iff q
  · refine iff_of_false ?_ fun h => ?_
    · unfold roundEven
      split_ifs <;> omega
    · have hfloor := Int.lt_floor_add_one q
      have hcast : ((⌊q⌋ + 1 + 1 : Int) : K) ≤ n := by exact_mod_cast hhigh
      have := h.lt
      push_cast at hcast
      linarith

theorem roundEven_mono {q r : K} (h : q ≤ r) : roundEven q ≤ roundEven r :=
  (le_roundEven_iff _ r).mpr (((le_roundEven_iff _ q).mp le_rfl).mono h)

@[simp] theorem roundEven_intCast (n : Int) : roundEven (n : K) = n := by
  simp [roundEven]

/-! ### To a significand -/

/-- The unit in the last place of `q`'s binade. -/
def ulp (p : Nat) (q : K) : K := 2 ^ (Int.log 2 |q| + 1 - p)

def round (p : Nat) (q : K) : K := roundEven (q / ulp p q) * ulp p q

/-- The unit in the last place just below `t`. -/
def grid (p : Nat) (t : K) : K := 2 ^ (Int.clog 2 t - p)

/-- `q` rounds to `t` or above: it lies at least halfway up to the first multiple of the
unit from `t` on. -/
def Reaches (p : Nat) (t q : K) : Prop := Nears ⌈t / grid p t⌉ (q / grid p t)

instance (p : Nat) (t q : K) : Decidable (Reaches p t q) := by unfold Reaches; infer_instance

/-- Halfway up to the first multiple of the unit from `t` on. -/
def boundary (p : Nat) (t : K) : K := (⌈t / grid p t⌉ - 1 / 2) * grid p t

variable {p : Nat} {t q r : K}

theorem ulp_pos (p : Nat) (q : K) : 0 < ulp p q := zpow_pos two_pos _

theorem grid_pos (p : Nat) (t : K) : 0 < grid p t := zpow_pos two_pos _

theorem ulp_eq (hq : 0 < q) : ulp p q = 2 ^ (Int.log 2 q + 1 - p) := by rw [ulp, abs_of_pos hq]

/-- The significand of a positive value, before it is rounded. -/
theorem scaled_bounds (hp : 1 ≤ p) (hq : 0 < q) :
    (((2 ^ (p - 1) : Int)) : K) ≤ q / ulp p q ∧ q / ulp p q < ((2 ^ p : Int) : K) := by
  have hlow := Int.zpow_log_le_self (R := K) (b := 2) one_lt_two hq
  have hhigh := Int.lt_zpow_succ_log_self (R := K) (b := 2) one_lt_two q
  rw [le_div_iff₀ (ulp_pos p q), div_lt_iff₀ (ulp_pos p q), ulp_eq hq]
  push_cast at hlow hhigh ⊢
  rw [← zpow_natCast, ← zpow_natCast, ← zpow_add₀ two_ne_zero, ← zpow_add₀ two_ne_zero]
  constructor
  · convert hlow using 2
    omega
  · convert hhigh using 2
    omega

/-- Rounding stays within the binade, its upper end included. -/
theorem round_bounds (hp : 1 ≤ p) (hq : 0 < q) :
    (2 : K) ^ Int.log 2 q ≤ round p q ∧ round p q ≤ 2 ^ (Int.log 2 q + 1) := by
  obtain ⟨hlow, hhigh⟩ := scaled_bounds hp hq
  have hfrom := roundEven_mono hlow
  have hto := roundEven_mono hhigh.le
  rw [roundEven_intCast] at hfrom hto
  have hfrom' : (2 ^ (p - 1) : K) ≤ roundEven (q / ulp p q) := by exact_mod_cast hfrom
  have hto' : (roundEven (q / ulp p q) : K) ≤ 2 ^ p := by exact_mod_cast hto
  have hu := (ulp_pos p q).le
  constructor
  · calc (2 : K) ^ Int.log 2 q = 2 ^ (p - 1) * ulp p q := by
          rw [ulp_eq hq, ← zpow_natCast, ← zpow_add₀ two_ne_zero]
          congr 1
          omega
      _ ≤ round p q := mul_le_mul_of_nonneg_right hfrom' hu
  · calc round p q ≤ 2 ^ p * ulp p q := mul_le_mul_of_nonneg_right hto' hu
      _ = (2 : K) ^ (Int.log 2 q + 1) := by
          rw [ulp_eq hq, ← zpow_natCast, ← zpow_add₀ two_ne_zero]
          congr 1
          omega

/-- The multiple of the unit that a bound amounts to, between the ends of its binade. -/
theorem ceil_bounds (p : Nat) (ht : 0 < t) :
    (2 ^ (Int.clog 2 t - 1) : K) < ⌈t / grid p t⌉ * grid p t ∧ t ≤ ⌈t / grid p t⌉ * grid p t ∧
      ⌈t / grid p t⌉ * grid p t ≤ 2 ^ Int.clog 2 t := by
  have hu := grid_pos p t
  have hle : t ≤ ⌈t / grid p t⌉ * grid p t := (div_le_iff₀ hu).mp (Int.le_ceil _)
  have hlow := Int.zpow_pred_clog_lt_self (R := K) (b := 2) one_lt_two ht
  have hhigh := Int.self_le_zpow_clog (R := K) (b := 2) one_lt_two t
  push_cast at hlow hhigh
  have hend : (2 : K) ^ Int.clog 2 t = ((2 ^ p : Int) : K) * grid p t := by
    push_cast
    rw [grid, ← zpow_natCast, ← zpow_add₀ two_ne_zero]
    congr 1
    omega
  refine ⟨hlow.trans_le hle, hle, ?_⟩
  rw [hend] at hhigh ⊢
  refine mul_le_mul_of_nonneg_right ?_ hu.le
  exact_mod_cast Int.ceil_le.mpr ((div_le_iff₀ hu).mpr hhigh)

theorem le_round_iff_binade (h : Int.log 2 q = Int.clog 2 t - 1) (hq : 0 < q) :
    t ≤ round p q ↔ Reaches p t q := by
  have hunit : ulp p q = grid p t := by
    rw [ulp_eq hq, grid, h]
    congr 1
    ring
  rw [round, Reaches, hunit, ← div_le_iff₀ (grid_pos p t), ← Int.ceil_le, le_roundEven_iff]

/-- **A value rounds to a bound or above** when it lies at least halfway up to it. -/
theorem le_round_iff (hp : 1 ≤ p) (ht : 0 < t) (hq : 0 < q) : t ≤ round p q ↔ Reaches p t q := by
  obtain ⟨hlow, hle, hhigh⟩ := ceil_bounds p ht
  obtain ⟨hfrom, hto⟩ := round_bounds hp hq
  have hu := grid_pos p t
  rcases lt_trichotomy (Int.log 2 q) (Int.clog 2 t - 1) with hbelow | hsame | habove
  · have hpow : (2 : K) ^ (Int.log 2 q + 1) ≤ 2 ^ (Int.clog 2 t - 1) :=
      zpow_le_zpow_right₀ one_le_two (by omega)
    have hend : (2 : K) ^ (Int.clog 2 t - 1) = ((2 ^ (p - 1) : Int) : K) * grid p t := by
      push_cast
      rw [grid, ← zpow_natCast, ← zpow_add₀ two_ne_zero]
      congr 1
      omega
    refine iff_of_false (fun h => ?_) (fun h => ?_)
    · have ht' := Int.zpow_pred_clog_lt_self (R := K) (b := 2) one_lt_two ht
      push_cast at ht'
      linarith
    · have hn : (2 ^ (p - 1) : Int) + 1 ≤ ⌈t / grid p t⌉ := by
        rw [hend] at hlow
        exact_mod_cast lt_of_mul_lt_mul_right hlow hu.le
      have hq' := Int.lt_zpow_succ_log_self (R := K) (b := 2) one_lt_two q
      push_cast at hq'
      have hscaled : q / grid p t < ((2 ^ (p - 1) : Int) : K) := by
        rw [div_lt_iff₀ hu, ← hend]
        exact hq'.trans_le hpow
      have hcast : (((2 ^ (p - 1) : Int) + 1 : Int) : K) ≤ ⌈t / grid p t⌉ := by exact_mod_cast hn
      have hlt := h.lt
      push_cast at hcast hscaled
      linarith
  · exact le_round_iff_binade hsame hq
  · have hpow : (2 : K) ^ Int.clog 2 t ≤ 2 ^ Int.log 2 q :=
      zpow_le_zpow_right₀ one_le_two (by omega)
    have hq' := Int.zpow_log_le_self (R := K) (b := 2) one_lt_two hq
    push_cast at hq'
    refine iff_of_true (by linarith) (nears_of_le ?_)
    rw [le_div_iff₀ hu]
    linarith

@[simp] theorem round_zero (p : Nat) : round p (0 : K) = 0 := by
  have := roundEven_intCast (K := K) 0
  rw [Int.cast_zero] at this
  simp [round, this]

theorem round_nonneg (hq : 0 ≤ q) : 0 ≤ round p q := by
  have hscaled : (0 : K) ≤ q / ulp p q := div_nonneg hq (ulp_pos p q).le
  have := roundEven_mono hscaled
  rw [← Int.cast_zero, roundEven_intCast] at this
  exact mul_nonneg (by exact_mod_cast this) (ulp_pos p q).le

theorem round_pos (hp : 1 ≤ p) (hq : 0 < q) : 0 < round p q :=
  (zpow_pos two_pos _).trans_le (round_bounds hp hq).1

theorem Reaches.mono (h : Reaches p t q) (hqr : q ≤ r) : Reaches p t r :=
  Nears.mono h (div_le_div_of_nonneg_right hqr (grid_pos p t).le)

/-- From an even multiple of the unit, the boundary itself is enough. -/
theorem reaches_iff_of_even (h : Even ⌈t / grid p t⌉) : Reaches p t q ↔ boundary p t ≤ q := by
  rw [Reaches, Nears, if_pos h, boundary, ← mul_div_assoc, le_div_iff₀ (grid_pos p t)]
  constructor <;> intro hle <;> linarith

theorem boundary_pos (ht : 0 < t) : 0 < boundary p t := by
  have hceil : (1 : K) ≤ ⌈t / grid p t⌉ := by
    exact_mod_cast Int.one_le_ceil_iff.mpr (div_pos ht (grid_pos p t))
  exact mul_pos (by linarith) (grid_pos p t)

/-- Rounding keeps the order. -/
theorem round_mono (hp : 1 ≤ p) (hq : 0 ≤ q) (hqr : q ≤ r) : round p q ≤ round p r := by
  rcases hq.eq_or_lt with rfl | hpos
  · rw [round_zero]
    exact round_nonneg hqr
  · have ht := round_pos hp hpos
    exact (le_round_iff hp ht (hpos.trans_le hqr)).mpr
      (((le_round_iff hp ht hpos).mp le_rfl).mono hqr)

/-- An integer that fits the significand is kept. -/
theorem round_natCast {n : Nat} (hn : n < 2 ^ p) : round p (n : K) = n := by
  rcases n.eq_zero_or_pos with rfl | hpos
  · simp
  · have hlog : Nat.log 2 n < p := Nat.log_lt_of_lt_pow hpos.ne' hn
    have hcast : (0 : K) < n := by exact_mod_cast hpos
    obtain ⟨m, hm⟩ : ∃ m : Int, (n : K) / ulp p (n : K) = m := by
      refine ⟨n * 2 ^ (p - 1 - Nat.log 2 n), ?_⟩
      rw [ulp_eq hcast, Int.log_natCast, div_eq_mul_inv, ← zpow_neg]
      push_cast
      rw [← zpow_natCast]
      congr 2
      omega
    rw [round, hm, roundEven_intCast, ← hm]
    exact div_mul_cancel₀ _ (ulp_pos p _).ne'

end MakerSpace.Numeric
