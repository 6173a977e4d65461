import Mathlib.Data.Int.Log
import Mathlib.Data.Rat.Floor

/- `time.Duration.Seconds`, the `float64` arithmetic it goes through, and the
   conversion `int64(f)` the cache applies to its result.

   A float64 is modelled by its value, a rational. `float64 x` rounds `x` to 53
   significant bits, to nearest with ties to even, as Go rounds a conversion and the
   result of `+` and `/`. The exponent is left unbounded: the values rounded here (the
   parts of an int64 duration, their quotient by `1e9`, their sum) are zero or lie
   between 2^-30 and 2^64 in magnitude, far inside the normal range, where this is
   float64 rounding.

   `Seconds` is `float64(d / Second) + float64(d % Second) / 1e9`, with Go's `/` and
   `%` truncating toward zero; `int64(f)` discards the fraction. Two facts about the
   rounding carry everything below: it is monotone (`float64_mono`), and it leaves a
   value of 53 significant bits alone (`float64_dyadic`). From them, `Seconds` is
   positive exactly for a positive duration (`seconds_nonpos_iff`), and a positive
   int64 duration `ttl` gives whole seconds `e` with |e·10^9 − ttl| < 10^9, where
   `e ≥ 1` exactly from one second on (`int64_seconds`). -/
namespace UniqushConn

/-! ## Rounding to an integer -/

/-- The integer nearest `x`, the even one of the two at a tie. -/
def roundEven (x : ℚ) : Int :=
  let k := ⌊x⌋
  if x - k < 1 / 2 then k else if 1 / 2 < x - k then k + 1 else k + k % 2

theorem floor_le_roundEven (x : ℚ) : ⌊x⌋ ≤ roundEven x := by
  simp only [roundEven]
  split_ifs <;> omega

theorem roundEven_le_floor_add_one (x : ℚ) : roundEven x ≤ ⌊x⌋ + 1 := by
  simp only [roundEven]
  split_ifs <;> omega

@[simp] theorem roundEven_intCast (n : Int) : roundEven n = n := by
  simp [roundEven]

@[simp] theorem roundEven_zero : roundEven 0 = 0 := by
  simp [roundEven]

theorem roundEven_mono {x y : ℚ} (h : x ≤ y) : roundEven x ≤ roundEven y := by
  rcases (Int.floor_mono h).lt_or_eq with hlt | heq
  · have := roundEven_le_floor_add_one x
    have := floor_le_roundEven y
    omega
  · -- one floor: the fractions are ordered, so neither test can go the other way
    have hfrac : x - ⌊y⌋ ≤ y - ⌊y⌋ := sub_le_sub_right h _
    simp only [roundEven, heq]
    split_ifs <;> first
      | omega
      | exact absurd (lt_of_lt_of_le ‹1 / 2 < x - ⌊y⌋› hfrac) ‹_›
      | exact absurd (lt_of_le_of_lt hfrac ‹y - ⌊y⌋ < 1 / 2›) ‹_›

/-- Rounding moves a value by at most a half. -/
theorem roundEven_le_add_half (x : ℚ) : (roundEven x : ℚ) ≤ x + 1 / 2 := by
  have hk := Int.floor_le x
  simp only [roundEven]
  split_ifs with h₁ h₂
  · linarith
  · push_cast; linarith
  · have : ⌊x⌋ % 2 ≤ 1 := by omega
    have : ((⌊x⌋ % 2 : Int) : ℚ) ≤ 1 := by exact_mod_cast this
    push_cast; linarith

/-! ## `float64` -/

/-- The exponent of the 53rd significant bit of `x`. -/
def ulpExp (x : ℚ) : Int := Int.log 2 |x| - 52

/-- `float64(x)`: `x` rounded to 53 significant bits, to nearest, ties to even. -/
def float64 (x : ℚ) : ℚ := roundEven (x / 2 ^ ulpExp x) * 2 ^ ulpExp x

theorem two_zpow_pos (k : Int) : (0 : ℚ) < 2 ^ k := zpow_pos two_pos k

theorem two_zpow_add (a b : Int) : (2 : ℚ) ^ a * 2 ^ b = 2 ^ (a + b) :=
  (zpow_add₀ two_ne_zero a b).symm

theorem ulpExp_of_pos {x : ℚ} (hx : 0 < x) : ulpExp x = Int.log 2 x - 52 := by
  rw [ulpExp, abs_of_pos hx]

/-- At a positive `x`, the significand `x / 2 ^ ulpExp x` has 53 bits. -/
theorem scaled_bounds {x : ℚ} (hx : 0 < x) :
    (2 : ℚ) ^ (52 : Int) ≤ x / 2 ^ ulpExp x ∧ x / 2 ^ ulpExp x < (2 : ℚ) ^ (53 : Int) := by
  have hlo : (2 : ℚ) ^ Int.log 2 x ≤ x := by exact_mod_cast Int.zpow_log_le_self one_lt_two hx
  have hhi : x < (2 : ℚ) ^ (Int.log 2 x + 1) := by
    exact_mod_cast Int.lt_zpow_succ_log_self one_lt_two x
  rw [le_div_iff₀ (two_zpow_pos _), div_lt_iff₀ (two_zpow_pos _), two_zpow_add, two_zpow_add,
    ulpExp_of_pos hx]
  constructor
  · convert hlo using 2; ring
  · convert hhi using 2; ring

@[simp] theorem float64_zero : float64 0 = 0 := by
  simp [float64]

/-- A value whose significand is an integer is left alone. -/
theorem float64_eq_self {x : ℚ} (m : Int) (h : x / 2 ^ ulpExp x = m) : float64 x = x := by
  rw [float64, h, roundEven_intCast, ← h, div_mul_cancel₀ _ (two_zpow_pos _).ne']

/-- **Rounding error.** `float64` moves a value by at most half a unit in its last place. -/
theorem float64_le_add (x : ℚ) : float64 x ≤ x + 2 ^ (ulpExp x - 1) := by
  have hp := two_zpow_pos (ulpExp x)
  calc float64 x ≤ (x / 2 ^ ulpExp x + 1 / 2) * 2 ^ ulpExp x :=
        mul_le_mul_of_nonneg_right (roundEven_le_add_half _) hp.le
    _ = x + 2 ^ (ulpExp x - 1) := by
        rw [add_mul, div_mul_cancel₀ _ hp.ne', zpow_sub₀ two_ne_zero, zpow_one]; ring

/-- Below `2 ^ L`, the last place is at most `2 ^ (L - 53)`. -/
theorem ulpExp_le {x : ℚ} {L : Int} (h₀ : 0 ≤ x) (h : x < 2 ^ L) (hL : 0 < L) : ulpExp x ≤ L - 53 := by
  rcases h₀.lt_or_eq with hx | rfl
  · have := (Int.lt_zpow_iff_log_lt one_lt_two hx).1 (by exact_mod_cast h)
    rw [ulpExp_of_pos hx]; omega
  · rw [ulpExp, abs_zero, Int.log_zero_right]; omega

/-- Rounding a positive value stays in its binade, ends included. -/
theorem float64_bounds {x : ℚ} (hx : 0 < x) :
    2 ^ Int.log 2 x ≤ float64 x ∧ float64 x ≤ 2 ^ (Int.log 2 x + 1) := by
  obtain ⟨hlo, hhi⟩ := scaled_bounds hx
  have r₁ : (2 ^ (52 : Int) : ℚ) ≤ roundEven (x / 2 ^ ulpExp x) := by
    have := roundEven_mono hlo
    rw [show (2 : ℚ) ^ (52 : Int) = ((2 ^ 52 : Int) : ℚ) by norm_num, roundEven_intCast] at this
    exact_mod_cast this
  have r₂ : (roundEven (x / 2 ^ ulpExp x) : ℚ) ≤ 2 ^ (53 : Int) := by
    have := roundEven_mono hhi.le
    rw [show (2 : ℚ) ^ (53 : Int) = ((2 ^ 53 : Int) : ℚ) by norm_num, roundEven_intCast] at this
    exact_mod_cast this
  have hp := two_zpow_pos (ulpExp x)
  rw [float64]
  constructor
  · calc (2 : ℚ) ^ Int.log 2 x = 2 ^ (52 : Int) * 2 ^ ulpExp x := by
          rw [two_zpow_add, ulpExp_of_pos hx]; ring_nf
      _ ≤ _ := mul_le_mul_of_nonneg_right r₁ hp.le
  · calc _ ≤ (2 : ℚ) ^ (53 : Int) * 2 ^ ulpExp x := mul_le_mul_of_nonneg_right r₂ hp.le
      _ = 2 ^ (Int.log 2 x + 1) := by rw [two_zpow_add, ulpExp_of_pos hx]; ring_nf

theorem float64_pos {x : ℚ} (hx : 0 < x) : 0 < float64 x :=
  (two_zpow_pos _).trans_le (float64_bounds hx).1

theorem float64_nonneg {x : ℚ} (hx : 0 ≤ x) : 0 ≤ float64 x := by
  rcases hx.lt_or_eq with hx | rfl
  · exact (float64_pos hx).le
  · simp

theorem float64_nonpos {x : ℚ} (hx : x ≤ 0) : float64 x ≤ 0 := by
  have hp := two_zpow_pos (ulpExp x)
  have := roundEven_mono (div_nonpos_of_nonpos_of_nonneg hx hp.le)
  rw [roundEven_zero] at this
  exact mul_nonpos_of_nonpos_of_nonneg (by exact_mod_cast this) hp.le

/-- **Rounding is monotone.** -/
theorem float64_mono {x y : ℚ} (hx : 0 ≤ x) (hxy : x ≤ y) : float64 x ≤ float64 y := by
  rcases hx.lt_or_eq with hx | rfl
  · have hy := hx.trans_le hxy
    rcases (Int.log_mono_right hx hxy : Int.log 2 x ≤ Int.log 2 y).lt_or_eq with hlt | heq
    · calc float64 x ≤ 2 ^ (Int.log 2 x + 1) := (float64_bounds hx).2
        _ ≤ 2 ^ Int.log 2 y := zpow_le_zpow_right₀ one_le_two (by omega)
        _ ≤ float64 y := (float64_bounds hy).1
    · have he : ulpExp x = ulpExp y := by rw [ulpExp_of_pos hx, ulpExp_of_pos hy, heq]
      have hp := two_zpow_pos (ulpExp y)
      rw [float64, float64, he]
      exact mul_le_mul_of_nonneg_right
        (by exact_mod_cast roundEven_mono (div_le_div_of_nonneg_right hxy hp.le)) hp.le
  · simpa using float64_nonneg hxy

theorem log_eq_of_bounds {x : ℚ} {L : Int} (h₁ : 2 ^ L ≤ x) (h₂ : x < 2 ^ (L + 1)) :
    Int.log 2 x = L := by
  have hx := (two_zpow_pos L).trans_le h₁
  have hle := (Int.zpow_le_iff_le_log one_lt_two hx).1 (by exact_mod_cast h₁)
  have hlt := (Int.lt_zpow_iff_log_lt one_lt_two hx).1 (by exact_mod_cast h₂)
  omega

/-- **A value of 53 significant bits is left alone.** -/
theorem float64_dyadic (m : Nat) (k : Int) (hm : m < 2 ^ 53) :
    float64 (m * 2 ^ k) = m * 2 ^ k := by
  rcases Nat.eq_zero_or_pos m with rfl | hm0
  · simp
  have hN : Nat.log 2 m < 53 := Nat.log_lt_of_lt_pow hm0.ne' hm
  have hlo : ((2 ^ Nat.log 2 m : Nat) : ℚ) ≤ m := by exact_mod_cast Nat.pow_log_le_self 2 hm0.ne'
  have hhi : (m : ℚ) < (2 ^ (Nat.log 2 m + 1) : Nat) := by
    exact_mod_cast Nat.lt_pow_succ_log_self one_lt_two m
  have hp := two_zpow_pos k
  have hlog : Int.log 2 ((m : ℚ) * 2 ^ k) = Nat.log 2 m + k := by
    apply log_eq_of_bounds
    · rw [← two_zpow_add, zpow_natCast]
      exact mul_le_mul_of_nonneg_right (by exact_mod_cast hlo) hp.le
    · rw [add_right_comm, ← two_zpow_add, ← Nat.cast_succ, zpow_natCast]
      exact mul_lt_mul_of_pos_right (by exact_mod_cast hhi) hp
  refine float64_eq_self (m * 2 ^ (52 - Nat.log 2 m) : Nat) ?_
  rw [ulpExp_of_pos (mul_pos (by exact_mod_cast hm0) hp), hlog,
    div_eq_iff (two_zpow_pos _).ne']
  push_cast
  rw [← zpow_natCast, mul_assoc, two_zpow_add, Nat.cast_sub (by omega)]
  ring_nf

theorem float64_natCast (n : Nat) (h : n < 2 ^ 53) : float64 n = n := by
  simpa using float64_dyadic n 0 h

theorem float64_intCast (n : Int) (h₀ : 0 ≤ n) (h : n < 2 ^ 53) : float64 n = n := by
  lift n to Nat using h₀
  exact_mod_cast float64_natCast n (by exact_mod_cast h)

/-- The float64 just below one. -/
theorem float64_pred_one : float64 (1 - 2 ^ (-53 : Int)) = 1 - 2 ^ (-53 : Int) := by
  have h := float64_dyadic (2 ^ 53 - 1) (-53) (by norm_num)
  rw [show ((2 ^ 53 - 1 : Nat) : ℚ) * 2 ^ (-53 : Int) = 1 - 2 ^ (-53 : Int) by norm_num] at h
  exact h

/-! ## `Duration.Seconds` and `int64(f)` -/

namespace Duration

/-- `Duration.Seconds`, for a duration of `d` nanoseconds:
`float64(d / Second) + float64(d % Second) / 1e9`. -/
def seconds (d : Int) : ℚ :=
  let sec := d.tdiv 1000000000
  let nsec := d.tmod 1000000000
  float64 (float64 sec + float64 (float64 nsec / 1000000000))

end Duration

@[simp] theorem seconds_zero : Duration.seconds 0 = 0 := by
  simp [Duration.seconds]

/-- `int64(f)` for a float64 `f` in range: the fraction is discarded. -/
def int64 (f : ℚ) : Int := if 0 ≤ f then ⌊f⌋ else ⌈f⌉

/-- A duration that is not positive has no positive part. -/
theorem parts_nonpos {d : Int} (hd : d ≤ 0) :
    d.tdiv 1000000000 ≤ 0 ∧ d.tmod 1000000000 ≤ 0 := by
  obtain ⟨n, rfl⟩ : ∃ n, d = -n := ⟨-d, by ring⟩
  rw [Int.tmod_def, Int.neg_tdiv, Int.tdiv_eq_ediv (by omega) (by norm_num)]
  omega

/-- For a duration of the int64 range that is not negative, the parts are the whole
seconds and the nanoseconds left over, both converted exactly. -/
theorem seconds_eq {d : Int} (h₀ : 0 ≤ d) (h₁ : d < 2 ^ 63) :
    Duration.seconds d =
      float64 ((d / 1000000000 : Int) + float64 ((d % 1000000000 : Int) / 1000000000)) := by
  simp only [Duration.seconds, Int.tdiv_eq_ediv h₀ (by norm_num : (0 : Int) ≤ 1000000000),
    Int.tmod_eq_emod h₀ (by norm_num : (0 : Int) ≤ 1000000000)]
  rw [float64_intCast _ (by omega) (by omega), float64_intCast _ (by omega) (by omega)]

theorem seconds_pos {d : Int} (hd : 0 < d) : 0 < Duration.seconds d := by
  have hs : 0 ≤ d.tdiv 1000000000 := Int.tdiv_nonneg hd.le (by norm_num)
  have hn : 0 ≤ d.tmod 1000000000 := Int.tmod_nonneg _ hd.le
  have hf₁ : (0 : ℚ) ≤ float64 (d.tdiv 1000000000) := float64_nonneg (by exact_mod_cast hs)
  have hf₂ := float64_nonneg (div_nonneg (float64_nonneg (show (0 : ℚ) ≤ d.tmod 1000000000 by
    exact_mod_cast hn)) (by norm_num : (0 : ℚ) ≤ 1000000000))
  refine float64_pos ?_
  -- the whole seconds or the nanoseconds left over are positive
  rcases hs.lt_or_eq with hp | hp
  · exact add_pos_of_pos_of_nonneg (float64_pos (by exact_mod_cast hp)) hf₂
  · have hp : 0 < d.tmod 1000000000 := by have := Int.tdiv_add_tmod d 1000000000; omega
    exact add_pos_of_nonneg_of_pos hf₁ (float64_pos (div_pos (float64_pos (by exact_mod_cast hp))
      (by norm_num)))

theorem seconds_nonpos {d : Int} (hd : d ≤ 0) : Duration.seconds d ≤ 0 := by
  obtain ⟨hs, hn⟩ := parts_nonpos hd
  exact float64_nonpos (add_nonpos (float64_nonpos (by exact_mod_cast hs))
    (float64_nonpos (div_nonpos_of_nonpos_of_nonneg (float64_nonpos (by exact_mod_cast hn))
      (by norm_num))))

/-- **`Seconds` is positive exactly for a positive duration.** -/
theorem seconds_nonpos_iff (d : Int) : Duration.seconds d ≤ 0 ↔ d ≤ 0 :=
  ⟨fun h => not_lt.1 fun hd => (seconds_pos hd).not_le h, seconds_nonpos⟩

/-- The nanoseconds left over, in seconds, round to less than one. -/
theorem frac_bounds (d : Int) :
    0 ≤ float64 ((d % 1000000000 : Int) / 1000000000) ∧
      float64 ((d % 1000000000 : Int) / 1000000000) ≤ 1 - 2 ^ (-53 : Int) := by
  have hr₀ : (0 : ℚ) ≤ (d % 1000000000 : Int) := by exact_mod_cast Int.emod_nonneg d (by norm_num)
  have hr₁ : ((d % 1000000000 : Int) : ℚ) ≤ 999999999 := by
    exact_mod_cast (show d % 1000000000 ≤ 999999999 by omega)
  have hq : ((d % 1000000000 : Int) : ℚ) / 1000000000 ≤ 1 - 2 ^ (-53 : Int) :=
    calc _ ≤ (999999999 : ℚ) / 1000000000 := div_le_div_of_nonneg_right hr₁ (by norm_num)
      _ ≤ 1 - 2 ^ (-53 : Int) := by norm_num
  refine ⟨float64_nonneg (div_nonneg hr₀ (by norm_num)), ?_⟩
  rw [← float64_pred_one]
  exact float64_mono (div_nonneg hr₀ (by norm_num)) hq

section Whole
variable {d : Int} (h₀ : 0 ≤ d) (h₁ : d < 2 ^ 63)
include h₀ h₁

/-- `Seconds` lies between the whole seconds and the next. -/
theorem seconds_bounds :
    ((d / 1000000000 : Int) : ℚ) ≤ Duration.seconds d ∧
      Duration.seconds d ≤ (d / 1000000000 : Int) + 1 := by
  obtain ⟨hf₀, hf₁⟩ := frac_bounds d
  have hs : (0 : ℚ) ≤ (d / 1000000000 : Int) := by exact_mod_cast Int.ediv_nonneg h₀ (by norm_num)
  rw [seconds_eq h₀ h₁]
  constructor
  · calc ((d / 1000000000 : Int) : ℚ) = float64 (d / 1000000000 : Int) :=
          (float64_intCast _ (by omega) (by omega)).symm
      _ ≤ _ := float64_mono hs (le_add_of_nonneg_right hf₀)
  · calc _ ≤ float64 (((d / 1000000000 + 1 : Int) : ℚ)) := by
          refine float64_mono (add_nonneg hs hf₀) ?_
          push_cast
          exact add_le_add_left (hf₁.trans (sub_le_self _ (two_zpow_pos _).le)) _
      _ = _ := by rw [float64_intCast _ (by omega) (by omega)]; push_cast; rfl

/-- A whole number of seconds converts exactly. -/
theorem seconds_of_dvd (hr : d % 1000000000 = 0) : Duration.seconds d = (d / 1000000000 : Int) := by
  rw [seconds_eq h₀ h₁, hr]
  simp only [Int.cast_zero, zero_div, float64_zero, add_zero]
  exact float64_intCast _ (by omega) (by omega)

/-- Under one second, `Seconds` is below one. -/
theorem seconds_lt_one (hs : d / 1000000000 = 0) : Duration.seconds d < 1 := by
  obtain ⟨hf₀, hf₁⟩ := frac_bounds d
  rw [seconds_eq h₀ h₁, hs, Int.cast_zero, zero_add]
  calc _ ≤ float64 (1 - 2 ^ (-53 : Int)) := float64_mono hf₀ hf₁
    _ < 1 := by rw [float64_pred_one]; exact sub_lt_self _ (two_zpow_pos _)

end Whole

/-- The nanoseconds left over, in seconds, round to at most `1 - 2^-30 - 2^-40`. -/
theorem frac_le (d : Int) :
    float64 ((d % 1000000000 : Int) / 1000000000) ≤ 1 - 2 ^ (-30 : Int) - 2 ^ (-40 : Int) := by
  have hr₀ : (0 : ℚ) ≤ (d % 1000000000 : Int) := by exact_mod_cast Int.emod_nonneg d (by norm_num)
  have hr₁ : ((d % 1000000000 : Int) : ℚ) ≤ 999999999 := by
    exact_mod_cast (show d % 1000000000 ≤ 999999999 by omega)
  have hq : ((d % 1000000000 : Int) : ℚ) / 1000000000 ≤ 1 - 2 ^ (-30 : Int) - 2 ^ (-40 : Int) :=
    calc _ ≤ (999999999 : ℚ) / 1000000000 := div_le_div_of_nonneg_right hr₁ (by norm_num)
      _ ≤ _ := by norm_num
  have hd := float64_dyadic (2 ^ 40 - 2 ^ 10 - 1) (-40) (by norm_num)
  rw [show ((2 ^ 40 - 2 ^ 10 - 1 : Nat) : ℚ) * 2 ^ (-40 : Int) = 1 - 2 ^ (-30 : Int) - 2 ^ (-40 : Int) by
    norm_num] at hd
  exact hd ▸ float64_mono (div_nonneg hr₀ (by norm_num)) hq

/-- **Below 2^24 seconds, `Seconds` keeps the whole seconds.** For a duration of fewer
than 2^24 whole seconds (about 194 days), the nanoseconds left over never round
`Seconds` up to the next second: `int64(d.Seconds())` is `d / Second`. -/
theorem int64_seconds_trunc {d : Int} (h₀ : 0 ≤ d) (h₁ : d < 2 ^ 24 * 10 ^ 9) :
    int64 (Duration.seconds d) = d / 1000000000 := by
  have h63 : d < 2 ^ 63 := by omega
  obtain ⟨hlo, -⟩ := seconds_bounds h₀ h63
  obtain ⟨hf₀, -⟩ := frac_bounds d
  have hf := frac_le d
  have hs₀ : (0 : Int) ≤ d / 1000000000 := Int.ediv_nonneg h₀ (by norm_num)
  have hs₁ : ((d / 1000000000 : Int) : ℚ) ≤ 2 ^ 24 - 1 := by
    exact_mod_cast (show d / 1000000000 ≤ 2 ^ 24 - 1 by omega)
  have hX₀ : (0 : ℚ) ≤ (d / 1000000000 : Int) + float64 ((d % 1000000000 : Int) / 1000000000) :=
    add_nonneg (by exact_mod_cast hs₀) hf₀
  have hX : ((d / 1000000000 : Int) : ℚ) + float64 ((d % 1000000000 : Int) / 1000000000) <
      2 ^ (24 : Int) :=
    calc _ ≤ 2 ^ 24 - 1 + (1 - 2 ^ (-30 : Int) - 2 ^ (-40 : Int)) := add_le_add hs₁ hf
      _ < _ := by norm_num
  -- the sum rounds by at most `2^-30`, which the nanoseconds leave room for
  have hup : Duration.seconds d < (d / 1000000000 : Int) + 1 := by
    have hu := ulpExp_le hX₀ hX (by norm_num)
    have h40 := two_zpow_pos (-40)
    rw [seconds_eq h₀ h63]
    calc _ ≤ _ + 2 ^ (ulpExp _ - 1) := float64_le_add _
      _ ≤ _ + 2 ^ (-30 : Int) := add_le_add_left (zpow_le_zpow_right₀ one_le_two (by omega)) _
      _ < _ := by linarith
  rw [int64, if_pos ((Int.cast_nonneg.2 hs₀).trans hlo), Int.floor_eq_iff.2 ⟨hlo, hup⟩]

/-- **`Seconds` is monotone** over the int64 durations that are not negative. -/
theorem seconds_mono {d d' : Int} (h₀ : 0 ≤ d) (h : d ≤ d') (h₁ : d' < 2 ^ 63) :
    Duration.seconds d ≤ Duration.seconds d' := by
  obtain ⟨hf₀, hf₁⟩ := frac_bounds d
  obtain ⟨hf₀', -⟩ := frac_bounds d'
  have hs₀ : (0 : ℚ) ≤ (d / 1000000000 : Int) := by exact_mod_cast Int.ediv_nonneg h₀ (by norm_num)
  rw [seconds_eq h₀ (by omega), seconds_eq (by omega) h₁]
  refine float64_mono (add_nonneg hs₀ hf₀) ?_
  rcases (Int.ediv_le_ediv (by norm_num) h : d / 1000000000 ≤ d' / 1000000000).lt_or_eq with hlt | heq
  · -- a later second: the fraction, below one, does not reach it
    have : ((d / 1000000000 : Int) : ℚ) + 1 ≤ (d' / 1000000000 : Int) := by exact_mod_cast hlt
    have := two_zpow_pos (-53)
    linarith
  · -- the same second: as many nanoseconds left over or more
    have hr₀ : (0 : ℚ) ≤ (d % 1000000000 : Int) := by exact_mod_cast Int.emod_nonneg d (by norm_num)
    have hr : ((d % 1000000000 : Int) : ℚ) ≤ (d' % 1000000000 : Int) := by
      exact_mod_cast (show d % 1000000000 ≤ d' % 1000000000 by omega)
    rw [heq]
    exact add_le_add_left (float64_mono (div_nonneg hr₀ (by norm_num))
      (div_le_div_of_nonneg_right hr (by norm_num))) _

/-- A longer duration never has fewer whole seconds. -/
theorem int64_seconds_mono {d d' : Int} (h₀ : 0 ≤ d) (h : d ≤ d') (h₁ : d' < 2 ^ 63) :
    int64 (Duration.seconds d) ≤ int64 (Duration.seconds d') := by
  have hn : ∀ {x : Int}, 0 ≤ x → x < 2 ^ 63 → 0 ≤ Duration.seconds x := fun hx hx' =>
    (Int.cast_nonneg.2 (Int.ediv_nonneg hx (by norm_num))).trans (seconds_bounds hx hx').1
  rw [int64, int64, if_pos (hn h₀ (by omega)), if_pos (hn (by omega) h₁)]
  exact Int.floor_mono (seconds_mono h₀ h h₁)

/-- **The whole seconds of a duration.** For a positive int64 duration `ttl`,
`e = int64(ttl.Seconds())` is within a second of `ttl`, and `e ≥ 1` exactly from one
second on. -/
theorem int64_seconds {ttl : Int} (h₀ : 0 < ttl) (h₁ : ttl < 2 ^ 63) :
    |int64 (Duration.seconds ttl) * 10 ^ 9 - ttl| < 10 ^ 9 ∧
      (1 ≤ int64 (Duration.seconds ttl) ↔ 10 ^ 9 ≤ ttl) := by
  obtain ⟨hlo, hhi⟩ := seconds_bounds h₀.le h₁
  have hs₀ : (0 : Int) ≤ ttl / 1000000000 := Int.ediv_nonneg h₀.le (by norm_num)
  have he : int64 (Duration.seconds ttl) = ⌊Duration.seconds ttl⌋ :=
    if_pos ((Int.cast_nonneg.2 hs₀).trans hlo)
  rw [he]
  rcases hhi.lt_or_eq with hlt | heq
  · -- below the next second: `e` is the whole seconds, and the rest is the nanoseconds
    rw [(Int.floor_eq_iff.2 ⟨hlo, hlt⟩)]
    constructor
    · rw [abs_lt]; constructor <;> omega
    · omega
  · -- at the next second: there were nanoseconds left over, and a whole second
    have hr : ttl % 1000000000 ≠ 0 := fun hr => by
      rw [seconds_of_dvd h₀.le h₁ hr] at heq; linarith
    have hs : ttl / 1000000000 ≠ 0 := fun hs => by
      have := seconds_lt_one h₀.le h₁ hs
      rw [heq, hs] at this; norm_num at this
    rw [heq, show ((ttl / 1000000000 : Int) : ℚ) + 1 = ((ttl / 1000000000 + 1 : Int) : ℚ) by
      push_cast; rfl, Int.floor_intCast]
    constructor
    · rw [abs_lt]; constructor <;> omega
    · omega

end UniqushConn
