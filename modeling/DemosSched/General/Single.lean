import Mathlib.Data.Int.Log
import Mathlib.Data.Rat.Floor
import Mathlib.Tactic.FieldSimp
import Mathlib.Tactic.Linarith
import Mathlib.Tactic.Positivity

/-! Single-precision numbers as far as durations need them: the numbers with a
significand of 24 bits, rounded to nearest with ties to even, and NaN. The
values of interest are far from overflow and from the subnormal range. Nothing
here mentions a particular program. -/

namespace DemosSched

/-- A `float`: `none` is NaN. -/
structure Single where
  value : Option ℚ
  deriving DecidableEq

namespace Single

def nan : Single := ⟨none⟩

def isNan (x : Single) : Bool := x.value.isNone

/-- The nearest integer, the even one of two. -/
def roundHalfEven (q : ℚ) : ℤ :=
  let rest := q - ⌊q⌋
  if rest < 1 / 2 then ⌊q⌋
  else if 1 / 2 < rest then ⌊q⌋ + 1
  else if ⌊q⌋ % 2 = 0 then ⌊q⌋ else ⌊q⌋ + 1

def ulp (q : ℚ) : ℚ := 2 ^ (Int.log 2 |q| - 23)

def round (q : ℚ) : ℚ := if q = 0 then 0 else roundHalfEven (q / ulp q) * ulp q

/-- `static_cast<float>(n)`. -/
def ofInt (n : ℤ) : Single := ⟨some (round n)⟩

def mul (x y : Single) : Single :=
  ⟨x.value.bind fun a => y.value.map fun b => round (a * b)⟩

def div (x y : Single) : Single :=
  ⟨x.value.bind fun a => y.value.map fun b => round (a / b)⟩

def truncate (q : ℚ) : ℤ := if 0 ≤ q then ⌊q⌋ else ⌈q⌉

/-- `int(x)`: towards zero; what does not fit becomes the least `int`. -/
def toInt (x : Single) : ℤ :=
  match x.value with
  | none => -2 ^ 31
  | some q => if -2 ^ 31 ≤ truncate q ∧ truncate q < 2 ^ 31 then truncate q else -2 ^ 31

theorem roundHalfEven_mem (q : ℚ) : roundHalfEven q = ⌊q⌋ ∨ roundHalfEven q = ⌊q⌋ + 1 ∧ (⌊q⌋ : ℚ) < q := by
  unfold roundHalfEven
  simp only
  split
  case isTrue => exact .inl rfl
  case isFalse hlow =>
    have hlt : (⌊q⌋ : ℚ) < q := by linarith
    split
    case isTrue => exact .inr ⟨rfl, hlt⟩
    case isFalse =>
      split
      case isTrue => exact .inl rfl
      case isFalse => exact .inr ⟨rfl, hlt⟩

theorem roundHalfEven_intCast (n : ℤ) : roundHalfEven n = n := by
  simp [roundHalfEven]

theorem roundHalfEven_bounds {a b : ℤ} {q : ℚ} (low : (a : ℚ) ≤ q) (high : q ≤ b) :
    a ≤ roundHalfEven q ∧ roundHalfEven q ≤ b := by
  have hfloor : a ≤ ⌊q⌋ := Int.le_floor.mpr low
  have hb : ⌊q⌋ ≤ b := by exact_mod_cast (Int.floor_le q).trans high
  rcases roundHalfEven_mem q with h | ⟨h, hlt⟩
  · omega
  · have hlt' : ⌊q⌋ < b := by exact_mod_cast hlt.trans_le high
    omega

theorem ulp_pos (q : ℚ) : 0 < ulp q := by
  exact zpow_pos two_pos _

theorem ulp_eq {q : ℚ} {e : ℤ} (low : (2 : ℚ) ^ e ≤ |q|) (high : |q| < 2 ^ (e + 1)) :
    ulp q = 2 ^ (e - 23) := by
  have hlog : Int.log 2 |q| = e := by
    have hpos : 0 < |q| := lt_of_lt_of_le (zpow_pos two_pos e) low
    apply le_antisymm
    · have h := (Int.lt_zpow_iff_log_lt (b := 2) (by decide) hpos).mp (by exact_mod_cast high)
      omega
    · exact (Int.zpow_le_iff_le_log (b := 2) (by decide) hpos).mp (by exact_mod_cast low)
  rw [ulp, hlog]

/-- Multiples of a unit by a significand of 24 bits are not rounded. -/
theorem round_of_significand {m e : ℤ} (low : 2 ^ 23 ≤ |m|) (high : |m| ≤ 2 ^ 24) :
    round (m * 2 ^ e : ℚ) = m * 2 ^ e := by
  have hunit : (0 : ℚ) < 2 ^ e := zpow_pos two_pos e
  have hne : (2 : ℚ) ^ e ≠ 0 := hunit.ne'
  have hm : (m : ℚ) ≠ 0 := by
    rw [Int.cast_ne_zero]
    rintro rfl
    simp at low
  have habs : |(m * 2 ^ e : ℚ)| = |m| * 2 ^ e := by rw [abs_mul, abs_of_pos hunit, Int.cast_abs]
  have hshift : ∀ k : ℤ, (2 : ℚ) ^ (e + k) = 2 ^ k * 2 ^ e := by
    intro k
    rw [zpow_add₀ two_ne_zero, mul_comm]
  rw [round, if_neg (mul_ne_zero hm hne)]
  rcases lt_or_eq_of_le high with hlt | htop
  · have hulp : ulp (m * 2 ^ e : ℚ) = 2 ^ e := by
      rw [ulp_eq (e := e + 23), add_sub_cancel_right]
      · rw [habs, hshift, zpow_ofNat]
        exact mul_le_mul_of_nonneg_right (by exact_mod_cast low) hunit.le
      · rw [habs, show e + 23 + 1 = e + 24 by ring, hshift, zpow_ofNat]
        exact mul_lt_mul_of_pos_right (by exact_mod_cast hlt) hunit
    rw [hulp, mul_div_cancel_right₀ _ hne, roundHalfEven_intCast]
  · -- the significand takes one bit more, and its last one is zero
    have hhalf : ∃ n : ℤ, m = 2 * n := by
      rcases abs_eq (by norm_num) |>.mp htop with h | h
      · exact ⟨2 ^ 23, by rw [h]; norm_num⟩
      · exact ⟨-2 ^ 23, by rw [h]; norm_num⟩
    obtain ⟨n, rfl⟩ := hhalf
    have hulp : ulp ((2 * n : ℤ) * 2 ^ e : ℚ) = 2 ^ (e + 1) := by
      rw [ulp_eq (e := e + 24), show e + 24 - 23 = e + 1 by ring]
      · rw [habs, hshift, zpow_ofNat, htop]
        norm_num
      · rw [habs, show e + 24 + 1 = e + 25 by ring, hshift, zpow_ofNat, htop]
        exact mul_lt_mul_of_pos_right (by norm_num) hunit
    have hquot : ((2 * n : ℤ) * 2 ^ e : ℚ) / 2 ^ (e + 1) = n := by
      rw [hshift, zpow_one, div_eq_iff (mul_ne_zero two_ne_zero hne)]
      push_cast
      ring
    rw [hulp, hquot, roundHalfEven_intCast, hshift, zpow_one]
    push_cast
    ring

theorem round_round (q : ℚ) : round (round q) = round q := by
  rcases eq_or_ne q 0 with rfl | hq
  · simp [round]
  have hpos : 0 < |q| := abs_pos.mpr hq
  have hlog := Int.zpow_log_le_self (b := 2) (by decide) hpos
  have hsucc := Int.lt_zpow_succ_log_self (b := 2) (by decide) |q|
  push_cast at hlog hsucc
  have hulp : round q = roundHalfEven (q / ulp q) * 2 ^ (Int.log 2 |q| - 23) := by
    rw [round, if_neg hq, ulp]
  have hsize : (2 : ℚ) ^ 23 ≤ |q / ulp q| ∧ |q / ulp q| ≤ 2 ^ 24 := by
    rw [abs_div, abs_of_pos (ulp_pos q), le_div_iff₀ (ulp_pos q), div_le_iff₀ (ulp_pos q), ulp,
      ← zpow_natCast, ← zpow_natCast, ← zpow_add₀ two_ne_zero, ← zpow_add₀ two_ne_zero]
    constructor
    · convert hlog using 2
      push_cast
      ring
    · refine hsucc.le.trans (le_of_eq ?_)
      congr 1
      push_cast
      ring
  have hsig : 2 ^ 23 ≤ |roundHalfEven (q / ulp q)| ∧ |roundHalfEven (q / ulp q)| ≤ 2 ^ 24 := by
    rcases le_abs.mp hsize.1 with h | h
    · have hhigh := (le_abs_self _).trans hsize.2
      have hb := roundHalfEven_bounds (a := 2 ^ 23) (b := 2 ^ 24) (by exact_mod_cast h)
        (by exact_mod_cast hhigh)
      rw [abs_of_nonneg (by omega)]
      exact hb
    · have hhigh := (neg_le_abs _).trans hsize.2
      have hb := roundHalfEven_bounds (a := -2 ^ 24) (b := -2 ^ 23) (q := q / ulp q)
        (by push_cast; linarith) (by push_cast; linarith)
      rw [abs_of_neg (by omega)]
      omega
  rw [hulp]
  exact round_of_significand hsig.1 hsig.2

def IsFloat (x : Single) : Prop := ∀ q ∈ x.value, round q = q

theorem isFloat_nan : nan.IsFloat := by simp [IsFloat, nan]

theorem isFloat_mul (x y : Single) : (x.mul y).IsFloat := by
  intro q hq
  simp only [mul, Option.mem_def, Option.bind_eq_some_iff, Option.map_eq_some_iff] at hq
  obtain ⟨a, -, b, -, rfl⟩ := hq
  exact round_round _

theorem div_ofInt_one {x : Single} (h : x.IsFloat) : x.div (ofInt 1) = x := by
  have hone : round ((1 : ℤ) : ℚ) = 1 := by
    have h := round_of_significand (m := 2 ^ 23) (e := -23) (by norm_num) (by norm_num)
    norm_num at h
    exact_mod_cast h
  cases x with
  | mk value =>
    cases value with
    | none => rfl
    | some q =>
      have hq : round q = q := h q rfl
      simp only [div, ofInt, hone, Option.bind_some, Option.map_some, div_one, hq]

theorem abs_roundHalfEven_sub_le (q : ℚ) : |roundHalfEven q - q| ≤ 1 / 2 := by
  have hlow := Int.floor_le q
  have hhigh := Int.lt_floor_add_one q
  unfold roundHalfEven
  simp only
  split
  case isTrue hrest =>
    rw [abs_le]
    constructor <;> linarith
  case isFalse hrest =>
    have hup : |((⌊q⌋ + 1 : ℤ) : ℚ) - q| ≤ 1 / 2 := by
      rw [abs_le]
      push_cast
      constructor <;> linarith
    split
    case isTrue => exact hup
    case isFalse hhalf =>
      split
      case isTrue =>
        rw [abs_le]
        constructor <;> linarith
      case isFalse => exact hup

theorem ulp_le (q : ℚ) (ne : q ≠ 0) : ulp q ≤ |q| / 2 ^ 23 := by
  have hlog := Int.zpow_log_le_self (b := 2) (by decide) (abs_pos.mpr ne)
  rw [ulp, zpow_sub₀ two_ne_zero]
  push_cast at hlog
  exact div_le_div_of_nonneg_right hlog (by norm_num)

theorem abs_round_sub_le (q : ℚ) : |round q - q| ≤ |q| / 2 ^ 24 := by
  rcases eq_or_ne q 0 with rfl | hq
  · simp [round]
  have hpos := ulp_pos q
  have hscaled : round q - q = (roundHalfEven (q / ulp q) - q / ulp q) * ulp q := by
    rw [round, if_neg hq, sub_mul, div_mul_cancel₀ _ hpos.ne']
  rw [hscaled, abs_mul, abs_of_pos hpos]
  calc |(roundHalfEven (q / ulp q) : ℚ) - q / ulp q| * ulp q ≤ 1 / 2 * ulp q :=
        mul_le_mul_of_nonneg_right (abs_roundHalfEven_sub_le _) hpos.le
    _ ≤ 1 / 2 * (|q| / 2 ^ 23) := mul_le_mul_of_nonneg_left (ulp_le q hq) (by norm_num)
    _ = |q| / 2 ^ 24 := by ring

/-- Below 2^24 the last bit weighs one or a part of it. -/
theorem ulp_dvd {q : ℚ} (pos : 0 < q) (small : q < 2 ^ 24) (m : ℤ) :
    ∃ k : ℤ, (m : ℚ) / ulp q = k := by
  have hlog : Int.log 2 |q| < 24 := by
    refine (Int.lt_zpow_iff_log_lt (b := 2) (by decide) (abs_pos.mpr pos.ne')).mp ?_
    rw [abs_of_pos pos]
    exact_mod_cast small
  obtain ⟨n, hn⟩ := Int.eq_ofNat_of_zero_le (show 0 ≤ 23 - Int.log 2 |q| by omega)
  refine ⟨m * 2 ^ n, ?_⟩
  rw [ulp, show Int.log 2 |q| - 23 = -(n : ℤ) by omega, zpow_neg, zpow_natCast, div_inv_eq_mul]
  push_cast
  rfl

theorem le_round {m : ℤ} {q : ℚ} (nonneg : 0 ≤ q) (le : m ≤ q) (small : q < 2 ^ 24) :
    m ≤ round q := by
  rcases eq_or_lt_of_le nonneg with rfl | hpos
  · simpa [round] using le
  obtain ⟨k, hk⟩ := ulp_dvd hpos small m
  have hle : (k : ℚ) ≤ q / ulp q := hk ▸ div_le_div_of_nonneg_right le (ulp_pos q).le
  have hround := (roundHalfEven_bounds hle (Int.le_ceil _)).1
  rw [round, if_neg hpos.ne', ← div_le_iff₀ (ulp_pos q), hk]
  exact_mod_cast hround

theorem round_intCast {m : ℤ} (nonneg : 0 ≤ m) (small : m < 2 ^ 24) : round m = m := by
  rcases eq_or_lt_of_le nonneg with rfl | hpos
  · simp [round]
  obtain ⟨k, hk⟩ := ulp_dvd (q := m) (by exact_mod_cast hpos) (by exact_mod_cast small) m
  rw [round, if_neg (by exact_mod_cast hpos.ne'), hk, roundHalfEven_intCast, ← hk,
    div_mul_cancel₀ _ (ulp_pos _).ne']

theorem round_nonneg {q : ℚ} (nonneg : 0 ≤ q) : 0 ≤ round q := by
  have h := (abs_le.mp (abs_round_sub_le q)).1
  rw [abs_of_nonneg nonneg] at h
  linarith

theorem round_le {q : ℚ} (nonneg : 0 ≤ q) : round q ≤ q * (1 + 1 / 2 ^ 24) := by
  have h := (abs_le.mp (abs_round_sub_le q)).2
  rw [abs_of_nonneg nonneg] at h
  linarith

theorem le_round_mul {q : ℚ} (nonneg : 0 ≤ q) : q * (1 - 1 / 2 ^ 24) ≤ round q := by
  have h := (abs_le.mp (abs_round_sub_le q)).1
  rw [abs_of_nonneg nonneg] at h
  linarith

theorem toInt_of_nonneg {x : Single} {q : ℚ} (value : x.value = some q) (nonneg : 0 ≤ q)
    (small : q < 2 ^ 31) : x.toInt = ⌊q⌋ := by
  have hfloor : 0 ≤ ⌊q⌋ := Int.floor_nonneg.mpr nonneg
  have hlt : ⌊q⌋ < 2 ^ 31 := Int.floor_lt.mpr (by exact_mod_cast small)
  simp only [toInt, value, truncate, if_pos nonneg]
  rw [if_pos ⟨by omega, hlt⟩]

/-- A share of an integer, divided among `n`, comes to what the fraction `p / r` of it
does: the share is above the fraction by less than what the roundings can tell apart. -/
theorem toInt_share {len n p r : ℤ} {s : ℚ} (len_nonneg : 0 ≤ len) (len_small : len < 2 ^ 23)
    (n_pos : 0 < n) (p_nonneg : 0 ≤ p) (r_pos : 0 < r) (low : (p : ℚ) / r ≤ s) (high : s ≤ 1)
    (close : len * (r * s * (1 + 1 / 2 ^ 24) ^ 2 - p) < 1) :
    (((ofInt len).mul ⟨some s⟩).div (ofInt n)).toInt = p * len / (r * n) := by
  have hlen : (0 : ℚ) ≤ len := by exact_mod_cast len_nonneg
  have hlen' : (len : ℚ) < 2 ^ 23 := by exact_mod_cast len_small
  have hn : (0 : ℚ) < n := by exact_mod_cast n_pos
  have hone : (1 : ℚ) ≤ n := by exact_mod_cast n_pos
  have hr : (0 : ℚ) < r := by exact_mod_cast r_pos
  have hp : (0 : ℚ) ≤ p := by exact_mod_cast p_nonneg
  have hs : 0 ≤ s := (div_nonneg hp hr.le).trans low
  have hpart : 0 ≤ len * s := mul_nonneg hlen hs
  have hpart_small : len * s < 2 ^ 23 := (mul_le_of_le_one_right hlen high).trans_lt hlen'
  have htotal := round_nonneg hpart
  have htotal_le := round_le hpart
  have hvalue : (((ofInt len).mul ⟨some s⟩).div (ofInt n)).value =
      some (round (round (len * s) / round n)) := by
    simp only [div, mul, ofInt, round_intCast len_nonneg (by omega : len < 2 ^ 24),
      Option.bind_some, Option.map_some]
  rcases lt_or_ge n (2 ^ 24) with hsmall | hlarge
  · have hquot : 0 ≤ round (len * s) / n := div_nonneg htotal hn.le
    have hquot_small : round (len * s) / n < 2 ^ 24 := by
      rw [div_lt_iff₀ hn]
      nlinarith
    rw [round_intCast n_pos.le hsmall] at hvalue
    have hrounded := round_le hquot
    rw [toInt_of_nonneg hvalue (round_nonneg hquot) (by linarith), Int.floor_eq_iff]
    have hm := Int.ediv_mul_le (p * len) (show r * n ≠ 0 by positivity)
    have hm' := Int.lt_ediv_add_one_mul_self (p * len) (show 0 < r * n by positivity)
    generalize p * len / (r * n) = m at hm hm'
    have hm_le : (m : ℚ) * (r * n) ≤ p * len := by exact_mod_cast hm
    constructor
    · -- `m * n` is an integer below the fraction, so below its rounding too
      refine le_round hquot ?_ hquot_small
      rw [le_div_iff₀ hn]
      have hle : ((m * n : ℤ) : ℚ) ≤ len * s := by
        push_cast
        have hshare : (p : ℚ) ≤ s * r := (div_le_iff₀ hr).mp low
        nlinarith
      exact_mod_cast le_round hpart hle (by linarith)
    · have hlt : (p * len + 1 : ℚ) ≤ (m + 1) * (r * n) := by exact_mod_cast hm'
      have hbound : round (len * s) / n * (1 + 1 / 2 ^ 24) * (r * n) < p * len + 1 := by
        have hcancel : round (len * s) / n * (1 + 1 / 2 ^ 24) * (r * n) =
            round (len * s) * (1 + 1 / 2 ^ 24) * r := by
          field_simp
        rw [hcancel]
        nlinarith
      have hrn : (0 : ℚ) < r * n := mul_pos hr hn
      exact hrounded.trans_lt (lt_of_mul_lt_mul_right (hbound.trans_le hlt) hrn.le)
  · -- more than there is to divide
    have hlarge' : (2 ^ 24 : ℚ) ≤ n := by exact_mod_cast hlarge
    have hn_le := le_round_mul hn.le
    have hn_round : (2 ^ 23 + 2 ^ 22 : ℚ) ≤ round n := by linarith
    have hquot : 0 ≤ round (len * s) / round n := div_nonneg htotal (round_nonneg hn.le)
    have hquot_small : round (len * s) / round n ≤ 3 / 4 := by
      rw [div_le_iff₀ (by linarith)]
      linarith
    have hrounded := round_le hquot
    rw [toInt_of_nonneg hvalue (round_nonneg hquot) (by linarith), Int.floor_eq_zero_iff.mpr]
    · refine (Int.ediv_eq_zero_of_lt (mul_nonneg p_nonneg len_nonneg) ?_).symm
      have hpr : (p : ℚ) ≤ r := by
        rw [div_le_iff₀ hr] at low
        nlinarith
      have hpr' : p ≤ r := by exact_mod_cast hpr
      nlinarith
    · exact ⟨round_nonneg hquot, by linarith⟩

theorem toInt_nonpos {x : Single} {q : ℚ} (value : x.value = some q) (nonpos : q ≤ 0) :
    x.toInt ≤ 0 := by
  have htruncate : truncate q ≤ 0 := by
    unfold truncate
    split
    · exact Int.floor_nonpos nonpos
    · exact Int.ceil_nonpos.mpr nonpos
  simp only [toInt, value]
  split
  · exact htruncate
  · decide

theorem round_nonpos {q : ℚ} (nonpos : q ≤ 0) : round q ≤ 0 := by
  have h := (abs_le.mp (abs_round_sub_le q)).2
  rw [abs_of_nonpos nonpos] at h
  linarith

end Single

end DemosSched
