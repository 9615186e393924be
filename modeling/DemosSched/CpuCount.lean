import Mathlib.Data.Int.GCD
import Mathlib.Data.Int.ModEq
import Mathlib.Tactic.LinearCombination
import DemosSched.CpuList

/-! The loop that sets the bits of a range. Its variable is an `unsigned int`: the count
wraps at 2^32, and whether it ever passes the last CPU depends on the values that differ
from the first by multiples of the greatest common divisor of the stride and 2^32. -/

namespace DemosSched

namespace CpuList

theorem exists_mod_eq_iff {a s m x : Nat} (below : x < m) :
    (∃ k, (a + k * s) % m = x) ↔ a ≡ x [MOD Nat.gcd s m] := by
  constructor
  · rintro ⟨k, rfl⟩
    have hmul : k * s ≡ 0 [MOD Nat.gcd s m] :=
      Nat.modEq_zero_iff_dvd.mpr ((Nat.gcd_dvd_left s m).mul_left k)
    have hmod : (a + k * s) % m ≡ a + k * s [MOD Nat.gcd s m] :=
      (Nat.mod_modEq _ _).of_dvd (Nat.gcd_dvd_right s m)
    exact (hmod.trans ((Nat.ModEq.refl a).add hmul)).symm
  · intro h
    obtain ⟨t, ht⟩ := Nat.modEq_iff_dvd.mp h
    rw [Nat.gcd_eq_gcd_ab] at ht
    have hm : (m : Int) ≠ 0 := by omega
    -- the number of steps is the coefficient of `s`, made non-negative
    have hk : ((Nat.gcdA s m * t % m).toNat : Int) = Nat.gcdA s m * t % m :=
      Int.toNat_of_nonneg (Int.emod_nonneg _ hm)
    refine ⟨(Nat.gcdA s m * t % m).toNat, ?_⟩
    have hcongr : (a : Int) + Nat.gcdA s m * t % m * s ≡ x [ZMOD m] := by
      calc (a : Int) + Nat.gcdA s m * t % m * s
          ≡ a + Nat.gcdA s m * t * s [ZMOD m] :=
            (Int.ModEq.refl _).add ((Int.mod_modEq _ _).mul_right _)
        _ = x + m * -(Nat.gcdB s m * t) := by linear_combination -ht
        _ ≡ x [ZMOD m] := by simp [Int.ModEq]
    rw [← hk] at hcongr
    have hmod : a + (Nat.gcdA s m * t % m).toNat * s ≡ x [MOD m] := by
      exact_mod_cast hcongr
    exact Nat.mod_eq_of_modEq hmod below

namespace Range

/-- The value of the loop variable after `k` steps. -/
def count (r : Range) (k : Nat) : Nat := (r.first + k * r.stride) % 2 ^ 32

def Ends (r : Range) : Prop := ∃ k, r.last < r.count k

def Reaches (r : Range) (x : Nat) : Prop := ∃ k, r.count k = x ∧ ∀ j ≤ k, r.count j ≤ r.last

def next (r : Range) : Range := { r with first := (r.first + r.stride) % 2 ^ 32 }

variable {r : Range}

theorem count_zero (small : r.first < 2 ^ 32) : r.count 0 = r.first := by
  rw [count, Nat.zero_mul, Nat.add_zero, Nat.mod_eq_of_lt small]

theorem count_next (r : Range) (k : Nat) : r.next.count k = r.count (k + 1) := by
  simp only [count, next, Nat.mod_add_mod]
  congr 1
  rw [Nat.add_mul, Nat.one_mul]
  omega

theorem next_small (r : Range) : r.next.first < 2 ^ 32 := Nat.mod_lt _ (by decide)

theorem reaches_iff (small : r.first < 2 ^ 32) (x : Nat) :
    r.Reaches x ↔ r.first ≤ r.last ∧ (r.first = x ∨ r.next.Reaches x) := by
  constructor
  · rintro ⟨k, hk, hlast⟩
    have hfirst := hlast 0 k.zero_le
    rw [count_zero small] at hfirst
    refine ⟨hfirst, ?_⟩
    cases k with
    | zero => exact .inl (by rwa [count_zero small] at hk)
    | succ k =>
      refine .inr ⟨k, by rw [count_next, hk], fun j hj => ?_⟩
      rw [count_next]
      exact hlast (j + 1) (by omega)
  · rintro ⟨hfirst, rfl | ⟨k, hk, hlast⟩⟩
    · refine ⟨0, count_zero small, fun j hj => ?_⟩
      rw [Nat.le_zero.mp hj, count_zero small]
      exact hfirst
    · refine ⟨k + 1, by rw [← count_next, hk], fun j hj => ?_⟩
      cases j with
      | zero =>
        rw [count_zero small]
        exact hfirst
      | succ j =>
        rw [← count_next]
        exact hlast j (by omega)

theorem ends_iff (small : r.first < 2 ^ 32) : r.Ends ↔ r.last < r.first ∨ r.next.Ends := by
  constructor
  · rintro ⟨k, hk⟩
    cases k with
    | zero => exact .inl (by rwa [count_zero small] at hk)
    | succ k => exact .inr ⟨k, by rwa [count_next]⟩
  · rintro (h | ⟨k, hk⟩)
    · exact ⟨0, by rwa [count_zero small]⟩
    · exact ⟨k + 1, by rwa [← count_next]⟩

/-- The values repeat after 2^32 steps. -/
theorem Ends.bounded (h : r.Ends) : ∃ k < 2 ^ 32, r.last < r.count k := by
  obtain ⟨k, hk⟩ := h
  refine ⟨k % 2 ^ 32, Nat.mod_lt _ (by decide), ?_⟩
  have hcount : r.count (k % 2 ^ 32) = r.count k := by
    simp only [count]
    rw [Nat.add_mod, Nat.mod_mul_mod, ← Nat.add_mod]
  rwa [hcount]

def WellFormed (r : Range) : Prop := r.first ≤ r.last ∧ 0 < r.stride

def Lists (r : Range) (x : Nat) : Prop := ∃ k, r.first + k * r.stride = x ∧ x ≤ r.last

/-- The numbers as `unsigned int` keeps them. -/
def wrapped (r : Range) : Range := ⟨r.first % 2 ^ 32, r.last % 2 ^ 32, r.stride % 2 ^ 32⟩

/-- The first value above the last CPU is one of an `unsigned int`. -/
def Fits (r : Range) : Prop :=
  r.first + ((r.last - r.first) / r.stride + 1) * r.stride < 2 ^ 32

/-- The values that the count takes differ by multiples of this. -/
def spacing (r : Range) : Nat := Nat.gcd r.stride (2 ^ 32)

/-- The largest value that the count takes is not above the last CPU. -/
def Endless (r : Range) : Prop :=
  2 ^ 32 + r.first % r.spacing ≤ r.last % 2 ^ 32 + r.spacing

instance (r : Range) : Decidable r.WellFormed := inferInstanceAs (Decidable (_ ∧ _))

instance (r : Range) : Decidable r.Fits := inferInstanceAs (Decidable (_ < _))

instance (r : Range) : Decidable r.Endless := inferInstanceAs (Decidable (_ ≤ _))

theorem count_wrapped (r : Range) (k : Nat) : r.wrapped.count k = r.count k := by
  simp only [count, wrapped]
  exact (Nat.mod_modEq _ _).add ((Nat.ModEq.refl k).mul (Nat.mod_modEq _ _))

theorem ends_wrapped_iff (r : Range) : r.wrapped.Ends ↔ ¬ r.Endless := by
  obtain ⟨h, hh⟩ : r.spacing ∣ 2 ^ 32 := Nat.gcd_dvd_right _ _
  have hpos : 0 < r.spacing := Nat.gcd_pos_of_pos_right _ (by decide)
  have hrest : r.first % r.spacing < r.spacing := Nat.mod_lt _ hpos
  simp only [Ends, count_wrapped, Endless, not_le]
  constructor
  · rintro ⟨k, hk⟩
    have hk : r.last % 2 ^ 32 < r.count k := hk
    have hsmall : r.count k < 2 ^ 32 := Nat.mod_lt _ (by decide)
    have hmod : r.first % r.spacing = r.count k % r.spacing :=
      (exists_mod_eq_iff hsmall).mp ⟨k, rfl⟩
    have hdiv := Nat.div_add_mod (r.count k) r.spacing
    have hlt : r.count k / r.spacing < h := by
      rw [Nat.div_lt_iff_lt_mul hpos, Nat.mul_comm, ← hh]
      exact hsmall
    have hle := Nat.mul_le_mul_left r.spacing (Nat.succ_le_of_lt hlt)
    rw [Nat.mul_succ, ← hh] at hle
    omega
  · intro hlt
    have hle : r.spacing ≤ 2 ^ 32 := Nat.le_of_dvd (by decide) (Nat.gcd_dvd_right _ _)
    have hcongr : r.first ≡ 2 ^ 32 - r.spacing + r.first % r.spacing [MOD r.spacing] := by
      have hzero : 2 ^ 32 - r.spacing ≡ 0 [MOD r.spacing] :=
        Nat.modEq_zero_iff_dvd.mpr (Nat.dvd_sub (Nat.gcd_dvd_right _ _) dvd_rfl)
      simpa using (hzero.add (Nat.mod_modEq r.first r.spacing)).symm
    obtain ⟨k, hk⟩ := (exists_mod_eq_iff (by omega)).mpr hcongr
    refine ⟨k, ?_⟩
    have hcount : r.count k = _ := hk
    rw [hcount]
    show r.last % 2 ^ 32 < _
    omega

theorem WellFormed.last_lt (wellFormed : r.WellFormed) :
    r.last < r.first + ((r.last - r.first) / r.stride + 1) * r.stride := by
  have hover := Nat.lt_mul_div_succ (r.last - r.first) wellFormed.2
  have hle := wellFormed.1
  rw [Nat.mul_comm] at hover
  omega

theorem Fits.small (fits : r.Fits) (wellFormed : r.WellFormed) :
    r.first < 2 ^ 32 ∧ r.last < 2 ^ 32 ∧ r.stride < 2 ^ 32 := by
  have hlast := wellFormed.last_lt
  have hfits : r.first + ((r.last - r.first) / r.stride + 1) * r.stride < 2 ^ 32 := fits
  have hstride := Nat.le_mul_of_pos_left r.stride (Nat.succ_pos ((r.last - r.first) / r.stride))
  have hle := wellFormed.1
  rw [Nat.succ_eq_add_one] at hstride
  exact ⟨by omega, by omega, by omega⟩

theorem Fits.wrapped (fits : r.Fits) (wellFormed : r.WellFormed) : r.wrapped = r := by
  obtain ⟨hfirst, hlast, hstride⟩ := fits.small wellFormed
  rw [Range.wrapped, Nat.mod_eq_of_lt hfirst, Nat.mod_eq_of_lt hlast, Nat.mod_eq_of_lt hstride]

/-- Before it wraps the loop passes what the range lists. -/
theorem Fits.reaches_iff (fits : r.Fits) (wellFormed : r.WellFormed) (x : Nat) :
    r.Reaches x ↔ r.Lists x := by
  have hlast := wellFormed.last_lt
  have hfits : r.first + ((r.last - r.first) / r.stride + 1) * r.stride < 2 ^ 32 := fits
  have hcount : ∀ k, r.first + k * r.stride < 2 ^ 32 → r.count k = r.first + k * r.stride :=
    fun k hk => Nat.mod_eq_of_lt hk
  constructor
  · rintro ⟨k, hk, hbelow⟩
    have hle : k ≤ (r.last - r.first) / r.stride := by
      by_contra hgt
      have hstop := hbelow _ (Nat.succ_le_of_lt (Nat.lt_of_not_le hgt))
      rw [Nat.succ_eq_add_one, hcount _ hfits] at hstop
      omega
    have hmul := Nat.mul_le_mul_right r.stride hle
    rw [Nat.add_mul] at hfits
    have hx := hbelow k le_rfl
    rw [hcount k (by omega)] at hk hx
    exact ⟨k, hk, by omega⟩
  · rintro ⟨k, hk, hx⟩
    refine ⟨k, by rw [hcount k (by omega), hk], fun j hj => ?_⟩
    have hle := Nat.mul_le_mul_right r.stride hj
    rw [hcount j (by omega)]
    omega

theorem Fits.ends (fits : r.Fits) (wellFormed : r.WellFormed) : r.Ends := by
  refine ⟨(r.last - r.first) / r.stride + 1, ?_⟩
  rw [count, Nat.mod_eq_of_lt fits]
  exact wellFormed.last_lt

end Range

variable {capacity : Nat}

theorem setBits_some {r : Range} {fuel : Nat} {set set' : CpuSet} (small : r.first < 2 ^ 32)
    (run : setBits capacity r.last r.stride fuel r.first set = some set') :
    r.Ends ∧ ∀ x, x ∈ set' ↔ x ∈ set ∨ x < capacity ∧ r.Reaches x := by
  induction fuel generalizing r set with
  | zero => simp [setBits] at run
  | succ fuel ih =>
    rw [setBits] at run
    split at run
    case isTrue hle =>
      obtain ⟨hends, hmem⟩ := ih (r := r.next) r.next_small run
      refine ⟨(Range.ends_iff small).mpr (.inr hends), fun x => ?_⟩
      rw [hmem, Range.reaches_iff small]
      split
      case isTrue hcap =>
        rw [Finset.mem_insert]
        constructor
        · rintro ((rfl | hx) | ⟨hx, hr⟩)
          · exact .inr ⟨hcap, hle, .inl rfl⟩
          · exact .inl hx
          · exact .inr ⟨hx, hle, .inr hr⟩
        · rintro (hx | ⟨hx, -, rfl | hr⟩)
          · exact .inl (.inr hx)
          · exact .inl (.inl rfl)
          · exact .inr ⟨hx, hr⟩
      case isFalse hcap =>
        constructor
        · rintro (hx | ⟨hx, hr⟩)
          · exact .inl hx
          · exact .inr ⟨hx, hle, .inr hr⟩
        · rintro (hx | ⟨hx, -, rfl | hr⟩)
          · exact .inl hx
          · exact absurd hx hcap
          · exact .inr ⟨hx, hr⟩
    case isFalse hlt =>
      cases run
      refine ⟨(Range.ends_iff small).mpr (.inl (by omega)), fun x => ?_⟩
      rw [Range.reaches_iff small]
      simp [hlt]

theorem setBits_total (capacity : Nat) {r : Range} {fuel k : Nat} (set : CpuSet) (small : r.first < 2 ^ 32)
    (ends : r.last < r.count k) (bound : k < fuel) :
    ∃ set', setBits capacity r.last r.stride fuel r.first set = some set' := by
  induction fuel generalizing r k set with
  | zero => omega
  | succ fuel ih =>
    rw [setBits]
    split
    case isFalse => exact ⟨set, rfl⟩
    case isTrue hle =>
      cases k with
      | zero =>
        rw [Range.count_zero small] at ends
        omega
      | succ k =>
        rw [← Range.count_next] at ends
        exact ih (r := r.next) _ r.next_small ends (by omega)

end CpuList

end DemosSched
