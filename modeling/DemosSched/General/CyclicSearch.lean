import Mathlib.Data.Nat.ModEq
import Mathlib.Tactic.Ring

/-! Searching a cyclic queue of `n` entries for the first one that satisfies a
test, starting at the current position. A search that fails has gone once
round and steps one position further. -/

namespace DemosSched.CyclicSearch

def next (n cur : Nat) : Nat := if cur + 1 = n then 0 else cur + 1

def seek (n : Nat) (pending : Nat → Bool) : Nat → Nat → Option Nat × Nat
  | 0, cur => (none, next n cur)
  | fuel + 1, cur => if pending cur then (some cur, cur) else seek n pending fuel (next n cur)

variable {n : Nat} {pending : Nat → Bool}

theorem next_eq_mod {cur : Nat} (h : cur < n) : next n cur = (cur + 1) % n := by
  unfold next
  split
  · next h' => rw [h', Nat.mod_self]
  · rw [Nat.mod_eq_of_lt (by omega)]

theorem next_lt {cur : Nat} (h : cur < n) : next n cur < n := by
  rw [next_eq_mod h]
  exact Nat.mod_lt _ (by omega)

theorem mod_next (cur d : Nat) :
    ((cur + 1) % n + d) % n = (cur + (d + 1)) % n := by
  rw [Nat.mod_add_mod]
  congr 1
  omega

theorem seek_some {fuel cur k cur' : Nat} (h : cur < n)
    (found : seek n pending fuel cur = (some k, cur')) :
    cur' = k ∧ k < n ∧ pending k = true ∧
      ∃ d < fuel, k = (cur + d) % n ∧ ∀ e < d, pending ((cur + e) % n) = false := by
  induction fuel generalizing cur with
  | zero => simp [seek] at found
  | succ fuel ih =>
    unfold seek at found
    split at found
    · next hp =>
      simp only [Prod.mk.injEq, Option.some.injEq] at found
      obtain ⟨rfl, rfl⟩ := found
      exact ⟨rfl, h, hp, 0, by omega, by simp [Nat.mod_eq_of_lt h], by simp⟩
    · next hp =>
      obtain ⟨hk, hlt, hpk, d, hd, rfl, hbefore⟩ := ih (next_lt h) found
      refine ⟨hk, hlt, hpk, d + 1, by omega, ?_, ?_⟩
      · rw [next_eq_mod h, mod_next]
      · intro e he
        cases e with
        | zero => simpa [Nat.mod_eq_of_lt h] using hp
        | succ e =>
          rw [← mod_next, ← next_eq_mod h]
          exact hbefore e (by omega)

theorem seek_none {fuel cur cur' : Nat} (h : cur < n)
    (found : seek n pending fuel cur = (none, cur')) :
    cur' = (cur + fuel + 1) % n ∧ ∀ e < fuel, pending ((cur + e) % n) = false := by
  induction fuel generalizing cur with
  | zero =>
    simp only [seek, Prod.mk.injEq, true_and] at found
    exact ⟨by rw [← found, next_eq_mod h], by simp⟩
  | succ fuel ih =>
    unfold seek at found
    split at found
    · simp at found
    · next hp =>
      obtain ⟨hcur, hnone⟩ := ih (next_lt h) found
      refine ⟨?_, ?_⟩
      · rw [hcur, next_eq_mod h, Nat.add_assoc, mod_next]
        rfl
      · intro e he
        cases e with
        | zero => simpa [Nat.mod_eq_of_lt h] using hp
        | succ e =>
          rw [← mod_next, ← next_eq_mod h]
          exact hnone e (by omega)

theorem seek_all_none {cur cur' : Nat} (h : cur < n)
    (found : seek n pending n cur = (none, cur')) :
    cur' = next n cur ∧ ∀ k < n, pending k = false := by
  obtain ⟨hcur, hnone⟩ := seek_none h found
  refine ⟨?_, fun k hk => ?_⟩
  · rw [hcur, next_eq_mod h, show cur + n + 1 = cur + 1 + n by omega, Nat.add_mod_right]
  · by_cases hle : cur ≤ k
    · have := hnone (k - cur) (by omega)
      rwa [show cur + (k - cur) = k by omega, Nat.mod_eq_of_lt hk] at this
    · have := hnone (k + n - cur) (by omega)
      rwa [show cur + (k + n - cur) = k + n by omega, Nat.add_mod_right,
        Nat.mod_eq_of_lt hk] at this

theorem seek_pending {fuel cur : Nat} (hp : pending cur = true) :
    seek n pending (fuel + 1) cur = (some cur, cur) := by
  simp [seek, hp]

theorem seek_lt {fuel cur : Nat} (h : cur < n) : (seek n pending fuel cur).2 < n := by
  induction fuel generalizing cur with
  | zero => exact next_lt h
  | succ fuel ih =>
    unfold seek
    split
    · exact h
    · exact ih (next_lt h)

theorem seek_exists {cur k : Nat} (h : cur < n) (hk : k < n) (hp : pending k = true) :
    ∃ m, seek n pending n cur = (some m, m) := by
  cases hs : seek n pending n cur with
  | mk found cur' =>
    cases found with
    | none => simpa [hp] using (seek_all_none h hs).2 k hk
    | some m => exact ⟨m, by rw [(seek_some h hs).1]⟩

theorem next_round (pos : 0 < n) (f d : Nat) : next n ((f + d) % n) = (f + (d + 1)) % n := by
  rw [next_eq_mod (Nat.mod_lt _ pos), Nat.mod_add_mod]
  rfl

section Round

variable {f : Nat} (hf : f < n)

include hf

theorem round_cases {e : Nat} (he : e < n) :
    f + e < n ∧ (f + e) % n = f + e ∨ n ≤ f + e ∧ (f + e) % n = f + e - n := by
  by_cases h : f + e < n
  · exact .inl ⟨h, Nat.mod_eq_of_lt h⟩
  · refine .inr ⟨by omega, ?_⟩
    rw [Nat.mod_eq_sub_mod (by omega), Nat.mod_eq_of_lt (by omega)]

theorem round_injective {d e : Nat} (hd : d < n) (he : e < n) (h : (f + d) % n = (f + e) % n) :
    d = e := by
  rcases round_cases hf hd with ⟨_, h₁⟩ | ⟨_, h₁⟩ <;>
    rcases round_cases hf he with ⟨_, h₂⟩ | ⟨_, h₂⟩ <;> omega

theorem round_surjective {k : Nat} (hk : k < n) : ∃ e < n, k = (f + e) % n := by
  by_cases h : f ≤ k
  · exact ⟨k - f, by omega, by rw [show f + (k - f) = k by omega, Nat.mod_eq_of_lt hk]⟩
  · exact ⟨k + n - f, by omega, by
      rw [show f + (k + n - f) = k + n by omega, Nat.add_mod_right, Nat.mod_eq_of_lt hk]⟩

/-- When the positions met from `f` on are done up to the current one, the search finds
the next one, or ends there. -/
theorem seek_round {d : Nat} (hd : d < n)
    (pending_iff : ∀ e < n, pending ((f + e) % n) = decide (d < e)) :
    seek n pending n ((f + d) % n) =
      (if d + 1 < n then some ((f + (d + 1)) % n) else none, (f + (d + 1)) % n) := by
  have hcur : (f + d) % n < n := Nat.mod_lt _ (by omega)
  have hround := next_round (show 0 < n by omega) f d
  cases hs : seek n pending n ((f + d) % n) with
  | mk found cur' =>
    cases found with
    | none =>
      obtain ⟨rfl, hnone⟩ := seek_all_none hcur hs
      have hlast : ¬d + 1 < n := by
        intro h
        have hp := hnone _ (Nat.mod_lt (f + (d + 1)) (by omega))
        rw [pending_iff (d + 1) h] at hp
        simp at hp
      rw [if_neg hlast, hround]
    | some k =>
      obtain ⟨rfl, hk, hp, a, ha, rfl, hbefore⟩ := seek_some hcur hs
      obtain ⟨e, he, heq⟩ := round_surjective hf hk
      rw [heq, pending_iff e he, decide_eq_true_eq] at hp
      have hmod : ∀ b, ((f + d) % n + b) % n = (f + (d + b)) % n := by
        intro b
        rw [Nat.mod_add_mod, Nat.add_assoc]
      have hone : a = 1 := by
        by_contra hne
        rcases Nat.lt_or_ge a 1 with h | h
        · obtain rfl : a = 0 := by omega
          rw [hmod] at heq
          have := round_injective hf hd he heq
          omega
        · have hfirst := hbefore 1 (by omega)
          rw [hmod, pending_iff (d + 1) (by omega)] at hfirst
          simp at hfirst
      subst hone
      rw [hmod, if_pos (by omega)]

end Round

end DemosSched.CyclicSearch
