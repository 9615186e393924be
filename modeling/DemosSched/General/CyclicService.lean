import Mathlib.Algebra.BigOperators.Group.List.Basic
import Mathlib.Data.List.Rotate
import DemosSched.General.CyclicSearch

/-! A server that goes round a queue of `n` jobs in sessions of given lengths. A session
takes the jobs in the order of the queue, from where the last one has stopped, and each
job at most once; what is left of the job it is cut in is done first in the next one. -/

namespace DemosSched.CyclicService

/-- The job whose turn it is, and what is left of it. -/
structure Position where
  job : Nat
  left : Int
  deriving DecidableEq, Repr

namespace Position

variable (n : Nat) (cost : Nat → Int) (p : Position)

def nth (e : Nat) : Nat := (p.job + e) % n

def need (e : Nat) : Int := if e = 0 then p.left else cost (p.nth n e)

/-- What the first `d` jobs need together. -/
def demand (d : Nat) : Int := ((List.range d).map (p.need n cost)).sum

/-- The places of the jobs that start in a session of length `L`. -/
def started (L : Int) : List Nat := (List.range n).filter fun e => decide (p.demand n cost e < L)

def finished (L : Int) : Nat :=
  ((List.range n).filter fun e => decide (p.demand n cost (e + 1) ≤ L)).length

/-- Where a session of length `L` stops. -/
def after (L : Int) : Position where
  job := p.nth n (p.finished n cost L)
  left := if p.finished n cost L = n then cost p.job
    else p.demand n cost (p.finished n cost L + 1) - L

structure Valid : Prop where
  job : p.job < n
  pos : 0 < p.left
  le : p.left ≤ cost p.job

end Position

/-- The positions after the sessions of lengths `L 0`, `L 1`, and so on. -/
def positions (n : Nat) (cost : Nat → Int) (L : Nat → Int) (p : Position) : Nat → Position
  | 0 => p
  | m + 1 => (positions n cost L p m).after n cost (L m)

theorem filter_range {n d : Nat} {test : Nat → Bool} (le : d ≤ n) (before : ∀ e < d, test e = true)
    (behind : ∀ e, d ≤ e → e < n → test e = false) :
    (List.range n).filter test = List.range d := by
  obtain ⟨r, rfl⟩ : ∃ r, n = d + r := ⟨n - d, by omega⟩
  have hfirst : (List.range d).filter test = List.range d := by
    rw [List.filter_eq_self]
    exact fun e he => before e (List.mem_range.mp he)
  have hrest : ((List.range r).map (d + ·)).filter test = [] := by
    rw [List.filter_eq_nil_iff]
    intro e he
    obtain ⟨l, hl, rfl⟩ := List.mem_map.mp he
    rw [List.mem_range] at hl
    simp [behind (d + l) (by omega) (by omega)]
  rw [List.range_add, List.filter_append, hfirst, hrest, List.append_nil]

namespace Position

variable {n : Nat} {cost : Nat → Int} {p : Position} {L : Int} {d : Nat}

theorem demand_zero : p.demand n cost 0 = 0 := rfl

theorem demand_succ (d : Nat) : p.demand n cost (d + 1) = p.demand n cost d + p.need n cost d := by
  simp [demand, List.range_succ]

theorem need_zero : p.need n cost 0 = p.left := rfl

theorem demand_one : p.demand n cost 1 = p.left := by
  rw [demand_succ, demand_zero, need_zero, Int.zero_add]

theorem nth_zero (valid : p.Valid n cost) : p.nth n 0 = p.job := Nat.mod_eq_of_lt valid.job

theorem nth_lt (valid : p.Valid n cost) (e : Nat) : p.nth n e < n :=
  Nat.mod_lt _ (Nat.zero_lt_of_lt valid.job)

theorem need_le (valid : p.Valid n cost) (e : Nat) : p.need n cost e ≤ cost (p.nth n e) := by
  unfold need
  split
  · next he => rw [he, nth_zero valid]; exact valid.le
  · exact le_rfl

theorem after_cases (nonneg : 0 ≤ L) : p.demand n cost n ≤ L ∨
    ∃ d < n, p.demand n cost d ≤ L ∧ L < p.demand n cost (d + 1) := by
  by_contra hneither
  push Not at hneither
  obtain ⟨hshort, hcut⟩ := hneither
  have hall : ∀ d ≤ n, p.demand n cost d ≤ L := by
    intro d
    induction d with
    | zero => exact fun _ => nonneg
    | succ d ih => exact fun hd => hcut d (by omega) (ih (by omega))
  have := hall n le_rfl
  omega

section Costs

variable (positive : ∀ j, 0 < cost j) (valid : p.Valid n cost)

include positive valid

theorem need_pos (e : Nat) : 0 < p.need n cost e := by
  unfold need
  split
  · exact valid.pos
  · exact positive _

theorem demand_lt {d e : Nat} (h : d < e) : p.demand n cost d < p.demand n cost e := by
  induction h with
  | refl =>
    have hpos := need_pos positive valid d
    rw [demand_succ]
    omega
  | @step e _ ih =>
    have hpos := need_pos positive valid e
    rw [demand_succ]
    omega

theorem demand_le {d e : Nat} (h : d ≤ e) : p.demand n cost d ≤ p.demand n cost e := by
  rcases Nat.lt_or_eq_of_le h with hlt | rfl
  · exact (demand_lt positive valid hlt).le
  · exact le_rfl

theorem finished_eq (hd : d ≤ n) (done : p.demand n cost d ≤ L)
    (short : d < n → L < p.demand n cost (d + 1)) : p.finished n cost L = d := by
  rw [finished, filter_range hd, List.length_range]
  · intro e he
    have hle := demand_le positive valid (show e + 1 ≤ d from he)
    exact decide_eq_true (hle.trans done)
  · intro e hde hen
    have hle := demand_le positive valid (show d + 1 ≤ e + 1 by omega)
    have hlt := short (by omega)
    simpa using by omega

theorem after_cut (hd : d < n) (done : p.demand n cost d ≤ L) (short : L < p.demand n cost (d + 1)) :
    p.after n cost L = ⟨p.nth n d, p.demand n cost (d + 1) - L⟩ := by
  have hfinished := finished_eq positive valid hd.le done fun _ => short
  simp [after, hfinished, hd.ne]

theorem after_all (done : p.demand n cost n ≤ L) : p.after n cost L = ⟨p.job, cost p.job⟩ := by
  have hfinished := finished_eq positive valid le_rfl done (by simp)
  have hround : p.nth n n = p.job := by
    rw [nth, Nat.add_mod_right, Nat.mod_eq_of_lt valid.job]
  simp [after, hfinished, hround]

theorem after_empty : p.after n cost 0 = p := by
  have hlt : 0 < p.demand n cost (0 + 1) := demand_one (p := p) ▸ valid.pos
  have hzero : p.demand n cost 0 ≤ 0 := le_rfl
  rw [after_cut positive valid (Nat.zero_lt_of_lt valid.job) hzero hlt, nth_zero valid, demand_one,
    Int.sub_zero]

theorem valid_after (nonneg : 0 ≤ L) : (p.after n cost L).Valid n cost := by
  rcases after_cases nonneg with hall | ⟨d, hd, hdone, hshort⟩
  · rw [after_all positive valid hall]
    exact ⟨valid.job, positive _, le_rfl⟩
  · rw [after_cut positive valid hd hdone hshort]
    have hle := need_le valid d
    rw [demand_succ] at hshort ⊢
    refine ⟨nth_lt valid d, ?_, ?_⟩
    · dsimp only
      omega
    · dsimp only
      omega

theorem started_eq (hd : d < n) (before : p.demand n cost d < L)
    (short : d + 1 < n → L ≤ p.demand n cost (d + 1)) :
    p.started n cost L = List.range (d + 1) := by
  refine filter_range hd (fun e he => ?_) fun e hde hen => ?_
  · have hle := demand_le positive valid (Nat.le_of_lt_succ he)
    exact decide_eq_true (by omega)
  · have hle := demand_le positive valid hde
    have hlt := short (by omega)
    simpa using by omega

theorem started_empty (le : L ≤ 0) : p.started n cost L = [] := by
  rw [started, filter_range (Nat.zero_le n) (by simp), List.range_zero]
  intro e _ _
  have hle := demand_le positive valid (Nat.zero_le e)
  rw [demand_zero] at hle
  simpa using by omega

theorem range_prefix_started (hd : d < n) (before : p.demand n cost d < L) :
    List.range (d + 1) <+: p.started n cost L := by
  obtain ⟨r, hr⟩ : ∃ r, n = d + 1 + r := ⟨n - (d + 1), by omega⟩
  have hsplit : p.started n cost L = List.range (d + 1) ++ ((List.range r).map (d + 1 + ·)).filter
      fun e => decide (p.demand n cost e < L) := by
    have hfirst : (List.range (d + 1)).filter (fun e => decide (p.demand n cost e < L)) =
        List.range (d + 1) := by
      rw [List.filter_eq_self]
      intro e he
      have hle := demand_le positive valid (Nat.le_of_lt_succ (List.mem_range.mp he))
      exact decide_eq_true (by omega)
    have hrange : List.range n = List.range (d + 1) ++ (List.range r).map (d + 1 + ·) := by
      rw [← List.range_add, ← hr]
    rw [started, hrange, List.filter_append, hfirst]
  exact hsplit ▸ List.prefix_append _ _

end Costs

end Position

section Starvation

open Position

variable {n : Nat} {cost : Nat → Int} {L : Nat → Int} {p : Position}

theorem valid_positions (positive : ∀ j, 0 < cost j) (nonneg : ∀ m, 0 ≤ L m)
    (valid : p.Valid n cost) (m : Nat) : (positions n cost L p m).Valid n cost := by
  induction m with
  | zero => exact valid
  | succ m ih => exact valid_after positive ih (nonneg m)

end Starvation

section Turns

/-- How often entry `j` of a queue of `n` has had its turn after `T` turns, the first of
which was that of entry 0. -/
def turns (n T j : Nat) : Nat := T / n + if j < T % n then 1 else 0

variable {n T i j : Nat}

theorem turns_zero : turns n 0 j = 0 := by simp [turns]

theorem turns_succ (hj : j < n) :
    turns n (T + 1) j = turns n T j + if j = T % n then 1 else 0 := by
  have hlt : T % n < n := Nat.mod_lt _ (by omega)
  have hsum := Nat.div_add_mod T n
  unfold turns
  generalize T / n = q at *
  generalize T % n = r at *
  subst hsum
  by_cases hlast : r + 1 = n
  · rw [Nat.add_assoc, hlast, ← Nat.mul_succ, Nat.mul_div_cancel_left _ (by omega),
      Nat.mul_mod_right, if_neg (Nat.not_lt_zero j)]
    split <;> split <;> omega
  · rw [Nat.add_assoc, Nat.mul_add_div (by omega), Nat.mul_add_mod, Nat.div_eq_of_lt (by omega),
      Nat.mod_eq_of_lt (show r + 1 < n by omega)]
    split <;> split <;> split <;> omega

theorem turns_le_succ : turns n T i ≤ turns n T j + 1 := by
  unfold turns
  split <;> split <;> omega

theorem turns_due_le : turns n T (T % n) ≤ turns n T j := by
  unfold turns
  split <;> split <;> omega

end Turns

end DemosSched.CyclicService
