import DemosSched.State
import DemosSched.General.Fallible

/-! `Process`: the freezer, the stored budget with its jitter, and the flags a
partition looks for work by. -/

namespace DemosSched.Process

/-- `std::chrono::duration_cast<milliseconds>`, which rounds toward zero. -/
def durationCastMs (d : Int) : Int := Int.tdiv d nsPerMs

/-- What `jitter_distribution_ms` makes of a number drawn from `gen`. -/
def jitterOffset (jitter : Int) (raw : Nat) : Int := -(jitter / 2) + raw % (jitter + 1)

variable (c : Config) (p : ProcessId) (s : State)

def isSpawned : Bool := (s.process p).spawned

def isPending : Bool := isSpawned p s && !(s.process p).completed

def suspend : State := s.setProcess p { s.process p with frozen := true }

def resume : Except Fault State :=
  if isSpawned p s then
    -- a process that has signalled completion waits for a token
    let tokens := if (s.process p).demosCompleted then 1 else 0
    .ok (s.setProcess p { s.process p with
      frozen := false
      demosCompleted := false
      continueTokens := (s.process p).continueTokens + tokens })
  else .error (.notSpawned p)

def markCompleted : State := s.setProcess p { s.process p with completed := true }

def markUncompleted : State := s.setProcess p { s.process p with completed := false }

def getActualBudget : Except Fault (Int × State) :=
  let actual := (s.process p).actualBudget
  if (c.process p).budget ≠ actual then
    -- a stored remainder is already randomized
    if 0 < actual then .ok (actual, s) else .error (.storedBudgetNotPositive p)
  else
    let offset := jitterOffset (c.process p).jitter (s.gen 0)
    let s := (s.setGen fun n => s.gen (n + 1)).record (.drawn p offset)
    if 0 ≤ actual + offset then .ok (actual + offset, s) else .error (.negativeBudget p)

def setRemainingBudget (nextBudget : Int) : Except Fault State :=
  if ¬0 < nextBudget then .error (.remainingNotPositive p nextBudget)
  else if ¬nextBudget < (c.process p).budget then
    .error (.remainingNotBelowBudget p nextBudget)
  else .ok ((s.setProcess p { s.process p with actualBudget := nextBudget }).record
    (.shortened p nextBudget))

def resetBudget : State :=
  s.setProcess p { s.process p with actualBudget := (c.process p).budget }

/-- `Process::kill` thaws what it has signalled, so that the signal is delivered. -/
def kill : State :=
  if isSpawned p s then
    (s.setProcess p { s.process p with frozen := false, killed := true }).record (.killed p)
  else s

theorem jitterOffset_zero (raw : Nat) : jitterOffset 0 raw = 0 := by
  simp [jitterOffset]

theorem jitterOffset_bounds {jitter : Int} (h : 0 ≤ jitter) (raw : Nat) :
    -(jitter / 2) ≤ jitterOffset jitter raw ∧ jitterOffset jitter raw ≤ jitter - jitter / 2 := by
  have hlow := Int.emod_nonneg (raw : Int) (show jitter + 1 ≠ 0 by omega)
  have hhigh := Int.emod_lt_of_pos (raw : Int) (show 0 < jitter + 1 by omega)
  unfold jitterOffset
  omega

/-- An accepted jitter cannot make a budget negative. -/
theorem budget_add_jitterOffset_nonneg (raw : Nat) :
    0 ≤ (c.process p).budget + jitterOffset (c.process p).jitter raw := by
  have h := (jitterOffset_bounds (c.process p).jitter_nonneg raw).1
  have hle := (c.process p).jitter_le
  omega

theorem isPending_iff : isPending p s = true ↔
    (s.process p).spawned = true ∧ (s.process p).completed = false := by
  simp [isPending, isSpawned]

theorem durationCastMs_nonneg {d : Int} (h : 0 ≤ d) : durationCastMs d = d / nsPerMs :=
  Int.tdiv_eq_ediv_of_nonneg h

theorem durationCastMs_neg {d : Int} (h : d < 0) : durationCastMs d = -(-d / nsPerMs) := by
  have hneg := Int.neg_tdiv (-d) nsPerMs
  have hpos : (-d).tdiv nsPerMs = -d / nsPerMs := Int.tdiv_eq_ediv_of_nonneg (by omega)
  rwa [Int.neg_neg, hpos] at hneg

theorem durationCastMs_checks {d budget : Int} (h : 0 < budget) :
    (durationCastMs d ≠ 0 → 0 < durationCastMs d ∧ durationCastMs d < budget) ↔
      -nsPerMs < d ∧ d < budget * nsPerMs := by
  by_cases hd : 0 ≤ d
  · rw [durationCastMs_nonneg hd]
    unfold nsPerMs
    omega
  · rw [durationCastMs_neg (by omega)]
    unfold nsPerMs
    omega

theorem durationCastMs_le {d : Int} (h : 0 ≤ d) : durationCastMs d * nsPerMs ≤ d := by
  rw [durationCastMs_nonneg h]
  unfold nsPerMs
  omega

end DemosSched.Process
