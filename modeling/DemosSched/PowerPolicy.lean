import DemosSched.Course
import DemosSched.General.Fallible

/-! `CpufreqPolicy` and `PowerPolicy`. A power policy answers calls of the scheduler
by writing frequencies; its calls are among the records of a run, so what it has
written is the replay of the records. -/

namespace DemosSched

open Fallible

/-- An exception of a power policy, which ends the program. -/
inductive PowerFault
  | belowMinimum (freq : Nat)
  | aboveMaximum (freq : Nat)
  | unavailable (freq : Nat)
  | differentFrequencies (running starting : ProcessId)
  deriving DecidableEq, Repr

/-- The macro `RUN_DEBUG`. -/
def runDebug (debug : Bool) (check : Except PowerFault Unit) : Except PowerFault Unit :=
  if debug then check else .ok ()

/-- Frequencies are in Hz; `setspeed` is the number last written to the file
`scaling_setspeed`, which takes kHz. -/
structure CpufreqPolicy where
  minFrequency : Nat
  maxFrequency : Nat
  availableFrequencies : Option (List Nat)
  affectedCores : CpuSet
  setspeed : Option Nat := none

namespace CpufreqPolicy

variable (debug : Bool)

def active (x : CpufreqPolicy) : Bool := decide (0 < x.affectedCores.card)

def validateFrequency (freq : Nat) (x : CpufreqPolicy) : Except PowerFault Unit :=
  if freq < x.minFrequency then .error (.belowMinimum freq)
  else if freq > x.maxFrequency then .error (.aboveMaximum freq)
  else match x.availableFrequencies with
    | none => .ok ()
    | some available => if freq ∈ available then .ok () else .error (.unavailable freq)

def writeFrequency (freq : Nat) (x : CpufreqPolicy) : Except PowerFault CpufreqPolicy :=
  if !x.active then .ok x
  else do
    runDebug debug (x.validateFrequency freq)
    return { x with setspeed := some (freq / 1000) }

variable {debug}

theorem writeFrequency_ok {freq : Nat} {x y : CpufreqPolicy}
    (h : x.writeFrequency debug freq = .ok y) :
    y = (if x.active then { x with setspeed := some (freq / 1000) } else x) ∧
      (debug = true → x.active = true → x.validateFrequency freq = .ok ()) := by
  unfold writeFrequency at h
  by_cases hactive : x.active = true
  · rw [if_neg (by simp [hactive]), bind_def, bind_eq_ok] at h
    obtain ⟨_, hvalid, h⟩ := h
    rw [pure_def, Except.ok.injEq] at h
    rw [if_pos hactive]
    exact ⟨h.symm, fun hdebug _ => by simpa [runDebug, hdebug] using hvalid⟩
  · rw [if_pos (by simp [hactive]), Except.ok.injEq] at h
    rw [if_neg hactive]
    exact ⟨h.symm, fun _ ha => absurd ha hactive⟩

end CpufreqPolicy

/-- The handlers of a policy whose data is of type `σ`. `on_process_start` gets
`current_cpus` of the partition of the process. -/
structure PowerPolicy (σ : Type) where
  onWindowStart : Nat → σ → Except PowerFault σ := fun _ => .ok
  onScStart : Nat → σ → Except PowerFault σ := fun _ => .ok
  onBeStart : Nat → σ → Except PowerFault σ := fun _ => .ok
  onWindowEnd : Nat → σ → Except PowerFault σ := fun _ => .ok
  onProcessStart : ProcessId → CpuSet → σ → Except PowerFault σ := fun _ _ => .ok
  onProcessEnd : ProcessId → σ → Except PowerFault σ := fun _ => .ok

/-- `PowerPolicy_MinBE`, whose data are the policies of the `PowerManager`. -/
def powerPolicyMinBE (debug : Bool) : PowerPolicy (List CpufreqPolicy) where
  onScStart _ pm := pm.mapM fun p => p.writeFrequency debug p.maxFrequency
  onBeStart _ pm := pm.mapM fun p => p.writeFrequency debug p.minFrequency

namespace Action

/-- `current_cpus` of partition `k`: the CPUs of the slice that took it over last. -/
def currentCpus (c : Config) (k : Nat) : List Action → CpuSet
  | [] => ∅
  | .entered i m _ _ :: h => if m = k then (c.slice i).cpus else currentCpus c k h
  | _ :: h => currentCpus c k h

end Action

namespace PowerPolicy

variable {σ : Type} (P : PowerPolicy σ) (c : Config)

def handle (h : List Action) : Action → σ → Except PowerFault σ
  | .onWindowStart w => P.onWindowStart w
  | .onScStart w => P.onScStart w
  | .onBeStart w => P.onBeStart w
  | .onWindowEnd w => P.onWindowEnd w
  | .started _ p _ _ => P.onProcessStart p (Action.currentCpus c p.part h)
  | .stopped _ p _ _ => P.onProcessEnd p
  | _ => .ok

/-- The data of the policy after the records of a run, unless one of the calls threw. -/
def replay (x : σ) : List Action → Except PowerFault σ
  | [] => .ok x
  | a :: h => do
    let x ← replay x h
    P.handle c h a x

end PowerPolicy

end DemosSched
