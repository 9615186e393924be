import DemosSched.Configuration
import Mathlib.Logic.Function.Basic
import Mathlib.Tactic.Simps.Basic

/-! The run-time state of the scheduler and what it does to its environment.
The members of the C++ objects that change are kept per identifier; the
constant ones are in `Config`. `history` records, newest first, what an
observer of the program sees: freezer writes, timer starts, schedule log
lines, calls of the power policy and deliveries of signals. -/

namespace DemosSched

/-- An `ASSERT` that fails, or a use of an empty pointer or function, at which
the handler throws and the program ends. -/
inductive Fault
  | processRunning (i : SliceId)
  | noRunningProcess (i : SliceId)
  | noRunningPartition (i : SliceId)
  | notSpawned (p : ProcessId)
  | storedBudgetNotPositive (p : ProcessId)
  | negativeBudget (p : ProcessId)
  | remainingNotPositive (p : ProcessId) (remaining : Int)
  | remainingNotBelowBudget (p : ProcessId) (remaining : Int)
  | emptyCpuset (k : Nat)
  | emptyCallback (k : Nat)
  | outOfFuel
  deriving DecidableEq, Repr

/-- What a partition's `_completed_cb` holds: nothing yet, the empty lambda of
`disconnect`, the callback of `run_process_init`, or that of a slice. -/
inductive CompletionCb
  | unset
  | ignore
  | processInit
  | slice (i : SliceId)
  deriving DecidableEq, Repr

/-- Which member of `PartitionManager` is bound to the partitions' exits. -/
inductive ExitCb
  | processExit
  | processInitExit
  deriving DecidableEq, Repr

inductive Action
  | windowStarted (w : Nat) (t : Int)
  | beStarted (w : Nat) (t : Int)
  | entered (i : SliceId) (k : Nat) (moveToFirst : Bool) (t : Int)
  | drawn (p : ProcessId) (offset : Int)
  | skipped (i : SliceId) (p : ProcessId)
  | started (i : SliceId) (p : ProcessId) (t : Int) (budget : Int)
  | stopped (i : SliceId) (p : ProcessId) (t : Int) (completed : Bool)
  | shortened (p : ProcessId) (remaining : Int)
  | windowArmed (t : Int)
  | onWindowStart (w : Nat)
  | onScStart (w : Nat)
  | onBeStart (w : Nat)
  | onWindowEnd (w : Nat)
  | signalled (p : ProcessId)
  | exited (p : ProcessId)
  | initResumed (p : ProcessId)
  | initSuspended (p : ProcessId)
  | initFinished
  | killed (p : ProcessId)
  | shutdown
  | loopBroken
  deriving DecidableEq, Repr

structure Process where
  frozen : Bool := true
  actualBudget : Int
  completed : Bool := false
  demosCompleted : Bool := false
  spawned : Bool := false
  killed : Bool := false
  /-- Unread tokens of `efd_continue`. -/
  continueTokens : Nat := 0

structure Partition where
  currentProc : Nat := 0
  currentCpus : CpuSet := ∅
  empty : Bool := false
  completionCb : CompletionCb := .unset

structure Slice where
  runningProcess : Option ProcessId := none
  runningPartition : Option Nat := none
  timeout : Int := 0
  armed : Bool := false

structure Window where
  finishedScPartitions : Nat := 0
  stopping : Bool := false

structure MajorFrame where
  currentWin : Nat := 0
  timeout : Int := 0
  armed : Bool := false

structure PartitionManager where
  remainingProcessInits : Int := 0
  exitCb : ExitCb := .processExit

structure DemosScheduler where
  startupPending : Bool := true
  timeout : Option Int := none
  timeoutArmed : Bool := false
  loopBroken : Bool := false

structure State where
  process : ProcessId → Process
  partition : Nat → Partition
  slice : SliceId → Slice
  window : Nat → Window
  frame : MajorFrame
  manager : PartitionManager
  scheduler : DemosScheduler
  /-- The numbers `gen` has still to produce. -/
  gen : Nat → Nat
  history : List Action

namespace State

@[simps] def record (s : State) (a : Action) : State := { s with history := a :: s.history }

@[simps] def setProcess (s : State) (p : ProcessId) (x : Process) : State :=
  { s with process := Function.update s.process p x }

@[simps] def setPartition (s : State) (k : Nat) (x : Partition) : State :=
  { s with partition := Function.update s.partition k x }

@[simps] def setSlice (s : State) (i : SliceId) (x : Slice) : State :=
  { s with slice := Function.update s.slice i x }

@[simps] def setWindow (s : State) (w : Nat) (x : Window) : State :=
  { s with window := Function.update s.window w x }

@[simps] def setFrame (s : State) (x : MajorFrame) : State := { s with frame := x }

@[simps] def setManager (s : State) (x : PartitionManager) : State := { s with manager := x }

@[simps] def setScheduler (s : State) (x : DemosScheduler) : State := { s with scheduler := x }

@[simps] def setGen (s : State) (g : Nat → Nat) : State := { s with gen := g }

end State

end DemosSched
