import DemosSched.Partition

/-! `Slice`: which partition runs on the slice's CPUs, which of its processes is
resumed, and the timer of that process's budget. `scDone` stands for the
callback the window passes to its slices. -/

namespace DemosSched.Slice

variable (c : Config) (scDone : SliceId → Int → State → Except Fault State)

/-- Returns the process it has stored in `running_process`. -/
def loadNextProcess (i : SliceId) (t : Int) (s : State) :
    Except Fault (Option ProcessId × State) :=
  if (s.slice i).runningProcess.isSome then .error (.processRunning i)
  else match (s.slice i).runningPartition with
    | none => .error (.noRunningPartition i)
    | some k => do
      let (next, s) := Partition.seekPendingProcess c k s
      let s := s.setSlice i { s.slice i with runningProcess := next }
      if next.isNone && (c.slice i).sc == some k then
        let s ← scDone i t s
        return (next, s)
      return (next, s)

/-- The end of `start_next_process`, once the process and its budget are known. -/
def launch (i : SliceId) (p : ProcessId) (t budget : Int) (s : State) : Except Fault State := do
  let s := s.record (.started i p t budget)
  let s ← Process.resume p s
  let s := s.setSlice i { s.slice i with timeout := t + budget * nsPerMs }
  let s := Process.resetBudget c p s
  return s.setSlice i { s.slice i with armed := true }

/-- `start_next_process`, which calls itself after a process whose effective
budget is empty. -/
def startNextLoop : Nat → SliceId → Int → State → Except Fault State
  | 0, _, _, _ => .error .outOfFuel
  | n + 1, i, t, s => do
    let (next, s) ← loadNextProcess c scDone i t s
    match next with
    | none => return s
    | some p =>
      let (budget, s) ← Process.getActualBudget c p s
      if budget = 0 then
        let s := Process.markCompleted p (s.record (.skipped i p))
        startNextLoop n i t (s.setSlice i { s.slice i with runningProcess := none })
      else
        launch c i p t budget s

/-- Every call but the last completes a process of the running partition. -/
def startNextProcess (i : SliceId) (t : Int) (s : State) : Except Fault State :=
  match (s.slice i).runningPartition with
  | none => .error (.noRunningPartition i)
  | some k => startNextLoop c scDone (c.processCount k + 1) i t s

/-- `t` is the time the callers pass on; it is only recorded. -/
def stopCurrentProcess (i : SliceId) (t : Int) (markCompleted : Bool) (s : State) :
    Except Fault State :=
  match (s.slice i).runningProcess with
  | none => .error (.noRunningProcess i)
  | some p =>
    let s := s.setSlice i { s.slice i with armed := false }
    let s := (Process.suspend p s).record (.stopped i p t markCompleted)
    let s := if markCompleted then Process.markCompleted p s else s
    .ok (s.setSlice i { s.slice i with runningProcess := none })

def startPartition (i : SliceId) (k : Nat) (t : Int) (moveToFirstProc : Bool) (s : State) :
    Except Fault State := do
  let s := s.setSlice i { s.slice i with runningPartition := some k }
  let s ← Partition.reset c k s moveToFirstProc (c.slice i).cpus (.slice i)
  startNextProcess c scDone i t (s.record (.entered i k moveToFirstProc t))

def startSc (i : SliceId) (t : Int) (s : State) : Except Fault State :=
  match (c.slice i).sc with
  | none => scDone i t s
  | some k => startPartition c scDone i k t true s

def startBe (i : SliceId) (t : Int) (s : State) : Except Fault State :=
  match (c.slice i).be with
  | none => .ok s
  | some k => startPartition c scDone i k t false s

def release (i : SliceId) (s : State) : State :=
  let s := s.setSlice i { s.slice i with armed := false }
  (c.slice i).partitions.foldl (fun s k => Partition.disconnect k s) s

def stop (i : SliceId) (t : Int) (s : State) : Except Fault State := do
  let s := release c i s
  match (s.slice i).runningProcess with
  | none => return s
  | some p =>
    let remaining := Process.durationCastMs ((s.slice i).timeout - t)
    if remaining = 0 then
      -- out of budget at the window end: the queue is advanced, nothing is started
      let s ← stopCurrentProcess i t true s
      let (_, s) ← loadNextProcess c scDone i t s
      return s.setSlice i { s.slice i with runningProcess := none }
    else
      let s ← if (s.slice i).runningPartition = (c.slice i).be then
          Process.setRemainingBudget c p s remaining
        else pure s
      stopCurrentProcess i t false s

/-- Called on a timeout of the slice and on a completion. -/
def scheduleNext (i : SliceId) (t : Int) (s : State) : Except Fault State := do
  let s ← stopCurrentProcess i t true s
  startNextProcess c scDone i t s

end DemosSched.Slice
