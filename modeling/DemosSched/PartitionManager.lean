import DemosSched.Window

/-! `PartitionManager`: the initialization of the processes before scheduling
starts, and the end of the program once every partition is empty. The two
callbacks it is given are parameters. -/

namespace DemosSched

namespace PartitionManager

structure Callbacks where
  initCb : State → Except Fault State
  completionCb : State → Except Fault State

variable (c : Config) (cb : Callbacks)

def processExitCb (partitionEmpty : Bool) (s : State) : Except Fault State :=
  if !partitionEmpty then .ok s
  else if (List.range c.partitions.length).all fun k => (s.partition k).empty then
    cb.completionCb s
  else .ok s

def disconnectAll (s : State) : State :=
  (List.range c.partitions.length).foldl (fun s k => Partition.disconnect k s) s

def finishProcessInit (s : State) : Except Fault State :=
  let s := s.setManager { s.manager with exitCb := .processExit }
  cb.initCb ((disconnectAll c s).record .initFinished)

def processInitCompletionCb (p : ProcessId) (s : State) : Except Fault State :=
  let s := (Process.suspend p s).record (.initSuspended p)
  let s := s.setManager { s.manager with
    remainingProcessInits := s.manager.remainingProcessInits - 1 }
  if s.manager.remainingProcessInits = 0 then finishProcessInit c cb s else .ok s

def processInitExitCb (p : ProcessId) (partitionEmpty : Bool) (s : State) :
    Except Fault State := do
  let s ← if (c.process p).hasInitialization then processInitCompletionCb c cb p s else pure s
  processExitCb c cb partitionEmpty s

/-- Every partition under the manager, in the widest CPU set it ever runs in. -/
def resetAll (s : State) : Except Fault State :=
  (List.range c.partitions.length).foldlM (fun s k =>
    Partition.reset c k s true ((MajorFrame.findWidestCpuSet c k).getD ∅) .processInit) s

def resumeForInit (p : ProcessId) (s : State) : Except Fault State :=
  let s := s.setManager { s.manager with
    remainingProcessInits := s.manager.remainingProcessInits + 1 }
  Process.resume p (s.record (.initResumed p))

def initProcessIds : List ProcessId :=
  c.allProcessIds.filter fun p => (c.process p).hasInitialization

def runProcessInit (s : State) : Except Fault State := do
  let s ← resetAll c s
  let s := s.setManager { s.manager with exitCb := .processInitExit }
  let s ← (initProcessIds c).foldlM (fun s p => resumeForInit p s) s
  if s.manager.remainingProcessInits = 0 then finishProcessInit c cb s else return s

def killAll (s : State) : State := c.allProcessIds.foldl (fun s p => Process.kill p s) s

end PartitionManager

namespace Partition

variable (c : Config) (cb : PartitionManager.Callbacks)

def procExitCb (p : ProcessId) (s : State) : Except Fault State :=
  let s := updateEmpty c p.part s
  match s.manager.exitCb with
  | .processExit => PartitionManager.processExitCb c cb (s.partition p.part).empty s
  | .processInitExit => PartitionManager.processInitExitCb c cb p (s.partition p.part).empty s

def completedCb (p : ProcessId) (now : Int) (s : State) : Except Fault State :=
  match (s.partition p.part).completionCb with
  | .unset => .error (.emptyCallback p.part)
  | .ignore => .ok s
  | .processInit => PartitionManager.processInitCompletionCb c cb p s
  | .slice i => Slice.scheduleNext c (Window.scDone c) i now s

end Partition

namespace Process

variable (c : Config) (cb : PartitionManager.Callbacks)

/-- The process and everything in its cgroup are gone. -/
def handleEnd (p : ProcessId) (s : State) : Except Fault State :=
  let s := (s.setProcess p { s.process p with spawned := false }).record (.exited p)
  Partition.procExitCb c cb p s

def completedCb (p : ProcessId) (now : Int) (s : State) : Except Fault State :=
  let s := (s.setProcess p { s.process p with demosCompleted := true }).record (.signalled p)
  Partition.completedCb c cb p now s

end Process

end DemosSched
