import DemosSched.Process
import DemosSched.General.CyclicSearch

/-! `Partition`: a cyclic queue of processes that runs under one owner at a
time, the owner being what `reset` registers for completions. -/

namespace DemosSched.Partition

variable (c : Config) (k : Nat) (s : State)

def moveToNextProc : State :=
  s.setPartition k { s.partition k with
    currentProc := CyclicSearch.next (c.processCount k) (s.partition k).currentProc }

/-- The loop of `seek_pending_process`, with the iterations it has left. -/
def seekLoop : Nat → State → Option ProcessId × State
  | 0, s => (none, moveToNextProc c k s)
  | n + 1, s =>
    let p := ⟨k, (s.partition k).currentProc⟩
    if Process.isPending p s then (some p, s) else seekLoop n (moveToNextProc c k s)

def seekPendingProcess : Option ProcessId × State := seekLoop c k (c.processCount k) s

def clearCompletedFlag : State := (c.processIds k).foldl (fun s p => Process.markUncompleted p s) s

/-- `CgroupCpuset::set_cpus`. -/
def setCpus (cpus : CpuSet) : Except Fault State :=
  if cpus = (s.partition k).currentCpus then .ok s
  else if cpus.card = 0 then .error (.emptyCpuset k)
  else .ok (s.setPartition k { s.partition k with currentCpus := cpus })

def reset (moveToFirstProc : Bool) (cpus : CpuSet) (cb : CompletionCb) : Except Fault State := do
  let s := clearCompletedFlag c k s
  let s ← setCpus k s cpus
  let s := s.setPartition k { s.partition k with completionCb := cb }
  if moveToFirstProc then
    return s.setPartition k { s.partition k with currentProc := 0 }
  return s

def disconnect : State := s.setPartition k { s.partition k with completionCb := .ignore }

/-- The cached `empty` flag after a process of the partition has ended. -/
def updateEmpty : State :=
  s.setPartition k { s.partition k with
    empty := (c.processIds k).all fun p => !Process.isSpawned p s }

/-- The search of the partition is the search of its queue of pending flags. -/
theorem seekLoop_eq (n : Nat) (s : State) :
    seekLoop c k n s =
      let r := CyclicSearch.seek (c.processCount k)
        (fun j => Process.isPending ⟨k, j⟩ s) n (s.partition k).currentProc
      (r.1.map (ProcessId.mk k), s.setPartition k { s.partition k with currentProc := r.2 }) := by
  induction n generalizing s with
  | zero => rfl
  | succ n ih =>
    by_cases h : Process.isPending ⟨k, (s.partition k).currentProc⟩ s = true
    · simp [seekLoop, CyclicSearch.seek, h, State.setPartition]
    · have hsame : ∀ j, Process.isPending ⟨k, j⟩ (moveToNextProc c k s) =
          Process.isPending ⟨k, j⟩ s := fun _ => rfl
      rw [seekLoop, if_neg h, ih]
      simp only [hsame]
      simp only [CyclicSearch.seek, h, moveToNextProc, State.setPartition,
        Function.update_self, Function.update_idem, Bool.false_eq_true, if_false]

theorem clearCompletedFlag_eq :
    clearCompletedFlag c k s = { s with process := fun p =>
      { s.process p with
        completed := (s.process p).completed && decide (p ∉ c.processIds k) } } := by
  unfold clearCompletedFlag
  induction c.processIds k generalizing s with
  | nil => simp
  | cons q rest ih =>
    rw [List.foldl_cons, ih]
    simp only [Process.markUncompleted, State.setProcess, List.mem_cons, not_or]
    congr 1
    funext p
    by_cases hq : p = q
    · subst hq
      simp
    · simp [hq]

end DemosSched.Partition
