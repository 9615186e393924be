import DemosSched.Progress

/-! Scheduling without jitter. A search stops at the first pending process and
grants it what is stored for it. -/

namespace DemosSched

open Fallible

theorem Config.ZeroJitter.jitter_eq {c : Config} (h : c.ZeroJitter) (p : ProcessId) :
    (c.process p).jitter = 0 := by
  rcases c.process_mem_or p with ⟨x, hx, hp⟩ | hp
  · exact h x hx _ hp
  · rw [hp]
    rfl

/-- The state in which the budget of `p` has been asked for: a full budget is drawn. -/
def State.granted (c : Config) (s : State) (p : ProcessId) : State :=
  if (s.process p).actualBudget = (c.process p).budget then s.drew c p else s

namespace State

variable (c : Config) (s : State) (p : ProcessId)

@[simp] theorem granted_process : (s.granted c p).process = s.process := by
  unfold granted
  split <;> rfl

@[simp] theorem granted_partition : (s.granted c p).partition = s.partition := by
  unfold granted
  split <;> rfl

@[simp] theorem granted_slice : (s.granted c p).slice = s.slice := by
  unfold granted
  split <;> rfl

@[simp] theorem granted_window : (s.granted c p).window = s.window := by
  unfold granted
  split <;> rfl

@[simp] theorem granted_frame : (s.granted c p).frame = s.frame := by
  unfold granted
  split <;> rfl

theorem granted_history :
    (s.granted c p).history = s.history ∨
      ∃ o, (s.granted c p).history = .drawn p o :: s.history := by
  unfold granted
  split
  · exact .inr ⟨_, rfl⟩
  · exact .inl rfl

end State

variable {c : Config}

theorem Process.getActualBudget_steady (zero : c.ZeroJitter) {s : State} (budgeted : s.Budgeted c)
    (p : ProcessId) :
    getActualBudget c p s = .ok ((s.process p).actualBudget, s.granted c p) := by
  unfold State.granted
  by_cases heq : (s.process p).actualBudget = (c.process p).budget
  · have hoffset : jitterOffset (c.process p).jitter (s.gen 0) = 0 := by
      rw [zero.jitter_eq, jitterOffset_zero]
    rw [if_pos heq, getActualBudget_ok]
    exact .inr ⟨heq, by rw [hoffset, heq, Int.add_zero], rfl⟩
  · rw [if_neg heq, getActualBudget_ok]
    exact .inl ⟨heq, (budgeted p).1, rfl, rfl⟩

namespace Slice

variable {scDone : SliceId → Int → State → Except Fault State}

theorem startNext_steady (zero : c.ZeroJitter) {i : SliceId} {k n : Nat} {t : Int} {s s' : State}
    (valid : s.QueuesValid c) (budgeted : s.Budgeted c)
    (h : (selectNext c i k (n + 1) s).bind (conclude c scDone i k t) = .ok s') :
    (∃ j, CyclicSearch.seek (c.processCount k) (fun j => Process.isPending ⟨k, j⟩ s)
        (c.processCount k) (s.partition k).currentProc = (some j, j) ∧
      s' = ((s.sought k j).granted c ⟨k, j⟩).launched c i ⟨k, j⟩ t
        (s.process ⟨k, j⟩).actualBudget) ∨
    ((∀ j < c.processCount k, Process.isPending ⟨k, j⟩ s = false) ∧
      (if (c.slice i).sc = some k then
        scDone i t (s.sought k (CyclicSearch.next (c.processCount k) (s.partition k).currentProc))
      else .ok (s.sought k (CyclicSearch.next (c.processCount k) (s.partition k).currentProc))) =
        .ok s') := by
  unfold selectNext at h
  rw [Partition.seekPendingProcess_eq] at h
  cases hseek : CyclicSearch.seek (c.processCount k) (fun j => Process.isPending ⟨k, j⟩ s)
      (c.processCount k) (s.partition k).currentProc with
  | mk found cur =>
    simp only [hseek] at h
    cases found with
    | none =>
      obtain ⟨rfl, hnone⟩ := CyclicSearch.seek_all_none (valid k) hseek
      exact .inr ⟨hnone, h⟩
    | some j =>
      obtain ⟨rfl, -⟩ := CyclicSearch.seek_some (valid k) hseek
      have hbudget := Process.getActualBudget_steady zero (s := s.sought k cur) budgeted ⟨k, cur⟩
      have hpos : ((s.sought k cur).process ⟨k, cur⟩).actualBudget ≠ 0 :=
        (budgeted ⟨k, cur⟩).1.ne'
      simp only [Option.map_some, hbudget, bind_def, bind_ok, hpos, if_false] at h
      exact .inl ⟨cur, rfl, ((launch_ok c).mp h).2⟩

end Slice

end DemosSched
