import DemosSched.Progress

/-! What a completion signal does. The slice registered with the partition of
the sender reschedules whatever it is running. -/

namespace DemosSched

open Fallible Relation

/-- The signal of `q` affects only `q`: running on `i` it is suspended, marked
completed and followed by the next process; otherwise slice `i` goes on with
what it runs, and neither its timer nor its process is touched. -/
def SignalConfined (c : Config) (q : ProcessId) (now : Int) (i : SliceId) (s : State) : Prop :=
  ((s.slice i).runningProcess = some q →
    ∃ m s', Slice.stopCurrentProcess i now true (Process.signalled q s) = .ok m ∧
      (m.process q).frozen = true ∧ (m.process q).completed = true ∧
      Slice.startNextProcess c (Window.scDone c) i now m = .ok s' ∧
      (Event.completion q now).dispatch c s = .ok s') ∧
  ((s.slice i).runningProcess ≠ some q →
    ∃ s' new, (Event.completion q now).dispatch c s = .ok s' ∧ s'.slice i = s.slice i ∧
      (∀ p, (s.slice i).runningProcess = some p →
        (s'.process p).completed = (s.process p).completed) ∧
      s'.history = new ++ s.history ∧ ∀ p t b, .stopped i p t b ∉ new)

namespace Completion

variable {c : Config} {q : ProcessId} {now : Int} {i : SliceId} {s : State}

theorem dispatch_completion (c : Config) (q : ProcessId) (now : Int) (s : State) :
    (Event.completion q now).dispatch c s =
      match (s.partition q.part).completionCb with
      | .unset => .error (.emptyCallback q.part)
      | .ignore => .ok (Process.signalled q s)
      | .processInit => PartitionManager.processInitCompletionCb c
          (DemosScheduler.callbacks c now) q (Process.signalled q s)
      | .slice i => Slice.scheduleNext c (Window.scDone c) i now (Process.signalled q s) := rfl

theorem dispatch_registered (registered : (s.partition q.part).completionCb = .slice i) :
    (Event.completion q now).dispatch c s =
      Slice.scheduleNext c (Window.scDone c) i now (Process.signalled q s) := by
  rw [dispatch_completion, registered]

theorem scheduleNext_stops {t : Int} {s' : State} (h : s.Sound c)
    (run : Slice.scheduleNext c (Window.scDone c) i t s = .ok s') :
    ∃ p, (s.slice i).runningProcess = some p ∧
      ∃ new, s'.history = new ++ .stopped i p t true :: s.history := by
  obtain ⟨p, -, hp, -, -⟩ := Slice.scheduleNext_ok c _ run
  have hphase : Phase c s.frame.currentWin s :=
    h.phase.resolve_left fun hhalted => by simp [hhalted.1.idle i] at hp
  obtain ⟨p, hp, heffects, -⟩ :=
    Slice.scheduleNext_stopped hphase h.queues (h.coherent.running i p hp)
      (fun _ hk => h.coherent.held_partition hp hk) run
  obtain ⟨new, hnew⟩ := heffects.history
  exact ⟨p, hp, new, by rw [← hnew, State.stopped_history]⟩

theorem signalled_sound (h : s.Sound c) (q : ProcessId) : (Process.signalled q s).Sound c := by
  exact (State.SameObjects.signalled q s).sound h

theorem running_of_confined (h : s.Sound c)
    (registered : (s.partition q.part).completionCb = .slice i)
    (confined : SignalConfined c q now i s) : (s.slice i).runningProcess = some q := by
  by_contra hother
  obtain ⟨s', new, hrun, hslice, -, hnew, hnone⟩ := confined.2 hother
  rw [dispatch_registered registered] at hrun
  obtain ⟨p, hp, older, hhistory⟩ := scheduleNext_stops (signalled_sound h q) hrun
  have hmem : Action.stopped i p now true ∈ new := by
    have hlist : new ++ s.history = (older ++ [.stopped i p now true, .signalled q]) ++ s.history := by
      rw [← hnew, hhistory]
      simp [Process.signalled]
    rw [List.append_cancel_right hlist]
    simp
  exact hnone p now true hmem

theorem confined_of_running (h : s.Sound c) (budgeted : s.Budgeted c)
    (registered : (s.partition q.part).completionCb = .slice i)
    (running : (s.slice i).runningProcess = some q) : SignalConfined c q now i s := by
  refine ⟨fun _ => ?_, fun hother => absurd running hother⟩
  have hsound := signalled_sound h q
  have hphase : Phase c s.frame.currentWin (Process.signalled q s) :=
    hsound.phase.resolve_left fun hhalted => by
      have hnone : (s.slice i).runningProcess = none := hhalted.1.idle i
      simp [hnone] at running
  have hbudgeted : (Process.signalled q s).Budgeted c := budgeted.setBudget (budgeted q)
  have hstop : Slice.stopCurrentProcess i now true (Process.signalled q s) =
      .ok ((Process.signalled q s).stopped i q now true) :=
    Slice.stopCurrentProcess_ok.mpr ⟨q, running, rfl⟩
  obtain ⟨s', hs'⟩ := Slice.scheduleNext_total now hphase hsound.queues hbudgeted
    hsound.coherent running
  refine ⟨_, s', hstop, by simp, by simp, ?_, by rw [dispatch_registered registered, hs']⟩
  simpa [Slice.scheduleNext, hstop] using hs'

end Completion

/-- In every state the program can reach, a completion signal affects only its
sender if and only if the sender is what the registered slice is running. -/
theorem completion_confined_iff {c : Config} {gen : Nat → Nat} {timeout : Option Int}
    {es : List Event} {s : State} (reachable : Event.Reachable c gen timeout es s) {q : ProcessId}
    {i : SliceId} (registered : (s.partition q.part).completionCb = .slice i) (now : Int) :
    SignalConfined c q now i s ↔ (s.slice i).runningProcess = some q :=
  ⟨Completion.running_of_confined reachable.sound registered,
    Completion.confined_of_running reachable.sound reachable.budgeted registered⟩

/-- A process signals just after its budget has run out: its successor is stopped. -/
theorem late_signal_not_confined :
    ¬∀ (c : Config) (gen : Nat → Nat) (timeout : Option Int) (es : List Event) (s : State)
      (q : ProcessId) (i : SliceId) (now : Int), Event.Reachable c gen timeout es s →
      c.ValidProcess q → (s.partition q.part).completionCb = .slice i →
      SignalConfined c q now i s := by
  intro hclaim
  have hrun : ((Event.play .twoProcesses (fun _ _ => True) [.startup 0, .sliceTimer ⟨0, 0⟩]
      (State.initial .twoProcesses (fun _ => 0) none)).map fun s =>
        ((s.slice ⟨0, 0⟩).runningProcess, (s.partition 0).completionCb)) =
      some (some ⟨0, 1⟩, .slice ⟨0, 0⟩) := by decide
  obtain ⟨s, hplay, hs⟩ := Option.map_eq_some_iff.mp hrun
  rw [Prod.mk.injEq] at hs
  have hreach := Event.play_reachable hplay
  have hconfined := hclaim _ _ _ _ s ⟨0, 0⟩ ⟨0, 0⟩ 3000000 hreach (by decide) hs.2
  have hrunning := Completion.running_of_confined hreach.sound hs.2 hconfined
  simp [hs.1] at hrunning

/-- The running process signals in time. -/
theorem completion_confined_iff_twoProcesses :
    ∃ s : State, (s.slice ⟨0, 0⟩).runningProcess = some ⟨0, 0⟩ ∧
      (SignalConfined .twoProcesses ⟨0, 0⟩ 1000000 ⟨0, 0⟩ s ↔
        (s.slice ⟨0, 0⟩).runningProcess = some ⟨0, 0⟩) := by
  have hrun : ((Event.play .twoProcesses (fun _ _ => True) [.startup 0]
      (State.initial .twoProcesses (fun _ => 0) none)).map fun s =>
        ((s.slice ⟨0, 0⟩).runningProcess, (s.partition 0).completionCb)) =
      some (some ⟨0, 0⟩, .slice ⟨0, 0⟩) := by decide
  obtain ⟨s, hplay, hs⟩ := Option.map_eq_some_iff.mp hrun
  rw [Prod.mk.injEq] at hs
  exact ⟨s, hs.1, completion_confined_iff (Event.play_reachable hplay) hs.2 1000000⟩

end DemosSched
