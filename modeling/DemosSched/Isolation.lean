import DemosSched.Soundness

/-! Temporal isolation: only running processes of slices of the current window
are thawed, and none is when a window has been stopped. -/

namespace DemosSched

open Fallible Relation

def State.ThawedRun (s : State) : Prop :=
  ∀ p, (s.process p).frozen = false → ∃ i, (s.slice i).runningProcess = some p

/-- The scheduler as `init_cb` finds it when every process is frozen. -/
structure State.Ready (c : Config) (s : State) : Prop where
  frozen : ∀ p, (s.process p).frozen = true
  halted : s.Halted
  started : s.Started
  queues : s.QueuesValid c
  window : s.frame.currentWin = 0
  opened : ∀ w, (s.window w).stopping = false
  closed : s.course.stage = .closed

inductive Event.StopCall (c : Config) (s : State) : Event → Int → State → Prop
  | windowTimer :
      StopCall c s .windowTimer s.frame.timeout (s.setFrame { s.frame with armed := false })
  | lastExit {p : ProcessId} {now : Int}
      (empty : ∀ k < c.partitions.length, ((ended c p s).partition k).empty = true) :
      StopCall c s (.exit p now) now
        ((ended c p s).setFrame { s.frame with armed := false })
  | signal {now : Int} : StopCall c s (.signal now) now (s.setFrame { s.frame with armed := false })
  | userTimeout {now : Int} :
      StopCall c s (.userTimeout now) now
        ((s.setScheduler { s.scheduler with timeoutArmed := false }).setFrame
          { s.frame with armed := false })

namespace State.ThawedRun

variable {c : Config} {w : Nat} {t : Int} {s s' : State}

theorem congr (h : s.ThawedRun)
    (frozen : ∀ p, (s'.process p).frozen = (s.process p).frozen)
    (running : ∀ i, (s'.slice i).runningProcess = (s.slice i).runningProcess) :
    s'.ThawedRun := by
  intro p hp
  obtain ⟨i, hi⟩ := h p (frozen p ▸ hp)
  exact ⟨i, (running i).trans hi⟩

theorem effect (h : s.ThawedRun) (effect : Effect c w t s s') : s'.ThawedRun := by
  cases effect with
  | noted | windowSet | sought => exact h
  | entered => exact h.congr (fun _ => rfl) fun _ => State.assigned_running
  | @skipped s₁ i p selected =>
    have hs : s₁.ThawedRun := by
      rcases selected.drew_or_same with rfl | rfl <;> exact h
    exact hs.congr (fun _ => State.update_field Process.frozen rfl) fun _ => rfl
  | @launched s₁ i p b selected ne =>
    have hslice : s₁.slice = s.slice ∧ s₁.process = s.process := by
      rcases selected.drew_or_same with rfl | rfl <;> exact ⟨rfl, rfl⟩
    intro q hq
    by_cases hqp : q = p
    · exact ⟨i, by simp [hqp]⟩
    · obtain ⟨j, hj⟩ := h q (by simpa [hqp, hslice.2] using hq)
      have hne : j ≠ i := by
        rintro rfl
        rw [selected.idle] at hj
        simp at hj
      exact ⟨j, by simpa [hne, hslice.1] using hj⟩
  | @stopped i p mark member running =>
    intro q hq
    have hqp : q ≠ p := by
      rintro rfl
      simp at hq
    obtain ⟨j, hj⟩ := h q (by simpa [hqp] using hq)
    have hne : j ≠ i := by
      rintro rfl
      exact hqp (by simpa [running] using hj.symm)
    exact ⟨j, by simpa [hne] using hj⟩

theorem closing (h : s.ThawedRun) (closing : Closing c w t s s') : s'.ThawedRun := by
  cases closing with
  | effect e => exact h.effect e
  | announced | stopping => exact h
  | shortened => exact h.congr (fun _ => State.update_field Process.frozen rfl) fun _ => rfl
  | released => exact h.congr (fun _ => rfl) fun _ => State.released_running

theorem change {ok : Action → Prop} (h : s.ThawedRun)
    (change : Change c ok s s') : s'.ThawedRun := by
  cases change with
  | effects run => exact run.invariant (fun _ _ h e => h.effect e) h
  | closed run => exact run.invariant (fun _ _ h e => h.closing e) h
  | moved | framed | windowArmed | loopBroken => exact h
  | signalled p | ended p =>
    exact h.congr (fun _ => State.update_field Process.frozen rfl) fun _ => rfl

theorem changes {ok : Action → Prop} (h : s.ThawedRun)
    (run : Changes c ok s s') : s'.ThawedRun :=
  run.invariant (I := State.ThawedRun) (fun _ _ h e => h.change e) h

end State.ThawedRun

theorem State.ThawedRun.frozen {s : State} (h : s.ThawedRun) (halted : s.Halted) (p : ProcessId) :
    (s.process p).frozen = true := by
  cases hp : (s.process p).frozen with
  | true => rfl
  | false =>
    obtain ⟨i, hi⟩ := h p hp
    simp [halted.idle i] at hi

theorem State.Ready.sound {c : Config} {s : State} (h : s.Ready c) : s.Sound c where
  queues := h.queues
  window := by rw [h.window]; exact c.windows_length_pos
  opened := h.opened
  coherent := h.halted.coherent
  phase := .inl ⟨h.halted, h.closed⟩
  started := .inl h.started

theorem State.Ready.thawedRun {c : Config} {s : State} (h : s.Ready c) : s.ThawedRun := by
  intro p hp
  rw [h.frozen p] at hp
  simp at hp

/-- The scheduler after an initialization in which no process took part. -/
def State.readyState (c : Config) (gen : Nat → Nat) : State :=
  (State.initial c gen none).setScheduler { startupPending := false }

theorem State.readyState_ready (c : Config) (gen : Nat → Nat) :
    (State.readyState c gen).Ready c where
  frozen _ := rfl
  halted := ⟨fun _ => rfl, fun _ => rfl, fun _ _ => by simp [readyState, initial]⟩
  started := ⟨rfl, fun _ => by simp [readyState, initial], rfl⟩
  queues := c.processCount_pos
  window := rfl
  opened _ := rfl
  closed := rfl

namespace Event

variable {c : Config}

def SchedulingStep (c : Config) (s : State) (e : Event) (s' : State) : Prop :=
  e.Scheduling ∧ Step c s e s'

theorem play_schedulingRun {es : List Event} {s s' : State}
    (h : play c (fun _ e => e.Scheduling) es s = some s') : Run (SchedulingStep c) s es s' :=
  play_run c h

theorem scheduling_run {s₀ s₁ s : State} {now : Int} {es : List Event} (ready : s₀.Ready c)
    (start : MajorFrame.start c now s₀ = .ok s₁) (run : Run (SchedulingStep c) s₁ es s) :
    s.Sound c ∧ s.Started ∧ s.ThawedRun := by
  obtain ⟨hchanges, hsound, hstarted⟩ :=
    MajorFrame.start_sound ready.sound ready.halted ready.closed ready.started start
  refine run.invariant (I := fun s => s.Sound c ∧ s.Started ∧ s.ThawedRun) ?_
    ⟨hsound, hstarted, ready.thawedRun.changes hchanges⟩
  rintro s e s' ⟨hs, hst, hth⟩ ⟨hsched, hstep⟩
  obtain ⟨-, hs', hst'⟩ := step_sound hs hst hsched hstep
  exact ⟨hs', hst', hth.changes (step_changes hs hst hsched hstep)⟩

theorem dispatch_windowTimer (s : State) :
    windowTimer.dispatch c s =
      (Window.stop c s.frame.currentWin s.frame.timeout
        (s.setFrame { s.frame with armed := false })).bind fun m =>
          MajorFrame.start c m.frame.timeout (MajorFrame.moveToNextWindow c m) := rfl

/-- The state in which an event stops the window is as sound as the state the
event arrives in. -/
theorem StopCall.sound_of {e : Event} {s m : State} {t : Int} (call : StopCall c s e t m)
    (h : s.Sound c) (started : s.Started) : m.Sound c := by
  cases call with
  | windowTimer | signal | userTimeout =>
    exact h.congr rfl rfl rfl rfl (fun _ => id) (fun _ => ⟨rfl, rfl, rfl⟩)
      (.inl ⟨started.exitCb, started.completionCb, started.startup⟩)
  | @lastExit p now empty =>
    refine h.congr rfl rfl rfl rfl (fun q hq => ended_pending (c := c) p q hq)
      (ended_partition p s) (.inl ⟨started.exitCb, fun k => ?_, started.startup⟩)
    rw [State.setFrame_partition, (ended_partition p s k).2.1]
    exact started.completionCb k

theorem StopCall.thawedRun {e : Event} {s m : State} {t : Int} (call : StopCall c s e t m)
    (thawed : s.ThawedRun) : m.ThawedRun := by
  cases call with
  | windowTimer | signal | userTimeout => exact thawed
  | @lastExit p now empty =>
    exact thawed.congr (fun _ => State.update_field Process.frozen rfl) fun _ => rfl

end Event

/-- In every state reached from `MajorFrame::start`, whatever the order of timers,
completions and exits, a thawed process is the running process of a slice of the
current window, all other windows are idle, timers and running processes
correspond, and stopping the window freezes every process. -/
theorem temporal_isolation {c : Config} {s₀ s₁ s : State} {now : Int} {es : List Event}
    (ready : s₀.Ready c) (start : MajorFrame.start c now s₀ = .ok s₁)
    (run : Run (Event.SchedulingStep c) s₁ es s) :
    (∀ p, (s.process p).frozen = false →
      ∃ i ∈ c.sliceIds s.frame.currentWin, (s.slice i).runningProcess = some p) ∧
    (∀ i, i.window ≠ s.frame.currentWin → (s.slice i).runningProcess = none) ∧
    (∀ i, (s.slice i).armed = true ↔ (s.slice i).runningProcess ≠ none) ∧
    (∀ e t m m', Event.StopCall c s e t m → Window.stop c m.frame.currentWin t m = .ok m' →
      ∀ p, (m'.process p).frozen = true) := by
  obtain ⟨hsound, hstarted, hthawed⟩ := Event.scheduling_run ready start run
  refine ⟨fun p hp => ?_, fun i hi => ?_, fun i => ?_, fun e t m m' hcall hstop p => ?_⟩
  · obtain ⟨i, hi⟩ := hthawed p hp
    exact ⟨i, hsound.coherent.running i p hi, hi⟩
  · cases hrun : (s.slice i).runningProcess with
    | none => rfl
    | some p => exact absurd (c.mem_sliceIds.mp (hsound.coherent.running i p hrun)).1 hi
  · rw [hsound.coherent.armed_iff, Option.isSome_iff_ne_none]
  · obtain ⟨hchange, -, hhalted, -, -⟩ :=
      MajorFrame.stopWindow_sound (hcall.sound_of hsound hstarted) hstop
    exact ((hcall.thawedRun hthawed).change hchange).frozen hhalted p

theorem temporal_isolation_twoSlices :
    ∃ s : State, s.frame.currentWin = 0 ∧
      (∀ p, (s.process p).frozen = false →
        ∃ i ∈ Config.twoSlices.sliceIds 0, (s.slice i).runningProcess = some p) ∧
      (∀ i, i.window ≠ 0 → (s.slice i).runningProcess = none) ∧
      (∀ i, (s.slice i).armed = true ↔ (s.slice i).runningProcess ≠ none) ∧
      (∀ e t m m', Event.StopCall .twoSlices s e t m →
        Window.stop .twoSlices m.frame.currentWin t m = .ok m' →
        ∀ p, (m'.process p).frozen = true) := by
  have hrun : ((MajorFrame.start .twoSlices 0 (State.readyState .twoSlices fun _ => 0)).toOption.bind
      (Event.play .twoSlices (fun _ e => e.Scheduling)
        [.completion ⟨1, 0⟩ 1000000, .sliceTimer ⟨0, 0⟩, .sliceTimer ⟨0, 1⟩, .windowTimer,
          .exit ⟨0, 0⟩ 12000000])).map
      (fun s => s.frame.currentWin) = some 0 := by decide
  obtain ⟨s, hs, hcurrent⟩ := Option.map_eq_some_iff.mp hrun
  obtain ⟨s₁, hstart, hplay⟩ := Option.bind_eq_some_iff.mp hs
  have hall := temporal_isolation (State.readyState_ready .twoSlices fun _ => 0)
    (toOption_eq_some.mp hstart) (Event.play_schedulingRun hplay)
  rw [hcurrent] at hall
  exact ⟨s, hcurrent, hall⟩

end DemosSched
