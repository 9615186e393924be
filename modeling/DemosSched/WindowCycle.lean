import DemosSched.PolicyOrder
import DemosSched.WindowTurns

/-! The windows of the major frame in every run: each is started when the one before it ends,
whatever the processes do, until the scheduler is stopped. -/

namespace DemosSched

open Fallible

variable {c : Config} {s s' : State} {t : Int}

/-- The `K` windows that follow window `w`, which ends at `t`. -/
def Config.windowsAfter (c : Config) (w : Nat) (t : Int) (K : Nat) : List (Nat × Int) :=
  (List.range K).map fun m => ((w + 1 + m) % c.windows.length,
    t + (c.windowOffset (w + 1 + m) - c.windowOffset (w + 1)) * nsPerMs)

theorem Config.windowsAfter_succ (c : Config) (w : Nat) (t : Int) (K : Nat) :
    c.windowsAfter w t (K + 1) = c.windowsAfter w t K ++ [((w + 1 + K) % c.windows.length,
      t + (c.windowOffset (w + 1 + K) - c.windowOffset (w + 1)) * nsPerMs)] := by
  simp [windowsAfter, List.range_succ]

structure State.Passes (s s' : State) : Prop where
  windows : Action.windowStarts s'.history = Action.windowStarts s.history
  frame : s'.frame.armed = true → s'.frame = s.frame

theorem State.Grows.windowStarts (h : s.Grows Action.SameRun s') :
    Action.windowStarts s'.history = Action.windowStarts s.history :=
  h.fixed fun a l ha => by
    cases a with
    | windowStarted => exact absurd ha id
    | _ => rfl

theorem Slice.scheduleNext_passes {i : SliceId} (h : s.Sound c)
    (run : scheduleNext c (Window.scDone c) i t s = .ok s') : s.Passes s' := by
  obtain ⟨heffects, hphase, -⟩ := scheduleNext_effects h run
  obtain ⟨⟨sc, hstage⟩, -⟩ := hphase.calls
  exact ⟨((heffects.withinRun hstage).mono fun _ => Action.WithinRun.sameRun).windowStarts,
    fun _ => heffects.outside.1⟩

theorem PartitionManager.killAll_windowStarts (s : State) :
    Action.windowStarts (killAll c s).history = Action.windowStarts s.history := by
  unfold killAll
  generalize c.allProcessIds = l
  induction l generalizing s with
  | nil => rfl
  | cons p l ih =>
    rw [List.foldl_cons, ih]
    unfold Process.kill
    split <;> rfl

namespace MajorFrame

theorem stop_passes (h : s.Sound c) (run : stop c t s = .ok s') :
    s.Passes s' ∧ s'.frame.armed = false := by
  obtain ⟨-, -, -, harmed, -⟩ := stop_sound h run
  have hframed := h.disarmed
  obtain ⟨-, -, -, hgrows, -⟩ := Window.stop_halted hframed.queues hframed.coherent.toWithin run
  refine ⟨⟨hgrows.windowStarts, fun ha => ?_⟩, harmed⟩
  rw [harmed] at ha
  cases ha

theorem timeoutCb_windows (h : s.Sound c) (started : s.Started) (run : timeoutCb c s = .ok s') :
    Action.windowStarts s'.history =
      (CyclicSearch.next c.windows.length s.frame.currentWin, s.frame.timeout) ::
        Action.windowStarts s.history ∧
    s'.frame.currentWin = CyclicSearch.next c.windows.length s.frame.currentWin ∧
    s'.frame.timeout = s.frame.timeout +
      (c.window (CyclicSearch.next c.windows.length s.frame.currentWin)).length * nsPerMs := by
  simp only [timeoutCb, bind_def, bind_eq_ok] at run
  obtain ⟨s₁, hstop, hstart⟩ := run
  obtain ⟨-, hsound, hhalted, hclosed, hkeeps⟩ := stopWindow_sound h hstop
  have hmoved := moveToNextWindow_sound hsound hhalted hclosed (hkeeps started)
  obtain ⟨hclosings, -, -, hgrows, -⟩ :=
    Window.stop_halted h.queues h.coherent.toWithin hstop
  have hframe : s₁.frame = s.frame := hclosings.outside.1
  have hcurrent : (moveToNextWindow c s₁).frame.currentWin =
      CyclicSearch.next c.windows.length s.frame.currentWin := by
    rw [← hframe]
    rfl
  simp only [start, bind_def, bind_eq_ok, pure_def, Except.ok.injEq] at hstart
  obtain ⟨s₂, hwindow, rfl⟩ := hstart
  have hready : Window.Startable c (moveToNextWindow c s₁).frame.currentWin
      (moveToNextWindow c s₁) := ⟨hhalted.idle, hclosed, hmoved.opened _, hmoved.queues⟩
  have hbegun := (Window.start_withinRun hready hwindow).mono fun _ => Action.WithinRun.sameRun
  obtain ⟨heffects, -⟩ := Window.start_phase hready hwindow
  have hsame : s₂.frame = (moveToNextWindow c s₁).frame := heffects.outside.1
  refine ⟨?_, ?_, ?_⟩
  · change Action.windowStarts s₂.history = _
    rw [hbegun.windowStarts, ← hgrows.windowStarts, ← hcurrent, ← hframe]
    rfl
  · change s₂.frame.currentWin = _
    rw [hsame, hcurrent]
  · change s₁.frame.timeout + (c.window s₂.frame.currentWin).length * nsPerMs = _
    rw [hsame, hcurrent, hframe]

end MajorFrame

theorem State.Passes.trans {m : State} (h : s.Passes m) (h' : m.Passes s') : s.Passes s' where
  windows := h'.windows.trans h.windows
  frame ha := by
    have hframe := h'.frame ha
    exact hframe.trans (h.frame (hframe ▸ ha))

theorem State.Passes.unarmed (windows : Action.windowStarts s'.history = Action.windowStarts s.history)
    (unarmed : s'.frame.armed = false) : s.Passes s' :=
  ⟨windows, fun ha => by rw [unarmed] at ha; cases ha⟩

namespace DemosScheduler

theorem completionCb_passes {now : Int} (h : s.Sound c)
    (run : completionCb c now s = .ok s') : s.Passes s' := by
  simp only [completionCb, bind_def, bind_eq_ok, pure_def, Except.ok.injEq] at run
  obtain ⟨s₁, hstop, rfl⟩ := run
  obtain ⟨hpasses, harmed⟩ := MajorFrame.stop_passes h hstop
  exact .unarmed hpasses.windows harmed

theorem initiateShutdown_passes {now : Int} (h : s.Sound c)
    (run : initiateShutdown c now s = .ok s') : s.Passes s' := by
  obtain ⟨-, -, -, harmed, -⟩ := initiateShutdown_sound h run
  simp only [initiateShutdown, bind_def, bind_eq_ok, pure_def, Except.ok.injEq] at run
  obtain ⟨s₁, hstop, rfl⟩ := run
  obtain ⟨hpasses, -⟩ := MajorFrame.stop_passes h hstop
  exact .unarmed ((PartitionManager.killAll_windowStarts s₁).trans hpasses.windows) harmed

end DemosScheduler

structure State.NextWindow (c : Config) (s s' : State) : Prop where
  armed : s.frame.armed = true
  windows : Action.windowStarts s'.history =
    (CyclicSearch.next c.windows.length s.frame.currentWin, s.frame.timeout) ::
      Action.windowStarts s.history
  current : s'.frame.currentWin = CyclicSearch.next c.windows.length s.frame.currentWin
  timeout : s'.frame.timeout = s.frame.timeout +
    (c.window (CyclicSearch.next c.windows.length s.frame.currentWin)).length * nsPerMs

theorem Event.step_windows {e : Event} (h : s.Sound c) (started : s.Started)
    (step : Event.Step c s e s') : s'.Started ∧ (s.Passes s' ∨ s.NextWindow c s') := by
  obtain ⟨henabled, run⟩ := step
  cases e with
  | startup now =>
    simp only [Enabled, started.startup] at henabled
    cases henabled
  | windowTimer =>
    obtain ⟨hwindows, hcurrent, htimeout⟩ :=
      MajorFrame.timeoutCb_windows h.disarmed (started.framed _) run
    exact ⟨(step_sound (e := .windowTimer) h started trivial ⟨henabled, run⟩).2.2,
      .inr ⟨henabled, hwindows, hcurrent, htimeout⟩⟩
  | sliceTimer i =>
    refine ⟨(step_sound (e := .sliceTimer i) h started trivial ⟨henabled, run⟩).2.2, .inl ?_⟩
    rw [dispatch, Slice.scheduleNext_disarmed] at run
    exact Slice.scheduleNext_passes h run
  | completion p now =>
    refine ⟨(step_sound (e := .completion p now) h started trivial ⟨henabled, run⟩).2.2, .inl ?_⟩
    have hsignalled : s.Passes (Process.signalled p s) := ⟨rfl, fun _ => rfl⟩
    simp only [dispatch, Process.completedCb, Partition.completedCb] at run
    split at run
    · simp at run
    · rw [Except.ok.injEq] at run
      exact run ▸ hsignalled
    · next hcb => exact absurd hcb (started.completionCb _)
    · exact hsignalled.trans (Slice.scheduleNext_passes
        ((State.SameObjects.signalled p s).sound h) run)
  | exit p now =>
    refine ⟨(step_sound (e := .exit p now) h started trivial ⟨henabled, run⟩).2.2, .inl ?_⟩
    have hended : s.Passes (ended c p s) := ⟨rfl, fun _ => rfl⟩
    have hstarted := ended_started (c := c) started p
    rw [dispatch_exit hstarted.exitCb] at run
    unfold PartitionManager.processExitCb at run
    split at run
    · rw [Except.ok.injEq] at run
      exact run ▸ hended
    · split at run
      · exact hended.trans (DemosScheduler.completionCb_passes (ended_sound h p) run)
      · rw [Except.ok.injEq] at run
        exact run ▸ hended
  | signal now =>
    obtain ⟨-, -, -, -, hstarted⟩ := DemosScheduler.initiateShutdown_sound h run
    exact ⟨hstarted started, .inl (DemosScheduler.initiateShutdown_passes h run)⟩
  | userTimeout now =>
    have hstarted : (s.setScheduler { s.scheduler with timeoutArmed := false }).Started :=
      ⟨started.exitCb, started.completionCb, started.startup⟩
    obtain ⟨-, -, -, -, hkeeps⟩ := DemosScheduler.initiateShutdown_sound (timedOut_sound h) run
    have hpasses := DemosScheduler.initiateShutdown_passes (timedOut_sound h) run
    exact ⟨hkeeps hstarted, .inl ⟨hpasses.windows, hpasses.frame⟩⟩

structure State.Followed (c : Config) (s₁ : State) (K : Nat) (s : State) : Prop where
  windows : Action.windowStarts s.history =
    (c.windowsAfter s₁.frame.currentWin s₁.frame.timeout K).reverse ++
      Action.windowStarts s₁.history
  current : s.frame.armed = true →
    s.frame.currentWin = (s₁.frame.currentWin + K) % c.windows.length
  timeout : s.frame.armed = true → s.frame.timeout = s₁.frame.timeout +
    (c.windowOffset (s₁.frame.currentWin + 1 + K) - c.windowOffset (s₁.frame.currentWin + 1)) *
      nsPerMs

namespace State.Followed

variable {s₁ : State} {K : Nat}

theorem start (h : s₁.Sound c) : s₁.Followed c 0 s₁ where
  windows := by simp [Config.windowsAfter]
  current _ := by rw [Nat.add_zero, Nat.mod_eq_of_lt h.window]
  timeout _ := by simp

theorem passes (h : s₁.Followed c K s) (passes : s.Passes s') : s₁.Followed c K s' where
  windows := passes.windows.trans h.windows
  current ha := by
    rw [passes.frame ha]
    exact h.current (passes.frame ha ▸ ha)
  timeout ha := by
    rw [passes.frame ha]
    exact h.timeout (passes.frame ha ▸ ha)

theorem next (h : s₁.Followed c K s) (next : s.NextWindow c s') : s₁.Followed c (K + 1) s' := by
  have hcurrent := h.current next.armed
  have htimeout := h.timeout next.armed
  have hnext : CyclicSearch.next c.windows.length s.frame.currentWin =
      (s₁.frame.currentWin + 1 + K) % c.windows.length := by
    have hlt : s.frame.currentWin < c.windows.length :=
      hcurrent ▸ Nat.mod_lt _ c.windows_length_pos
    rw [CyclicSearch.next_eq_mod hlt, hcurrent, Nat.mod_add_mod, Nat.add_right_comm]
  refine ⟨?_, fun _ => ?_, fun _ => ?_⟩
  · rw [next.windows, h.windows, hnext, htimeout, Config.windowsAfter_succ, List.reverse_append]
    rfl
  · rw [next.current, hnext, Nat.add_right_comm, Nat.add_assoc]
  · rw [next.timeout, htimeout, hnext, ← Nat.add_assoc,
      c.windowOffset_succ (s₁.frame.currentWin + 1 + K)]
    ring

end State.Followed

/-- From any state of any run in which a window is under way: the windows that are started from
then on are those that follow it in the major frame, none left out and none twice, each at the
very end of the one before, whatever has come in between. -/
theorem windows_follow {gen : Nat → Nat} {timeout : Option Int} {es es' : List Event} {s₁ : State}
    (reachable : Event.Reachable c gen timeout es s₁) (armed : s₁.frame.armed = true)
    (run : Run (Event.Step c) s₁ es' s) : ∃ K, s₁.Followed c K s := by
  have hall : s.Sound c ∧ s.Started ∧ ∃ K, s₁.Followed c K s := by
    refine run.invariant (I := fun s => s.Sound c ∧ s.Started ∧ ∃ K, s₁.Followed c K s)
      (fun m m' e hm step => ?_)
      ⟨reachable.sound, reachable.started_of_armed armed, 0, .start reachable.sound⟩
    obtain ⟨hsound, hstarted, K, hfollowed⟩ := hm
    obtain ⟨hstarted', hpasses | hnext⟩ := Event.step_windows hsound hstarted step
    · exact ⟨(Event.step_turns hsound step).2, hstarted', K, hfollowed.passes hpasses⟩
    · exact ⟨(Event.step_turns hsound step).2, hstarted', K + 1, hfollowed.next hnext⟩
  exact hall.2.2

/-- The only process exits in the second of two windows. -/
theorem windows_follow_narrowFirst : ∃ s₁ s : State, s₁.frame.armed = true ∧
    Action.windowStarts s.history = [(1, 10 * nsPerMs), (0, 0)] ∧
    ∃ K, s₁.Followed .narrowFirst K s := by
  have hrun : ((Event.play .narrowFirst (fun _ _ => True) [.startup 0, .completion ⟨0, 0⟩ 0]
      (State.initial .narrowFirst (fun _ => 0) none)).bind fun s₁ =>
        (Event.play .narrowFirst (fun _ _ => True)
          [.windowTimer, .exit ⟨0, 0⟩ (12 * nsPerMs)] s₁).map fun s =>
            (s₁.frame.armed, Action.windowStarts s.history)) =
      some (true, [(1, 10 * nsPerMs), (0, 0)]) := by decide
  obtain ⟨s₁, hplay, hs⟩ := Option.bind_eq_some_iff.mp hrun
  obtain ⟨s, hrest, hs⟩ := Option.map_eq_some_iff.mp hs
  obtain ⟨harmed, hwindows⟩ := Prod.mk.inj hs
  exact ⟨s₁, s, harmed, hwindows, windows_follow (Event.play_reachable hplay) harmed
    ((Event.play_run _ hrest).mono fun _ _ _ step => step.2)⟩

end DemosSched
