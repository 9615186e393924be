import DemosSched.Undisturbed

/-! An undisturbed run, event by event. Once the processes are initialized the schedule
is started, and from then on every event is a beat of it: the acts of one nominal time,
and at the end of a window the start of the next one. -/

namespace DemosSched

open Fallible Relation

/-- What an event makes of a schedule begun at `t₀`. -/
inductive Beat (c : Config) (t₀ : Int) : State → State → Prop
  | acts {s s' : State} {w : Nat} {u t : Int} (current : Action.current s.history = some (w, u))
      (aligned : nsPerMs ∣ t - t₀) (roles : s.Roles c w (c.sliceIds w)) (h : Acts c w u t s s') :
      Beat c t₀ s s'
  | begun {s s' : State} (w : Nat) (u : Int) (idle : s.AllIdle)
      (closed : s.course.stage = .closed)
      (next : (w, u) = c.follow t₀ (Action.current s.history)) (aligned : nsPerMs ∣ u - t₀)
      (h : Acts c w u u ((s.record (.windowStarted w u)).setWindow w
        { s.window w with finishedScPartitions := 0 }) s') : Beat c t₀ s s'
  | framed {s : State} (x : MajorFrame) : Beat c t₀ s (s.setFrame x)
  | windowArmed {s : State} (t : Int) : Beat c t₀ s (s.record (.windowArmed t))
  | scheduled {s : State} (x : DemosScheduler) : Beat c t₀ s (s.setScheduler x)

abbrev Beats (c : Config) (t₀ : Int) : State → State → Prop := ReflTransGen (Beat c t₀)

theorem Beats.invariant {c : Config} {t₀ : Int} {s s' : State} {I : State → Prop}
    (keeps : ∀ s s', I s → Beat c t₀ s s' → I s') (run : Beats c t₀ s s') (start : I s) :
    I s' := by
  induction run with
  | refl => exact start
  | tail _ last ih => exact keeps _ _ ih last

theorem Beat.moves {c : Config} {t₀ : Int} {s s' : State} (h : Beat c t₀ s s') :
    Moves c t₀ s s' := by
  cases h with
  | acts current aligned _ acts => exact acts.moves current aligned
  | begun w u idle closed next aligned acts =>
    exact .head (.windowStarted w u idle closed next) (acts.moves rfl aligned)
  | framed x => exact .single (.framed x)
  | windowArmed t => exact .single (.windowArmed t)
  | scheduled x => exact .single (.scheduled x)

section Events

variable {c : Config} {t₀ u : Int} {s s' : State}

theorem MajorFrame.start_beats (zero : c.ZeroJitter) (positive : c.PositiveLengths)
    (sound : s.Sound c) (halted : s.Halted) (closed : s.course.stage = .closed)
    (regular : s.Regular c) (aligned : nsPerMs ∣ u - t₀)
    (next : (s.frame.currentWin, u) = c.follow t₀ (Action.current s.history))
    (run : start c u s = .ok s') : Beats c t₀ s s' := by
  simp only [start, bind_def, bind_eq_ok, pure_def, Except.ok.injEq] at run
  obtain ⟨m, hstart, rfl⟩ := run
  obtain ⟨hacts, -⟩ := Window.start_acts zero
    ⟨halted.idle, closed, sound.opened _, sound.queues⟩ regular
    (positive.lt_windowEnd sound.window u) hstart
  exact ((ReflTransGen.single (.begun _ u halted.idle closed next aligned hacts)).tail
    (.framed _)).tail (.windowArmed _)

theorem State.Underway.sliceTimer_beats (h : s.Underway c t₀) (zero : c.ZeroJitter) {i : SliceId}
    (onTime : Event.OnTime c s (.sliceTimer i)) (step : Event.Step c s (.sliceTimer i) s') :
    Beats c t₀ s s' := by
  obtain ⟨henabled, run⟩ := step
  have harmed : (s.slice i).armed = true := henabled
  obtain ⟨p, hp⟩ : ∃ p, (s.slice i).runningProcess = some p := by
    rw [h.sound.coherent.armed_iff] at harmed
    exact Option.isSome_iff_exists.mp harmed
  rw [Event.dispatch, Slice.scheduleNext_disarmed] at run
  obtain ⟨u, hcurrent, htimeout, -⟩ := h.window
  have hbefore : (s.slice i).timeout < c.windowEnd s.frame.currentWin u :=
    htimeout ▸ (onTime.1 h.armed).2 i (h.sound.coherent.armed i harmed) rfl
  obtain ⟨hacts, -⟩ := Slice.timer_acts (u := u) zero h.phase h.regular h.sound.coherent h.roles
    hp rfl hbefore (fun l => h.ends l i harmed) run
  exact .single (.acts hcurrent (h.aligned i harmed) h.roles hacts)

theorem State.Underway.windowTimer_starts (h : s.Underway c t₀)
    (onTime : Event.OnTime c s .windowTimer) (step : Event.Step c s .windowTimer s') :
    ∃ u m, Action.current s.history = some (s.frame.currentWin, u) ∧
      Window.stop c s.frame.currentWin s.frame.timeout
        (s.setFrame { s.frame with armed := false }) = .ok m ∧
      Acts c s.frame.currentWin u s.frame.timeout
        (s.setFrame { s.frame with armed := false }) m ∧
      nsPerMs ∣ s.frame.timeout - t₀ ∧
      (MajorFrame.moveToNextWindow c m).Sound c ∧ (MajorFrame.moveToNextWindow c m).Halted ∧
      m.course.stage = .closed ∧ m.Regular c ∧
      ((MajorFrame.moveToNextWindow c m).frame.currentWin, s.frame.timeout) =
        c.follow t₀ (Action.current (MajorFrame.moveToNextWindow c m).history) ∧
      MajorFrame.start c s.frame.timeout (MajorFrame.moveToNextWindow c m) = .ok s' := by
  obtain ⟨-, run⟩ := step
  rw [Event.dispatch_windowTimer, bind_eq_ok] at run
  obtain ⟨m, hstop, hstart⟩ := run
  set s₀ := s.setFrame { s.frame with armed := false } with hs₀
  have hsound₀ : s₀.Sound c := h.sound.congr rfl rfl rfl rfl (fun _ => id) (fun _ => ⟨rfl, rfl, rfl⟩)
    (.inl ⟨h.started.exitCb, h.started.completionCb, h.started.startup⟩)
  have hregular₀ : s₀.Regular c := ⟨h.regular.queues, h.regular.budgeted, h.regular.spawned⟩
  obtain ⟨u, hcurrent, htimeout, haligned⟩ := h.window
  have hroles : s₀.Roles c s.frame.currentWin (c.sliceIds s.frame.currentWin) :=
    h.roles.congr rfl rfl
  have hacts := Window.stop_acts (u := u) (t := s.frame.timeout) (s := s₀)
    (h.phase.congr rfl rfl rfl fun _ => id) hregular₀ hsound₀.coherent htimeout
    (fun i hi => onTime.2 i (h.sound.coherent.armed i hi) hi) hroles hstop
  obtain ⟨-, hsound, hhalted, hclosed, hkeeps⟩ := MajorFrame.stopWindow_sound hsound₀ hstop
  have hstarted := hkeeps ⟨h.started.exitCb, h.started.completionCb, h.started.startup⟩
  have hend : nsPerMs ∣ s.frame.timeout - t₀ := by
    rw [htimeout]
    exact c.windowEnd_aligned _ haligned
  have hframe : m.frame.timeout = s.frame.timeout := by
    rw [hacts.frame]
    rfl
  have hnext : ((MajorFrame.moveToNextWindow c m).frame.currentWin, s.frame.timeout) =
      c.follow t₀ (Action.current (MajorFrame.moveToNextWindow c m).history) := by
    have hlast : Action.current (MajorFrame.moveToNextWindow c m).history =
        some (s.frame.currentWin, u) := hacts.current.trans hcurrent
    rw [hlast, MajorFrame.moveToNextWindow, State.setFrame_frame, hacts.frame, htimeout]
    rfl
  rw [hframe] at hstart
  exact ⟨u, m, hcurrent, hstop, hacts, hend,
    MajorFrame.moveToNextWindow_sound hsound hhalted hclosed hstarted,
    hhalted.congr rfl fun _ => rfl, hclosed, hregular₀.acts hacts, hnext, hstart⟩

theorem State.Underway.windowTimer_beats (h : s.Underway c t₀) (zero : c.ZeroJitter)
    (positive : c.PositiveLengths) (onTime : Event.OnTime c s .windowTimer)
    (step : Event.Step c s .windowTimer s') : Beats c t₀ s s' := by
  obtain ⟨u, m, hcurrent, -, hacts, hend, hsound, hhalted, hclosed, hregular, hnext, hstart⟩ :=
    h.windowTimer_starts onTime step
  have hbeats := MajorFrame.start_beats zero positive hsound hhalted hclosed
    ⟨hregular.queues, hregular.budgeted, hregular.spawned⟩ hend hnext hstart
  have hroles : (s.setFrame { s.frame with armed := false }).Roles c s.frame.currentWin
      (c.sliceIds s.frame.currentWin) := h.roles.congr rfl rfl
  have hfirst : Beat c t₀ s (s.setFrame { s.frame with armed := false }) := .framed _
  exact .head hfirst (.head (.acts hcurrent hend hroles hacts) (.head (.framed _) hbeats))

end Events

namespace PartitionManager

variable {c : Config} {cb : Callbacks} {R : State → Prop} {s s' : State}
  (call : ∀ m m', m.Fresh c → cb.initCb m = .ok m' → R m')
  (stay : ∀ m, m.Initializing c → R m)

include call

theorem finishProcessInit_calls (init : s.Initializing c) (untouched : s.Untouched c)
    (run : finishProcessInit c cb s = .ok s') : R s' := by
  obtain ⟨-, hinit, hstarted⟩ := initialized_ready init
  have huntouched : (initialized c s).Untouched c := by
    rw [initialized_eq]
    refine untouched.congr rfl (fun k => ?_) (fun _ => ⟨rfl, rfl⟩)
      (.one (a := .initFinished) id rfl)
    dsimp only
    split <;> exact untouched.heads k
  exact call _ _ ⟨huntouched, hinit.sound, hstarted, hinit.preparing.halted,
    hinit.preparing.closed⟩ run

include stay

theorem processInitCompletionCb_calls {p : ProcessId} (init : s.Initializing c)
    (untouched : s.Untouched c) (run : processInitCompletionCb c cb p s = .ok s') : R s' := by
  unfold processInitCompletionCb at run
  have hinit : ((Process.suspend p s).record (.initSuspended p)).Initializing c :=
    init.same ⟨rfl, rfl, rfl, rfl, rfl, rfl, State.flags_setProcess ⟨rfl, rfl⟩, rfl⟩
  have huntouched : ((Process.suspend p s).record (.initSuspended p)).Untouched c :=
    (untouched.setProcess (p := p) (x := { s.process p with frozen := true }) ⟨rfl, rfl⟩).record id
  dsimp only at run
  split at run
  · exact finishProcessInit_calls call (hinit.managed _) (huntouched.managed _) run
  · rw [Except.ok.injEq] at run
    exact run ▸ stay _ (hinit.managed _)

theorem runProcessInit_calls (init : s.Initializing c) (untouched : s.Untouched c)
    (run : runProcessInit c cb s = .ok s') : R s' := by
  simp only [runProcessInit, bind_def, bind_eq_ok] at run
  obtain ⟨s₁, hreset, s₂, hresume, run⟩ := run
  have hfirst : s₁.Untouched c := by
    refine foldlM_keeps (State.Untouched c) ?_ untouched hreset
    rintro k - m m' hm hk
    obtain rfl := Partition.reset_cases c k m hk
    refine hm.congr rfl (fun l => ?_) (fun _ => ⟨rfl, rfl⟩) (.same rfl)
    by_cases hl : l = k
    · subst hl
      simp
    · simp [hl, hm.heads l]
  have hboth : s₂.Initializing c ∧ s₂.Untouched c := by
    refine foldlM_keeps (fun m => m.Initializing c ∧ m.Untouched c) ?_
      ⟨(resetAll_sound init hreset).2.managed _, hfirst.managed _⟩ hresume
    rintro p - m m' ⟨hinit, hm⟩ hp
    refine ⟨(resumeForInit_sound hinit hp).2, ?_⟩
    unfold resumeForInit Process.resume at hp
    dsimp only at hp
    split at hp
    · rw [Except.ok.injEq] at hp
      subst hp
      have hcounted : ((m.setManager { m.manager with
          remainingProcessInits := m.manager.remainingProcessInits + 1 }).record
          (.initResumed p)).Untouched c := (hm.managed _).record id
      exact hcounted.setProcess ⟨rfl, rfl⟩
    · simp at hp
  split at run
  · exact finishProcessInit_calls call hboth.1 hboth.2 run
  · rw [pure_def, Except.ok.injEq] at run
    exact run ▸ stay _ hboth.1

end PartitionManager

structure State.InBeat (c : Config) (t₀ : Int) (s : State) : Prop where
  underway : s.Underway c t₀
  beats : ∃ s₀, s₀.Fresh c ∧ Beats c t₀ s₀ s

variable {c : Config} {s s' : State}

theorem DemosScheduler.startScheduler_inBeat {now : Int} (zero : c.ZeroJitter)
    (positive : c.PositiveLengths) (fresh : s.Fresh c) (run : startScheduler c now s = .ok s') :
    s'.frame.armed = true → s'.InBeat c now := by
  intro harmed
  unfold startScheduler at run
  split at run
  · have hrests := initiateShutdown_rests fresh.sound fresh.halted run
    have hunarmed := hrests.unarmed
    simp [harmed] at hunarmed
  · simp only [bind_def, bind_eq_ok] at run
    obtain ⟨m, hstart, run⟩ := run
    have hnext : (s.frame.currentWin, now) = c.follow now (Action.current s.history) := by
      rw [fresh.current, fresh.window]
      rfl
    obtain ⟨-, hunderway⟩ := MajorFrame.start_underway zero positive fresh.sound
      fresh.halted fresh.closed fresh.started fresh.regular (by simp) hnext hstart
    have hbeats := MajorFrame.start_beats zero positive fresh.sound fresh.halted fresh.closed
      fresh.regular (by simp) hnext hstart
    split at run <;> rw [pure_def, Except.ok.injEq] at run
    · subst run
      exact ⟨hunderway.scheduled _ hunderway.started.startup, s, fresh, hbeats.tail (.scheduled _)⟩
    · exact run ▸ ⟨hunderway, s, fresh, hbeats⟩

/-- With the timer of a window armed, the schedule has just been started, or a timer of it
was delivered. -/
theorem State.Stands.armed_step {J : State → Prop} {e : Event}
    (start : ∀ now m m', m.Fresh c → DemosScheduler.startScheduler c now m = .ok m' →
      m'.frame.armed = true → J m')
    (h : s.Stands c)
    (timer : ∀ t₀, s.Underway c t₀ → (e = .windowTimer ∨ ∃ i, e = .sliceTimer i) → J s')
    (step : Event.UndisturbedStep c s e s') : s'.frame.armed = true → J s' := by
  obtain ⟨hundisturbed, hstep⟩ := step
  have hstay : ∀ m : State, m.Initializing c → m.frame.armed = true → J m := by
    intro m init harmed
    simp [init.preparing.unarmed] at harmed
  cases h with
  | down down =>
    obtain ⟨hdown, -⟩ := down.step hstep
    intro harmed
    simp [hdown.unarmed] at harmed
  | underway t₀ s₀ fresh moves underway =>
    cases e with
    | windowTimer => exact fun _ => timer t₀ underway (.inl rfl)
    | sliceTimer i => exact fun _ => timer t₀ underway (.inr ⟨i, rfl⟩)
    | startup now =>
      have hpending : s.scheduler.startupPending = true := hstep.1
      simp [underway.started.startup] at hpending
    | completion p now =>
      have hunarmed : s.frame.armed = false := hundisturbed
      simp [underway.armed] at hunarmed
    | _ => exact absurd hundisturbed id
  | preparing sound preparing untouched =>
    obtain ⟨henabled, run⟩ := hstep
    cases e with
    | windowTimer =>
      simp only [Event.Enabled, preparing.unarmed] at henabled
      simp at henabled
    | sliceTimer i =>
      simp only [Event.Enabled, preparing.halted.unarmed i] at henabled
      simp at henabled
    | startup now =>
      exact PartitionManager.runProcessInit_calls (start now) hstay
        (Event.startup_initializing sound preparing)
        (untouched.congr rfl untouched.heads (fun _ => ⟨rfl, rfl⟩) (.same rfl)) run
    | completion p now =>
      have hsame : s.SameObjects ((s.setProcess p { s.process p with
          demosCompleted := true }).record (.signalled p)) :=
        ⟨rfl, rfl, rfl, rfl, rfl, rfl, State.flags_setProcess ⟨rfl, rfl⟩, rfl⟩
      simp only [Event.dispatch, Process.completedCb, Partition.completedCb] at run
      split at run
      · simp at run
      · rw [Except.ok.injEq] at run
        intro harmed
        have hunarmed := (hsame.preparing preparing).unarmed
        simp [run, harmed] at hunarmed
      · next hcb =>
        have hinit : s.Initializing c := ⟨sound, preparing, (preparing.completionCb _ hcb).2⟩
        exact PartitionManager.processInitCompletionCb_calls (start now) hstay (hinit.same hsame)
          ((untouched.setProcess (p := p) (x := { s.process p with demosCompleted := true })
            ⟨rfl, rfl⟩).record id) run
      · next i hcb => exact absurd hcb (preparing.halted.disconnected _ i)
    | _ => exact absurd hundisturbed id

theorem State.Stands.inBeat_step {e : Event} (zero : c.ZeroJitter) (positive : c.PositiveLengths)
    (h : s.Stands c) (beat : s.frame.armed = true → ∃ t₀, s.InBeat c t₀)
    (step : Event.UndisturbedStep c s e s') : s'.frame.armed = true → ∃ t₀, s'.InBeat c t₀ := by
  refine h.armed_step (J := fun m => ∃ t₀, m.InBeat c t₀)
    (fun now _ _ fresh run harmed =>
      ⟨now, DemosScheduler.startScheduler_inBeat zero positive fresh run harmed⟩)
    (fun _ underway timer => ?_) step
  obtain ⟨hundisturbed, hstep⟩ := step
  obtain ⟨t₀, hunderway, s₀, hfresh, hbeats⟩ := beat underway.armed
  rcases timer with rfl | ⟨i, rfl⟩
  · have hnext := hunderway.windowTimer_beats zero positive hundisturbed hstep
    obtain ⟨-, hunderway'⟩ := hunderway.windowTimer zero positive hundisturbed hstep
    exact ⟨t₀, hunderway', s₀, hfresh, hbeats.trans hnext⟩
  · have hnext := hunderway.sliceTimer_beats zero hundisturbed hstep
    obtain ⟨-, hunderway'⟩ := hunderway.sliceTimer zero hundisturbed hstep
    exact ⟨t₀, hunderway', s₀, hfresh, hbeats.trans hnext⟩

theorem Event.undisturbed_inBeat {gen : Nat → Nat} {timeout : Option Int} {es : List Event}
    (zero : c.ZeroJitter) (positive : c.PositiveLengths)
    (run : Run (UndisturbedStep c) (State.initial c gen timeout) es s) :
    (∀ a ∈ s.history, ¬a.Schedules) ∨ ∃ t₀, s.InBeat c t₀ := by
  have hall : s.Stands c ∧ (s.frame.armed = true → ∃ t₀, s.InBeat c t₀) := by
    refine run.invariant (I := fun m => m.Stands c ∧ (m.frame.armed = true → ∃ t₀, m.InBeat c t₀))
      (fun _ _ _ h step => ⟨h.1.step zero positive step, h.1.inBeat_step zero positive h.2 step⟩)
      ⟨undisturbed_stands zero positive .nil, fun harmed => by simp [State.initial] at harmed⟩
  obtain ⟨hstands, hbeat⟩ := hall
  cases hstands with
  | preparing _ _ untouched => exact .inl untouched.quiet
  | down _ quiet => exact .inl quiet
  | underway t₀ s₀ fresh moves underway => exact .inr (hbeat underway.armed)

end DemosSched
