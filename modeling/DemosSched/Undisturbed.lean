import DemosSched.Moves
import DemosSched.Shutdown

/-! Undisturbed runs: no process exits, none signals completion once the schedule
has begun, no stop is requested, which would kill the processes, and the timers are
delivered in the order of their expiry. Such a run schedules nothing, or is an
undisturbed schedule from some time on. -/

namespace DemosSched

open Fallible Relation

/-- An event of an undisturbed run. Completions of the initialization come before the
timer of the first window is armed. -/
def Event.Undisturbed (c : Config) (s : State) : Event → Prop
  | .startup _ => True
  | .windowTimer => OnTime c s .windowTimer
  | .sliceTimer i => OnTime c s (.sliceTimer i)
  | .completion _ _ => s.frame.armed = false
  | .exit _ _ | .signal _ | .userTimeout _ => False

instance (c : Config) (s : State) (e : Event) : Decidable (e.Undisturbed c s) :=
  match e with
  | .startup _ => .isTrue trivial
  | .windowTimer => inferInstanceAs (Decidable (Event.OnTime c s .windowTimer))
  | .sliceTimer i => inferInstanceAs (Decidable (Event.OnTime c s (.sliceTimer i)))
  | .completion _ _ => inferInstanceAs (Decidable (s.frame.armed = false))
  | .exit _ _ | .signal _ | .userTimeout _ => .isFalse id

def Event.UndisturbedStep (c : Config) (s : State) (e : Event) (s' : State) : Prop :=
  e.Undisturbed c s ∧ Event.Step c s e s'

/-- Nothing has been scheduled, every process waits with its configured budget, and
every queue rests on its first process. -/
structure State.Untouched (c : Config) (s : State) : Prop where
  window : s.frame.currentWin = 0
  heads : ∀ k, (s.partition k).currentProc = 0
  spawned : ∀ p, (s.process p).spawned = true
  full : ∀ p, (s.process p).actualBudget = (c.process p).budget
  quiet : ∀ a ∈ s.history, ¬a.Schedules

structure State.Fresh (c : Config) (s : State) : Prop extends State.Untouched c s where
  sound : s.Sound c
  started : s.Started
  halted : s.Halted
  closed : s.course.stage = .closed

inductive State.Stands (c : Config) (s : State) : Prop
  | preparing (sound : s.Sound c) (preparing : s.Preparing c) (untouched : s.Untouched c)
  | down (down : s.Down c) (quiet : ∀ a ∈ s.history, ¬a.Schedules)
  | underway (t₀ : Int) (s₀ : State) (fresh : s₀.Fresh c) (moves : Moves c t₀ s₀ s)
      (underway : s.Underway c t₀)

theorem Action.current_of_quiet {h : List Action} (quiet : ∀ a ∈ h, ¬a.Schedules) :
    current h = none := by
  induction h with
  | nil => rfl
  | cons a h ih =>
    have hrest := ih fun b hb => quiet b (List.mem_cons_of_mem _ hb)
    cases a with
    | windowStarted => exact absurd trivial (quiet _ List.mem_cons_self)
    | _ => exact hrest

namespace State.Untouched

variable {c : Config} {s s' : State}

theorem congr (h : s.Untouched c) (frame : s'.frame.currentWin = s.frame.currentWin)
    (heads : ∀ k, (s'.partition k).currentProc = 0)
    (process : ∀ p, (s'.process p).spawned = (s.process p).spawned ∧
      (s'.process p).actualBudget = (s.process p).actualBudget)
    (grows : s.Grows (fun a => ¬a.Schedules) s') : s'.Untouched c where
  window := frame.trans h.window
  heads := heads
  spawned p := (process p).1.trans (h.spawned p)
  full p := (process p).2.trans (h.full p)
  quiet a ha := by
    obtain ⟨new, hnew, hquiet⟩ := grows
    rw [hnew] at ha
    rcases List.mem_append.mp ha with ha | ha
    · exact hquiet a ha
    · exact h.quiet a ha

theorem setProcess (h : s.Untouched c) {p : ProcessId} {x : Process}
    (hx : x.spawned = (s.process p).spawned ∧ x.actualBudget = (s.process p).actualBudget) :
    (s.setProcess p x).Untouched c := by
  refine h.congr rfl h.heads (fun q => ?_) (.same rfl)
  by_cases hq : q = p
  · subst hq
    simpa using hx
  · simp [hq]

theorem record (h : s.Untouched c) {a : Action} (ha : ¬a.Schedules) : (s.record a).Untouched c :=
  h.congr rfl h.heads (fun _ => ⟨rfl, rfl⟩) (.one ha rfl)

theorem managed (h : s.Untouched c) (x : PartitionManager) : (s.setManager x).Untouched c :=
  h.congr rfl h.heads (fun _ => ⟨rfl, rfl⟩) (.same rfl)

theorem current (h : s.Untouched c) : Action.current s.history = none :=
  Action.current_of_quiet h.quiet

end State.Untouched

theorem State.Fresh.regular {c : Config} {s : State} (h : s.Fresh c) : s.Regular c where
  queues := h.sound.queues
  budgeted p := by
    rw [h.full p]
    exact ⟨(c.process p).budget_pos, le_rfl⟩
  spawned := h.spawned

theorem State.Underway.scheduled {c : Config} {t₀ : Int} {s : State} (h : s.Underway c t₀)
    (x : DemosScheduler) (startup : x.startupPending = false) :
    (s.setScheduler x).Underway c t₀ where
  sound := h.sound.congr rfl rfl rfl rfl (fun _ => id) (fun _ => ⟨rfl, rfl, rfl⟩)
    (.inl ⟨h.started.exitCb, h.started.completionCb, startup⟩)
  started := ⟨h.started.exitCb, h.started.completionCb, startup⟩
  regular := ⟨h.regular.queues, h.regular.budgeted, h.regular.spawned⟩
  roles := h.roles.congr rfl rfl
  armed := h.armed
  window := h.window
  ends := h.ends
  aligned := h.aligned

section Begin

variable {c : Config} {s s' : State} {now : Int}

theorem DemosScheduler.startScheduler_stands (zero : c.ZeroJitter) (positive : c.PositiveLengths)
    (fresh : s.Fresh c) (run : startScheduler c now s = .ok s') : s'.Stands c := by
  unfold startScheduler at run
  split at run
  · have hrests := initiateShutdown_rests fresh.sound fresh.halted run
    obtain ⟨-, hsound, -, -, hstarted⟩ := initiateShutdown_sound fresh.sound run
    refine .down ⟨hsound, hrests.halted, hrests.unarmed, .inl (hstarted fresh.started)⟩ fun a ha => ?_
    obtain ⟨new, hnew, hquiet⟩ := hrests.quiet
    rw [hnew] at ha
    rcases List.mem_append.mp ha with ha | ha
    · exact hquiet a ha
    · exact fresh.quiet a ha
  · simp only [bind_def, bind_eq_ok] at run
    obtain ⟨m, hstart, run⟩ := run
    have hnext : (s.frame.currentWin, now) = c.follow now (Action.current s.history) := by
      rw [fresh.current, fresh.window]
      rfl
    obtain ⟨hmoves, hunderway⟩ := MajorFrame.start_underway zero positive fresh.sound
      fresh.halted fresh.closed fresh.started fresh.regular (by simp) hnext hstart
    split at run <;> rw [pure_def, Except.ok.injEq] at run
    · subst run
      exact .underway now s fresh (hmoves.tail (.scheduled _))
        (hunderway.scheduled _ hunderway.started.startup)
    · exact run ▸ .underway now s fresh hmoves hunderway

namespace PartitionManager

theorem finishProcessInit_stands (zero : c.ZeroJitter) (positive : c.PositiveLengths)
    (init : s.Initializing c) (untouched : s.Untouched c)
    (run : finishProcessInit c (DemosScheduler.callbacks c now) s = .ok s') : s'.Stands c := by
  obtain ⟨-, hinit, hstarted⟩ := initialized_ready init
  have huntouched : (initialized c s).Untouched c := by
    rw [initialized_eq]
    refine untouched.congr rfl (fun k => ?_) (fun _ => ⟨rfl, rfl⟩)
      (.one (a := .initFinished) id rfl)
    dsimp only
    split <;> exact untouched.heads k
  exact DemosScheduler.startScheduler_stands zero positive
    ⟨huntouched, hinit.sound, hstarted, hinit.preparing.halted, hinit.preparing.closed⟩ run

theorem processInitCompletionCb_stands (zero : c.ZeroJitter) (positive : c.PositiveLengths)
    {p : ProcessId} (init : s.Initializing c) (untouched : s.Untouched c)
    (run : processInitCompletionCb c (DemosScheduler.callbacks c now) p s = .ok s') :
    s'.Stands c := by
  unfold processInitCompletionCb at run
  have hinit : ((Process.suspend p s).record (.initSuspended p)).Initializing c :=
    init.same ⟨rfl, rfl, rfl, rfl, rfl, rfl, State.flags_setProcess ⟨rfl, rfl⟩, rfl⟩
  have huntouched : ((Process.suspend p s).record (.initSuspended p)).Untouched c :=
    (untouched.setProcess (p := p) (x := { s.process p with frozen := true }) ⟨rfl, rfl⟩).record id
  dsimp only at run
  split at run
  · exact finishProcessInit_stands zero positive (hinit.managed _) (huntouched.managed _) run
  · rw [Except.ok.injEq] at run
    exact run ▸ .preparing (hinit.managed _).sound (hinit.managed _).preparing
      (huntouched.managed _)

theorem runProcessInit_stands (zero : c.ZeroJitter) (positive : c.PositiveLengths)
    (init : s.Initializing c) (untouched : s.Untouched c)
    (run : runProcessInit c (DemosScheduler.callbacks c now) s = .ok s') : s'.Stands c := by
  simp only [runProcessInit, bind_def, bind_eq_ok] at run
  obtain ⟨s₁, hreset, s₂, hresume, run⟩ := run
  have hfirst : s₁.Untouched c := by
    refine foldlM_keeps (State.Untouched c) ?_ untouched hreset
    rintro k - m m' hm hk
    obtain rfl := Partition.reset_cases c k m hk
    refine hm.congr rfl (fun l => ?_) (fun _ => ⟨rfl, rfl⟩) (.same rfl)
    by_cases hl : l = k
    · subst hl
      simp
    · simp [hl, hm.heads l]
  have hboth : s₂.Initializing c ∧ s₂.Untouched c := by
    refine foldlM_keeps (fun m => m.Initializing c ∧ m.Untouched c) ?_
      ⟨(resetAll_sound init hreset).2.managed _, hfirst.managed _⟩ hresume
    rintro p - m m' ⟨hinit, hm⟩ hp
    refine ⟨(resumeForInit_sound hinit hp).2, ?_⟩
    unfold resumeForInit Process.resume at hp
    dsimp only at hp
    split at hp
    · rw [Except.ok.injEq] at hp
      subst hp
      have hcounted : ((m.setManager { m.manager with
          remainingProcessInits := m.manager.remainingProcessInits + 1 }).record
          (.initResumed p)).Untouched c := (hm.managed _).record id
      exact hcounted.setProcess ⟨rfl, rfl⟩
    · simp at hp
  split at run
  · exact finishProcessInit_stands zero positive hboth.1 hboth.2 run
  · rw [pure_def, Except.ok.injEq] at run
    exact run ▸ .preparing hboth.1.sound hboth.1.preparing hboth.2

end PartitionManager

end Begin

theorem State.Stands.step {c : Config} {s s' : State} {e : Event} (zero : c.ZeroJitter)
    (positive : c.PositiveLengths) (h : s.Stands c) (step : Event.UndisturbedStep c s e s') :
    s'.Stands c := by
  obtain ⟨hundisturbed, hstep⟩ := step
  cases h with
  | down down quiet =>
    obtain ⟨hdown, new, hnew, hquiet⟩ := down.step hstep
    refine .down hdown fun a ha => ?_
    rw [hnew] at ha
    rcases List.mem_append.mp ha with ha | ha
    · exact hquiet a ha
    · exact quiet a ha
  | underway t₀ s₀ fresh moves underway =>
    cases e with
    | windowTimer =>
      obtain ⟨hmoves, hunderway⟩ := underway.windowTimer zero positive hundisturbed hstep
      exact .underway t₀ s₀ fresh (moves.trans hmoves) hunderway
    | sliceTimer i =>
      obtain ⟨hmoves, hunderway⟩ := underway.sliceTimer zero hundisturbed hstep
      exact .underway t₀ s₀ fresh (moves.trans hmoves) hunderway
    | startup now =>
      have hpending : s.scheduler.startupPending = true := hstep.1
      simp [underway.started.startup] at hpending
    | completion p now =>
      have hunarmed : s.frame.armed = false := hundisturbed
      simp [underway.armed] at hunarmed
    | _ => exact absurd hundisturbed id
  | preparing sound preparing untouched =>
    obtain ⟨henabled, run⟩ := hstep
    cases e with
    | windowTimer =>
      simp only [Event.Enabled, preparing.unarmed] at henabled
      simp at henabled
    | sliceTimer i =>
      simp only [Event.Enabled, preparing.halted.unarmed i] at henabled
      simp at henabled
    | startup now =>
      exact PartitionManager.runProcessInit_stands zero positive
        (Event.startup_initializing sound preparing)
        (untouched.congr rfl untouched.heads (fun _ => ⟨rfl, rfl⟩) (.same rfl)) run
    | completion p now =>
      have hsame : s.SameObjects ((s.setProcess p { s.process p with
          demosCompleted := true }).record (.signalled p)) :=
        ⟨rfl, rfl, rfl, rfl, rfl, rfl, State.flags_setProcess ⟨rfl, rfl⟩, rfl⟩
      have huntouched : ((s.setProcess p { s.process p with
          demosCompleted := true }).record (.signalled p)).Untouched c :=
        (untouched.setProcess (p := p)
          (x := { s.process p with demosCompleted := true }) ⟨rfl, rfl⟩).record id
      simp only [Event.dispatch, Process.completedCb, Partition.completedCb] at run
      split at run
      · simp at run
      · rw [Except.ok.injEq] at run
        exact run ▸ .preparing (hsame.sound sound) (hsame.preparing preparing) huntouched
      · next hcb =>
        have hinit : s.Initializing c := ⟨sound, preparing, (preparing.completionCb _ hcb).2⟩
        exact PartitionManager.processInitCompletionCb_stands zero positive (hinit.same hsame)
          huntouched run
      · next i hcb => exact absurd hcb (preparing.halted.disconnected _ i)
    | _ => exact absurd hundisturbed id

theorem Event.undisturbed_stands {c : Config} {gen : Nat → Nat} {timeout : Option Int}
    {es : List Event} {s : State} (zero : c.ZeroJitter) (positive : c.PositiveLengths)
    (run : Run (UndisturbedStep c) (State.initial c gen timeout) es s) : s.Stands c := by
  refine run.invariant (I := fun s => s.Stands c) (fun _ _ _ h step => h.step zero positive step) ?_
  have hsound := State.initial_sound c gen timeout
  exact .preparing hsound (preparing_of_pending hsound rfl)
    ⟨rfl, fun _ => rfl, fun _ => rfl, fun _ => rfl, fun a ha => by simp [State.initial] at ha⟩

end DemosSched
