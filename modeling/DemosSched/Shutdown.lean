import DemosSched.Runs

/-! What follows a shutdown. The scheduler stays at rest once it has been
initialized; a shutdown asked for earlier lets the initialization run on, and
its end starts the first window. -/

namespace DemosSched

open Fallible Relation

def Action.Schedules : Action → Prop
  | .windowStarted _ _ | .beStarted _ _ | .entered _ _ _ _ | .drawn _ _ | .skipped _ _ => True
  | .started _ _ _ _ | .stopped _ _ _ _ | .shortened _ _ | .windowArmed _ => True
  | _ => False

instance (a : Action) : Decidable a.Schedules := by
  cases a <;> unfold Action.Schedules <;> infer_instance

section Records

variable {c : Config} {w : Nat} {t : Int} {s s' : State}

def Action.InWindow (a : Action) : Prop :=
  a.OfWindow ∨ a.Schedules

theorem Action.InWindow.not_setup {a : Action} (ha : a.InWindow) : ¬a.OfSetup := by
  cases a <;> first | exact id | exact (ha.elim id id).elim

theorem Slice.Selected.grows {i : SliceId} {p : ProcessId} {b : Int}
    (selected : Slice.Selected c w i p b s s') : s.Grows Action.InWindow s' := by
  rcases selected.drew_or_same with rfl | rfl
  · exact .same rfl
  · exact .one (a := .drawn p _) (.inr trivial) rfl

theorem Effect.grows (h : Effect c w t s s') : s.Grows Action.InWindow s' := by
  cases h with
  | noted a ha => exact .one (.inl ha) rfl
  | windowSet | sought => exact .same rfl
  | entered first => exact .one (a := .entered _ _ first t) (.inr trivial) rfl
  | @skipped s₁ i p selected => exact selected.grows.cons (a := .skipped i p) (.inr trivial) rfl
  | @launched s₁ i p b selected =>
    exact selected.grows.cons (a := .started i p t b) (.inr trivial) rfl
  | stopped mark => exact .one (a := .stopped _ _ t mark) (.inr trivial) rfl

theorem Closing.grows (h : Closing c w t s s') : s.Grows Action.InWindow s' := by
  cases h with
  | effect e => exact e.grows
  | announced => exact .one (a := .onWindowEnd w) (.inl trivial) rfl
  | @shortened i p r => exact .one (a := .shortened p r) (.inr trivial) rfl
  | stopping | released => exact .same rfl

theorem Closings.grows (h : Closings c w t s s') : s.Grows Action.InWindow s' :=
  h.invariant (I := s.Grows _) (fun _ _ h e => h.trans e.grows) (.same rfl)

theorem Change.grows {ok : Action → Prop} (h : Change c ok s s') : s.Grows (fun a => ¬a.OfSetup) s' := by
  cases h with
  | effects run => exact run.closings.grows.mono fun _ ha => ha.not_setup
  | closed run => exact run.grows.mono fun _ ha => ha.not_setup
  | windowArmed t => exact .one (a := .windowArmed t) id rfl
  | signalled p => exact .one (a := .signalled p) id rfl
  | ended p => exact .one (a := .exited p) id rfl
  | loopBroken => exact .one (a := .loopBroken) id rfl
  | _ => exact .same rfl

theorem Changes.grows {ok : Action → Prop} (h : Changes c ok s s') : s.Grows (fun a => ¬a.OfSetup) s' :=
  h.invariant (I := s.Grows _) (fun _ _ h e => h.trans e.grows) (.same rfl)

end Records

section Resting

variable {c : Config} {s s' : State} {t now : Int}

theorem Window.stop_resting {w : Nat} (halted : s.Halted) (run : stop c w t s = .ok s') :
    s.Grows (fun a => ¬a.Schedules) s' :=
  .one (a := .onWindowEnd w) id (stop_idle halted.idle run).2

theorem MajorFrame.stop_resting (halted : s.Halted) (run : stop c t s = .ok s') :
    s.Grows (fun a => ¬a.Schedules) s' :=
  Window.stop_resting (s := s.setFrame { s.frame with armed := false })
    (halted.congr rfl fun _ => rfl) run

theorem MajorFrame.stop_scheduler (sound : s.Sound c) (run : stop c t s = .ok s') :
    s'.scheduler = s.scheduler := by
  have hframed : (s.setFrame { s.frame with armed := false }).Within c s.frame.currentWin :=
    ⟨sound.coherent.running, sound.coherent.armed, sound.coherent.registered⟩
  exact (Window.stop_halted (s := s.setFrame { s.frame with armed := false }) sound.queues
    hframed run).1.outside.2.2

/-- What a handler leaves that runs nothing: the slices idle and every timer of
the schedule disarmed, as it has found them. -/
structure State.Rests (s s' : State) : Prop where
  halted : s'.Halted
  unarmed : s'.frame.armed = false
  timeout : s'.scheduler.timeout = s.scheduler.timeout
  quiet : s.Grows (fun a => ¬a.Schedules) s'

theorem State.Rests.trans {s'' : State} (h : s.Rests s') (h' : s'.Rests s'') : s.Rests s'' :=
  ⟨h'.halted, h'.unarmed, h'.timeout.trans h.timeout, h.quiet.trans h'.quiet⟩

theorem PartitionManager.killAll_grows (s : State) :
    s.Grows (fun a => ∃ p, a = .killed p) (killAll c s) := by
  unfold killAll
  generalize c.allProcessIds = l
  induction l generalizing s with
  | nil => exact .same rfl
  | cons p l ih =>
    refine State.Grows.trans ?_ (ih (Process.kill p s))
    unfold Process.kill
    split
    · exact .one (a := .killed p) ⟨p, rfl⟩ rfl
    · exact .same rfl

theorem DemosScheduler.initiateShutdown_rests (sound : s.Sound c) (halted : s.Halted)
    (run : initiateShutdown c now s = .ok s') : s.Rests s' := by
  obtain ⟨-, -, hhalted, hunarmed, -⟩ := initiateShutdown_sound sound run
  simp only [initiateShutdown, bind_def, bind_eq_ok, pure_def, Except.ok.injEq] at run
  obtain ⟨s₁, hstop, rfl⟩ := run
  refine ⟨hhalted, hunarmed, ?_, ?_⟩
  · change (PartitionManager.killAll c s₁).scheduler.timeout = _
    rw [(PartitionManager.killAll_turns (c := c) s₁).2.scheduler,
      MajorFrame.stop_scheduler sound hstop]
  · have hkill : s₁.Grows (fun a => ¬a.Schedules) (PartitionManager.killAll c s₁) :=
      (PartitionManager.killAll_grows s₁).mono fun a ⟨p, ha⟩ => ha ▸ id
    exact ((MajorFrame.stop_resting halted hstop).trans hkill).cons (a := .shutdown) id rfl

theorem DemosScheduler.completionCb_rests (sound : s.Sound c) (halted : s.Halted)
    (run : completionCb c now s = .ok s') : s.Rests s' := by
  simp only [completionCb, bind_def, bind_eq_ok, pure_def, Except.ok.injEq] at run
  obtain ⟨s₁, hstop, rfl⟩ := run
  obtain ⟨-, -, hhalted, hunarmed, -⟩ := MajorFrame.stop_sound sound hstop
  refine ⟨hhalted.congr rfl fun _ => rfl, hunarmed, ?_, ?_⟩
  · change s₁.scheduler.timeout = _
    rw [MajorFrame.stop_scheduler sound hstop]
  · exact (MajorFrame.stop_resting halted hstop).cons (a := .loopBroken) id rfl

end Resting

section Initialization

-- the handlers of the initialization, up to what `init_cb` and the completion callback do;
-- `P` relates the states before and after
variable {c : Config} {s s' : State} {now : Int} {P : State → State → Prop}

def Action.OfProcesses : Action → Prop
  | .initResumed _ | .initSuspended _ | .signalled _ | .exited _ => True
  | _ => False

structure InitRel (c : Config) (P : State → State → Prop) : Prop where
  trans : ∀ s m s', P s m → P m s' → P s s'
  quiet : ∀ s s', s'.Preparing c → s'.scheduler = s.scheduler →
    s.Grows Action.OfProcesses s' → P s s'
  finish : ∀ s s' now, s.Initializing c → DemosScheduler.startScheduler c now
    (PartitionManager.initialized c s) = .ok s' → P s s'
  complete : ∀ s m s' now, P s m → m.Sound c → DemosScheduler.completionCb c now m = .ok s' →
    P s s'

namespace PartitionManager

variable (rel : InitRel c P)
include rel

theorem processInitCompletionCb_rel {p : ProcessId} (h : s.Initializing c)
    (run : processInitCompletionCb c (DemosScheduler.callbacks c now) p s = .ok s') : P s s' := by
  unfold processInitCompletionCb at run
  have hcounted : (((Process.suspend p s).record (.initSuspended p)).setManager { s.manager with
      remainingProcessInits := s.manager.remainingProcessInits - 1 }).Initializing c :=
    State.Initializing.managed (s := (Process.suspend p s).record (.initSuspended p))
      (h.same ⟨rfl, rfl, rfl, rfl, rfl, rfl, State.flags_setProcess ⟨rfl, rfl⟩, rfl⟩) _
  have hquiet := rel.quiet s _ hcounted.preparing rfl (.one (a := .initSuspended p) trivial rfl)
  dsimp only at run
  split at run
  · exact rel.trans _ _ _ hquiet (rel.finish _ _ now hcounted run)
  · rw [Except.ok.injEq] at run
    exact run ▸ hquiet

theorem processExitCb_rel {b : Bool} {m : State} (hm : P s m) (h : m.Sound c)
    (run : processExitCb c (DemosScheduler.callbacks c now) b m = .ok s') : P s s' := by
  unfold processExitCb at run
  split at run
  · rw [Except.ok.injEq] at run
    exact run ▸ hm
  · split at run
    · exact rel.complete _ _ _ now hm h run
    · rw [Except.ok.injEq] at run
      exact run ▸ hm

theorem runProcessInit_rel (h : s.Initializing c)
    (run : runProcessInit c (DemosScheduler.callbacks c now) s = .ok s') : P s s' := by
  simp only [runProcessInit, bind_def, bind_eq_ok] at run
  obtain ⟨s₁, hreset, s₂, hresume, run⟩ := run
  have hfirst : s₁.Initializing c ∧ s₁.history = s.history ∧ s₁.scheduler = s.scheduler := by
    refine ⟨(resetAll_sound h hreset).2, foldlM_keeps (fun s₂ => s₂.history = s.history ∧
      s₂.scheduler = s.scheduler) ?_ ⟨rfl, rfl⟩ hreset⟩
    rintro k - s₂ s₃ hs hk
    obtain rfl := Partition.reset_cases c k s₂ hk
    exact hs
  have hbegin : (s₁.setManager { s₁.manager with exitCb := .processInitExit }).Initializing c :=
    hfirst.1.managed _
  have hall : s₂.Initializing c ∧ s₂.scheduler = s.scheduler ∧ s.Grows Action.OfProcesses s₂ := by
    refine foldlM_keeps (fun s₂ => s₂.Initializing c ∧ s₂.scheduler = s.scheduler ∧
      s.Grows Action.OfProcesses s₂) ?_ ?_ hresume
    swap
    · exact ⟨hbegin, hfirst.2.2, .same hfirst.2.1⟩
    rintro p - s₂ s₃ ⟨hinit, hscheduler, hgrows⟩ hp
    refine ⟨(resumeForInit_sound hinit hp).2, ?_⟩
    unfold resumeForInit Process.resume at hp
    dsimp only at hp
    split at hp
    · rw [Except.ok.injEq] at hp
      subst hp
      exact ⟨hscheduler, hgrows.cons (a := .initResumed p) trivial rfl⟩
    · simp at hp
  have hquiet := rel.quiet s s₂ hall.1.preparing hall.2.1 hall.2.2
  split at run
  · exact rel.trans _ _ _ hquiet (rel.finish _ _ now hall.1 run)
  · rw [pure_def, Except.ok.injEq] at run
    exact run ▸ hquiet

end PartitionManager

namespace Event

variable (rel : InitRel c P)
include rel

theorem startup_rel (sound : s.Sound c) (preparing : s.Preparing c)
    (run : (startup now).dispatch c s = .ok s') :
    P (s.setScheduler { s.scheduler with startupPending := false }) s' :=
  PartitionManager.runProcessInit_rel rel (startup_initializing sound preparing) run

theorem completion_rel {p : ProcessId} (sound : s.Sound c) (preparing : s.Preparing c)
    (run : (completion p now).dispatch c s = .ok s') : P s s' := by
  have hsame : s.SameObjects ((s.setProcess p { s.process p with demosCompleted := true }).record
      (.signalled p)) := ⟨rfl, rfl, rfl, rfl, rfl, rfl,
    State.flags_setProcess ⟨rfl, rfl⟩, rfl⟩
  have hquiet := rel.quiet s _ (hsame.preparing preparing) rfl
    (.one (a := .signalled p) trivial rfl)
  simp only [dispatch, Process.completedCb, Partition.completedCb] at run
  split at run
  · simp at run
  · rw [Except.ok.injEq] at run
    exact run ▸ hquiet
  · next hcb =>
    have hinit : s.Initializing c := ⟨sound, preparing, (preparing.completionCb _ hcb).2⟩
    exact rel.trans _ _ _ hquiet
      (PartitionManager.processInitCompletionCb_rel rel (hinit.same hsame) run)
  · next i hcb => exact absurd hcb (preparing.halted.disconnected _ i)

theorem exit_rel {p : ProcessId} (sound : s.Sound c) (preparing : s.Preparing c)
    (run : (exit p now).dispatch c s = .ok s') : P s s' := by
  have hpreparing := ended_preparing preparing p
  have hquiet := rel.quiet s _ hpreparing rfl (.one (a := .exited p) trivial rfl)
  rw [dispatch_exit_eq] at run
  split at run
  · exact PartitionManager.processExitCb_rel rel hquiet (ended_sound sound p) run
  · next hcb =>
    have hinit : (ended c p s).Initializing c :=
      ⟨ended_sound sound p, hpreparing, preparing.exitCb hcb⟩
    unfold PartitionManager.processInitExitCb at run
    split at run
    · rw [bind_def, bind_eq_ok] at run
      obtain ⟨s₁, hdone, run⟩ := run
      exact PartitionManager.processExitCb_rel rel
        (rel.trans _ _ _ hquiet (PartitionManager.processInitCompletionCb_rel rel hinit hdone))
        (PartitionManager.processInitCompletionCb_sound hinit hdone).2 run
    · rw [pure_def, bind_def, bind_ok] at run
      exact PartitionManager.processExitCb_rel rel hquiet hinit.sound run

end Event

end Initialization

/-- A stop signal, or the expiry of the timeout the user has set. -/
def Event.StopRequest : Event → Prop
  | .signal _ | .userTimeout _ => True
  | _ => False

instance (e : Event) : Decidable e.StopRequest :=
  match e with
  | .signal _ | .userTimeout _ => .isTrue trivial
  | .startup _ | .windowTimer | .sliceTimer _ | .completion _ _ | .exit _ _ => .isFalse id

/-- The initialization is over, or its end will not start the scheduler. -/
def State.Final (s : State) : Prop := s.Started ∨ s.scheduler.timeout = some 0

structure State.Down (c : Config) (s : State) : Prop where
  sound : s.Sound c
  halted : s.Halted
  unarmed : s.frame.armed = false
  final : s.Final

section Down

variable {c : Config} {s s' : State} {now : Int}

theorem rests_initRel :
    InitRel c (fun a b => a.scheduler.timeout = some 0 → a.Rests b) where
  trans a m b h h' ha := by
    have hm := h ha
    exact hm.trans (h' (hm.timeout.trans ha))
  quiet a b hb hscheduler hgrows _ :=
    ⟨hb.halted, hb.unarmed, by rw [hscheduler], hgrows.mono fun x hx => by
      cases x <;> first | exact absurd hx id | exact id⟩
  finish a b now ha run hzero := by
    obtain ⟨-, hinit, -⟩ := PartitionManager.initialized_ready ha
    have htimeout : (PartitionManager.initialized c a).scheduler.timeout = some 0 := by
      rw [PartitionManager.initialized_eq]
      exact hzero
    rw [DemosScheduler.startScheduler, if_pos htimeout] at run
    have hrests := DemosScheduler.initiateShutdown_rests hinit.sound hinit.preparing.halted run
    refine ⟨hrests.halted, hrests.unarmed, hrests.timeout.trans (htimeout.trans hzero.symm), ?_⟩
    exact (State.Grows.one (a := .initFinished) id
      (by rw [PartitionManager.initialized_eq])).trans hrests.quiet
  complete a m b now h hsound run hzero := by
    have hm := h hzero
    exact hm.trans (DemosScheduler.completionCb_rests hsound hm.halted run)

theorem Event.started_rests {e : Event} (h : s.Down c) (started : s.Started)
    (step : Step c s e s') : s'.Started ∧ s.Rests s' := by
  obtain ⟨henabled, run⟩ := step
  cases e with
  | startup now =>
    simp only [Enabled, started.startup] at henabled
    simp at henabled
  | windowTimer =>
    simp only [Enabled, h.unarmed] at henabled
    simp at henabled
  | sliceTimer i =>
    simp only [Enabled, h.halted.unarmed i] at henabled
    simp at henabled
  | completion p now =>
    refine ⟨(step_sound h.sound started (e := .completion p now) trivial ⟨henabled, run⟩).2.2, ?_⟩
    simp only [dispatch, Process.completedCb, Partition.completedCb] at run
    split at run
    · simp at run
    · rw [Except.ok.injEq] at run
      subst run
      exact ⟨h.halted.congr rfl fun _ => rfl, h.unarmed, rfl, .one (a := .signalled p) id rfl⟩
    · next hcb => exact absurd hcb (started.completionCb _)
    · next i hcb => exact absurd hcb (h.halted.disconnected _ i)
  | exit p now =>
    refine ⟨(step_sound h.sound started (e := .exit p now) trivial ⟨henabled, run⟩).2.2, ?_⟩
    have hended : s.Rests (ended c p s) :=
      ⟨h.halted.congr rfl fun k => (ended_partition p s k).2.1, h.unarmed, rfl,
        .one (a := .exited p) id rfl⟩
    have hexitCb : (ended c p s).manager.exitCb = .processExit := started.exitCb
    rw [dispatch_exit hexitCb] at run
    unfold PartitionManager.processExitCb at run
    split at run
    · rw [Except.ok.injEq] at run
      exact run ▸ hended
    · split at run
      · exact hended.trans
          (DemosScheduler.completionCb_rests (ended_sound h.sound p) hended.halted run)
      · rw [Except.ok.injEq] at run
        exact run ▸ hended
  | signal now =>
    obtain ⟨-, -, -, -, hstarted⟩ := DemosScheduler.initiateShutdown_sound h.sound run
    exact ⟨hstarted started, DemosScheduler.initiateShutdown_rests h.sound h.halted run⟩
  | userTimeout now =>
    have hstarted : (s.setScheduler { s.scheduler with timeoutArmed := false }).Started :=
      ⟨started.exitCb, started.completionCb, started.startup⟩
    have hsound := timedOut_sound h.sound
    have hrests := DemosScheduler.initiateShutdown_rests hsound
      (h.halted.congr rfl fun _ => rfl) run
    obtain ⟨-, -, -, -, hkeeps⟩ := DemosScheduler.initiateShutdown_sound hsound run
    exact ⟨hkeeps hstarted, hrests.halted, hrests.unarmed, hrests.timeout, hrests.quiet⟩

theorem Event.preparing_rests {e : Event} (h : s.Sound c) (preparing : s.Preparing c)
    (zero : s.scheduler.timeout = some 0) (step : Step c s e s') : s.Rests s' := by
  obtain ⟨henabled, run⟩ := step
  cases e with
  | startup now =>
    have hrests := startup_rel rests_initRel h preparing run zero
    exact ⟨hrests.halted, hrests.unarmed, hrests.timeout, hrests.quiet⟩
  | windowTimer =>
    simp only [Enabled, preparing.unarmed] at henabled
    simp at henabled
  | sliceTimer i =>
    simp only [Enabled, preparing.halted.unarmed i] at henabled
    simp at henabled
  | completion p now => exact completion_rel rests_initRel h preparing run zero
  | exit p now => exact exit_rel rests_initRel h preparing run zero
  | signal now => exact DemosScheduler.initiateShutdown_rests h preparing.halted run
  | userTimeout now =>
    have hrests := DemosScheduler.initiateShutdown_rests (timedOut_sound h)
      (preparing.halted.congr rfl fun _ => rfl) run
    exact ⟨hrests.halted, hrests.unarmed, hrests.timeout, hrests.quiet⟩

theorem State.Down.step {e : Event} (h : s.Down c) (step : Event.Step c s e s') :
    s'.Down c ∧ s.Grows (fun a => ¬a.Schedules) s' := by
  have hsound := (Event.step_turns h.sound step).2
  by_cases hstarted : s.Started
  · obtain ⟨hstarted', hrests⟩ := Event.started_rests h hstarted step
    exact ⟨⟨hsound, hrests.halted, hrests.unarmed, .inl hstarted'⟩, hrests.quiet⟩
  · have hzero := h.final.resolve_left hstarted
    have hrests := Event.preparing_rests h.sound (h.sound.started.resolve_left hstarted) hzero step
    exact ⟨⟨hsound, hrests.halted, hrests.unarmed, .inr (hrests.timeout.trans hzero)⟩,
      hrests.quiet⟩

end Down

section Before

variable {c : Config} {s s' : State} {now : Int}

theorem Changes.timeout {ok : Action → Prop} (h : Changes c ok s s') :
    s'.scheduler.timeout = s.scheduler.timeout := by
  refine h.invariant (I := fun m => m.scheduler.timeout = s.scheduler.timeout)
    (fun a b ha hab => ?_) rfl
  rw [← ha]
  cases hab with
  | effects run => rw [run.outside.2.2]
  | closed run => rw [run.outside.2.2]
  | _ => rfl

def State.Upright (s s' : State) : Prop :=
  s.scheduler.timeout ≠ some 0 → s'.scheduler.timeout ≠ some 0 ∧ s.Grows (· ≠ .shutdown) s'

theorem Changes.upright {ok : Action → Prop} (h : Changes c ok s s') : s.Upright s' := fun hs =>
  ⟨by rw [h.timeout]; exact hs, h.grows.mono fun a ha e => ha (e ▸ trivial)⟩

theorem State.Upright.trans {m : State} (h : s.Upright m) (h' : m.Upright s') : s.Upright s' :=
  fun hs => ⟨(h' (h hs).1).1, (h hs).2.trans (h' (h hs).1).2⟩

theorem upright_initRel : InitRel c State.Upright where
  trans _ _ _ := State.Upright.trans
  quiet a b _ hscheduler hgrows ha :=
    ⟨by rw [hscheduler]; exact ha, hgrows.mono fun x hx e => by subst e; exact hx⟩
  finish a b now ha run hnonzero := by
    obtain ⟨-, hinit, hstarted⟩ := PartitionManager.initialized_ready ha
    have hinitialized : a.Upright (PartitionManager.initialized c a) := fun _ =>
      ⟨by rw [PartitionManager.initialized_eq]; exact hnonzero,
        .one (a := .initFinished) (by simp) (by rw [PartitionManager.initialized_eq])⟩
    rw [DemosScheduler.startScheduler, if_neg (hinitialized hnonzero).1] at run
    simp only [bind_def, bind_eq_ok] at run
    obtain ⟨m, hstart, run⟩ := run
    have hm := hinitialized.trans
      (MajorFrame.start_sound hinit.sound hinit.preparing.halted hinit.preparing.closed hstarted
        hstart).1.upright hnonzero
    split at run <;> rw [pure_def, Except.ok.injEq] at run
    · subst run
      exact ⟨by simp, hm.2⟩
    · exact run ▸ hm
  complete _ _ _ _ h hsound run :=
    h.trans (DemosScheduler.completionCb_sound hsound run).1.upright

theorem Event.step_upright {e : Event} (h : s.Sound c) (norequest : ¬e.StopRequest)
    (step : Step c s e s') : s.Upright s' := by
  by_cases hscheduling : s.Started ∧ e.Scheduling
  · exact (step_changes h hscheduling.1 hscheduling.2 step).upright
  · obtain ⟨henabled, run⟩ := step
    have hpreparing (he : e.Scheduling) : s.Preparing c :=
      h.started.resolve_left fun hs => hscheduling ⟨hs, he⟩
    cases e with
    | signal | userTimeout => exact absurd trivial norequest
    | startup now => exact startup_rel upright_initRel h (preparing_of_pending h henabled) run
    | completion p now => exact completion_rel upright_initRel h (hpreparing trivial) run
    | exit p now => exact exit_rel upright_initRel h (hpreparing trivial) run
    | windowTimer =>
      simp only [Enabled, (hpreparing trivial).unarmed] at henabled
      simp at henabled
    | sliceTimer i =>
      simp only [Enabled, (hpreparing trivial).halted.unarmed i] at henabled
      simp at henabled

end Before

def Action.QuietAfterShutdown (history : List Action) : Prop :=
  ∀ newer older, history = newer ++ .shutdown :: older → ∀ a ∈ newer, ¬a.Schedules

theorem Action.QuietAfterShutdown.grows {s s' : State} (h : QuietAfterShutdown s.history)
    (grows : s.Grows (fun a => ¬a.Schedules) s') : QuietAfterShutdown s'.history := by
  obtain ⟨new, hnew, hquiet⟩ := grows
  intro newer older heq a ha
  rw [hnew] at heq
  rcases List.append_eq_append_iff.mp heq with ⟨mid, rfl, hmid⟩ | ⟨mid, rfl, -⟩
  · rcases List.mem_append.mp ha with ha | ha
    · exact hquiet a ha
    · exact h mid older hmid a ha
  · exact hquiet a (List.mem_append_left _ ha)

/-- A stop is requested only when the initialization is over or its end would
not start the scheduler. -/
def Event.Timely (s : State) (e : Event) : Prop := e.StopRequest → s.Final

section Final

variable {c : Config} {s s' : State} {now : Int}

theorem DemosScheduler.initiateShutdown_down (sound : s.Sound c) (started : s.Started)
    (none : .shutdown ∉ s.history) (run : initiateShutdown c now s = .ok s') :
    s'.Down c ∧ Action.QuietAfterShutdown s'.history := by
  obtain ⟨-, hsound, hhalted, hunarmed, hstarted⟩ := initiateShutdown_sound sound run
  refine ⟨⟨hsound, hhalted, hunarmed, .inl (hstarted started)⟩, ?_⟩
  simp only [initiateShutdown, bind_def, bind_eq_ok, pure_def, Except.ok.injEq] at run
  obtain ⟨s₁, hstop, rfl⟩ := run
  have hstopped : s.Grows (· ≠ .shutdown) s₁ :=
    (MajorFrame.stop_sound sound hstop).1.grows.mono fun a ha e => ha (e ▸ trivial)
  have hkilled : s.Grows (· ≠ .shutdown) (PartitionManager.killAll c s₁) :=
    hstopped.trans ((PartitionManager.killAll_grows s₁).mono fun a ⟨p, ha⟩ => by simp [ha])
  have hnone := hkilled.notMem (a := .shutdown) (by simp) none
  intro newer older heq a ha
  cases newer with
  | nil => simp at ha
  | cons b newer =>
    rw [State.record_history, List.cons_append, List.cons.injEq] at heq
    exact absurd (by simp [heq.2]) hnone

/-- Once `initiate_shutdown` has run, nothing is scheduled any more, in every run
in which no stop is requested too early. -/
theorem shutdown_final {gen : Nat → Nat} {timeout : Option Int} {es : List Event}
    (run : Run (fun s e s' => e.Timely s ∧ Event.Step c s e s') (State.initial c gen timeout)
      es s) :
    (.shutdown ∈ s.history → s.Halted ∧ s.frame.armed = false) ∧
      Action.QuietAfterShutdown s.history := by
  have hall : s.Sound c ∧ (s.Down c ∧ Action.QuietAfterShutdown s.history ∨
      s.scheduler.timeout ≠ some 0 ∧ .shutdown ∉ s.history) := by
    refine run.invariant (I := fun s => s.Sound c ∧ (s.Down c ∧
      Action.QuietAfterShutdown s.history ∨
        s.scheduler.timeout ≠ some 0 ∧ .shutdown ∉ s.history)) ?_
      ⟨State.initial_sound c gen timeout, ?_⟩
    · rintro s e s' ⟨hsound, hcase⟩ ⟨htimely, hstep⟩
      refine ⟨(Event.step_turns hsound hstep).2, ?_⟩
      rcases hcase with ⟨hdown, hquiet⟩ | ⟨hnonzero, hnone⟩
      · obtain ⟨hdown', hgrows⟩ := hdown.step hstep
        exact .inl ⟨hdown', hquiet.grows hgrows⟩
      · by_cases hrequest : e.StopRequest
        · have hstarted := (htimely hrequest).resolve_right hnonzero
          refine .inl ?_
          cases e with
          | signal now => exact DemosScheduler.initiateShutdown_down hsound hstarted hnone hstep.2
          | userTimeout now =>
            have hstarted' : (s.setScheduler { s.scheduler with timeoutArmed := false }).Started :=
              ⟨hstarted.exitCb, hstarted.completionCb, hstarted.startup⟩
            have hfired : (s.setScheduler { s.scheduler with timeoutArmed := false }).Sound c :=
              hsound.congr rfl rfl rfl rfl (fun _ => id) (fun _ => ⟨rfl, rfl, rfl⟩)
                (.inl hstarted')
            exact DemosScheduler.initiateShutdown_down hfired hstarted' hnone hstep.2
          | _ => exact absurd hrequest id
        · obtain ⟨hnonzero', hgrows⟩ := Event.step_upright hsound hrequest hstep hnonzero
          exact .inr ⟨hnonzero', hgrows.notMem (by simp) hnone⟩
    · by_cases hzero : timeout = some 0
      · refine .inl ⟨⟨State.initial_sound c gen timeout,
          ⟨fun _ => rfl, fun _ => rfl, fun _ _ => by simp [State.initial]⟩, rfl, .inr hzero⟩, ?_⟩
        intro newer older heq
        simp [State.initial] at heq
      · exact .inr ⟨hzero, by simp [State.initial]⟩
  obtain ⟨-, ⟨hdown, hquiet⟩ | ⟨-, hnone⟩⟩ := hall
  · exact ⟨fun _ => ⟨hdown.halted, hdown.unarmed⟩, hquiet⟩
  · refine ⟨fun hmem => absurd hmem hnone, fun newer older heq => ?_⟩
    exact absurd (by simp [heq]) hnone

end Final

/-- A signal arrives while the second process is initializing; when that process
is gone, the first window starts and the other process is resumed. -/
theorem early_signal_restarts :
    ¬∀ (c : Config) (gen : Nat → Nat) (timeout : Option Int) (es : List Event) (s : State),
      Event.Reachable c gen timeout es s → s.scheduler.loopBroken = false →
      (.shutdown ∈ s.history → s.Halted ∧ s.frame.armed = false) ∧
        Action.QuietAfterShutdown s.history := by
  intro hclaim
  have hrun : ((Event.play .twoInits (fun _ _ => True)
      [.startup 0, .completion ⟨0, 0⟩ 0, .signal 1000000, .exit ⟨0, 1⟩ 2000000]
      (State.initial .twoInits (fun _ => 0) none)).map fun s =>
        (s.scheduler.loopBroken, s.frame.armed, (s.process ⟨0, 0⟩).frozen,
          decide (.shutdown ∈ s.history))) = some (false, true, false, true) := by decide
  obtain ⟨s, hplay, hs⟩ := Option.map_eq_some_iff.mp hrun
  simp only [Prod.mk.injEq, decide_eq_true_eq] at hs
  obtain ⟨hloop, harmed, -, hmem⟩ := hs
  have hunarmed := ((hclaim _ _ _ _ s (Event.play_reachable hplay) hloop).1 hmem).2
  simp [harmed] at hunarmed

theorem shutdown_final_twoInits :
    ∃ s : State, .shutdown ∈ s.history ∧ s.Halted ∧ s.frame.armed = false ∧
      Action.QuietAfterShutdown s.history := by
  have hrun : ((Event.play .twoInits (fun _ e => ¬e.StopRequest)
      [.startup 0, .completion ⟨0, 0⟩ 0, .completion ⟨0, 1⟩ 1000000]
      (State.initial .twoInits (fun _ => 0) none)).map fun s =>
        (s.frame.armed, (Event.dispatch .twoInits (.signal 2000000) s).toOption.map fun s' =>
          decide (.shutdown ∈ s'.history))) = some (true, some true) := by decide
  obtain ⟨s, hplay, hs⟩ := Option.map_eq_some_iff.mp hrun
  obtain ⟨harmed, hshutdown⟩ := Prod.mk.inj hs
  obtain ⟨s', hs', hmem⟩ := Option.map_eq_some_iff.mp hshutdown
  have hplayed := Event.play_run _ hplay
  have hreach : Event.Reachable .twoInits (fun _ => 0) none _ s :=
    hplayed.mono fun _ _ _ step => step.2
  have hbefore : Run (fun s e s' => e.Timely s ∧ Event.Step .twoInits s e s')
      (State.initial .twoInits (fun _ => 0) none) _ s :=
    hplayed.mono fun _ _ _ step => ⟨fun hrequest => absurd hrequest step.1, step.2⟩
  have hsignal : Event.Step .twoInits s (.signal 2000000) s' :=
    ⟨trivial, toOption_eq_some.mp hs'⟩
  obtain ⟨hrests, hquiet⟩ := shutdown_final
    (hbefore.snoc ⟨fun _ => .inl (hreach.started_of_armed harmed), hsignal⟩)
  have hmem := of_decide_eq_true hmem
  exact ⟨s', hmem, (hrests hmem).1, (hrests hmem).2, hquiet⟩

end DemosSched
