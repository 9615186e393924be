import DemosSched.Isolation

/-! Runs from the start of the program: the initialization of the processes, the
scheduling phase, and what a shutdown leaves. -/

namespace DemosSched

open Fallible Relation

/-- What every handler is made of. -/
inductive Turn (c : Config) (ok : Action → Prop) : State → State → Prop
  | change {s s' : State} (h : Change c ok s s') : Turn c ok s s'
  | noted {s : State} (a : Action) (h : a = .initFinished ∨ a = .shutdown) : Turn c ok s (s.record a)
  | killed {s : State} (p : ProcessId) :
      Turn c ok s ((s.setProcess p { s.process p with frozen := false, killed := true }).record
        (.killed p))
  | managed {s : State} (x : PartitionManager) : Turn c ok s (s.setManager x)
  | scheduled {s : State} (x : DemosScheduler) : Turn c ok s (s.setScheduler x)
  | takenOver {s : State} (halted : s.Halted) (fresh : ∀ p, (s.process p).completed = false)
      (k : Nat) (cpus : CpuSet) :
      Turn c ok s { s with
        process := fun p => { s.process p with
          completed := (s.process p).completed && decide (p ∉ c.processIds k) }
        partition := Function.update s.partition k { s.partition k with
          currentProc := 0, currentCpus := cpus, completionCb := .processInit } }
  | thawed {s : State} (halted : s.Halted) (p : ProcessId) :
      Turn c ok s ((s.setProcess p { s.process p with
        frozen := false
        demosCompleted := false
        continueTokens := (s.process p).continueTokens +
          if (s.process p).demosCompleted then 1 else 0 }).record (.initResumed p))
  | suspended {s : State} (halted : s.Halted) (p : ProcessId) :
      Turn c ok s ((s.setProcess p { s.process p with frozen := true }).record (.initSuspended p))
  | disconnected {s : State} (halted : s.Halted) (k : Nat) :
      Turn c ok s (s.setPartition k { s.partition k with completionCb := .ignore })

abbrev Turns (c : Config) (ok : Action → Prop) : State → State → Prop :=
  ReflTransGen (Turn c ok)

namespace Turns

variable {c : Config} {ok : Action → Prop} {s s' : State}

theorem invariant {I : State → Prop} (keeps : ∀ s s', I s → Turn c ok s s' → I s')
    (run : Turns c ok s s') (start : I s) : I s' := by
  induction run with
  | refl => exact start
  | tail _ last ih => exact keeps _ _ ih last

theorem history (run : Turns c ok s s') : s.history <:+ s'.history := by
  induction run with
  | refl => exact List.suffix_rfl
  | tail _ last ih =>
    refine ih.trans ?_
    cases last with
    | change h =>
      cases h with
      | effects run => exact run.history
      | closed run => exact run.history
      | windowArmed | signalled | ended | loopBroken => exact List.suffix_cons _ _
      | _ => exact List.suffix_rfl
    | noted | killed | thawed | suspended => exact List.suffix_cons _ _
    | _ => exact List.suffix_rfl

end Turns

theorem Changes.turns {c : Config} {ok : Action → Prop} {s s' : State}
    (h : Changes c ok s s') : Turns c ok s s' :=
  ReflTransGen.mono (fun _ _ h => Turn.change h) s s' h

theorem Turns.mono {c : Config} {ok ok' : Action → Prop} {s s' : State}
    (h : Turns c ok s s') (sub : ∀ a, ok a → ok' a) : Turns c ok' s s' := by
  refine ReflTransGen.mono (fun s s' h => ?_) s s' h
  cases h with
  | change h => exact .change (h.mono sub)
  | noted a h => exact .noted a h
  | killed p => exact .killed p
  | managed x => exact .managed x
  | scheduled x => exact .scheduled x
  | takenOver halted fresh k cpus => exact .takenOver halted fresh k cpus
  | thawed halted p => exact .thawed halted p
  | suspended halted p => exact .suspended halted p
  | disconnected halted k => exact .disconnected halted k

theorem Turns.of_unheard {c : Config} {ok : Action → Prop} {s s' : State}
    (h : Turns c Action.Unheard s s') : Turns c ok s s' := h.mono fun _ => False.elim

theorem State.flags_setProcess {s : State} {p : ProcessId} {x : Process}
    (hx : x.completed = (s.process p).completed ∧ x.spawned = (s.process p).spawned)
    (q : ProcessId) : ((s.setProcess p x).process q).completed = (s.process q).completed ∧
      ((s.setProcess p x).process q).spawned = (s.process q).spawned :=
  ⟨State.update_field Process.completed hx.1, State.update_field Process.spawned hx.2⟩

theorem State.initial_sound (c : Config) (gen : Nat → Nat) (timeout : Option Int) :
    (State.initial c gen timeout).Sound c :=
  have hhalted : (State.initial c gen timeout).Halted :=
    ⟨fun _ => rfl, fun _ => rfl, fun _ _ => by simp [initial]⟩
  { queues := c.processCount_pos
    window := c.windows_length_pos
    opened := fun _ => rfl
    coherent := hhalted.coherent
    phase := .inl ⟨hhalted, rfl⟩
    started := .inr ⟨hhalted, rfl, by simp [initial], by simp [initial], fun _ => rfl, rfl⟩ }

structure State.SameObjects (s s' : State) : Prop where
  slice : s'.slice = s.slice
  window : s'.window = s.window
  frame : s'.frame = s.frame
  partition : s'.partition = s.partition
  manager : s'.manager = s.manager
  scheduler : s'.scheduler = s.scheduler
  flags : ∀ p, (s'.process p).completed = (s.process p).completed ∧
    (s'.process p).spawned = (s.process p).spawned
  course : s'.course = s.course

namespace State.SameObjects

variable {c : Config} {s s' s'' : State}

theorem signalled (p : ProcessId) (s : State) : s.SameObjects (Process.signalled p s) :=
  ⟨rfl, rfl, rfl, rfl, rfl, rfl, flags_setProcess ⟨rfl, rfl⟩, rfl⟩

theorem trans (h : s.SameObjects s') (h' : s'.SameObjects s'') : s.SameObjects s'' :=
  ⟨h'.slice.trans h.slice, h'.window.trans h.window, h'.frame.trans h.frame,
    h'.partition.trans h.partition, h'.manager.trans h.manager, h'.scheduler.trans h.scheduler,
    fun p => ⟨(h'.flags p).1.trans (h.flags p).1, (h'.flags p).2.trans (h.flags p).2⟩,
    h'.course.trans h.course⟩

theorem halted (h : s.SameObjects s') (hs : s.Halted) : s'.Halted :=
  hs.congr h.slice fun k => by rw [h.partition]

theorem started (h : s.SameObjects s') (hs : s.Started) : s'.Started :=
  ⟨by rw [h.manager]; exact hs.exitCb, by rw [h.partition]; exact hs.completionCb,
    by rw [h.scheduler]; exact hs.startup⟩

theorem preparing (h : s.SameObjects s') (hs : s.Preparing c) : s'.Preparing c :=
  ⟨h.halted hs.halted, by rw [h.frame]; exact hs.unarmed,
    by rw [h.partition, h.scheduler]; exact hs.completionCb,
    by rw [h.manager, h.scheduler]; exact hs.exitCb, fun p => (h.flags p).1.trans (hs.fresh p),
    by rw [h.course]; exact hs.closed⟩

theorem sound (h : s.SameObjects s') (hs : s.Sound c) : s'.Sound c :=
  hs.congr h.slice h.window h.course (by rw [h.frame])
    (fun p hp => by
      simpa only [Process.isPending, Process.isSpawned, (h.flags p).1, (h.flags p).2] using hp)
    (fun k => by rw [h.partition]; exact ⟨rfl, rfl, rfl⟩) (hs.started.imp h.started h.preparing)

end State.SameObjects

structure State.Initializing (c : Config) (s : State) : Prop where
  sound : s.Sound c
  preparing : s.Preparing c
  startup : s.scheduler.startupPending = false

namespace State.Initializing

variable {c : Config} {s s' : State}

theorem congr (h : s.Initializing c) (slice : s'.slice = s.slice) (window : s'.window = s.window)
    (frame : s'.frame = s.frame) (scheduler : s'.scheduler = s.scheduler)
    (cur : ∀ k, (s'.partition k).currentProc < c.processCount k)
    (cb : ∀ k i, (s'.partition k).completionCb ≠ .slice i)
    (inits : ∀ k, (s'.partition k).completionCb = .processInit → k < c.partitions.length)
    (fresh : ∀ p, (s'.process p).completed = false) (course : s'.course = s.course) :
    s'.Initializing c := by
  have hhalted : s'.Halted :=
    ⟨fun i => by rw [slice]; exact h.preparing.halted.idle i,
      fun i => by rw [slice]; exact h.preparing.halted.unarmed i, cb⟩
  have hstartup : s'.scheduler.startupPending = false := by rw [scheduler]; exact h.startup
  have hpreparing : s'.Preparing c :=
    ⟨hhalted, by rw [frame]; exact h.preparing.unarmed, fun k hk => ⟨inits k hk, hstartup⟩,
      fun _ => hstartup, fresh, by rw [course]; exact h.preparing.closed⟩
  exact ⟨⟨cur, by rw [frame]; exact h.sound.window, by rw [window]; exact h.sound.opened,
    hhalted.coherent, .inl ⟨hhalted, hpreparing.closed⟩, .inr hpreparing⟩, hpreparing, hstartup⟩

theorem same (h : s.Initializing c) (hs : s.SameObjects s') : s'.Initializing c :=
  ⟨hs.sound h.sound, hs.preparing h.preparing, by rw [hs.scheduler]; exact h.startup⟩

theorem managed (h : s.Initializing c) (x : PartitionManager) :
    (s.setManager x).Initializing c :=
  h.congr rfl rfl rfl rfl h.sound.queues h.preparing.halted.disconnected
    (fun k hk => (h.preparing.completionCb k hk).1) h.preparing.fresh rfl

end State.Initializing

namespace PartitionManager

variable {c : Config} {s s' : State}

theorem killAll_turns (s : State) :
    Turns c Action.Unheard s (killAll c s) ∧ s.SameObjects (killAll c s) := by
  unfold killAll
  generalize c.allProcessIds = l
  induction l generalizing s with
  | nil => exact ⟨.refl, ⟨rfl, rfl, rfl, rfl, rfl, rfl, fun _ => ⟨rfl, rfl⟩, rfl⟩⟩
  | cons p l ih =>
    have hkill : Turns c Action.Unheard s (Process.kill p s) ∧ s.SameObjects (Process.kill p s) := by
      unfold Process.kill
      split
      · exact ⟨.single (.killed p),
          ⟨rfl, rfl, rfl, rfl, rfl, rfl, State.flags_setProcess ⟨rfl, rfl⟩, rfl⟩⟩
      · exact ⟨.refl, ⟨rfl, rfl, rfl, rfl, rfl, rfl, fun _ => ⟨rfl, rfl⟩, rfl⟩⟩
    obtain ⟨hturns, hsame⟩ := ih (Process.kill p s)
    exact ⟨hkill.1.trans hturns, hkill.2.trans hsame⟩

end PartitionManager

namespace DemosScheduler

variable {c : Config} {s s' : State} {now : Int}

theorem initiateShutdown_sound (h : s.Sound c) (run : initiateShutdown c now s = .ok s') :
    Turns c Action.Unheard s s' ∧ s'.Sound c ∧ s'.Halted ∧ s'.frame.armed = false ∧
      (s.Started → s'.Started) := by
  simp only [initiateShutdown, bind_def, bind_eq_ok, pure_def, Except.ok.injEq] at run
  obtain ⟨s₁, hstop, rfl⟩ := run
  obtain ⟨hchanges, hsound, hhalted, harmed, hstarted⟩ := MajorFrame.stop_sound h hstop
  obtain ⟨hturns, hkilled⟩ := PartitionManager.killAll_turns (c := c) s₁
  have hsame : s₁.SameObjects ((PartitionManager.killAll c s₁).record .shutdown) :=
    hkilled.trans ⟨rfl, rfl, rfl, rfl, rfl, rfl, fun _ => ⟨rfl, rfl⟩, rfl⟩
  exact ⟨(hchanges.turns.trans hturns).tail (.noted _ (.inr rfl)), hsame.sound hsound,
    hsame.halted hhalted, by rw [hsame.frame]; exact harmed,
    fun started => hsame.started (hstarted started)⟩

theorem startScheduler_sound (h : s.Sound c) (halted : s.Halted)
    (closed : s.course.stage = .closed) (started : s.Started)
    (run : startScheduler c now s = .ok s') :
    Turns c Action.Unheard s s' ∧ s'.Sound c ∧ s'.Started := by
  unfold startScheduler at run
  split at run
  · obtain ⟨hturns, hsound, -, -, hstarted⟩ := initiateShutdown_sound h run
    exact ⟨hturns, hsound, hstarted started⟩
  · simp only [bind_def, bind_eq_ok] at run
    obtain ⟨s₁, hstart, run⟩ := run
    obtain ⟨hchanges, hsound, hstarted⟩ := MajorFrame.start_sound h halted closed started hstart
    split at run <;> rw [pure_def, Except.ok.injEq] at run
    · have hstarted' : s'.Started := by
        rw [← run]
        exact ⟨hstarted.exitCb, hstarted.completionCb, hstarted.startup⟩
      subst run
      exact ⟨hchanges.turns.tail (.scheduled _),
        hsound.congr rfl rfl rfl rfl (fun _ => id) (fun _ => ⟨rfl, rfl, rfl⟩) (.inl hstarted'),
        hstarted'⟩
    · exact run ▸ ⟨hchanges.turns, hsound, hstarted⟩

end DemosScheduler

namespace PartitionManager

variable {c : Config} {s s' : State} {now : Int}

theorem disconnectAll_turns (halted : s.Halted) : Turns c Action.Unheard s (disconnectAll c s) := by
  unfold disconnectAll
  generalize List.range c.partitions.length = l
  induction l generalizing s with
  | nil => exact .refl
  | cons k l ih =>
    have hcb : ∀ m i, ((Partition.disconnect k s).partition m).completionCb ≠ .slice i := by
      intro m i
      by_cases hm : m = k
      · subst hm
        simp [Partition.disconnect]
      · simpa [Partition.disconnect, hm] using halted.disconnected m i
    exact .head (.disconnected halted k) (ih ⟨halted.idle, halted.unarmed, hcb⟩)

/-- The state in which `finish_process_init` calls `init_cb`. -/
def initialized (c : Config) (s : State) : State :=
  (disconnectAll c (s.setManager { s.manager with exitCb := .processExit })).record .initFinished

theorem initialized_eq (s : State) : initialized c s = { s with
    partition := fun k => if k < c.partitions.length then
      { s.partition k with completionCb := .ignore } else s.partition k
    manager := { s.manager with exitCb := .processExit }
    history := .initFinished :: s.history } := by
  simp [initialized, disconnectAll, Partition.foldl_disconnect, State.setManager, State.record]

theorem initialized_ready (h : s.Initializing c) :
    Turns c Action.Unheard s (initialized c s) ∧ (initialized c s).Initializing c ∧
      (initialized c s).Started := by
  have h₁ : (s.setManager { s.manager with exitCb := .processExit }).Initializing c := h.managed _
  have hinit : (initialized c s).Initializing c := by
    rw [initialized_eq]
    refine h.congr rfl rfl rfl rfl (fun k => ?_) (fun k i => ?_) (fun k hk => ?_) h.preparing.fresh rfl
    all_goals dsimp only at *
    · split <;> exact h.sound.queues k
    · split
      · simp
      · exact h.preparing.halted.disconnected k i
    · split at hk
      · simp at hk
      · exact (h.preparing.completionCb k hk).1
  refine ⟨?_, hinit, ?_, fun k hk => ?_, hinit.startup⟩
  · exact ((ReflTransGen.single (.managed _)).trans
      (disconnectAll_turns h₁.preparing.halted)).tail (.noted _ (.inl rfl))
  · rw [initialized_eq]
  · have hlt := (hinit.preparing.completionCb k hk).1
    rw [initialized_eq] at hk
    simp [hlt] at hk

theorem finishProcessInit_sound (h : s.Initializing c)
    (run : finishProcessInit c (DemosScheduler.callbacks c now) s = .ok s') :
    Turns c Action.Unheard s s' ∧ s'.Sound c ∧ s'.Started := by
  obtain ⟨hbegin, hinit, hstarted⟩ := initialized_ready h
  obtain ⟨hturns, hsound, hstarted'⟩ := DemosScheduler.startScheduler_sound hinit.sound
    hinit.preparing.halted hinit.preparing.closed hstarted run
  exact ⟨hbegin.trans hturns, hsound, hstarted'⟩

theorem processInitCompletionCb_sound {p : ProcessId} (h : s.Initializing c)
    (run : processInitCompletionCb c (DemosScheduler.callbacks c now) p s = .ok s') :
    Turns c Action.Unheard s s' ∧ s'.Sound c := by
  unfold processInitCompletionCb at run
  have hsuspended : ((Process.suspend p s).record (.initSuspended p)).Initializing c :=
    h.same ⟨rfl, rfl, rfl, rfl, rfl, rfl, State.flags_setProcess ⟨rfl, rfl⟩, rfl⟩
  have hturns : Turns c Action.Unheard s ((Process.suspend p s).record (.initSuspended p)) :=
    .single (.suspended h.preparing.halted p)
  have hcounted := hturns.tail (.managed { s.manager with
    remainingProcessInits := s.manager.remainingProcessInits - 1 })
  dsimp only at run
  split at run
  · obtain ⟨hrest, hsound, -⟩ := finishProcessInit_sound (hsuspended.managed _) run
    exact ⟨hcounted.trans hrest, hsound⟩
  · rw [Except.ok.injEq] at run
    exact run ▸ ⟨hcounted, (hsuspended.managed _).sound⟩

theorem processExitCb_sound {b : Bool} (h : s.Sound c)
    (run : processExitCb c (DemosScheduler.callbacks c now) b s = .ok s') :
    Turns c (· = .loopBroken) s s' ∧ s'.Sound c := by
  unfold processExitCb at run
  split at run
  · rw [Except.ok.injEq] at run
    exact run ▸ ⟨.refl, h⟩
  · split at run
    · obtain ⟨hchanges, hsound, -⟩ := DemosScheduler.completionCb_sound h run
      exact ⟨hchanges.turns, hsound⟩
    · rw [Except.ok.injEq] at run
      exact run ▸ ⟨.refl, h⟩

theorem resetAll_sound (h : s.Initializing c) (run : resetAll c s = .ok s') :
    Turns c Action.Unheard s s' ∧ s'.Initializing c := by
  refine foldlM_keeps (fun s₂ => Turns c Action.Unheard s s₂ ∧ s₂.Initializing c) ?_ ⟨.refl, h⟩ run
  rintro k hk s₂ s₃ ⟨hturns, hinit⟩ hreset
  obtain rfl := Partition.reset_cases c k s₂ hreset
  refine ⟨hturns.tail (.takenOver hinit.preparing.halted hinit.preparing.fresh k _),
    hinit.congr rfl rfl rfl rfl (fun m => ?_) (fun m i => ?_) (fun m hm => ?_)
      (fun p => by simp [hinit.preparing.fresh p]) rfl⟩
  all_goals by_cases hmk : m = k
  · subst hmk
    simpa using c.processCount_pos m
  · simpa [hmk] using hinit.sound.queues m
  · subst hmk
    simp
  · simpa [hmk] using hinit.preparing.halted.disconnected m i
  · exact hmk ▸ List.mem_range.mp hk
  · exact (hinit.preparing.completionCb m (by simpa [hmk] using hm)).1

theorem resumeForInit_sound {p : ProcessId} (h : s.Initializing c)
    (run : resumeForInit p s = .ok s') : Turns c Action.Unheard s s' ∧ s'.Initializing c := by
  unfold resumeForInit Process.resume at run
  dsimp only at run
  split at run
  · rw [Except.ok.injEq] at run
    subst run
    have hmanaged := h.managed { s.manager with
      remainingProcessInits := s.manager.remainingProcessInits + 1 }
    exact ⟨.head (.managed _) (.single (.thawed hmanaged.preparing.halted p)),
      hmanaged.same ⟨rfl, rfl, rfl, rfl, rfl, rfl, State.flags_setProcess ⟨rfl, rfl⟩, rfl⟩⟩
  · simp at run

theorem runProcessInit_sound (h : s.Initializing c)
    (run : runProcessInit c (DemosScheduler.callbacks c now) s = .ok s') :
    Turns c Action.Unheard s s' ∧ s'.Sound c := by
  simp only [runProcessInit, bind_def, bind_eq_ok] at run
  obtain ⟨s₁, hreset, s₂, hresume, run⟩ := run
  obtain ⟨hturns, hinit⟩ := resetAll_sound h hreset
  have hall : Turns c Action.Unheard s s₂ ∧ s₂.Initializing c :=
    foldlM_keeps (fun s₂ => Turns c Action.Unheard s s₂ ∧ s₂.Initializing c)
      (fun p _ s₂ s₃ hs hp =>
        have hnext := resumeForInit_sound hs.2 hp
        ⟨hs.1.trans hnext.1, hnext.2⟩)
      ⟨hturns.tail (.managed _), hinit.managed _⟩ hresume
  split at run
  · obtain ⟨hrest, hsound, -⟩ := finishProcessInit_sound hall.2 run
    exact ⟨hall.1.trans hrest, hsound⟩
  · rw [pure_def, Except.ok.injEq] at run
    exact run ▸ ⟨hall.1, hall.2.sound⟩

end PartitionManager

namespace Event

variable {c : Config} {s s' : State}

theorem ended_fresh (p : ProcessId) (h : ∀ q, (s.process q).completed = false) (q : ProcessId) :
    ((ended c p s).process q).completed = false := by
  by_cases hq : q = p
  · subst hq
    simpa [ended, Partition.updateEmpty] using h q
  · simpa [ended, Partition.updateEmpty, hq] using h q

theorem ended_sound (h : s.Sound c) (p : ProcessId) : (ended c p s).Sound c := by
  refine h.congr rfl rfl rfl rfl (fun q hq => ended_pending (c := c) p q hq) (ended_partition p s)
    (h.started.imp (fun h => ended_started h p) fun h => ?_)
  exact ⟨h.halted.congr rfl fun k => (ended_partition p s k).2.1, h.unarmed,
      fun k hk => h.completionCb k (by rwa [(ended_partition p s k).2.1] at hk), h.exitCb,
      ended_fresh p h.fresh, h.closed⟩

theorem ended_preparing (h : s.Preparing c) (p : ProcessId) : (ended c p s).Preparing c :=
  ⟨h.halted.congr rfl fun k => (ended_partition p s k).2.1, h.unarmed,
    fun k hk => h.completionCb k (by rwa [(ended_partition p s k).2.1] at hk), h.exitCb,
    ended_fresh p h.fresh, h.closed⟩

theorem preparing_of_pending (h : s.Sound c) (pending : s.scheduler.startupPending = true) :
    s.Preparing c :=
  h.started.resolve_left fun hst => by simp [hst.startup] at pending

theorem startup_initializing (h : s.Sound c) (preparing : s.Preparing c) :
    (s.setScheduler { s.scheduler with startupPending := false }).Initializing c :=
  have hp : (s.setScheduler { s.scheduler with startupPending := false }).Preparing c :=
    ⟨preparing.halted.congr rfl fun _ => rfl, preparing.unarmed,
      fun k hk => ⟨(preparing.completionCb k hk).1, rfl⟩, fun _ => rfl, preparing.fresh,
      preparing.closed⟩
  ⟨h.congr rfl rfl rfl rfl (fun _ => id) (fun _ => ⟨rfl, rfl, rfl⟩) (.inr hp), hp, rfl⟩

theorem dispatch_exit_eq (p : ProcessId) (now : Int) (s : State) :
    (exit p now).dispatch c s = (match (ended c p s).manager.exitCb with
      | .processExit => PartitionManager.processExitCb c (DemosScheduler.callbacks c now)
          ((ended c p s).partition p.part).empty (ended c p s)
      | .processInitExit => PartitionManager.processInitExitCb c (DemosScheduler.callbacks c now) p
          ((ended c p s).partition p.part).empty (ended c p s)) := rfl

theorem timedOut_sound (h : s.Sound c) :
    (s.setScheduler { s.scheduler with timeoutArmed := false }).Sound c := by
  refine h.congr rfl rfl rfl rfl (fun _ => id) (fun _ => ⟨rfl, rfl, rfl⟩)
    (h.started.imp (fun h => ?_) fun h => ?_)
  · exact ⟨h.exitCb, h.completionCb, h.startup⟩
  · exact ⟨h.halted.congr rfl fun _ => rfl, h.unarmed, h.completionCb, h.exitCb, h.fresh,
      h.closed⟩

theorem step_turns {e : Event} (h : s.Sound c) (step : Step c s e s') :
    Turns c e.MayLeave (e.received c s) s' ∧ s'.Sound c := by
  obtain ⟨henabled, run⟩ := step
  cases e with
  | windowTimer =>
    have hstarted : s.Started := h.started.resolve_right fun hp => by
      simp only [Enabled] at henabled
      rw [hp.unarmed] at henabled
      simp at henabled
    obtain ⟨hchanges, hsound, -⟩ := step_sound (e := .windowTimer) h hstarted trivial ⟨henabled, run⟩
    exact ⟨hchanges.turns, hsound⟩
  | sliceTimer i =>
    have hstarted : s.Started := h.started.resolve_right fun hp => by
      simp only [Enabled] at henabled
      rw [hp.halted.unarmed i] at henabled
      simp at henabled
    obtain ⟨hchanges, hsound, -⟩ := step_sound (e := .sliceTimer i) h hstarted trivial ⟨henabled, run⟩
    exact ⟨hchanges.turns, hsound⟩
  | startup now =>
    obtain ⟨hturns, hsound⟩ := PartitionManager.runProcessInit_sound
      (startup_initializing h (preparing_of_pending h henabled)) run
    exact ⟨.head (.scheduled _) hturns.of_unheard, hsound⟩
  | signal now =>
    obtain ⟨hturns, hsound, -⟩ := DemosScheduler.initiateShutdown_sound h run
    exact ⟨hturns.of_unheard, hsound⟩
  | userTimeout now =>
    obtain ⟨hturns, hsound, -⟩ := DemosScheduler.initiateShutdown_sound (timedOut_sound h) run
    exact ⟨.head (.scheduled _) hturns.of_unheard, hsound⟩
  | completion p now =>
    rcases h.started with hstarted | hpreparing
    · obtain ⟨hchanges, hsound, -⟩ :=
        step_sound (e := .completion p now) h hstarted trivial ⟨henabled, run⟩
      exact ⟨hchanges.turns, hsound⟩
    · simp only [dispatch, Process.completedCb, Partition.completedCb] at run
      have hsame := State.SameObjects.signalled p s
      split at run
      · simp at run
      · rw [Except.ok.injEq] at run
        exact run ▸ ⟨.refl, hsame.sound h⟩
      · next hcb =>
        have hinit : s.Initializing c := ⟨h, hpreparing, (hpreparing.completionCb _ hcb).2⟩
        obtain ⟨hturns, hsound⟩ :=
          PartitionManager.processInitCompletionCb_sound (hinit.same hsame) run
        exact ⟨hturns.of_unheard, hsound⟩
      · next i hcb => exact absurd hcb (hpreparing.halted.disconnected _ i)
  | exit p now =>
    rcases h.started with hstarted | hpreparing
    · obtain ⟨hchanges, hsound, -⟩ := step_sound (e := .exit p now) h hstarted trivial ⟨henabled, run⟩
      exact ⟨hchanges.turns, hsound⟩
    · rw [dispatch_exit_eq] at run
      have hsound := ended_sound h p
      split at run
      · obtain ⟨hturns, hsound'⟩ := PartitionManager.processExitCb_sound hsound run
        exact ⟨hturns, hsound'⟩
      · next hcb =>
        have hinit : (ended c p s).Initializing c :=
          ⟨hsound, ended_preparing hpreparing p, hpreparing.exitCb hcb⟩
        unfold PartitionManager.processInitExitCb at run
        split at run
        · rw [bind_def, bind_eq_ok] at run
          obtain ⟨s₁, hinitdone, run⟩ := run
          obtain ⟨hturns, hs₁⟩ :=
            PartitionManager.processInitCompletionCb_sound hinit hinitdone
          obtain ⟨hrest, hsound'⟩ := PartitionManager.processExitCb_sound hs₁ run
          exact ⟨hturns.of_unheard.trans hrest, hsound'⟩
        · rw [pure_def, bind_def, bind_ok] at run
          obtain ⟨hrest, hsound'⟩ := PartitionManager.processExitCb_sound hsound run
          exact ⟨hrest, hsound'⟩

/-- The states of the program: the run of events from `setup` on. -/
def Reachable (c : Config) (gen : Nat → Nat) (timeout : Option Int) (es : List Event)
    (s : State) : Prop := Run (Step c) (State.initial c gen timeout) es s

theorem Reachable.sound {gen : Nat → Nat} {timeout : Option Int} {es : List Event}
    (h : Reachable c gen timeout es s) : s.Sound c :=
  h.invariant (I := fun s => s.Sound c) (fun _ _ _ hs step => (step_turns hs step).2)
    (State.initial_sound c gen timeout)

theorem Reachable.started_of_armed {gen : Nat → Nat} {timeout : Option Int} {es : List Event}
    (h : Reachable c gen timeout es s) (armed : s.frame.armed = true) : s.Started :=
  h.sound.started.resolve_right fun hp => by simp [hp.unarmed] at armed

theorem Reachable.turns {gen : Nat → Nat} {timeout : Option Int} {es : List Event}
    (h : Reachable c gen timeout es s) : Turns c (fun _ => True) (State.initial c gen timeout) s := by
  refine (h.invariant
    (I := fun s => s.Sound c ∧ Turns c (fun _ => True) (State.initial c gen timeout) s) ?_
    ⟨State.initial_sound c gen timeout, .refl⟩).2
  rintro s e s' ⟨hsound, hturns⟩ step
  obtain ⟨hnext, hsound'⟩ := step_turns hsound step
  exact ⟨hsound', (hturns.trans (received_changes e s).turns).trans
    (hnext.mono fun _ _ => trivial)⟩

theorem play_reachable {gen : Nat → Nat} {timeout : Option Int} {es : List Event}
    (h : play c (fun _ _ => True) es (State.initial c gen timeout) = some s) :
    Reachable c gen timeout es s := (play_run c h).mono fun _ _ _ step => step.2

end Event

end DemosSched
