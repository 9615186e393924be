import DemosSched.Freezer
import DemosSched.Shutdown
import Mathlib.Data.List.Perm.Subperm

/-! The initialization barrier. `remaining_process_inits` counts reports, not the
processes that report: `init_cb` is called at the right moment exactly when the
first reports, as many as there are processes to initialize, come from as many
different ones. -/

namespace DemosSched

open Fallible Relation PartitionManager

theorem covers_iff_nodup {α : Type*} {l r : List α} (hl : l.Nodup) (length : r.length = l.length) :
    (∀ a ∈ l, a ∈ r) ↔ r.Nodup ∧ ∀ a ∈ r, a ∈ l := by
  constructor
  · intro h
    have hperm := (List.subperm_of_subset hl h).perm_of_length_le length.le
    exact ⟨hperm.nodup_iff.mp hl, fun a ha => hperm.mem_iff.mpr ha⟩
  · rintro ⟨hr, h⟩ a ha
    have hperm := (List.subperm_of_subset hr h).perm_of_length_le length.ge
    exact hperm.mem_iff.mpr ha

section Reports

variable (c : Config)

def Event.report : Event → Option ProcessId
  | .completion p _ => some p
  | .exit p _ => if (c.process p).hasInitialization then some p else none
  | _ => none

def Event.reports (es : List Event) : List ProcessId := es.filterMap (report c)

/-- The first reports, one for each process that needs initialization, come from
different ones of these processes. -/
def Event.Orderly (es : List Event) : Prop :=
  (initProcessIds c).length ≤ (reports c es).length →
    ((reports c es).take (initProcessIds c).length).Nodup ∧
      ∀ p ∈ (reports c es).take (initProcessIds c).length, p ∈ initProcessIds c

instance (es : List Event) : Decidable (Event.Orderly c es) :=
  inferInstanceAs (Decidable (_ → _ ∧ _))

namespace Action

def Reported (p : ProcessId) (h : List Action) : Prop := .signalled p ∈ h ∨ .exited p ∈ h

instance (p : ProcessId) (h : List Action) : Decidable (Reported p h) :=
  inferInstanceAs (Decidable (_ ∨ _))

/-- `init_cb` is called once, when every process that needs initialization has
reported and not before, and every process is suspended then. -/
structure Barrier (h : List Action) : Prop where
  once : h.count .initFinished ≤ 1
  called_iff : .initFinished ∈ h ↔ ∀ p ∈ initProcessIds c, Reported p h
  moment : ∀ newer older, h = newer ++ .initFinished :: older →
    (∀ p ∈ initProcessIds c, Reported p older) ∧ ∀ p, c.ValidProcess p → frozen p older = true

/-- A history in which `reports` have been made and `init_cb` has not been called. -/
structure Tally (reports : List ProcessId) (h : List Action) : Prop where
  uncalled : .initFinished ∉ h
  reported : ∀ p ∈ initProcessIds c, Reported p h ↔ p ∈ reports
  frozen : ∀ p, c.ValidProcess p →
    (Action.frozen p h = true ↔ (p ∈ initProcessIds c → p ∈ reports))

variable {c}

theorem Reported.grows {p : ProcessId} {newer older : List Action} (h : Reported p older) :
    Reported p (newer ++ older) :=
  h.imp (List.mem_append_right _) (List.mem_append_right _)

theorem frozen_resumed (p : ProcessId) (l : List ProcessId) :
    frozen p (l.map initResumed) = decide (p ∉ l) := by
  induction l with
  | nil => rfl
  | cons q l ih =>
    by_cases hq : q = p
    · simp [frozen, freezes, hq]
    · simp [frozen, freezes, hq, Ne.symm hq, ih]

theorem Tally.report {reports : List ProcessId} {h : List Action} {p : ProcessId} {a : Action}
    (tally : Tally c reports h) (ha : a = .signalled p ∨ a = .exited p) :
    Tally c (reports ++ [p]) (.initSuspended p :: a :: h) where
  uncalled := by rcases ha with rfl | rfl <;> simpa using tally.uncalled
  reported q hq := by
    have hold := tally.reported q hq
    unfold Reported at hold ⊢
    rcases ha with rfl | rfl <;> simp only [List.mem_cons, List.mem_append, ← hold] <;> grind
  frozen q hq := by
    have hold := tally.frozen q hq
    have hwrite : Action.frozen q (.initSuspended p :: a :: h) =
        if p = q then true else Action.frozen q h := by
      rcases ha with rfl | rfl <;> by_cases hpq : p = q <;> simp [Action.frozen, freezes, hpq]
    rw [hwrite]
    by_cases hpq : p = q
    · simp [hpq]
    · simp [hpq, hold, Ne.symm hpq]

theorem Tally.exit {reports : List ProcessId} {h : List Action} {p : ProcessId}
    (tally : Tally c reports h) (hp : p ∉ initProcessIds c) : Tally c reports (.exited p :: h) where
  uncalled := by simpa using tally.uncalled
  reported q hq := by
    have hne : q ≠ p := fun e => hp (e ▸ hq)
    simpa [Reported, hne] using tally.reported q hq
  frozen q hq := tally.frozen q hq

end Action

end Reports

theorem Config.allProcessIds_nodup (c : Config) : c.allProcessIds.Nodup := by
  unfold allProcessIds
  rw [List.nodup_flatMap]
  refine ⟨fun k _ => List.nodup_range.map fun _ _ e => by simpa using e,
    List.nodup_range.imp fun {j k} hjk p hj hk => hjk ?_⟩
  rw [← (c.mem_processIds.mp hj).1, (c.mem_processIds.mp hk).1]

theorem PartitionManager.initProcessIds_nodup (c : Config) : (initProcessIds c).Nodup :=
  c.allProcessIds_nodup.filter _

theorem PartitionManager.mem_initProcessIds {c : Config} {p : ProcessId} :
    p ∈ initProcessIds c ↔ c.ValidProcess p ∧ (c.process p).hasInitialization = true := by
  rw [initProcessIds, List.mem_filter, c.mem_allProcessIds]

structure State.Awaiting (c : Config) (reports : List ProcessId) (s : State) : Prop where
  initializing : s.Initializing c
  exitCb : s.manager.exitCb = .processInitExit
  completionCb : ∀ k < c.partitions.length, (s.partition k).completionCb = .processInit
  remaining : s.manager.remainingProcessInits + reports.length = (initProcessIds c).length
  few : reports.length < (initProcessIds c).length
  tally : Action.Tally c reports s.history
  gone : ∀ p ∈ initProcessIds c, (s.process p).spawned = false → p ∈ reports
  empty : ∀ k, (s.partition k).empty = true → ∀ p ∈ c.processIds k, (s.process p).spawned = false

structure State.Called (c : Config) (reports : List ProcessId) (s : State) : Prop where
  started : s.Started
  enough : (initProcessIds c).length ≤ reports.length
  log : ∃ newer older, s.history = newer ++ .initFinished :: older ∧ .initFinished ∉ newer ∧
    Action.Tally c (reports.take (initProcessIds c).length) older

theorem State.Called.grows {c : Config} {reports more : List ProcessId} {s s' : State}
    (h : s.Called c reports) (started : s'.Started) (grows : s.Grows (· ≠ .initFinished) s') :
    s'.Called c (reports ++ more) := by
  obtain ⟨newer, older, heq, hnewer, htally⟩ := h.log
  obtain ⟨new, hnew, hno⟩ := grows
  refine ⟨started, by have := h.enough; simp; omega, new ++ newer, older,
    by rw [hnew, heq, List.append_assoc], ?_, by rwa [List.take_append_of_le_length h.enough]⟩
  rw [List.mem_append, not_or]
  exact ⟨fun hmem => hno _ hmem rfl, hnewer⟩

namespace DemosScheduler

variable {c : Config} {s s' : State} {now : Int}

theorem initiateShutdown_grows (h : s.Sound c) (run : initiateShutdown c now s = .ok s') :
    s.Grows (· ≠ .initFinished) s' := by
  simp only [initiateShutdown, bind_def, bind_eq_ok, pure_def, Except.ok.injEq] at run
  obtain ⟨s₁, hstop, rfl⟩ := run
  have hstopped : s.Grows (· ≠ .initFinished) s₁ :=
    (MajorFrame.stop_sound h hstop).1.grows.mono fun a ha e => ha (e ▸ trivial)
  have hkilled : s₁.Grows (· ≠ .initFinished) (PartitionManager.killAll c s₁) :=
    (PartitionManager.killAll_grows s₁).mono fun a ⟨p, ha⟩ => by simp [ha]
  exact (hstopped.trans hkilled).cons (a := .shutdown) (by simp) rfl

theorem startScheduler_grows (h : s.Sound c) (halted : s.Halted)
    (closed : s.course.stage = .closed) (started : s.Started)
    (run : startScheduler c now s = .ok s') : s.Grows (· ≠ .initFinished) s' := by
  unfold startScheduler at run
  split at run
  · exact initiateShutdown_grows h run
  · simp only [bind_def, bind_eq_ok] at run
    obtain ⟨s₁, hstart, run⟩ := run
    have hgrows : s.Grows (· ≠ .initFinished) s₁ :=
      (MajorFrame.start_sound h halted closed started hstart).1.grows.mono
        fun a ha e => ha (e ▸ trivial)
    split at run <;> rw [pure_def, Except.ok.injEq] at run
    · subst run
      exact hgrows
    · exact run ▸ hgrows

end DemosScheduler

section Steps

variable {c : Config} {reports : List ProcessId} {s s' : State} {now : Int}

theorem State.Called.of_finish (h : s.Initializing c)
    (length : reports.length = (initProcessIds c).length)
    (tally : Action.Tally c reports s.history)
    (run : finishProcessInit c (DemosScheduler.callbacks c now) s = .ok s') :
    s'.Called c reports := by
  obtain ⟨-, hinit, hstarted⟩ := initialized_ready h
  obtain ⟨newer, hnewer, hno⟩ := DemosScheduler.startScheduler_grows hinit.sound
    hinit.preparing.halted hinit.preparing.closed hstarted run
  refine ⟨(finishProcessInit_sound h run).2.2, length.ge, newer, s.history, ?_,
    fun hmem => hno _ hmem rfl, ?_⟩
  · rw [hnewer, initialized_eq]
  · rwa [List.take_of_length_le length.le]

theorem State.Called.step {e : Event} (h : s.Called c reports) (sound : s.Sound c)
    (step : Event.Step c s e s') : s'.Called c (reports ++ (e.report c).toList) := by
  by_cases hscheduling : e.Scheduling
  · obtain ⟨-, -, hstarted⟩ := Event.step_sound sound h.started hscheduling step
    have hchanges := Event.step_changes sound h.started hscheduling step
    exact h.grows hstarted (hchanges.grows.mono fun a ha heq => ha (heq ▸ trivial))
  · obtain ⟨henabled, run⟩ := step
    cases e with
    | startup now =>
      simp only [Event.Enabled, h.started.startup] at henabled
      simp at henabled
    | signal now =>
      obtain ⟨-, -, -, -, hstarted⟩ := DemosScheduler.initiateShutdown_sound sound run
      exact h.grows (hstarted h.started) (DemosScheduler.initiateShutdown_grows sound run)
    | userTimeout now =>
      have hstarted : (s.setScheduler { s.scheduler with timeoutArmed := false }).Started :=
        ⟨h.started.exitCb, h.started.completionCb, h.started.startup⟩
      have hfired : (s.setScheduler { s.scheduler with timeoutArmed := false }).Sound c :=
        sound.congr rfl rfl rfl rfl (fun _ => id) (fun _ => ⟨rfl, rfl, rfl⟩) (.inl hstarted)
      obtain ⟨-, -, -, -, hkeeps⟩ := DemosScheduler.initiateShutdown_sound hfired run
      have hgrows := DemosScheduler.initiateShutdown_grows hfired run
      exact h.grows (hkeeps hstarted) hgrows
    | _ => exact absurd trivial hscheduling

theorem processInitCompletionCb_reported {p : ProcessId} {m : State} {a : Action}
    (h : s.Awaiting c reports) (init : m.Initializing c) (manager : m.manager = s.manager)
    (completionCb : ∀ k, (m.partition k).completionCb = (s.partition k).completionCb)
    (history : m.history = a :: s.history) (ha : a = .signalled p ∨ a = .exited p)
    (gone : ∀ q ≠ p, (m.process q).spawned = (s.process q).spawned)
    (empty : ∀ k, (m.partition k).empty = true →
      ∀ q ∈ c.processIds k, (m.process q).spawned = false)
    (run : processInitCompletionCb c (DemosScheduler.callbacks c now) p m = .ok s') :
    s'.Awaiting c (reports ++ [p]) ∨ s'.Called c (reports ++ [p]) ∧ s'.Sound c := by
  have hsound := (processInitCompletionCb_sound init run).2
  unfold processInitCompletionCb at run
  set m' := ((Process.suspend p m).record (.initSuspended p)).setManager { m.manager with
    remainingProcessInits := m.manager.remainingProcessInits - 1 } with hm'
  have hinit' : m'.Initializing c :=
    State.Initializing.managed (s := (Process.suspend p m).record (.initSuspended p))
      (init.same ⟨rfl, rfl, rfl, rfl, rfl, rfl, State.flags_setProcess ⟨rfl, rfl⟩, rfl⟩) _
  have htally : Action.Tally c (reports ++ [p]) m'.history := by
    change Action.Tally c (reports ++ [p]) (.initSuspended p :: m.history)
    rw [history]
    exact h.tally.report ha
  have hremaining : m'.manager.remainingProcessInits + (reports ++ [p]).length =
      (initProcessIds c).length := by
    have hold := h.remaining
    change m.manager.remainingProcessInits - 1 + ((reports ++ [p]).length : Int) = _
    rw [manager]
    simp only [List.length_append, List.length_cons, List.length_nil]
    omega
  have hspawned : ∀ q, (m'.process q).spawned = (m.process q).spawned := by
    intro q
    rw [hm']
    exact State.update_field Process.spawned rfl
  dsimp only at run
  split at run
  · next hzero =>
    refine .inr ⟨.of_finish hinit' ?_ htally run, hsound⟩
    have hzero : m'.manager.remainingProcessInits = 0 := hzero
    omega
  · next hzero =>
    rw [Except.ok.injEq] at run
    subst run
    have hfew := h.few
    refine .inl ⟨hinit', ?_, fun k hk => ?_, hremaining, ?_, htally, fun q hq hgone => ?_,
      fun k hk q hq => ?_⟩
    · exact (congrArg PartitionManager.exitCb manager).trans h.exitCb
    · exact (completionCb k).trans (h.completionCb k hk)
    · have hne : m'.manager.remainingProcessInits ≠ 0 := hzero
      rw [List.length_append, List.length_singleton] at hremaining ⊢
      omega
    · by_cases hqp : q = p
      · simp [hqp]
      · have hgone := (hspawned q).symm.trans hgone
        exact List.mem_append_left _ (h.gone q hq ((gone q hqp).symm.trans hgone))
    · exact (hspawned q).trans (empty k hk q hq)

/-- While a process is initializing not every partition can be empty. -/
theorem State.Awaiting.processExitCb {b : Bool} (h : s.Awaiting c reports)
    (run : PartitionManager.processExitCb c (DemosScheduler.callbacks c now) b s = .ok s') :
    s' = s := by
  unfold PartitionManager.processExitCb at run
  split at run
  · exact (Except.ok.inj run).symm
  · split at run
    · next hall =>
      have hcovers : ∀ q ∈ initProcessIds c, q ∈ reports := by
        intro q hq
        obtain ⟨hlt, hindex⟩ := (mem_initProcessIds.mp hq).1
        have hempty := List.all_eq_true.mp hall q.part (List.mem_range.mpr hlt)
        exact h.gone q hq (h.empty _ hempty q (c.mem_processIds.mpr ⟨rfl, hindex⟩))
      have hle := (List.subperm_of_subset (initProcessIds_nodup c) hcovers).length_le
      exact absurd h.few (by omega)
    · exact (Except.ok.inj run).symm

theorem State.Awaiting.ended_empty (h : s.Awaiting c reports) (p : ProcessId) (k : Nat)
    (hk : ((Event.ended c p s).partition k).empty = true) (q : ProcessId)
    (hq : q ∈ c.processIds k) : ((Event.ended c p s).process q).spawned = false := by
  have hspawned : ∀ q, ((Event.ended c p s).process q).spawned = false ↔
      q = p ∨ (s.process q).spawned = false := by
    intro q
    by_cases hqp : q = p
    · simp [Event.ended, Partition.updateEmpty, hqp]
    · simp [Event.ended, Partition.updateEmpty, hqp]
  by_cases hkp : k = p.part
  · subst hkp
    have hall : (c.processIds p.part).all (fun q => !Process.isSpawned q
        ((s.setProcess p { s.process p with spawned := false }).record (.exited p))) = true := by
      simpa [Event.ended, Partition.updateEmpty] using hk
    have hspawned := List.all_eq_true.mp hall q hq
    simpa [Process.isSpawned, Event.ended, Partition.updateEmpty] using hspawned
  · rw [hspawned]
    exact .inr (h.empty k (by simpa [Event.ended, Partition.updateEmpty, hkp] using hk) q hq)

/-- No stop is requested while the processes are initialized. -/
def Event.Calm (s : State) (e : Event) : Prop := e.StopRequest → .initFinished ∈ s.history

theorem State.Awaiting.completion {p : ProcessId} (h : s.Awaiting c reports)
    (valid : c.ValidProcess p) (run : (Event.completion p now).dispatch c s = .ok s') :
    s'.Awaiting c (reports ++ ((Event.completion p now).report c).toList) ∨
      s'.Called c (reports ++ ((Event.completion p now).report c).toList) := by
  have hcb : (s.partition p.part).completionCb = .processInit := h.completionCb _ valid.1
  simp only [Event.dispatch, Process.completedCb, Partition.completedCb, State.record_partition,
    State.setProcess_partition, hcb] at run
  have hspawned : ∀ q, (((s.setProcess p { s.process p with demosCompleted := true }).record
      (.signalled p)).process q).spawned = (s.process q).spawned :=
    fun _ => State.update_field Process.spawned rfl
  rcases processInitCompletionCb_reported h (a := .signalled p)
    (m := (s.setProcess p { s.process p with demosCompleted := true }).record (.signalled p))
    (h.initializing.same ⟨rfl, rfl, rfl, rfl, rfl, rfl, State.flags_setProcess ⟨rfl, rfl⟩, rfl⟩)
    rfl (fun _ => rfl) rfl (.inl rfl)
    (fun q _ => hspawned q) (fun k hk q hq => by rw [hspawned]; exact h.empty k hk q hq) run with
    hawaiting | hcalled
  · exact .inl hawaiting
  · exact .inr hcalled.1

theorem State.Awaiting.exit {p : ProcessId} (h : s.Awaiting c reports)
    (run : (Event.exit p now).dispatch c s = .ok s') :
    s'.Awaiting c (reports ++ ((Event.exit p now).report c).toList) ∨
      s'.Called c (reports ++ ((Event.exit p now).report c).toList) := by
  have hinit : (Event.ended c p s).Initializing c :=
    ⟨Event.ended_sound h.initializing.sound p, Event.ended_preparing h.initializing.preparing p,
      h.initializing.startup⟩
  have hexitCb : (Event.ended c p s).manager.exitCb = .processInitExit := h.exitCb
  have hothers : ∀ q ≠ p, ((Event.ended c p s).process q).spawned = (s.process q).spawned := by
    intro q hq
    simp [Event.ended, Partition.updateEmpty, hq]
  rw [Event.dispatch_exit_eq, hexitCb] at run
  simp only [processInitExitCb] at run
  by_cases hneeds : (c.process p).hasInitialization = true
  · simp only [Event.report, hneeds, if_true, Option.toList_some]
    rw [if_pos hneeds, bind_def, bind_eq_ok] at run
    obtain ⟨m, hdone, run⟩ := run
    rcases processInitCompletionCb_reported h (a := .exited p) hinit rfl
      (fun k => (Event.ended_partition p s k).2.1) rfl (.inr rfl) hothers (h.ended_empty p) hdone
      with hawaiting | ⟨hcalled, hsound⟩
    · exact .inl (hawaiting.processExitCb run ▸ hawaiting)
    · refine .inr ?_
      unfold PartitionManager.processExitCb at run
      split at run
      · exact Except.ok.inj run ▸ hcalled
      · split at run
        · obtain ⟨hchanges, -, hkeeps⟩ := DemosScheduler.completionCb_sound hsound run
          rw [← List.append_nil (reports ++ [p])]
          exact hcalled.grows (hkeeps hcalled.started)
            (hchanges.grows.mono fun a ha heq => ha (heq ▸ trivial))
        · exact Except.ok.inj run ▸ hcalled
  · simp only [Event.report, hneeds, Bool.false_eq_true, if_false, Option.toList_none,
      List.append_nil]
    rw [if_neg hneeds, pure_def, bind_def, bind_ok] at run
    have hp : p ∉ initProcessIds c := fun hmem => hneeds (mem_initProcessIds.mp hmem).2
    have hended : (Event.ended c p s).Awaiting c reports :=
      { initializing := hinit
        exitCb := hexitCb
        completionCb := fun k hk => by
          rw [(Event.ended_partition p s k).2.1]
          exact h.completionCb k hk
        remaining := h.remaining
        few := h.few
        tally := h.tally.exit hp
        gone := fun q hq hgone => h.gone q hq (by
          rwa [hothers q fun e => hp (e ▸ hq)] at hgone)
        empty := h.ended_empty p }
    exact .inl (hended.processExitCb run ▸ hended)

theorem State.Awaiting.step {e : Event} (h : s.Awaiting c reports) (calm : e.Calm s)
    (step : Event.Step c s e s') :
    s'.Awaiting c (reports ++ (e.report c).toList) ∨
      s'.Called c (reports ++ (e.report c).toList) := by
  obtain ⟨henabled, run⟩ := step
  cases e with
  | signal | userTimeout => exact absurd (calm trivial) h.tally.uncalled
  | startup now =>
    simp only [Event.Enabled, h.initializing.startup] at henabled
    simp at henabled
  | windowTimer =>
    simp only [Event.Enabled, h.initializing.preparing.unarmed] at henabled
    simp at henabled
  | sliceTimer i =>
    simp only [Event.Enabled, h.initializing.preparing.halted.unarmed i] at henabled
    simp at henabled
  | completion p now =>
    exact h.completion henabled run
  | exit p now => exact h.exit run

theorem resetAll_keeps (run : resetAll c s = .ok s') :
    (∀ k < c.partitions.length, (s'.partition k).completionCb = .processInit) ∧
      (∀ k, (s'.partition k).empty = (s.partition k).empty) ∧ s'.history = s.history ∧
      (∀ p, (s'.process p).spawned = (s.process p).spawned) ∧ s'.manager = s.manager := by
  have hall : (∀ k ∈ List.range c.partitions.length,
      (s'.partition k).completionCb = .processInit) ∧
      (∀ k, (s'.partition k).empty = (s.partition k).empty) ∧ s'.history = s.history ∧
      (∀ p, (s'.process p).spawned = (s.process p).spawned) ∧ s'.manager = s.manager := by
    refine foldlM_induct (fun done m => (∀ k ∈ done, (m.partition k).completionCb = .processInit) ∧
      (∀ k, (m.partition k).empty = (s.partition k).empty) ∧ m.history = s.history ∧
      (∀ p, (m.process p).spawned = (s.process p).spawned) ∧ m.manager = s.manager) ?_
      ⟨by simp, fun _ => rfl, rfl, fun _ => rfl, rfl⟩ run
    rintro done k rest m m' - ⟨hcb, hempty, hhistory, hspawned, hmanager⟩ hk
    obtain rfl := Partition.reset_cases c k m hk
    refine ⟨fun j hj => ?_, fun j => ?_, hhistory, hspawned, hmanager⟩
    all_goals by_cases hjk : j = k
    · simp [hjk]
    · simpa [hjk] using hcb j (by simpa [hjk] using hj)
    · simpa [hjk] using hempty k
    · simpa [hjk] using hempty j
  exact ⟨fun k hk => hall.1 k (List.mem_range.mpr hk), hall.2⟩

theorem resumeAll_keeps {ids : List ProcessId} (h : s.Initializing c)
    (run : ids.foldlM (fun s p => resumeForInit p s) s = .ok s') :
    s'.Initializing c ∧ s'.manager.exitCb = s.manager.exitCb ∧ s'.partition = s.partition ∧
      (∀ p, (s'.process p).spawned = (s.process p).spawned) ∧
      s'.manager.remainingProcessInits = s.manager.remainingProcessInits + ids.length ∧
      s'.history = (ids.map Action.initResumed).reverse ++ s.history := by
  refine foldlM_induct (fun done m => m.Initializing c ∧ m.manager.exitCb = s.manager.exitCb ∧
    m.partition = s.partition ∧ (∀ p, (m.process p).spawned = (s.process p).spawned) ∧
    m.manager.remainingProcessInits = s.manager.remainingProcessInits + done.length ∧
    m.history = (done.map Action.initResumed).reverse ++ s.history) ?_
    ⟨h, rfl, rfl, fun _ => rfl, by simp, rfl⟩ run
  rintro done p rest m m' - ⟨hinit, hexit, hpart, hspawned, hremaining, hhistory⟩ hp
  refine ⟨(resumeForInit_sound hinit hp).2, ?_⟩
  unfold resumeForInit Process.resume at hp
  dsimp only at hp
  split at hp
  · rw [Except.ok.injEq] at hp
    subst hp
    refine ⟨hexit, hpart, fun q => ?_, ?_, ?_⟩
    · by_cases hq : q = p
      · subst hq
        simpa using hspawned q
      · simpa [hq] using hspawned q
    · simp [hremaining, Int.add_assoc]
    · simp [hhistory]
  · simp at hp

theorem startup_awaiting {gen : Nat → Nat} {timeout : Option Int}
    (step : Event.Step c (State.initial c gen timeout) (.startup now) s) :
    s.Awaiting c [] ∨ s.Called c [] := by
  obtain ⟨-, run⟩ := step
  have hsound := State.initial_sound c gen timeout
  have hbegin := Event.startup_initializing hsound
    (Event.preparing_of_pending hsound rfl)
  simp only [Event.dispatch, DemosScheduler.startupFn, runProcessInit, bind_def, bind_eq_ok] at run
  obtain ⟨s₁, hreset, s₂, hresume, run⟩ := run
  have hfirst : s₁.Initializing c := (resetAll_sound hbegin hreset).2
  obtain ⟨hcb, hempty, hhistory, hfirstSpawned, hmanager⟩ := resetAll_keeps hreset
  obtain ⟨hinit, hexit, hpart, hspawned, hremaining, hrecords⟩ :=
    resumeAll_keeps (hfirst.managed { s₁.manager with exitCb := .processInitExit }) hresume
  have hcount : s₂.manager.remainingProcessInits = (initProcessIds c).length := by
    rw [hremaining]
    simp [hmanager, State.initial]
  have htally : Action.Tally c [] s₂.history := by
    have hnew : s₂.history = ((initProcessIds c).map Action.initResumed).reverse := by
      rw [hrecords]
      simp [hhistory, State.initial]
    rw [hnew]
    refine ⟨by simp, fun p _ => by simp [Action.Reported], fun p _ => ?_⟩
    rw [← List.map_reverse, Action.frozen_resumed]
    simp
  split at run
  · next hdone =>
    rw [hdone] at hcount
    exact .inr (.of_finish hinit (by simp only [List.length_nil]; omega) htally run)
  · next hnot =>
    rw [pure_def, Except.ok.injEq] at run
    subst run
    rw [hcount] at hnot
    refine .inl ⟨hinit, hexit, fun k hk => ?_, by simpa using hcount, ?_, htally, ?_, ?_⟩
    · rw [hpart]
      exact hcb k hk
    · simp only [List.length_nil]
      omega
    · intro p _ hgone
      rw [hspawned p] at hgone
      simp [hfirstSpawned, State.initial] at hgone
    · intro k hk
      rw [hpart] at hk
      simp [hempty, State.initial] at hk

end Steps

/-- In every run from the start of the initialization on, `init_cb` is called
once, when every process to initialize has reported and all are suspended, if and
only if the first reports come from different processes that need initialization. The
freezers are as the history shows them. -/
theorem init_barrier_iff {c : Config} {gen : Nat → Nat} {timeout : Option Int} {now : Int}
    {es : List Event} {s₀ s : State}
    (startup : Event.Step c (State.initial c gen timeout) (.startup now) s₀)
    (run : Run (fun s e s' => e.Calm s ∧ Event.Step c s e s') s₀ es s) :
    (Action.Barrier c s.history ↔ Event.Orderly c es) ∧ s.FreezersShown := by
  have hreach : Event.Reachable c gen timeout (.startup now :: es) s :=
    Run.cons startup (run.mono fun _ _ _ step => step.2)
  refine ⟨?_, hreach.freezers⟩
  have hsound₀ := (Event.step_turns (State.initial_sound c gen timeout) startup).2
  have hall : s.Sound c ∧ (s.Awaiting c (Event.reports c es) ∨ s.Called c (Event.reports c es)) := by
    refine run.labelled (I := fun es s => s.Sound c ∧
      (s.Awaiting c (Event.reports c es) ∨ s.Called c (Event.reports c es))) ?_
      ⟨hsound₀, startup_awaiting startup⟩
    rintro es s e s' ⟨hsound, hphase⟩ ⟨hcalm, hstep⟩
    have hreports : Event.reports c (es ++ [e]) = Event.reports c es ++ (e.report c).toList := by
      cases h : e.report c <;> simp [Event.reports, h]
    rw [hreports]
    refine ⟨(Event.step_turns hsound hstep).2, ?_⟩
    rcases hphase with h | h
    · exact h.step hcalm hstep
    · exact .inr (h.step hsound hstep)
  have hnodup := initProcessIds_nodup c
  rcases hall.2 with h | h
  · -- fewer reports than processes: somebody is missing, and `init_cb` has not been called
    refine iff_of_true ⟨?_, ?_, ?_⟩ fun hle => absurd h.few (by omega)
    · rw [List.count_eq_zero.mpr h.tally.uncalled]
      omega
    · refine iff_of_false h.tally.uncalled fun hcover => ?_
      have hsub : ∀ p ∈ initProcessIds c, p ∈ Event.reports c es :=
        fun p hp => (h.tally.reported p hp).mp (hcover p hp)
      have := (List.subperm_of_subset hnodup hsub).length_le
      exact absurd h.few (by omega)
    · intro newer older heq
      exact absurd (by simp [heq]) h.tally.uncalled
  · obtain ⟨newer, older, heq, hnewer, htally⟩ := h.log
    set first := (Event.reports c es).take (initProcessIds c).length with hfirst
    have hlength : first.length = (initProcessIds c).length := List.length_take_of_le h.enough
    have hcovers := covers_iff_nodup hnodup hlength
    constructor
    · intro hbarrier _
      refine hcovers.mp fun p hp => (htally.reported p hp).mp ?_
      exact (hbarrier.moment newer older heq).1 p hp
    · intro horderly
      have hcover := hcovers.mpr (horderly h.enough)
      have hreported : ∀ p ∈ initProcessIds c, Action.Reported p older :=
        fun p hp => (htally.reported p hp).mpr (hcover p hp)
      refine ⟨?_, ?_, fun newer' older' heq' => ?_⟩
      · rw [heq, List.count_append, List.count_cons_self, List.count_eq_zero.mpr hnewer,
          List.count_eq_zero.mpr htally.uncalled]
      · refine iff_of_true (by simp [heq]) fun p hp => ?_
        rw [heq, ← List.singleton_append, ← List.append_assoc]
        exact (hreported p hp).grows
      · rw [heq] at heq'
        obtain ⟨-, -, rfl⟩ :=
          (List.append_cons_inj_of_notMem hnewer htally.uncalled).mp heq'
        exact ⟨hreported, fun p hp => (htally.frozen p hp).mpr fun hmem => hcover p hmem⟩

/-- The first process signals and exits; the second one is still initializing
when the scheduler starts. -/
theorem double_report_calls_early :
    ¬∀ (c : Config) (gen : Nat → Nat) (timeout : Option Int) (now : Int) (es : List Event)
      (s₀ s : State), Event.Step c (State.initial c gen timeout) (.startup now) s₀ →
      Run (fun s e s' => e.Calm s ∧ Event.Step c s e s') s₀ es s →
      Action.Barrier c s.history := by
  intro hclaim
  have hrun : (((Event.startup 0).dispatch .twoInits
      (State.initial .twoInits (fun _ => 0) none)).toOption.bind fun s₀ =>
      (Event.play .twoInits (fun _ e => ¬e.StopRequest) [.completion ⟨0, 0⟩ 0, .exit ⟨0, 0⟩ 0]
        s₀).map fun s =>
          (decide (.initFinished ∈ s.history), decide (Action.Reported ⟨0, 1⟩ s.history))) =
      some (true, false) := by decide
  obtain ⟨s₀, hs₀, hrest⟩ := Option.bind_eq_some_iff.mp hrun
  obtain ⟨s, hplay, hs⟩ := Option.map_eq_some_iff.mp hrest
  obtain ⟨hcalled, hreported⟩ := Prod.mk.inj hs
  have hbarrier := hclaim .twoInits (fun _ => 0) none 0 _ s₀ s
    ⟨rfl, toOption_eq_some.mp hs₀⟩
    ((Event.play_run _ hplay).mono fun _ _ _ step => ⟨fun hrequest => absurd hrequest step.1, step.2⟩)
  have hall := hbarrier.called_iff.mp (of_decide_eq_true hcalled) ⟨0, 1⟩ (by decide)
  exact of_decide_eq_false hreported hall

/-- Both processes signal once. -/
theorem init_barrier_iff_twoInits :
    ∃ s : State, .initFinished ∈ s.history ∧ Action.Barrier .twoInits s.history := by
  have hrun : (((Event.startup 0).dispatch .twoInits
      (State.initial .twoInits (fun _ => 0) none)).toOption.bind fun s₀ =>
      (Event.play .twoInits (fun _ e => ¬e.StopRequest)
        [.completion ⟨0, 0⟩ 0, .completion ⟨0, 1⟩ 0] s₀).map fun s =>
          decide (.initFinished ∈ s.history)) = some true := by decide
  obtain ⟨s₀, hs₀, hrest⟩ := Option.bind_eq_some_iff.mp hrun
  obtain ⟨s, hplay, hs⟩ := Option.map_eq_some_iff.mp hrest
  have hstartup : Event.Step .twoInits (State.initial .twoInits (fun _ => 0) none)
      (.startup 0) s₀ := ⟨rfl, toOption_eq_some.mp hs₀⟩
  exact ⟨s, of_decide_eq_true hs, (init_barrier_iff hstartup ((Event.play_run _ hplay).mono
    fun _ _ _ step => ⟨fun hrequest => absurd hrequest step.1, step.2⟩)).1.mpr (by decide)⟩

end DemosSched
