import Mathlib.Data.List.MinMax
import DemosSched.Initialization
import DemosSched.Tenure

/-! The CPUs of a partition from the start of the program on. Its processes are
initialized on the widest set of the slices that have it, and stay there until the first
of these slices takes it over. -/

namespace DemosSched

open Fallible Relation

namespace Config

variable {c : Config}

theorem role_slices {sc : Bool} {i : SliceId} {k : Nat} (h : c.role sc i = some k) :
    c.slice i ∈ c.windows.flatMap WindowDef.slices ∧ k ∈ (c.slice i).partitions := by
  refine ⟨?_, role_mem h⟩
  rcases c.slice_mem_or i with ⟨w, hw, hi⟩ | hdefault
  · exact List.mem_flatMap.mpr ⟨w, hw, hi⟩
  · cases sc <;> simp [role, hdefault, default] at h

theorem role_lt {sc : Bool} {i : SliceId} {k : Nat} (h : c.role sc i = some k) :
    k < c.partitions.length := by
  obtain ⟨hx, hk⟩ := role_slices h
  obtain ⟨w, hw, hxw⟩ := List.mem_flatMap.mp hx
  exact c.references w hw _ hxw k hk

theorem exists_role {x : SliceDef} {k : Nat} (hx : x ∈ c.windows.flatMap WindowDef.slices)
    (hk : k ∈ x.partitions) : ∃ i sc, c.role sc i = some k ∧ c.slice i = x := by
  obtain ⟨w, hw, hxw⟩ := List.mem_flatMap.mp hx
  obtain ⟨i, rfl⟩ := exists_slice hw hxw
  rcases List.mem_append.mp hk with hsc | hbe
  · exact ⟨i, true, Option.mem_toList.mp hsc, rfl⟩
  · exact ⟨i, false, Option.mem_toList.mp hbe, rfl⟩

/-- `cpus` is the CPU set of a slice that has partition `k`, and none has more CPUs. -/
def Widest (c : Config) (k : Nat) (cpus : CpuSet) : Prop :=
  (∃ i sc, c.role sc i = some k ∧ (c.slice i).cpus = cpus) ∧
    ∀ i sc, c.role sc i = some k → (c.slice i).cpus.card ≤ cpus.card

end Config

namespace MajorFrame

variable (c : Config)

theorem findWidestCpuSet_eq (k : Nat) : findWidestCpuSet c k =
    (((c.windows.flatMap WindowDef.slices).filter (k ∈ ·.partitions)).map (·.cpus)).argmax
      Finset.card := by
  rw [findWidestCpuSet, List.argmax, List.foldl_map, List.foldl_filter]
  congr 1
  funext best x
  by_cases hk : k ∈ x.partitions
  · cases best <;> simp [hk, List.argAux]
  · simp [hk]

variable {c}

theorem findWidestCpuSet_widest {k : Nat} {cpus : CpuSet} (h : findWidestCpuSet c k = some cpus) :
    c.Widest k cpus := by
  rw [findWidestCpuSet_eq] at h
  constructor
  · obtain ⟨x, hx, rfl⟩ := List.mem_map.mp (List.argmax_mem h)
    obtain ⟨hmem, hk⟩ := List.mem_filter.mp hx
    obtain ⟨i, sc, hrole, hslice⟩ := Config.exists_role hmem (of_decide_eq_true hk)
    exact ⟨i, sc, hrole, by rw [hslice]⟩
  · intro i sc hrole
    obtain ⟨hmem, hk⟩ := Config.role_slices hrole
    exact List.le_of_mem_argmax (List.mem_map_of_mem (List.mem_filter.mpr ⟨hmem, by simpa⟩)) h

theorem findWidestCpuSet_isSome {k : Nat} {sc : Bool} {i : SliceId} (h : c.role sc i = some k) :
    ∃ cpus, findWidestCpuSet c k = some cpus := by
  rw [← Option.isSome_iff_exists, Option.isSome_iff_ne_none, findWidestCpuSet_eq, ne_eq,
    List.argmax_eq_none]
  obtain ⟨hmem, hk⟩ := Config.role_slices h
  exact List.ne_nil_of_mem (List.mem_map_of_mem (List.mem_filter.mpr ⟨hmem, by simpa⟩))

end MajorFrame

def Action.cpusSince (c : Config) (k : Nat) (cpus : CpuSet) : List Action → CpuSet
  | [] => cpus
  | .entered i m _ _ :: h => if m = k then (c.slice i).cpus else cpusSince c k cpus h
  | _ :: h => cpusSince c k cpus h

theorem Action.cpusSince_append (c : Config) (k : Nat) (cpus : CpuSet) (new old : List Action) :
    cpusSince c k cpus (new ++ old) = cpusSince c k (cpusSince c k cpus old) new := by
  induction new with
  | nil => rfl
  | cons a new ih =>
    cases a with
    | entered i m first t => simp only [List.cons_append, cpusSince, ih]
    | _ => exact ih

/-- These are the CPUs of the slice that took it over last, if one did. -/
theorem Action.cpusSince_cases (c : Config) (k : Nat) (cpus : CpuSet) (h : List Action) :
    (∀ i first t, .entered i k first t ∉ h) ∧ cpusSince c k cpus h = cpus ∨
      ∃ i first t, .entered i k first t ∈ h ∧ cpusSince c k cpus h = (c.slice i).cpus := by
  induction h with
  | nil => exact .inl ⟨by simp, rfl⟩
  | cons a h ih =>
    by_cases ha : ∃ i first t, a = .entered i k first t
    · obtain ⟨i, first, t, rfl⟩ := ha
      exact .inr ⟨i, first, t, List.mem_cons_self, by simp [cpusSince]⟩
    · have hsame : cpusSince c k cpus (a :: h) = cpusSince c k cpus h := by
        cases a with
        | entered i m first t =>
          have hm : m ≠ k := fun hm => ha ⟨i, first, t, by rw [hm]⟩
          simp [cpusSince, hm]
        | _ => rfl
      rw [hsame]
      rcases ih with ⟨hnone, hcpus⟩ | ⟨i, first, t, hmem, hcpus⟩
      · exact .inl ⟨fun i first t hmem => (List.mem_cons.mp hmem).elim
          (fun heq => ha ⟨i, first, t, heq.symm⟩) (hnone i first t), hcpus⟩
      · exact .inr ⟨i, first, t, List.mem_cons_of_mem _ hmem, hcpus⟩

def Action.Entry : Action → Prop
  | .entered _ _ _ _ => True
  | _ => False

theorem Action.cpusSince_cons (c : Config) (k : Nat) (cpus : CpuSet) {a : Action} (ha : ¬ a.Entry)
    (h : List Action) : cpusSince c k cpus (a :: h) = cpusSince c k cpus h := by
  cases a with
  | entered => exact absurd trivial ha
  | _ => rfl

/-- After the startup, partitions change their CPUs where slices that have them take them
over, and only there. -/
def State.Relocates (c : Config) (s s' : State) : Prop :=
  s'.scheduler.startupPending = s.scheduler.startupPending ∧
    ∃ new, s'.history = new ++ s.history ∧
      (∀ i k first t, Action.entered i k first t ∈ new → c.role first i = some k) ∧
      ∀ k, (s'.partition k).currentCpus = Action.cpusSince c k (s.partition k).currentCpus new

namespace State.Relocates

variable {c : Config} {w : Nat} {t : Int} {s s' s'' : State}

theorem still (pending : s'.scheduler.startupPending = s.scheduler.startupPending)
    (history : s'.history = s.history)
    (cpus : ∀ k, (s'.partition k).currentCpus = (s.partition k).currentCpus) : s.Relocates c s' :=
  ⟨pending, [], history, by simp, cpus⟩

theorem refl (s : State) : s.Relocates c s := still rfl rfl fun _ => rfl

theorem noted {a : Action} (ha : ¬ a.Entry)
    (pending : s'.scheduler.startupPending = s.scheduler.startupPending)
    (history : s'.history = a :: s.history)
    (cpus : ∀ k, (s'.partition k).currentCpus = (s.partition k).currentCpus) : s.Relocates c s' := by
  refine ⟨pending, [a], history, fun i k first t hmem => ?_, fun k => ?_⟩
  · rw [← List.mem_singleton.mp hmem] at ha
    exact absurd trivial ha
  · rw [Action.cpusSince_cons c k _ ha]
    exact cpus k

theorem trans (h : s.Relocates c s') (h' : s'.Relocates c s'') : s.Relocates c s'' := by
  obtain ⟨hpending, new, hnew, hroles, hcpus⟩ := h
  obtain ⟨hpending', new', hnew', hroles', hcpus'⟩ := h'
  refine ⟨hpending'.trans hpending, new' ++ new, by rw [hnew', hnew, List.append_assoc],
    fun i k first t hmem => ?_, fun k => ?_⟩
  · rcases List.mem_append.mp hmem with hmem | hmem
    · exact hroles' i k first t hmem
    · exact hroles i k first t hmem
  · rw [hcpus', hcpus, Action.cpusSince_append]

theorem selected {i : SliceId} {p : ProcessId} {b : Int}
    (selected : Slice.Selected c w i p b s s') : s.Relocates c s' := by
  rcases selected.drew_or_same with rfl | rfl
  · exact refl _
  · exact noted (a := .drawn p (Process.jitterOffset (c.process p).jitter (s.gen 0))) id rfl rfl
      fun _ => rfl

theorem effect (e : Effect c w t s s') : s.Relocates c s' := by
  cases e with
  | noted a ha =>
    have hentry : ¬ a.Entry := by
      cases a with
      | entered => exact absurd ha id
      | _ => exact id
    exact noted hentry rfl rfl fun _ => rfl
  | windowSet => exact still rfl rfl fun _ => rfl
  | sought => exact still rfl rfl fun _ => State.update_field Partition.currentCpus rfl
  | @entered i k first member idle role =>
    refine ⟨rfl, [.entered i k first t], rfl, fun j m b u hmem => ?_, fun m => ?_⟩
    · rw [List.mem_singleton, Action.entered.injEq] at hmem
      obtain ⟨rfl, rfl, rfl, rfl⟩ := hmem
      exact role
    · by_cases hm : m = k
      · subst hm
        simp [Action.cpusSince]
      · simp [Action.cpusSince, hm, Ne.symm hm]
  | skipped hselected =>
    exact (selected hselected).trans (noted (a := .skipped _ _) id rfl rfl fun _ => rfl)
  | launched hselected =>
    exact (selected hselected).trans (noted (a := .started _ _ _ _) id rfl rfl fun _ => rfl)
  | stopped => exact noted (a := .stopped _ _ _ _) id rfl rfl fun _ => rfl

theorem closing (e : Closing c w t s s') : s.Relocates c s' := by
  cases e with
  | effect e => exact effect e
  | announced => exact noted (a := .onWindowEnd w) id rfl rfl fun _ => rfl
  | stopping => exact still rfl rfl fun _ => rfl
  | shortened => exact noted (a := .shortened _ _) id rfl rfl fun _ => rfl
  | released =>
    refine still rfl rfl fun k => ?_
    simp only [State.released_partition]
    split <;> rfl

theorem change {ok : Action → Prop} (e : Change c ok s s') : s.Relocates c s' := by
  have hclosings : ∀ {w t}, Closings c w t s s' → s.Relocates c s' := by
    intro w t run
    exact run.invariant (I := fun m => s.Relocates c m) (fun _ _ h e => h.trans (closing e)) (refl s)
  cases e with
  | effects run => exact hclosings run.closings
  | closed run => exact hclosings run
  | moved | framed => exact still rfl rfl fun _ => rfl
  | windowArmed t => exact noted (a := .windowArmed t) id rfl rfl fun _ => rfl
  | signalled p => exact noted (a := .signalled p) id rfl rfl fun _ => rfl
  | ended p =>
    refine noted (a := .exited p) id rfl rfl fun k => ?_
    by_cases hk : k = p.part
    · subst hk
      simp [Event.ended, Partition.updateEmpty]
    · simp [Event.ended, Partition.updateEmpty, hk]
  | loopBroken => exact noted (a := .loopBroken) id rfl rfl fun _ => rfl

theorem changes {ok : Action → Prop} (run : Changes c ok s s') : s.Relocates c s' :=
  run.invariant (I := fun m => s.Relocates c m) (fun _ _ h e => h.trans (change e)) (refl s)

end State.Relocates

section Handlers

variable {c : Config} {now : Int} {s s' : State}

open State.Relocates

theorem PartitionManager.killAll_relocates (s : State) : s.Relocates c (killAll c s) := by
  unfold killAll
  generalize c.allProcessIds = l
  induction l generalizing s with
  | nil => exact refl s
  | cons p l ih =>
    have hkill : s.Relocates c (Process.kill p s) := by
      unfold Process.kill
      split
      · exact noted (a := .killed p) id rfl rfl fun _ => rfl
      · exact refl s
    exact hkill.trans (ih _)

theorem DemosScheduler.initiateShutdown_relocates (h : s.Sound c)
    (run : initiateShutdown c now s = .ok s') : s.Relocates c s' := by
  simp only [initiateShutdown, bind_def, bind_eq_ok, pure_def, Except.ok.injEq] at run
  obtain ⟨s₁, hstop, rfl⟩ := run
  obtain ⟨hchanges, -⟩ := MajorFrame.stop_sound h hstop
  exact ((changes hchanges).trans (PartitionManager.killAll_relocates s₁)).trans
    (noted (a := .shutdown) id rfl rfl fun _ => rfl)

theorem DemosScheduler.startScheduler_relocates (h : s.Sound c) (halted : s.Halted)
    (closed : s.course.stage = .closed) (started : s.Started)
    (run : startScheduler c now s = .ok s') : s.Relocates c s' := by
  unfold startScheduler at run
  split at run
  · exact initiateShutdown_relocates h run
  · simp only [bind_def, bind_eq_ok] at run
    obtain ⟨s₁, hstart, run⟩ := run
    obtain ⟨hchanges, -⟩ := MajorFrame.start_sound h halted closed started hstart
    split at run <;> rw [pure_def, Except.ok.injEq] at run
    · subst run
      exact (changes hchanges).trans (still rfl rfl fun _ => rfl)
    · exact run ▸ changes hchanges

namespace PartitionManager

theorem finishProcessInit_relocates (h : s.Initializing c)
    (run : finishProcessInit c (DemosScheduler.callbacks c now) s = .ok s') : s.Relocates c s' := by
  obtain ⟨-, hinit, hstarted⟩ := initialized_ready h
  have hready : s.Relocates c (initialized c s) := by
    rw [initialized_eq]
    refine noted (a := .initFinished) id rfl rfl fun k => ?_
    dsimp only
    split <;> rfl
  exact hready.trans (DemosScheduler.startScheduler_relocates hinit.sound hinit.preparing.halted
    hinit.preparing.closed hstarted run)

theorem processInitCompletionCb_relocates {p : ProcessId} (h : s.Initializing c)
    (run : processInitCompletionCb c (DemosScheduler.callbacks c now) p s = .ok s') :
    s.Relocates c s' := by
  unfold processInitCompletionCb at run
  have hsuspended : ((Process.suspend p s).record (.initSuspended p)).Initializing c :=
    h.same ⟨rfl, rfl, rfl, rfl, rfl, rfl, State.flags_setProcess ⟨rfl, rfl⟩, rfl⟩
  have hcounted : s.Relocates c (((Process.suspend p s).record (.initSuspended p)).setManager
      { s.manager with remainingProcessInits := s.manager.remainingProcessInits - 1 }) :=
    noted (a := .initSuspended p) id rfl rfl fun _ => rfl
  dsimp only at run
  split at run
  · exact hcounted.trans (finishProcessInit_relocates (hsuspended.managed _) run)
  · rw [Except.ok.injEq] at run
    exact run ▸ hcounted

theorem processExitCb_relocates {b : Bool} (h : s.Sound c)
    (run : processExitCb c (DemosScheduler.callbacks c now) b s = .ok s') : s.Relocates c s' := by
  unfold processExitCb at run
  split at run
  · rw [Except.ok.injEq] at run
    exact run ▸ refl s
  · split at run
    · obtain ⟨hchanges, -⟩ := DemosScheduler.completionCb_sound h run
      exact changes hchanges
    · rw [Except.ok.injEq] at run
      exact run ▸ refl s

end PartitionManager

namespace Event

theorem started_relocates (e : Event) (h : s.Sound c) (started : s.Started)
    (scheduling : e.Scheduling) (step : Step c s e s') : s.Relocates c s' :=
  changes (step_changes h started scheduling step)

theorem step_relocates {e : Event} (h : s.Sound c) (ne : ∀ now, e ≠ .startup now)
    (step : Step c s e s') : s.Relocates c s' := by
  have hwhole := step
  obtain ⟨henabled, run⟩ := step
  cases e with
  | startup now => exact absurd rfl (ne now)
  | windowTimer =>
    have hstarted : s.Started := h.started.resolve_right fun hp => by
      simp only [Enabled] at henabled
      rw [hp.unarmed] at henabled
      simp at henabled
    exact started_relocates .windowTimer h hstarted trivial hwhole
  | sliceTimer i =>
    have hstarted : s.Started := h.started.resolve_right fun hp => by
      simp only [Enabled] at henabled
      rw [hp.halted.unarmed i] at henabled
      simp at henabled
    exact started_relocates (.sliceTimer i) h hstarted trivial hwhole
  | signal now => exact DemosScheduler.initiateShutdown_relocates h run
  | userTimeout now =>
    have hfired : s.Relocates c (s.setScheduler { s.scheduler with timeoutArmed := false }) :=
      still rfl rfl fun _ => rfl
    exact hfired.trans (DemosScheduler.initiateShutdown_relocates (timedOut_sound h) run)
  | completion p now =>
    rcases h.started with hstarted | hpreparing
    · exact started_relocates (.completion p now) h hstarted trivial hwhole
    · simp only [dispatch, Process.completedCb, Partition.completedCb] at run
      have hsame := State.SameObjects.signalled p s
      have hsignalled : s.Relocates c (Process.signalled p s) :=
        noted (a := .signalled p) id rfl rfl fun _ => rfl
      split at run
      · simp at run
      · rw [Except.ok.injEq] at run
        exact run ▸ hsignalled
      · next hcb =>
        have hinit : s.Initializing c := ⟨h, hpreparing, (hpreparing.completionCb _ hcb).2⟩
        exact hsignalled.trans
          (PartitionManager.processInitCompletionCb_relocates (hinit.same hsame) run)
      · next i hcb => exact absurd hcb (hpreparing.halted.disconnected _ i)
  | exit p now =>
    rcases h.started with hstarted | hpreparing
    · exact started_relocates (.exit p now) h hstarted trivial hwhole
    · rw [dispatch_exit_eq] at run
      have hsound := ended_sound h p
      have hended : s.Relocates c (ended c p s) :=
        change (show Change c (fun _ => True) s (ended c p s) from .ended p trivial)
      refine hended.trans ?_
      split at run
      · exact PartitionManager.processExitCb_relocates hsound run
      · next hcb =>
        have hinit : (ended c p s).Initializing c :=
          ⟨hsound, ended_preparing hpreparing p, hpreparing.exitCb hcb⟩
        unfold PartitionManager.processInitExitCb at run
        split at run
        · rw [bind_def, bind_eq_ok] at run
          obtain ⟨s₁, hinitdone, run⟩ := run
          obtain ⟨-, hs₁⟩ := PartitionManager.processInitCompletionCb_sound hinit hinitdone
          exact (PartitionManager.processInitCompletionCb_relocates hinit hinitdone).trans
            (PartitionManager.processExitCb_relocates hs₁ run)
        · rw [pure_def, bind_def, bind_ok] at run
          exact PartitionManager.processExitCb_relocates hsound run

end Event

theorem PartitionManager.resetAll_cpus (run : resetAll c s = .ok s') :
    ∀ k < c.partitions.length,
      (s'.partition k).currentCpus = (MajorFrame.findWidestCpuSet c k).getD ∅ := by
  have hall : ∀ k ∈ List.range c.partitions.length,
      (s'.partition k).currentCpus = (MajorFrame.findWidestCpuSet c k).getD ∅ := by
    refine foldlM_induct (fun done m => ∀ k ∈ done,
      (m.partition k).currentCpus = (MajorFrame.findWidestCpuSet c k).getD ∅) ?_ (by simp) run
    rintro done k rest m m' - hdone hk
    obtain rfl := Partition.reset_cases c k m hk
    intro j hj
    by_cases hjk : j = k
    · simp [hjk]
    · simpa [hjk] using hdone j (by simpa [hjk] using hj)
  exact fun k hk => hall k (List.mem_range.mpr hk)

/-- The CPUs of the partitions are the widest sets, or those of the slices that have taken
them over since the startup. -/
def State.Located (c : Config) (s : State) : Prop :=
  ∃ new, new <+: s.history ∧
    (∀ i k first t, Action.entered i k first t ∈ new → c.role first i = some k) ∧
    ∀ k < c.partitions.length, (s.partition k).currentCpus =
      Action.cpusSince c k ((MajorFrame.findWidestCpuSet c k).getD ∅) new

theorem State.Located.relocates (h : s.Located c) (moves : s.Relocates c s') : s'.Located c := by
  obtain ⟨old, hold, hroles, hcpus⟩ := h
  obtain ⟨-, new, hnew, hroles', hcpus'⟩ := moves
  refine ⟨new ++ old, ?_, fun i k first t hmem => ?_, fun k hk => ?_⟩
  · rw [hnew]
    exact (List.prefix_append_right_inj new).mpr hold
  · rcases List.mem_append.mp hmem with hmem | hmem
    · exact hroles' i k first t hmem
    · exact hroles i k first t hmem
  · rw [hcpus', hcpus k hk, Action.cpusSince_append]

theorem Event.startup_located (h : s.Sound c) (step : Step c s (.startup now) s') :
    s'.Located c := by
  obtain ⟨henabled, run⟩ := step
  have hbegin := startup_initializing h (preparing_of_pending h henabled)
  simp only [dispatch, DemosScheduler.startupFn, PartitionManager.runProcessInit, bind_def,
    bind_eq_ok] at run
  obtain ⟨s₁, hreset, s₂, hresume, run⟩ := run
  have hcpus := PartitionManager.resetAll_cpus hreset
  have hinit := (PartitionManager.resetAll_sound hbegin hreset).2
  obtain ⟨hresumed, -, hpart, -, -, hhistory⟩ :=
    resumeAll_keeps (hinit.managed _) hresume
  have hlocated : s₂.Located c := by
    refine ⟨_, hhistory ▸ List.prefix_append _ _, fun i k first t hmem => ?_, fun k hk => ?_⟩
    · simp at hmem
    · have hsame : ∀ (l : List ProcessId) cpus,
          Action.cpusSince c k cpus (l.map Action.initResumed) = cpus := by
        intro l cpus
        induction l with
        | nil => rfl
        | cons p l ih => exact ih
      rw [← List.map_reverse, hsame, hpart]
      exact hcpus k hk
  split at run
  · exact hlocated.relocates (PartitionManager.finishProcessInit_relocates hresumed run)
  · rw [pure_def, Except.ok.injEq] at run
    exact run ▸ hlocated

theorem Event.Reachable.located {gen : Nat → Nat} {timeout : Option Int} {es : List Event}
    (h : Reachable c gen timeout es s) (started : s.scheduler.startupPending = false) :
    s.Located c := by
  have hall : s.Sound c ∧ (s.scheduler.startupPending = false → s.Located c) := by
    refine h.invariant (I := fun m => m.Sound c ∧ (m.scheduler.startupPending = false →
      m.Located c)) ?_ ⟨State.initial_sound c gen timeout, fun hpending => by
        simp [State.initial] at hpending⟩
    rintro m e m' ⟨hsound, hlocated⟩ step
    refine ⟨(step_turns hsound step).2, fun hpending => ?_⟩
    by_cases hstartup : ∃ now, e = .startup now
    · obtain ⟨now, rfl⟩ := hstartup
      exact startup_located hsound step
    · have hmoves := step_relocates hsound (fun now he => hstartup ⟨now, he⟩) step
      exact (hlocated (hmoves.1.symm.trans hpending)).relocates hmoves
  exact hall.2 started

end Handlers

/-- Where partitions are initialized. From the startup until a slice takes it over, a
partition is on the CPU set of one of its slices that no other of them exceeds; after that
it is on the CPU sets of its slices, and never on more CPUs. -/
theorem initialized_widest {c : Config} {gen : Nat → Nat} {timeout : Option Int} {es : List Event}
    {s : State} (run : Event.Reachable c gen timeout es s)
    (started : s.scheduler.startupPending = false) {k : Nat} {i : SliceId} {sc : Bool}
    (used : c.role sc i = some k) :
    ∃ cpus, c.Widest k cpus ∧
      ((∀ j first t, Action.entered j k first t ∉ s.history) →
        (s.partition k).currentCpus = cpus) ∧
      ∃ j first, c.role first j = some k ∧ (s.partition k).currentCpus = (c.slice j).cpus ∧
        (c.slice j).cpus.card ≤ cpus.card := by
  obtain ⟨new, hnew, hroles, hcpus⟩ := run.located started
  obtain ⟨cpus, hfound⟩ := MajorFrame.findWidestCpuSet_isSome used
  have hwidest := MajorFrame.findWidestCpuSet_widest hfound
  have hnow := hcpus k (Config.role_lt used)
  rw [hfound, Option.getD_some] at hnow
  refine ⟨cpus, hwidest, fun hnone => ?_, ?_⟩
  · rcases Action.cpusSince_cases c k cpus new with ⟨-, hkept⟩ | ⟨j, first, t, hmem, -⟩
    · exact hnow.trans hkept
    · exact absurd (hnew.subset hmem) (hnone j first t)
  · rcases Action.cpusSince_cases c k cpus new with ⟨-, hkept⟩ | ⟨j, first, t, hmem, htaken⟩
    · obtain ⟨⟨j, first, hrole, hj⟩, -⟩ := hwidest
      exact ⟨j, first, hrole, hj ▸ hnow.trans hkept, hj ▸ le_refl _⟩
    · have hrole := hroles j k first t hmem
      exact ⟨j, first, hrole, hnow.trans htaken, hwidest.2 j first hrole⟩

/-- It is initialized on both CPUs, and started on one. -/
theorem initialized_widest_narrowFirst : ∃ (s s' : State) (cpus : CpuSet),
    Config.narrowFirst.Widest 0 cpus ∧ cpus = {0, 1} ∧ (s.partition 0).currentCpus = cpus ∧
    Event.Step .narrowFirst s (.completion ⟨0, 0⟩ 0) s' ∧ (s'.partition 0).currentCpus = {0} := by
  have hrun : ((Event.play .narrowFirst (fun _ _ => True) [.startup 0]
      (State.initial .narrowFirst (fun _ => 0) none)).bind fun s =>
      ((Event.completion ⟨0, 0⟩ 0).dispatch .narrowFirst s).toOption.map fun s' =>
        (s.scheduler.startupPending, s.history, (s.partition 0).currentCpus,
          (s'.partition 0).currentCpus,
          decide ((Event.completion ⟨0, 0⟩ 0).Enabled .narrowFirst s))) =
      some (false, [.initResumed ⟨0, 0⟩], {0, 1}, {0}, true) := by decide
  obtain ⟨s, hplay, hrest⟩ := Option.bind_eq_some_iff.mp hrun
  obtain ⟨s', hs', hvalues⟩ := Option.map_eq_some_iff.mp hrest
  simp only [Prod.mk.injEq] at hvalues
  obtain ⟨hpending, hhistory, hbefore, hafter, henabled⟩ := hvalues
  obtain ⟨cpus, hwidest, hinitial, -⟩ := initialized_widest (Event.play_reachable hplay) hpending
    (show Config.narrowFirst.role true ⟨0, 0⟩ = some 0 from rfl)
  have hcpus := hinitial (by simp [hhistory])
  exact ⟨s, s', cpus, hwidest, hcpus.symm.trans hbefore, hcpus,
    ⟨of_decide_eq_true henabled, toOption_eq_some.mp hs'⟩, hafter⟩

end DemosSched
