import DemosSched.Closing
import DemosSched.DemosScheduler

/-! The invariant of the scheduler between two handlers, and the changes a
handler makes of the scheduling phase is made of. -/

namespace DemosSched

open Fallible Relation

structure State.Coherent (c : Config) (w : Nat) (s : State) : Prop
    extends State.Within c w s where
  owner : ∀ i p, (s.slice i).runningProcess = some p →
    (s.slice i).runningPartition = some p.part ∧ p.index < c.processCount p.part
  armed_iff : ∀ i, (s.slice i).armed = (s.slice i).runningProcess.isSome
  held : ∀ i p, (s.slice i).runningProcess = some p → s.Held c i p.part

theorem State.Held.congr {c : Config} {i : SliceId} {k : Nat} {s s' : State} (h : s.Held c i k)
    (cb : (s'.partition k).completionCb = (s.partition k).completionCb)
    (cpus : (s'.partition k).currentCpus = (s.partition k).currentCpus) : s'.Held c i k :=
  fun hshared => by rw [cb, cpus]; exact h hshared

namespace State.Coherent

variable {c : Config} {w : Nat} {t : Int} {s s' : State}

theorem sought (h : s.Coherent c w) (k j : Nat) : (s.sought k j).Coherent c w := by
  have hpart : ∀ m, ((s.sought k j).partition m).completionCb = (s.partition m).completionCb ∧
      ((s.sought k j).partition m).currentCpus = (s.partition m).currentCpus := by
    intro m
    exact ⟨State.update_field Partition.completionCb rfl,
      State.update_field Partition.currentCpus rfl⟩
  exact ⟨⟨h.running, h.armed, fun m l hm => h.registered m l ((hpart m).1 ▸ hm)⟩, h.owner,
    h.armed_iff, fun l p hp => (h.held l p hp).congr (hpart _).1 (hpart _).2⟩

theorem assigned (h : s.Coherent c w) {i : SliceId} {k : Nat} {first : Bool}
    (member : i ∈ c.sliceIds w) (idle : (s.slice i).runningProcess = none)
    (role : c.role first i = some k)
    (alike : ∀ j q, (s.slice j).runningProcess = some q →
      (s.slice j).runningPartition = c.role first j) : (s.assigned c i k first t).Coherent c w := by
  have hslice : ∀ j, ((s.assigned c i k first t).slice j).runningProcess =
      (s.slice j).runningProcess ∧
      ((s.assigned c i k first t).slice j).armed = (s.slice j).armed := by
    intro j
    exact ⟨State.assigned_running, State.assigned_armed⟩
  have hmem : k ∈ (c.slice i).partitions := by
    cases first <;> simp_all [Config.role, SliceDef.partitions]
  refine ⟨⟨fun j p hp => h.running j p ((hslice j).1 ▸ hp),
    fun j ha => h.armed j ((hslice j).2 ▸ ha), fun m j hm => ?_⟩, fun j p hp => ?_,
    fun j => by rw [(hslice j).1, (hslice j).2, h.armed_iff], fun j q hq hshared => ?_⟩
  · by_cases hmk : m = k
    · subst hmk
      have : i = j := by simpa using hm
      exact this ▸ ⟨member, hmem⟩
    · exact h.registered m j (by simpa [hmk] using hm)
  · have hj : j ≠ i := by
      rintro rfl
      simp [idle] at hp
    simp only [State.assigned_slice, Function.update_of_ne hj] at hp ⊢
    exact h.owner j p hp
  · rw [(hslice j).1] at hq
    have hqk : q.part ≠ k := by
      intro e
      have hown := (h.owner j q hq).1
      rw [alike j q hq, e] at hown
      have heq := hshared.eq (h.running j q hq) member hown role
      rw [heq, idle] at hq
      simp at hq
    rw [State.assigned_partition, Function.update_of_ne hqk]
    exact h.held j q hq hshared

theorem launched (h : s.Coherent c w) {i : SliceId} {p : ProcessId} (b : Int)
    (member : i ∈ c.sliceIds w) (owner : (s.slice i).runningPartition = some p.part)
    (valid : p.index < c.processCount p.part) (held : s.Held c i p.part) :
    (s.launched c i p t b).Coherent c w := by
  refine ⟨⟨fun j q hq => ?_, fun j ha => ?_, h.registered⟩, fun j q hq => ?_, fun j => ?_,
    fun j q hq => ?_⟩
  · rcases State.launched_running.mp hq with ⟨rfl, -⟩ | ⟨-, hj⟩
    · exact member
    · exact h.running j q hj
  · by_cases hj : j = i
    · exact hj ▸ member
    · exact h.armed j (by simpa [hj] using ha)
  · rw [State.launched_runningPartition]
    rcases State.launched_running.mp hq with ⟨rfl, rfl⟩ | ⟨-, hj⟩
    · exact ⟨owner, valid⟩
    · exact h.owner j q hj
  · by_cases hj : j = i
    · subst hj
      simp
    · simpa [hj] using h.armed_iff j
  · rcases State.launched_running.mp hq with ⟨rfl, rfl⟩ | ⟨-, hj⟩
    · exact held
    · exact h.held j q hj

theorem stopped (h : s.Coherent c w) {i : SliceId} (p : ProcessId) (mark : Bool) :
    (s.stopped i p t mark).Coherent c w := by
  refine ⟨⟨fun j q hq => ?_, fun j ha => ?_, h.registered⟩, fun j q hq => ?_, fun j => ?_,
    fun j q hq => ?_⟩
  · exact h.running j q (State.stopped_running.mp hq).2
  · exact h.armed j (State.stopped_armed.mp ha).2
  · rw [State.stopped_runningPartition]
    exact h.owner j q (State.stopped_running.mp hq).2
  · by_cases hj : j = i
    · subst hj
      simp
    · simpa [hj] using h.armed_iff j
  · exact h.held j q (State.stopped_running.mp hq).2

theorem effect (h : s.Coherent c w) (effect : Effect c w t s s') : s'.Coherent c w := by
  cases effect with
  | noted | windowSet => exact ⟨⟨h.running, h.armed, h.registered⟩, h.owner, h.armed_iff, h.held⟩
  | sought => exact h.sought _ _
  | entered first member idle role alike => exact h.assigned member idle role alike
  | skipped selected =>
    rcases selected.drew_or_same with rfl | rfl <;>
      exact ⟨⟨h.running, h.armed, h.registered⟩, h.owner, h.armed_iff, h.held⟩
  | @launched s₁ i p b selected ne held =>
    rcases selected.drew_or_same with rfl | rfl
    · exact h.launched b selected.member selected.owner selected.valid held
    · have hdrew : (s.drew c p).Coherent c w :=
        ⟨⟨h.running, h.armed, h.registered⟩, h.owner, h.armed_iff, h.held⟩
      exact hdrew.launched b selected.member selected.owner selected.valid held
  | stopped mark => exact h.stopped _ mark

theorem held_partition (h : s.Coherent c w) {i : SliceId} {p : ProcessId} {k : Nat}
    (running : (s.slice i).runningProcess = some p) (hk : (s.slice i).runningPartition = some k) :
    s.Held c i k := by
  have howner := (h.owner i p running).1
  rw [hk, Option.some.injEq] at howner
  exact howner ▸ h.held i p running

theorem effects (h : s.Coherent c w) (run : Effects c w t s s') : s'.Coherent c w :=
  run.invariant (fun _ _ h e => h.effect e) h

end State.Coherent

namespace State

structure Started (s : State) : Prop where
  exitCb : s.manager.exitCb = .processExit
  completionCb : ∀ k, (s.partition k).completionCb ≠ .processInit
  startup : s.scheduler.startupPending = false

structure Preparing (c : Config) (s : State) : Prop where
  halted : s.Halted
  unarmed : s.frame.armed = false
  completionCb : ∀ k, (s.partition k).completionCb = .processInit →
    k < c.partitions.length ∧ s.scheduler.startupPending = false
  exitCb : s.manager.exitCb = .processInitExit → s.scheduler.startupPending = false
  fresh : ∀ p, (s.process p).completed = false
  closed : s.course.stage = .closed

variable {c : Config} {w : Nat} {t : Int} {s s' : State}

theorem processInit_closings (run : Closings c w t s s') (k : Nat)
    (h : (s'.partition k).completionCb = .processInit) :
    (s.partition k).completionCb = .processInit := by
  have hset : ∀ (s : State) (m : Nat) (x : Partition),
      (x.completionCb = .processInit → (s.partition m).completionCb = .processInit) →
      (Function.update s.partition m x k).completionCb = .processInit →
      (s.partition k).completionCb = .processInit := by
    intro s m x hx hk
    by_cases hkm : k = m
    · subst hkm
      exact hx (by simpa using hk)
    · simpa [hkm] using hk
  induction run with
  | refl => exact h
  | tail _ last ih =>
    refine ih ?_
    cases last with
    | effect e =>
      cases e with
      | entered => exact hset _ _ _ (by simp) h
      | sought => exact hset _ _ _ (by exact id) h
      | skipped selected | launched selected =>
        rcases selected.drew_or_same with rfl | rfl <;> exact h
      | _ => exact h
    | released =>
      simp only [State.released_partition] at h
      split at h
      · simp at h
      · exact h
    | _ => exact h

theorem Started.closings (h : s.Started) (run : Closings c w t s s') : s'.Started := by
  obtain ⟨-, hmanager, hscheduler⟩ := run.outside
  exact ⟨by rw [hmanager]; exact h.exitCb,
    fun k hk => h.completionCb k (processInit_closings run k hk),
    by rw [hscheduler]; exact h.startup⟩

theorem Preparing.closings (h : s.Preparing c) (run : Closings c w t s s') (halted : s'.Halted)
    (process : s'.process = s.process) (closed : s'.course.stage = .closed) : s'.Preparing c := by
  obtain ⟨hframe, hmanager, hscheduler⟩ := run.outside
  refine ⟨halted, by rw [hframe]; exact h.unarmed, fun k hk => ?_, ?_, by
    rw [process]; exact h.fresh, closed⟩
  · rw [hscheduler]
    exact h.completionCb k (processInit_closings run k hk)
  · rw [hmanager, hscheduler]
    exact h.exitCb

end State

/-- What holds between two handlers, from the start of the program on. -/
structure State.Sound (c : Config) (s : State) : Prop where
  queues : s.QueuesValid c
  window : s.frame.currentWin < c.windows.length
  opened : ∀ w, (s.window w).stopping = false
  coherent : s.Coherent c s.frame.currentWin
  phase : s.Halted ∧ s.course.stage = .closed ∨ Phase c s.frame.currentWin s
  started : s.Started ∨ s.Preparing c

def Action.OfSetup : Action → Prop
  | .initResumed _ | .initSuspended _ | .initFinished | .killed _ | .shutdown => True
  | _ => False

/-- The state in which `Partition::completed_cb` finds a signal of `q`. -/
def Process.signalled (q : ProcessId) (s : State) : State :=
  (s.setProcess q { s.process q with demosCompleted := true }).record (.signalled q)

/-- The end of a process, before the callbacks of its partition. -/
def Event.ended (c : Config) (p : ProcessId) (s : State) : State :=
  Partition.updateEmpty c p.part
    ((s.setProcess p { s.process p with spawned := false }).record (.exited p))

/-- What the handlers of the scheduling phase are made of. `ok` tells which signals
and exits they hear of, and whether the loop may be left. -/
inductive Change (c : Config) (ok : Action → Prop) : State → State → Prop
  | effects {s s' : State} {t : Int} (h : Effects c s.frame.currentWin t s s')
      (course : Phase c s.frame.currentWin s ∧ Phase c s.frame.currentWin s' ∨
        Window.Startable c s.frame.currentWin s ∧
          Window.start c s.frame.currentWin t s = .ok s') :
      Change c ok s s'
  | closed {s s' : State} {t : Int} (h : Closings c s.frame.currentWin t s s')
      (halted : s'.Halted) (course : s'.course = s.course.next (.onWindowEnd s.frame.currentWin))
      (grows : s.Grows Action.SameRun s') : Change c ok s s'
  | moved {s : State} (halted : s.Halted) (closed : s.course.stage = .closed) :
      Change c ok s (MajorFrame.moveToNextWindow c s)
  | framed {s : State} (timeout : Int) (armed : Bool) :
      Change c ok s (s.setFrame { s.frame with timeout := timeout, armed := armed })
  | windowArmed {s : State} (t : Int) : Change c ok s (s.record (.windowArmed t))
  | signalled {s : State} (p : ProcessId) (h : ok (.signalled p)) :
      Change c ok s (Process.signalled p s)
  | ended {s : State} (p : ProcessId) (h : ok (.exited p)) : Change c ok s (Event.ended c p s)
  | loopBroken {s : State} (h : ok .loopBroken) :
      Change c ok s ((s.setScheduler { s.scheduler with loopBroken := true }).record .loopBroken)

abbrev Changes (c : Config) (ok : Action → Prop) : State → State → Prop :=
  ReflTransGen (Change c ok)

def Action.Unheard (_ : Action) : Prop := False

section Hearing

variable {c : Config} {ok ok' : Action → Prop} {s s' : State}

theorem Change.mono (h : Change c ok s s') (sub : ∀ a, ok a → ok' a) : Change c ok' s s' := by
  cases h with
  | effects h course => exact .effects h course
  | closed h halted course grows => exact .closed h halted course grows
  | moved halted closed => exact .moved halted closed
  | framed timeout armed => exact .framed timeout armed
  | windowArmed t => exact .windowArmed t
  | signalled p h => exact .signalled p (sub _ h)
  | ended p h => exact .ended p (sub _ h)
  | loopBroken h => exact .loopBroken (sub _ h)

theorem Changes.mono (h : Changes c ok s s') (sub : ∀ a, ok a → ok' a) : Changes c ok' s s' :=
  ReflTransGen.mono (fun _ _ h => h.mono sub) s s' h

theorem Changes.of_unheard (h : Changes c Action.Unheard s s') : Changes c ok s s' :=
  h.mono fun _ => False.elim

end Hearing

theorem Changes.invariant {c : Config} {ok : Action → Prop} {s s' : State}
    {I : State → Prop} (keeps : ∀ s s', I s → Change c ok s s' → I s')
    (run : Changes c ok s s') (start : I s) : I s' := by
  induction run with
  | refl => exact start
  | tail _ last ih => exact keeps _ _ ih last

section Congruence

variable {c : Config} {w : Nat} {s s' : State}

theorem BePhase.congr {calls : List Action} (h : BePhase c w calls s) (slice : s'.slice = s.slice)
    (window : s'.window = s.window) (course : s'.course = s.course) : BePhase c w calls s' where
  alike := by rw [slice]; exact h.alike
  finished := by rw [window]; exact h.finished
  stage := by rw [course]; exact h.stage
  calls := by rw [course]; exact h.calls
  entered := by rw [slice, course]; exact h.entered

theorem ScPhase.congr {done : List SliceId} {calls : List Action} (h : ScPhase c w done calls s)
    (slice : s'.slice = s.slice) (window : s'.window = s.window) (course : s'.course = s.course)
    (pending : ∀ p, Process.isPending p s = false → Process.isPending p s' = false) :
    ScPhase c w done calls s' where
  alike := by rw [slice]; exact h.alike
  count := by
    have hidle : s'.isIdle = s.isIdle := by
      funext i
      rw [State.isIdle, State.isIdle, slice]
    rw [window, hidle]
    exact h.count
  opened := by rw [window]; exact h.opened
  unfinished := by rw [window]; exact h.unfinished
  stage := by rw [course]; exact h.stage
  calls := by rw [course]; exact h.calls
  entered := by rw [slice, course]; exact h.entered
  exhausted i hi hidle k hk := by
    rw [slice] at hidle ⊢
    exact (h.exhausted i hi hidle k hk).imp_left fun he j hj => pending _ (he j hj)

theorem Phase.congr (h : Phase c w s) (slice : s'.slice = s.slice) (window : s'.window = s.window)
    (course : s'.course = s.course)
    (pending : ∀ p, Process.isPending p s = false → Process.isPending p s' = false) :
    Phase c w s' :=
  h.imp (fun h => h.imp (fun h => h.congr slice window course pending)
    fun ⟨h, hdone⟩ => ⟨h.congr slice window course, hdone⟩)
    fun h => h.congr slice window course

theorem State.Halted.congr (h : s.Halted) (slice : s'.slice = s.slice)
    (cb : ∀ k, (s'.partition k).completionCb = (s.partition k).completionCb) : s'.Halted :=
  ⟨fun i => by rw [slice]; exact h.idle i, fun i => by rw [slice]; exact h.unarmed i,
    fun k i => by rw [cb]; exact h.disconnected k i⟩

theorem State.Coherent.congr (h : s.Coherent c w) (slice : s'.slice = s.slice)
    (cb : ∀ k, (s'.partition k).completionCb = (s.partition k).completionCb)
    (cpus : ∀ k, (s'.partition k).currentCpus = (s.partition k).currentCpus) :
    s'.Coherent c w where
  running := by rw [slice]; exact h.running
  armed := by rw [slice]; exact h.armed
  registered k i := by rw [cb]; exact h.registered k i
  owner := by rw [slice]; exact h.owner
  armed_iff := by rw [slice]; exact h.armed_iff
  held i p hp := (h.held i p (slice ▸ hp)).congr (cb _) (cpus _)

theorem State.Halted.coherent (h : s.Halted) : s.Coherent c w where
  running i p hp := by simp [h.idle i] at hp
  armed i ha := by simp [h.unarmed i] at ha
  registered k i hk := absurd hk (h.disconnected k i)
  owner i p hp := by simp [h.idle i] at hp
  armed_iff i := by simp [h.unarmed i, h.idle i]
  held i p hp := by simp [h.idle i] at hp

/-- Soundness reads the slices, the windows, the queues, the callbacks, the current
window, its records, and which processes are left to run. -/
theorem State.Sound.congr (h : s.Sound c) (slice : s'.slice = s.slice)
    (window : s'.window = s.window) (course : s'.course = s.course)
    (current : s'.frame.currentWin = s.frame.currentWin)
    (pending : ∀ p, Process.isPending p s = false → Process.isPending p s' = false)
    (part : ∀ k, (s'.partition k).currentProc = (s.partition k).currentProc ∧
      (s'.partition k).completionCb = (s.partition k).completionCb ∧
      (s'.partition k).currentCpus = (s.partition k).currentCpus)
    (started : s'.Started ∨ s'.Preparing c) : s'.Sound c where
  queues k := by rw [(part k).1]; exact h.queues k
  window := by rw [current]; exact h.window
  opened w := by rw [window]; exact h.opened w
  coherent := by
    rw [current]
    exact h.coherent.congr slice (fun k => (part k).2.1) fun k => (part k).2.2
  phase := by
    rw [current]
    exact h.phase.imp (fun h => ⟨h.1.congr slice fun k => (part k).2.1, by rw [course]; exact h.2⟩)
      (fun h => h.congr slice window course pending)
  started := started

theorem State.Started.framed (h : s.Started) (x : MajorFrame) : (s.setFrame x).Started :=
  ⟨h.exitCb, h.completionCb, h.startup⟩

theorem State.Sound.disarmed (h : s.Sound c) :
    (s.setFrame { s.frame with armed := false }).Sound c :=
  h.congr rfl rfl rfl rfl (fun _ => id) (fun _ => ⟨rfl, rfl, rfl⟩)
    (h.started.imp (fun h => h.framed _) fun h =>
      ⟨h.halted.congr rfl fun _ => rfl, rfl, h.completionCb, h.exitCb, h.fresh, h.closed⟩)

end Congruence

namespace MajorFrame

variable {c : Config} {s s' : State}

theorem start_sound {t : Int} (h : s.Sound c) (halted : s.Halted)
    (closed : s.course.stage = .closed) (started : s.Started) (run : start c t s = .ok s') :
    Changes c Action.Unheard s s' ∧ s'.Sound c ∧ s'.Started := by
  simp only [start, bind_def, bind_eq_ok, pure_def, Except.ok.injEq] at run
  obtain ⟨s₁, hstart, rfl⟩ := run
  have hready : Window.Startable c s.frame.currentWin s :=
    ⟨halted.idle, closed, h.opened _, h.queues⟩
  obtain ⟨heffects, hphase⟩ := Window.start_phase hready hstart
  obtain ⟨hframe, -, -⟩ := heffects.outside
  have hstarted : s₁.Started := started.closings heffects.closings
  have hsound : s₁.Sound c :=
    { queues := h.queues.effects heffects
      window := by rw [hframe]; exact h.window
      opened := fun w => by rw [heffects.window_stopping]; exact h.opened w
      coherent := by rw [hframe]; exact h.coherent.effects heffects
      phase := by rw [hframe]; exact .inr hphase
      started := .inl hstarted }
  have hstarted' : ((s₁.setFrame { s₁.frame with
      timeout := t + (c.window s₁.frame.currentWin).length * nsPerMs, armed := true }).record
      (.windowArmed (t + (c.window s₁.frame.currentWin).length * nsPerMs))).Started :=
    ⟨hstarted.exitCb, hstarted.completionCb, hstarted.startup⟩
  refine ⟨?_, hsound.congr rfl rfl rfl rfl (fun _ => id) (fun _ => ⟨rfl, rfl, rfl⟩)
    (.inl hstarted'), hstarted'⟩
  exact (ReflTransGen.single (.effects heffects (.inr ⟨hready, hstart⟩))).tail (.framed _ true) |>.tail
    (.windowArmed _)

theorem moveToNextWindow_sound (h : s.Sound c) (halted : s.Halted)
    (closed : s.course.stage = .closed) (started : s.Started) :
    (moveToNextWindow c s).Sound c :=
  have hmoved : (moveToNextWindow c s).Halted := halted.congr rfl fun _ => rfl
  { queues := h.queues
    window := CyclicSearch.next_lt h.window
    opened := h.opened
    coherent := hmoved.coherent
    phase := .inl ⟨hmoved, closed⟩
    started := .inl ⟨started.exitCb, started.completionCb, started.startup⟩ }

theorem stopWindow_sound {t : Int} (h : s.Sound c)
    (run : Window.stop c s.frame.currentWin t s = .ok s') :
    Change c Action.Unheard s s' ∧ s'.Sound c ∧ s'.Halted ∧ s'.course.stage = .closed ∧
      (s.Started → s'.Started) := by
  obtain ⟨hclosings, hhalted, hcourse, hgrows, hopen, hothers⟩ :=
    Window.stop_halted h.queues h.coherent.toWithin run
  have hclosed : s'.course.stage = .closed := by rw [hcourse]; rfl
  obtain ⟨hframe, -, -⟩ := hclosings.outside
  refine ⟨.closed hclosings hhalted hcourse hgrows, ?_, hhalted, hclosed,
    fun started => started.closings hclosings⟩
  exact
    { queues := h.queues.closings hclosings
      window := by rw [hframe]; exact h.window
      opened := by
        intro w
        by_cases hw : w = s.frame.currentWin
        · exact hw ▸ hopen
        · rw [hothers w hw]
          exact h.opened w
      coherent := hhalted.coherent
      phase := .inl ⟨hhalted, hclosed⟩
      started := h.started.imp (fun h => h.closings hclosings)
        fun h => h.closings hclosings hhalted (Window.stop_idle h.halted.idle run).1 hclosed }

theorem stop_sound {t : Int} (h : s.Sound c) (run : stop c t s = .ok s') :
    Changes c Action.Unheard s s' ∧ s'.Sound c ∧ s'.Halted ∧ s'.frame.armed = false ∧
      (s.Started → s'.Started) := by
  have hframed := h.disarmed
  obtain ⟨hchange, hsound, hhalted, -, hstarted⟩ := stopWindow_sound hframed run
  refine ⟨(ReflTransGen.single (.framed s.frame.timeout false)).tail hchange, hsound, hhalted, ?_,
    fun started => hstarted (started.framed _)⟩
  unfold stop at run
  rw [(Window.stop_halted hframed.queues hframed.coherent.toWithin run).1.outside.1]
  rfl

theorem timeoutCb_sound (h : s.Sound c) (started : s.Started) (run : timeoutCb c s = .ok s') :
    Changes c Action.Unheard s s' ∧ s'.Sound c ∧ s'.Started := by
  simp only [timeoutCb, bind_def, bind_eq_ok] at run
  obtain ⟨s₁, hstop, hstart⟩ := run
  obtain ⟨hchange, hsound, hhalted, hclosed, hkeeps⟩ := stopWindow_sound h hstop
  have hstarted := hkeeps started
  have hmoved := moveToNextWindow_sound hsound hhalted hclosed hstarted
  obtain ⟨hchanges, hsound', hstarted'⟩ := start_sound hmoved (hhalted.congr rfl fun _ => rfl)
    hclosed ⟨hstarted.exitCb, hstarted.completionCb, hstarted.startup⟩ hstart
  exact ⟨((ReflTransGen.single hchange).tail (.moved hhalted hclosed)).trans hchanges, hsound', hstarted'⟩

end MajorFrame

theorem Slice.scheduleNext_effects {c : Config} {s s' : State} {i : SliceId} {t : Int}
    (h : s.Sound c) (run : scheduleNext c (Window.scDone c) i t s = .ok s') :
    Effects c s.frame.currentWin t s s' ∧ Phase c s.frame.currentWin s ∧
      Phase c s.frame.currentWin s' := by
  obtain ⟨p, k, hp, -, -⟩ := scheduleNext_ok c _ run
  have hphase : Phase c s.frame.currentWin s := by
    rcases h.phase with ⟨hhalted, -⟩ | hphase
    · simp [hhalted.idle i] at hp
    · exact hphase
  obtain ⟨heffects, hphase'⟩ :=
    scheduleNext_phase hphase h.queues (h.coherent.running i p hp)
      (fun k hk => h.coherent.held_partition hp hk) run
  exact ⟨heffects, hphase, hphase'⟩

theorem Slice.scheduleNext_sound {c : Config} {s s' : State} {i : SliceId} {t : Int}
    (h : s.Sound c) (started : s.Started)
    (run : scheduleNext c (Window.scDone c) i t s = .ok s') :
    Change c Action.Unheard s s' ∧ s'.Sound c ∧ s'.Started := by
  obtain ⟨heffects, hphase, hphase'⟩ := scheduleNext_effects h run
  obtain ⟨hframe, -, -⟩ := heffects.outside
  have hstarted := started.closings heffects.closings
  refine ⟨.effects heffects (.inl ⟨hphase, hphase'⟩), ?_, hstarted⟩
  exact
    { queues := h.queues.effects heffects
      window := by rw [hframe]; exact h.window
      opened := fun w => by rw [heffects.window_stopping]; exact h.opened w
      coherent := by rw [hframe]; exact h.coherent.effects heffects
      phase := by rw [hframe]; exact .inr hphase'
      started := .inl hstarted }

theorem DemosScheduler.completionCb_sound {c : Config} {s s' : State} {now : Int}
    (h : s.Sound c) (run : completionCb c now s = .ok s') :
    Changes c (· = .loopBroken) s s' ∧ s'.Sound c ∧ (s.Started → s'.Started) := by
  simp only [completionCb, bind_def, bind_eq_ok, pure_def, Except.ok.injEq] at run
  obtain ⟨s₁, hstop, rfl⟩ := run
  obtain ⟨hchanges, hsound, -, -, hkeeps⟩ := MajorFrame.stop_sound h hstop
  refine ⟨hchanges.of_unheard.tail (.loopBroken rfl),
    hsound.congr rfl rfl rfl rfl (fun _ => id) (fun _ => ⟨rfl, rfl, rfl⟩)
      (hsound.started.imp (fun h => ⟨h.exitCb, h.completionCb, h.startup⟩)
        fun h => ⟨h.halted.congr rfl fun _ => rfl, h.unarmed, h.completionCb, h.exitCb,
          h.fresh, h.closed⟩),
    fun started => ?_⟩
  have hstarted := hkeeps started
  exact ⟨hstarted.exitCb, hstarted.completionCb, hstarted.startup⟩

namespace Event

variable {c : Config} {s s' : State}

/-- The state in which the callbacks of an event run. -/
def received (c : Config) : Event → State → State
  | completion p _, s => Process.signalled p s
  | exit p _, s => ended c p s
  | _, s => s

def MayLeave : Event → Action → Prop
  | exit _ _, a => a = .loopBroken
  | _, _ => False

theorem received_changes (e : Event) (s : State) :
    Changes c (fun _ => True) s (e.received c s) := by
  cases e with
  | completion p now => exact .single (.signalled p trivial)
  | exit p now => exact .single (.ended p trivial)
  | _ => exact .refl

theorem signalled_pending (q p : ProcessId) (s : State) :
    Process.isPending p (Process.signalled q s) = Process.isPending p s := by
  by_cases hp : p = q
  · subst hp
    simp [Process.signalled, Process.isPending, Process.isSpawned]
  · simp [Process.signalled, Process.isPending, Process.isSpawned, hp]

theorem ended_pending (p q : ProcessId) (h : Process.isPending q s = false) :
    Process.isPending q (ended c p s) = false := by
  by_cases hq : q = p
  · subst hq
    simp [ended, Partition.updateEmpty, Process.isPending, Process.isSpawned]
  · simpa [ended, Partition.updateEmpty, Process.isPending, Process.isSpawned, hq] using h

theorem ended_partition (p : ProcessId) (s : State) (k : Nat) :
    ((ended c p s).partition k).currentProc = (s.partition k).currentProc ∧
      ((ended c p s).partition k).completionCb = (s.partition k).completionCb ∧
      ((ended c p s).partition k).currentCpus = (s.partition k).currentCpus := by
  by_cases hk : k = p.part
  · subst hk
    simp [ended, Partition.updateEmpty]
  · simp [ended, Partition.updateEmpty, hk]

theorem ended_started (started : s.Started) (p : ProcessId) : (ended c p s).Started :=
  ⟨started.exitCb, fun k => by rw [(ended_partition p s k).2.1]; exact started.completionCb k,
    started.startup⟩

theorem dispatch_exit {p : ProcessId} {now : Int}
    (h : (ended c p s).manager.exitCb = .processExit) :
    (exit p now).dispatch c s =
      PartitionManager.processExitCb c (DemosScheduler.callbacks c now)
        ((ended c p s).partition p.part).empty (ended c p s) := by
  have hcb : (Partition.updateEmpty c p.part ((s.setProcess p
      { s.process p with spawned := false }).record (.exited p))).manager.exitCb = .processExit := h
  rw [dispatch, Process.handleEnd, Partition.procExitCb]
  simp only [hcb]
  rfl

/-- Every event of the scheduling phase keeps the invariant. -/
theorem step_sound {e : Event} (h : s.Sound c) (started : s.Started) (scheduling : e.Scheduling)
    (step : Step c s e s') : Changes c e.MayLeave (e.received c s) s' ∧ s'.Sound c ∧ s'.Started := by
  obtain ⟨henabled, run⟩ := step
  cases e with
  | startup | signal | userTimeout => exact absurd scheduling id
  | windowTimer =>
    obtain ⟨hchanges, hsound, hstarted⟩ :=
      MajorFrame.timeoutCb_sound h.disarmed (started.framed _) run
    exact ⟨.head (.framed s.frame.timeout false) hchanges.of_unheard, hsound, hstarted⟩
  | sliceTimer i =>
    rw [dispatch, Slice.scheduleNext_disarmed] at run
    obtain ⟨hchange, hsound, hstarted⟩ := Slice.scheduleNext_sound h started run
    exact ⟨.single (hchange.mono fun _ => False.elim), hsound, hstarted⟩
  | completion p now =>
    simp only [dispatch, Process.completedCb, Partition.completedCb] at run
    have hstarted : (Process.signalled p s).Started :=
      ⟨started.exitCb, started.completionCb, started.startup⟩
    have hsignalled : (Process.signalled p s).Sound c :=
      h.congr rfl rfl rfl rfl
        (fun q hq => by rw [signalled_pending, hq]) (fun _ => ⟨rfl, rfl, rfl⟩) (.inl hstarted)
    split at run
    · simp at run
    · rw [Except.ok.injEq] at run
      exact run ▸ ⟨.refl, hsignalled, hstarted⟩
    · next hcb => exact absurd hcb (hstarted.completionCb _)
    · obtain ⟨hchange, hsound, hstarted'⟩ := Slice.scheduleNext_sound hsignalled hstarted run
      exact ⟨.single (hchange.mono fun _ => False.elim), hsound, hstarted'⟩
  | exit p now =>
    have hstarted := ended_started (c := c) started p
    have hsound : (ended c p s).Sound c := h.congr rfl rfl rfl rfl
      (fun _ => ended_pending p _) (ended_partition p s) (.inl hstarted)
    rw [dispatch_exit hstarted.exitCb] at run
    simp only [PartitionManager.processExitCb] at run
    split at run
    · rw [Except.ok.injEq] at run
      exact run ▸ ⟨.refl, hsound, hstarted⟩
    · split at run
      · obtain ⟨hrest, hsound', hstarted'⟩ := DemosScheduler.completionCb_sound hsound run
        exact ⟨hrest, hsound', hstarted' hstarted⟩
      · rw [Except.ok.injEq] at run
        exact run ▸ ⟨.refl, hsound, hstarted⟩

theorem step_changes {e : Event} (h : s.Sound c) (started : s.Started) (scheduling : e.Scheduling)
    (step : Step c s e s') : Changes c (fun _ => True) s s' :=
  (received_changes e s).trans ((step_sound h started scheduling step).1.mono fun _ _ => trivial)

end Event

end DemosSched
