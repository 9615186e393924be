import DemosSched.Shutdown

/-! The end of a process. The scheduler learns of it from two sources: the exit of
the child it has spawned, and the changes of the process's cgroup, whose
handlers read the state of the cgroup at the time they run. -/

namespace DemosSched

open Fallible Relation

inductive Child
  | running
  | exited
  | reaped
  deriving DecidableEq, Repr

/-- A process as the kernel has it, and the member of `Process` that waits for
what the child leaves behind. -/
structure Watched where
  child : Child := .running
  /-- The other processes of the cgroup. -/
  descendants : Nat := 0
  /-- A change of the cgroup that `CgroupEvents::event_cb` has not been called for. -/
  notified : Bool := true
  waitingForEmptyCgroup : Bool := false

namespace Watched

def Populated (x : Watched) : Prop := x.child = .running ∨ 0 < x.descendants

instance (x : Watched) : Decidable x.Populated := inferInstanceAs (Decidable (_ ∨ _))

/-- `CgroupUnified::read_populated_status`. -/
def readPopulatedStatus (x : Watched) : Bool := decide x.Populated

/-- The kernel raises an event when the last process leaves the cgroup. -/
def left (x : Watched) : Watched :=
  if x.Populated then x else { x with notified := true }

def childExit (x : Watched) : Watched := left { x with child := .exited }

def fork (x : Watched) : Watched := { x with descendants := x.descendants + 1 }

def descendantExit (x : Watched) : Watched := left { x with descendants := x.descendants - 1 }

end Watched

structure Machine where
  state : State
  watched : ProcessId → Watched

inductive Happening
  | event (e : Event)
  | childExit (p : ProcessId)
  | fork (p : ProcessId)
  | descendantExit (p : ProcessId)
  | childTerminated (p : ProcessId) (now : Int)
  | cgroupEvent (p : ProcessId) (now : Int)
  deriving DecidableEq, Repr

namespace Machine

variable (c : Config)

def initial (gen : Nat → Nat) (timeout : Option Int) : Machine where
  state := State.initial c gen timeout
  watched _ := {}

def setWatched (y : Machine) (p : ProcessId) (x : Watched) : Machine :=
  { y with watched := Function.update y.watched p x }

def handleEnd (p : ProcessId) (now : Int) (y : Machine) : Except Fault Machine :=
  (Process.handleEnd c (DemosScheduler.callbacks c now) p y.state).map fun s =>
    { y with state := s }

def childTerminatedCb (p : ProcessId) (now : Int) (y : Machine) : Except Fault Machine :=
  if (y.watched p).readPopulatedStatus then
    .ok (y.setWatched p { y.watched p with waitingForEmptyCgroup := true })
  else handleEnd c p now y

def populatedCb (p : ProcessId) (now : Int) (populated : Bool) (y : Machine) :
    Except Fault Machine :=
  if populated then .ok y
  else if (y.watched p).waitingForEmptyCgroup then
    handleEnd c p now (y.setWatched p { y.watched p with waitingForEmptyCgroup := false })
  else .ok y

/-- `CgroupEvents::event_cb`. -/
def eventCb (p : ProcessId) (now : Int) (y : Machine) : Except Fault Machine :=
  populatedCb c p now (y.watched p).readPopulatedStatus y

/-- The kernel delivers its events in any order and late; the scheduler's others
come as before. -/
inductive Step : Machine → Happening → Machine → Prop
  | event {y : Machine} {e : Event} {s' : State} (other : ∀ p now, e ≠ .exit p now)
      (step : Event.Step c y.state e s') : Step y (.event e) { y with state := s' }
  | childExit {y : Machine} {p : ProcessId} (valid : c.ValidProcess p)
      (running : (y.watched p).child = .running) :
      Step y (.childExit p) (y.setWatched p (y.watched p).childExit)
  | fork {y : Machine} {p : ProcessId} (valid : c.ValidProcess p)
      (populated : (y.watched p).Populated) : Step y (.fork p) (y.setWatched p (y.watched p).fork)
  | descendantExit {y : Machine} {p : ProcessId} (valid : c.ValidProcess p)
      (some : 0 < (y.watched p).descendants) :
      Step y (.descendantExit p) (y.setWatched p (y.watched p).descendantExit)
  | childTerminated {y y' : Machine} {p : ProcessId} {now : Int} (valid : c.ValidProcess p)
      (exited : (y.watched p).child = .exited)
      (run : childTerminatedCb c p now
        (y.setWatched p { y.watched p with child := .reaped }) = .ok y') :
      Step y (.childTerminated p now) y'
  | cgroupEvent {y y' : Machine} {p : ProcessId} {now : Int} (valid : c.ValidProcess p)
      (notified : (y.watched p).notified = true)
      (run : eventCb c p now (y.setWatched p { y.watched p with notified := false }) = .ok y') :
      Step y (.cgroupEvent p now) y'

end Machine

def Action.OfEnd : Action → Prop
  | .exited _ | .loopBroken => True
  | _ => False

structure State.SameEnds (s s' : State) : Prop where
  spawned : ∀ p, (s'.process p).spawned = (s.process p).spawned
  empty : ∀ k, (s'.partition k).empty = (s.partition k).empty
  grows : s.Grows (fun a => ¬a.OfEnd) s'

namespace State.SameEnds

variable {c : Config} {w : Nat} {t : Int} {s s' s'' : State}

theorem trans (h : s.SameEnds s') (h' : s'.SameEnds s'') : s.SameEnds s'' :=
  ⟨fun p => (h'.spawned p).trans (h.spawned p), fun k => (h'.empty k).trans (h.empty k),
    h.grows.trans h'.grows⟩

theorem effect (h : Effect c w t s s') : s.SameEnds s' := by
  have hgrows : s.Grows (fun a => ¬a.OfEnd) s' := h.grows.mono fun a ha => by
    cases a <;> first | exact id | exact (ha.elim id id).elim
  cases h with
  | entered => exact ⟨fun _ => rfl, fun _ => update_field Partition.empty rfl, hgrows⟩
  | sought => exact ⟨fun _ => rfl, fun _ => update_field Partition.empty rfl, hgrows⟩
  | skipped selected | launched selected =>
    rcases selected.drew_or_same with rfl | rfl <;>
      exact ⟨fun _ => update_field Process.spawned rfl, fun _ => rfl, hgrows⟩
  | stopped => exact ⟨fun _ => update_field Process.spawned rfl, fun _ => rfl, hgrows⟩
  | _ => exact ⟨fun _ => rfl, fun _ => rfl, hgrows⟩

theorem closing (h : Closing c w t s s') : s.SameEnds s' := by
  cases h with
  | effect e => exact .effect e
  | announced => exact ⟨fun _ => rfl, fun _ => rfl, .one (a := .onWindowEnd w) id rfl⟩
  | stopping => exact ⟨fun _ => rfl, fun _ => rfl, .same rfl⟩
  | @shortened i p r =>
    exact ⟨fun _ => update_field Process.spawned rfl, fun _ => rfl, .one (a := .shortened p r) id rfl⟩
  | @released i =>
    refine ⟨fun _ => rfl, fun k => ?_, .same rfl⟩
    rw [State.released_partition]
    split <;> rfl

theorem closings (h : Closings c w t s s') : s.SameEnds s' :=
  h.invariant (I := s.SameEnds) (fun _ _ h e => h.trans (.closing e))
    ⟨fun _ => rfl, fun _ => rfl, .same rfl⟩

theorem turn (h : Turn c Action.Unheard s s') : s.SameEnds s' := by
  cases h with
  | change h =>
    cases h with
    | effects run => exact .closings run.closings
    | closed run => exact .closings run
    | windowArmed t => exact ⟨fun _ => rfl, fun _ => rfl, .one (a := .windowArmed t) id rfl⟩
    | signalled p h | ended p h => exact absurd h id
    | loopBroken h => exact absurd h id
    | _ => exact ⟨fun _ => rfl, fun _ => rfl, .same rfl⟩
  | noted a ha =>
    refine ⟨fun _ => rfl, fun _ => rfl, .one (a := a) ?_ rfl⟩
    rcases ha with rfl | rfl <;> exact id
  | killed p => exact ⟨fun _ => update_field Process.spawned rfl, fun _ => rfl, .one (a := .killed p) id rfl⟩
  | thawed halted p =>
    exact ⟨fun _ => update_field Process.spawned rfl, fun _ => rfl, .one (a := .initResumed p) id rfl⟩
  | suspended halted p =>
    exact ⟨fun _ => update_field Process.spawned rfl, fun _ => rfl, .one (a := .initSuspended p) id rfl⟩
  | takenOver => exact ⟨fun _ => rfl, fun _ => update_field Partition.empty rfl, .same rfl⟩
  | disconnected => exact ⟨fun _ => rfl, fun _ => update_field Partition.empty rfl, .same rfl⟩
  | _ => exact ⟨fun _ => rfl, fun _ => rfl, .same rfl⟩

theorem turns (h : Turns c Action.Unheard s s') : s.SameEnds s' :=
  h.invariant (I := s.SameEnds) (fun _ _ h e => h.trans (.turn e))
    ⟨fun _ => rfl, fun _ => rfl, .same rfl⟩

theorem count (h : s.SameEnds s') {a : Action} (ha : a.OfEnd) :
    s'.history.count a = s.history.count a := by
  obtain ⟨new, hnew, hno⟩ := h.grows
  have hzero : new.count a = 0 := List.count_eq_zero.mpr fun hmem => hno a hmem ha
  rw [hnew, List.count_append, hzero, Nat.zero_add]

end State.SameEnds

/-- Every end was recorded once, the cached flags are right, and the scheduler has
left its loop once if and only if nothing is left to run. -/
structure State.Roll (c : Config) (s : State) : Prop where
  exits : ∀ p, s.history.count (.exited p) = if (s.process p).spawned then 0 else 1
  empty : ∀ k < c.partitions.length, (s.partition k).empty = true ↔
    ∀ q ∈ c.processIds k, (s.process q).spawned = false
  left : s.history.count .loopBroken =
    if c.partitions ≠ [] ∧ ∀ k < c.partitions.length, (s.partition k).empty = true then 1 else 0

namespace State.Roll

variable {c : Config} {s s' m : State} {p : ProcessId} {now : Int}

theorem same (h : s.Roll c) (same : s.SameEnds s') : s'.Roll c where
  exits p := by rw [same.count (a := .exited p) trivial, same.spawned, h.exits]
  empty k hk := by simp only [same.empty, same.spawned, h.empty k hk]
  left := by rw [same.count (a := .loopBroken) trivial, h.left]; simp only [same.empty]

theorem initial (c : Config) (gen : Nat → Nat) (timeout : Option Int) :
    (State.initial c gen timeout).Roll c where
  exits p := by simp [State.initial]
  empty k hk := by
    have hp : (⟨k, 0⟩ : ProcessId) ∈ c.processIds k :=
      c.mem_processIds.mpr ⟨rfl, c.processCount_pos k⟩
    simpa [State.initial] using ⟨_, hp⟩
  left := by
    rw [if_neg]
    · simp [State.initial]
    · rintro ⟨hne, hall⟩
      have := hall 0 (List.length_pos_iff.mpr hne)
      simp [State.initial] at this

theorem nonempty (h : s.Roll c) (valid : c.ValidProcess p) (spawned : (s.process p).spawned = true) :
    (s.partition p.part).empty = false := by
  rw [Bool.eq_false_iff, ne_eq, h.empty p.part valid.1]
  intro hall
  have := hall p (c.mem_processIds.mpr ⟨rfl, valid.2⟩)
  simp [spawned] at this

theorem ended_spawned (s : State) (p q : ProcessId) :
    ((Event.ended c p s).process q).spawned = if q = p then false else (s.process q).spawned := by
  by_cases hq : q = p
  · subst hq
    simp [Event.ended, Partition.updateEmpty]
  · simp [Event.ended, Partition.updateEmpty, hq]

theorem ended_empty (h : s.Roll c) (k : Nat) (hk : k < c.partitions.length) :
    ((Event.ended c p s).partition k).empty = true ↔
      ∀ q ∈ c.processIds k, ((Event.ended c p s).process q).spawned = false := by
  by_cases hkp : k = p.part
  · subst hkp
    simp [Event.ended, Partition.updateEmpty, Process.isSpawned]
  · have hothers : ∀ q ∈ c.processIds k, q ≠ p := by
      intro q hq e
      exact hkp (by rw [← (c.mem_processIds.mp hq).1, e])
    have hsame : ((Event.ended c p s).partition k).empty = (s.partition k).empty := by
      simp [Event.ended, Partition.updateEmpty, hkp]
    rw [hsame, h.empty k hk]
    constructor
    · intro hall q hq
      rw [ended_spawned, if_neg (hothers q hq)]
      exact hall q hq
    · intro hall q hq
      have := hall q hq
      rwa [ended_spawned, if_neg (hothers q hq)] at this

end State.Roll

namespace Event

variable {c : Config} {s s' : State} {p : ProcessId} {now : Int}

/-- An exit ends in `process_exit_cb`, whichever of the two callbacks is bound. -/
theorem exit_turns (h : s.Sound c) (run : (exit p now).dispatch c s = .ok s') :
    ∃ m, Turns c Action.Unheard (ended c p s) m ∧ m.Sound c ∧
      PartitionManager.processExitCb c (DemosScheduler.callbacks c now)
        ((ended c p s).partition p.part).empty m = .ok s' := by
  have hsound := ended_sound h p
  rw [dispatch_exit_eq] at run
  split at run
  · exact ⟨ended c p s, .refl, hsound, run⟩
  · next hcb =>
    have hpreparing : s.Preparing c := h.started.resolve_left fun hst => by
      have : s.manager.exitCb = .processInitExit := hcb
      rw [hst.exitCb] at this
      simp at this
    have hinit : (ended c p s).Initializing c :=
      ⟨hsound, ended_preparing hpreparing p, hpreparing.exitCb hcb⟩
    unfold PartitionManager.processInitExitCb at run
    split at run
    · rw [bind_def, bind_eq_ok] at run
      obtain ⟨m, hdone, run⟩ := run
      obtain ⟨hturns, hm⟩ := PartitionManager.processInitCompletionCb_sound hinit hdone
      exact ⟨m, hturns, hm, run⟩
    · rw [pure_def, bind_def, bind_ok] at run
      exact ⟨ended c p s, .refl, hsound, run⟩

theorem exit_cases (h : s.Sound c) (valid : c.ValidProcess p)
    (run : (exit p now).dispatch c s = .ok s') :
    ∃ m, (ended c p s).SameEnds m ∧
      ((∀ k < c.partitions.length, ((ended c p s).partition k).empty = true) ∧
          s' = (m.setScheduler { m.scheduler with loopBroken := true }).record .loopBroken ∨
        (¬∀ k < c.partitions.length, ((ended c p s).partition k).empty = true) ∧ s' = m) := by
  obtain ⟨m, hturns, hm, run⟩ := exit_turns h run
  have hsame := State.SameEnds.turns hturns
  have hall : ((List.range c.partitions.length).all fun k => (m.partition k).empty) = true ↔
      ∀ k < c.partitions.length, ((ended c p s).partition k).empty = true := by
    simp [hsame.empty]
  unfold PartitionManager.processExitCb at run
  split at run
  · next hpart =>
    rw [Except.ok.injEq] at run
    refine ⟨m, hsame, .inr ⟨fun hempty => ?_, run.symm⟩⟩
    simp [hempty p.part valid.1] at hpart
  · split at run
    · next hempty =>
      simp only [DemosScheduler.callbacks, DemosScheduler.completionCb, bind_def, bind_eq_ok,
        pure_def, Except.ok.injEq] at run
      obtain ⟨m', hstop, rfl⟩ := run
      exact ⟨m', hsame.trans (.turns (MajorFrame.stop_sound hm hstop).1.turns),
        .inl ⟨hall.mp hempty, rfl⟩⟩
    · next hempty =>
      rw [Except.ok.injEq] at run
      exact ⟨m, hsame, .inr ⟨fun h => hempty (hall.mpr h), run.symm⟩⟩

end Event

namespace State.Roll

variable {c : Config} {s s' : State} {p : ProcessId} {now : Int}

theorem exit (h : s.Roll c) (sound : s.Sound c) (valid : c.ValidProcess p)
    (spawned : (s.process p).spawned = true) (run : (Event.exit p now).dispatch c s = .ok s') :
    s'.Roll c ∧ ∀ q, (s'.process q).spawned = if q = p then false else (s.process q).spawned := by
  obtain ⟨m, hsame, hcases⟩ := Event.exit_cases sound valid run
  have hexits : ∀ q, m.history.count (.exited q) =
      if ((Event.ended c p s).process q).spawned then 0 else 1 := by
    intro q
    rw [hsame.count (a := .exited q) trivial]
    have hcount : (Event.ended c p s).history.count (.exited q) =
        s.history.count (.exited q) + if q = p then 1 else 0 := by
      by_cases hq : q = p
      · subst hq
        simp [Event.ended, Partition.updateEmpty]
      · simp [Event.ended, Partition.updateEmpty, hq, Ne.symm hq]
    rw [hcount, h.exits, ended_spawned]
    by_cases hq : q = p
    · subst hq
      simp [spawned]
    · simp [hq]
  have hempty : ∀ k < c.partitions.length, (m.partition k).empty = true ↔
      ∀ q ∈ c.processIds k, (m.process q).spawned = false := by
    intro k hk
    simp only [hsame.empty, hsame.spawned]
    exact h.ended_empty k hk
  have hleft : m.history.count .loopBroken = 0 := by
    have hbefore : s.history.count .loopBroken = 0 := by
      rw [h.left, if_neg]
      rintro ⟨-, hall⟩
      have := hall p.part valid.1
      simp [h.nonempty valid spawned] at this
    rw [hsame.count (a := .loopBroken) trivial]
    simpa [Event.ended, Partition.updateEmpty] using hbefore
  have hne : c.partitions ≠ [] := List.length_pos_iff.mp (by have := valid.1; omega)
  rcases hcases with ⟨hall, rfl⟩ | ⟨hall, rfl⟩
  · refine ⟨⟨fun q => ?_, hempty, ?_⟩, fun q => ?_⟩
    · simpa [hsame.spawned] using hexits q
    · have hleave : c.partitions ≠ [] ∧ ∀ k < c.partitions.length, (m.partition k).empty = true :=
        ⟨hne, fun k hk => by rw [hsame.empty]; exact hall k hk⟩
      rw [State.record_history, List.count_cons_self]
      exact (congrArg (· + 1) hleft).trans (if_pos hleave).symm
    · exact (hsame.spawned q).trans (ended_spawned s p q)
  · refine ⟨⟨fun q => ?_, hempty, ?_⟩, fun q => ?_⟩
    · rw [hexits, hsame.spawned]
    · rw [hleft, if_neg]
      rintro ⟨-, hm⟩
      exact hall fun k hk => by rw [← hsame.empty]; exact hm k hk
    · exact (hsame.spawned q).trans (ended_spawned s p q)

end State.Roll

theorem Event.step_sameEnds {c : Config} {s s' : State} {e : Event} (h : s.Sound c)
    (other : ∀ p now, e ≠ .exit p now) (step : Step c s e s') : s.SameEnds s' := by
  have hreceived : s.SameEnds (e.received c s) := by
    cases e with
    | completion p now =>
      exact ⟨fun _ => State.update_field Process.spawned rfl, fun _ => rfl,
        .one (a := .signalled p) id rfl⟩
    | exit p now => exact absurd rfl (other p now)
    | _ => exact ⟨fun _ => rfl, fun _ => rfl, .same rfl⟩
  have hsilent : ∀ a, e.MayLeave a → Action.Unheard a := by
    cases e with
    | exit p now => exact absurd rfl (other p now)
    | _ => exact fun _ => id
  exact hreceived.trans (.turns ((step_turns h step).1.mono hsilent))

/-- What the scheduler has concluded of a process is true, and it will hear of
what it waits for. -/
structure Watched.Consistent (x : Watched) (spawned : Bool) : Prop where
  waiting : x.waitingForEmptyCgroup = true → x.child = .reaped ∧ spawned = true
  ended : spawned = false → x.child = .reaped ∧ x.descendants = 0
  orphaned : spawned = true → x.child = .reaped →
    x.waitingForEmptyCgroup = true ∧ (x.descendants = 0 → x.notified = true)

namespace Watched.Consistent

variable {x : Watched} {spawned : Bool}

theorem childExit (h : x.Consistent spawned) (running : x.child = .running) :
    x.childExit.Consistent spawned := by
  have hspawned : spawned = true := by
    by_contra hended
    simp [(h.ended (by simpa using hended)).1] at running
  have hwaiting : x.waitingForEmptyCgroup = false := by
    by_contra hwait
    simp [(h.waiting (by simpa using hwait)).1] at running
  unfold Watched.childExit left
  split <;> exact ⟨by simp [hwaiting], by simp [hspawned], by simp⟩

theorem fork (h : x.Consistent spawned) (populated : x.Populated) : x.fork.Consistent spawned where
  waiting := h.waiting
  ended hended := by
    obtain ⟨hreaped, hnone⟩ := h.ended hended
    rcases populated with hrunning | hsome
    · simp [hreaped] at hrunning
    · omega
  orphaned hspawned hreaped := ⟨(h.orphaned hspawned hreaped).1, by simp [Watched.fork]⟩

theorem descendantExit (h : x.Consistent spawned) (some : 0 < x.descendants) :
    x.descendantExit.Consistent spawned := by
  have hended : ¬spawned = false := fun hended => by
    have := (h.ended hended).2
    omega
  unfold Watched.descendantExit left
  split
  · next hpopulated =>
    refine ⟨h.waiting, fun hended' => absurd hended' hended, fun hspawned hreaped => ?_⟩
    refine ⟨(h.orphaned hspawned hreaped).1, fun hnone => ?_⟩
    rcases hpopulated with hrunning | hleft
    · rw [hreaped] at hrunning
      simp at hrunning
    · rw [hnone] at hleft
      simp at hleft
  · exact ⟨h.waiting, fun hended' => absurd hended' hended,
      fun hspawned hreaped => ⟨(h.orphaned hspawned hreaped).1, fun _ => rfl⟩⟩

end Watched.Consistent

structure Machine.Invariant (c : Config) (y : Machine) : Prop where
  sound : y.state.Sound c
  roll : y.state.Roll c
  watched : ∀ p, (y.watched p).Consistent (y.state.process p).spawned

namespace Machine

variable {c : Config} {y y' : Machine} {p : ProcessId} {now : Int} {o : Happening}

theorem initial_invariant (c : Config) (gen : Nat → Nat) (timeout : Option Int) :
    (initial c gen timeout).Invariant c where
  sound := State.initial_sound c gen timeout
  roll := State.Roll.initial c gen timeout
  watched p := ⟨by simp [initial], by simp [initial, State.initial], by simp [initial]⟩

theorem Invariant.setWatched (h : y.Invariant c) {x : Watched}
    (hx : x.Consistent (y.state.process p).spawned) : (y.setWatched p x).Invariant c where
  sound := h.sound
  roll := h.roll
  watched q := by
    by_cases hq : q = p
    · subst hq
      simpa [Machine.setWatched] using hx
    · simpa [Machine.setWatched, hq] using h.watched q

/-- `handle_end` called for a process that has really ended. -/
theorem Invariant.handleEnd {m : Machine} (sound : m.state.Sound c) (roll : m.state.Roll c)
    (others : ∀ q ≠ p, (m.watched q).Consistent (m.state.process q).spawned)
    (valid : c.ValidProcess p) (spawned : (m.state.process p).spawned = true)
    (reaped : (m.watched p).child = .reaped) (gone : (m.watched p).descendants = 0)
    (waiting : (m.watched p).waitingForEmptyCgroup = false)
    (run : Machine.handleEnd c p now m = .ok y') : y'.Invariant c := by
  unfold Machine.handleEnd at run
  rw [map_eq_ok] at run
  obtain ⟨s', hrun, rfl⟩ := run
  obtain ⟨hroll, hspawned⟩ := roll.exit sound valid spawned hrun
  refine ⟨(Event.step_turns sound (e := .exit p now) ⟨⟨valid, spawned⟩, hrun⟩).2, hroll, fun q => ?_⟩
  by_cases hq : q = p
  · subst hq
    have hended : (s'.process q).spawned = false := by simp [hspawned]
    change (m.watched q).Consistent (s'.process q).spawned
    rw [hended]
    exact ⟨by simp [waiting], fun _ => ⟨reaped, gone⟩, by simp⟩
  · change (m.watched q).Consistent (s'.process q).spawned
    rw [hspawned, if_neg hq]
    exact others q hq

theorem Invariant.childTerminated (h : y.Invariant c) (valid : c.ValidProcess p)
    (exited : (y.watched p).child = .exited)
    (run : childTerminatedCb c p now
      (y.setWatched p { y.watched p with child := .reaped }) = .ok y') : y'.Invariant c := by
  have hspawned : (y.state.process p).spawned = true := by
    by_contra hended
    simp [((h.watched p).ended (by simpa using hended)).1] at exited
  have hwaiting : (y.watched p).waitingForEmptyCgroup = false := by
    by_contra hwait
    simp [((h.watched p).waiting (by simpa using hwait)).1] at exited
  unfold childTerminatedCb at run
  split at run
  · next hpopulated =>
    rw [Except.ok.injEq] at run
    subst run
    have hsome : 0 < (y.watched p).descendants := by
      simpa [Machine.setWatched, Watched.readPopulatedStatus, Watched.Populated] using hpopulated
    have htwice : (y.setWatched p { y.watched p with child := .reaped }).setWatched p
        { (y.setWatched p { y.watched p with child := .reaped }).watched p with
          waitingForEmptyCgroup := true } =
        y.setWatched p { y.watched p with child := .reaped, waitingForEmptyCgroup := true } := by
      simp [Machine.setWatched]
    rw [htwice]
    refine h.setWatched ⟨by simp [hspawned], by simp [hspawned], fun _ _ => ⟨rfl, fun hnone => ?_⟩⟩
    have hzero : (y.watched p).descendants = 0 := hnone
    omega
  · next hempty =>
    have hnone : (y.watched p).descendants = 0 := by
      simpa [Machine.setWatched, Watched.readPopulatedStatus, Watched.Populated] using hempty
    refine Invariant.handleEnd (m := y.setWatched p { y.watched p with child := .reaped }) h.sound
      h.roll (fun q hq => ?_) valid hspawned (by simp [Machine.setWatched])
      (by simpa [Machine.setWatched] using hnone) (by simpa [Machine.setWatched] using hwaiting) run
    simpa [Machine.setWatched, hq] using h.watched q

theorem Invariant.cgroupEvent (h : y.Invariant c) (valid : c.ValidProcess p)
    (run : eventCb c p now (y.setWatched p { y.watched p with notified := false }) = .ok y') :
    y'.Invariant c := by
  have hp := h.watched p
  unfold eventCb populatedCb at run
  split at run
  · next hpopulated =>
    rw [Except.ok.injEq] at run
    subst run
    refine h.setWatched ⟨hp.waiting, hp.ended, fun hspawned hreaped => ?_⟩
    refine ⟨(hp.orphaned hspawned hreaped).1, fun hnone => ?_⟩
    have hreaped' : (y.watched p).child = .reaped := hreaped
    have hnone' : (y.watched p).descendants = 0 := hnone
    simp [Machine.setWatched, Watched.readPopulatedStatus, Watched.Populated, hreaped',
      hnone'] at hpopulated
  · next hempty =>
    have hgone : (y.watched p).child ≠ .running ∧ (y.watched p).descendants = 0 := by
      simpa [Machine.setWatched, Watched.readPopulatedStatus, Watched.Populated] using hempty
    split at run
    · next hwaiting =>
      have hwaits : (y.watched p).waitingForEmptyCgroup = true := by
        simpa [Machine.setWatched] using hwaiting
      obtain ⟨hreaped, hspawned⟩ := hp.waiting hwaits
      have htwice : (y.setWatched p { y.watched p with notified := false }).setWatched p
          { (y.setWatched p { y.watched p with notified := false }).watched p with
            waitingForEmptyCgroup := false } =
          y.setWatched p
            { y.watched p with notified := false, waitingForEmptyCgroup := false } := by
        simp [Machine.setWatched]
      rw [htwice] at run
      refine Invariant.handleEnd (m := y.setWatched p
        { y.watched p with notified := false, waitingForEmptyCgroup := false }) h.sound h.roll
        (fun q hq => ?_) valid hspawned (by simpa [Machine.setWatched] using hreaped)
        (by simpa [Machine.setWatched] using hgone.2) (by simp [Machine.setWatched]) run
      simpa [Machine.setWatched, hq] using h.watched q
    · next hwaiting =>
      rw [Except.ok.injEq] at run
      subst run
      have hidle : (y.watched p).waitingForEmptyCgroup = false := by
        simpa [Machine.setWatched] using hwaiting
      refine h.setWatched ⟨hp.waiting, hp.ended, fun hspawned hreaped => ?_⟩
      have := (hp.orphaned hspawned hreaped).1
      simp [hidle] at this

theorem Invariant.step (h : y.Invariant c) (step : Step c y o y') : y'.Invariant c := by
  cases step with
  | @event e s' other step =>
    have hsame := Event.step_sameEnds h.sound other step
    refine ⟨(Event.step_turns h.sound step).2, h.roll.same hsame, fun p => ?_⟩
    change (y.watched p).Consistent (s'.process p).spawned
    rw [hsame.spawned]
    exact h.watched p
  | childExit valid running => exact h.setWatched ((h.watched _).childExit running)
  | fork valid populated => exact h.setWatched ((h.watched _).fork populated)
  | descendantExit valid some => exact h.setWatched ((h.watched _).descendantExit some)
  | childTerminated valid exited run => exact h.childTerminated valid exited run
  | cgroupEvent valid notified run => exact h.cgroupEvent valid run

end Machine

/-- `handle_end` runs at most once for a process, when its child has been reaped
and its cgroup is empty; it has run once nothing more is to be heard of a process
that is gone; and the scheduler's completion callback has run, once, if and only
if it has run for all processes of the configuration. -/
theorem end_detection {c : Config} {gen : Nat → Nat} {timeout : Option Int} {os : List Happening}
    {y : Machine} (run : Run (Machine.Step c) (Machine.initial c gen timeout) os y) :
    (∀ p, y.state.history.count (.exited p) ≤ 1 ∧ (.exited p ∈ y.state.history →
      (y.watched p).child = .reaped ∧ ¬(y.watched p).Populated)) ∧
    (∀ p, (y.watched p).child = .reaped → ¬(y.watched p).Populated →
      (y.watched p).notified = false → .exited p ∈ y.state.history) ∧
    y.state.history.count .loopBroken =
      if c.partitions ≠ [] ∧ ∀ p ∈ c.allProcessIds, .exited p ∈ y.state.history then 1 else 0 := by
  have hinv : y.Invariant c := run.invariant (I := Machine.Invariant c)
    (fun _ _ _ h step => h.step step) (Machine.initial_invariant c gen timeout)
  have hexited : ∀ p, .exited p ∈ y.state.history ↔ (y.state.process p).spawned = false := by
    intro p
    rw [← List.count_pos_iff, hinv.roll.exits]
    cases (y.state.process p).spawned <;> simp
  refine ⟨fun p => ⟨?_, fun hmem => ?_⟩, fun p hreaped hgone hquiet => ?_, ?_⟩
  · rw [hinv.roll.exits]
    split <;> simp
  · obtain ⟨hreaped, hnone⟩ := (hinv.watched p).ended ((hexited p).mp hmem)
    exact ⟨hreaped, by simp [Watched.Populated, hreaped, hnone]⟩
  · rw [hexited]
    by_contra hspawned
    have horphaned := (hinv.watched p).orphaned (by simpa using hspawned) hreaped
    have hnone : (y.watched p).descendants = 0 := by
      simpa [Watched.Populated, hreaped] using hgone
    simp [horphaned.2 hnone] at hquiet
  · rw [hinv.roll.left]
    congr 1
    simp only [eq_iff_iff, and_congr_right_iff]
    intro hne
    simp only [hexited]
    constructor
    · intro hall p hp
      rw [c.mem_allProcessIds] at hp
      exact (hinv.roll.empty p.part hp.1).mp (hall p.part hp.1) p
        (c.mem_processIds.mpr ⟨rfl, hp.2⟩)
    · intro hall k hk
      refine (hinv.roll.empty k hk).mpr fun q hq => hall q ?_
      obtain ⟨rfl, hlt⟩ := c.mem_processIds.mp hq
      exact c.mem_allProcessIds.mpr ⟨hk, hlt⟩

/-- The first process forks and exits, and the orphan exits after it. -/
theorem end_detection_twoProcesses :
    ∃ y : Machine, (y.watched ⟨0, 0⟩).child = .reaped ∧ .exited ⟨0, 0⟩ ∈ y.state.history ∧
      y.state.history.count .loopBroken = if Config.twoProcesses.partitions ≠ [] ∧
        ∀ p ∈ Config.twoProcesses.allProcessIds, .exited p ∈ y.state.history then 1 else 0 := by
  let p : ProcessId := ⟨0, 0⟩
  let y₀ : Machine := Machine.initial .twoProcesses (fun _ => 0) none
  let y₁ := y₀.setWatched p (y₀.watched p).fork
  let y₂ := y₁.setWatched p (y₁.watched p).childExit
  let y₃ := y₂.setWatched p { y₂.watched p with child := .reaped, waitingForEmptyCgroup := true }
  let y₄ := y₃.setWatched p (y₃.watched p).descendantExit
  have hfork : Machine.Step .twoProcesses y₀ (.fork p) y₁ := .fork (by decide) (by decide)
  have hexit : Machine.Step .twoProcesses y₁ (.childExit p) y₂ := .childExit (by decide) (by decide)
  have hreap : Machine.Step .twoProcesses y₂ (.childTerminated p 0) y₃ := by
    refine .childTerminated (by decide) (by decide) ?_
    rw [Machine.childTerminatedCb, if_pos (by decide)]
    simp [y₃, Machine.setWatched]
  have horphan : Machine.Step .twoProcesses y₃ (.descendantExit p) y₄ :=
    .descendantExit (by decide) (by decide)
  have hrun : ((Machine.eventCb .twoProcesses p 0
      (y₄.setWatched p { y₄.watched p with notified := false })).toOption.map fun y =>
        ((y.watched p).child, decide (y.watched p).Populated, (y.watched p).notified)) =
      some (.reaped, false, false) := by decide
  cases hy : Machine.eventCb .twoProcesses p 0
      (y₄.setWatched p { y₄.watched p with notified := false }) with
  | error f => simp [hy, Except.toOption] at hrun
  | ok y =>
    simp only [hy, Except.toOption, Option.map_some, Option.some.injEq, Prod.mk.injEq,
      decide_eq_false_iff_not] at hrun
    have hnotice : Machine.Step .twoProcesses y₄ (.cgroupEvent p 0) y :=
      .cgroupEvent (by decide) (by decide) hy
    have hclaim := end_detection (Run.cons hfork (Run.cons hexit (Run.cons hreap
      (Run.cons horphan (Run.cons hnotice .nil)))))
    exact ⟨y, hrun.1, hclaim.2.1 p hrun.1 hrun.2.1 hrun.2.2, hclaim.2.2⟩

end DemosSched
