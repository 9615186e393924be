import DemosSched.PartitionManager

/-! `DemosScheduler` and the events its loop delivers. A timer is delivered only
while it is armed; apart from that the events come in any order, and `now` is
what `steady_clock::now()` returns to the handler that asks. -/

namespace DemosSched

namespace DemosScheduler

variable (c : Config)

def initiateShutdown (now : Int) (s : State) : Except Fault State := do
  let s ← MajorFrame.stop c now s
  return (PartitionManager.killAll c s).record .shutdown

def startScheduler (now : Int) (s : State) : Except Fault State :=
  if s.scheduler.timeout = some 0 then initiateShutdown c now s
  else do
    let s ← MajorFrame.start c now s
    if s.scheduler.timeout.isSome then
      return s.setScheduler { s.scheduler with timeout := none, timeoutArmed := true }
    return s

def completionCb (now : Int) (s : State) : Except Fault State := do
  let s ← MajorFrame.stop c now s
  return (s.setScheduler { s.scheduler with loopBroken := true }).record .loopBroken

def callbacks (now : Int) : PartitionManager.Callbacks where
  initCb := startScheduler c now
  completionCb := completionCb c now

def startupFn (now : Int) (s : State) : Except Fault State :=
  PartitionManager.runProcessInit c (callbacks c now)
    (s.setScheduler { s.scheduler with startupPending := false })

end DemosScheduler

/-- The scheduler after `setup`, with its processes spawned. -/
def State.initial (c : Config) (gen : Nat → Nat) (timeout : Option Int) : State where
  process p := { actualBudget := (c.process p).budget, spawned := true }
  partition _ := {}
  slice _ := {}
  window _ := {}
  frame := {}
  manager := {}
  scheduler := { timeout := timeout }
  gen := gen
  history := []

inductive Event
  | startup (now : Int)
  | windowTimer
  | sliceTimer (i : SliceId)
  | completion (p : ProcessId) (now : Int)
  | exit (p : ProcessId) (now : Int)
  | signal (now : Int)
  | userTimeout (now : Int)
  deriving DecidableEq, Repr

namespace Event

variable (c : Config)

def Enabled (s : State) : Event → Prop
  | startup _ => s.scheduler.startupPending = true
  | windowTimer => s.frame.armed = true
  | sliceTimer i => (s.slice i).armed = true
  | completion p _ => c.ValidProcess p
  | exit p _ => c.ValidProcess p ∧ (s.process p).spawned = true
  | signal _ => True
  | userTimeout _ => s.scheduler.timeoutArmed = true

instance (s : State) (e : Event) : Decidable (e.Enabled c s) := by
  cases e <;> unfold Enabled <;> infer_instance

/-- The handler of an event; the watcher of a timer stops before its callback runs. -/
def dispatch : Event → State → Except Fault State
  | startup now, s => DemosScheduler.startupFn c now s
  | windowTimer, s => MajorFrame.timeoutCb c (s.setFrame { s.frame with armed := false })
  | sliceTimer i, s =>
    Slice.scheduleNext c (Window.scDone c) i (s.slice i).timeout
      (s.setSlice i { s.slice i with armed := false })
  | completion p now, s => Process.completedCb c (DemosScheduler.callbacks c now) p now s
  | exit p now, s => Process.handleEnd c (DemosScheduler.callbacks c now) p s
  | signal now, s => DemosScheduler.initiateShutdown c now s
  | userTimeout now, s =>
    DemosScheduler.initiateShutdown c now
      (s.setScheduler { s.scheduler with timeoutArmed := false })

/-- One event delivered and handled without a fault. -/
def Step (s : State) (e : Event) (s' : State) : Prop :=
  e.Enabled c s ∧ e.dispatch c s = .ok s'

def Scheduling : Event → Prop
  | windowTimer | sliceTimer _ | completion _ _ | exit _ _ => True
  | startup _ | signal _ | userTimeout _ => False

instance (e : Event) : Decidable e.Scheduling := by
  cases e <;> unfold Scheduling <;> infer_instance

/-- The nominal time of an event: the expiry of its timer, or its arrival. -/
def nominal (s : State) : Event → Int
  | windowTimer => s.frame.timeout
  | sliceTimer i => (s.slice i).timeout
  | startup now | completion _ now | exit _ now | signal now | userTimeout now => now

/-- No armed timer is due before the event, and on a tie the window timer comes
before the timers of the slices. -/
def OnTime (s : State) (e : Event) : Prop :=
  (s.frame.armed = true → e.nominal s ≤ s.frame.timeout ∧
    ∀ i ∈ c.sliceIds s.frame.currentWin, e = sliceTimer i → e.nominal s < s.frame.timeout) ∧
  ∀ i ∈ c.sliceIds s.frame.currentWin, (s.slice i).armed = true → e.nominal s ≤ (s.slice i).timeout

instance (s : State) (e : Event) : Decidable (e.OnTime c s) := inferInstanceAs (Decidable (_ ∧ _))

section Play

variable (may : State → Event → Prop) [∀ s e, Decidable (may s e)]

/-- The events delivered one after the other; `none` when one of them may not
come or is not enabled, or when its handler fails. -/
def play : List Event → State → Option State
  | [], s => some s
  | e :: es, s =>
    if may s e ∧ e.Enabled c s then
      match e.dispatch c s with
      | .ok s' => play es s'
      | .error _ => none
    else none

variable {may}

theorem play_run {es : List Event} {s s' : State} (h : play c may es s = some s') :
    Fallible.Run (fun s e s' => may s e ∧ Step c s e s') s es s' := by
  induction es generalizing s with
  | nil =>
    rw [play, Option.some.injEq] at h
    exact h ▸ .nil
  | cons e es ih =>
    unfold play at h
    split at h
    · next hmay =>
      split at h
      · next m hm => exact .cons ⟨hmay.1, hmay.2, hm⟩ (ih h)
      · simp at h
    · simp at h

theorem play_step {e : Event} {s s' : State} (h : play c may [e] s = some s') :
    may s e ∧ Step c s e s' := by
  unfold play at h
  split at h
  · next hmay =>
    split at h
    · next m hm =>
      rw [play, Option.some.injEq] at h
      exact ⟨hmay.1, hmay.2, h ▸ hm⟩
    · simp at h
  · simp at h

end Play

end Event

end DemosSched
