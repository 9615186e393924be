import DemosSched.Handling

/-! A schedule whose timers are delivered in the order of their expiry. What its
handlers do is put together to moves, each with the window it belongs to and its
nominal time. -/

namespace DemosSched

open Fallible Relation

section Keeping

variable {c : Config} {w : Nat} {u t : Int} {s s' : State}

theorem Action.current_picked (c : Config) (s : State) (i : SliceId) (p : ProcessId) (t : Int) :
    current (s.picked c i p t).history = current s.history := by
  rcases s.picked_history c i p t with h | ⟨o, h⟩
  · rw [h]
    rfl
  · rw [h]
    rfl

theorem Act.current (h : Act c w u t s s') :
    Action.current s'.history = Action.current s.history := by
  cases h with
  | noted a ha => rcases ha with rfl | rfl | rfl <;> rfl
  | served member serve =>
    cases serve with
    | begun | resumed => exact Action.current_picked c _ _ _ _
    | _ => rfl
  | _ => rfl

theorem Act.frame (h : Act c w u t s s') : s'.frame = s.frame := by
  cases h with
  | served member serve =>
    cases serve with
    | begun | resumed => exact State.picked_frame c _ _ _ _
    | _ => rfl
  | _ => rfl

theorem Acts.current (run : Acts c w u t s s') :
    Action.current s'.history = Action.current s.history :=
  run.invariant (I := fun m => Action.current m.history = Action.current s.history)
    (fun _ _ h e => e.current.trans h) rfl

theorem Acts.frame (run : Acts c w u t s s') : s'.frame = s.frame :=
  run.invariant (I := fun m => m.frame = s.frame) (fun _ _ h e => e.frame.trans h) rfl

end Keeping

/-- Nothing recorded of the slices lies behind `t`, and no timer is due before `t`;
timers expire whole milliseconds from `t₀`. -/
structure State.Timely (t₀ t : Int) (s : State) : Prop where
  ends : ∀ i, Action.scEnd i s.history ≤ t
  due : ∀ i, (s.slice i).armed = true → t ≤ (s.slice i).timeout
  aligned : ∀ i, (s.slice i).armed = true → nsPerMs ∣ (s.slice i).timeout - t₀

namespace State.Timely

variable {c : Config} {t₀ t : Int} {s : State}

theorem congr {s' : State} (h : s.Timely t₀ t)
    (ends : ∀ i, Action.scEnd i s'.history = Action.scEnd i s.history)
    (slice : ∀ i, (s'.slice i).armed = true →
      (s.slice i).armed = true ∧ (s'.slice i).timeout = (s.slice i).timeout) :
    s'.Timely t₀ t where
  ends i := by rw [ends]; exact h.ends i
  due i hi := by rw [(slice i hi).2]; exact h.due i (slice i hi).1
  aligned i hi := by rw [(slice i hi).2]; exact h.aligned i (slice i hi).1

theorem stopped (h : s.Timely t₀ t) (i : SliceId) (p : ProcessId) (mark : Bool) :
    (s.stopped i p t mark).Timely t₀ t where
  ends l := by
    change (if i = l then t else Action.scEnd l s.history) ≤ t
    split
    · exact le_rfl
    · exact h.ends l
  due l hl := by
    rw [State.stopped_timeout]
    exact h.due l (State.stopped_armed.mp hl).2
  aligned l hl := by
    rw [State.stopped_timeout]
    exact h.aligned l (State.stopped_armed.mp hl).2

theorem released (h : s.Timely t₀ t) (i : SliceId) : (s.released c i).Timely t₀ t :=
  h.congr (fun _ => rfl) fun _ hl =>
    ⟨(State.released_armed.mp hl).2, State.released_timeout⟩

theorem picked (h : s.Timely t₀ t) (regular : s.Regular c) (aligned : nsPerMs ∣ t - t₀)
    (i : SliceId) (p : ProcessId) : (s.picked c i p t).Timely t₀ t where
  ends l := by
    rcases s.picked_history c i p t with hh | ⟨o, hh⟩
    · rw [hh]
      exact h.ends l
    · rw [hh]
      exact h.ends l
  due l hl := by
    rw [State.picked_slice] at hl ⊢
    by_cases hli : l = i
    · subst hli
      have hpos := (regular.budgeted p).1
      simp only [Function.update_self]
      unfold nsPerMs
      omega
    · simp only [Function.update_of_ne hli] at hl ⊢
      exact h.due l hl
  aligned l hl := by
    rw [State.picked_slice] at hl ⊢
    by_cases hli : l = i
    · subst hli
      simp only [Function.update_self]
      rw [show t + (s.process p).actualBudget * nsPerMs - t₀ =
        t - t₀ + (s.process p).actualBudget * nsPerMs by omega]
      exact Int.dvd_add aligned (Int.dvd_mul_left _ _)
    · simp only [Function.update_of_ne hli] at hl ⊢
      exact h.aligned l hl

theorem act {w : Nat} {u : Int} {s' : State} (h : s.Timely t₀ t) (regular : s.Regular c)
    (aligned : nsPerMs ∣ t - t₀) (act : Act c w u t s s') : s'.Timely t₀ t := by
  cases act with
  | noted a ha =>
    exact h.congr (fun _ => by rcases ha with rfl | rfl | rfl <;> rfl) fun _ hl => ⟨hl, rfl⟩
  | @served _ i k member serve =>
    cases serve with
    | begun first idle =>
      have hassigned : (s.assigned c i k first t).Timely t₀ t :=
        h.congr (fun _ => rfl) fun _ hl =>
          ⟨State.assigned_armed.symm.trans hl, State.assigned_timeout⟩
      exact hassigned.picked (regular.assigned i k first t) aligned i _
    | resumed => exact (h.stopped i _ true).picked (regular.stopped i _ t true) aligned i _
    | drained => exact (h.stopped i _ true).congr (fun _ => rfl) fun _ hl => ⟨hl, rfl⟩
    | @cut j r =>
      have hshortened : (s.shortened ⟨k, j⟩ r).Timely t₀ t :=
        h.congr (fun _ => rfl) fun _ hl => ⟨hl, rfl⟩
      exact (hshortened.stopped i _ false).released i
    | dropped => exact (h.stopped i _ false).released i
    | @spent j =>
      have hreleased : ((s.stopped i ⟨k, j⟩ t true).released c i).Timely t₀ t :=
        (h.stopped i _ true).released i
      exact hreleased.congr (fun _ => rfl) fun _ hl => ⟨hl, rfl⟩
  | released => exact h.released _
  | _ => exact h.congr (fun _ => rfl) fun _ hl => ⟨hl, rfl⟩

end State.Timely

/-- The window that follows the one started last, with its nominal start; the
schedule begins with the first window at `t₀`. -/
def Config.follow (c : Config) (t₀ : Int) : Option (Nat × Int) → Nat × Int
  | none => (0, t₀)
  | some (w, u) => (CyclicSearch.next c.windows.length w, c.windowEnd w u)

/-- What an undisturbed schedule begun at `t₀` is made of. -/
inductive Move (c : Config) (t₀ : Int) : State → State → Prop
  | act {s s' : State} {w : Nat} {u t : Int} (current : Action.current s.history = some (w, u))
      (aligned : nsPerMs ∣ t - t₀) (h : Act c w u t s s') : Move c t₀ s s'
  | windowStarted {s : State} (w : Nat) (u : Int) (idle : s.AllIdle)
      (closed : s.course.stage = .closed)
      (next : (w, u) = c.follow t₀ (Action.current s.history)) :
      Move c t₀ s ((s.record (.windowStarted w u)).setWindow w
        { s.window w with finishedScPartitions := 0 })
  | framed {s : State} (x : MajorFrame) : Move c t₀ s (s.setFrame x)
  | windowArmed {s : State} (t : Int) : Move c t₀ s (s.record (.windowArmed t))
  | scheduled {s : State} (x : DemosScheduler) : Move c t₀ s (s.setScheduler x)

abbrev Moves (c : Config) (t₀ : Int) : State → State → Prop := ReflTransGen (Move c t₀)

theorem Moves.invariant {c : Config} {t₀ : Int} {s s' : State} {I : State → Prop}
    (keeps : ∀ s s', I s → Move c t₀ s s' → I s') (run : Moves c t₀ s s') (start : I s) :
    I s' := by
  induction run with
  | refl => exact start
  | tail _ last ih => exact keeps _ _ ih last

theorem State.Regular.move {c : Config} {t₀ : Int} {s s' : State} (h : s.Regular c)
    (move : Move c t₀ s s') : s'.Regular c := by
  cases move with
  | act _ _ act => exact h.act act
  | _ => exact ⟨h.queues, h.budgeted, h.spawned⟩

theorem Acts.moves {c : Config} {w : Nat} {u t t₀ : Int} {s s' : State}
    (run : Acts c w u t s s') (current : Action.current s.history = some (w, u))
    (aligned : nsPerMs ∣ t - t₀) : Moves c t₀ s s' := by
  have hall : Moves c t₀ s s' ∧ Action.current s'.history = some (w, u) :=
    run.invariant (I := fun m => Moves c t₀ s m ∧ Action.current m.history = some (w, u))
      (fun _ _ h e => ⟨h.1.tail (.act h.2 aligned e), e.current.trans h.2⟩) ⟨.refl, current⟩
  exact hall.1

structure State.Underway (c : Config) (t₀ : Int) (s : State) : Prop where
  sound : s.Sound c
  started : s.Started
  regular : s.Regular c
  roles : s.Roles c s.frame.currentWin (c.sliceIds s.frame.currentWin)
  armed : s.frame.armed = true
  window : ∃ u, Action.current s.history = some (s.frame.currentWin, u) ∧
    s.frame.timeout = c.windowEnd s.frame.currentWin u ∧ nsPerMs ∣ u - t₀
  ends : ∀ i j, (s.slice j).armed = true → Action.scEnd i s.history ≤ (s.slice j).timeout
  aligned : ∀ i, (s.slice i).armed = true → nsPerMs ∣ (s.slice i).timeout - t₀

def Config.PositiveLengths (c : Config) : Prop := ∀ w ∈ c.windows, 0 < w.length

instance (c : Config) : Decidable c.PositiveLengths := inferInstanceAs (Decidable (∀ _ ∈ _, _))

theorem Config.PositiveLengths.window {c : Config} (h : c.PositiveLengths) {w : Nat}
    (hw : w < c.windows.length) : 0 < (c.window w).length := by
  rw [Config.window, List.getD_eq_getElem _ _ hw]
  exact h _ (List.getElem_mem hw)

theorem Config.PositiveLengths.lt_windowEnd {c : Config} (h : c.PositiveLengths) {w : Nat}
    (hw : w < c.windows.length) (u : Int) : u < c.windowEnd w u := by
  have hpos := h.window hw
  unfold Config.windowEnd nsPerMs
  omega

theorem Config.windowEnd_aligned (c : Config) (w : Nat) {u t₀ : Int} (h : nsPerMs ∣ u - t₀) :
    nsPerMs ∣ c.windowEnd w u - t₀ := by
  rw [Config.windowEnd, show u + (c.window w).length * nsPerMs - t₀ =
    u - t₀ + (c.window w).length * nsPerMs by omega]
  exact Int.dvd_add h (Int.dvd_mul_left _ _)

namespace State.Underway

variable {c : Config} {w : Nat} {u t₀ : Int} {s s' : State}

theorem phase (h : s.Underway c t₀) : Phase c s.frame.currentWin s :=
  h.sound.phase.resolve_left fun hhalted => h.roles.stage_ne hhalted.2

theorem current_eq (h : s.Underway c t₀) (inWindow : Action.current s.history = some (w, u)) :
    w = s.frame.currentWin ∧ s.frame.timeout = c.windowEnd w u := by
  obtain ⟨v, hv, htimeout, -⟩ := h.window
  obtain ⟨rfl, rfl⟩ := Action.current_unique inWindow hv
  exact ⟨rfl, htimeout⟩

theorem sliceTimer (h : s.Underway c t₀) (zero : c.ZeroJitter) {i : SliceId}
    (onTime : Event.OnTime c s (.sliceTimer i)) (step : Event.Step c s (.sliceTimer i) s') :
    Moves c t₀ s s' ∧ s'.Underway c t₀ := by
  obtain ⟨hwin, hslices⟩ := onTime
  obtain ⟨hsound, hstarted⟩ := (Event.step_sound (e := .sliceTimer i) h.sound h.started trivial step).2
  obtain ⟨henabled, run⟩ := step
  have harmed : (s.slice i).armed = true := henabled
  have hmember := h.sound.coherent.armed i harmed
  obtain ⟨p, hp⟩ : ∃ p, (s.slice i).runningProcess = some p := by
    rw [h.sound.coherent.armed_iff] at harmed
    exact Option.isSome_iff_exists.mp harmed
  rw [Event.dispatch, Slice.scheduleNext_disarmed] at run
  obtain ⟨u, hcurrent, htimeout, haligned⟩ := h.window
  have hbefore : (s.slice i).timeout < c.windowEnd s.frame.currentWin u :=
    htimeout ▸ (hwin h.armed).2 i hmember rfl
  have htimely : s.Timely t₀ (s.slice i).timeout :=
    { ends := fun l => h.ends l i harmed
      due := fun l hl => hslices l (h.sound.coherent.armed l hl) hl
      aligned := h.aligned }
  obtain ⟨hacts, hroles⟩ := Slice.timer_acts (u := u) zero h.phase h.regular h.sound.coherent h.roles
    hp rfl hbefore htimely.ends run
  have hboth : s'.Regular c ∧ s'.Timely t₀ (s.slice i).timeout :=
    hacts.invariant (I := fun m => m.Regular c ∧ m.Timely t₀ (s.slice i).timeout)
      (fun _ _ hm e => ⟨hm.1.act e, hm.2.act hm.1 (h.aligned i harmed) e⟩) ⟨h.regular, htimely⟩
  have hframe := hacts.frame
  refine ⟨hacts.moves hcurrent (h.aligned i harmed), ?_⟩
  exact
    { sound := hsound
      started := hstarted
      regular := hboth.1
      roles := by rw [hframe]; exact hroles
      armed := by rw [hframe]; exact h.armed
      window := ⟨u, by rw [hframe, hacts.current]; exact hcurrent, by rw [hframe]; exact htimeout,
        haligned⟩
      ends := fun l j hj => (hboth.2.ends l).trans (hboth.2.due j hj)
      aligned := hboth.2.aligned }

end State.Underway

theorem MajorFrame.start_underway {c : Config} {t₀ u : Int} {s s' : State} (zero : c.ZeroJitter)
    (positive : c.PositiveLengths) (sound : s.Sound c) (halted : s.Halted)
    (closed : s.course.stage = .closed) (started : s.Started) (regular : s.Regular c)
    (aligned : nsPerMs ∣ u - t₀)
    (next : (s.frame.currentWin, u) = c.follow t₀ (Action.current s.history))
    (run : start c u s = .ok s') : Moves c t₀ s s' ∧ s'.Underway c t₀ := by
  obtain ⟨-, hsound, hstarted⟩ := start_sound sound halted closed started run
  simp only [start, bind_def, bind_eq_ok, pure_def, Except.ok.injEq] at run
  obtain ⟨m, hstart, rfl⟩ := run
  have hready : Window.Startable c s.frame.currentWin s :=
    ⟨halted.idle, closed, sound.opened _, sound.queues⟩
  obtain ⟨hacts, hroles⟩ := Window.start_acts zero hready regular
    (positive.lt_windowEnd sound.window u) hstart
  set s₀ := (s.record (.windowStarted s.frame.currentWin u)).setWindow s.frame.currentWin
    { s.window s.frame.currentWin with finishedScPartitions := 0 } with hs₀
  have hregular : s₀.Regular c := ⟨regular.queues, regular.budgeted, regular.spawned⟩
  have htimely : s₀.Timely t₀ u :=
    { ends := fun _ => le_rfl
      due := fun i hi => by
        have := halted.unarmed i
        simp [hs₀, this] at hi
      aligned := fun i hi => by
        have := halted.unarmed i
        simp [hs₀, this] at hi }
  have hboth : m.Regular c ∧ m.Timely t₀ u :=
    hacts.invariant (I := fun m => m.Regular c ∧ m.Timely t₀ u)
      (fun _ _ hm e => ⟨hm.1.act e, hm.2.act hm.1 aligned e⟩) ⟨hregular, htimely⟩
  have hframe : m.frame = s.frame := hacts.frame
  have hcurrent : Action.current m.history = some (s.frame.currentWin, u) := hacts.current
  refine ⟨?_, ?_⟩
  · exact (((ReflTransGen.single (.windowStarted _ u halted.idle closed next)).trans
      (hacts.moves rfl aligned)).tail (.framed _)).tail (.windowArmed _)
  · exact
      { sound := hsound
        started := hstarted
        regular := ⟨hboth.1.queues, hboth.1.budgeted, hboth.1.spawned⟩
        roles := by
          have hwin : m.frame.currentWin = s.frame.currentWin := by rw [hframe]
          change State.Roles c m.frame.currentWin (c.sliceIds m.frame.currentWin) _
          rw [hwin]
          exact hroles.congr rfl rfl
        armed := rfl
        window := ⟨u, by
          change Action.current m.history = some (m.frame.currentWin, u)
          rw [hframe]
          exact hcurrent, rfl, aligned⟩
        ends := fun l j hj => (hboth.2.ends l).trans (hboth.2.due j hj)
        aligned := hboth.2.aligned }

theorem State.Underway.windowTimer {c : Config} {t₀ : Int} {s s' : State} (h : s.Underway c t₀)
    (zero : c.ZeroJitter) (positive : c.PositiveLengths)
    (onTime : Event.OnTime c s .windowTimer) (step : Event.Step c s .windowTimer s') :
    Moves c t₀ s s' ∧ s'.Underway c t₀ := by
  obtain ⟨-, run⟩ := step
  rw [Event.dispatch_windowTimer, bind_eq_ok] at run
  obtain ⟨m, hstop, hstart⟩ := run
  set s₀ := s.setFrame { s.frame with armed := false } with hs₀
  have hsound₀ : s₀.Sound c := h.sound.congr rfl rfl rfl rfl (fun _ => id) (fun _ => ⟨rfl, rfl, rfl⟩)
    (.inl ⟨h.started.exitCb, h.started.completionCb, h.started.startup⟩)
  have hregular₀ : s₀.Regular c := ⟨h.regular.queues, h.regular.budgeted, h.regular.spawned⟩
  obtain ⟨u, hcurrent, htimeout, haligned⟩ := h.window
  have hacts := Window.stop_acts (u := u) (t := s.frame.timeout) (s := s₀)
    (h.phase.congr rfl rfl rfl fun _ => id) hregular₀ hsound₀.coherent htimeout
    (fun i hi => onTime.2 i (h.sound.coherent.armed i hi) hi) (h.roles.congr rfl rfl) hstop
  obtain ⟨-, hsound, hhalted, hclosed, hkeeps⟩ := MajorFrame.stopWindow_sound hsound₀ hstop
  have hstarted := hkeeps ⟨h.started.exitCb, h.started.completionCb, h.started.startup⟩
  have hend : nsPerMs ∣ s.frame.timeout - t₀ := by
    rw [htimeout]
    exact c.windowEnd_aligned _ haligned
  have hframe : m.frame.timeout = s.frame.timeout := by
    rw [hacts.frame]
    rfl
  have hregular := hregular₀.acts hacts
  have hnext : ((MajorFrame.moveToNextWindow c m).frame.currentWin, s.frame.timeout) =
      c.follow t₀ (Action.current (MajorFrame.moveToNextWindow c m).history) := by
    have hlast : Action.current (MajorFrame.moveToNextWindow c m).history =
        some (s.frame.currentWin, u) := hacts.current.trans hcurrent
    rw [hlast, MajorFrame.moveToNextWindow, State.setFrame_frame, hacts.frame, htimeout]
    rfl
  rw [hframe] at hstart
  obtain ⟨hmoves, hunderway⟩ := MajorFrame.start_underway zero positive
    (MajorFrame.moveToNextWindow_sound hsound hhalted hclosed hstarted) (hhalted.congr rfl fun _ => rfl)
    hclosed ⟨hstarted.exitCb, hstarted.completionCb, hstarted.startup⟩
    ⟨hregular.queues, hregular.budgeted, hregular.spawned⟩ hend hnext hstart
  refine ⟨.head (.framed _) ((hacts.moves hcurrent hend).trans (.head (.framed _) hmoves)), hunderway⟩

end DemosSched
