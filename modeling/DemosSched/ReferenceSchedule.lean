import DemosSched.LateEvents
import DemosSched.WindowTurns
import Mathlib.Data.Finset.Max

/-! The reference schedule: at every moment of an undisturbed run the windows, the SC
processes and the BE phases that have been started are those of the timetable up to
that moment, and the timer of what comes next can be handled. -/

namespace DemosSched

open Fallible Relation

variable {c : Config} {t₀ : Int} {w : Nat} {u t : Int} {s s' : State}

def State.Prompt (c : Config) (s : State) : Prop :=
  ∀ w u, Action.current s.history = some (w, u) → ∀ i p, (s.slice i).runningProcess = some p →
    (s.slice i).timeout < c.windowEnd w u + (c.process p).budget * nsPerMs

namespace State.Prompt

theorem congr (h : s.Prompt c) (current : Action.current s'.history = Action.current s.history)
    (slice : ∀ i p, (s'.slice i).runningProcess = some p →
      (s.slice i).runningProcess = some p ∧ (s'.slice i).timeout = (s.slice i).timeout) :
    s'.Prompt c := by
  intro w u hcurrent i p hp
  obtain ⟨hrun, htimeout⟩ := slice i p hp
  rw [htimeout]
  exact h w u (current ▸ hcurrent) i p hrun

theorem stopped (h : s.Prompt c) (i : SliceId) (p : ProcessId) (t : Int) (mark : Bool) :
    (s.stopped i p t mark).Prompt c :=
  h.congr rfl fun _ _ hq => ⟨(State.stopped_running.mp hq).2, State.stopped_timeout⟩

theorem released (h : s.Prompt c) (i : SliceId) : (s.released c i).Prompt c :=
  h.congr rfl fun _ _ hq => ⟨State.released_running.symm.trans hq, State.released_timeout⟩

theorem picked (h : s.Prompt c) (regular : s.Regular c)
    (inWindow : Action.current s.history = some (w, u)) (before : t < c.windowEnd w u)
    (i : SliceId) (p : ProcessId) : (s.picked c i p t).Prompt c := by
  intro v x hcurrent l q hq
  rw [Action.current_picked, inWindow, Option.some.injEq, Prod.mk.injEq] at hcurrent
  obtain ⟨rfl, rfl⟩ := hcurrent
  rw [State.picked_slice] at hq ⊢
  by_cases hli : l = i
  · subst hli
    rw [Function.update_self] at hq ⊢
    obtain rfl : p = q := by simpa using hq
    have hle := (regular.budgeted p).2
    dsimp only
    unfold nsPerMs
    omega
  · rw [Function.update_of_ne hli] at hq ⊢
    exact h w u inWindow l q hq

theorem act (h : s.Prompt c) (regular : s.Regular c)
    (inWindow : Action.current s.history = some (w, u)) (act : Act c w u t s s') :
    s'.Prompt c := by
  have hcurrent := act.current
  cases act with
  | @served _ i k member serve =>
    cases serve with
    | begun first _ _ _ _ _ before =>
      have hassigned : (s.assigned c i k first t).Prompt c :=
        h.congr rfl fun _ _ hq =>
          ⟨State.assigned_running.symm.trans hq, State.assigned_timeout⟩
      exact hassigned.picked (regular.assigned i k first t) inWindow before i _
    | @resumed j j' _ _ before =>
      exact (h.stopped i ⟨k, j⟩ t true).picked (regular.stopped i _ t true) inWindow before i _
    | drained => exact (h.stopped i _ t true).congr rfl fun _ _ hq => ⟨hq, rfl⟩
    | @cut j r =>
      have hshortened : (s.shortened ⟨k, j⟩ r).Prompt c := h.congr rfl fun _ _ hq => ⟨hq, rfl⟩
      exact (hshortened.stopped i _ t false).released i
    | dropped => exact (h.stopped i _ t false).released i
    | @spent j =>
      exact ((h.stopped i ⟨k, j⟩ t true).released i).congr rfl fun _ _ hq => ⟨hq, rfl⟩
  | released => exact h.released _
  | _ => exact h.congr hcurrent fun _ _ hq => ⟨hq, rfl⟩

theorem move (h : s.Prompt c) (regular : s.Regular c) (move : Move c t₀ s s') : s'.Prompt c := by
  cases move with
  | act inWindow _ act => exact h.act regular inWindow act
  | windowStarted w u idle =>
    intro v x _ i p hp
    have hrun : (s.slice i).runningProcess = some p := hp
    simp [idle i] at hrun
  | _ => exact h.congr rfl fun _ _ hq => ⟨hq, rfl⟩

end State.Prompt

section Progress

/-- While the timer of the window is armed, it or the timer of a slice is the next to be
delivered. -/
theorem Event.exists_due (armed : s.frame.armed = true) :
    ∃ e : Event, e.Undisturbed c s ∧ e.Enabled c s := by
  by_cases hall : ∀ i ∈ c.sliceIds s.frame.currentWin, (s.slice i).armed = true →
      s.frame.timeout ≤ (s.slice i).timeout
  · exact ⟨.windowTimer, ⟨fun _ => ⟨le_rfl, fun _ _ he => by simp at he⟩, hall⟩, armed⟩
  · push Not at hall
    obtain ⟨l, hl, hlarmed, hearly⟩ := hall
    obtain ⟨i, hi, hleast⟩ := ((c.sliceIds s.frame.currentWin).toFinset.filter fun i =>
      (s.slice i).armed = true).exists_min_image (fun i => (s.slice i).timeout)
        ⟨l, by simp [hl, hlarmed]⟩
    have hmin : ∀ m ∈ c.sliceIds s.frame.currentWin, (s.slice m).armed = true →
        (s.slice i).timeout ≤ (s.slice m).timeout := fun m hm harmed =>
      hleast m (by simp [hm, harmed])
    have hlt : (s.slice i).timeout < s.frame.timeout := (hmin l hl hlarmed).trans_lt hearly
    exact ⟨.sliceTimer i, ⟨fun _ => ⟨hlt.le, fun _ _ _ => hlt⟩, hmin⟩, (Finset.mem_filter.mp hi).2⟩

theorem State.Underway.handled (h : s.Underway c t₀) (prompt : s.Prompt c) {e : Event}
    (undisturbed : e.Undisturbed c s) (enabled : e.Enabled c s) : ∃ s', Event.Step c s e s' := by
  have hbudgeted : s.Budgeted c := h.regular.budgeted
  cases e with
  | startup now =>
    have hpending : s.scheduler.startupPending = true := enabled
    simp [h.started.startup] at hpending
  | windowTimer =>
    obtain ⟨u, hcurrent, htimeout, -⟩ := h.window
    rcases Window.stop_outcome (t := s.frame.timeout) h.sound.disarmed with ⟨-, m, hm⟩ | ⟨⟨i, hi⟩, -⟩
    · obtain ⟨s', hs'⟩ := Event.windowTimer_rest_total h.sound h.started hbudgeted hm
      refine ⟨s', enabled, ?_⟩
      rw [Event.dispatch_windowTimer, bind_eq_ok]
      exact ⟨m, hm, hs'⟩
    · refine absurd ((Slice.inTime_congr (s := s) rfl).mpr fun p hrun _ => ?_) hi
      have harmed : (s.slice i).armed = true := by
        rw [h.sound.coherent.armed_iff, hrun]
        rfl
      have hdue : s.frame.timeout ≤ (s.slice i).timeout :=
        undisturbed.2 i (h.sound.coherent.running i p hrun) harmed
      have hprompt := prompt _ u hcurrent i p hrun
      rw [← htimeout] at hprompt
      have hpos : 0 < nsPerMs := by decide
      exact ⟨by omega, hprompt⟩
  | sliceTimer i =>
    obtain ⟨s', hs'⟩ := Event.sliceTimer_total h.sound hbudgeted enabled
    exact ⟨s', enabled, hs'⟩
  | completion p now =>
    have hunarmed : s.frame.armed = false := undisturbed
    simp [h.armed] at hunarmed
  | exit | signal | userTimeout => exact absurd undisturbed id

end Progress

/-- Slice `i` has started all processes of its SC partition `k` that fit in a window
started at `u`, or the first ones, and its timer expires when their budgets are used up. -/
def State.KeepsUp (c : Config) (i : SliceId) (k : Nat) (u : Int) (s : State) : Prop :=
  Action.starts k s.history = (c.slicePlan i k u).reverse ∨
    ∃ j, (List.range (j + 1)).map (c.scStart i k u) <+: c.slicePlan i k u ∧
      Action.starts k s.history = ((List.range (j + 1)).map (c.scStart i k u)).reverse ∧
      (s.slice i).armed = true ∧ (s.slice i).timeout = u + c.offset k (j + 1) * nsPerMs

/-- Window `w`, which was started at `u`, keeps to the timetable so far, and the next
timer can be handled. -/
structure State.InWindow (c : Config) (w : Nat) (u : Int) (s : State) : Prop where
  timer : s.frame.armed = true ∧ s.frame.timeout = c.windowEnd w u
  sc : ∀ i ∈ c.sliceIds w, ∀ k, c.role true i = some k → s.KeepsUp c i k u
  others : ∀ i k, c.role true i = some k → (∀ l ∈ c.sliceIds w, c.role true l ≠ some k) →
    Action.starts k s.history = []
  be : (Action.beStarts s.history = [] ∧ (c.sliceIds w ≠ [] → ∃ i ∈ c.sliceIds w, ∃ k j,
      c.role true i = some k ∧ (s.slice i).runningProcess = some ⟨k, j⟩)) ∨
    ∃ E, c.LatestEnd w E ∧ E < (c.window w).length ∧
      Action.beStarts s.history = [u + E * nsPerMs]
  due : ∃ e : Event, e.Undisturbed c s ∧ e.Enabled c s
  handled : ∀ e : Event, e.Undisturbed c s → e.Enabled c s → ∃ s', Event.Step c s e s'

/-- The schedule is the one of the timetable begun at `t₀`, up to the moment. -/
structure State.OnSchedule (c : Config) (t₀ : Int) (s : State) : Prop where
  windows : ∃ N, Action.windowStarts s.history = (c.windowPlan t₀ N).reverse
  past : ∀ newer w u older, s.history = newer ++ .windowStarted w u :: older →
    Action.Over c (Action.current older) older
  unbegun : Action.current s.history = none → Action.Over c none s.history
  present : ∀ w u, Action.current s.history = some (w, u) → s.InWindow c w u

theorem State.OnSchedule.of_quiet (quiet : ∀ a ∈ s.history, ¬a.Schedules) : s.OnSchedule c t₀ where
  windows := ⟨0, by rw [Action.windowStarts_of_quiet quiet]; rfl⟩
  past newer w u older hsplit := by
    have hpast := Action.Past.of_quiet (c := c) quiet
    rw [hsplit] at hpast
    exact hpast.kept
  unbegun _ := .of_quiet quiet
  present w u hcurrent := by simp [Action.current_of_quiet quiet] at hcurrent

namespace State.OnTimetable

variable (single : ∀ i k, c.role true i = some k → c.ScOnly k)

include single

theorem keepsUp (h : s.OnTimetable c t₀) (underway : s.Underway c t₀)
    (inWindow : Action.current s.history = some (w, u)) {i : SliceId} (member : i ∈ c.sliceIds w)
    {k : Nat} (role : c.role true i = some k) : s.KeepsUp c i k u := by
  obtain ⟨hwindow, -⟩ := c.mem_sliceIds.mp member
  obtain ⟨rfl, -⟩ := underway.current_eq inWindow
  cases h.sc k (single i k role) with
  | before _ hnone => simp [inWindow] at hnone
  | waiting v x _ hcurrent _ stage =>
    obtain ⟨rfl, rfl⟩ := Action.current_unique inWindow hcurrent
    rcases stage with ⟨hsc, hfresh⟩ | ⟨-, hno⟩
    · cases underway.roles with
      | sc _ entered => exact absurd (entered i member k role) (hfresh i)
      | be hbe => simp [hsc] at hbe
    · exact absurd role (hno i member)
  | serving l x j serving =>
    have hcurrent := serving.inWindow
    obtain ⟨hl, rfl⟩ := Action.current_unique inWindow hcurrent
    obtain rfl := (single i k role).single serving.sc role (by rw [← hl, hwindow])
    have harmed : (s.slice l).armed = true := by
      rw [underway.sound.coherent.armed_iff, serving.running]
      rfl
    exact .inr ⟨j, Config.prefix_slicePlan u serving.pos serving.before, serving.starts, harmed,
      serving.timeout⟩
  | done l x _ hcurrent sc starts =>
    obtain ⟨hl, rfl⟩ := Action.current_unique inWindow hcurrent
    obtain rfl := (single i k role).single sc role (by rw [← hl, hwindow])
    exact .inl starts
  | ended _ _ _ _ _ closed => exact absurd closed underway.roles.stage_ne

theorem starts_eq_nil (h : s.OnTimetable c t₀) (inWindow : Action.current s.history = some (w, u))
    {i : SliceId} {k : Nat} (role : c.role true i = some k)
    (absent : ∀ l ∈ c.sliceIds w, c.role true l ≠ some k) : Action.starts k s.history = [] := by
  have hnot : ∀ l : SliceId, l.window = w → c.role true l ≠ some k := by
    rintro l rfl hl
    exact absent l (Config.role_member hl) hl
  cases h.sc k (single i k role) with
  | before _ _ starts => exact starts
  | waiting _ _ _ _ starts => exact starts
  | serving l x j serving =>
    have hcurrent := serving.inWindow
    replace hcurrent := Action.current_unique inWindow hcurrent
    exact absurd serving.sc (hnot l hcurrent.1.symm)
  | done l x _ hcurrent sc =>
    replace hcurrent := Action.current_unique inWindow hcurrent
    exact absurd sc (hnot l hcurrent.1.symm)
  | ended v x _ hcurrent planned =>
    obtain ⟨rfl, rfl⟩ := Action.current_unique inWindow hcurrent
    exact planned.2 absent

theorem inWindow (h : s.OnTimetable c t₀) (underway : s.Underway c t₀) (prompt : s.Prompt c)
    (current : Action.current s.history = some (w, u)) : s.InWindow c w u where
  timer := ⟨underway.armed, (underway.current_eq current).2⟩
  sc i member k role := h.keepsUp single underway current member role
  others i k role absent := h.starts_eq_nil single current role absent
  be := by
    obtain ⟨rfl, -⟩ := underway.current_eq current
    cases h.be with
    | before hnone => simp [current] at hnone
    | sc x y hcurrent stage starts =>
      obtain ⟨rfl, rfl⟩ := Action.current_unique current hcurrent
      exact .inl ⟨starts,
        Window.phase_unfinished underway.phase underway.sound.coherent stage⟩
    | be x y E hcurrent _ latest lt starts =>
      obtain ⟨rfl, rfl⟩ := Action.current_unique current hcurrent
      exact .inr ⟨E, latest, lt, starts⟩
    | ended _ _ _ closed => exact absurd closed underway.roles.stage_ne
  due := Event.exists_due underway.armed
  handled _ := underway.handled prompt

theorem onSchedule (h : s.OnTimetable c t₀) (underway : s.Underway c t₀) (prompt : s.Prompt c) :
    s.OnSchedule c t₀ where
  windows := h.windows
  past newer w u older hsplit := by
    have hpast := h.past
    rw [hsplit] at hpast
    exact hpast.kept
  unbegun hnone := by
    obtain ⟨u, hsome, -⟩ := underway.window
    simp [hsome] at hnone
  present w u hcurrent := h.inWindow single underway prompt hcurrent

end State.OnTimetable

theorem State.Fresh.onTimetable (fresh : s.Fresh c) : s.OnTimetable c t₀ where
  sc k _ := .before (fun i j hi => by simp [fresh.halted.idle i] at hi)
    (Action.current_of_quiet fresh.quiet) (Action.starts_of_quiet fresh.quiet k) fresh.closed
  full k _ m := fresh.full ⟨k, m⟩
  spared i _ u hrun := by simp [fresh.closed] at hrun
  be := .before (Action.current_of_quiet fresh.quiet) fresh.closed
    (Action.beStarts_of_quiet fresh.quiet)
  windows := ⟨0, by rw [Action.windowStarts_of_quiet fresh.quiet]; rfl⟩
  past := .of_quiet fresh.quiet

/-- Whatever the latency, an undisturbed run schedules what the timetable of its
configuration says, without drift. -/
theorem reference_schedule {gen : Nat → Nat} {timeout : Option Int} {es : List Event}
    (zero : c.ZeroJitter) (positive : c.PositiveLengths) (roles : c.SingleRole)
    (unshared : c.Unshared)
    (run : Run (Event.UndisturbedStep c) (State.initial c gen timeout) es s) :
    ∃ t₀, s.OnSchedule c t₀ := by
  have hsingle : ∀ i k, c.role true i = some k → c.ScOnly k :=
    fun _ _ hk => roles.scOnly unshared hk
  cases Event.undisturbed_stands zero positive run with
  | preparing _ _ untouched => exact ⟨0, .of_quiet untouched.quiet⟩
  | down _ quiet => exact ⟨0, .of_quiet quiet⟩
  | underway t₀ s₀ fresh moves underway =>
    have hprompt : s₀.Prompt c := fun _ _ _ i p hp => by simp [fresh.halted.idle i] at hp
    have hall : s.Regular c ∧ s.OnTimetable c t₀ ∧ s.Prompt c :=
      moves.invariant (I := fun m => m.Regular c ∧ m.OnTimetable c t₀ ∧ m.Prompt c)
        (fun _ _ h e => ⟨h.1.move e, h.2.1.move hsingle positive h.1 e, h.2.2.move h.1 e⟩)
        ⟨fresh.regular, fresh.onTimetable, hprompt⟩
    exact ⟨t₀, hall.2.1.onSchedule hsingle underway hall.2.2⟩

/-- The BE phase begins at 5 ms, when the longer SC partition is done; its process has
completed when the next window starts. -/
theorem reference_schedule_twoSlices : ∃ (s : State) (t₀ : Int),
    Action.windowStarts s.history = [(0, 10 * nsPerMs), (0, 0)] ∧
      .beStarted 0 (5 * nsPerMs) ∈ s.history ∧ s.OnSchedule .twoSlices t₀ := by
  have hrun : ((Event.play .twoSlices (fun s e => e.Undisturbed .twoSlices s)
      [.startup 0, .sliceTimer ⟨0, 1⟩, .sliceTimer ⟨0, 0⟩, .sliceTimer ⟨0, 1⟩, .windowTimer]
      (State.initial .twoSlices (fun _ => 0) none)).map fun s =>
        (Action.windowStarts s.history, decide (.beStarted 0 (5 * nsPerMs) ∈ s.history))) =
      some ([(0, 10 * nsPerMs), (0, 0)], true) := by decide
  obtain ⟨s, hplay, hs⟩ := Option.map_eq_some_iff.mp hrun
  obtain ⟨hwindows, hbe⟩ := Prod.mk.inj hs
  obtain ⟨t₀, hschedule⟩ := reference_schedule (by decide) (by decide) (by decide) (by decide)
    (Event.play_run _ hplay)
  exact ⟨s, t₀, hwindows, of_decide_eq_true hbe, hschedule⟩

end DemosSched
