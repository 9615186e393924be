import DemosSched.Timetable

/-! An SC partition in an undisturbed schedule: in the window of its slice its processes
start one after the other at the times of the timetable. -/

namespace DemosSched

open Fallible Relation

structure State.ScServing (c : Config) (k : Nat) (i : SliceId) (u : Int) (j : Nat) (s : State) :
    Prop where
  inWindow : Action.current s.history = some (i.window, u)
  sc : c.role true i = some k
  pos : j < c.processCount k
  before : c.offset k j < (c.window i.window).length
  running : (s.slice i).runningProcess = some ⟨k, j⟩
  only : ∀ l m, (s.slice l).runningProcess = some ⟨k, m⟩ → l = i
  current : (s.partition k).currentProc = j
  flags : ∀ m < c.processCount k, (s.process ⟨k, m⟩).completed = decide (m < j)
  timeout : (s.slice i).timeout = u + c.offset k (j + 1) * nsPerMs
  starts : Action.starts k s.history = ((List.range (j + 1)).map (c.scStart i k u)).reverse
  stage : s.course.stage = .running i.window true ∨ s.course.stage = .running i.window false ∨
    s.course.stage = .closed
  role : s.course.stage = .running i.window true → s.course.role i = some (k, true)

inductive State.ScTurn (c : Config) (k : Nat) (s : State) : Prop
  | before (idle : ∀ i j, (s.slice i).runningProcess ≠ some ⟨k, j⟩)
      (inWindow : Action.current s.history = none) (starts : Action.starts k s.history = [])
      (stage : s.course.stage = .closed)
  | waiting (w : Nat) (u : Int) (idle : ∀ i j, (s.slice i).runningProcess ≠ some ⟨k, j⟩)
      (inWindow : Action.current s.history = some (w, u)) (starts : Action.starts k s.history = [])
      (stage : s.course.stage = .running w true ∧ (∀ i, s.course.role i ≠ some (k, true)) ∨
        s.course.stage = .running w false ∧ ∀ i ∈ c.sliceIds w, c.role true i ≠ some k)
  | serving (i : SliceId) (u : Int) (j : Nat) (h : s.ScServing c k i u j)
  | done (i : SliceId) (u : Int) (idle : ∀ l j, (s.slice l).runningProcess ≠ some ⟨k, j⟩)
      (inWindow : Action.current s.history = some (i.window, u)) (sc : c.role true i = some k)
      (starts : Action.starts k s.history = (c.slicePlan i k u).reverse)
      (stage : ∃ sc, s.course.stage = .running i.window sc)
      (ends : s.course.stage = .running i.window true → (s.slice i).runningProcess = none ∧
        Action.scEnd i s.history = u + c.scTotal i * nsPerMs ∧ s.course.role i = some (k, true))
  | ended (w : Nat) (u : Int) (idle : ∀ i j, (s.slice i).runningProcess ≠ some ⟨k, j⟩)
      (inWindow : Action.current s.history = some (w, u))
      (planned : Action.Planned c k w u s.history) (stage : s.course.stage = .closed)

section Serving

variable {c : Config} {k : Nat} {s : State} {i : SliceId} {u t : Int}

theorem State.picked_starts (c : Config) (s : State) (i : SliceId) (k j : Nat) (t : Int) :
    Action.starts k (s.picked c i ⟨k, j⟩ t).history =
      .started i ⟨k, j⟩ t (s.process ⟨k, j⟩).actualBudget :: Action.starts k s.history := by
  obtain ⟨older, hh, rfl | ⟨o, rfl⟩⟩ := s.picked_records c i ⟨k, j⟩ t
  · rw [hh]
    simp [Action.starts]
  · rw [hh]
    simp [Action.starts]

theorem Action.Planned.of_slice {h : List Action} (only : c.ScOnly k) (sc : c.role true i = some k)
    (starts : Action.starts k h = (c.slicePlan i k u).reverse) :
    Action.Planned c k i.window u h := by
  refine ⟨fun l hl hrole => ?_, fun hnone => absurd sc (hnone i (Config.role_member sc))⟩
  obtain rfl := only.single hrole sc (c.mem_sliceIds.mp hl).1
  exact starts

namespace State.ScServing

variable {j : Nat} (h : s.ScServing c k i u j)

include h

theorem completed_stopped : ∀ e < c.processCount k,
    ((s.stopped i ⟨k, j⟩ t true).process ⟨k, e⟩).completed = decide (e < j + 1) := by
  intro e he
  by_cases hej : e = j
  · subst hej
    simp
  · have hne : (⟨k, e⟩ : ProcessId) ≠ ⟨k, j⟩ := fun heq => hej (ProcessId.mk.inj heq).2
    rw [State.stopped_process, Function.update_of_ne hne, h.flags e he]
    exact decide_eq_decide.mpr (by omega)

theorem pending_stopped (regular : s.Regular c) :
    ∀ e < c.processCount k, Process.isPending ⟨k, (0 + e) % c.processCount k⟩
      (s.stopped i ⟨k, j⟩ t true) = decide (j < e) := by
  intro e he
  rw [Nat.zero_add, Nat.mod_eq_of_lt he, (regular.stopped i _ t true).isPending,
    h.completed_stopped e he, ← decide_not]
  exact decide_eq_decide.mpr (by omega)

theorem seek_stopped (regular : s.Regular c) :
    CyclicSearch.seek (c.processCount k) (fun m => Process.isPending ⟨k, m⟩
        (s.stopped i ⟨k, j⟩ t true)) (c.processCount k) (s.partition k).currentProc =
      (if j + 1 < c.processCount k then some ((j + 1) % c.processCount k) else none,
        (j + 1) % c.processCount k) := by
  have hround : CyclicSearch.seek (c.processCount k) (fun m => Process.isPending ⟨k, m⟩
      (s.stopped i ⟨k, j⟩ t true)) (c.processCount k) ((0 + j) % c.processCount k) = _ :=
    CyclicSearch.seek_round (c.processCount_pos k) h.pos (h.pending_stopped regular)
  rw [Nat.zero_add, Nat.zero_add, Nat.mod_eq_of_lt h.pos] at hround
  rw [h.current]
  exact hround

theorem idle_stopped (mark : Bool) (l : SliceId) (m : Nat) :
    ((s.stopped i ⟨k, j⟩ t mark).slice l).runningProcess ≠ some ⟨k, m⟩ := by
  intro hl
  obtain ⟨hli, hl⟩ := State.stopped_running.mp hl
  exact hli (h.only l m hl)

theorem resumed (regular : s.Regular c)
    (full : ∀ m, (s.process ⟨k, m⟩).actualBudget = (c.process ⟨k, m⟩).budget)
    (due : (s.slice i).timeout = t) (before : t < c.windowEnd i.window u) {m : Nat}
    (found : CyclicSearch.seek (c.processCount k) (fun m => Process.isPending ⟨k, m⟩
      (s.stopped i ⟨k, j⟩ t true)) (c.processCount k) (s.partition k).currentProc = (some m, m)) :
    ((s.stopped i ⟨k, j⟩ t true).picked c i ⟨k, m⟩ t).ScServing c k i u (j + 1) := by
  rw [h.seek_stopped regular, Prod.mk.injEq] at found
  obtain ⟨hsome, hm⟩ := found
  have hlt : j + 1 < c.processCount k := by
    by_contra hge
    simp [hge] at hsome
  rw [Nat.mod_eq_of_lt hlt] at hm
  subst hm
  have ht : t = u + c.offset k (j + 1) * nsPerMs := due.symm.trans h.timeout
  have hstored : ((s.stopped i ⟨k, j⟩ t true).process ⟨k, j + 1⟩).actualBudget =
      (c.process ⟨k, j + 1⟩).budget := by
    rw [State.stopped_process, Function.update_of_ne (by simp)]
    exact full (j + 1)
  exact
    { inWindow := by
        rw [Action.current_picked]
        exact h.inWindow
      sc := h.sc
      pos := hlt
      before := by
        rw [ht, Config.windowEnd] at before
        unfold nsPerMs at before
        omega
      running := by rw [State.picked_slice, Function.update_self]
      only := fun l e hl => by
        rw [State.picked_slice] at hl
        by_contra hli
        rw [Function.update_of_ne hli] at hl
        exact h.idle_stopped true l e hl
      current := by rw [State.picked_partition, Function.update_self]
      flags := fun e he => by
        rw [State.picked_completed]
        exact h.completed_stopped e he
      timeout := by
        rw [State.picked_slice, Function.update_self, hstored, ht, Config.offset_succ k (j + 1)]
        simp only [Int.add_mul, Int.add_assoc]
      starts := by
        have hstarts : Action.starts k (s.stopped i ⟨k, j⟩ t true).history =
            Action.starts k s.history := rfl
        rw [State.picked_starts, hstarts, h.starts, hstored, List.range_succ (n := j + 1),
          List.map_append, List.reverse_append, ht]
        rfl
      stage := by
        rw [State.picked_course]
        exact h.stage
      role := by
        rw [State.picked_course]
        exact h.role }

theorem drained (regular : s.Regular c) (only : c.ScOnly k) (due : (s.slice i).timeout = t)
    (exhausted : ∀ m < c.processCount k,
      Process.isPending ⟨k, m⟩ (s.stopped i ⟨k, j⟩ t true) = false) :
    ((s.stopped i ⟨k, j⟩ t true).sought k
      (CyclicSearch.next (c.processCount k) (s.partition k).currentProc)).ScTurn c k := by
  have hlast : j + 1 = c.processCount k := by
    by_contra hne
    have hpos := h.pos
    have hpending := h.pending_stopped (t := t) regular (j + 1) (by omega)
    rw [exhausted _ (Nat.mod_lt _ (c.processCount_pos k))] at hpending
    simp at hpending
  have hidle := h.idle_stopped (t := t) true
  have hstarts : Action.starts k (s.stopped i ⟨k, j⟩ t true).history =
      (c.slicePlan i k u).reverse := by
    rw [Config.slicePlan_all u hlast h.before, ← hlast]
    exact h.starts
  have hover : (∃ sc, s.course.stage = .running i.window sc) →
      ((s.stopped i ⟨k, j⟩ t true).sought k
        (CyclicSearch.next (c.processCount k) (s.partition k).currentProc)).ScTurn c k := by
    intro hstage
    refine .done i u hidle h.inWindow h.sc hstarts hstage fun hrun => ⟨by simp, ?_, h.role hrun⟩
    simp only [State.sought_history, State.stopped_history, Action.scEnd, if_true,
      Config.scTotal_eq h.sc]
    rw [← due, h.timeout, hlast]
  rcases h.stage with hstage | hstage | hclosed
  · exact hover ⟨_, hstage⟩
  · exact hover ⟨_, hstage⟩
  · exact .ended i.window u hidle h.inWindow (.of_slice only h.sc hstarts) hclosed

theorem ended (only : c.ScOnly k) (atEnd : t = c.windowEnd i.window u)
    (late : t ≤ (s.slice i).timeout) :
    Action.Planned c k i.window u s.history := by
  refine .of_slice only h.sc ?_
  rw [Config.slicePlan_eq u h.pos h.before fun _ => ?_]
  · exact h.starts
  · rw [atEnd, h.timeout, Config.windowEnd] at late
    unfold nsPerMs at late
    omega

end State.ScServing

end Serving

namespace State.ScTurn

variable {c : Config} {k w : Nat} {u t : Int} {s s' : State}

theorem apart (h : s.ScTurn c k) (apart : s.Apart k s') (stage : s'.course.stage = s.course.stage)
    (role : ∀ i, s'.course.role i = some (k, true) → s.course.role i = some (k, true))
    (kept : ∀ i, c.role true i = some k → s.course.stage = .running i.window true →
      s.course.role i = some (k, true) → s'.course.role i = some (k, true))
    (idle : ∀ i, c.role true i = some k → s.course.stage = .running i.window true →
      (s.slice i).runningProcess = none → (s'.slice i).runningProcess = none ∧
        Action.scEnd i s'.history = Action.scEnd i s.history) : s'.ScTurn c k := by
  have hcurrent : Action.current s'.history = Action.current s.history :=
    apart.grows.fixed fun _ l ha => Action.current_foreign l ha
  have hstarts : Action.starts k s'.history = Action.starts k s.history :=
    apart.grows.fixed fun _ l ha => Action.starts_foreign l ha
  have hidle : (∀ i j, (s.slice i).runningProcess ≠ some ⟨k, j⟩) →
      ∀ i j, (s'.slice i).runningProcess ≠ some ⟨k, j⟩ :=
    fun hnone i j hi => hnone i j ((apart.running i j).mp hi)
  cases h with
  | before hnone inWindow starts closed =>
    exact .before (hidle hnone) (hcurrent.trans inWindow) (hstarts.trans starts)
      (stage.trans closed)
  | waiting w u hnone inWindow starts hstage =>
    refine .waiting w u (hidle hnone) (hcurrent.trans inWindow) (hstarts.trans starts) ?_
    rcases hstage with ⟨hsc, hfresh⟩ | ⟨hbe, hno⟩
    · exact .inl ⟨stage.trans hsc, fun i hi => hfresh i (role i hi)⟩
    · exact .inr ⟨stage.trans hbe, hno⟩
  | serving i u j h =>
    exact .serving i u j
      { inWindow := hcurrent.trans h.inWindow
        sc := h.sc
        pos := h.pos
        before := h.before
        running := (apart.running i j).mpr h.running
        only := fun l m hl => h.only l m ((apart.running l m).mp hl)
        current := apart.current.trans h.current
        flags := fun m hm => (apart.completed m).trans (h.flags m hm)
        timeout := (apart.timeout i j ((apart.running i j).mpr h.running)).trans h.timeout
        starts := hstarts.trans h.starts
        stage := by rw [stage]; exact h.stage
        role := fun hrun => kept i h.sc (stage ▸ hrun) (h.role (stage ▸ hrun)) }
  | done i u hnone inWindow sc starts hstage hend =>
    refine .done i u (hidle hnone) (hcurrent.trans inWindow) sc (hstarts.trans starts)
      (by rw [stage]; exact hstage) fun hrun => ?_
    rw [stage] at hrun
    obtain ⟨hi, hscEnd, hrole⟩ := hend hrun
    obtain ⟨hi', hsame⟩ := idle i sc hrun hi
    exact ⟨hi', hsame.trans hscEnd, kept i sc hrun hrole⟩
  | ended w u hnone inWindow planned closed =>
    refine .ended w u (hidle hnone) (hcurrent.trans inWindow) ?_ (stage.trans closed)
    simp only [Action.Planned, hstarts]
    exact planned

theorem apart_course (h : s.ScTurn c k) (apart : s.Apart k s') (course : s'.course = s.course)
    (idle : ∀ i, (s.slice i).runningProcess = none → (s'.slice i).runningProcess = none ∧
      Action.scEnd i s'.history = Action.scEnd i s.history) : s'.ScTurn c k :=
  h.apart apart (by rw [course]) (fun i hi => by rwa [course] at hi)
    (fun i _ _ hi => by rwa [course]) fun i _ _ => idle i

theorem serving_of (h : s.ScTurn c k) {i : SliceId} {j : Nat}
    (running : (s.slice i).runningProcess = some ⟨k, j⟩) :
    ∃ u, s.ScServing c k i u j := by
  cases h with
  | serving l u m h =>
    obtain rfl := h.only i j running
    have hrun := h.running
    rw [running, Option.some.injEq, ProcessId.mk.injEq] at hrun
    obtain rfl := hrun.2
    exact ⟨u, h⟩
  | before idle => exact absurd running (idle i j)
  | waiting _ _ idle => exact absurd running (idle i j)
  | done _ _ idle => exact absurd running (idle i j)
  | ended _ _ idle => exact absurd running (idle i j)

theorem closing (h : s.ScTurn c k) (only : c.ScOnly k)
    (inWindow : Action.current s.history = some (w, u))
    (entered : s.course.stage = .running w true → ∀ i ∈ c.sliceIds w, ∀ m,
      c.role true i = some m → s.course.role i = some (m, true)) :
    (s.record (.onWindowEnd w)).ScTurn c k := by
  cases h with
  | before idle hcurrent => simp [inWindow] at hcurrent
  | waiting v x idle hcurrent starts stage =>
    obtain ⟨rfl, rfl⟩ := Action.current_unique inWindow hcurrent
    refine .ended w u idle inWindow ⟨fun i hi hrole => ?_, fun _ => starts⟩ rfl
    rcases stage with ⟨hsc, hfresh⟩ | ⟨-, hno⟩
    · exact absurd (entered hsc i hi k hrole) (hfresh i)
    · exact absurd hrole (hno i hi)
  | serving i x j h =>
    exact .serving i x j ⟨h.inWindow, h.sc, h.pos, h.before, h.running, h.only, h.current, h.flags,
      h.timeout, h.starts, .inr (.inr rfl), fun hrun => by
        simp [State.course, Action.course, Course.next] at hrun⟩
  | done i x idle hcurrent sc starts =>
    exact .ended i.window x idle hcurrent (.of_slice only sc starts) rfl
  | ended v x idle hcurrent planned => exact .ended v x idle hcurrent planned rfl

theorem beStarted (h : s.ScTurn c k) (inWindow : Action.current s.history = some (w, u))
    (stage : s.course.stage = .running w true)
    (entered : ∀ i ∈ c.sliceIds w, ∀ m, c.role true i = some m →
      s.course.role i = some (m, true)) (t : Int) : (s.record (.beStarted w t)).ScTurn c k := by
  have hlater : (s.record (.beStarted w t)).course.stage = .running w false := rfl
  cases h with
  | before idle hcurrent => simp [inWindow] at hcurrent
  | waiting v x idle hcurrent starts hstage =>
    obtain ⟨rfl, rfl⟩ := Action.current_unique inWindow hcurrent
    refine .waiting w u idle inWindow starts (.inr ⟨rfl, fun i hi hrole => ?_⟩)
    rcases hstage with ⟨-, hfresh⟩ | ⟨hbe, -⟩
    · exact hfresh i (entered i hi k hrole)
    · simp [stage] at hbe
  | serving i x j h =>
    have hwindow : i.window = w := by
      have hin := h.inWindow
      replace hin := Action.current_unique inWindow hin
      exact hin.1.symm
    exact .serving i x j ⟨h.inWindow, h.sc, h.pos, h.before, h.running, h.only, h.current, h.flags,
      h.timeout, h.starts, .inr (.inl (by rw [hlater, hwindow])), fun hrun => by
        simp [hlater] at hrun⟩
  | done i x idle hcurrent sc starts hstage =>
    have hwindow : i.window = w := by
      replace hcurrent := Action.current_unique inWindow hcurrent
      exact hcurrent.1.symm
    exact .done i x idle hcurrent sc starts ⟨false, by rw [hlater, hwindow]⟩ fun hrun => by
      simp [hlater] at hrun
  | ended v x idle hcurrent planned closed => simp [stage] at closed

theorem windowStarted (idle : s.AllIdle) (w : Nat) (u : Int) (x : Window) :
    ((s.record (.windowStarted w u)).setWindow w x).ScTurn c k :=
  .waiting w u (fun i j hi => by simp [idle i] at hi) rfl rfl
    (.inl ⟨rfl, fun i => by simp [State.course, Action.course, Course.next]⟩)

theorem begun (h : s.ScTurn c k) (only : c.ScOnly k) (positive : u < c.windowEnd w u)
    (full : ∀ m, (s.process ⟨k, m⟩).actualBudget = (c.process ⟨k, m⟩).budget)
    (inWindow : Action.current s.history = some (w, u)) {i : SliceId} (member : i ∈ c.sliceIds w)
    (idle : (s.slice i).runningProcess = none) (role : c.role true i = some k)
    (stage : s.course.stage = .running w true) (fresh : s.course.role i ≠ some (k, true)) :
    ((s.assigned c i k true u).picked c i ⟨k, 0⟩ u).ScTurn c k := by
  have hwindow : i.window = w := (c.mem_sliceIds.mp member).1
  have hwaiting : Action.starts k s.history = [] ∧
      ∀ l m, (s.slice l).runningProcess ≠ some ⟨k, m⟩ := by
    cases h with
    | before _ hcurrent => simp [inWindow] at hcurrent
    | waiting v x hnone _ starts => exact ⟨starts, hnone⟩
    | serving l x j h =>
      have hin := h.inWindow
      replace hin := Action.current_unique inWindow hin
      obtain rfl := only.single h.sc role (by rw [hwindow, hin.1])
      simpa [idle] using h.running
    | done l x _ hcurrent sc _ _ hend =>
      replace hcurrent := Action.current_unique inWindow hcurrent
      obtain rfl := only.single sc role (by rw [hwindow, hcurrent.1])
      exact absurd (hend (by rw [hwindow, stage])).2.2 fresh
    | ended v x _ _ _ closed => simp [stage] at closed
  obtain ⟨hstarts, hnone⟩ := hwaiting
  have hstored : ((s.assigned c i k true u).process ⟨k, 0⟩).actualBudget =
      (c.process ⟨k, 0⟩).budget := full 0
  refine .serving i u 0
    { inWindow := by
        rw [Action.current_picked, hwindow]
        exact inWindow
      sc := role
      pos := c.processCount_pos k
      before := by
        rw [Config.windowEnd] at positive
        rw [Config.offset_zero, hwindow]
        unfold nsPerMs at positive
        omega
      running := by rw [State.picked_slice, Function.update_self]
      only := fun l m hl => by
        rw [State.picked_slice] at hl
        by_contra hli
        exact hnone l m (by simpa [hli] using hl)
      current := by rw [State.picked_partition, Function.update_self]
      flags := fun m hm => ?_
      timeout := by
        rw [State.picked_slice, Function.update_self, hstored, Config.offset_succ,
          Config.offset_zero, Int.zero_add]
      starts := ?_
      stage := .inl (by rw [State.course_begun, hwindow]; exact stage)
      role := fun _ => by
        rw [State.course_begun]
        simp }
  · have hmem : (⟨k, m⟩ : ProcessId) ∈ c.processIds k := c.mem_processIds.mpr ⟨rfl, hm⟩
    rw [State.picked_completed]
    simp [hmem]
  · have hassigned : Action.starts k (s.assigned c i k true u).history = [] := hstarts
    rw [State.picked_starts, hassigned, hstored]
    simp [Config.scStart, Config.offset_zero]

theorem serve (h : s.ScTurn c k) (only : c.ScOnly k) (positive : u < c.windowEnd w u)
    (regular : s.Regular c)
    (full : ∀ m, (s.process ⟨k, m⟩).actualBudget = (c.process ⟨k, m⟩).budget)
    (inWindow : Action.current s.history = some (w, u)) {i : SliceId} (member : i ∈ c.sliceIds w)
    (serve : Serve c w u t i k s s') : s'.ScTurn c k := by
  have hwindow : i.window = w := (c.mem_sliceIds.mp member).1
  have hserving : ∀ {j}, (s.slice i).runningProcess = some ⟨k, j⟩ → s.ScServing c k i u j := by
    intro j running
    obtain ⟨x, hx⟩ := h.serving_of running
    have hin := hx.inWindow
    replace hin := Action.current_unique inWindow hin
    exact hin.2 ▸ hx
  subst hwindow
  cases serve with
  | begun first idle role stage fresh start =>
    cases first with
    | false => exact absurd role (only.notBe i)
    | true =>
      obtain rfl := start rfl
      exact h.begun only positive full inWindow member idle role stage fresh
  | resumed running due before found =>
    exact .serving i u _ ((hserving running).resumed regular full due before found)
  | drained running due before exhausted =>
    exact (hserving running).drained regular only due exhausted
  | cut running closed atEnd late be => exact absurd be (only.notBe i)
  | dropped running closed atEnd late =>
    have hs := hserving running
    refine .ended i.window u (fun l m hl => hs.idle_stopped (t := t) false l m ?_) inWindow
      (hs.ended only atEnd late) closed
    exact (State.released_running (c := c)).symm.trans hl
  | spent running closed atEnd late =>
    have hs := hserving running
    refine .ended i.window u (fun l m hl => hs.idle_stopped (t := t) true l m ?_) inWindow
      (hs.ended only atEnd late) closed
    exact (State.released_running (c := c)).symm.trans hl

theorem serve_other (h : s.ScTurn c k) {m : Nat} (ne : m ≠ k) {i : SliceId}
    (serve : Serve c w u t i m s s') : s'.ScTurn c k := by
  have hapart := State.Apart.serve serve ne
  have hidle : ∀ l, l ≠ i → (s.slice l).runningProcess = none →
      (s'.slice l).runningProcess = none ∧
        Action.scEnd l s'.history = Action.scEnd l s.history := by
    intro l hl hnone
    obtain ⟨hslice, hend⟩ := serve.elsewhere hl
    exact ⟨by rw [hslice, hnone], hend⟩
  have hrunning : ∀ {j}, (s.slice i).runningProcess = some ⟨m, j⟩ → ∀ l,
      (s.slice l).runningProcess = none → (s'.slice l).runningProcess = none ∧
        Action.scEnd l s'.history = Action.scEnd l s.history := by
    intro j running l hnone
    refine hidle l ?_ hnone
    rintro rfl
    simp [running] at hnone
  cases serve with
  | begun first idle role stage =>
    have hnot : ∀ l, c.role true l = some k → s.course.stage = .running l.window true → l ≠ i := by
      rintro l hl hrun rfl
      rw [stage, Stage.running.injEq] at hrun
      rw [hrun.2, hl, Option.some.injEq] at role
      exact ne role.symm
    refine h.apart hapart (by rw [State.course_begun]) (fun l hl => ?_) (fun l hsc hrun hl => ?_)
      fun l hsc hrun hnone => hidle l (hnot l hsc hrun) hnone
    · rw [State.course_begun] at hl
      by_cases hli : l = i
      · subst hli
        simp [ne] at hl
      · simpa [hli] using hl
    · rw [State.course_begun]
      simpa [hnot l hsc hrun] using hl
  | resumed running =>
    exact h.apart_course hapart (by rw [State.picked_course]; rfl) (hrunning running)
  | drained running => exact h.apart_course hapart rfl (hrunning running)
  | cut running => exact h.apart_course hapart rfl (hrunning running)
  | dropped running => exact h.apart_course hapart rfl (hrunning running)
  | spent running => exact h.apart_course hapart rfl (hrunning running)

theorem act (h : s.ScTurn c k) (only : c.ScOnly k) (positive : u < c.windowEnd w u)
    (regular : s.Regular c)
    (full : ∀ m, (s.process ⟨k, m⟩).actualBudget = (c.process ⟨k, m⟩).budget)
    (inWindow : Action.current s.history = some (w, u)) (act : Act c w u t s s') :
    s'.ScTurn c k := by
  cases act with
  | noted a ha =>
    have hforeign : a.Foreign k := by rcases ha with rfl | rfl | rfl <;> trivial
    refine h.apart (.noted rfl rfl rfl (.one hforeign rfl)) ?_ (fun l hl => ?_) (fun l _ _ hl => ?_)
      fun l _ _ hl => ?_
    all_goals rcases ha with rfl | rfl | rfl
    all_goals first | rfl | exact hl | exact ⟨hl, rfl⟩
  | beStarted idle stage entered => exact h.beStarted inWindow stage entered t
  | closing atEnd entered => exact h.closing only inWindow entered
  | @served _ i m member serve =>
    by_cases hm : m = k
    · subst hm
      exact h.serve only positive regular full inWindow member serve
    · exact h.serve_other hm serve
  | @released i =>
    exact h.apart_course .released rfl fun l hl => ⟨State.released_running.trans hl, rfl⟩
  | _ => exact h.apart_course (.noted rfl rfl rfl (.same rfl)) rfl fun l hl => ⟨hl, rfl⟩

theorem planned (h : s.ScTurn c k) (idle : s.AllIdle) (closed : s.course.stage = .closed)
    (inWindow : Action.current s.history = some (w, u)) : Action.Planned c k w u s.history := by
  cases h with
  | before _ hcurrent => simp [inWindow] at hcurrent
  | waiting v x _ _ _ stage => simp [closed] at stage
  | serving i x j h => simpa [idle i] using h.running
  | done i x _ _ _ _ stage => simp [closed] at stage
  | ended v x _ hcurrent planned =>
    obtain ⟨rfl, rfl⟩ := Action.current_unique inWindow hcurrent
    exact planned

theorem unstarted (h : s.ScTurn c k) (inWindow : Action.current s.history = none) :
    Action.starts k s.history = [] := by
  cases h with
  | before _ _ starts => exact starts
  | waiting _ _ _ _ starts => exact starts
  | serving i u j h => simpa [inWindow] using h.inWindow
  | done _ _ _ hsome => simp [inWindow] at hsome
  | ended _ _ _ hsome => simp [inWindow] at hsome

theorem scEnd_eq (h : s.ScTurn c k) (only : c.ScOnly k) (idle : s.AllIdle)
    (inWindow : Action.current s.history = some (w, u)) (stage : s.course.stage = .running w true)
    {i : SliceId} (member : i ∈ c.sliceIds w) (role : c.role true i = some k)
    (entered : s.course.role i = some (k, true)) :
    Action.scEnd i s.history = u + c.scTotal i * nsPerMs := by
  have hwindow : i.window = w := (c.mem_sliceIds.mp member).1
  cases h with
  | before _ hcurrent => simp [inWindow] at hcurrent
  | waiting v x _ _ _ hstage =>
    rcases hstage with ⟨-, hfresh⟩ | ⟨hbe, -⟩
    · exact absurd entered (hfresh i)
    · simp [stage] at hbe
  | serving l x j h => simpa [idle l] using h.running
  | done l x _ hcurrent sc _ _ hend =>
    replace hcurrent := Action.current_unique inWindow hcurrent
    obtain rfl := only.single sc role (by rw [hwindow, hcurrent.1])
    rw [hcurrent.2]
    exact (hend (by rw [hwindow, stage])).2.1
  | ended v x _ _ _ closed => simp [stage] at closed

end State.ScTurn

end DemosSched
