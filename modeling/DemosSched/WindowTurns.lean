import DemosSched.ScTurns
import DemosSched.Undisturbed
import Mathlib.Order.Bounds.Basic

/-! An undisturbed schedule keeps to the timetable of its configuration: windows, SC
processes and BE phases start at their nominal times, whatever the latency. -/

namespace DemosSched

open Fallible Relation

variable {c : Config} {t₀ : Int} {w : Nat} {u t : Int} {s s' : State}

theorem Action.current_eq_head (h : List Action) : current h = (windowStarts h).head? := by
  induction h with
  | nil => rfl
  | cons a h ih =>
    cases a with
    | windowStarted => rfl
    | _ => exact ih

def State.Spared (i : SliceId) (s : State) : Prop :=
  ∀ u, s.course.stage = .running i.window true → Action.current s.history = some (i.window, u) →
    (s.slice i).runningProcess = none ∧ Action.scEnd i s.history = u

namespace State.Spared

variable {i : SliceId}

theorem congr (h : s.Spared i)
    (stage : s'.course.stage = .running i.window true → s.course.stage = .running i.window true)
    (current : Action.current s'.history = Action.current s.history)
    (same : s.course.stage = .running i.window true → (s.slice i).runningProcess = none →
      (s'.slice i).runningProcess = none ∧ Action.scEnd i s'.history = Action.scEnd i s.history) :
    s'.Spared i := by
  intro u hstage hcurrent
  obtain ⟨hidle, hend⟩ := h u (stage hstage) (current ▸ hcurrent)
  obtain ⟨hidle', hsame⟩ := same (stage hstage) hidle
  exact ⟨hidle', hsame.trans hend⟩

theorem serve {k : Nat} {l : SliceId} (h : s.Spared i) (role : c.role true i = none)
    (serve : Serve c w u t l k s s') : s'.Spared i := by
  have hstage : s'.course.stage = s.course.stage :=
    serve.grows.fixed (f := fun x => (Action.course x).stage) fun _ x ha =>
      Action.course_ofSlice x ha
  have hcurrent : Action.current s'.history = Action.current s.history :=
    serve.grows.fixed fun _ x ha => Action.current_ofSlice x ha
  refine h.congr (fun hs => hstage ▸ hs) hcurrent fun hrun hidle => ?_
  by_cases hil : i = l
  · subst hil
    cases serve with
    | begun first _ hrole stage =>
      rw [hrun, Stage.running.injEq] at stage
      rw [← stage.2, role] at hrole
      simp at hrole
    | resumed running | drained running | cut running | dropped running | spent running =>
      simp [hidle] at running
  · obtain ⟨hslice, hend⟩ := serve.elsewhere hil
    exact ⟨by rw [hslice, hidle], hend⟩

theorem act (h : s.Spared i) (role : c.role true i = none) (act : Act c w u t s s') :
    s'.Spared i := by
  have hcurrent := act.current
  cases act with
  | noted a ha =>
    refine h.congr (fun hs => ?_) hcurrent fun _ hidle => ?_
    all_goals rcases ha with rfl | rfl | rfl
    all_goals first | exact hs | exact ⟨hidle, rfl⟩
  | beStarted =>
    intro x hs
    simp [State.course, Action.course, Course.next] at hs
  | closing =>
    intro x hs
    simp [State.course, Action.course, Course.next] at hs
  | served member serve => exact h.serve role serve
  | @released l =>
    refine h.congr id hcurrent fun _ hidle => ⟨?_, rfl⟩
    by_cases hli : i = l
    · subst hli
      simpa using hidle
    · simpa [hli] using hidle
  | _ => exact h.congr id hcurrent fun _ hidle => ⟨hidle, rfl⟩

theorem windowStarted (idle : s.AllIdle) (w : Nat) (u : Int) (x : Window) :
    ((s.record (.windowStarted w u)).setWindow w x).Spared i := by
  intro v _ hcurrent
  have hv : some (w, u) = some (i.window, v) := hcurrent
  rw [Option.some.injEq, Prod.mk.injEq] at hv
  exact ⟨idle i, hv.2⟩

end State.Spared

inductive State.BeTurn (c : Config) (s : State) : Prop
  | before (inWindow : Action.current s.history = none) (stage : s.course.stage = .closed)
      (starts : Action.beStarts s.history = [])
  | sc (w : Nat) (u : Int) (inWindow : Action.current s.history = some (w, u))
      (stage : s.course.stage = .running w true) (starts : Action.beStarts s.history = [])
  | be (w : Nat) (u E : Int) (inWindow : Action.current s.history = some (w, u))
      (stage : s.course.stage = .running w false) (latest : c.LatestEnd w E)
      (lt : E < (c.window w).length) (starts : Action.beStarts s.history = [u + E * nsPerMs])
  | ended (w : Nat) (u : Int) (inWindow : Action.current s.history = some (w, u))
      (stage : s.course.stage = .closed) (planned : Action.BePlanned c w u s.history)

namespace State.BeTurn

theorem congr (h : s.BeTurn c) (current : Action.current s'.history = Action.current s.history)
    (stage : s'.course.stage = s.course.stage)
    (starts : Action.beStarts s'.history = Action.beStarts s.history) : s'.BeTurn c := by
  cases h with
  | before inWindow closed none =>
    exact .before (current.trans inWindow) (stage.trans closed) (starts.trans none)
  | sc w u inWindow running none =>
    exact .sc w u (current.trans inWindow) (stage.trans running) (starts.trans none)
  | be w u E inWindow running latest lt one =>
    exact .be w u E (current.trans inWindow) (stage.trans running) latest lt (starts.trans one)
  | ended w u inWindow closed planned =>
    refine .ended w u (current.trans inWindow) (stage.trans closed) ?_
    unfold Action.BePlanned
    rw [starts]
    exact planned

theorem beStarted (h : s.BeTurn c) (inWindow : Action.current s.history = some (w, u))
    (stage : s.course.stage = .running w true) (latest : Action.LatestScEnd c w s.history t)
    (ends : ∀ i ∈ c.sliceIds w, Action.scEnd i s.history = u + c.scTotal i * nsPerMs)
    (before : t < c.windowEnd w u) : (s.record (.beStarted w t)).BeTurn c := by
  have hnone : Action.beStarts s.history = [] := by
    cases h with
    | before hcurrent => simp [inWindow] at hcurrent
    | sc _ _ _ _ starts => exact starts
    | be _ _ _ _ running => simp [stage] at running
    | ended _ _ _ closed => simp [stage] at closed
  obtain ⟨⟨i, hi, rfl⟩, hgreatest⟩ := latest
  have hE : c.LatestEnd w (c.scTotal i) := by
    refine ⟨⟨i, hi, rfl⟩, ?_⟩
    rintro _ ⟨l, hl, rfl⟩
    have hle := hgreatest ⟨l, hl, rfl⟩
    rw [ends l hl, ends i hi] at hle
    unfold nsPerMs at hle
    omega
  refine .be w u (c.scTotal i) inWindow rfl hE ?_ ?_
  · rw [ends i hi, Config.windowEnd] at before
    unfold nsPerMs at before
    omega
  · change Action.scEnd i s.history :: Action.beStarts s.history = _
    rw [hnone, ends i hi]

theorem closing (h : s.BeTurn c) (inWindow : Action.current s.history = some (w, u))
    (unfinished : s.course.stage = .running w true → c.sliceIds w ≠ [] →
      ∃ i ∈ c.sliceIds w, (c.window w).length ≤ c.scTotal i) :
    (s.record (.onWindowEnd w)).BeTurn c := by
  cases h with
  | before hcurrent => simp [inWindow] at hcurrent
  | sc v x hcurrent stage starts =>
    obtain ⟨rfl, rfl⟩ := Action.current_unique inWindow hcurrent
    refine .ended w u inWindow rfl ⟨fun E hE => ?_, fun _ => starts⟩
    obtain ⟨⟨l, hl, -⟩, hgreatest⟩ := hE
    obtain ⟨i, hi, hlong⟩ := unfinished stage (List.ne_nil_of_mem hl)
    have hle : c.scTotal i ≤ E := hgreatest ⟨i, hi, rfl⟩
    rw [if_neg (by omega)]
    exact starts
  | be v x E hcurrent stage latest lt starts =>
    refine .ended v x hcurrent rfl ⟨fun E' hE' => ?_, fun hempty => ?_⟩
    · obtain rfl : E' = E := IsGreatest.unique hE' latest
      rw [if_pos lt]
      exact starts
    · obtain ⟨⟨i, hi, -⟩, -⟩ := latest
      simp [hempty] at hi
  | ended v x hcurrent closed planned => exact .ended v x hcurrent rfl planned

end State.BeTurn

def Action.Over (c : Config) : Option (Nat × Int) → List Action → Prop
  | none, h => (∀ i k, c.role true i = some k → starts k h = []) ∧ beStarts h = []
  | some (w, u), h => (∀ i k, c.role true i = some k → Planned c k w u h) ∧ BePlanned c w u h

def Action.Past (c : Config) : List Action → Prop
  | [] => True
  | .windowStarted _ _ :: h => Over c (current h) h ∧ Past c h
  | _ :: h => Past c h

theorem Action.Past.kept {newer older : List Action} {v : Nat} {x : Int}
    (h : Past c (newer ++ .windowStarted v x :: older)) : Over c (current older) older := by
  induction newer with
  | nil => exact h.1
  | cons a newer ih =>
    cases a with
    | windowStarted => exact ih h.2
    | _ => exact ih h

section Quiet

variable {h : List Action} (quiet : ∀ a ∈ h, ¬a.Schedules)

include quiet

theorem Action.windowStarts_of_quiet : windowStarts h = [] := by
  induction h with
  | nil => rfl
  | cons a h ih =>
    have hrest := ih fun b hb => quiet b (List.mem_cons_of_mem _ hb)
    cases a with
    | windowStarted => exact absurd trivial (quiet _ List.mem_cons_self)
    | _ => exact hrest

theorem Action.starts_of_quiet (k : Nat) : starts k h = [] := by
  induction h with
  | nil => rfl
  | cons a h ih =>
    have hrest := ih fun b hb => quiet b (List.mem_cons_of_mem _ hb)
    rw [starts_foreign h (foreign_of_quiet (quiet a List.mem_cons_self) k)]
    exact hrest

theorem Action.beStarts_of_quiet : beStarts h = [] := by
  induction h with
  | nil => rfl
  | cons a h ih =>
    have hrest := ih fun b hb => quiet b (List.mem_cons_of_mem _ hb)
    cases a with
    | windowStarted | beStarted => exact absurd trivial (quiet _ List.mem_cons_self)
    | _ => exact hrest

theorem Action.Past.of_quiet : Past c h := by
  induction h with
  | nil => trivial
  | cons a h ih =>
    have hrest := ih fun b hb => quiet b (List.mem_cons_of_mem _ hb)
    cases a with
    | windowStarted => exact absurd trivial (quiet _ List.mem_cons_self)
    | _ => exact hrest

theorem Action.Over.of_quiet : Over c none h :=
  ⟨fun _ k _ => starts_of_quiet quiet k, beStarts_of_quiet quiet⟩

end Quiet

def Config.windowPlan (c : Config) (t₀ : Int) (N : Nat) : List (Nat × Int) :=
  (List.range N).map fun m => (m % c.windows.length, t₀ + c.windowOffset m * nsPerMs)

theorem Config.windowPlan_succ (c : Config) (t₀ : Int) (N : Nat) : c.windowPlan t₀ (N + 1) =
    c.windowPlan t₀ N ++ [(N % c.windows.length, t₀ + c.windowOffset N * nsPerMs)] := by
  simp [windowPlan, List.range_succ]

theorem Config.follow_windowPlan (c : Config) (t₀ : Int) (N : Nat) :
    c.follow t₀ (c.windowPlan t₀ N).reverse.head? =
      (N % c.windows.length, t₀ + c.windowOffset N * nsPerMs) := by
  cases N with
  | zero => simp [windowPlan, follow, windowOffset]
  | succ N =>
    have hlt := Nat.mod_lt N c.windows_length_pos
    rw [windowPlan_succ, List.reverse_append, List.reverse_singleton, List.singleton_append,
      List.head?_cons, follow, Prod.mk.injEq]
    refine ⟨?_, ?_⟩
    · rw [CyclicSearch.next_eq_mod hlt, Nat.mod_add_mod]
    · rw [windowEnd, windowOffset_succ, Int.add_mul, Int.add_assoc]

structure State.OnTimetable (c : Config) (t₀ : Int) (s : State) : Prop where
  sc : ∀ k, c.ScOnly k → s.ScTurn c k
  full : ∀ k, c.ScOnly k → ∀ m, (s.process ⟨k, m⟩).actualBudget = (c.process ⟨k, m⟩).budget
  spared : ∀ i, c.role true i = none → s.Spared i
  be : s.BeTurn c
  windows : ∃ N, Action.windowStarts s.history = (c.windowPlan t₀ N).reverse
  past : Action.Past c s.history

theorem Act.windows (h : Act c w u t s s') :
    Action.windowStarts s'.history = Action.windowStarts s.history ∧
      (Action.Past c s'.history ↔ Action.Past c s.history) := by
  have hslice : ∀ (a : Action) (l : List Action), a.OfSlice →
      Action.windowStarts (a :: l) = Action.windowStarts l ∧
        (Action.Past c (a :: l) ↔ Action.Past c l) := by
    intro a l ha
    cases a with
    | entered | started | stopped | drawn | shortened => exact ⟨rfl, .rfl⟩
    | _ => exact absurd ha id
  cases h with
  | noted a ha => rcases ha with rfl | rfl | rfl <;> exact ⟨rfl, .rfl⟩
  | served member serve =>
    refine ⟨serve.grows.fixed fun a l ha => (hslice a l ha).1, ?_⟩
    rw [serve.grows.fixed fun a l ha => propext (hslice a l ha).2]
  | _ => exact ⟨rfl, .rfl⟩

theorem Act.full {k : Nat} (only : c.ScOnly k) (h : Act c w u t s s')
    (full : ∀ m, (s.process ⟨k, m⟩).actualBudget = (c.process ⟨k, m⟩).budget) :
    ∀ m, (s'.process ⟨k, m⟩).actualBudget = (c.process ⟨k, m⟩).budget := by
  intro m
  have hpicked : ∀ (x : State) (i : SliceId) (p : ProcessId),
      (x.process ⟨k, m⟩).actualBudget = (c.process ⟨k, m⟩).budget →
        ((x.picked c i p t).process ⟨k, m⟩).actualBudget = (c.process ⟨k, m⟩).budget := by
    intro x i p hx
    rw [State.picked_process]
    by_cases hp : (⟨k, m⟩ : ProcessId) = p
    · subst hp
      rw [Function.update_self]
    · rw [Function.update_of_ne hp]
      exact hx
  have hstopped : ∀ (i : SliceId) (p : ProcessId) (mark : Bool),
      ((s.stopped i p t mark).process ⟨k, m⟩).actualBudget = (c.process ⟨k, m⟩).budget := by
    intro i p mark
    by_cases hp : (⟨k, m⟩ : ProcessId) = p
    · subst hp
      simpa using full m
    · simpa [hp] using full m
  cases h with
  | @served _ i l member serve =>
    by_cases hl : l = k
    · subst hl
      cases serve with
      | begun first => exact hpicked _ i _ (full m)
      | resumed => exact hpicked _ i _ (hstopped i _ true)
      | drained => exact hstopped i _ true
      | cut _ _ _ _ be => exact absurd be (only.notBe i)
      | dropped => exact hstopped i _ false
      | spent => exact hstopped i _ true
    · rw [(State.Apart.serve serve hl).stored]
      exact full m
  | _ => exact full m

theorem Act.beTurn (h : Act c w u t s s') (be : s.BeTurn c)
    (sc : ∀ i k, c.role true i = some k → c.ScOnly k ∧ s.ScTurn c k)
    (spared : ∀ i, c.role true i = none → s.Spared i)
    (inWindow : Action.current s.history = some (w, u)) : s'.BeTurn c := by
  have hcurrent := h.current
  cases h with
  | noted a ha =>
    refine be.congr hcurrent ?_ ?_
    all_goals rcases ha with rfl | rfl | rfl <;> rfl
  | beStarted idle stage entered latest before =>
    refine be.beStarted inWindow stage latest (fun i hi => ?_) before
    cases hrole : c.role true i with
    | none =>
      obtain ⟨rfl, -⟩ := c.mem_sliceIds.mp hi
      have hend := (spared i hrole u stage inWindow).2
      simp [Config.scTotal, hrole, hend]
    | some k =>
      exact (sc i k hrole).2.scEnd_eq (sc i k hrole).1 idle inWindow stage hi hrole
        (entered i hi k hrole)
  | closing atEnd _ unfinished =>
    refine be.closing inWindow fun stage nonempty => ?_
    obtain ⟨i, hi, k, j, hrole, hrun, hlate⟩ := unfinished stage nonempty
    refine ⟨i, hi, ?_⟩
    obtain ⟨rfl, -⟩ := c.mem_sliceIds.mp hi
    obtain ⟨x, hx⟩ := (sc i k hrole).2.serving_of hrun
    have hin := hx.inWindow
    replace hin := Action.current_unique inWindow hin
    rw [atEnd, hx.timeout, ← hin.2, Config.windowEnd] at hlate
    have hle : c.offset k (j + 1) ≤ c.offset k (c.processCount k) := Config.offset_le hx.pos
    rw [Config.scTotal_eq hrole]
    unfold nsPerMs at hlate
    omega
  | served member serve =>
    refine be.congr hcurrent (serve.grows.fixed (f := fun x => (Action.course x).stage)
      fun _ x ha => Action.course_ofSlice x ha) (serve.grows.fixed fun a x ha => ?_)
    cases a with
    | entered | started | stopped | drawn | shortened => rfl
    | _ => exact absurd ha id
  | _ => exact be.congr hcurrent rfl rfl

namespace State.OnTimetable

theorem act (h : s.OnTimetable c t₀) (single : ∀ i k, c.role true i = some k → c.ScOnly k)
    (positive : u < c.windowEnd w u) (regular : s.Regular c)
    (inWindow : Action.current s.history = some (w, u)) (act : Act c w u t s s') :
    s'.OnTimetable c t₀ where
  sc k only := (h.sc k only).act only positive regular (h.full k only) inWindow act
  full k only := act.full only (h.full k only)
  spared i hi := (h.spared i hi).act hi act
  be := act.beTurn h.be (fun i k hi => ⟨single i k hi, h.sc k (single i k hi)⟩) h.spared
    inWindow
  windows := by
    rw [act.windows (c := c) |>.1]
    exact h.windows
  past := act.windows.2.mpr h.past

theorem window_lt (h : s.OnTimetable c t₀) (inWindow : Action.current s.history = some (w, u)) :
    w < c.windows.length := by
  obtain ⟨N, hN⟩ := h.windows
  rw [Action.current_eq_head, hN] at inWindow
  cases N with
  | zero => simp [Config.windowPlan] at inWindow
  | succ N =>
    rw [Config.windowPlan_succ, List.reverse_append, List.reverse_singleton, List.singleton_append,
      List.head?_cons, Option.some.injEq, Prod.mk.injEq] at inWindow
    rw [← inWindow.1]
    exact Nat.mod_lt N c.windows_length_pos

theorem kept (h : s.OnTimetable c t₀) (single : ∀ i k, c.role true i = some k → c.ScOnly k)
    (idle : s.AllIdle) (closed : s.course.stage = .closed) :
    Action.Over c (Action.current s.history) s.history := by
  cases hcurrent : Action.current s.history with
  | none =>
    refine ⟨fun i k hk => (h.sc k (single i k hk)).unstarted hcurrent, ?_⟩
    cases h.be with
    | before _ _ starts => exact starts
    | sc _ _ hsome => simp [hcurrent] at hsome
    | be _ _ _ hsome => simp [hcurrent] at hsome
    | ended _ _ hsome => simp [hcurrent] at hsome
  | some x =>
    obtain ⟨w, u⟩ := x
    refine ⟨fun i k hk => (h.sc k (single i k hk)).planned idle closed hcurrent, ?_⟩
    cases h.be with
    | before hnone => simp [hcurrent] at hnone
    | sc _ _ _ stage => simp [closed] at stage
    | be _ _ _ _ stage => simp [closed] at stage
    | ended v y hv _ planned =>
      obtain ⟨rfl, rfl⟩ := Action.current_unique hcurrent hv
      exact planned

theorem windowStarted (h : s.OnTimetable c t₀)
    (single : ∀ i k, c.role true i = some k → c.ScOnly k) (idle : s.AllIdle)
    (closed : s.course.stage = .closed)
    (next : (w, u) = c.follow t₀ (Action.current s.history)) (x : Window) :
    ((s.record (.windowStarted w u)).setWindow w x).OnTimetable c t₀ where
  sc k _ := .windowStarted idle w u x
  full := h.full
  spared i _ := .windowStarted idle w u x
  be := .sc w u rfl rfl rfl
  windows := by
    obtain ⟨N, hN⟩ := h.windows
    refine ⟨N + 1, ?_⟩
    rw [Action.current_eq_head, hN, Config.follow_windowPlan] at next
    rw [Config.windowPlan_succ, List.reverse_append, List.reverse_singleton, List.singleton_append,
      ← next, ← hN]
    rfl
  past := ⟨h.kept single idle closed, h.past⟩

theorem move (h : s.OnTimetable c t₀) (single : ∀ i k, c.role true i = some k → c.ScOnly k)
    (positive : c.PositiveLengths) (regular : s.Regular c) (move : Move c t₀ s s') :
    s'.OnTimetable c t₀ := by
  have hsame : ∀ {m : State}, (∀ k, s.Apart k m) → m.course = s.course →
      m.history = s.history ∨ (∃ x, m.history = .windowArmed x :: s.history) →
      (∀ i, m.slice i = s.slice i) → m.OnTimetable c t₀ := by
    intro m hapart hcourse hhistory hslice
    have hfunctions : Action.current m.history = Action.current s.history ∧
        Action.beStarts m.history = Action.beStarts s.history ∧
        Action.windowStarts m.history = Action.windowStarts s.history ∧
        (∀ i, Action.scEnd i m.history = Action.scEnd i s.history) ∧
        (Action.Past c m.history ↔ Action.Past c s.history) := by
      rcases hhistory with hh | ⟨x, hh⟩
      · rw [hh]
        exact ⟨rfl, rfl, rfl, fun _ => rfl, .rfl⟩
      · rw [hh]
        exact ⟨rfl, rfl, rfl, fun _ => rfl, .rfl⟩
    obtain ⟨hcurrent, hbe, hwindows, hend, hpast⟩ := hfunctions
    exact
      { sc := fun k only => (h.sc k only).apart_course (hapart k) hcourse fun i hi =>
          ⟨by rw [hslice, hi], hend i⟩
        full := fun k only m => by
          rw [(hapart k).stored]
          exact h.full k only m
        spared := fun i hi => (h.spared i hi).congr (by rw [hcourse]; exact id) hcurrent
          fun _ hidle => ⟨by rw [hslice, hidle], hend i⟩
        be := h.be.congr hcurrent (by rw [hcourse]) hbe
        windows := by
          rw [hwindows]
          exact h.windows
        past := hpast.mpr h.past }
  cases move with
  | act inWindow _ act =>
    exact h.act single (positive.lt_windowEnd (h.window_lt inWindow) _) regular inWindow act
  | windowStarted w u idle closed next => exact h.windowStarted single idle closed next _
  | framed x => exact hsame (fun k => .noted rfl rfl rfl (.same rfl)) rfl (.inl rfl) fun _ => rfl
  | windowArmed x =>
    exact hsame (fun k => .noted rfl rfl rfl (.one (a := .windowArmed x) trivial rfl)) rfl
      (.inr ⟨x, rfl⟩) fun _ => rfl
  | scheduled x =>
    exact hsame (fun k => .noted rfl rfl rfl (.same rfl)) rfl (.inl rfl) fun _ => rfl

end State.OnTimetable

end DemosSched
