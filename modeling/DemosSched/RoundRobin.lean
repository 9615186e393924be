import DemosSched.Accounts
import DemosSched.Undisturbed

/-! The round robin of a partition that runs in the BE phase only, as the records
tell it: whose turn it is, and which processes have completed in a window. -/

namespace DemosSched

open Fallible Relation

namespace Action

def runs (k : Nat) : List Action → Option Nat
  | [] => none
  | .started _ p _ _ :: h => if p.part = k then some p.index else runs k h
  | .stopped _ p _ _ :: h => if p.part = k then none else runs k h
  | _ :: h => runs k h

def due (c : Config) (k : Nat) : List Action → Nat
  | [] => 0
  | .stopped _ p _ completed :: h =>
    if p.part = k then
      if completed then CyclicSearch.next (c.processCount k) p.index else p.index
    else due c k h
  | _ :: h => due c k h

/-- The processes of partition `k` that have completed since a window was started last. -/
def completions (k : Nat) : List Action → List Nat
  | [] => []
  | .windowStarted _ _ :: _ => []
  | .stopped _ p _ completed :: h =>
    if p.part = k ∧ completed = true then p.index :: completions k h else completions k h
  | _ :: h => completions k h

/-- The processes of partition `k` take turns, and those that start with their full
budget have been granted all of the one before. -/
def TakesTurns (c : Config) (k : Nat) : List Action → Prop
  | [] => True
  | .started _ p _ b :: h => (p.part = k → runs k h = none ∧ p.index = due c k h ∧
      (b = (c.process p).budget → ∀ g, granted c p h = some g →
        g = (c.process p).budget * nsPerMs)) ∧ TakesTurns c k h
  | .stopped _ p _ completed :: h => (p.part = k → runs k h = some p.index ∧
      (completed = true → p.index ∉ completions k h)) ∧ TakesTurns c k h
  | _ :: h => TakesTurns c k h

variable {c : Config} {k : Nat} {a : Action} (l : List Action)

theorem runs_foreign (ha : a.Foreign k) : runs k (a :: l) = runs k l := by
  cases a with
  | started i p t b => exact if_neg ha
  | stopped i p t mark => exact if_neg ha
  | _ => rfl

theorem due_foreign (ha : a.Foreign k) : due c k (a :: l) = due c k l := by
  cases a with
  | stopped i p t mark => exact if_neg ha
  | _ => rfl

theorem completions_foreign (ha : a.Foreign k) : completions k (a :: l) = completions k l := by
  cases a with
  | stopped i p t mark => exact if_neg fun h => ha h.1
  | windowStarted w u => exact absurd ha id
  | _ => rfl

theorem takesTurns_foreign (ha : a.Foreign k) : TakesTurns c k (a :: l) ↔ TakesTurns c k l := by
  cases a with
  | started i p t b => exact and_iff_right fun h => absurd h ha
  | stopped i p t mark => exact and_iff_right fun h => absurd h ha
  | _ => exact .rfl

end Action

structure State.Serving (c : Config) (k : Nat) (i : SliceId) (f d : Nat) (s : State) : Prop where
  first : f < c.processCount k
  pos : d < c.processCount k
  be : c.role false i = some k
  running : (s.slice i).runningProcess = some ⟨k, (f + d) % c.processCount k⟩
  only : ∀ l j, (s.slice l).runningProcess = some ⟨k, j⟩ → l = i
  runs : Action.runs k s.history = some ((f + d) % c.processCount k)
  current : (s.partition k).currentProc = (f + d) % c.processCount k
  flags : ∀ e < c.processCount k,
    (s.process ⟨k, (f + e) % c.processCount k⟩).completed = decide (e < d)
  completions : ∀ m, m ∈ Action.completions k s.history ↔ ∃ e < d, m = (f + e) % c.processCount k
  stage : s.course.stage = .running i.window false ∨ s.course.stage = .closed
  role : ∀ l, s.course.role l = some (k, false) ↔ l = i

inductive State.RobinTurn (c : Config) (k : Nat) (s : State) : Prop
  | waiting (idle : ∀ i j, (s.slice i).runningProcess ≠ some ⟨k, j⟩)
      (runs : Action.runs k s.history = none)
      (current : (s.partition k).currentProc = Action.due c k s.history)
      (fresh : ∀ w sc, s.course.stage = .running w sc →
        Action.completions k s.history = [] ∧ ∀ i, s.course.role i ≠ some (k, false))
  | serving (i : SliceId) (f d : Nat) (h : s.Serving c k i f d)
  | finished (i : SliceId) (idle : ∀ l j, (s.slice l).runningProcess ≠ some ⟨k, j⟩)
      (be : c.role false i = some k) (runs : Action.runs k s.history = none)
      (current : (s.partition k).currentProc = Action.due c k s.history)
      (all : ∀ m < c.processCount k, m ∈ Action.completions k s.history)
      (stage : s.course.stage = .running i.window false)
      (role : ∀ l, s.course.role l = some (k, false) ↔ l = i)

section Serving

variable {c : Config} {k : Nat} {s : State} {i : SliceId} {t : Int}

theorem State.picked_functions (c : Config) (s : State) (i : SliceId) (k j : Nat) (t : Int) :
    Action.runs k (s.picked c i ⟨k, j⟩ t).history = some j ∧
      Action.completions k (s.picked c i ⟨k, j⟩ t).history = Action.completions k s.history := by
  obtain ⟨older, hh, rfl | ⟨o, rfl⟩⟩ := s.picked_records c i ⟨k, j⟩ t
  · rw [hh]
    simp [Action.runs, Action.completions]
  · rw [hh]
    simp [Action.runs, Action.completions]

namespace State.Serving

variable {f d : Nat} (h : s.Serving c k i f d)

include h

theorem completed_stopped : ∀ e < c.processCount k,
    ((s.stopped i ⟨k, (f + d) % c.processCount k⟩ t true).process
      ⟨k, (f + e) % c.processCount k⟩).completed = decide (e < d + 1) := by
  intro e he
  by_cases hed : e = d
  · subst hed
    simp
  · have hne : (⟨k, (f + e) % c.processCount k⟩ : ProcessId) ≠
        ⟨k, (f + d) % c.processCount k⟩ := by
      intro heq
      exact hed (CyclicSearch.round_injective h.first he h.pos (ProcessId.mk.inj heq).2)
    rw [State.stopped_process, Function.update_of_ne hne, h.flags e he]
    exact decide_eq_decide.mpr (by omega)

theorem pending_stopped (regular : s.Regular c) :
    ∀ e < c.processCount k, Process.isPending ⟨k, (f + e) % c.processCount k⟩
      (s.stopped i ⟨k, (f + d) % c.processCount k⟩ t true) = decide (d < e) := by
  intro e he
  rw [(regular.stopped i _ t true).isPending, h.completed_stopped e he, ← decide_not]
  exact decide_eq_decide.mpr (by omega)

theorem seek_stopped (regular : s.Regular c) :
    CyclicSearch.seek (c.processCount k) (fun m => Process.isPending ⟨k, m⟩
        (s.stopped i ⟨k, (f + d) % c.processCount k⟩ t true)) (c.processCount k)
        (s.partition k).currentProc =
      (if d + 1 < c.processCount k then some ((f + (d + 1)) % c.processCount k) else none,
        (f + (d + 1)) % c.processCount k) := by
  rw [h.current]
  exact CyclicSearch.seek_round h.first h.pos (h.pending_stopped regular)

theorem notMem_completions :
    (f + d) % c.processCount k ∉ Action.completions k s.history := by
  intro hmem
  obtain ⟨e, he, heq⟩ := (h.completions _).mp hmem
  have hpos := h.pos
  have := CyclicSearch.round_injective h.first h.pos (by omega) heq
  omega

theorem completions_stopped (m : Nat) :
    m ∈ Action.completions k
        (s.stopped i ⟨k, (f + d) % c.processCount k⟩ t true).history ↔
      ∃ e < d + 1, m = (f + e) % c.processCount k := by
  simp only [State.stopped_history, Action.completions, and_self, if_true, List.mem_cons,
    h.completions]
  constructor
  · rintro (rfl | ⟨e, he, rfl⟩)
    · exact ⟨d, by omega, rfl⟩
    · exact ⟨e, by omega, rfl⟩
  · rintro ⟨e, he, rfl⟩
    by_cases hed : e = d
    · exact .inl (by rw [hed])
    · exact .inr ⟨e, by omega, rfl⟩

theorem idle_stopped (mark : Bool) (l : SliceId) (j : Nat) :
    ((s.stopped i ⟨k, (f + d) % c.processCount k⟩ t mark).slice l).runningProcess ≠
      some ⟨k, j⟩ := by
  intro hl
  obtain ⟨hli, hl⟩ := State.stopped_running.mp hl
  exact hli (h.only l j hl)

theorem resumed (regular : s.Regular c) {j : Nat}
    (found : CyclicSearch.seek (c.processCount k) (fun m => Process.isPending ⟨k, m⟩
      (s.stopped i ⟨k, (f + d) % c.processCount k⟩ t true)) (c.processCount k)
      (s.partition k).currentProc = (some j, j)) :
    ((s.stopped i ⟨k, (f + d) % c.processCount k⟩ t true).picked c i ⟨k, j⟩ t).Serving c k i f
      (d + 1) := by
  rw [h.seek_stopped regular, Prod.mk.injEq] at found
  obtain ⟨hsome, rfl⟩ := found
  have hlt : d + 1 < c.processCount k := by
    by_contra hge
    simp [hge] at hsome
  obtain ⟨hruns, hcompletions⟩ := State.picked_functions c
    (s.stopped i ⟨k, (f + d) % c.processCount k⟩ t true) i k ((f + (d + 1)) % c.processCount k) t
  exact
    { first := h.first
      pos := hlt
      be := h.be
      running := by rw [State.picked_slice, Function.update_self]
      only := fun l m hl => by
        rw [State.picked_slice] at hl
        by_contra hli
        rw [Function.update_of_ne hli] at hl
        exact h.idle_stopped true l m hl
      runs := hruns
      current := by rw [State.picked_partition, Function.update_self]
      flags := fun e he => by
        rw [State.picked_completed]
        exact h.completed_stopped e he
      completions := fun m => by
        rw [hcompletions]
        exact h.completions_stopped m
      stage := by
        rw [State.picked_course]
        exact h.stage
      role := by
        rw [State.picked_course]
        exact h.role }

theorem drained (regular : s.Regular c)
    (exhausted : ∀ m < c.processCount k, Process.isPending ⟨k, m⟩
      (s.stopped i ⟨k, (f + d) % c.processCount k⟩ t true) = false) :
    ((s.stopped i ⟨k, (f + d) % c.processCount k⟩ t true).sought k
      (CyclicSearch.next (c.processCount k) (s.partition k).currentProc)).RobinTurn c k := by
  have hlast : c.processCount k = d + 1 := by
    by_contra hne
    have hpos := h.pos
    have hpending := h.pending_stopped (t := t) regular (d + 1) (by omega)
    rw [exhausted _ (Nat.mod_lt _ (c.processCount_pos k))] at hpending
    simp at hpending
  have hruns : Action.runs k ((s.stopped i ⟨k, (f + d) % c.processCount k⟩ t true).sought k
      (CyclicSearch.next (c.processCount k) (s.partition k).currentProc)).history = none := by
    simp [Action.runs]
  have hidle := h.idle_stopped (t := t) true
  rcases h.stage with hstage | hclosed
  · refine .finished i hidle h.be hruns (by simp [Action.due, h.current]) (fun m hm => ?_) hstage
      h.role
    obtain ⟨e, he, rfl⟩ := CyclicSearch.round_surjective h.first hm
    exact (h.completions_stopped (t := t) _).mpr ⟨e, by omega, rfl⟩
  · refine .waiting hidle hruns (by simp [Action.due, h.current]) fun w sc hstage => ?_
    have hrun : s.course.stage = .running w sc := hstage
    simp [hclosed] at hrun

theorem cut (closed : s.course.stage = .closed) (r : Int) :
    (((s.shortened ⟨k, (f + d) % c.processCount k⟩ r).stopped i
      ⟨k, (f + d) % c.processCount k⟩ t false).released c i).RobinTurn c k := by
  refine .waiting (fun l j hl => ?_) (by simp [Action.runs]) ?_ fun w sc hstage => ?_
  · obtain ⟨hli, hl⟩ := State.stopped_running.mp ((State.released_running (c := c)).symm.trans hl)
    exact hli (h.only l j hl)
  · rw [State.released_currentProc]
    simp [Action.due, h.current]
  · have hclosed : s.course.stage = .running w sc := hstage
    simp [closed] at hclosed

theorem spent (regular : s.Regular c) (closed : s.course.stage = .closed) :
    (((s.stopped i ⟨k, (f + d) % c.processCount k⟩ t true).released c i).sought k
      (CyclicSearch.seek (c.processCount k) (fun m => Process.isPending ⟨k, m⟩
        (s.stopped i ⟨k, (f + d) % c.processCount k⟩ t true)) (c.processCount k)
        (s.partition k).currentProc).2).RobinTurn c k := by
  refine .waiting (fun l j hl => ?_) (by simp [Action.runs]) ?_ fun w sc hstage => ?_
  · obtain ⟨hli, hl⟩ := State.stopped_running.mp ((State.released_running (c := c)).symm.trans hl)
    exact hli (h.only l j hl)
  · rw [h.seek_stopped regular]
    simp [Action.due, CyclicSearch.next_round (c.processCount_pos k)]
  · have hclosed : s.course.stage = .running w sc := hstage
    simp [closed] at hclosed

end State.Serving

end Serving

namespace State.RobinTurn

variable {c : Config} {k : Nat} {s s' : State}

theorem apart (h : s.RobinTurn c k) (apart : s.Apart k s') (stage : s'.course.stage = s.course.stage)
    (role : ∀ l, s'.course.role l = some (k, false) ↔ s.course.role l = some (k, false)) :
    s'.RobinTurn c k := by
  have hruns : Action.runs k s'.history = Action.runs k s.history :=
    apart.grows.fixed fun _ l ha => Action.runs_foreign l ha
  have hdue : Action.due c k s'.history = Action.due c k s.history :=
    apart.grows.fixed fun _ l ha => Action.due_foreign l ha
  have hcompletions : Action.completions k s'.history = Action.completions k s.history :=
    apart.grows.fixed fun _ l ha => Action.completions_foreign l ha
  cases h with
  | waiting idle runs current fresh =>
    refine .waiting (fun i j hi => idle i j ((apart.running i j).mp hi)) (hruns.trans runs)
      (by rw [apart.current, hdue, current]) fun w sc hstage => ?_
    rw [stage] at hstage
    rw [hcompletions]
    exact ⟨(fresh w sc hstage).1, fun i hi => (fresh w sc hstage).2 i ((role i).mp hi)⟩
  | serving i f d h =>
    exact .serving i f d
      { first := h.first
        pos := h.pos
        be := h.be
        running := (apart.running i _).mpr h.running
        only := fun l j hl => h.only l j ((apart.running l j).mp hl)
        runs := hruns.trans h.runs
        current := apart.current.trans h.current
        flags := fun e he => (apart.completed _).trans (h.flags e he)
        completions := by rw [hcompletions]; exact h.completions
        stage := by rw [stage]; exact h.stage
        role := fun l => (role l).trans (h.role l) }
  | finished i idle be runs current all hstage hrole =>
    exact .finished i (fun l j hl => idle l j ((apart.running l j).mp hl)) be (hruns.trans runs)
      (by rw [apart.current, hdue, current]) (by rwa [hcompletions]) (stage.trans hstage)
      fun l => (role l).trans (hrole l)

theorem closing (h : s.RobinTurn c k) (w : Nat) : (s.record (.onWindowEnd w)).RobinTurn c k := by
  cases h with
  | waiting idle runs current =>
    exact .waiting idle runs current fun v sc hstage => by
      simp [State.course, Action.course, Course.next] at hstage
  | serving i f d h =>
    exact .serving i f d ⟨h.first, h.pos, h.be, h.running, h.only, h.runs, h.current, h.flags,
      h.completions, .inr rfl, h.role⟩
  | finished i idle be runs current =>
    exact .waiting idle runs current fun v sc hstage => by
      simp [State.course, Action.course, Course.next] at hstage

theorem beStarted {w : Nat} (h : s.RobinTurn c k) (stage : s.course.stage = .running w true) (t : Int) :
    (s.record (.beStarted w t)).RobinTurn c k := by
  cases h with
  | waiting idle runs current fresh =>
    exact .waiting idle runs current fun _ _ _ => fresh w true stage
  | serving i f d h => simpa [stage] using h.stage
  | finished i idle be runs current all hstage => simp [stage] at hstage

theorem windowStarted (h : s.RobinTurn c k) (allIdle : s.AllIdle) (closed : s.course.stage = .closed)
    (w : Nat) (u : Int) (x : Window) :
    ((s.record (.windowStarted w u)).setWindow w x).RobinTurn c k := by
  cases h with
  | waiting idle runs current =>
    exact .waiting idle runs current fun v sc hstage => ⟨rfl, fun i => by
      simp [State.course, Action.course, Course.next]⟩
  | serving i f d h => simpa [allIdle i] using h.running
  | finished i idle be runs current all stage => simp [closed] at stage

theorem serving_of (h : s.RobinTurn c k) {i : SliceId} {j : Nat}
    (running : (s.slice i).runningProcess = some ⟨k, j⟩) :
    ∃ f d, s.Serving c k i f d ∧ j = (f + d) % c.processCount k := by
  cases h with
  | waiting idle => exact absurd running (idle i j)
  | finished _ idle => exact absurd running (idle i j)
  | serving l f d h =>
    obtain rfl := h.only i j running
    refine ⟨f, d, h, ?_⟩
    have hrun := h.running
    rw [running, Option.some.injEq, ProcessId.mk.injEq] at hrun
    exact hrun.2

theorem begun_waiting (h : s.RobinTurn c k) (only : c.BeOnly k) {w : Nat} {i : SliceId}
    (member : i ∈ c.sliceIds w) (idle : (s.slice i).runningProcess = none)
    (role : c.role false i = some k) (stage : s.course.stage = .running w false)
    (fresh : s.course.role i ≠ some (k, false)) :
    (∀ l j, (s.slice l).runningProcess ≠ some ⟨k, j⟩) ∧ Action.runs k s.history = none ∧
      (s.partition k).currentProc = Action.due c k s.history ∧
      Action.completions k s.history = [] ∧ ∀ l, s.course.role l ≠ some (k, false) := by
  have hwindow : i.window = w := (c.mem_sliceIds.mp member).1
  cases h with
  | waiting hidle runs current hfresh =>
    obtain ⟨hnone, hroles⟩ := hfresh w false stage
    exact ⟨hidle, runs, current, hnone, hroles⟩
  | serving l f d h =>
    have hl : l.window = i.window := by
      rcases h.stage with hrun | hclosed
      · rw [stage, Stage.running.injEq] at hrun
        rw [hwindow, hrun.1]
      · simp [stage] at hclosed
    obtain rfl := only.single h.be role hl
    simpa [idle] using h.running
  | finished l _ be _ _ _ hrun hrole =>
    rw [stage, Stage.running.injEq] at hrun
    obtain rfl := only.single be role (by rw [hwindow, hrun.1])
    exact absurd ((hrole l).mpr rfl) fresh

theorem begun (regular : s.Regular c) {w : Nat} {t : Int} {i : SliceId}
    (member : i ∈ c.sliceIds w) (role : c.role false i = some k)
    (stage : s.course.stage = .running w false)
    (idle : ∀ l j, (s.slice l).runningProcess ≠ some ⟨k, j⟩)
    (fresh : Action.completions k s.history = [])
    (roles : ∀ l, s.course.role l ≠ some (k, false)) :
    ((s.assigned c i k false t).picked c i ⟨k, (s.partition k).currentProc⟩ t).RobinTurn c k := by
  have hwindow : i.window = w := (c.mem_sliceIds.mp member).1
  have hlt := regular.queues k
  have hstart : ((s.partition k).currentProc + 0) % c.processCount k =
      (s.partition k).currentProc := Nat.mod_eq_of_lt hlt
  obtain ⟨hruns, hcompletions⟩ := State.picked_functions c (s.assigned c i k false t) i k
    (s.partition k).currentProc t
  refine .serving i (s.partition k).currentProc 0
    { first := hlt
      pos := c.processCount_pos k
      be := role
      running := by rw [State.picked_slice, Function.update_self, hstart]
      only := fun l j hl => by
        rw [State.picked_slice] at hl
        by_contra hli
        exact idle l j (by simpa [hli] using hl)
      runs := by rw [hruns, hstart]
      current := by rw [State.picked_partition, Function.update_self, hstart]
      flags := fun e he => ?_
      completions := fun m => ?_
      stage := .inl (by rw [State.course_begun, hwindow]; exact stage)
      role := fun l => ?_ }
  · have hmem : (⟨k, ((s.partition k).currentProc + e) % c.processCount k⟩ : ProcessId) ∈
        c.processIds k := c.mem_processIds.mpr ⟨rfl, Nat.mod_lt _ (c.processCount_pos k)⟩
    rw [State.picked_completed]
    simp [hmem]
  · have hassigned : Action.completions k (s.assigned c i k false t).history = [] := fresh
    rw [hcompletions, hassigned]
    simp
  · rw [State.course_begun]
    by_cases hli : l = i
    · subst hli
      simp
    · simpa [hli] using roles l

theorem begun_other (h : s.RobinTurn c k) {w m : Nat} {first : Bool} {i : SliceId}
    (idle : (s.slice i).runningProcess = none) (role : c.role first i = some m) (ne : m ≠ k)
    (stage : s.course.stage = .running w first) : s.course.role i ≠ some (k, false) := by
  cases h with
  | waiting _ _ _ fresh => exact (fresh w first stage).2 i
  | serving l f d h =>
    intro hrole
    obtain rfl := (h.role i).mp hrole
    simpa [idle] using h.running
  | finished l _ be _ _ _ hstage hrole =>
    intro hi
    obtain rfl := (hrole i).mp hi
    rw [stage, Stage.running.injEq] at hstage
    rw [hstage.2, be, Option.some.injEq] at role
    exact ne role.symm

end State.RobinTurn

structure State.RoundRobin (c : Config) (t₀ : Int) (k : Nat) (s : State) : Prop where
  turn : s.RobinTurn c k
  account : ∀ j, s.Account c t₀ ⟨k, j⟩
  takesTurns : Action.TakesTurns c k s.history

theorem durationCastMs_mul {t t' t₀ : Int} (ht : nsPerMs ∣ t - t₀) (ht' : nsPerMs ∣ t' - t₀)
    (le : t ≤ t') : Process.durationCastMs (t' - t) * nsPerMs = t' - t := by
  have hdvd : nsPerMs ∣ t' - t := by
    have hsub := Int.dvd_sub ht' ht
    rwa [show t' - t₀ - (t - t₀) = t' - t by omega] at hsub
  rw [Process.durationCastMs_nonneg (by omega), Int.ediv_mul_cancel hdvd]

namespace State.RoundRobin

variable {c : Config} {t₀ : Int} {k : Nat} {s s' : State}

theorem apart (h : s.RoundRobin c t₀ k) (apart : s.Apart k s')
    (stage : s'.course.stage = s.course.stage)
    (role : ∀ l, s'.course.role l = some (k, false) ↔ s.course.role l = some (k, false)) :
    s'.RoundRobin c t₀ k where
  turn := h.turn.apart apart stage role
  account j := (h.account j).apart apart
  takesTurns := by
    rw [apart.grows.fixed fun _ l ha => propext (Action.takesTurns_foreign l ha)]
    exact h.takesTurns

theorem takesTurns_picked {i : SliceId} {j : Nat} (t : Int)
    (takesTurns : Action.TakesTurns c k s.history) (runs : Action.runs k s.history = none)
    (due : j = Action.due c k s.history) (account : s.Account c t₀ ⟨k, j⟩)
    (idle : ∀ l, (s.slice l).runningProcess ≠ some ⟨k, j⟩) :
    Action.TakesTurns c k (s.picked c i ⟨k, j⟩ t).history := by
  have hpaid : (s.process ⟨k, j⟩).actualBudget = (c.process ⟨k, j⟩).budget →
      ∀ g, Action.granted c ⟨k, j⟩ s.history = some g →
        g = (c.process ⟨k, j⟩).budget * nsPerMs := by
    intro hfull
    cases account with
    | full _ _ paid => exact paid
    | cut _ lt => exact absurd hfull lt.ne
    | running l hl => exact absurd hl (idle l)
  obtain ⟨older, hh, rfl | ⟨o, rfl⟩⟩ := s.picked_records c i ⟨k, j⟩ t
  · rw [hh]
    exact ⟨fun _ => ⟨runs, due, hpaid⟩, takesTurns⟩
  · rw [hh]
    exact ⟨fun _ => ⟨runs, due, hpaid⟩, takesTurns⟩

variable {w : Nat} {u t : Int} {i : SliceId}

theorem takesTurns_stopped {f d : Nat} (h : s.RoundRobin c t₀ k) (serving : s.Serving c k i f d)
    (mark : Bool) : Action.TakesTurns c k
      (.stopped i ⟨k, (f + d) % c.processCount k⟩ t mark :: s.history) :=
  ⟨fun _ => ⟨serving.runs, fun _ => serving.notMem_completions⟩, h.takesTurns⟩

theorem account_stopped {f d : Nat} (h : s.RoundRobin c t₀ k) (serving : s.Serving c k i f d)
    (due : (s.slice i).timeout = t) (j : Nat) :
    (s.stopped i ⟨k, (f + d) % c.processCount k⟩ t true).Account c t₀ ⟨k, j⟩ := by
  by_cases hj : (f + d) % c.processCount k = j
  · subst hj
    exact (h.account _).stopped serving.running (fun l => serving.only l _) due
  · exact (h.account j).stopped_other (fun e => hj (ProcessId.mk.inj e).2) serving.running true

theorem begun (h : s.RoundRobin c t₀ k) (only : c.BeOnly k) (regular : s.Regular c)
    (aligned : nsPerMs ∣ t - t₀) (member : i ∈ c.sliceIds w)
    (idle : (s.slice i).runningProcess = none) (role : c.role false i = some k)
    (stage : s.course.stage = .running w false) (fresh : s.course.role i ≠ some (k, false)) :
    ((s.assigned c i k false t).picked c i
      ⟨k, (s.partition k).currentProc⟩ t).RoundRobin c t₀ k := by
  obtain ⟨hidle, hruns, hcurrent, hnone, hroles⟩ :=
    h.turn.begun_waiting only member idle role stage fresh
  have hassigned : ∀ j, (s.assigned c i k false t).Account c t₀ ⟨k, j⟩ := by
    intro j
    refine (h.account j).congr rfl (fun l => ?_) (fun _ _ => State.assigned_timeout) rfl rfl
    rw [State.assigned_running]
  have hidle' : ∀ l j, ((s.assigned c i k false t).slice l).runningProcess ≠ some ⟨k, j⟩ := by
    intro l j
    rw [State.assigned_running]
    exact hidle l j
  exact
    { turn := State.RobinTurn.begun regular member role stage hidle hnone hroles
      account := fun j => by
        by_cases hj : (s.partition k).currentProc = j
        · subst hj
          exact (hassigned _).picked (fun l => hidle' l _) aligned
        · exact (hassigned j).picked_other (fun e => hj (ProcessId.mk.inj e).2) (by simpa using idle)
      takesTurns := takesTurns_picked t h.takesTurns hruns hcurrent (hassigned _)
        fun l => hidle' l _ }

section Serving

variable {f d : Nat} (serving : s.Serving c k i f d)

include serving

theorem resumed (h : s.RoundRobin c t₀ k) (regular : s.Regular c) (aligned : nsPerMs ∣ t - t₀)
    (due : (s.slice i).timeout = t) {j : Nat}
    (found : CyclicSearch.seek (c.processCount k) (fun m => Process.isPending ⟨k, m⟩
      (s.stopped i ⟨k, (f + d) % c.processCount k⟩ t true)) (c.processCount k)
      (s.partition k).currentProc = (some j, j)) :
    ((s.stopped i ⟨k, (f + d) % c.processCount k⟩ t true).picked c i ⟨k, j⟩ t).RoundRobin c t₀ k := by
  have hturn := serving.resumed (t := t) regular found
  have haccount := h.account_stopped serving due
  have hidle := serving.idle_stopped (t := t) true
  have hdue : j = Action.due c k
      (s.stopped i ⟨k, (f + d) % c.processCount k⟩ t true).history := by
    rw [serving.seek_stopped regular, Prod.mk.injEq] at found
    simp [Action.due, CyclicSearch.next_round (c.processCount_pos k), found.2]
  exact
    { turn := .serving i f (d + 1) hturn
      account := fun m => by
        by_cases hm : j = m
        · subst hm
          exact (haccount _).picked (fun l => hidle l _) aligned
        · exact (haccount m).picked_other (fun e => hm (ProcessId.mk.inj e).2) (by simp)
      takesTurns := takesTurns_picked t (h.takesTurns_stopped serving true)
        (by simp [Action.runs]) hdue (haccount _) fun l => hidle l _ }

theorem cut (h : s.RoundRobin c t₀ k) (aligned : nsPerMs ∣ t - t₀)
    (closed : s.course.stage = .closed) (late : t ≤ (s.slice i).timeout) {r : Int}
    (remaining : r = Process.durationCastMs ((s.slice i).timeout - t))
    (lt : r < (c.process ⟨k, (f + d) % c.processCount k⟩).budget) :
    (((s.shortened ⟨k, (f + d) % c.processCount k⟩ r).stopped i
      ⟨k, (f + d) % c.processCount k⟩ t false).released c i).RoundRobin c t₀ k := by
  have haligned := (h.account _).aligned_of serving.running fun l => serving.only l _
  have hleft : r * nsPerMs = (s.slice i).timeout - t := by
    rw [remaining]
    exact durationCastMs_mul aligned haligned late
  refine ⟨serving.cut (t := t) closed r, fun m => ?_, h.takesTurns_stopped (t := t) serving false⟩
  have hcut : ((s.shortened ⟨k, (f + d) % c.processCount k⟩ r).stopped i
      ⟨k, (f + d) % c.processCount k⟩ t false).Account c t₀ ⟨k, m⟩ := by
    by_cases hm : (f + d) % c.processCount k = m
    · subst hm
      exact (h.account _).cutShort serving.running (fun l => serving.only l _) lt hleft
    · have hne : (⟨k, (f + d) % c.processCount k⟩ : ProcessId) ≠ ⟨k, m⟩ :=
        fun e => hm (ProcessId.mk.inj e).2
      have hshort : (s.shortened ⟨k, (f + d) % c.processCount k⟩ r).Account c t₀ ⟨k, m⟩ :=
        (h.account m).congr (by simp [Ne.symm hm]) (fun _ => .rfl) (fun _ _ => rfl) rfl rfl
      exact hshort.stopped_other hne serving.running false
  exact hcut.apart_released

end Serving

theorem serve (h : s.RoundRobin c t₀ k) (only : c.BeOnly k) (regular : s.Regular c)
    (aligned : nsPerMs ∣ t - t₀) (member : i ∈ c.sliceIds w) (serve : Serve c w u t i k s s') :
    s'.RoundRobin c t₀ k := by
  cases serve with
  | begun first idle role stage fresh =>
    cases first with
    | true => exact absurd role (only.notSc i)
    | false => exact h.begun only regular aligned member idle role stage fresh
  | resumed running due before found =>
    obtain ⟨f, d, hserving, rfl⟩ := h.turn.serving_of running
    exact h.resumed hserving regular aligned due found
  | drained running due before exhausted =>
    obtain ⟨f, d, hserving, rfl⟩ := h.turn.serving_of running
    exact
      { turn := hserving.drained regular exhausted
        account := fun m => (h.account_stopped hserving due m).congr rfl (fun _ => .rfl)
          (fun _ _ => rfl) rfl rfl
        takesTurns := h.takesTurns_stopped hserving true }
  | cut running closed atEnd late be remaining pos lt =>
    obtain ⟨f, d, hserving, rfl⟩ := h.turn.serving_of running
    exact h.cut hserving aligned closed late remaining lt
  | dropped running closed atEnd late notBe =>
    obtain ⟨f, d, hserving, -⟩ := h.turn.serving_of running
    exact absurd hserving.be notBe
  | spent running closed atEnd late used =>
    obtain ⟨f, d, hserving, rfl⟩ := h.turn.serving_of running
    have haligned := (h.account _).aligned_of running fun l => hserving.only l _
    have hdue : (s.slice i).timeout = t := by
      have hleft := durationCastMs_mul aligned haligned late
      rw [used] at hleft
      omega
    refine ⟨hserving.spent regular closed, fun m => ?_, h.takesTurns_stopped hserving true⟩
    exact (h.account_stopped hserving hdue m).apart_released.congr rfl (fun _ => .rfl)
      (fun _ _ => rfl) rfl rfl

theorem serve_other {m : Nat} (h : s.RoundRobin c t₀ k) (ne : m ≠ k)
    (serve : Serve c w u t i m s s') : s'.RoundRobin c t₀ k := by
  have hapart := State.Apart.serve serve ne
  cases serve with
  | begun first idle role stage =>
    refine h.apart hapart (by rw [State.course_begun]) fun l => ?_
    rw [State.course_begun]
    by_cases hli : l = i
    · subst hli
      have hnot := h.turn.begun_other idle role ne stage
      simp [hnot, ne]
    · simp [hli]
  | resumed =>
    refine h.apart hapart ?_ fun l => ?_
    · rw [State.picked_course]
      rfl
    · rw [State.picked_course]
      rfl
  | _ => exact h.apart hapart rfl fun _ => .rfl

theorem act (h : s.RoundRobin c t₀ k) (only : c.BeOnly k) (regular : s.Regular c)
    (aligned : nsPerMs ∣ t - t₀) (act : Act c w u t s s') : s'.RoundRobin c t₀ k := by
  cases act with
  | noted a ha =>
    have hforeign : a.Foreign k := by rcases ha with rfl | rfl | rfl <;> trivial
    refine h.apart (.noted rfl rfl rfl (.one hforeign rfl)) ?_ fun l => ?_
    · rcases ha with rfl | rfl | rfl <;> rfl
    · rcases ha with rfl | rfl | rfl <;> rfl
  | beStarted idle stage =>
    have hapart : s.Apart k (s.record (.beStarted w t)) :=
      .noted rfl rfl rfl (.one (a := .beStarted w t) trivial rfl)
    exact ⟨h.turn.beStarted stage t, fun j => (h.account j).apart hapart, h.takesTurns⟩
  | closing =>
    have hapart : s.Apart k (s.record (.onWindowEnd w)) :=
      .noted rfl rfl rfl (.one (a := .onWindowEnd w) trivial rfl)
    exact ⟨h.turn.closing w, fun j => (h.account j).apart hapart, h.takesTurns⟩
  | @served _ i m member serve =>
    by_cases hm : m = k
    · subst hm
      exact h.serve only regular aligned member serve
    · exact h.serve_other hm serve
  | released => exact h.apart .released rfl fun _ => .rfl
  | _ => exact h.apart (.noted rfl rfl rfl (.same rfl)) rfl fun _ => .rfl

theorem move (h : s.RoundRobin c t₀ k) (only : c.BeOnly k) (regular : s.Regular c)
    (move : Move c t₀ s s') : s'.RoundRobin c t₀ k := by
  cases move with
  | act _ aligned act => exact h.act only regular aligned act
  | windowStarted w u idle closed =>
    refine ⟨h.turn.windowStarted idle closed w u _, fun j => ?_, h.takesTurns⟩
    exact (h.account j).congr rfl (fun _ => .rfl) (fun _ _ => rfl) rfl rfl
  | windowArmed t =>
    exact h.apart (.noted rfl rfl rfl (.one (a := .windowArmed t) trivial rfl)) rfl fun _ => .rfl
  | framed => exact h.apart (.noted rfl rfl rfl (.same rfl)) rfl fun _ => .rfl
  | scheduled => exact h.apart (.noted rfl rfl rfl (.same rfl)) rfl fun _ => .rfl

theorem start (idle : s.AllIdle) (closed : s.course.stage = .closed)
    (current : (s.partition k).currentProc = 0)
    (full : ∀ p, (s.process p).actualBudget = (c.process p).budget)
    (quiet : ∀ a ∈ s.history, ¬a.Schedules) : s.RoundRobin c t₀ k := by
  have hforeign : ∀ a ∈ s.history, a.Foreign k := fun a ha => Action.foreign_of_quiet (quiet a ha) k
  have hgrows : ({ s with history := [] } : State).Grows (Action.Foreign k) s :=
    ⟨s.history, by simp, hforeign⟩
  refine ⟨.waiting (fun i j hi => by simp [idle i] at hi) ?_ ?_ fun w sc hstage => ?_,
    fun j => .full (fun i hi => by simp [idle i] at hi) (full _) fun g hg => ?_, ?_⟩
  · exact hgrows.fixed fun _ l ha => Action.runs_foreign l ha
  · rw [current]
    exact (hgrows.fixed fun _ l ha => Action.due_foreign l ha).symm
  · simp [closed] at hstage
  · have hnone : Action.granted c ⟨k, j⟩ s.history = none :=
      hgrows.fixed fun _ l ha => Action.granted_foreign l ha
    simp [hnone] at hg
  · rw [hgrows.fixed fun _ l ha => propext (Action.takesTurns_foreign l ha)]
    trivial

end State.RoundRobin

end DemosSched
