import DemosSched.RoundRobin

/-! What the round robin of a BE partition comes to over a whole run: every process is
granted its budget between two fresh starts, the processes follow one another in the
order of the queue, and the partition idles only when all of them have completed. -/

namespace DemosSched

open Fallible Relation

namespace Action

/-- The time granted to `p` by the runs that are over. -/
def timeGranted (p : ProcessId) : List Action → Int
  | [] => 0
  | .stopped _ q t _ :: h =>
    if q = p then timeGranted p h + (t - startTime p h) else timeGranted p h
  | _ :: h => timeGranted p h

structure Fair (c : Config) (k : Nat) (h : List Action) : Prop where
  conserved : ∀ j newer between older i t l u,
    h = newer ++ .started i ⟨k, j⟩ t (c.process ⟨k, j⟩).budget ::
      (between ++ .started l ⟨k, j⟩ u (c.process ⟨k, j⟩).budget :: older) →
    (∀ i t, .started i ⟨k, j⟩ t (c.process ⟨k, j⟩).budget ∉ between) →
    timeGranted ⟨k, j⟩ (between ++ [.started l ⟨k, j⟩ u (c.process ⟨k, j⟩).budget]) =
      (c.process ⟨k, j⟩).budget * nsPerMs
  successor : ∀ j j' newer between older i t b l u,
    h = newer ++ .started i ⟨k, j⟩ t b :: (between ++ .stopped l ⟨k, j'⟩ u true :: older) →
    (∀ i m t b, .started i ⟨k, m⟩ t b ∉ between) → j = CyclicSearch.next (c.processCount k) j'
  once : ∀ j newer between older i t l u,
    h = newer ++ .stopped i ⟨k, j⟩ t true :: (between ++ .stopped l ⟨k, j⟩ u true :: older) →
    ∃ w v, .windowStarted w v ∈ between

variable {c : Config} {k : Nat}

theorem TakesTurns.of_append {newer h : List Action} (turns : TakesTurns c k (newer ++ h)) :
    TakesTurns c k h := by
  induction newer with
  | nil => exact turns
  | cons a newer ih =>
    cases a with
    | started | stopped => exact ih turns.2
    | _ => exact ih turns

theorem startTime_between {p : ProcessId} {l : SliceId} {u b : Int} (between older : List Action) :
    startTime p (between ++ .started l p u b :: older) =
      startTime p (between ++ [.started l p u b]) := by
  induction between with
  | nil => simp [startTime]
  | cons a between ih =>
    cases a with
    | started i q t d => simp only [List.cons_append, startTime, ih]
    | _ => exact ih

theorem granted_between {p : ProcessId} {l : SliceId} {u : Int} {between : List Action}
    (older : List Action) (stale : ∀ i t, .started i p t (c.process p).budget ∉ between) :
    granted c p (between ++ .started l p u (c.process p).budget :: older) =
      some (timeGranted p (between ++ [.started l p u (c.process p).budget])) := by
  induction between with
  | nil => simp [granted, timeGranted]
  | cons a between ih =>
    have hrest := ih fun i t h => stale i t (List.mem_cons_of_mem _ h)
    cases a with
    | started i q t b =>
      have hstale : ¬(q = p ∧ b = (c.process p).budget) := by
        rintro ⟨rfl, rfl⟩
        exact stale i t List.mem_cons_self
      simpa [granted, timeGranted, hstale] using hrest
    | stopped i q t mark =>
      by_cases hq : q = p
      · subst hq
        simp only [List.cons_append, granted, timeGranted, if_true, hrest, Option.map_some,
          startTime_between]
      · simpa [granted, timeGranted, hq] using hrest
    | _ => exact hrest

theorem due_between {l : SliceId} {u : Int} {j : Nat} {between older : List Action}
    (turns : TakesTurns c k (between ++ .stopped l ⟨k, j⟩ u true :: older))
    (unstarted : ∀ i m t b, .started i ⟨k, m⟩ t b ∉ between) :
    runs k (between ++ .stopped l ⟨k, j⟩ u true :: older) = none ∧
      due c k (between ++ .stopped l ⟨k, j⟩ u true :: older) =
        CyclicSearch.next (c.processCount k) j := by
  induction between with
  | nil => simp [runs, due]
  | cons a between ih =>
    have hrest := fun turns => ih turns fun i m t b h => unstarted i m t b (List.mem_cons_of_mem _ h)
    cases a with
    | started i p t b =>
      have hp : p.part ≠ k := by
        rintro rfl
        exact unstarted i p.index t b List.mem_cons_self
      simpa [runs, due, hp] using hrest turns.2
    | stopped i p t mark =>
      obtain ⟨hruns, hdue⟩ := hrest turns.2
      by_cases hp : p.part = k
      · have hsome := hruns.symm.trans (turns.1 hp).1
        simp at hsome
      · simpa [runs, due, hp] using ⟨hruns, hdue⟩
    | _ => exact hrest turns

theorem completions_between {l : SliceId} {u : Int} {j : Nat} {between older : List Action}
    (same : ∀ w v, .windowStarted w v ∉ between) :
    j ∈ completions k (between ++ .stopped l ⟨k, j⟩ u true :: older) := by
  induction between with
  | nil => simp [completions]
  | cons a between ih =>
    have hrest := ih fun w v h => same w v (List.mem_cons_of_mem _ h)
    cases a with
    | windowStarted w v => exact absurd List.mem_cons_self (same w v)
    | stopped i p t mark =>
      rw [List.cons_append, completions]
      split
      · exact List.mem_cons_of_mem _ hrest
      · exact hrest
    | _ => exact hrest

theorem TakesTurns.fair {h : List Action} (turns : TakesTurns c k h) : Fair c k h where
  conserved j newer between older i t l u hsplit stale := by
    subst hsplit
    exact (turns.of_append.1 rfl).2.2 rfl _ (granted_between older stale)
  successor j j' newer between older i t b l u hsplit unstarted := by
    subst hsplit
    obtain ⟨hstart, hrest⟩ := turns.of_append
    obtain ⟨-, hdue⟩ := due_between hrest unstarted
    rw [← hdue]
    exact (hstart rfl).2.1
  once j newer between older i t l u hsplit := by
    subst hsplit
    by_contra hnone
    push Not at hnone
    exact (turns.of_append.1 rfl).2 rfl (completions_between hnone)

end Action

theorem Action.TakesTurns.of_quiet {c : Config} {h : List Action}
    (quiet : ∀ a ∈ h, ¬a.Schedules) (k : Nat) : Action.TakesTurns c k h := by
  induction h with
  | nil => trivial
  | cons a h ih =>
    rw [Action.takesTurns_foreign h (Action.foreign_of_quiet (quiet a List.mem_cons_self) k)]
    exact ih fun b hb => quiet b (List.mem_cons_of_mem _ hb)

theorem Action.closed_of_quiet {h : List Action} (quiet : ∀ a ∈ h, ¬a.Schedules) :
    (Action.course h).stage = .closed := by
  induction h with
  | nil => rfl
  | cons a h ih =>
    have hrest := ih fun b hb => quiet b (List.mem_cons_of_mem _ hb)
    have ha := quiet a List.mem_cons_self
    cases a with
    | windowStarted | beStarted => exact absurd trivial ha
    | onWindowEnd => rfl
    | _ => exact hrest

/-- The window of partition `k` is in the BE phase, and no process of it runs. -/
def State.Idles (c : Config) (k : Nat) (s : State) : Prop :=
  (∀ i j, (s.slice i).runningProcess ≠ some ⟨k, j⟩) ∧
    ∃ i, s.course.stage = .running i.window false ∧ c.role false i = some k

theorem State.RobinTurn.idles {c : Config} {k : Nat} {s : State} {w : Nat} (h : s.RobinTurn c k)
    (roles : s.Roles c w (c.sliceIds w)) (idles : s.Idles c k) :
    ∀ j < c.processCount k, j ∈ Action.completions k s.history := by
  obtain ⟨hidle, i, hstage, hrole⟩ := idles
  cases h with
  | serving l f d h => exact absurd h.running (hidle l _)
  | finished l idle be runs current all => exact all
  | waiting idle runs current fresh =>
    cases roles with
    | sc stage => simp [stage] at hstage
    | be stage entered =>
      rw [stage, Stage.running.injEq] at hstage
      obtain rfl := hstage.1
      exact absurd (entered i (Config.role_member hrole) k hrole) ((fresh _ _ stage).2 i)

/-- In a run without disturbances a BE partition is served fairly, and idles only when
every process has completed in the window. -/
theorem be_round_robin {c : Config} {gen : Nat → Nat} {timeout : Option Int} {es : List Event}
    {s : State} {k : Nat} (zero : c.ZeroJitter) (positive : c.PositiveLengths) (only : c.BeOnly k)
    (run : Run (Event.UndisturbedStep c) (State.initial c gen timeout) es s) :
    Action.Fair c k s.history ∧
      (s.Idles c k → ∀ j < c.processCount k, j ∈ Action.completions k s.history) := by
  have hquiet : (∀ a ∈ s.history, ¬a.Schedules) → Action.Fair c k s.history ∧
      (s.Idles c k → ∀ j < c.processCount k, j ∈ Action.completions k s.history) := by
    intro quiet
    refine ⟨(Action.TakesTurns.of_quiet quiet k).fair, ?_⟩
    rintro ⟨-, i, hstage, -⟩
    rw [State.course, Action.closed_of_quiet quiet] at hstage
    simp at hstage
  cases Event.undisturbed_stands zero positive run with
  | preparing _ _ untouched => exact hquiet untouched.quiet
  | down _ quiet => exact hquiet quiet
  | underway t₀ s₀ fresh moves underway =>
    have hstart : s₀.RoundRobin c t₀ k :=
      .start fresh.halted.idle fresh.closed (fresh.heads k) fresh.full fresh.quiet
    have hrobin : s.Regular c ∧ s.RoundRobin c t₀ k :=
      moves.invariant (I := fun m => m.Regular c ∧ m.RoundRobin c t₀ k)
        (fun _ _ h e => ⟨h.1.move e, h.2.move only h.1 e⟩) ⟨fresh.regular, hstart⟩
    exact ⟨hrobin.2.takesTurns.fair, hrobin.2.turn.idles underway.roles⟩

/-- The second process is cut short after 1 ms and goes on in the next window, where the
first one starts afresh. -/
theorem be_round_robin_twoBes : ∃ s : State,
    (∃ i t, .started i ⟨0, 0⟩ (7 * nsPerMs) 4 :: t <:+ s.history ∧
      .started i ⟨0, 1⟩ (5 * nsPerMs) 2 ∈ t) ∧ Action.Fair .twoBes 0 s.history := by
  have hrun : ((Event.play .twoBes (fun s e => e.Undisturbed .twoBes s)
      [.startup 0, .sliceTimer ⟨0, 0⟩, .windowTimer, .sliceTimer ⟨0, 0⟩]
      (State.initial .twoBes (fun _ => 0) none)).map fun s =>
        (s.history.head?, decide (.started ⟨0, 0⟩ ⟨0, 1⟩ (5 * nsPerMs) 2 ∈ s.history.tail))) =
      some (some (.started ⟨0, 0⟩ ⟨0, 0⟩ (7 * nsPerMs) 4), true) := by decide
  obtain ⟨s, hplay, hs⟩ := Option.map_eq_some_iff.mp hrun
  have hfair := (be_round_robin (k := 0) (by decide) (by decide) (by decide)
    (Event.play_run _ hplay)).1
  refine ⟨s, ?_, hfair⟩
  simp only [Prod.mk.injEq, decide_eq_true_eq] at hs
  obtain ⟨hhead, hmem⟩ := hs
  cases hh : s.history with
  | nil => simp [hh] at hhead
  | cons a t =>
    simp only [hh, List.head?_cons, Option.some.injEq, List.tail_cons] at hhead hmem
    exact ⟨_, t, hhead ▸ List.suffix_rfl, hmem⟩

end DemosSched
