import DemosSched.Gating
import DemosSched.PowerPolicy
import DemosSched.WindowStart

/-! The order in which a window calls the power policy. `on_window_start` and
`on_sc_start` are called at the end of `Window::start`, which is too late when the BE
phase begins before: `on_be_start` is then the first call of the window. -/

namespace DemosSched

open Fallible Relation

namespace Action

def draws : List Action → Nat
  | [] => 0
  | .drawn _ _ :: h => draws h + 1
  | _ :: h => draws h

/-- After the records `h`, no SC process of window `w` has an effective budget. -/
def NoWork (c : Config) (gen : Nat → Nat) (w : Nat) (h : List Action) : Prop :=
  AllZero c (fun p => (leftover p h).getD (c.process p).budget)
    (Window.scQueue c (fun p => decide (.exited p ∉ h)) (c.sliceIds w)) fun n => gen (n + draws h)

theorem draws_cons {a : Action} (h : List Action) (ha : ∀ p offset, a ≠ .drawn p offset) :
    draws (a :: h) = draws h := by
  cases a <;> first | rfl | exact absurd rfl (ha _ _)

end Action

/-- The numbers that are left are those after the draws on record. -/
def State.Numbered (gen : Nat → Nat) (s : State) : Prop :=
  s.gen = fun n => gen (n + Action.draws s.history)

namespace State.Numbered

variable {c : Config} {gen : Nat → Nat} {w : Nat} {t : Int} {s s' : State}

theorem congr (h : s.Numbered gen) (hgen : s'.gen = s.gen) (history : s'.history = s.history) :
    s'.Numbered gen := by
  rw [Numbered, hgen, history]
  exact h

theorem recorded (h : s.Numbered gen) {a : Action} (ha : ∀ p offset, a ≠ .drawn p offset)
    (hgen : s'.gen = s.gen) (history : s'.history = a :: s.history) : s'.Numbered gen := by
  rw [Numbered, hgen, history, Action.draws_cons _ ha]
  exact h

theorem selected (h : s.Numbered gen) {i : SliceId} {p : ProcessId} {b : Int} {s₁ : State}
    (selected : Slice.Selected c w i p b s s₁) : s₁.Numbered gen := by
  rcases selected.drew_or_same with rfl | rfl
  · exact h
  · funext n
    change s.gen (n + 1) = gen (n + (Action.draws s.history + 1))
    rw [h]
    change gen (n + 1 + Action.draws s.history) = _
    rw [Nat.add_assoc, Nat.add_comm 1]

theorem effect (h : s.Numbered gen) (effect : Effect c w t s s') : s'.Numbered gen := by
  cases effect with
  | noted a ha =>
    refine h.recorded (fun p offset => ?_) rfl rfl
    rintro rfl
    exact ha
  | windowSet | sought => exact h.congr rfl rfl
  | skipped selected | launched selected =>
    exact (h.selected selected).recorded (fun _ _ => by simp) rfl rfl
  | entered | stopped => exact h.recorded (fun _ _ => by simp) rfl rfl

theorem closings (h : s.Numbered gen) (run : Closings c w t s s') : s'.Numbered gen := by
  refine run.invariant (I := State.Numbered gen) (fun s s' h e => ?_) h
  cases e with
  | effect e => exact h.effect e
  | announced | shortened => exact h.recorded (fun _ _ => by simp) rfl rfl
  | stopping | released => exact h.congr rfl rfl

theorem turn {ok : Action → Prop} (h : s.Numbered gen) (turn : Turn c ok s s') :
    s'.Numbered gen := by
  cases turn with
  | change e =>
    cases e with
    | effects run => exact h.closings run.closings
    | closed run => exact h.closings run
    | windowArmed | signalled | ended | loopBroken =>
      exact h.recorded (fun _ _ => by simp) rfl rfl
    | _ => exact h.congr rfl rfl
  | noted a ha =>
    refine h.recorded (fun p offset => ?_) rfl rfl
    rcases ha with rfl | rfl <;> simp
  | killed | thawed | suspended => exact h.recorded (fun _ _ => by simp) rfl rfl
  | _ => exact h.congr rfl rfl

end State.Numbered

theorem State.noWork_iff {c : Config} {gen : Nat → Nat} {s : State} (ledger : s.Ledger c)
    (legible : s.Legible c) (numbered : s.Numbered gen) (w : Nat) :
    AllZero c (fun p => (s.process p).actualBudget)
      (Window.scQueue c (Process.isSpawned · s) (c.sliceIds w)) s.gen ↔
      Action.NoWork c gen w s.history := by
  have hstored : (fun p => (s.process p).actualBudget) =
      fun p => (Action.leftover p s.history).getD (c.process p).budget := funext ledger.stored
  have hspawned : (Process.isSpawned · s) = fun p => decide (.exited p ∉ s.history) := by
    funext p
    rw [Process.isSpawned, Bool.eq_iff_iff, decide_eq_true_iff, legible.exited, Bool.not_eq_false]
  rw [Action.NoWork, ← hstored, ← hspawned, numbered]

namespace Action

def WithinRun : Action → Prop
  | .windowStarted _ _ | .onWindowEnd _ => False
  | _ => True

theorem WithinRun.sameRun {a : Action} (h : a.WithinRun) : a.SameRun := by
  cases a <;> trivial

theorem course_withinRun {new h : List Action} {v : Nat} {sc : Bool}
    (hnew : ∀ a ∈ new, a.WithinRun) (stage : (course h).stage = .running v sc) :
    (∃ v sc, (course (new ++ h)).stage = .running v sc) ∧
      (course h).calls <:+ (course (new ++ h)).calls := by
  induction new with
  | nil => exact ⟨⟨v, sc, stage⟩, List.suffix_rfl⟩
  | cons a new ih =>
    obtain ⟨⟨v, sc, hstage⟩, hcalls⟩ := ih fun b hb => hnew b (List.mem_cons_of_mem _ hb)
    have ha := hnew a List.mem_cons_self
    cases a with
    | windowStarted | onWindowEnd => exact absurd ha id
    | onWindowStart | onScStart | onBeStart =>
      exact ⟨⟨v, sc, hstage⟩, hcalls.trans (List.suffix_cons _ _)⟩
    | beStarted v => exact ⟨⟨v, false, rfl⟩, hcalls⟩
    | _ => exact ⟨⟨v, sc, hstage⟩, hcalls⟩

end Action

section Underway

variable {c : Config} {w v : Nat} {t : Int} {sc : Bool} {s s' : State}

theorem Effect.withinRun (effect : Effect c w t s s') (stage : s.course.stage = .running v sc) :
    s.Grows Action.WithinRun s' := by
  have hselected : ∀ {i : SliceId} {p : ProcessId} {b : Int} {s₁ : State},
      Slice.Selected c w i p b s s₁ → s.Grows Action.WithinRun s₁ := by
    intro i p b s₁ selected
    rcases selected.drew_or_same with rfl | rfl
    · exact .same rfl
    · exact .one (a := .drawn p _) trivial rfl
  cases effect with
  | noted a ha opens =>
    refine .one ?_ rfl
    cases a with
    | windowStarted v u =>
      have hclosed := opens.2.2
      rw [stage] at hclosed
      simp at hclosed
    | onWindowEnd v => exact opens
    | _ => trivial
  | windowSet | sought => exact .same rfl
  | entered first => exact .one (a := .entered _ _ first t) trivial rfl
  | @skipped s₁ i p selected => exact (hselected selected).cons (a := .skipped i p) trivial rfl
  | @launched s₁ i p b selected =>
    exact (hselected selected).cons (a := .started i p t b) trivial rfl
  | stopped mark => exact .one (a := .stopped _ _ t mark) trivial rfl

theorem Effects.withinRun (run : Effects c w t s s') (stage : s.course.stage = .running v sc) :
    s.Grows Action.WithinRun s' := by
  refine run.invariant (I := s.Grows Action.WithinRun) (fun s₁ s₂ h effect => ?_) (.same rfl)
  obtain ⟨new, hnew, hwithin⟩ := h
  have hstage := (Action.course_withinRun hwithin stage).1
  rw [← hnew] at hstage
  obtain ⟨v, sc, hstage⟩ := hstage
  exact State.Grows.trans ⟨new, hnew, hwithin⟩ (effect.withinRun hstage)

end Underway

theorem Window.start_withinRun {c : Config} {w : Nat} {t : Int} {s s' : State}
    (h : Startable c w s) (run : start c w t s = .ok s') :
    (s.record (.windowStarted w t)).Grows Action.WithinRun s' := by
  simp only [start, bind_def, bind_eq_ok, pure_def, Except.ok.injEq] at run
  obtain ⟨s₁, hfold, rfl⟩ := run
  obtain ⟨new, hnew, hwithin⟩ := (start_trial h hfold).1.withinRun rfl
  exact (State.Grows.cons ⟨new, hnew, hwithin⟩ (a := .onWindowStart w) trivial rfl).cons
    (a := .onScStart w) trivial rfl

namespace Course

def body (w : Nat) (be : Bool) : List Action :=
  (if be then [.onBeStart w] else []) ++ Action.opening w

/-- The calls of the run of window `w` are in order, unless it is `early`: the BE phase
began before `Window::start` had announced the window. -/
structure Orderly (w : Nat) (early : Prop) (x : Course) : Prop where
  current : ∀ v sc, x.stage = .running v sc → v = w
  wrong : early → ∃ l, x.calls = l ++ [.onBeStart w]
  right : ¬early → (∃ sc, x.stage = .running w sc) ∧ x.calls = body w x.be ∨
    x.stage = .closed ∧ ∃ ends, (∀ a ∈ ends, ∃ v, a = .onWindowEnd v) ∧
      x.calls = ends ++ .onWindowEnd w :: body w x.be

theorem Orderly.ended {w v : Nat} {early : Prop} {x : Course} (h : Orderly w early x)
    (current : ∀ u sc, x.stage = .running u sc → u = v) : Orderly w early (x.next (.onWindowEnd v)) where
  current u sc hstage := absurd hstage (by simp [next])
  wrong he := by
    obtain ⟨l, hl⟩ := h.wrong he
    exact ⟨.onWindowEnd v :: l, congrArg _ hl⟩
  right he := by
    refine .inr ⟨rfl, ?_⟩
    rcases h.right he with ⟨⟨sc, hstage⟩, hcalls⟩ | ⟨-, ends, hends, hcalls⟩
    · obtain rfl := current w sc hstage
      exact ⟨[], by simp, congrArg _ hcalls⟩
    · refine ⟨.onWindowEnd v :: ends, fun a ha => ?_, congrArg _ hcalls⟩
      rcases List.mem_cons.mp ha with rfl | ha
      · exact ⟨v, rfl⟩
      · exact hends a ha

end Course

theorem Phase.calls {c : Config} {w : Nat} {s : State} (h : Phase c w s) :
    (∃ sc, s.course.stage = .running w sc) ∧
      (s.course.calls = Course.body w s.course.be ∨
        s.course.calls = Action.opening w ++ [.onBeStart w]) := by
  rcases h with (h | ⟨h, -⟩) | h
  · refine ⟨⟨true, h.stage⟩, .inl ?_⟩
    have hbe : s.course.be = !true := Action.course_be h.stage
    rw [h.calls, hbe]
    rfl
  · refine ⟨⟨false, h.stage⟩, .inl ?_⟩
    have hbe : s.course.be = !false := Action.course_be h.stage
    rw [h.calls, hbe]
    rfl
  · exact ⟨⟨false, h.stage⟩, .inr h.calls⟩

namespace Action

def Orderly (c : Config) (gen : Nat → Nat) (h : List Action) : Prop :=
  ∀ w u recent oldest, h = recent ++ .windowStarted w u :: oldest →
    (∀ v t, .windowStarted v t ∉ recent) →
      (course h).Orderly w (c.sliceCount w ≠ 0 ∧ NoWork c gen w oldest)

theorem cut_older {α : Type*} {b : α} {new h pre post : List α} (heq : new ++ h = pre ++ b :: post)
    (hb : b ∉ new) : ∃ more, pre = new ++ more ∧ h = more ++ b :: post := by
  rcases List.append_eq_append_iff.mp heq with ⟨more, rfl, rfl⟩ | ⟨more, rfl, hrest⟩
  · exact ⟨more, rfl, rfl⟩
  · cases more with
    | nil => exact ⟨[], by simp, hrest.symm⟩
    | cons a more =>
      obtain ⟨rfl, -⟩ := List.cons.inj hrest
      exact absurd (by simp) hb

theorem newestStart_unique {w w' : Nat} {u u' : Int} {l l' h h' : List Action}
    (heq : l ++ .windowStarted w u :: h = l' ++ .windowStarted w' u' :: h')
    (hl : ∀ v t, .windowStarted v t ∉ l) (hl' : ∀ v t, .windowStarted v t ∉ l') :
    l' = l ∧ Action.windowStarted w' u' = .windowStarted w u ∧ h' = h := by
  obtain ⟨more, rfl, hmore⟩ := cut_older heq (hl w' u')
  cases more with
  | nil =>
    obtain ⟨hstart, rfl⟩ := List.cons.inj hmore
    exact ⟨by simp, hstart.symm, rfl⟩
  | cons a more =>
    obtain ⟨rfl, -⟩ := List.cons.inj hmore
    exact absurd (by simp) (hl' w u)

theorem Orderly.grows {c : Config} {gen : Nat → Nat} {new h : List Action} (horderly : Orderly c gen h)
    (same : ∀ a ∈ new, a.SameRun)
    (keeps : ∀ w early, (course h).Orderly w early → (course (new ++ h)).Orderly w early) :
    Orderly c gen (new ++ h) := by
  intro w u recent oldest heq alone
  obtain ⟨more, rfl, rfl⟩ := cut_older heq fun hmem => same _ hmem
  exact keeps w _ (horderly w u more oldest rfl fun v t h => alone v t (List.mem_append_right _ h))

end Action

/-- The calls of the power policy on record: `past` those of the runs before the newest. -/
structure State.Policed (c : Config) (gen : Nat → Nat) (s : State) : Prop where
  numbered : s.Numbered gen
  current : ∀ v sc, s.course.stage = .running v sc → v = s.frame.currentWin
  newest : Action.Orderly c gen s.history
  past : ∀ v t older, .windowStarted v t :: older <:+ s.history → Action.Orderly c gen older

namespace State.Policed

variable {c : Config} {gen : Nat → Nat} {w : Nat} {s s' : State}

theorem grows (h : s.Policed c gen) (numbered : s'.Numbered gen)
    (current : ∀ v sc, s'.course.stage = .running v sc → v = s'.frame.currentWin)
    (grows : s.Grows Action.SameRun s')
    (keeps : ∀ w early, s.course.Orderly w early → s'.course.Orderly w early) :
    s'.Policed c gen := by
  obtain ⟨new, hnew, hsame⟩ := grows
  refine ⟨numbered, current, ?_, fun v t older hx => ?_⟩
  · rw [hnew]
    refine h.newest.grows hsame fun w early hw => ?_
    have := keeps w early hw
    rwa [State.course, hnew] at this
  · obtain ⟨pre, hpre⟩ := hx
    obtain ⟨more, -, hmore⟩ := Action.cut_older (hnew.symm.trans hpre.symm) fun hmem => hsame _ hmem
    exact h.past v t older ⟨more, hmore.symm⟩

theorem start {t : Int} (h : s.Policed c gen) (ledger : s.Ledger c) (legible : s.Legible c)
    (ready : Window.Startable c s.frame.currentWin s)
    (run : Window.start c s.frame.currentWin t s = .ok s') : s'.Policed c gen := by
  obtain ⟨heffects, hphase⟩ := Window.start_phase ready run
  obtain ⟨new, hnew, hwithin⟩ := Window.start_withinRun ready run
  obtain ⟨⟨sc, hstage⟩, hcalls⟩ := hphase.calls
  have hcurrent : ∀ v sc, s'.course.stage = .running v sc → v = s.frame.currentWin := by
    intro v sc' hv
    rw [hstage] at hv
    exact (Stage.running.inj hv).1.symm
  have halone : ∀ v u, .windowStarted v u ∉ new := fun v u hmem => hwithin _ hmem
  have hstart := Window.start_calls ready run
  rw [State.noWork_iff ledger legible h.numbered] at hstart
  refine ⟨h.numbered.closings heffects.closings, ?_, ?_, fun v u older hx => ?_⟩
  · rw [heffects.outside.1]
    exact hcurrent
  · intro w u recent oldest heq alone
    rw [hnew] at heq
    obtain ⟨rfl, hwindow, rfl⟩ := Action.newestStart_unique heq halone alone
    obtain ⟨rfl, -⟩ := Action.windowStarted.inj hwindow
    refine ⟨hcurrent, fun hearly => ?_, fun hearly => .inl ⟨⟨sc, hstage⟩, ?_⟩⟩
    · rcases hstart with ⟨-, hs⟩ | ⟨hnot, -⟩
      · exact ⟨_, hs⟩
      · exact absurd hearly hnot
    · rcases hstart with ⟨hwork, -⟩ | ⟨-, hs⟩
      · exact absurd hwork hearly
      · rcases hcalls with hbody | hwrong
        · exact hbody
        · have hwrong := hs.symm.trans hwrong
          simp [Action.opening] at hwrong
  · rw [hnew] at hx
    obtain ⟨pre, hpre⟩ := hx
    obtain ⟨more, -, hmore⟩ := Action.cut_older hpre.symm (halone v u)
    cases more with
    | nil =>
      obtain ⟨-, rfl⟩ := List.cons.inj hmore
      exact h.newest
    | cons a more =>
      obtain ⟨-, hmore⟩ := List.cons.inj hmore
      exact h.past v u older ⟨more, hmore.symm⟩

theorem inside {t : Int} (h : s.Policed c gen) (run : Effects c s.frame.currentWin t s s')
    (before : Phase c s.frame.currentWin s) (after : Phase c s.frame.currentWin s') :
    s'.Policed c gen := by
  obtain ⟨⟨sc, hstage⟩, hbefore⟩ := before.calls
  obtain ⟨⟨sc', hstage'⟩, hafter⟩ := after.calls
  have hwithin := run.withinRun hstage
  have hsuffix : s.course.calls <:+ s'.course.calls := by
    obtain ⟨new, hnew, hall⟩ := hwithin
    rw [State.course, State.course, hnew]
    exact (Action.course_withinRun hall hstage).2
  refine h.grows (h.numbered.closings run.closings) (fun v sc hv => ?_)
    (hwithin.mono fun _ => Action.WithinRun.sameRun) fun w early hw => ?_
  · rw [hstage'] at hv
    rw [run.outside.1]
    exact (Stage.running.inj hv).1.symm
  · obtain rfl := hw.current _ _ hstage
    refine ⟨fun v sc hv => ?_, fun hearly => ?_, fun hearly => .inl ⟨⟨sc', hstage'⟩, ?_⟩⟩
    · rw [hstage'] at hv
      exact (Stage.running.inj hv).1.symm
    · obtain ⟨l, hl⟩ := hw.wrong hearly
      obtain ⟨l', hl'⟩ := hsuffix
      exact ⟨l' ++ l, by rw [← hl', hl, List.append_assoc]⟩
    · rcases hafter with hbody | hwrong
      · exact hbody
      · -- the announcement came first before, so it does now
        rcases hw.right hearly with ⟨-, hcalls⟩ | ⟨hclosed, -⟩
        · obtain ⟨l', hl'⟩ := hsuffix
          have hlast := congrArg List.getLast? hl'
          rw [hcalls, hwrong] at hlast
          simp [Course.body, Action.opening, List.getLast?_append] at hlast
        · rw [hstage] at hclosed
          simp at hclosed

theorem turn {ok : Action → Prop} (h : s.Policed c gen) (ledger : s.Ledger c)
    (legible : s.Legible c) (turn : Turn c ok s s') : s'.Policed c gen := by
  have hnumbered := h.numbered.turn turn
  have hsame : s'.course = s.course → s'.frame.currentWin = s.frame.currentWin →
      s.Grows Action.SameRun s' → s'.Policed c gen := by
    intro hcourse hframe hgrows
    refine h.grows hnumbered ?_ hgrows ?_
    · rw [hcourse, hframe]
      exact h.current
    · rw [hcourse]
      exact fun _ _ hw => hw
  cases turn with
  | change e =>
    cases e with
    | effects run course =>
      rcases course with ⟨before, after⟩ | ⟨ready, hstart⟩
      · exact h.inside run before after
      · exact h.start ledger legible ready hstart
    | closed run halted course grows =>
      refine h.grows hnumbered (fun v sc hv => ?_) grows fun w early hw => ?_
      · rw [course] at hv
        simp [Course.next] at hv
      · rw [course]
        exact hw.ended h.current
    | moved halted closed =>
      refine h.grows hnumbered (fun v sc hv => ?_) (.same rfl) fun _ _ hw => hw
      rw [show (MajorFrame.moveToNextWindow c s).course = s.course from rfl, closed] at hv
      simp at hv
    | framed => exact hsame rfl rfl (.same rfl)
    | windowArmed t => exact hsame rfl rfl (.one (a := .windowArmed t) trivial rfl)
    | signalled p => exact hsame rfl rfl (.one (a := .signalled p) trivial rfl)
    | ended p => exact hsame rfl rfl (.one (a := .exited p) trivial rfl)
    | loopBroken => exact hsame rfl rfl (.one (a := .loopBroken) trivial rfl)
  | noted a ha =>
    rcases ha with rfl | rfl
    · exact hsame rfl rfl (.one (a := .initFinished) trivial rfl)
    · exact hsame rfl rfl (.one (a := .shutdown) trivial rfl)
  | killed p => exact hsame rfl rfl (.one (a := .killed p) trivial rfl)
  | thawed halted p => exact hsame rfl rfl (.one (a := .initResumed p) trivial rfl)
  | suspended halted p => exact hsame rfl rfl (.one (a := .initSuspended p) trivial rfl)
  | _ => exact hsame rfl rfl (.same rfl)

theorem initial (c : Config) (gen : Nat → Nat) (timeout : Option Int) :
    (State.initial c gen timeout).Policed c gen where
  numbered := rfl
  current v sc h := by simp [State.course, State.initial, Action.course] at h
  newest w u recent oldest h := by simp [State.initial] at h
  past v t older h := by simp [State.initial] at h

end State.Policed

theorem Event.Reachable.policed {c : Config} {gen : Nat → Nat} {timeout : Option Int}
    {es : List Event} {s : State} (h : Reachable c gen timeout es s) : s.Policed c gen :=
  (h.turns.invariant (I := fun s => s.Ledger c ∧ s.Legible c ∧ s.Policed c gen)
    (fun _ _ hs e => ⟨hs.1.turn e, hs.2.1.turn e, hs.2.2.turn hs.1 hs.2.1 e⟩)
    ⟨.initial c gen timeout, .initial c gen timeout, .initial c gen timeout⟩).2.2

namespace Action

def ofPolicy : Action → Bool
  | .onWindowStart _ | .onScStart _ | .onBeStart _ | .onWindowEnd _ => true
  | _ => false

def entersBe : Action → Bool
  | .beStarted _ _ => true
  | _ => false

def endsWindow : Action → Bool
  | .onWindowEnd _ => true
  | _ => false

/-- `recent` is the run of window `w` that began after `oldest`: up to its end, or up
to the present if it has not ended. -/
structure RunOf (w : Nat) (u : Int) (recent oldest h : List Action) : Prop where
  placed : recent ++ .windowStarted w u :: oldest <:+ h
  alone : ∀ v t, .windowStarted v t ∉ recent
  span : (∃ v r, recent = .onWindowEnd v :: r ∧ r.any endsWindow = false) ∨
    recent ++ .windowStarted w u :: oldest = h ∧ recent.any endsWindow = false

/-- The calls of a run, the oldest first: `on_window_start` and `on_sc_start`, then
`on_be_start` if the BE phase was entered, and `on_window_end` at the end. -/
def InOrder (w : Nat) (recent : List Action) : Prop :=
  (recent.filter ofPolicy).reverse = [.onWindowStart w, .onScStart w] ++
    (if recent.any entersBe then [.onBeStart w] else []) ++
    if recent.any endsWindow then [.onWindowEnd w] else []

theorem course_eq {w : Nat} {u : Int} {recent : List Action} (oldest : List Action)
    (alone : ∀ v t, .windowStarted v t ∉ recent) :
    (course (recent ++ .windowStarted w u :: oldest)).calls = recent.filter ofPolicy ∧
      (course (recent ++ .windowStarted w u :: oldest)).be = recent.any entersBe := by
  induction recent with
  | nil => exact ⟨rfl, rfl⟩
  | cons a recent ih =>
    obtain ⟨hcalls, hbe⟩ := ih fun v t h => alone v t (List.mem_cons_of_mem _ h)
    rw [List.cons_append, course, List.any_cons]
    cases a with
    | windowStarted v t => exact absurd List.mem_cons_self (alone v t)
    | onWindowStart | onScStart | onBeStart | onWindowEnd =>
      exact ⟨congrArg _ hcalls, hbe⟩
    | beStarted => exact ⟨hcalls, rfl⟩
    | _ => exact ⟨hcalls, hbe⟩

/-- After its end a window does not enter its BE phase. -/
theorem Gated.closed {c : Config} {mid h : List Action} (gated : Gated c (mid ++ h))
    (alone : ∀ v t, .windowStarted v t ∉ mid) (closed : (course h).stage = .closed) :
    (course (mid ++ h)).stage = .closed ∧ (course (mid ++ h)).be = (course h).be := by
  induction mid with
  | nil => exact ⟨closed, rfl⟩
  | cons a mid ih =>
    obtain ⟨hallowed, hgated⟩ := gated_cons.mp gated
    obtain ⟨hstage, hbe⟩ := ih hgated fun v t h => alone v t (List.mem_cons_of_mem _ h)
    rw [List.cons_append, course]
    cases a with
    | windowStarted v t => exact absurd List.mem_cons_self (alone v t)
    | beStarted v t =>
      have hrunning := hallowed.1
      rw [List.append_eq, hstage] at hrunning
      simp at hrunning
    | onWindowEnd => exact ⟨rfl, hbe⟩
    | _ => exact ⟨hstage, hbe⟩

end Action

theorem State.Policed.whole {c : Config} {gen : Nat → Nat} {s : State} (h : s.Policed c gen)
    {recent : List Action} (hx : recent <:+ s.history) :
    ∃ mid, mid ++ recent <:+ s.history ∧ (∀ v t, .windowStarted v t ∉ mid) ∧
      Action.Orderly c gen (mid ++ recent) := by
  obtain ⟨pre, hpre⟩ := hx
  have hpast : ∀ pre, pre ++ recent <:+ s.history → (∃ v t, .windowStarted v t ∈ pre) →
      ∃ mid, mid ++ recent <:+ s.history ∧ (∀ v t, .windowStarted v t ∉ mid) ∧
        Action.Orderly c gen (mid ++ recent) := by
    intro pre
    induction pre with
    | nil => simp
    | cons a pre ih =>
      intro hx ⟨v, t, hmem⟩
      have hshort := (List.suffix_cons a (pre ++ recent)).trans hx
      by_cases hin : ∃ v t, .windowStarted v t ∈ pre
      · exact ih hshort hin
      · have hnone : ∀ v t, .windowStarted v t ∉ pre := fun v t h => hin ⟨v, t, h⟩
        rcases List.mem_cons.mp hmem with rfl | hmem
        · exact ⟨pre, hshort, hnone, h.past v t _ hx⟩
        · exact absurd hmem (hnone v t)
  by_cases hin : ∃ v t, .windowStarted v t ∈ pre
  · exact hpast pre (hpre ▸ List.suffix_rfl) hin
  · exact ⟨pre, hpre ▸ List.suffix_rfl, fun v t hmem => hin ⟨v, t, hmem⟩, hpre ▸ h.newest⟩

namespace Action

theorem cut_last {α : Type*} {P : α → Prop} {l l' m m' : List α} {a a' : α}
    (heq : l ++ a :: m = l' ++ a' :: m') (ha : P a) (ha' : P a') (hm : ∀ b ∈ m, ¬P b)
    (hm' : ∀ b ∈ m', ¬P b) : a = a' ∧ m = m' := by
  rcases List.append_eq_append_iff.mp heq with ⟨more, -, hrest⟩ | ⟨more, -, hrest⟩
  all_goals cases more with
    | nil => simpa [eq_comm] using hrest
    | cons b more =>
      obtain ⟨rfl, rfl⟩ := List.cons.inj hrest
      first
      | exact absurd ha' (hm _ (by simp))
      | exact absurd ha (hm' _ (by simp))

theorem body_not_end {w : Nat} {be : Bool} {a : Action} (ha : a ∈ Course.body w be) :
    a.endsWindow = false := by
  cases be <;> simp only [Course.body, opening, List.mem_append, List.mem_cons] at ha
  all_goals aesop

end Action

theorem State.Policed.runOf {c : Config} {gen : Nat → Nat} {s : State} (h : s.Policed c gen)
    (legible : s.Legible c) {w : Nat} {u : Int} {recent oldest : List Action}
    (run : Action.RunOf w u recent oldest s.history) :
    (c.sliceCount w ≠ 0 ∧ Action.NoWork c gen w oldest →
      ∃ l, recent.filter Action.ofPolicy = l ++ [.onBeStart w]) ∧
    (¬(c.sliceCount w ≠ 0 ∧ Action.NoWork c gen w oldest) →
      recent.filter Action.ofPolicy = (if recent.any Action.endsWindow then [.onWindowEnd w] else []) ++
        Course.body w (recent.any Action.entersBe)) := by
  obtain ⟨mid, hmid, halone, horderly⟩ := h.whole run.placed
  have halone' : ∀ v t, .windowStarted v t ∉ mid ++ recent := fun v t hmem =>
    (List.mem_append.mp hmem).elim (halone v t) (run.alone v t)
  have hrun := horderly w u (mid ++ recent) oldest (by simp) halone'
  have hcalls := (Action.course_eq (w := w) (u := u) oldest halone').1
  rw [List.append_assoc, List.filter_append] at hcalls
  have hbe := (Action.course_eq (w := w) (u := u) oldest run.alone).2
  rcases run.span with ⟨v, r, rfl, hr⟩ | ⟨heq, hended⟩
  · -- the run has ended, and nothing after its end makes the calls of a run
    have hgated : Action.Gated c (mid ++ (.onWindowEnd v :: r ++ .windowStarted w u :: oldest)) :=
      fun a older hx => legible.gated a older (hx.trans hmid)
    obtain ⟨hclosed, hsame⟩ := hgated.closed halone rfl
    have hnone : ∀ a ∈ r.filter Action.ofPolicy, ¬a.endsWindow = true := fun a ha => by
      rw [List.any_eq_false] at hr
      exact hr a (List.mem_filter.mp ha).1
    change _ = mid.filter Action.ofPolicy ++ .onWindowEnd v :: r.filter Action.ofPolicy at hcalls
    refine ⟨fun hearly => ?_, fun hearly => ?_⟩
    · obtain ⟨l, hl⟩ := hrun.wrong hearly
      rw [hcalls] at hl
      rcases List.append_eq_append_iff.mp hl with ⟨l', -, hl'⟩ | ⟨l', -, hl'⟩
      · exact ⟨l', hl'⟩
      · cases l' <;> simp at hl'
    · rcases hrun.right hearly with ⟨⟨sc, hstage⟩, -⟩ | ⟨-, ends, -, hends⟩
      · rw [hclosed] at hstage
        simp at hstage
      · rw [hcalls, hsame, hbe] at hends
        obtain ⟨hv, hbody⟩ := Action.cut_last (P := fun a => a.endsWindow = true) hends rfl rfl hnone
          fun a ha => by simp [Action.body_not_end ha]
        change .onWindowEnd v :: r.filter Action.ofPolicy = _
        rw [hv, hbody]
        rfl
  · -- the run is the newest and has not ended
    have hmid : mid = [] := by
      have := hmid.length_le
      rw [← heq, List.length_append] at this
      exact List.eq_nil_of_length_eq_zero (by omega)
    subst hmid
    rw [List.nil_append] at hrun
    simp only [List.nil_append, List.filter_nil] at hcalls
    refine ⟨fun hearly => ?_, fun hearly => ?_⟩
    · rw [← hcalls]
      exact hrun.wrong hearly
    · rcases hrun.right hearly with ⟨-, hbody⟩ | ⟨-, ends, -, hends⟩
      · rw [hcalls, hbe] at hbody
        rw [hbody, hended]
        rfl
      · rw [hcalls] at hends
        have hmem : .onWindowEnd w ∈ recent.filter Action.ofPolicy := by rw [hends]; simp
        rw [List.any_eq_false] at hended
        exact absurd rfl (hended _ (List.mem_filter.mp hmem).1)

def CpufreqPolicy.AtMinimum (pm : List CpufreqPolicy) : Prop :=
  ∀ p ∈ pm, p.active = true → p.setspeed = some (p.minFrequency / 1000)

namespace PowerPolicy

variable {c : Config} {debug : Bool} {pm pm' : List CpufreqPolicy}

theorem minBE_onBeStart {w : Nat} (h : (powerPolicyMinBE debug).onBeStart w pm = .ok pm') :
    CpufreqPolicy.AtMinimum pm' := by
  intro p hp hactive
  obtain ⟨x, -, hx⟩ := mapM_mem h hp
  have hp := (CpufreqPolicy.writeFrequency_ok hx).1
  split at hp
  · rw [hp]
  · next hinactive =>
    rw [hp] at hactive
    exact absurd hactive hinactive

theorem minBE_replay_quiet {new h : List Action} (quiet : ∀ a ∈ new, a.ofPolicy = false) :
    (powerPolicyMinBE debug).replay c pm (new ++ h) = (powerPolicyMinBE debug).replay c pm h := by
  induction new with
  | nil => rfl
  | cons a new ih =>
    rw [List.cons_append, replay, ih fun b hb => quiet b (List.mem_cons_of_mem _ hb)]
    have hhandle : (powerPolicyMinBE debug).handle c (new ++ h) a = Except.ok := by
      have ha := quiet a List.mem_cons_self
      cases a <;> first | rfl | simp [Action.ofPolicy] at ha
    rw [hhandle]
    cases (powerPolicyMinBE debug).replay c pm h <;> rfl

end PowerPolicy

/-- The calls of a run of window `w` are in order, and from the call of `on_be_start`
until the end of the window `minbe` keeps the lowest frequencies. -/
def Action.WellAnnounced (c : Config) (w : Nat) (u : Int) (recent oldest : List Action) : Prop :=
  InOrder w recent ∧ ∀ (debug : Bool) (pm pm' : List CpufreqPolicy) (late earlier : List Action),
    recent = late ++ earlier → .onBeStart w ∈ earlier → earlier.any endsWindow = false →
    (powerPolicyMinBE debug).replay c pm (earlier ++ .windowStarted w u :: oldest) = .ok pm' →
      CpufreqPolicy.AtMinimum pm'

theorem Action.calls_after_be {w : Nat} {be ended : Bool} {l m : List Action}
    (h : l ++ .onBeStart w :: m = [.onWindowStart w, .onScStart w] ++
      (if be then [.onBeStart w] else []) ++ if ended then [.onWindowEnd w] else []) :
    ∀ b ∈ m, b = .onWindowEnd w := by
  rw [List.append_assoc] at h
  obtain ⟨more, -, hmore⟩ := cut_older h.symm
    (show Action.onBeStart w ∉ [Action.onWindowStart w, .onScStart w] by simp)
  intro b hb
  cases be <;> cases ended <;> rcases more with _ | ⟨x, _ | ⟨y, more⟩⟩ <;> simp_all
  rw [← hmore] at hb
  exact List.mem_singleton.mp hb

theorem Action.InOrder.quiet {w : Nat} {late earlier : List Action}
    (h : InOrder w (late ++ earlier)) (be : .onBeStart w ∈ earlier)
    (ended : earlier.any endsWindow = false) : ∃ new older, earlier = new ++ .onBeStart w :: older ∧
      ∀ a ∈ new, a.ofPolicy = false := by
  obtain ⟨new, older, rfl⟩ := List.append_of_mem be
  refine ⟨new, older, rfl, fun a ha => ?_⟩
  rw [InOrder, List.filter_append, List.filter_append, List.filter_cons_of_pos rfl,
    List.reverse_append, List.reverse_append, List.reverse_cons, List.append_assoc,
    List.append_assoc, List.singleton_append] at h
  have hafter := calls_after_be h
  rw [← Bool.not_eq_true]
  intro hcall
  rw [List.any_eq_false] at ended
  have hend := ended a (List.mem_append_left _ ha)
  rw [hafter a (List.mem_append_left _ (by simp [ha, hcall]))] at hend
  exact hend rfl

theorem Event.window_calls_order {c : Config} {gen : Nat → Nat} {timeout : Option Int}
    {es : List Event} {s : State} (h : Reachable c gen timeout es s) {w : Nat} {u : Int}
    {recent oldest : List Action} (run : Action.RunOf w u recent oldest s.history) :
    Action.WellAnnounced c w u recent oldest ↔
      ¬(c.sliceCount w ≠ 0 ∧ Action.NoWork c gen w oldest) := by
  obtain ⟨hwrong, hright⟩ := h.policed.runOf h.legible run
  constructor
  · rintro ⟨horder, -⟩ hearly
    obtain ⟨l, hl⟩ := hwrong hearly
    rw [Action.InOrder, hl] at horder
    simp at horder
  · intro hearly
    have horder : Action.InOrder w recent := by
      rw [Action.InOrder, hright hearly]
      cases recent.any Action.endsWindow <;> cases recent.any Action.entersBe <;> rfl
    refine ⟨horder, fun debug pm pm' late earlier hrecent hbe hended hreplay => ?_⟩
    subst hrecent
    obtain ⟨new, older, rfl, hquiet⟩ := horder.quiet hbe hended
    rw [List.append_assoc, PowerPolicy.minBE_replay_quiet hquiet, List.cons_append,
      PowerPolicy.replay, bind_def, bind_eq_ok] at hreplay
    obtain ⟨pm₁, -, hbestart⟩ := hreplay
    exact PowerPolicy.minBE_onBeStart hbestart

/-- A window whose second SC process is followed by an empty BE phase. -/
theorem Event.window_calls_order_twoProcesses :
    ∃ (s : State) (recent oldest : List Action), Action.RunOf 0 0 recent oldest s.history ∧
      .onBeStart 0 ∈ recent ∧ Action.WellAnnounced .twoProcesses 0 0 recent oldest := by
  have hrun : ((play .twoProcesses (fun _ _ => True)
      [.startup 0, .sliceTimer ⟨0, 0⟩, .sliceTimer ⟨0, 0⟩]
      (State.initial .twoProcesses (fun _ => 0) none)).map State.history) =
      some ([.onBeStart 0, .beStarted 0 5000000, .stopped ⟨0, 0⟩ ⟨0, 1⟩ 5000000 true,
        .started ⟨0, 0⟩ ⟨0, 1⟩ 2000000 3, .drawn ⟨0, 1⟩ 0, .stopped ⟨0, 0⟩ ⟨0, 0⟩ 2000000 true,
        .windowArmed 10000000, .onScStart 0, .onWindowStart 0, .started ⟨0, 0⟩ ⟨0, 0⟩ 0 2,
        .drawn ⟨0, 0⟩ 0, .entered ⟨0, 0⟩ 0 true 0] ++ .windowStarted 0 0 :: [.initFinished]) := by
    decide
  obtain ⟨s, hplay, hhistory⟩ := Option.map_eq_some_iff.mp hrun
  have hof : Action.RunOf 0 0 _ [.initFinished] s.history :=
    ⟨hhistory ▸ List.suffix_rfl, by simp, .inr ⟨hhistory.symm, rfl⟩⟩
  refine ⟨s, _, _, hof, by simp, (window_calls_order (play_reachable hplay) hof).mpr ?_⟩
  unfold Action.NoWork
  decide

/-- A window without SC partitions: `on_be_start` is called first, and `minbe` leaves the
BE partition at the highest frequency. -/
theorem Event.late_announcement :
    ∃ s recent oldest, Reachable .onlyBe (fun _ => 0) none [.startup 0] s ∧
      Action.RunOf 0 0 recent oldest s.history ∧ ¬Action.InOrder 0 recent ∧
      recent.any Action.entersBe = true ∧ recent.any Action.endsWindow = false ∧
      ((powerPolicyMinBE true).replay .onlyBe [⟨600000000, 1200000000, none, {0}, none⟩]
        s.history).toOption.map (List.map CpufreqPolicy.setspeed) = some [some 1200000] := by
  have hrun : ((play .onlyBe (fun _ _ => True) [.startup 0]
      (State.initial .onlyBe (fun _ => 0) none)).map State.history) =
      some ([.windowArmed 10000000, .onScStart 0, .onWindowStart 0, .onBeStart 0,
        .started ⟨0, 0⟩ ⟨0, 0⟩ 0 2, .drawn ⟨0, 0⟩ 0, .entered ⟨0, 0⟩ 0 false 0, .beStarted 0 0] ++
        .windowStarted 0 0 :: [.initFinished]) := by decide
  obtain ⟨s, hplay, hhistory⟩ := Option.map_eq_some_iff.mp hrun
  refine ⟨s, _, _, play_reachable hplay, ⟨hhistory ▸ List.suffix_rfl, by simp, .inr ⟨hhistory.symm, rfl⟩⟩,
    by unfold Action.InOrder; decide, rfl, rfl, ?_⟩
  rw [hhistory]
  decide

end DemosSched
