import DemosSched.FreshStart

/-! The gate between the phases of a window. What runs and what is left to run can
be read off the records, so that the records alone tell in which state the BE
phase was entered and in which phase a process was started. -/

namespace DemosSched

open Fallible Relation

namespace Action

def running (i : SliceId) : List Action → Option ProcessId
  | [] => none
  | .started j p _ _ :: h => if j = i then some p else running i h
  | .stopped j _ _ _ :: h => if j = i then none else running i h
  | _ :: h => running i h

def completed (c : Config) (p : ProcessId) : List Action → Bool
  | [] => false
  | .stopped _ q _ mark :: h => if q = p then completed c p h || mark else completed c p h
  | .skipped _ q :: h => if q = p then true else completed c p h
  | .entered _ k _ _ :: h => completed c p h && decide (p ∉ c.processIds k)
  | _ :: h => completed c p h

def Pending (c : Config) (p : ProcessId) (h : List Action) : Prop :=
  completed c p h = false ∧ .exited p ∉ h

/-- What the gate demands of a record that is made after the records `h`. -/
def Allowed (c : Config) (h : List Action) : Action → Prop
  | .beStarted w _ => (course h).stage = .running w true ∧ (∀ i, running i h = none) ∧
      ∀ i ∈ c.sliceIds w, ∀ k, c.role true i = some k → ∀ p ∈ c.processIds k, ¬Pending c p h
  | .started i p _ _ => ∃ w sc, (course h).stage = .running w sc ∧
      (course h).role i = some (p.part, sc)
  | _ => True

def Gated (c : Config) (history : List Action) : Prop :=
  ∀ a h, a :: h <:+ history → a.Allowed c h

theorem gated_cons {c : Config} {a : Action} {h : List Action} :
    Gated c (a :: h) ↔ a.Allowed c h ∧ Gated c h := by
  constructor
  · intro hgated
    exact ⟨hgated a h List.suffix_rfl, fun b l hl => hgated b l (hl.trans (List.suffix_cons _ _))⟩
  · rintro ⟨hallowed, hgated⟩ b l hl
    rcases List.suffix_cons_iff.mp hl with heq | hl
    · obtain ⟨rfl, rfl⟩ := List.cons.inj heq
      exact hallowed
    · exact hgated b l hl

def Mute : Action → Prop
  | .beStarted _ _ | .entered _ _ _ _ | .skipped _ _ | .started _ _ _ _ | .stopped _ _ _ _
  | .exited _ => False
  | _ => True

end Action

structure State.Legible (c : Config) (s : State) : Prop where
  running : ∀ i, Action.running i s.history = (s.slice i).runningProcess
  completed : ∀ p, Action.completed c p s.history = (s.process p).completed
  exited : ∀ p, .exited p ∈ s.history ↔ (s.process p).spawned = false
  gated : Action.Gated c s.history

namespace State.Legible

variable {c : Config} {w : Nat} {t : Int} {s s' : State}

theorem pending (h : s.Legible c) (p : ProcessId) :
    Action.Pending c p s.history ↔ Process.isPending p s = true := by
  rw [Process.isPending_iff, Action.Pending, h.completed, h.exited, Bool.not_eq_false, and_comm]

theorem congr (h : s.Legible c) (slice : ∀ i, (s'.slice i).runningProcess =
      (s.slice i).runningProcess)
    (flags : ∀ p, (s'.process p).completed = (s.process p).completed ∧
      (s'.process p).spawned = (s.process p).spawned)
    (history : s'.history = s.history) : s'.Legible c where
  running i := by rw [history, slice]; exact h.running i
  completed p := by rw [history, (flags p).1]; exact h.completed p
  exited p := by rw [history, (flags p).2]; exact h.exited p
  gated := by rw [history]; exact h.gated

theorem muted (h : s.Legible c) {a : Action} (ha : a.Mute)
    (slice : ∀ i, (s'.slice i).runningProcess = (s.slice i).runningProcess)
    (flags : ∀ p, (s'.process p).completed = (s.process p).completed ∧
      (s'.process p).spawned = (s.process p).spawned)
    (history : s'.history = a :: s.history) : s'.Legible c where
  running i := by
    rw [slice, ← h.running, history]
    cases a <;> first | rfl | exact absurd ha id
  completed p := by
    rw [(flags p).1, ← h.completed, history]
    cases a <;> first | rfl | exact absurd ha id
  exited p := by
    rw [(flags p).2, ← h.exited, history, List.mem_cons]
    cases a <;> first | exact absurd ha id | simp
  gated := by
    rw [history, Action.gated_cons]
    refine ⟨?_, h.gated⟩
    cases a <;> trivial

theorem noted (h : s.Legible c) {a : Action} (ha : a.OfWindow) (opens : s.Opens c w a) :
    (s.record a).Legible c := by
  have hreadings : (∀ i, Action.running i (a :: s.history) = Action.running i s.history) ∧
      (∀ p, Action.completed c p (a :: s.history) = Action.completed c p s.history) ∧
      ∀ p, .exited p ∈ a :: s.history ↔ .exited p ∈ s.history := by
    cases a <;> first | exact absurd ha id | exact ⟨fun _ => rfl, fun _ => rfl, by simp⟩
  refine ⟨fun i => (hreadings.1 i).trans (h.running i),
    fun p => (hreadings.2.1 p).trans (h.completed p), fun p => (hreadings.2.2 p).trans (h.exited p),
    Action.gated_cons.mpr ⟨?_, h.gated⟩⟩
  cases a with
  | beStarted v t =>
    obtain ⟨rfl, hidle, -, hstage, hover⟩ := opens
    refine ⟨hstage, fun i => (h.running i).trans (hidle i), fun i hi k hk p hp => ?_⟩
    obtain ⟨rfl, hlt⟩ := c.mem_processIds.mp hp
    rw [h.pending, hover i hi _ hk p.index hlt]
    simp
  | _ => trivial

theorem drew (h : s.Legible c) (p : ProcessId) : (s.drew c p).Legible c :=
  h.muted (a := .drawn p (Process.jitterOffset (c.process p).jitter (s.gen 0))) trivial
    (fun _ => rfl) (fun _ => ⟨rfl, rfl⟩) rfl

theorem selected {i : SliceId} {p : ProcessId} {b : Int} {s₁ : State} (h : s.Legible c)
    (selected : Slice.Selected c w i p b s s₁) : s₁.Legible c := by
  rcases selected.drew_or_same with rfl | rfl
  · exact h
  · exact h.drew p

theorem entered {i : SliceId} {k : Nat} {first : Bool} (h : s.Legible c) :
    (s.assigned c i k first t).Legible c where
  running j := by
    change Action.running j s.history = _
    rw [h.running, State.assigned_running]
  completed p := by
    change (Action.completed c p s.history && _) = _
    rw [h.completed]
    rfl
  exited p := by simpa using h.exited p
  gated := Action.gated_cons.mpr ⟨trivial, h.gated⟩

theorem skipped {i : SliceId} {p : ProcessId} (h : s.Legible c) : (s.skipped i p).Legible c where
  running j := h.running j
  completed q := by
    change (if p = q then true else Action.completed c q s.history) = _
    rw [h.completed]
    by_cases hq : q = p
    · subst hq
      simp
    · simp [hq, Ne.symm hq]
  exited q := by
    have hsame : ((s.skipped i p).process q).spawned = (s.process q).spawned :=
      State.update_field Process.spawned rfl
    rw [hsame]
    simpa using h.exited q
  gated := Action.gated_cons.mpr ⟨trivial, h.gated⟩

theorem launched {i : SliceId} {p : ProcessId} {b : Int} (h : s.Legible c)
    (role : s.InRole w i p.part) : (s.launched c i p t b).Legible c where
  running j := by
    change (if i = j then some p else Action.running j s.history) = _
    rw [h.running]
    by_cases hj : j = i
    · subst hj
      simp
    · simp [hj, Ne.symm hj]
  completed q := by
    change Action.completed c q s.history = _
    rw [h.completed]
    exact Eq.symm (State.update_field Process.completed rfl)
  exited q := by
    have hsame : ((s.launched c i p t b).process q).spawned = (s.process q).spawned :=
      State.update_field Process.spawned rfl
    rw [hsame]
    simpa using h.exited q
  gated := Action.gated_cons.mpr ⟨⟨w, role⟩, h.gated⟩

theorem stopped {i : SliceId} {p : ProcessId} {mark : Bool} (h : s.Legible c) :
    (s.stopped i p t mark).Legible c where
  running j := by
    change (if i = j then none else Action.running j s.history) = _
    rw [h.running]
    by_cases hj : j = i
    · subst hj
      simp
    · simp [hj, Ne.symm hj]
  completed q := by
    change (if p = q then Action.completed c q s.history || mark
      else Action.completed c q s.history) = _
    rw [h.completed]
    by_cases hq : q = p
    · subst hq
      simp
    · simp [hq, Ne.symm hq]
  exited q := by
    have hsame : ((s.stopped i p t mark).process q).spawned = (s.process q).spawned :=
      State.update_field Process.spawned rfl
    rw [hsame]
    simpa using h.exited q
  gated := Action.gated_cons.mpr ⟨trivial, h.gated⟩

theorem effect (h : s.Legible c) (effect : Effect c w t s s') : s'.Legible c := by
  cases effect with
  | noted a ha opens => exact h.noted ha opens
  | windowSet | sought => exact h.congr (fun _ => rfl) (fun _ => ⟨rfl, rfl⟩) rfl
  | entered => exact h.entered
  | skipped selected => exact (h.selected selected).skipped
  | launched selected ne held role =>
    refine (h.selected selected).launched (w := w) ?_
    rcases selected.drew_or_same with rfl | rfl <;> exact role
  | stopped => exact h.stopped

theorem closing (h : s.Legible c) (closing : Closing c w t s s') : s'.Legible c := by
  cases closing with
  | effect e => exact h.effect e
  | announced =>
    exact h.muted (a := .onWindowEnd w) trivial (fun _ => rfl) (fun _ => ⟨rfl, rfl⟩) rfl
  | stopping => exact h.congr (fun _ => rfl) (fun _ => ⟨rfl, rfl⟩) rfl
  | @shortened i p r =>
    exact h.muted (a := .shortened p r) trivial (fun _ => rfl)
      (State.flags_setProcess ⟨rfl, rfl⟩) rfl
  | @released i =>
    exact h.congr (fun _ => State.released_running) (fun _ => ⟨rfl, rfl⟩) rfl

theorem closings (h : s.Legible c) (run : Closings c w t s s') : s'.Legible c :=
  run.invariant (fun _ _ h e => h.closing e) h

theorem ended (h : s.Legible c) (p : ProcessId) : (Event.ended c p s).Legible c where
  running := h.running
  completed q := by
    change Action.completed c q s.history = _
    rw [h.completed]
    by_cases hq : q = p
    · subst hq
      simp [Event.ended, Partition.updateEmpty]
    · simp [Event.ended, Partition.updateEmpty, hq]
  exited q := by
    by_cases hq : q = p
    · subst hq
      simp [Event.ended, Partition.updateEmpty]
    · simpa [Event.ended, Partition.updateEmpty, hq] using h.exited q
  gated := Action.gated_cons.mpr ⟨trivial, h.gated⟩

theorem turn {ok : Action → Prop} (h : s.Legible c) (turn : Turn c ok s s') : s'.Legible c := by
  have hwritten : ∀ {a : Action} {p : ProcessId} {x : Process}, a.Mute →
      x.completed = (s.process p).completed ∧ x.spawned = (s.process p).spawned →
      ((s.setProcess p x).record a).Legible c := fun ha hx =>
    h.muted ha (fun _ => rfl) (State.flags_setProcess hx) rfl
  cases turn with
  | change change =>
    cases change with
    | effects run => exact h.closings run.closings
    | closed run => exact h.closings run
    | windowArmed t =>
      exact h.muted (a := .windowArmed t) trivial (fun _ => rfl) (fun _ => ⟨rfl, rfl⟩) rfl
    | signalled p => exact hwritten (a := .signalled p) trivial ⟨rfl, rfl⟩
    | ended p => exact h.ended p
    | loopBroken =>
      exact h.muted (a := .loopBroken) trivial (fun _ => rfl) (fun _ => ⟨rfl, rfl⟩) rfl
    | _ => exact h.congr (fun _ => rfl) (fun _ => ⟨rfl, rfl⟩) rfl
  | noted a ha =>
    refine h.muted (a := a) ?_ (fun _ => rfl) (fun _ => ⟨rfl, rfl⟩) rfl
    rcases ha with rfl | rfl <;> trivial
  | killed p => exact hwritten (a := .killed p) trivial ⟨rfl, rfl⟩
  | thawed halted p => exact hwritten (a := .initResumed p) trivial ⟨rfl, rfl⟩
  | suspended halted p => exact hwritten (a := .initSuspended p) trivial ⟨rfl, rfl⟩
  | takenOver halted fresh =>
    exact h.congr (fun _ => rfl) (fun p => ⟨by simp [fresh p], rfl⟩) rfl
  | _ => exact h.congr (fun _ => rfl) (fun _ => ⟨rfl, rfl⟩) rfl

theorem initial (c : Config) (gen : Nat → Nat) (timeout : Option Int) :
    (State.initial c gen timeout).Legible c where
  running _ := rfl
  completed _ := rfl
  exited p := by simp [State.initial]
  gated a h ha := by simp [State.initial] at ha

end State.Legible

theorem Event.Reachable.legible {c : Config} {gen : Nat → Nat} {timeout : Option Int}
    {es : List Event} {s : State} (h : Event.Reachable c gen timeout es s) : s.Legible c :=
  h.turns.invariant (fun _ _ h e => h.turn e) (.initial c gen timeout)

namespace Action

structure Underway (w : Nat) (recent h : List Action) : Prop where
  begun : ∃ u oldest, h = recent ++ .windowStarted w u :: oldest
  unended : ∀ v, .onWindowEnd v ∉ recent
  single : ∀ v u, .windowStarted v u ∉ recent

theorem Underway.cons {w : Nat} {recent h : List Action} {a : Action} (run : Underway w recent h)
    (ends : ∀ v, a ≠ .onWindowEnd v) (starts : ∀ v u, a ≠ .windowStarted v u) :
    Underway w (a :: recent) (a :: h) := by
  obtain ⟨u, oldest, rfl⟩ := run.begun
  refine ⟨⟨u, oldest, rfl⟩, fun v hv => ?_, fun v u hv => ?_⟩
  · rcases List.mem_cons.mp hv with heq | hmem
    · exact ends v heq.symm
    · exact run.unended v hmem
  · rcases List.mem_cons.mp hv with heq | hmem
    · exact starts v u heq.symm
    · exact run.single v u hmem

theorem Gated.underway {c : Config} {h : List Action} {w : Nat} {sc : Bool} (gated : Gated c h)
    (stage : (course h).stage = .running w sc) : ∃ recent, Underway w recent h ∧
      (sc = true → ∀ v t, .beStarted v t ∉ recent) ∧ (sc = false → ∃ t, .beStarted w t ∈ recent) ∧
      ∀ i, (course h).role i = phase i recent := by
  induction h generalizing sc with
  | nil => simp [course] at stage
  | cons a h ih =>
    obtain ⟨hallowed, hgated⟩ := gated_cons.mp gated
    have hkept : (course h).stage = .running w sc → (∀ v t, a ≠ .beStarted v t) →
        (∀ v, a ≠ .onWindowEnd v) → (∀ v u, a ≠ .windowStarted v u) →
        (∀ recent, (∀ i, (course h).role i = phase i recent) →
          ∀ i, (course (a :: h)).role i = phase i (a :: recent)) →
        ∃ recent, Underway w recent (a :: h) ∧ (sc = true → ∀ v t, .beStarted v t ∉ recent) ∧
          (sc = false → ∃ t, .beStarted w t ∈ recent) ∧
          ∀ i, (course (a :: h)).role i = phase i recent := by
      intro hstage hbe hend hstart hrole
      obtain ⟨recent, hrun, hnone, hsome, hphase⟩ := ih hgated hstage
      refine ⟨a :: recent, hrun.cons hend hstart, fun hsc v t => ?_, fun hsc => ?_,
        hrole recent hphase⟩
      · rw [List.mem_cons, not_or]
        exact ⟨(hbe v t).symm, hnone hsc v t⟩
      · obtain ⟨t, ht⟩ := hsome hsc
        exact ⟨t, List.mem_cons_of_mem _ ht⟩
    cases a with
    | windowStarted v u =>
      obtain ⟨rfl, rfl⟩ := Stage.running.inj stage
      exact ⟨[], ⟨⟨u, h, rfl⟩, by simp, by simp⟩, by simp, by simp, fun _ => rfl⟩
    | onWindowEnd v => exact absurd stage (by simp [course, Course.next])
    | beStarted v t =>
      obtain ⟨rfl, rfl⟩ := Stage.running.inj stage
      obtain ⟨recent, hrun, -, -, hphase⟩ := ih hgated hallowed.1
      exact ⟨.beStarted v t :: recent, hrun.cons (by simp) (by simp), by simp, fun _ => ⟨t, by simp⟩,
        hphase⟩
    | entered i k first t =>
      refine hkept stage (by simp) (by simp) (by simp) fun recent hphase j => ?_
      change Function.update (course h).role i (some (k, first)) j = _
      by_cases hj : j = i
      · subst hj
        simp [phase, beginsPhase]
      · simp [phase, beginsPhase, hj, Ne.symm hj, hphase]
    | _ => exact hkept stage (by simp) (by simp) (by simp) fun recent hphase => hphase

end Action

end DemosSched
