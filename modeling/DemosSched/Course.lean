import DemosSched.State

/-! What the records say of the current run of a window: the phase it is in, the
roles in which its slices have taken their partitions over, and the calls of the
power policy. -/

namespace DemosSched

inductive Stage
  | closed
  | running (w : Nat) (sc : Bool)
  deriving DecidableEq, Repr

/-- Apart from `stage`, what has happened since the window was started: whether the
BE phase was entered, the partitions taken over, and the calls, newest first. -/
structure Course where
  stage : Stage := .closed
  be : Bool := false
  role : SliceId → Option (Nat × Bool) := fun _ => none
  calls : List Action := []

def Course.next (x : Course) : Action → Course
  | .windowStarted w _ => { stage := .running w true }
  | .beStarted w _ => { x with stage := .running w false, be := true }
  | .entered i k first _ => { x with role := Function.update x.role i (some (k, first)) }
  | .onWindowStart w => { x with calls := .onWindowStart w :: x.calls }
  | .onScStart w => { x with calls := .onScStart w :: x.calls }
  | .onBeStart w => { x with calls := .onBeStart w :: x.calls }
  | .onWindowEnd w => { x with stage := .closed, calls := .onWindowEnd w :: x.calls }
  | _ => x

namespace Action

def course : List Action → Course
  | [] => {}
  | a :: h => (course h).next a

def opening (w : Nat) : List Action := [.onScStart w, .onWindowStart w]

end Action

theorem Action.course_be {h : List Action} {w : Nat} {sc : Bool}
    (stage : (course h).stage = .running w sc) : (course h).be = !sc := by
  induction h generalizing sc with
  | nil => simp [course] at stage
  | cons a h ih =>
    cases a with
    | windowStarted v u =>
      obtain ⟨rfl, rfl⟩ := Stage.running.inj stage
      rfl
    | beStarted v u =>
      obtain ⟨rfl, rfl⟩ := Stage.running.inj stage
      rfl
    | onWindowEnd v => exact absurd stage (by simp [course, Course.next])
    | _ => exact ih stage

def Action.SameRun : Action → Prop
  | .windowStarted _ _ => False
  | _ => True

def State.course (s : State) : Course := Action.course s.history

def State.Grows (ok : Action → Prop) (s s' : State) : Prop :=
  ∃ new, s'.history = new ++ s.history ∧ ∀ a ∈ new, ok a

namespace State.Grows

variable {ok ok' : Action → Prop} {s s' s'' : State}

theorem same (h : s'.history = s.history) : s.Grows ok s' := ⟨[], h, by simp⟩

theorem trans (h : s.Grows ok s') (h' : s'.Grows ok s'') : s.Grows ok s'' := by
  obtain ⟨new, hnew, hok⟩ := h
  obtain ⟨new', hnew', hok'⟩ := h'
  refine ⟨new' ++ new, by rw [hnew', hnew, List.append_assoc], fun a ha => ?_⟩
  rcases List.mem_append.mp ha with ha | ha
  · exact hok' a ha
  · exact hok a ha

theorem cons {a : Action} (h : s.Grows ok s') (ha : ok a) (heq : s''.history = a :: s'.history) :
    s.Grows ok s'' :=
  h.trans ⟨[a], heq, by simpa using ha⟩

theorem one {a : Action} (ha : ok a) (heq : s'.history = a :: s.history) : s.Grows ok s' :=
  (same rfl).cons ha heq

theorem mono (h : s.Grows ok s') (sub : ∀ a, ok a → ok' a) : s.Grows ok' s' := by
  obtain ⟨new, hnew, hok⟩ := h
  exact ⟨new, hnew, fun a ha => sub a (hok a ha)⟩

theorem notMem (h : s.Grows ok s') {a : Action} (hno : ¬ok a) (ha : a ∉ s.history) :
    a ∉ s'.history := by
  obtain ⟨new, hnew, hok⟩ := h
  rw [hnew, List.mem_append, not_or]
  exact ⟨fun hmem => hno (hok a hmem), ha⟩

end State.Grows

end DemosSched
