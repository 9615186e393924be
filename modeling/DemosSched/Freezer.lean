import DemosSched.Runs

/-! The freezers as the history shows them: the last write to a freezer is the
last record of a resumption, a suspension or a kill of its process. -/

namespace DemosSched

open Fallible Relation

namespace Action

def freezes (p : ProcessId) : Action → Option Bool
  | .initResumed q | .killed q | .started _ q _ _ => if q = p then some false else none
  | .initSuspended q | .stopped _ q _ _ => if q = p then some true else none
  | _ => none

/-- The freezer of `p` after the records of `h`; processes are spawned frozen. -/
def frozen (p : ProcessId) : List Action → Bool
  | [] => true
  | a :: h => (a.freezes p).getD (frozen p h)

theorem frozen_cons {p : ProcessId} {a : Action} (ha : a.freezes p = none) (h : List Action) :
    frozen p (a :: h) = frozen p h := by
  rw [frozen, ha, Option.getD_none]

theorem OfWindow.freezes {a : Action} (ha : a.OfWindow) (p : ProcessId) : a.freezes p = none := by
  cases a <;> first | rfl | exact absurd ha id

end Action

def State.FreezersShown (s : State) : Prop :=
  ∀ p, (s.process p).frozen = Action.frozen p s.history

namespace State.FreezersShown

variable {c : Config} {w : Nat} {t : Int} {s s' : State}

theorem unwritten {a : Action} (h : s.FreezersShown) (ha : ∀ p, a.freezes p = none)
    (frozen : ∀ p, (s'.process p).frozen = (s.process p).frozen)
    (history : s'.history = a :: s.history) : s'.FreezersShown := fun p => by
  rw [frozen, history, Action.frozen_cons (ha p), h p]

theorem written {a : Action} {q : ProcessId} {b : Bool} (h : s.FreezersShown)
    (ha : ∀ p, a.freezes p = if q = p then some b else none)
    (self : (s'.process q).frozen = b)
    (others : ∀ p ≠ q, (s'.process p).frozen = (s.process p).frozen)
    (history : s'.history = a :: s.history) : s'.FreezersShown := fun p => by
  rw [history, Action.frozen, ha]
  by_cases hp : q = p
  · subst hp
    simpa using self
  · simpa [hp, h p] using others p (Ne.symm hp)

theorem effect (h : s.FreezersShown) (effect : Effect c w t s s') : s'.FreezersShown := by
  cases effect with
  | noted a ha => exact h.unwritten ha.freezes (fun _ => rfl) rfl
  | windowSet | sought => exact h
  | entered => exact h.unwritten (fun _ => rfl) (fun _ => rfl) rfl
  | @skipped s₁ i p selected =>
    have hs : s₁.FreezersShown := by
      rcases selected.drew_or_same with rfl | rfl
      · exact h
      · exact h.unwritten (fun _ => rfl) (fun _ => rfl) rfl
    exact hs.unwritten (a := .skipped i p) (fun _ => rfl) (fun _ => update_field Process.frozen rfl) rfl
  | @launched s₁ i p b selected =>
    have hs : s₁.FreezersShown := by
      rcases selected.drew_or_same with rfl | rfl
      · exact h
      · exact h.unwritten (fun _ => rfl) (fun _ => rfl) rfl
    exact hs.written (a := .started i p t b) (fun _ => rfl) (by simp) (fun q hq => by simp [hq]) rfl
  | @stopped i p mark =>
    exact h.written (a := .stopped i p t mark) (fun _ => rfl) (by simp)
      (fun q hq => by simp [hq]) rfl

theorem closing (h : s.FreezersShown) (closing : Closing c w t s s') : s'.FreezersShown := by
  cases closing with
  | effect e => exact h.effect e
  | announced => exact h.unwritten (a := .onWindowEnd w) (fun _ => rfl) (fun _ => rfl) rfl
  | @shortened i p r =>
    exact h.unwritten (a := .shortened p r) (fun _ => rfl) (fun _ => update_field Process.frozen rfl) rfl
  | stopping | released => exact h

theorem turn {ok : Action → Prop} (h : s.FreezersShown) (turn : Turn c ok s s') : s'.FreezersShown := by
  cases turn with
  | change e =>
    cases e with
    | effects run => exact run.invariant (fun _ _ h e => h.effect e) h
    | closed run => exact run.invariant (fun _ _ h e => h.closing e) h
    | windowArmed t => exact h.unwritten (a := .windowArmed t) (fun _ => rfl) (fun _ => rfl) rfl
    | signalled p =>
      exact h.unwritten (a := .signalled p) (fun _ => rfl) (fun _ => update_field Process.frozen rfl) rfl
    | ended p => exact h.unwritten (a := .exited p) (fun _ => rfl) (fun _ => update_field Process.frozen rfl) rfl
    | loopBroken => exact h.unwritten (a := .loopBroken) (fun _ => rfl) (fun _ => rfl) rfl
    | _ => exact h
  | noted a ha =>
    have hnone : ∀ p, a.freezes p = none := by rcases ha with rfl | rfl <;> exact fun _ => rfl
    exact h.unwritten hnone (fun _ => rfl) rfl
  | killed p =>
    exact h.written (a := .killed p) (fun _ => rfl) (by simp) (fun q hq => by simp [hq]) rfl
  | thawed _ p =>
    exact h.written (a := .initResumed p) (fun _ => rfl) (by simp) (fun q hq => by simp [hq]) rfl
  | suspended _ p =>
    exact h.written (a := .initSuspended p) (fun _ => rfl) (by simp) (fun q hq => by simp [hq]) rfl
  | _ => exact h

end State.FreezersShown

theorem Event.Reachable.freezers {c : Config} {gen : Nat → Nat} {timeout : Option Int}
    {es : List Event} {s : State} (h : Reachable c gen timeout es s) : s.FreezersShown :=
  h.turns.invariant (I := State.FreezersShown) (fun _ _ h e => h.turn e) fun _ => rfl

end DemosSched
