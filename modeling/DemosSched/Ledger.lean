import DemosSched.Progress

/-! The stored budgets, read off the history: a process is granted either the
remainder stored when it was last interrupted, or its full budget with the
offset drawn for it. -/

namespace DemosSched

open Fallible Relation

namespace Action

/-- What a record says about the stored budget of `p`, if anything: a remainder,
or that it has been used up. -/
def remainder (p : ProcessId) : Action → Option (Option Int)
  | .shortened q r => if q = p then some (some r) else none
  | .started _ q _ _ => if q = p then some none else none
  | _ => none

/-- The remainder stored for `p`, the newest record first. -/
def leftover (p : ProcessId) : List Action → Option Int
  | [] => none
  | a :: h => (a.remainder p).getD (leftover p h)

def Grant (c : Config) (p : ProcessId) (b : Int) (h : List Action) : Prop :=
  leftover p h = some b ∨
    leftover p h = none ∧ ∃ offset h', h = .drawn p offset :: h' ∧ b = (c.process p).budget + offset

theorem leftover_cons {p : ProcessId} {a : Action} {h : List Action} (ha : a.remainder p = none) :
    leftover p (a :: h) = leftover p h := by
  rw [leftover, ha, Option.getD_none]

theorem OfWindow.remainder {a : Action} (ha : a.OfWindow) (p : ProcessId) :
    a.remainder p = none := by
  cases a <;> first | rfl | exact absurd ha id

theorem shortened_of_leftover {p : ProcessId} {r : Int} {h : List Action}
    (hr : leftover p h = some r) : ∃ older, .shortened p r :: older <:+ h := by
  induction h with
  | nil => simp [leftover] at hr
  | cons a h ih =>
    cases ha : a.remainder p with
    | none =>
      rw [leftover_cons ha] at hr
      obtain ⟨older, holder⟩ := ih hr
      exact ⟨older, holder.trans (List.suffix_cons _ _)⟩
    | some x =>
      rw [leftover, ha, Option.getD_some] at hr
      subst hr
      cases a with
      | shortened q d =>
        simp only [remainder, Option.ite_none_right_eq_some, Option.some.injEq] at ha
        obtain ⟨rfl, rfl⟩ := ha
        exact ⟨h, List.suffix_rfl⟩
      | started i q t b => simp [remainder] at ha
      | _ => simp [remainder] at ha

theorem ne_started {a : Action} (ha : ∀ p, a.remainder p = none) (i : SliceId) (p : ProcessId)
    (t b : Int) : a ≠ .started i p t b := by
  rintro rfl
  simpa [Action.remainder] using ha p

end Action

/-- The stored budgets are those of the history, and every start was granted
according to it. -/
structure State.Ledger (c : Config) (s : State) : Prop where
  stored : ∀ p, (s.process p).actualBudget =
    (Action.leftover p s.history).getD (c.process p).budget
  shortened : ∀ p r h, .shortened p r :: h <:+ s.history → 0 < r ∧ r < (c.process p).budget
  granted : ∀ i p t b h, .started i p t b :: h <:+ s.history → Action.Grant c p b h

namespace State.Ledger

variable {c : Config} {w : Nat} {t : Int} {s s' : State}

theorem congr (h : s.Ledger c) (budget : ∀ p, (s'.process p).actualBudget =
    (s.process p).actualBudget) (history : s'.history = s.history) : s'.Ledger c :=
  ⟨fun p => by rw [budget, history]; exact h.stored p, by rw [history]; exact h.shortened,
    by rw [history]; exact h.granted⟩

theorem bounds (h : s.Ledger c) {p : ProcessId} {r : Int} {older : List Action}
    (hsuffix : older <:+ s.history) (hr : Action.leftover p older = some r) :
    0 < r ∧ r < (c.process p).budget := by
  obtain ⟨oldest, holdest⟩ := Action.shortened_of_leftover hr
  exact h.shortened p r oldest (holdest.trans hsuffix)

theorem recorded (h : s.Ledger c) {a : Action} (ha : ∀ p, a.remainder p = none)
    (budget : ∀ p, (s'.process p).actualBudget = (s.process p).actualBudget)
    (history : s'.history = a :: s.history) : s'.Ledger c where
  stored p := by
    rw [budget, history, Action.leftover_cons (ha p)]
    exact h.stored p
  shortened p r older hsuffix := by
    rw [history, List.suffix_cons_iff] at hsuffix
    rcases hsuffix with heq | hsuffix
    · have hnone := ha p
      rw [← (List.cons.inj heq).1] at hnone
      simp [Action.remainder] at hnone
    · exact h.shortened p r older hsuffix
  granted i p t b older hsuffix := by
    rw [history, List.suffix_cons_iff] at hsuffix
    rcases hsuffix with heq | hsuffix
    · exact absurd (List.cons.inj heq).1.symm (Action.ne_started ha i p t b)
    · exact h.granted i p t b older hsuffix

theorem record (h : s.Ledger c) {a : Action} (ha : ∀ p, a.remainder p = none) :
    (s.record a).Ledger c := h.recorded ha (fun _ => rfl) rfl

theorem drew (h : s.Ledger c) (p : ProcessId) : (s.drew c p).Ledger c :=
  h.recorded (fun _ => rfl) (fun _ => rfl) rfl

theorem launched {i : SliceId} {p : ProcessId} {t b : Int} (h : s.Ledger c)
    (grant : Action.Grant c p b s.history) : (s.launched c i p t b).Ledger c where
  stored q := by
    by_cases hq : q = p
    · subst hq
      simp [Action.leftover, Action.remainder]
    · have hnone : (Action.started i p t b).remainder q = none := by
        simp [Action.remainder, Ne.symm hq]
      rw [State.launched_history, Action.leftover_cons hnone]
      simpa [hq] using h.stored q
  shortened q r older hsuffix := by
    rw [State.launched_history, List.suffix_cons_iff] at hsuffix
    rcases hsuffix with heq | hsuffix
    · simp at heq
    · exact h.shortened q r older hsuffix
  granted j q u d older hsuffix := by
    rw [State.launched_history, List.suffix_cons_iff] at hsuffix
    rcases hsuffix with heq | hsuffix
    · obtain ⟨hstart, rfl⟩ := List.cons.inj heq
      obtain ⟨-, rfl, -, rfl⟩ := Action.started.inj hstart
      exact grant
    · exact h.granted j q u d older hsuffix

theorem effect (h : s.Ledger c) (effect : Effect c w t s s') : s'.Ledger c := by
  cases effect with
  | noted a ha => exact h.record ha.remainder
  | windowSet | sought => exact h.congr (fun _ => rfl) rfl
  | entered => exact h.recorded (fun _ => rfl) (fun _ => rfl) rfl
  | @skipped s₁ i p selected =>
    have hs : s₁.Ledger c := by
      rcases selected.drew_or_same with rfl | rfl
      · exact h
      · exact h.drew p
    exact hs.recorded (a := .skipped i p) (fun _ => rfl)
      (fun _ => State.update_field Process.actualBudget rfl) rfl
  | @launched s₁ i p b selected ne =>
    rcases (Process.getActualBudget_ok c p s).mp selected.granted with
      ⟨hne, -, rfl, rfl⟩ | ⟨heq, rfl, rfl⟩
    · refine h.launched (.inl ?_)
      cases hleft : Action.leftover p s₁.history with
      | none =>
        have hfull := h.stored p
        rw [hleft, Option.getD_none] at hfull
        exact absurd hfull hne
      | some r => rw [h.stored p, hleft, Option.getD_some]
    · refine (h.drew p).launched (.inr ⟨?_, _, _, rfl, rfl⟩)
      cases hleft : Action.leftover p (s.drew c p).history with
      | none => rfl
      | some r =>
        have hstored := (h.drew p).stored p
        rw [hleft, Option.getD_some] at hstored
        have hlt := ((h.drew p).bounds List.suffix_rfl hleft).2
        rw [← hstored] at hlt
        exact absurd heq hlt.ne
  | @stopped i p mark =>
    exact h.recorded (a := .stopped i p t mark) (fun _ => rfl)
      (fun _ => State.update_field Process.actualBudget rfl) rfl

theorem shorten {p : ProcessId} {r : Int} (h : s.Ledger c) (pos : 0 < r)
    (lt : r < (c.process p).budget) : (s.shortened p r).Ledger c where
  stored q := by
    by_cases hq : q = p
    · subst hq
      simp [Action.leftover, Action.remainder]
    · have hnone : (Action.shortened p r).remainder q = none := by
        simp [Action.remainder, Ne.symm hq]
      rw [State.shortened_history, Action.leftover_cons hnone]
      simpa [hq] using h.stored q
  shortened q d older hsuffix := by
    rw [State.shortened_history, List.suffix_cons_iff] at hsuffix
    rcases hsuffix with heq | hsuffix
    · obtain ⟨rfl, rfl⟩ := Action.shortened.inj (List.cons.inj heq).1
      exact ⟨pos, lt⟩
    · exact h.shortened q d older hsuffix
  granted i q t b older hsuffix := by
    rw [State.shortened_history, List.suffix_cons_iff] at hsuffix
    rcases hsuffix with heq | hsuffix
    · simp at heq
    · exact h.granted i q t b older hsuffix

theorem effects (h : s.Ledger c) (run : Effects c w t s s') : s'.Ledger c :=
  run.invariant (I := State.Ledger c) (fun _ _ h e => h.effect e) h

theorem closings (h : s.Ledger c) (run : Closings c w t s s') : s'.Ledger c := by
  refine run.invariant (I := State.Ledger c) (fun s s' h e => ?_) h
  cases e with
  | effect e => exact h.effect e
  | announced => exact h.record (a := .onWindowEnd w) fun _ => rfl
  | stopping | released => exact h.congr (fun _ => rfl) rfl
  | shortened member running role pos lt => exact h.shorten pos lt

theorem setProcess (h : s.Ledger c) {p : ProcessId} {x : Process}
    (hx : x.actualBudget = (s.process p).actualBudget) : (s.setProcess p x).Ledger c :=
  h.congr (fun _ => State.update_field Process.actualBudget hx) rfl

theorem turn {ok : Action → Prop} (h : s.Ledger c) (turn : Turn c ok s s') : s'.Ledger c := by
  cases turn with
  | change e =>
    cases e with
    | effects run => exact h.effects run
    | closed run => exact h.closings run
    | windowArmed t => exact h.record fun _ => rfl
    | signalled p =>
      have hset : (s.setProcess p { s.process p with demosCompleted := true }).Ledger c :=
        h.setProcess rfl
      exact hset.record fun _ => rfl
    | ended p =>
      have hset : (s.setProcess p { s.process p with spawned := false }).Ledger c :=
        h.setProcess rfl
      have hexited : ((s.setProcess p { s.process p with spawned := false }).record
          (.exited p)).Ledger c := hset.record fun _ => rfl
      exact hexited.congr (fun _ => rfl) rfl
    | loopBroken => exact h.recorded (a := .loopBroken) (fun _ => rfl) (fun _ => rfl) rfl
    | moved | framed => exact h.congr (fun _ => rfl) rfl
  | noted a ha =>
    have hnone : ∀ p, a.remainder p = none := by rcases ha with rfl | rfl <;> exact fun _ => rfl
    exact h.record hnone
  | killed | thawed | suspended =>
    refine State.Ledger.record ?_ fun _ => rfl
    exact h.setProcess rfl
  | managed | scheduled | takenOver | disconnected => exact h.congr (fun _ => rfl) rfl

theorem turns {ok : Action → Prop} (h : s.Ledger c) (run : Turns c ok s s') : s'.Ledger c :=
  run.invariant (I := State.Ledger c) (fun _ _ h e => h.turn e) h

theorem initial (c : Config) (gen : Nat → Nat) (timeout : Option Int) :
    (State.initial c gen timeout).Ledger c where
  stored _ := rfl
  shortened _ _ _ h := by simp [State.initial] at h
  granted _ _ _ _ _ h := by simp [State.initial] at h

end State.Ledger

theorem Event.Reachable.ledger {c : Config} {gen : Nat → Nat} {timeout : Option Int}
    {es : List Event} {s : State} (h : Reachable c gen timeout es s) : s.Ledger c :=
  State.Ledger.turns (.initial c gen timeout) h.turns

end DemosSched
