import DemosSched.LateEvents
import DemosSched.FreshStart

/-! Interrupting a process with a randomized budget. A remainder is told from a
fresh budget by being shorter than the configured one; a budget that was drawn
longer can leave a remainder that is not. -/

namespace DemosSched

open Fallible Relation

def State.DrawsFresh (s : State) : Prop :=
  ∀ p offset h, .drawn p offset :: h <:+ s.history → Action.leftover p h = none

namespace State.DrawsFresh

variable {c : Config} {w : Nat} {t : Int} {s s' : State}

theorem congr (h : s.DrawsFresh) (history : s'.history = s.history) : s'.DrawsFresh := by
  intro p offset older hx
  exact h p offset older (history ▸ hx)

theorem recorded (h : s.DrawsFresh) {a : Action} (ha : ∀ p offset, a ≠ .drawn p offset)
    (history : s'.history = a :: s.history) : s'.DrawsFresh := by
  intro p offset older hx
  rw [history, List.suffix_cons_iff] at hx
  rcases hx with heq | hx
  · exact absurd (List.cons.inj heq).1.symm (ha p offset)
  · exact h p offset older hx

theorem drew (h : s.DrawsFresh) (ledger : s.Ledger c) {p : ProcessId}
    (full : (s.process p).actualBudget = (c.process p).budget) : (s.drew c p).DrawsFresh := by
  intro q offset older hx
  rw [State.drew_history, List.suffix_cons_iff] at hx
  rcases hx with heq | hx
  · obtain ⟨hdrawn, rfl⟩ := List.cons.inj heq
    obtain rfl := (Action.drawn.inj hdrawn).1
    cases hleft : Action.leftover q s.history with
    | none => rfl
    | some r =>
      have hstored := ledger.stored q
      have hlt := (ledger.bounds List.suffix_rfl hleft).2
      rw [hleft, Option.getD_some] at hstored
      omega
  · exact h q offset older hx

theorem selected (h : s.DrawsFresh) (ledger : s.Ledger c) {i : SliceId} {p : ProcessId} {b : Int}
    {s₁ : State} (selected : Slice.Selected c w i p b s s₁) : s₁.DrawsFresh := by
  rcases (Process.getActualBudget_ok c p s).mp selected.granted with
    ⟨-, -, -, rfl⟩ | ⟨hfull, -, rfl⟩
  · exact h
  · exact h.drew ledger hfull

theorem effect (h : s.DrawsFresh) (ledger : s.Ledger c) (effect : Effect c w t s s') :
    s'.DrawsFresh := by
  cases effect with
  | noted a ha =>
    refine h.recorded (fun p offset => ?_) rfl
    rintro rfl
    exact ha
  | windowSet | sought => exact h.congr rfl
  | skipped selected | launched selected =>
    exact (h.selected ledger selected).recorded (fun _ _ => by simp) rfl
  | entered | stopped => exact h.recorded (fun _ _ => by simp) rfl

theorem closing (h : s.DrawsFresh) (ledger : s.Ledger c) (closing : Closing c w t s s') :
    s'.DrawsFresh := by
  cases closing with
  | effect e => exact h.effect ledger e
  | announced | shortened => exact h.recorded (fun _ _ => by simp) rfl
  | stopping | released => exact h.congr rfl

theorem closings (h : s.DrawsFresh) (ledger : s.Ledger c) (run : Closings c w t s s') :
    s'.DrawsFresh := by
  have hboth := run.invariant (I := fun s => s.Ledger c ∧ s.DrawsFresh)
    (fun _ _ hs e => ⟨hs.1.closings (.single e), hs.2.closing hs.1 e⟩) ⟨ledger, h⟩
  exact hboth.2

theorem turn {ok : Action → Prop} (h : s.DrawsFresh) (ledger : s.Ledger c)
    (turn : Turn c ok s s') : s'.DrawsFresh := by
  cases turn with
  | change e =>
    cases e with
    | effects run => exact h.closings ledger run.closings
    | closed run => exact h.closings ledger run
    | windowArmed | signalled | ended | loopBroken => exact h.recorded (fun _ _ => by simp) rfl
    | _ => exact h.congr rfl
  | noted a ha =>
    refine h.recorded (fun p offset => ?_) rfl
    rcases ha with rfl | rfl <;> simp
  | killed | thawed | suspended => exact h.recorded (fun _ _ => by simp) rfl
  | _ => exact h.congr rfl

end State.DrawsFresh

theorem Event.Reachable.drawsFresh {c : Config} {gen : Nat → Nat} {timeout : Option Int}
    {es : List Event} {s : State} (h : Reachable c gen timeout es s) : s.DrawsFresh :=
  (h.turns.invariant (I := fun s => s.Ledger c ∧ s.DrawsFresh)
    (fun _ _ hs e => ⟨hs.1.turn e, hs.2.turn hs.1 e⟩)
    ⟨State.Ledger.initial c gen timeout, fun p offset h hx => by simp [State.initial] at hx⟩).2

theorem Action.leftover_append {p : ProcessId} {mid h : List Action}
    (hmid : ∀ a ∈ mid, a.remainder p = none) : leftover p (mid ++ h) = leftover p h := by
  induction mid with
  | nil => rfl
  | cons a mid ih =>
    rw [List.cons_append, leftover_cons (hmid a (by simp))]
    exact ih fun b hb => hmid b (by simp [hb])

/-- `Window::stop` has stopped the slices before `i` and calls `i->stop` in `m`. -/
def Window.StopReaches (c : Config) (w : Nat) (t : Int) (s : State) (i : SliceId) (m : State) :
    Prop :=
  ∃ done rest, c.sliceIds w = done ++ i :: rest ∧
    done.foldlM (fun s j => Slice.stop c (scDone c) j t s)
      ((s.record (.onWindowEnd w)).setWindow w { s.window w with stopping := true }) = .ok m

namespace Window

variable {c : Config} {w : Nat} {t : Int} {s m : State} {i : SliceId}

theorem StopReaches.same (h : StopReaches c w t s i m) (valid : s.QueuesValid c) :
    m.slice i = s.slice i ∧ (m.window w).stopping = true := by
  obtain ⟨done, rest, hsplit, hfold⟩ := h
  have hfresh : i ∉ done := Config.sliceIds_fresh hsplit
  have hall : (∀ j ∉ done, m.slice j = s.slice j) ∧ (m.window w).stopping = true ∧
      m.QueuesValid c := by
    refine foldlM_induct (fun part m => (∀ j ∉ part, m.slice j = s.slice j) ∧
      (m.window w).stopping = true ∧ m.QueuesValid c) ?_ ⟨fun _ _ => rfl, by simp, valid⟩ hfold
    rintro part j more s₂ s₃ hpart ⟨hsame, hstopping, hvalid⟩ hj
    obtain ⟨hclosings, hleft⟩ := Slice.stop_left hvalid (by simp [hsplit, hpart]) hstopping hj
    refine ⟨fun l hl => ?_, by rw [hleft.stopping]; exact hstopping, hvalid.closings hclosings⟩
    rw [List.mem_append, not_or, List.mem_singleton] at hl
    rw [hleft.slice, Function.update_of_ne hl.2, hsame l hl.1]
  exact ⟨hall.1 i hfresh, hall.2.1⟩

theorem StopReaches.stop_eq {p : ProcessId} {r : Int} (h : StopReaches c w t s i m)
    (valid : s.QueuesValid c) (interrupts : Slice.Interrupts c t s i p r) :
    Slice.stop c (scDone c) i t m =
      (Process.setRemainingBudget c p m r).map fun m => (m.stopped i p t false).released c i := by
  obtain ⟨hslice, -⟩ := h.same valid
  have hr : r = Process.durationCastMs ((m.slice i).timeout - t) := by
    rw [hslice]
    exact interrupts.remaining
  rw [Slice.stop_cut c _ (by rw [hslice]; exact interrupts.running) (hr ▸ interrupts.nonzero),
    if_pos (by rw [hslice]; exact interrupts.role), ← hr]

theorem StopReaches.lt_budget {p : ProcessId} {r : Int} {m' : State} (h : StopReaches c w t s i m)
    (valid : s.QueuesValid c) (interrupts : Slice.Interrupts c t s i p r)
    (run : Slice.stop c (scDone c) i t m = .ok m') : r < (c.process p).budget := by
  rw [h.stop_eq valid interrupts, map_eq_ok] at run
  obtain ⟨m₁, hset, -⟩ := run
  exact ((Process.setRemainingBudget_ok c p m).mp hset).2.1

/-- The stop of a slice that interrupts a BE process stores the remainder exactly
when it is shorter than the configured budget. -/
theorem StopReaches.stored_iff {p : ProcessId} {r : Int} (h : StopReaches c w t s i m)
    (valid : s.QueuesValid c) (interrupts : Slice.Interrupts c t s i p r) (pos : 0 < r) :
    (∃ m', Slice.stop c (scDone c) i t m = .ok m' ∧ (m'.process p).actualBudget = r ∧
      m'.history = .stopped i p t false :: .shortened p r :: m.history) ↔
        r < (c.process p).budget := by
  constructor
  · rintro ⟨m', hm', -⟩
    exact h.lt_budget valid interrupts hm'
  · intro hlt
    rw [h.stop_eq valid interrupts, (Process.setRemainingBudget_ok c p m).mpr ⟨pos, hlt, rfl⟩]
    exact ⟨_, rfl, by simp, rfl⟩

end Window

theorem Event.OnTime.interrupted_pos {c : Config} {s : State} {i : SliceId} {p : ProcessId} {r : Int}
    (onTime : OnTime c s .windowTimer) (coherent : s.Coherent c s.frame.currentWin)
    (interrupts : Slice.Interrupts c s.frame.timeout s i p r) : 0 < r := by
  have harmed : (s.slice i).armed = true := by
    rw [coherent.armed_iff, interrupts.running]
    rfl
  have hle : s.frame.timeout ≤ (s.slice i).timeout :=
    onTime.2 i (coherent.running i p interrupts.running) harmed
  have hne := interrupts.nonzero
  rw [interrupts.remaining, Process.durationCastMs_nonneg (by omega)] at hne ⊢
  have hdiv := Int.ediv_nonneg (show 0 ≤ (s.slice i).timeout - s.frame.timeout by omega)
    (show 0 ≤ nsPerMs by decide)
  omega

/-- A window that ends on time stores a whole number of milliseconds left to a BE
process exactly when it is shorter than the process's budget. The next start of
the process is granted what was stored, without a draw; after a start nothing
was stored for since, the next one is granted the budget with a new draw. -/
theorem jittered_remainder {c : Config} {gen : Nat → Nat} {timeout : Option Int}
    {es : List Event} {s : State} (reachable : Event.Reachable c gen timeout es s) :
    (Event.OnTime c s .windowTimer →
      ∀ i p r m, Slice.Interrupts c s.frame.timeout s i p r →
        Window.StopReaches c s.frame.currentWin s.frame.timeout
          (s.setFrame { s.frame with armed := false }) i m →
        ((∃ m', Slice.stop c (Window.scDone c) i s.frame.timeout m = .ok m' ∧
          (m'.process p).actualBudget = r ∧
          m'.history = .stopped i p s.frame.timeout false :: .shortened p r :: m.history) ↔
            r < (c.process p).budget)) ∧
    (∀ i p t b r mid h, .started i p t b :: (mid ++ .shortened p r :: h) <:+ s.history →
      (∀ a ∈ mid, a.remainder p = none) → b = r ∧ ∀ offset, .drawn p offset ∉ mid) ∧
    (∀ i j p t u b d mid h, .started i p t b :: (mid ++ .started j p u d :: h) <:+ s.history →
      (∀ a ∈ mid, a.remainder p = none) →
        ∃ offset rest, mid = .drawn p offset :: rest ∧ b = (c.process p).budget + offset) := by
  have hsound := reachable.sound
  have hledger := reachable.ledger
  refine ⟨fun honTime i p r m hint hreach => ?_, fun i p t b r mid h hx hmid => ?_,
    fun i j p t u b d mid h hx hmid => ?_⟩
  · have hpos := honTime.interrupted_pos hsound.coherent hint
    exact hreach.stored_iff hsound.queues ⟨hint.running, hint.role, hint.remaining, hint.nonzero⟩ hpos
  · have hleft : Action.leftover p (mid ++ .shortened p r :: h) = some r := by
      rw [Action.leftover_append hmid]
      simp [Action.leftover, Action.remainder]
    refine ⟨?_, fun offset hdrawn => ?_⟩
    · rcases hledger.granted i p t b _ hx with hgrant | ⟨hnone, -⟩
      · simpa [hleft] using hgrant.symm
      · simp [hleft] at hnone
    · obtain ⟨before, after, rfl⟩ := List.append_of_mem hdrawn
      have hsuffix : .drawn p offset :: (after ++ .shortened p r :: h) <:+ s.history := by
        refine List.IsSuffix.trans ⟨.started i p t b :: before, ?_⟩ hx
        simp
      have hnone := reachable.drawsFresh p offset _ hsuffix
      rw [Action.leftover_append fun a ha => hmid a (by simp [ha])] at hnone
      simp [Action.leftover, Action.remainder] at hnone
  · have hleft : Action.leftover p (mid ++ .started j p u d :: h) = none := by
      rw [Action.leftover_append hmid]
      simp [Action.leftover, Action.remainder]
    rcases hledger.granted i p t b _ hx with hgrant | ⟨-, offset, older, hdrawn, hb⟩
    · simp [hleft] at hgrant
    · cases mid with
      | nil => simp at hdrawn
      | cons a rest =>
        rw [List.cons_append, List.cons.injEq] at hdrawn
        exact ⟨offset, rest, by rw [hdrawn.1], hb⟩

/-- Drawn as 20 ms, the budget has 15 of them left when the window of 5 ms ends. -/
theorem drawn_remainder_not_stored :
    ¬∀ (c : Config) (gen : Nat → Nat) (timeout : Option Int) (es : List Event) (s : State),
      Event.Reachable c gen timeout es s → Event.OnTime c s .windowTimer →
      ∀ i p r m, Slice.Interrupts c s.frame.timeout s i p r →
        Window.StopReaches c s.frame.currentWin s.frame.timeout
          (s.setFrame { s.frame with armed := false }) i m →
        ∃ m', Slice.stop c (Window.scDone c) i s.frame.timeout m = .ok m' := by
  intro hclaim
  have hrun : ((Event.play .jittered (fun _ _ => True) [.startup 0]
      (State.initial .jittered (fun _ => 20) none)).map fun s =>
        (decide (Event.OnTime .jittered s .windowTimer), (s.slice ⟨0, 0⟩).runningProcess,
          (s.slice ⟨0, 0⟩).runningPartition,
          Process.durationCastMs ((s.slice ⟨0, 0⟩).timeout - s.frame.timeout),
          s.frame.currentWin)) =
      some (true, some ⟨0, 0⟩, some 0, 15, 0) := by decide
  obtain ⟨s, hplay, hs⟩ := Option.map_eq_some_iff.mp hrun
  simp only [Prod.mk.injEq, decide_eq_true_eq] at hs
  obtain ⟨honTime, hrunning, hpartition, hremaining, hwindow⟩ := hs
  have hreach := Event.play_reachable hplay
  have hint : Slice.Interrupts .jittered s.frame.timeout s ⟨0, 0⟩ ⟨0, 0⟩ 15 :=
    ⟨hrunning, hpartition, hremaining.symm, by decide⟩
  have hstops : Window.StopReaches .jittered s.frame.currentWin s.frame.timeout
      (s.setFrame { s.frame with armed := false }) ⟨0, 0⟩ _ :=
    ⟨[], [], by rw [hwindow]; rfl, rfl⟩
  obtain ⟨m', hm'⟩ := hclaim .jittered _ _ _ s hreach honTime _ _ _ _ hint hstops
  have hlt := hstops.lt_budget hreach.sound.queues
    ⟨hint.running, hint.role, hint.remaining, hint.nonzero⟩ hm'
  exact absurd hlt (by decide)

/-- Drawn as 8 ms, it has 3 of them left. -/
theorem jittered_remainder_jittered :
    ∃ s m : State, (s.slice ⟨0, 0⟩).runningProcess = some ⟨0, 0⟩ ∧
      ((∃ m', Slice.stop .jittered (Window.scDone .jittered) ⟨0, 0⟩ s.frame.timeout m = .ok m' ∧
        (m'.process ⟨0, 0⟩).actualBudget = 3 ∧
        m'.history = .stopped ⟨0, 0⟩ ⟨0, 0⟩ s.frame.timeout false :: .shortened ⟨0, 0⟩ 3 ::
          m.history) ↔ 3 < (Config.jittered.process ⟨0, 0⟩).budget) := by
  have hrun : ((Event.play .jittered (fun _ _ => True) [.startup 0]
      (State.initial .jittered (fun _ => 8) none)).map fun s =>
        (decide (Event.OnTime .jittered s .windowTimer), (s.slice ⟨0, 0⟩).runningProcess,
          (s.slice ⟨0, 0⟩).runningPartition,
          Process.durationCastMs ((s.slice ⟨0, 0⟩).timeout - s.frame.timeout),
          s.frame.currentWin)) =
      some (true, some ⟨0, 0⟩, some 0, 3, 0) := by decide
  obtain ⟨s, hplay, hs⟩ := Option.map_eq_some_iff.mp hrun
  simp only [Prod.mk.injEq, decide_eq_true_eq] at hs
  obtain ⟨honTime, hrunning, hpartition, hremaining, hwindow⟩ := hs
  exact ⟨s, _, hrunning, (jittered_remainder (Event.play_reachable hplay)).1 honTime _ _ _ _
    ⟨hrunning, hpartition, hremaining.symm, by decide⟩
    ⟨[], [], by rw [hwindow]; rfl, rfl⟩⟩

end DemosSched
