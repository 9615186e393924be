import DemosSched.Steady
import Mathlib.Order.Bounds.Defs

/-! When the BE phase starts. Its start has the nominal time of the timer that was
delivered last, which is the latest end of an SC partition only if the timers that
end them are delivered in the order of their expiry. -/

namespace DemosSched

open Fallible Relation

namespace Action

/-- The nominal end of the SC partition of slice `i`: when its last process was
stopped, or the start of the window when there was none. -/
def scEnd (i : SliceId) : List Action → Int
  | [] => 0
  | .windowStarted _ t :: _ => t
  | .stopped j _ t _ :: h => if j = i then t else scEnd i h
  | _ :: h => scEnd i h

def LatestScEnd (c : Config) (w : Nat) (h : List Action) (t : Int) : Prop :=
  IsGreatest {u | ∃ i ∈ c.sliceIds w, scEnd i h = u} t

theorem latestScEnd_stopped {c : Config} {i : SliceId} {p : ProcessId} {t : Int} {h : List Action}
    (member : i ∈ c.sliceIds i.window) :
    LatestScEnd c i.window (.stopped i p t true :: h) t ↔
      ∀ j ∈ c.sliceIds i.window, j ≠ i → scEnd j h ≤ t := by
  constructor
  · intro hlatest j hj hne
    have hle := hlatest.2 ⟨j, hj, rfl⟩
    simpa [scEnd, Ne.symm hne] using hle
  · intro hle
    refine ⟨⟨i, member, by simp [scEnd]⟩, ?_⟩
    rintro u ⟨j, hj, rfl⟩
    by_cases hne : j = i
    · subst hne
      simp [scEnd]
    · simpa [scEnd, Ne.symm hne] using hle j hj hne

def NoBeStart : Action → Prop
  | .beStarted _ _ => False
  | _ => True

theorem suffix_of_noBeStart {w : Nat} {t : Int} {older newer h : List Action}
    (suffix : .beStarted w t :: older <:+ newer ++ h) (none : ∀ a ∈ newer, NoBeStart a) :
    .beStarted w t :: older <:+ h := by
  induction newer with
  | nil => exact suffix
  | cons a newer ih =>
    rw [List.cons_append] at suffix
    rcases List.suffix_cons_iff.mp suffix with heq | hsuffix
    · obtain ⟨rfl, -⟩ := List.cons.inj heq
      exact absurd (none _ List.mem_cons_self) id
    · exact ih hsuffix fun b hb => none b (List.mem_cons_of_mem _ hb)

end Action

theorem Slice.Selected.grows_drawn {c : Config} {w : Nat} {i : SliceId} {p : ProcessId} {b : Int}
    {s s₁ : State} {ok : Action → Prop} (h : Slice.Selected c w i p b s s₁)
    (drawn : ∀ o, ok (.drawn p o)) : s.Grows ok s₁ := by
  rcases h.drew_or_same with rfl | rfl
  · exact .same rfl
  · exact .one (drawn _) rfl

theorem Effects.noBeStart {c : Config} {w v : Nat} {t : Int} {s s' : State}
    (run : Effects c w t s s') (stage : s.course.stage = .running v false) :
    s'.course.stage = .running v false ∧ s.Grows Action.NoBeStart s' := by
  induction run with
  | refl => exact ⟨stage, .same rfl⟩
  | tail _ last ih =>
    obtain ⟨hstage, hgrows⟩ := ih
    cases last with
    | noted a h opens =>
      cases a with
      | windowStarted _ _ =>
        obtain ⟨-, -, hclosed⟩ := opens
        simp [hstage] at hclosed
      | beStarted _ _ =>
        obtain ⟨-, -, -, hopen, -⟩ := opens
        simp [hstage] at hopen
      | onWindowEnd _ => exact absurd opens id
      | onWindowStart v => exact ⟨hstage, hgrows.cons (a := .onWindowStart v) trivial rfl⟩
      | onScStart v => exact ⟨hstage, hgrows.cons (a := .onScStart v) trivial rfl⟩
      | onBeStart v => exact ⟨hstage, hgrows.cons (a := .onBeStart v) trivial rfl⟩
      | _ => exact absurd h id
    | windowSet | sought => exact ⟨hstage, hgrows.trans (.same rfl)⟩
    | entered first => exact ⟨hstage, hgrows.cons (a := .entered _ _ first t) trivial rfl⟩
    | stopped mark => exact ⟨hstage, hgrows.cons (a := .stopped _ _ t mark) trivial rfl⟩
    | @skipped _ i p selected =>
      have hasked := hgrows.trans (selected.grows_drawn (fun _ => trivial))
      refine ⟨?_, hasked.cons (a := .skipped i p) trivial rfl⟩
      rcases selected.drew_or_same with rfl | rfl <;> exact hstage
    | @launched _ i p b selected =>
      have hasked := hgrows.trans (selected.grows_drawn (fun _ => trivial))
      refine ⟨?_, hasked.cons (a := .started i p t b) trivial rfl⟩
      rcases selected.drew_or_same with rfl | rfl <;> exact hstage

namespace Slice

/-- The timer of slice `i` is about to end the last SC partition of its window. -/
def EndsScPhase (c : Config) (i : SliceId) (s : State) : Prop :=
  (s.window i.window).finishedScPartitions + 1 = c.sliceCount i.window ∧
    ∀ p, (s.slice i).runningProcess = some p →
      ∀ q ∈ c.processIds p.part, q ≠ p → Process.isPending q s = false

/-- No SC partition has ended nominally later than the last one is about to. -/
def InOrder (c : Config) (i : SliceId) (s : State) : Prop :=
  EndsScPhase c i s → ∀ j ∈ c.sliceIds i.window, j ≠ i →
    Action.scEnd j s.history ≤ (s.slice i).timeout

end Slice

/-- Every slice is idle when the one that ends its SC partition is the last. -/
theorem ScSearch.allIdle {c : Config} {w : Nat} {calls : List Action} {i : SliceId} {s : State}
    (h : ScSearch c w (c.sliceIds w) calls i s)
    (full : (s.window w).finishedScPartitions + 1 = c.sliceCount w) : s.AllIdle := by
  refine s.allIdle_of_countP (fun j p hj => (h.alike j p hj).1) ?_
  rw [← h.count, full, c.length_sliceIds]

namespace Window

variable {c : Config}

theorem beStart_records {i : SliceId} {t : Int} {s s' : State} (idle : s.AllIdle)
    (valid : s.QueuesValid c) (opened : (s.window i.window).stopping = false)
    (full : (s.window i.window).finishedScPartitions + 1 = c.sliceCount i.window)
    (run : scDone c i t s = .ok s') :
    ∃ newer, s'.history = newer ++ .beStarted i.window t :: s.history ∧
      ∀ a ∈ newer, Action.NoBeStart a := by
  rw [scDone, sliceScEndCb_succ, if_neg (by simp [opened]), if_pos full, map_eq_ok] at run
  obtain ⟨s₁, hfold, rfl⟩ := run
  have hphase : BePhase c i.window s.course.calls
      ((s.counted i.window).record (.beStarted i.window t)) := beStarted_phase idle full
  have hvalid : ((s.counted i.window).record (.beStarted i.window t)).QueuesValid c := valid
  have hall : Effects c i.window t ((s.counted i.window).record (.beStarted i.window t)) s₁ ∧
      BePhase c i.window s.course.calls s₁ :=
    foldlM_keeps (fun s₂ => Effects c i.window t
        ((s.counted i.window).record (.beStarted i.window t)) s₂ ∧
        BePhase c i.window s.course.calls s₂)
      (fun j hj s₂ s₃ hs h =>
        have hstart := hs.2.startBe (hvalid.effects hs.1) hj h
        ⟨hs.1.trans hstart.1, hstart.2⟩)
      ⟨.refl, hphase⟩ hfold
  obtain ⟨newer, hnewer, hnone⟩ := (hall.1.noBeStart hphase.stage).2
  refine ⟨.onBeStart i.window :: newer, ?_, ?_⟩
  · rw [State.record_history, hnewer]
    rfl
  · rintro a (_ | ⟨_, ha⟩)
    · trivial
    · exact hnone a ha

end Window

namespace Slice

variable {c : Config} {i : SliceId} {p : ProcessId} {t : Int} {s s' : State}

theorem not_endsScPhase {j : Nat} (running : (s.slice i).runningProcess = some p)
    (valid : j < c.processCount p.part)
    (pending : Process.isPending ⟨p.part, j⟩ (s.stopped i p t true) = true) :
    ¬EndsScPhase c i s := by
  have hne : (⟨p.part, j⟩ : ProcessId) ≠ p := by
    rintro e
    rw [e] at pending
    simp [Process.isPending] at pending
  rintro ⟨-, hrest⟩
  have hnot := hrest p running ⟨p.part, j⟩ (c.mem_processIds.mpr ⟨rfl, valid⟩) hne
  simp only [Process.isPending, Process.isSpawned, State.stopped_process,
    Function.update_of_ne hne] at pending hnot
  simp [pending] at hnot

theorem endsScPhase_iff (running : (s.slice i).runningProcess = some p)
    (exhausted : ∀ j < c.processCount p.part,
      Process.isPending ⟨p.part, j⟩ (s.stopped i p t true) = false) :
    EndsScPhase c i s ↔ (s.window i.window).finishedScPartitions + 1 = c.sliceCount i.window := by
  refine ⟨fun h => h.1, fun h => ⟨h, fun q hq => ?_⟩⟩
  rw [running, Option.some.injEq] at hq
  subst hq
  intro q hq hne
  obtain ⟨hpart, hlt⟩ := c.mem_processIds.mp hq
  have hnot := exhausted q.index hlt
  rw [← hpart] at hnot
  simpa [Process.isPending, Process.isSpawned, hne] using hnot

theorem launched_records (c : Config) (s : State) (i : SliceId) (q : ProcessId) (t b : Int) :
    ∃ newer, (∀ a ∈ newer, Action.NoBeStart a) ∧
      ((s.granted c q).launched c i q t b).history = newer ++ s.history := by
  rcases s.granted_history c q with hgrant | ⟨o, hgrant⟩
  · refine ⟨[.started i q t b], by simp [Action.NoBeStart], ?_⟩
    rw [State.launched_history, hgrant]
    rfl
  · refine ⟨[.started i q t b, .drawn q o], by simp [Action.NoBeStart], ?_⟩
    rw [State.launched_history, hgrant]
    rfl

/-- A slice with nothing left to run begins the BE phase if it ends the SC phase. -/
theorem drained_records {j : Nat} (phase : Phase c i.window s) (member : i ∈ c.sliceIds i.window)
    (running : (s.slice i).runningProcess = some p)
    (owner : (s.slice i).runningPartition = some p.part)
    (valid : (s.stopped i p t true).QueuesValid c) (next : j < c.processCount p.part)
    (exhausted : ∀ j < c.processCount p.part,
      Process.isPending ⟨p.part, j⟩ (s.stopped i p t true) = false)
    (run : (if (c.slice i).sc = some p.part then
        Window.scDone c i t ((s.stopped i p t true).sought p.part j)
      else .ok ((s.stopped i p t true).sought p.part j)) = .ok s') :
    ∃ newer, (∀ a ∈ newer, Action.NoBeStart a) ∧
      (EndsScPhase c i s ∧
          s'.history = newer ++ .beStarted i.window t :: .stopped i p t true :: s.history ∨
        ¬EndsScPhase c i s ∧ s'.history = newer ++ .stopped i p t true :: s.history) := by
  have hends := endsScPhase_iff running exhausted
  have hsought := Searched.sought (s := s.stopped i p t true)
    ⟨member, by simp, by simpa using owner⟩ next
  have hvalid := valid.effects (hsought.effects t)
  have hhistory : ((s.stopped i p t true).sought p.part j).history =
      .stopped i p t true :: s.history := rfl
  generalize (s.stopped i p t true).sought p.part j = s₁ at run hsought hvalid hhistory
  have hwindow : s₁.window = s.window := hsought.window
  have hbe : ∀ calls, BePhase c i.window calls s →
      ¬EndsScPhase c i s ∧ s'.history = .stopped i p t true :: s.history := by
    intro calls h
    have hfinished := h.finished
    rw [← hwindow] at hfinished
    refine ⟨fun he => ?_, ?_⟩
    · have hlast := he.1
      rw [← hwindow] at hlast
      omega
    · rw [← hhistory]
      split at run
      · rw [Window.scDone, Window.sliceScEndCb_finished 1 hfinished, Except.ok.injEq] at run
        rw [← run]
        rfl
      · rw [Except.ok.injEq] at run
        rw [run]
  rcases phase with (h | ⟨h, -⟩) | h
  · have hsc : (c.slice i).sc = some p.part := by
      have hrole := (h.alike i p running).2
      rw [owner] at hrole
      simpa [Config.role] using hrole.symm
    have hopened : (s₁.window i.window).stopping = false := by
      rw [hwindow]
      exact h.opened
    rw [if_pos hsc] at run
    by_cases hfull : (s.window i.window).finishedScPartitions + 1 = c.sliceCount i.window
    · have hidle : s₁.AllIdle := by
        intro j
        rw [hsought.slice]
        exact ScSearch.allIdle (h.stopped member running t) hfull j
      obtain ⟨newer, hnewer, hno⟩ := Window.beStart_records hidle hvalid hopened
        (by rw [hwindow]; exact hfull) run
      exact ⟨newer, hno, .inl ⟨hends.mpr hfull, by rw [hnewer, hhistory]⟩⟩
    · rw [Window.scDone, Window.sliceScEndCb_succ, if_neg (by simp [hopened]),
        if_neg (by rw [hwindow]; exact hfull), Except.ok.injEq] at run
      refine ⟨[], by simp, .inr ⟨fun he => hfull (hends.mp he), ?_⟩⟩
      rw [← run, List.nil_append, ← hhistory]
      rfl
  · exact ⟨[], by simp, .inr (hbe _ h)⟩
  · exact ⟨[], by simp, .inr (hbe _ h)⟩

end Slice

namespace Event

variable {c : Config} {gen : Nat → Nat} {timeout : Option Int} {es : List Event} {m m' : State}

theorem sliceTimer_records (reachable : Reachable c gen timeout es m) (zero : c.ZeroJitter)
    {i : SliceId} (step : Step c m (.sliceTimer i) m') : ∃ p newer,
      (∀ a ∈ newer, Action.NoBeStart a) ∧
      (Slice.EndsScPhase c i m ∧ m'.history = newer ++ .beStarted i.window (m.slice i).timeout ::
          .stopped i p (m.slice i).timeout true :: m.history ∨
        ¬Slice.EndsScPhase c i m ∧
          m'.history = newer ++ .stopped i p (m.slice i).timeout true :: m.history) := by
  obtain ⟨-, run⟩ := step
  rw [dispatch, Slice.scheduleNext_disarmed] at run
  obtain ⟨p, k, hp, hk, run⟩ := Slice.scheduleNext_ok c _ run
  have hsound := reachable.sound
  have hphase : Phase c m.frame.currentWin m := by
    rcases hsound.phase with ⟨hhalted, -⟩ | hphase
    · simp [hhalted.idle i] at hp
    · exact hphase
  have hmember := hsound.coherent.running i p hp
  obtain ⟨hw, -⟩ := c.mem_sliceIds.mp hmember
  rw [← hw] at hphase hmember
  have howner := (hsound.coherent.owner i p hp).1
  rw [hk, Option.some.injEq] at howner
  subst howner
  have hstopped : Effect c i.window (m.slice i).timeout m
      (m.stopped i p (m.slice i).timeout true) := .stopped true hmember hp
  have hvalid := hsound.queues.effect hstopped
  rcases Slice.startNext_steady zero hvalid (reachable.budgeted.effect hstopped) run with
    ⟨j, hseek, rfl⟩ | ⟨hnone, hend⟩
  · obtain ⟨-, hj, hpending, -⟩ := CyclicSearch.seek_some (hvalid p.part) hseek
    obtain ⟨newer, hno, hrecords⟩ := Slice.launched_records c _ i ⟨p.part, j⟩ (m.slice i).timeout _
    exact ⟨p, newer, hno, .inr ⟨Slice.not_endsScPhase hp hj hpending, hrecords⟩⟩
  · exact ⟨p, Slice.drained_records hphase hmember hp hk hvalid
      (CyclicSearch.next_lt (hvalid p.part)) hnone hend⟩

end Event

/-- Every BE phase begun since `s` was started at the latest nominal end of an SC
partition of its window. -/
def BeStartsLatest (c : Config) (s s' : State) : Prop :=
  ∀ w t older, .beStarted w t :: older <:+ s'.history → s.history <:+ older →
    Action.LatestScEnd c w older t

theorem beStarted_step {c : Config} {gen : Nat → Nat} {timeout : Option Int} {es : List Event}
    {s m m' : State} {i : SliceId} (reachable : Event.Reachable c gen timeout es m)
    (zero : c.ZeroJitter) (past : s.history <:+ m.history) (step : Event.Step c m (.sliceTimer i) m') :
    s.history <:+ m'.history ∧ ∃ p, ∀ w t older, s.history <:+ older →
      (.beStarted w t :: older <:+ m'.history ↔ .beStarted w t :: older <:+ m.history ∨
        Slice.EndsScPhase c i m ∧ w = i.window ∧ t = (m.slice i).timeout ∧
          older = .stopped i p t true :: m.history) := by
  obtain ⟨p, newer, hnone, hrecords⟩ := Event.sliceTimer_records reachable zero step
  have hstopped : ∀ {w t older}, .beStarted w t :: older <:+
      .stopped i p (m.slice i).timeout true :: m.history →
      .beStarted w t :: older <:+ m.history := by
    intro w t older hsuffix
    rcases List.suffix_cons_iff.mp hsuffix with heq | hold
    · simp at heq
    · exact hold
  rcases hrecords with ⟨hends, hm⟩ | ⟨hnot, hm⟩
  · have hgrown : m.history <:+ m'.history := by
      rw [hm]
      exact ((List.suffix_cons _ _).trans (List.suffix_cons _ _)).trans (List.suffix_append _ _)
    refine ⟨past.trans hgrown, p, fun w t older _ => ⟨fun hbe => ?_, ?_⟩⟩
    · rw [hm] at hbe
      rcases List.suffix_cons_iff.mp (Action.suffix_of_noBeStart hbe hnone) with heq | hold
      · obtain ⟨hfirst, rfl⟩ := List.cons.inj heq
        obtain ⟨rfl, rfl⟩ := Action.beStarted.inj hfirst
        exact .inr ⟨hends, rfl, rfl, rfl⟩
      · exact .inl (hstopped hold)
    · rintro (hold | ⟨-, rfl, rfl, rfl⟩)
      · exact hold.trans hgrown
      · exact hm ▸ List.suffix_append _ _
  · have hgrown : m.history <:+ m'.history := by
      rw [hm]
      exact (List.suffix_cons _ _).trans (List.suffix_append _ _)
    refine ⟨past.trans hgrown, p, fun w t older _ => ⟨fun hbe => ?_, ?_⟩⟩
    · rw [hm] at hbe
      exact .inl (hstopped (Action.suffix_of_noBeStart hbe hnone))
    · rintro (hold | ⟨hends, -⟩)
      · exact hold.trans hgrown
      · exact absurd hends hnot

theorem beStartsLatest_step {c : Config} {gen : Nat → Nat} {timeout : Option Int} {es : List Event}
    {s m m' : State} {i : SliceId} (reachable : Event.Reachable c gen timeout es m)
    (zero : c.ZeroJitter) (past : s.history <:+ m.history) (step : Event.Step c m (.sliceTimer i) m') :
    BeStartsLatest c s m' ↔ BeStartsLatest c s m ∧ Slice.InOrder c i m := by
  have hmember : i ∈ c.sliceIds i.window := by
    have harmed := reachable.sound.coherent.armed i step.1
    rwa [(c.mem_sliceIds.mp harmed).1]
  obtain ⟨-, p, hbegun⟩ := beStarted_step reachable zero past step
  refine ⟨fun hlatest => ⟨fun w t older hbe hs => ?_, fun hends => ?_⟩, fun ⟨hlatest, horder⟩ => ?_⟩
  · exact hlatest w t older ((hbegun w t older hs).mpr (.inl hbe)) hs
  · have hs := past.trans (List.suffix_cons (.stopped i p (m.slice i).timeout true) m.history)
    exact (Action.latestScEnd_stopped hmember).mp
      (hlatest _ _ _ ((hbegun _ _ _ hs).mpr (.inr ⟨hends, rfl, rfl, rfl⟩)) hs)
  · intro w t older hbe hs
    rcases (hbegun w t older hs).mp hbe with hold | ⟨hends, rfl, rfl, rfl⟩
    · exact hlatest w t older hold hs
    · exact (Action.latestScEnd_stopped hmember).mpr (horder hends)

theorem beStartsLatest_refl (c : Config) (s : State) : BeStartsLatest c s s := by
  intro w t older hbe hs
  have hlength := (hbe.trans hs).length_le
  simp at hlength

section Runs

variable {c : Config} {gen : Nat → Nat} {timeout : Option Int} {es : List Event} {s s' : State}
  {is : List SliceId} (reachable : Event.Reachable c gen timeout es s) (zero : c.ZeroJitter)
include reachable

theorem sliceTimers_reachable (run : Run (fun m i m' => Event.Step c m (.sliceTimer i) m') s is s') :
    ∃ es', Event.Reachable c gen timeout es' s' := by
  induction run with
  | nil => exact ⟨es, reachable⟩
  | snoc _ step ih =>
    obtain ⟨es', hreach⟩ := ih
    exact ⟨_, hreach.snoc step⟩

include zero

theorem sliceTimers_history (run : Run (fun m i m' => Event.Step c m (.sliceTimer i) m') s is s') :
    s.history <:+ s'.history := by
  induction run with
  | nil => exact List.suffix_rfl
  | snoc run step ih =>
    obtain ⟨es', hreach⟩ := sliceTimers_reachable reachable run
    exact (beStarted_step hreach zero ih step).1

theorem beStartsLatest_iff
    (run : Run (fun m i m' => Event.Step c m (.sliceTimer i) m') s is s') :
    BeStartsLatest c s s' ↔
      Run (fun m i m' => Slice.InOrder c i m ∧ Event.Step c m (.sliceTimer i) m') s is s' := by
  constructor
  · intro hlatest
    induction run with
    | nil => exact .nil
    | snoc run step ih =>
      obtain ⟨es', hreach⟩ := sliceTimers_reachable reachable run
      have hpast := sliceTimers_history reachable zero run
      obtain ⟨hold, horder⟩ := (beStartsLatest_step hreach zero hpast step).mp hlatest
      exact (ih hold).snoc ⟨horder, step⟩
  · intro hordered
    clear run
    induction hordered with
    | nil => exact beStartsLatest_refl c s
    | snoc hordered step ih =>
      have run := hordered.mono fun _ _ _ h => h.2
      obtain ⟨es', hreach⟩ := sliceTimers_reachable reachable run
      have hpast := sliceTimers_history reachable zero run
      exact (beStartsLatest_step hreach zero hpast step.2).mpr ⟨ih, step.1⟩

end Runs

end DemosSched
