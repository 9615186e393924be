import DemosSched.BeTimetable

/-! What `MajorFrame::timeout_cb` finds when it has stopped a window: in an undisturbed
run its warning is printed exactly where the budgets of an SC partition do not fit into
the window. -/

namespace DemosSched

open Fallible Relation

/-- The window timer finds SC partitions unfinished once the window is stopped, and
warns. -/
def MajorFrame.overran (c : Config) (s : State) : Bool :=
  match Window.stop c s.frame.currentWin s.frame.timeout s with
  | .ok m => !Window.hasScFinished c m.frame.currentWin m
  | .error _ => false

variable {c : Config} {w : Nat} {u t t₀ : Int} {s s' : State}

theorem MajorFrame.overran_eq (run : Window.stop c s.frame.currentWin s.frame.timeout s = .ok s') :
    overran c s = !Window.hasScFinished c s'.frame.currentWin s' := by
  unfold overran
  rw [run]

namespace State

theorem picked_window (c : Config) (s : State) (i : SliceId) (p : ProcessId) (t : Int) :
    (s.picked c i p t).window = s.window := by
  simp only [picked, launched, granted_window]
  rfl

end State

namespace Window

/-- A BE partition that is started always finds a process: no slice reports its end. -/
theorem startBes_window {scDone : SliceId → Int → State → Except Fault State}
    (zero : c.ZeroJitter) (regular : s.Regular c) (l : List SliceId)
    (run : l.foldlM (fun s j => Slice.startBe c scDone j t s) s = .ok s') :
    s'.Regular c ∧ s'.window = s.window := by
  refine foldlM_keeps (fun m => m.Regular c ∧ m.window = s.window) ?_ ⟨regular, rfl⟩ run
  rintro i - m m' ⟨hm, hwindow⟩ hi
  unfold Slice.startBe at hi
  split at hi
  · rw [Except.ok.injEq] at hi
    exact hi ▸ ⟨hm, hwindow⟩
  · next k hk =>
    obtain ⟨-, rfl⟩ := Slice.startPartition_picked zero hm hi
    refine ⟨(hm.assigned i k false t).picked i t (hm.queues k), ?_⟩
    rw [State.picked_window]
    exact hwindow

theorem scDone_window (zero : c.ZeroJitter) (regular : s.Regular c) {i : SliceId}
    (run : scDone c i t s = .ok s') :
    s'.Regular c ∧ s'.window = (s.counted i.window).window := by
  have hcounted : (s.counted i.window).Regular c :=
    ⟨regular.queues, regular.budgeted, regular.spawned⟩
  rw [scDone, sliceScEndCb_succ] at run
  split at run
  · rw [Except.ok.injEq] at run
    exact run ▸ ⟨hcounted, rfl⟩
  · split at run
    · rw [map_eq_ok] at run
      obtain ⟨m, hfold, rfl⟩ := run
      have hbegun : ((s.counted i.window).record (.beStarted i.window t)).Regular c :=
        ⟨regular.queues, regular.budgeted, regular.spawned⟩
      obtain ⟨hm, hwindow⟩ := startBes_window zero hbegun _ hfold
      exact ⟨⟨hm.queues, hm.budgeted, hm.spawned⟩, hwindow⟩
    · rw [Except.ok.injEq] at run
      exact run ▸ ⟨hcounted, rfl⟩

theorem start_counted (zero : c.ZeroJitter) (regular : s.Regular c)
    (run : start c w t s = .ok s') : (s'.window w).finishedScPartitions ≤ c.sliceCount w := by
  simp only [start, bind_def, bind_eq_ok, pure_def, Except.ok.injEq] at run
  obtain ⟨m, hfold, rfl⟩ := run
  have hall : m.Regular c ∧ (m.window w).finishedScPartitions ≤ (c.sliceIds w).length := by
    refine foldlM_induct (fun done m => m.Regular c ∧
      (m.window w).finishedScPartitions ≤ done.length) ?_
      ⟨⟨regular.queues, regular.budgeted, regular.spawned⟩, by simp⟩ hfold
    rintro done i rest m m' hsplit ⟨hm, hcount⟩ hi
    obtain ⟨rfl, -⟩ := c.mem_sliceIds.mp (show i ∈ c.sliceIds w by simp [hsplit])
    rw [List.length_append, List.length_singleton]
    unfold Slice.startSc at hi
    split at hi
    · obtain ⟨hm', hwindow⟩ := scDone_window zero hm hi
      refine ⟨hm', ?_⟩
      rw [hwindow, State.counted_window, Function.update_self]
      exact Nat.succ_le_succ hcount
    · next k hk =>
      obtain ⟨-, rfl⟩ := Slice.startPartition_picked zero hm hi
      refine ⟨(hm.assigned i k true t).picked i t (c.processCount_pos k), ?_⟩
      rw [State.picked_window]
      exact hcount.trans (Nat.le_succ _)
  rw [← c.length_sliceIds]
  exact hall.2

end Window

def State.Counted (c : Config) (s : State) : Prop :=
  (s.window s.frame.currentWin).finishedScPartitions ≤ c.sliceCount s.frame.currentWin

theorem MajorFrame.start_counted (zero : c.ZeroJitter) (positive : c.PositiveLengths)
    (sound : s.Sound c) (halted : s.Halted) (closed : s.course.stage = .closed)
    (regular : s.Regular c) (run : start c u s = .ok s') : s'.Counted c := by
  simp only [start, bind_def, bind_eq_ok, pure_def, Except.ok.injEq] at run
  obtain ⟨m, hstart, rfl⟩ := run
  obtain ⟨hacts, -⟩ := Window.start_acts zero
    ⟨halted.idle, closed, sound.opened _, sound.queues⟩ regular
    (positive.lt_windowEnd sound.window u) hstart
  have hframe : m.frame = s.frame := hacts.frame
  have hcounted := Window.start_counted zero regular hstart
  rw [← hframe] at hcounted
  exact hcounted

namespace State.Counted

/-- In the BE phase no slice runs its SC partition, so none is counted any more. -/
theorem sliceTimer (h : s.Counted c) (roles : c.SingleRole) (zero : c.ZeroJitter)
    (underway : s.Underway c t₀) {i : SliceId} (step : Event.Step c s (.sliceTimer i) s') :
    s'.Counted c := by
  obtain ⟨henabled, run⟩ := step
  rw [Event.dispatch, Slice.scheduleNext_disarmed] at run
  obtain ⟨⟨k, j⟩, m, hp, -, -⟩ := Slice.scheduleNext_ok c _ run
  have hmember := underway.sound.coherent.running i _ hp
  have howner := (underway.sound.coherent.owner i _ hp).1
  obtain ⟨hwindow, -⟩ := c.mem_sliceIds.mp hmember
  obtain ⟨heffects, -⟩ := Slice.scheduleNext_phase underway.phase underway.sound.queues hmember
    (fun k hk => underway.sound.coherent.held_partition hp hk) run
  unfold State.Counted at *
  rw [heffects.outside.1]
  rcases Slice.scheduleNext_acts zero underway.regular hp howner run with
    ⟨j', -, rfl⟩ | ⟨-, hend⟩
  · rw [State.picked_window]
    exact h
  · split at hend
    · next hsc =>
      have hstopped := (underway.regular.stopped i ⟨k, j⟩ (s.slice i).timeout true).sought
        (CyclicSearch.next_lt (n := c.processCount k) (underway.regular.queues k))
      obtain ⟨-, hcounted⟩ := Window.scDone_window zero hstopped hend
      rw [hcounted, hwindow, State.counted_window, Function.update_self]
      rcases underway.phase with (hphase | ⟨hphase, -⟩) | hphase
      · have hsome : c.sliceCount s.frame.currentWin ≠ 0 := by
          rw [← c.length_sliceIds]
          exact (List.length_pos_of_mem hmember).ne'
        exact hphase.unfinished hsome
      · have hbe := (hphase.alike i _ hp).symm.trans howner
        exact absurd hbe (roles.ne hsc)
      · have hbe := (hphase.alike i _ hp).symm.trans howner
        exact absurd hbe (roles.ne hsc)
    · rw [Except.ok.injEq] at hend
      exact hend ▸ h

theorem windowTimer (zero : c.ZeroJitter) (positive : c.PositiveLengths)
    (underway : s.Underway c t₀) (onTime : Event.OnTime c s .windowTimer)
    (step : Event.Step c s .windowTimer s') : s'.Counted c := by
  obtain ⟨-, m, -, -, -, -, hsound, hhalted, hclosed, hregular, -, hstart⟩ :=
    underway.windowTimer_starts onTime step
  exact MajorFrame.start_counted zero positive hsound hhalted hclosed
    ⟨hregular.queues, hregular.budgeted, hregular.spawned⟩ hstart

theorem startScheduler (zero : c.ZeroJitter) (positive : c.PositiveLengths) {now : Int}
    (fresh : s.Fresh c) (run : DemosScheduler.startScheduler c now s = .ok s')
    (armed : s'.frame.armed = true) : s'.Counted c := by
  unfold DemosScheduler.startScheduler at run
  split at run
  · have hrests := DemosScheduler.initiateShutdown_rests fresh.sound fresh.halted run
    have hunarmed := hrests.unarmed
    simp [armed] at hunarmed
  · simp only [bind_def, bind_eq_ok] at run
    obtain ⟨m, hstart, run⟩ := run
    have hcounted := MajorFrame.start_counted zero positive fresh.sound fresh.halted fresh.closed
      fresh.regular hstart
    split at run <;> rw [pure_def, Except.ok.injEq] at run <;> exact run ▸ hcounted

theorem undisturbed {gen : Nat → Nat} {timeout : Option Int} {es : List Event}
    (zero : c.ZeroJitter) (positive : c.PositiveLengths) (roles : c.SingleRole)
    (run : Run (Event.UndisturbedStep c) (State.initial c gen timeout) es s) :
    s.frame.armed = true → s.Counted c := by
  have hall : s.Stands c ∧ (s.frame.armed = true → s.Counted c) := by
    refine run.invariant (I := fun m => m.Stands c ∧ (m.frame.armed = true → m.Counted c))
      (fun m _ m' h step => ⟨h.1.step zero positive step, ?_⟩)
      ⟨Event.undisturbed_stands zero positive .nil, fun harmed => by simp [State.initial] at harmed⟩
    refine h.1.armed_step (J := State.Counted c)
      (fun _ _ _ fresh run => startScheduler zero positive fresh run)
      (fun t₀ underway timer => ?_) step
    rcases timer with rfl | ⟨i, rfl⟩
    · exact windowTimer zero positive underway step.1 step.2
    · exact (h.2 underway.armed).sliceTimer roles zero underway step.2
  exact hall.2

end State.Counted

/-- Stopped at `t`, slice `i` has used up the budget of the last process of its SC
partition. -/
def State.endsAt (c : Config) (t : Int) (s : State) (i : SliceId) : Bool :=
  match (s.slice i).runningProcess with
  | none => false
  | some p =>
    c.role true i == some p.part &&
      (Process.durationCastMs ((s.slice i).timeout - t) == 0 &&
        (List.range (c.processCount p.part)).all fun m =>
          !Process.isPending ⟨p.part, m⟩ (s.stopped i p t true))

def State.ScApart (c : Config) (s : State) : Prop :=
  ∀ i l p q, i ≠ l → (s.slice i).runningProcess = some p → c.role true i = some p.part →
    (s.slice l).runningProcess = some q → q.part ≠ p.part

def State.SameSc (c : Config) (i : SliceId) (s s' : State) : Prop :=
  s'.slice i = s.slice i ∧ ∀ p, (s.slice i).runningProcess = some p →
    c.role true i = some p.part → ∀ q : ProcessId, q.part = p.part → s'.process q = s.process q

theorem State.SameSc.endsAt {i : SliceId} (h : s.SameSc c i s') :
    s'.endsAt c t i = s.endsAt c t i := by
  unfold State.endsAt
  rw [h.1]
  split
  · rfl
  · next p hp =>
    by_cases hrole : c.role true i = some p.part
    · have hpending : ∀ m, Process.isPending ⟨p.part, m⟩ (s'.stopped i p t true) =
          Process.isPending ⟨p.part, m⟩ (s.stopped i p t true) := by
        intro m
        simp only [Process.isPending, Process.isSpawned, State.stopped_process]
        rw [h.2 p hp hrole p rfl]
        by_cases hm : (⟨p.part, m⟩ : ProcessId) = p
        · rw [hm, Function.update_self, Function.update_self]
        · rw [Function.update_of_ne hm, Function.update_of_ne hm, h.2 p hp hrole ⟨p.part, m⟩ rfl]
      simp only [hpending]
    · have hfalse : (c.role true i == some p.part) = false := by simpa using hrole
      simp only [hfalse, Bool.false_and]

namespace Slice

theorem stop_counted {i : SliceId} (valid : s.QueuesValid c)
    (stopping : (s.window i.window).stopping = true)
    (owner : ∀ p, (s.slice i).runningProcess = some p → (s.slice i).runningPartition = some p.part)
    (run : stop c (Window.scDone c) i t s = .ok s') :
    (s'.window i.window).finishedScPartitions = (s.window i.window).finishedScPartitions +
        (if s.endsAt c t i then 1 else 0) ∧
      ∀ q, (∀ p, (s.slice i).runningProcess = some p → p.part ≠ q.part) →
        s'.process q = s.process q := by
  have hothers : ∀ (mark : Bool) (p q : ProcessId), p.part ≠ q.part →
      (s.stopped i p t mark).process q = s.process q := fun mark p q hne =>
    Function.update_of_ne (fun h => hne (by rw [h])) _ _
  rcases stop_cases c stopping run with
    ⟨hidle, rfl⟩ | ⟨p, k, hp, hk, hused, rfl⟩ | ⟨p, r, hp, rfl, hleft, hrest⟩
  · simp only [State.endsAt, hidle]
    exact ⟨rfl, fun _ _ => rfl⟩
  · obtain rfl : p.part = k := by simpa [owner p hp] using hk
    have hvalid : (((s.stopped i p t true).released c i).partition p.part).currentProc <
        c.processCount p.part := by
      rw [State.released_currentProc]
      exact valid p.part
    unfold spent
    rcases Partition.seekPendingProcess_cases c p.part _ hvalid with
      ⟨j, hj, hpending, hseek⟩ | ⟨hnone, hseek⟩
    · have hends : s.endsAt c t i = false := by
        simp only [State.endsAt, hp, Bool.and_eq_false_iff]
        refine .inr (.inr ?_)
        rw [List.all_eq_false]
        refine ⟨j, List.mem_range.mpr hj, ?_⟩
        have hstill : Process.isPending ⟨p.part, j⟩ (s.stopped i p t true) = true := hpending
        simp [hstill]
      simp only [hseek, hends]
      exact ⟨rfl, fun q hq => hothers true p q (hq p hp)⟩
    · have hends : s.endsAt c t i = (c.role true i == some p.part) := by
        have hall : ((List.range (c.processCount p.part)).all fun m =>
            !Process.isPending ⟨p.part, m⟩ (s.stopped i p t true)) = true := by
          rw [List.all_eq_true]
          intro m hm
          have hdone : Process.isPending ⟨p.part, m⟩ (s.stopped i p t true) = false :=
            hnone m (List.mem_range.mp hm)
          rw [hdone]
          rfl
        simp [State.endsAt, hp, hused, hall]
      have hrole : c.role true i = (c.slice i).sc := rfl
      simp only [hseek, hends, hrole]
      refine ⟨?_, fun q hq => ?_⟩
      · by_cases hsc : (c.slice i).sc = some p.part
        · simp [hsc]
        · simp [hsc]
      · split <;> exact hothers true p q (hq p hp)
  · have hends : s.endsAt c t i = false := by
      simp [State.endsAt, hp, hleft]
    rw [hends]
    rcases hrest with ⟨-, -, -, rfl⟩ | ⟨-, rfl⟩
    · refine ⟨rfl, fun q hq => ?_⟩
      have hne : q ≠ p := fun h => hq p hp (by rw [h])
      simp [hne]
    · exact ⟨rfl, fun q hq => hothers false p q (hq p hp)⟩

end Slice

theorem Window.stop_counted (valid : s.QueuesValid c) (coherent : s.Coherent c w)
    (apart : s.ScApart c) (run : stop c w t s = .ok s') :
    (s'.window w).finishedScPartitions =
      (s.window w).finishedScPartitions + (c.sliceIds w).countP (s.endsAt c t) := by
  simp only [stop, bind_def, bind_eq_ok, pure_def, Except.ok.injEq] at run
  obtain ⟨m, hfold, rfl⟩ := run
  have hall : m.QueuesValid c ∧ (m.window w).stopping = true ∧
      (m.window w).finishedScPartitions =
        (s.window w).finishedScPartitions + (c.sliceIds w).countP (s.endsAt c t) ∧
      ∀ i ∉ c.sliceIds w, s.SameSc c i m := by
    refine foldlM_induct (fun done m => m.QueuesValid c ∧ (m.window w).stopping = true ∧
      (m.window w).finishedScPartitions =
        (s.window w).finishedScPartitions + done.countP (s.endsAt c t) ∧
      ∀ i ∉ done, s.SameSc c i m) ?_ ?_ hfold
    swap
    · exact ⟨valid, by simp, by simp, fun _ _ => ⟨rfl, fun _ _ _ _ _ => rfl⟩⟩
    rintro done i rest m m' hsplit ⟨hvalid, hstopping, hcount, hsame⟩ hi
    have hmember : i ∈ c.sliceIds w := by simp [hsplit]
    obtain ⟨rfl, -⟩ := c.mem_sliceIds.mp hmember
    have hi₀ := hsame i (Config.sliceIds_fresh hsplit)
    obtain ⟨hclosings, hleft⟩ := Slice.stop_left hvalid hmember hstopping hi
    obtain ⟨hcounted, hkept⟩ := Slice.stop_counted hvalid hstopping
      (by rw [hi₀.1]; exact fun p hp => (coherent.owner i p hp).1) hi
    refine ⟨hvalid.closings hclosings, by rw [hleft.stopping]; exact hstopping, ?_, ?_⟩
    · rw [hcounted, hcount, hi₀.endsAt, List.countP_append, List.countP_singleton]
      omega
    · intro l hl
      rw [List.mem_append, not_or, List.mem_singleton] at hl
      obtain ⟨hslice, hprocess⟩ := hsame l hl.1
      refine ⟨?_, fun p hp hrole q hq => ?_⟩
      · rw [hleft.slice, Function.update_of_ne hl.2, hslice]
      · rw [hkept q, hprocess p hp hrole q hq]
        intro r hr
        rw [hi₀.1] at hr
        rw [hq]
        exact apart l i p r hl.2 hp hrole hr
  rw [State.setWindow_window, Function.update_self]
  exact hall.2.2.1

theorem countP_apart {α : Type*} {l : List α} {f g : α → Bool}
    (apart : ∀ a ∈ l, f a = true → g a = false) :
    l.countP f + l.countP g = l.countP fun a => f a || g a := by
  induction l with
  | nil => rfl
  | cons a l ih =>
    have hrest := ih fun b hb => apart b (List.mem_cons_of_mem a hb)
    have hone := apart a List.mem_cons_self
    simp only [List.countP_cons, ← hrest]
    cases hf : f a with
    | false => simp [Nat.add_assoc]
    | true =>
      simp only [hone hf, Bool.true_or, Bool.false_eq_true, if_true, if_false]
      omega

theorem Config.PositiveLengths.le_windowEnd (h : c.PositiveLengths) (w : Nat) (u : Int) :
    u ≤ c.windowEnd w u := by
  by_cases hw : w < c.windows.length
  · exact (h.lt_windowEnd hw u).le
  · have hdefault : (c.window w).length = 0 := by
      rw [Config.window, List.getD_eq_default _ _ (by omega)]
      rfl
    rw [Config.windowEnd, hdefault]
    omega

def State.Punctual (c : Config) (s : State) : Prop :=
  ∀ w u, Action.current s.history = some (w, u) → ∀ i, Action.scEnd i s.history ≤ c.windowEnd w u

namespace State.Punctual

theorem congr (h : s.Punctual c) (current : Action.current s'.history = Action.current s.history)
    (ends : ∀ i, Action.scEnd i s'.history = Action.scEnd i s.history) : s'.Punctual c := by
  intro w u hcurrent i
  rw [ends]
  exact h w u (current ▸ hcurrent) i

theorem stopped (h : s.Punctual c) (inWindow : Action.current s.history = some (w, u))
    (le : t ≤ c.windowEnd w u) (i : SliceId) (p : ProcessId) (mark : Bool) :
    (s.stopped i p t mark).Punctual c := by
  intro v x hcurrent l
  obtain ⟨rfl, rfl⟩ := Action.current_unique inWindow hcurrent
  change (if i = l then t else Action.scEnd l s.history) ≤ _
  split
  · exact le
  · exact h _ _ inWindow l

theorem picked (h : s.Punctual c) (i : SliceId) (p : ProcessId) (t : Int) :
    (s.picked c i p t).Punctual c := by
  refine h.congr (Action.current_picked c s i p t) fun l => ?_
  rcases s.picked_history c i p t with hh | ⟨o, hh⟩ <;> rw [hh] <;> rfl

theorem act (h : s.Punctual c) (inWindow : Action.current s.history = some (w, u))
    (act : Act c w u t s s') : s'.Punctual c := by
  cases act with
  | noted a ha => rcases ha with rfl | rfl | rfl <;> exact h.congr rfl fun _ => rfl
  | @served _ i k member serve =>
    cases serve with
    | begun first =>
      have hassigned : (s.assigned c i k first t).Punctual c := h.congr rfl fun _ => rfl
      exact hassigned.picked i _ t
    | resumed _ _ before => exact (h.stopped inWindow before.le i _ true).picked i _ t
    | drained _ _ before =>
      exact (h.stopped inWindow before.le i _ true).congr rfl fun _ => rfl
    | @cut j r _ _ atEnd =>
      have hshortened : (s.shortened ⟨k, j⟩ r).Punctual c := h.congr rfl fun _ => rfl
      exact (hshortened.stopped inWindow atEnd.le i ⟨k, j⟩ false).congr rfl fun _ => rfl
    | dropped _ _ atEnd =>
      exact (h.stopped inWindow atEnd.le i _ false).congr rfl fun _ => rfl
    | spent _ _ atEnd => exact (h.stopped inWindow atEnd.le i _ true).congr rfl fun _ => rfl
  | _ => exact h.congr rfl fun _ => rfl

theorem move (h : s.Punctual c) (positive : c.PositiveLengths) (move : Move c t₀ s s') :
    s'.Punctual c := by
  cases move with
  | act inWindow _ act => exact h.act inWindow act
  | windowStarted w u =>
    intro v x hcurrent i
    obtain ⟨rfl, rfl⟩ := Prod.mk.inj (Option.some.inj hcurrent)
    exact positive.le_windowEnd w u
  | _ => exact h.congr rfl fun _ => rfl

end State.Punctual

theorem State.ScServing.endsAt_iff {i : SliceId} {k j : Nat} (serving : s.ScServing c k i u j)
    (regular : s.Regular c) (due : c.windowEnd i.window u ≤ (s.slice i).timeout) :
    s.endsAt c (c.windowEnd i.window u) i = true ↔ c.scTotal i ≤ (c.window i.window).length := by
  have htimeout := serving.timeout
  have hlength : (c.window i.window).length ≤ c.offset k (j + 1) := by
    rw [htimeout, Config.windowEnd] at due
    unfold nsPerMs at due
    omega
  have hleft : (s.slice i).timeout - c.windowEnd i.window u =
      (c.offset k (j + 1) - (c.window i.window).length) * nsPerMs := by
    rw [htimeout, Config.windowEnd, Int.sub_mul]
    omega
  have hused : Process.durationCastMs ((s.slice i).timeout - c.windowEnd i.window u) =
      c.offset k (j + 1) - (c.window i.window).length := by
    rw [hleft, durationCastMs_mul_ms (by omega)]
  have hpending : ∀ m < c.processCount k,
      Process.isPending ⟨k, m⟩ (s.stopped i ⟨k, j⟩ (c.windowEnd i.window u) true) =
        decide (j < m) := by
    intro m hm
    have hstopped := serving.pending_stopped (t := c.windowEnd i.window u) regular m hm
    rwa [Nat.zero_add, Nat.mod_eq_of_lt hm] at hstopped
  have hlast : ((List.range (c.processCount k)).all fun m =>
      !Process.isPending ⟨k, m⟩ (s.stopped i ⟨k, j⟩ (c.windowEnd i.window u) true)) = true ↔
        c.processCount k ≤ j + 1 := by
    rw [List.all_eq_true]
    constructor
    · intro hall
      by_contra hlt
      have hnext := hall (j + 1) (List.mem_range.mpr (by omega))
      rw [hpending _ (by omega)] at hnext
      simp at hnext
    · intro hle m hm
      rw [List.mem_range] at hm
      rw [hpending m hm, decide_eq_false (by omega)]
      rfl
  have hends : s.endsAt c (c.windowEnd i.window u) i = true ↔
      c.offset k (j + 1) = (c.window i.window).length ∧ c.processCount k ≤ j + 1 := by
    have hrole := serving.sc
    simp only [State.endsAt, serving.running, hrole, BEq.rfl, Bool.true_and, Bool.and_eq_true,
      hlast, hused, beq_iff_eq]
    exact and_congr_left fun _ => by omega
  have hpos := serving.pos
  rw [hends, Config.scTotal_eq serving.sc]
  constructor
  · rintro ⟨hoffset, hcount⟩
    rw [← hoffset]
    exact Config.offset_le hcount
  · intro hfits
    have hfull : c.offset k (j + 1) ≤ c.offset k (c.processCount k) := Config.offset_le hpos
    refine ⟨by omega, ?_⟩
    by_contra hlt
    have hnext : c.offset k (j + 1 + 1) ≤ c.offset k (c.processCount k) :=
      Config.offset_le (by omega)
    have hbudget := (c.process ⟨k, j + 1⟩).budget_pos
    rw [Config.offset_succ] at hnext
    omega

theorem State.Underway.scPhase (h : s.Underway c t₀)
    (stage : s.course.stage = .running w true) :
    ScPhase c s.frame.currentWin (c.sliceIds s.frame.currentWin)
      (Action.opening s.frame.currentWin) s := by
  rcases h.phase with (hphase | ⟨hphase, -⟩) | hphase
  · exact hphase
  · simp [hphase.stage] at stage
  · simp [hphase.stage] at stage

/-- With one role and one slice a window for each partition, no slice runs a process of the
SC partition of another. -/
theorem State.Underway.scApart (h : s.Underway c t₀) (roles : c.SingleRole)
    (unshared : c.Unshared) : s.ScApart c := by
  intro i l p q hne hp hrole hq hpart
  have hi := h.sound.coherent.running i p hp
  have hl := h.sound.coherent.running l q hq
  have howner := (h.sound.coherent.owner l q hq).1
  rw [hpart] at howner
  have hbe : c.role false l ≠ some p.part := roles.ne hrole
  rcases h.phase with (hphase | ⟨hphase, -⟩) | hphase
  · exact hne (unshared.eq hi hl hrole ((hphase.alike l q hq).2.symm.trans howner))
  · exact hbe ((hphase.alike l q hq).symm.trans howner)
  · exact hbe ((hphase.alike l q hq).symm.trans howner)

theorem BePhase.endsAt {calls : List Action} (h : BePhase c w calls s) (coherent : s.Coherent c w)
    (roles : c.SingleRole) (i : SliceId) : s.endsAt c t i = false := by
  unfold State.endsAt
  split
  · rfl
  · next p hp =>
    have hbe : c.role false i = some p.part :=
      (h.alike i p hp).symm.trans (coherent.owner i p hp).1
    have hsc : c.role true i ≠ some p.part := fun hsc => roles.ne hsc hbe
    have hfalse : (c.role true i == some p.part) = false := by simpa using hsc
    rw [hfalse, Bool.false_and]

section End

variable (timetable : s.OnTimetable c t₀) (underway : s.Underway c t₀)
  (single : ∀ i k, c.role true i = some k → c.ScOnly k)
  (inWindow : Action.current s.history = some (w, u))
  (due : ∀ i, (s.slice i).armed = true → c.windowEnd w u ≤ (s.slice i).timeout)

include timetable underway single inWindow due

/-- As long as SC partitions run, one is done by the end of the window exactly if its
budgets fit. -/
theorem State.done_iff (punctual : s.Punctual c) (positive : c.PositiveLengths)
    (stage : s.course.stage = .running w true)
    {i : SliceId} (member : i ∈ c.sliceIds w) :
    (s.isIdle i || s.endsAt c (c.windowEnd w u) i) = true ↔
      c.scTotal i ≤ (c.window w).length := by
  obtain ⟨rfl, -⟩ := c.mem_sliceIds.mp member
  obtain ⟨hframe, -⟩ := underway.current_eq inWindow
  have hphase := underway.scPhase stage
  cases hrole : c.role true i with
  | none =>
    have hidle : s.isIdle i = true := by
      unfold State.isIdle
      cases hrun : (s.slice i).runningProcess with
      | none => rfl
      | some p =>
        have hpart := (hphase.alike i p hrun).2
        rw [(underway.sound.coherent.owner i p hrun).1, hrole] at hpart
        simp at hpart
    have htotal : c.scTotal i = 0 := by simp [Config.scTotal, hrole]
    have hlength := positive.window (Config.window_lt member)
    rw [hidle, htotal, Bool.true_or]
    exact iff_of_true rfl hlength.le
  | some k =>
    have hentered : s.course.role i = some (k, true) := by
      cases underway.roles with
      | sc _ entered => exact entered i (hframe ▸ member) k hrole
      | be hbe => simp [stage] at hbe
    cases timetable.sc k (single i k hrole) with
    | before _ hnone => simp [inWindow] at hnone
    | waiting v x _ _ _ hstage =>
      rcases hstage with ⟨-, hfresh⟩ | ⟨hbe, -⟩
      · exact absurd hentered (hfresh i)
      · simp [stage] at hbe
    | serving l x j serving =>
      obtain ⟨hl, rfl⟩ := Action.current_unique inWindow serving.inWindow
      obtain rfl := (single i k hrole).single serving.sc hrole hl.symm
      have harmed : (s.slice l).armed = true := by
        rw [underway.sound.coherent.armed_iff, serving.running]
        rfl
      have hbusy : s.isIdle l = false := by simp [State.isIdle, serving.running]
      rw [hbusy, Bool.false_or]
      exact serving.endsAt_iff underway.regular (due l harmed)
    | done l x _ hcurrent sc _ _ ends =>
      obtain ⟨hl, rfl⟩ := Action.current_unique inWindow hcurrent
      obtain rfl := (single i k hrole).single sc hrole hl.symm
      obtain ⟨hidle, hend, -⟩ := ends stage
      have hle := punctual _ _ inWindow l
      rw [hend, Config.windowEnd] at hle
      unfold nsPerMs at hle
      have hrest : s.isIdle l = true := by simp [State.isIdle, hidle]
      rw [hrest, Bool.true_or]
      exact iff_of_true rfl (by omega)
    | ended _ _ _ _ _ closed => simp [stage] at closed

theorem State.starts_all {i : SliceId} (member : i ∈ c.sliceIds w) {k : Nat}
    (role : c.role true i = some k) (fits : c.scTotal i ≤ (c.window w).length) :
    Action.starts k s.history =
      ((List.range (c.processCount k)).map (c.scStart i k u)).reverse := by
  obtain ⟨rfl, -⟩ := c.mem_sliceIds.mp member
  obtain ⟨n, hn⟩ : ∃ n, c.processCount k = n + 1 :=
    Nat.exists_eq_succ_of_ne_zero (c.processCount_pos k).ne'
  have hbudget := (c.process ⟨k, n⟩).budget_pos
  rw [Config.scTotal_eq role, hn, Config.offset_succ] at fits
  rcases timetable.keepsUp single underway inWindow member role with
    hdone | ⟨j, hprefix, hstarts, harmed, htimeout⟩
  · rw [hdone, Config.slicePlan_all u hn.symm (by omega)]
  · have hle := hprefix.length_le
    rw [List.length_map, List.length_range, Config.slicePlan, List.length_map] at hle
    have hcount := List.length_filter_le (fun j => decide (c.offset k j <
      (c.window i.window).length)) (List.range (c.processCount k))
    rw [List.length_range] at hcount
    have hend := due i harmed
    rw [htimeout, Config.windowEnd] at hend
    have hall : n ≤ j := by
      by_contra hlt
      have hnext : c.offset k (j + 1) ≤ c.offset k n := Config.offset_le (by omega)
      unfold nsPerMs at hend
      omega
    rw [hstarts, show j + 1 = c.processCount k by omega]

/-- When a window has been stopped at its end, its SC partitions have finished exactly if
the budgets of each fit into it. -/
theorem Window.stop_finished (punctual : s.Punctual c) (positive : c.PositiveLengths)
    (roles : c.SingleRole) (unshared : c.Unshared) (counted : s.Counted c)
    (run : stop c w (c.windowEnd w u) (s.setFrame { s.frame with armed := false }) = .ok s') :
    hasScFinished c w s' = true ↔ ∀ i ∈ c.sliceIds w, c.scTotal i ≤ (c.window w).length := by
  obtain ⟨rfl, -⟩ := underway.current_eq inWindow
  have hcoherent := underway.sound.coherent
  set s₀ := s.setFrame { s.frame with armed := false } with hs₀
  have hsound : s₀.Sound c := underway.sound.congr rfl rfl rfl rfl (fun _ => id)
    (fun _ => ⟨rfl, rfl, rfl⟩)
    (.inl ⟨underway.started.exitCb, underway.started.completionCb, underway.started.startup⟩)
  have hcount : (s'.window s.frame.currentWin).finishedScPartitions =
      (s.window s.frame.currentWin).finishedScPartitions + (c.sliceIds s.frame.currentWin).countP
        (s.endsAt c (c.windowEnd s.frame.currentWin u)) :=
    stop_counted (s := s₀) underway.sound.queues hsound.coherent
      (underway.scApart roles unshared) run
  have hfinished : hasScFinished c s.frame.currentWin s' = true ↔
      (s.window s.frame.currentWin).finishedScPartitions + (c.sliceIds s.frame.currentWin).countP
        (s.endsAt c (c.windowEnd s.frame.currentWin u)) = c.sliceCount s.frame.currentWin := by
    rw [hasScFinished, hcount, beq_iff_eq]
  have hbe : ∀ calls, BePhase c s.frame.currentWin calls s →
      (hasScFinished c s.frame.currentWin s' = true ↔
        ∀ i ∈ c.sliceIds s.frame.currentWin,
          c.scTotal i ≤ (c.window s.frame.currentWin).length) := by
    intro calls h
    have hnone : (c.sliceIds s.frame.currentWin).countP
        (s.endsAt c (c.windowEnd s.frame.currentWin u)) = 0 := by
      rw [List.countP_eq_zero]
      intro i _
      simp [h.endsAt hcoherent roles i]
    have hle : (s.window s.frame.currentWin).finishedScPartitions ≤
        c.sliceCount s.frame.currentWin := counted
    have hge := h.finished
    refine iff_of_true (hfinished.mpr (by omega)) fun i hi => ?_
    cases timetable.be with
    | before hcurrent => simp [inWindow] at hcurrent
    | sc x y _ stage => simp [h.stage] at stage
    | be x y E hcurrent _ latest lt =>
      obtain ⟨rfl, -⟩ := Action.current_unique inWindow hcurrent
      exact (latest.2 ⟨i, hi, rfl⟩).trans lt.le
    | ended _ _ _ stage => simp [h.stage] at stage
  rcases underway.phase with (hphase | ⟨hphase, -⟩) | hphase
  · have hapart : ∀ i ∈ c.sliceIds s.frame.currentWin, s.isIdle i = true →
        s.endsAt c (c.windowEnd s.frame.currentWin u) i = false := by
      intro i _ hidle
      rw [State.isIdle, Option.isNone_iff_eq_none] at hidle
      simp only [State.endsAt, hidle]
    rw [hfinished, hphase.count, countP_apart hapart, ← c.length_sliceIds, List.countP_eq_length]
    exact forall₂_congr fun i hi =>
      State.done_iff timetable underway single inWindow due punctual positive hphase.stage hi
  · exact hbe _ hphase
  · exact hbe _ hphase

end End

/-- When the window timer of an undisturbed run expires, the run is on its timetable and the
window is stopped at its nominal end. -/
theorem Event.windowTimer_atEnd {gen : Nat → Nat} {timeout : Option Int} {es : List Event}
    (zero : c.ZeroJitter) (positive : c.PositiveLengths)
    (single : ∀ i k, c.role true i = some k → c.ScOnly k)
    (run : Run (Event.UndisturbedStep c) (State.initial c gen timeout) es s)
    (step : Event.UndisturbedStep c s .windowTimer s') :
    ∃ t₀ u m, s.OnTimetable c t₀ ∧ s.Underway c t₀ ∧ s.Punctual c ∧
      Action.current s.history = some (s.frame.currentWin, u) ∧
      (∀ i, (s.slice i).armed = true → c.windowEnd s.frame.currentWin u ≤ (s.slice i).timeout) ∧
      Window.stop c s.frame.currentWin (c.windowEnd s.frame.currentWin u)
        (s.setFrame { s.frame with armed := false }) = .ok m ∧
      MajorFrame.overran c (s.setFrame { s.frame with armed := false }) =
        !Window.hasScFinished c s.frame.currentWin m := by
  obtain ⟨undisturbed, hstep⟩ := step
  have harmed : s.frame.armed = true := hstep.1
  cases Event.undisturbed_stands zero positive run with
  | preparing _ preparing => simp [preparing.unarmed] at harmed
  | down down => simp [down.unarmed] at harmed
  | underway t₀ s₀ fresh moves underway =>
    have hpunctual : s₀.Punctual c := fun w u hcurrent => by simp [fresh.current] at hcurrent
    obtain ⟨-, htimetable, hpunctual⟩ : s.Regular c ∧ s.OnTimetable c t₀ ∧ s.Punctual c :=
      moves.invariant (I := fun m => m.Regular c ∧ m.OnTimetable c t₀ ∧ m.Punctual c)
        (fun _ _ h e => ⟨h.1.move e, h.2.1.move single positive h.1 e, h.2.2.move positive e⟩)
        ⟨fresh.regular, fresh.onTimetable, hpunctual⟩
    obtain ⟨u, m, hcurrent, hstop, hacts, -⟩ := underway.windowTimer_starts undisturbed hstep
    obtain ⟨-, htimeout⟩ := underway.current_eq hcurrent
    have hoverran := MajorFrame.overran_eq
      (s := s.setFrame { s.frame with armed := false }) hstop
    have hwindow : m.frame.currentWin = s.frame.currentWin := by
      rw [hacts.frame]
      rfl
    rw [hwindow] at hoverran
    rw [htimeout] at hstop
    refine ⟨t₀, u, m, htimetable, underway, hpunctual, hcurrent, fun i hi => ?_, hstop, hoverran⟩
    rw [← htimeout]
    exact undisturbed.2 i (underway.sound.coherent.armed i hi) hi

/-- In an undisturbed run the warning is printed at the end of every window into which
the budgets of one of its SC partitions do not fit, and at the end of no other; and an SC
partition whose budgets fit has run all its processes, one after the other and in full. -/
theorem overran_iff {gen : Nat → Nat} {timeout : Option Int} {es : List Event}
    (zero : c.ZeroJitter) (positive : c.PositiveLengths) (roles : c.SingleRole)
    (unshared : c.Unshared)
    (run : Run (Event.UndisturbedStep c) (State.initial c gen timeout) es s)
    (step : Event.UndisturbedStep c s .windowTimer s') :
    ∃ w u, Action.current s.history = some (w, u) ∧
      (MajorFrame.overran c (s.setFrame { s.frame with armed := false }) = true ↔
        ∃ i ∈ c.sliceIds w, (c.window w).length < c.scTotal i) ∧
      ∀ i ∈ c.sliceIds w, ∀ k, c.role true i = some k → c.scTotal i ≤ (c.window w).length →
        Action.starts k s.history =
          ((List.range (c.processCount k)).map (c.scStart i k u)).reverse := by
  have hsingle : ∀ i k, c.role true i = some k → c.ScOnly k :=
    fun _ _ hk => roles.scOnly unshared hk
  have hcounted := State.Counted.undisturbed zero positive roles run step.2.1
  obtain ⟨t₀, u, m, htimetable, hunderway, hpunctual, hcurrent, hdue, hstop, hoverran⟩ :=
    Event.windowTimer_atEnd zero positive hsingle run step
  refine ⟨_, u, hcurrent, ?_, fun i hi k hk hfits =>
    State.starts_all htimetable hunderway hsingle hcurrent hdue hi hk hfits⟩
  have hfinished := Window.stop_finished htimetable hunderway hsingle hcurrent hdue hpunctual
    positive roles unshared hcounted hstop
  rw [hoverran, Bool.not_eq_true', ← Bool.not_eq_true, hfinished]
  push Not
  exact Iff.rfl

theorem overran_iff_shortWindow : ∃ s : State,
    Action.current s.history = some (0, 0) ∧ (s.slice ⟨0, 0⟩).timeout = 5 * nsPerMs ∧
    MajorFrame.overran .shortWindow (s.setFrame { s.frame with armed := false }) = true := by
  have hrun : ((Event.play .shortWindow (fun s e => e.Undisturbed .shortWindow s)
      [.startup 0, .sliceTimer ⟨0, 0⟩] (State.initial .shortWindow (fun _ => 0) none)).bind fun s =>
        (Event.play .shortWindow (fun s e => e.Undisturbed .shortWindow s) [.windowTimer] s).map
          fun _ => ((s.slice ⟨0, 0⟩).timeout, Action.current s.history)) =
      some (5 * nsPerMs, some (0, 0)) := by decide
  obtain ⟨s, hplay, hs⟩ := Option.bind_eq_some_iff.mp hrun
  obtain ⟨s', hlast, hs⟩ := Option.map_eq_some_iff.mp hs
  obtain ⟨htimeout, hcurrent⟩ := Prod.mk.inj hs
  obtain ⟨w, u, hw, hiff, -⟩ := overran_iff (by decide) (by decide) (by decide) (by decide)
    (Event.play_run _ hplay) (Event.play_step _ hlast)
  obtain ⟨rfl, rfl⟩ := Action.current_unique hw hcurrent
  exact ⟨s, hcurrent, htimeout, hiff.mpr ⟨⟨0, 0⟩, by decide, by decide⟩⟩

end DemosSched
