import DemosSched.Completion
import DemosSched.Ledger

/-! Interrupting a BE process. Its remaining time is the difference of two times
that come from different handlers; the checks of `set_remaining_budget` fail
exactly when one of them is too late for the other. -/

namespace DemosSched

open Fallible Relation

/-- The two checks of `set_remaining_budget`. -/
def Fault.OfRemaining : Fault → Prop
  | .remainingNotPositive _ _ | .remainingNotBelowBudget _ _ => True
  | _ => False

/-- The BE process `i` runs, if any, is neither overdue by a millisecond at `t`
nor due a whole budget after it. -/
def Slice.InTime (c : Config) (t : Int) (s : State) (i : SliceId) : Prop :=
  ∀ p, (s.slice i).runningProcess = some p → (s.slice i).runningPartition = (c.slice i).be →
    t < (s.slice i).timeout + nsPerMs ∧ (s.slice i).timeout < t + (c.process p).budget * nsPerMs

namespace Slice

variable {c : Config} {w : Nat}

theorem inTime_congr {t : Int} {s s' : State} {i : SliceId} (h : s'.slice i = s.slice i) :
    InTime c t s' i ↔ InTime c t s i := by
  rw [InTime, InTime, h]

theorem stop_outcome {i : SliceId} {t : Int} {s : State}
    (stopping : (s.window i.window).stopping = true)
    (owner : ∀ p, (s.slice i).runningProcess = some p →
      (s.slice i).runningPartition = some p.part) :
    (InTime c t s i ∧ ∃ s', stop c (Window.scDone c) i t s = .ok s') ∨
    (¬InTime c t s i ∧ ∃ f, f.OfRemaining ∧ stop c (Window.scDone c) i t s = .error f) := by
  cases hrun : (s.slice i).runningProcess with
  | none =>
    refine .inl ⟨fun p hp => ?_, _, stop_idle c _ hrun⟩
    simp [hrun] at hp
  | some p =>
    have hchecks := Process.durationCastMs_checks (d := (s.slice i).timeout - t)
      (c.process p).budget_pos
    by_cases hr : Process.durationCastMs ((s.slice i).timeout - t) = 0
    · refine .inl ⟨fun q hq _ => ?_, _, stop_spent c stopping hrun (owner p hrun) hr⟩
      obtain rfl : p = q := by simpa [hrun] using hq
      have := hchecks.mp (absurd hr)
      omega
    · rw [stop_cut c _ hrun hr]
      by_cases hbe : (s.slice i).runningPartition = (c.slice i).be
      · rw [if_pos hbe]
        have hiff : InTime c t s i ↔
            0 < Process.durationCastMs ((s.slice i).timeout - t) ∧
              Process.durationCastMs ((s.slice i).timeout - t) < (c.process p).budget := by
          constructor
          · intro h
            have := h p hrun hbe
            exact hchecks.mpr (by omega) hr
          · intro h q hq _
            obtain rfl : p = q := by simpa [hrun] using hq
            have := hchecks.mp fun _ => h
            omega
        rw [hiff]
        unfold Process.setRemainingBudget
        by_cases hpos : 0 < Process.durationCastMs ((s.slice i).timeout - t)
        · by_cases hlt : Process.durationCastMs ((s.slice i).timeout - t) < (c.process p).budget
          · exact .inl ⟨⟨hpos, hlt⟩, by simp [hpos, hlt, Except.map]⟩
          · refine .inr ⟨fun h => hlt h.2,
              .remainingNotBelowBudget p (Process.durationCastMs ((s.slice i).timeout - t)),
              trivial, ?_⟩
            simp [hpos, hlt, Except.map]
        · refine .inr ⟨fun h => hpos h.1,
            .remainingNotPositive p (Process.durationCastMs ((s.slice i).timeout - t)),
            trivial, ?_⟩
          simp [hpos, Except.map]
      · exact .inl ⟨fun q _ hq => absurd hq hbe, by simp [hbe, Except.map]⟩

/-- The slices of a window are stopped one after the other; the first that is
not in time fails its check. -/
theorem stops_outcome {t : Int} {l : List SliceId} (nodup : l.Nodup) {s : State}
    (sub : ∀ i ∈ l, i ∈ c.sliceIds w) (stopping : (s.window w).stopping = true)
    (valid : s.QueuesValid c)
    (owner : ∀ i ∈ l, ∀ p, (s.slice i).runningProcess = some p →
      (s.slice i).runningPartition = some p.part) :
    ((∀ i ∈ l, InTime c t s i) ∧
      ∃ s', l.foldlM (fun s i => stop c (Window.scDone c) i t s) s = .ok s') ∨
    ((∃ i ∈ l, ¬InTime c t s i) ∧ ∃ f, f.OfRemaining ∧
      l.foldlM (fun s i => stop c (Window.scDone c) i t s) s = .error f) := by
  induction l generalizing s with
  | nil => exact .inl ⟨by simp, s, rfl⟩
  | cons i l ih =>
    have hmember := sub i (by simp)
    have hw : i.window = w := (c.mem_sliceIds.mp hmember).1
    simp only [List.foldlM_cons, bind_def]
    rcases stop_outcome (c := c) (t := t) (by rw [hw]; exact stopping)
        (owner i (by simp)) with ⟨hin, s₁, hs₁⟩ | ⟨hout, f, hf, hstop⟩
    · obtain ⟨hclosings, hleft⟩ := stop_left valid hmember stopping hs₁
      have hsame : ∀ j ∈ l, s₁.slice j = s.slice j := by
        intro j hj
        have hji : j ≠ i := fun e => (List.nodup_cons.mp nodup).1 (e ▸ hj)
        rw [hleft.slice, Function.update_of_ne hji]
      rw [hs₁, bind_ok]
      rcases ih (List.nodup_cons.mp nodup).2 (fun j hj => sub j (by simp [hj]))
          (by rw [hleft.stopping]; exact stopping) (valid.closings hclosings)
          (fun j hj => by rw [hsame j hj]; exact owner j (by simp [hj])) with
        ⟨hall, hok⟩ | ⟨⟨j, hj, hnot⟩, hfail⟩
      · refine .inl ⟨fun j hj => ?_, hok⟩
        rcases List.mem_cons.mp hj with rfl | hj
        · exact hin
        · exact (inTime_congr (hsame j hj)).mp (hall j hj)
      · refine .inr ⟨⟨j, by simp [hj], fun h => hnot ?_⟩, hfail⟩
        exact (inTime_congr (hsame j hj)).mpr h
    · exact .inr ⟨⟨i, by simp, hout⟩, f, hf, by rw [hstop, bind_error]⟩

end Slice

theorem Window.stop_outcome {c : Config} {t : Int} {s : State} (h : s.Sound c) :
    ((∀ i, Slice.InTime c t s i) ∧ ∃ s', stop c s.frame.currentWin t s = .ok s') ∨
    ((∃ i, ¬Slice.InTime c t s i) ∧
      ∃ f, f.OfRemaining ∧ stop c s.frame.currentWin t s = .error f) := by
  set s₀ := (s.record (.onWindowEnd s.frame.currentWin)).setWindow s.frame.currentWin
    { s.window s.frame.currentWin with stopping := true }
  have hstop : stop c s.frame.currentWin t s = ((c.sliceIds s.frame.currentWin).foldlM
      (fun s i => Slice.stop c (scDone c) i t s) s₀).bind fun s =>
        .ok (s.setWindow _ { s.window _ with stopping := false }) := rfl
  have hin : ∀ i, Slice.InTime c t s₀ i ↔ Slice.InTime c t s i := fun i =>
    Slice.inTime_congr rfl
  rcases Slice.stops_outcome (c := c) (t := t) (c.sliceIds_nodup s.frame.currentWin)
      (fun _ h => h) (s := s₀) (by simp [s₀]) h.queues
      (fun i _ p hp => (h.coherent.owner i p hp).1) with
    ⟨hall, s', hs'⟩ | ⟨⟨i, -, hnot⟩, f, hf, hfold⟩
  · refine .inl ⟨fun i p hp hbe => ?_, by rw [hstop, hs']; exact ⟨_, rfl⟩⟩
    exact (hin i).mp (hall i (h.coherent.running i p hp)) p hp hbe
  · exact .inr ⟨⟨i, fun h => hnot ((hin i).mpr h)⟩, f, hf, by rw [hstop, hfold]; rfl⟩

namespace Event

variable {c : Config} {s : State}

def ChecksPass (c : Config) (s : State) (e : Event) : Prop :=
  ∀ f, e.dispatch c s = .error f → ¬f.OfRemaining

theorem checksPass_ok {e : Event} (h : ∃ s', e.dispatch c s = .ok s') : ChecksPass c s e := by
  obtain ⟨s', hs'⟩ := h
  intro f hf
  simp [hs'] at hf

/-- A handler that stops the window and then cannot fail passes the checks
exactly when every slice is in time. -/
theorem checksPass_stop {e : Event} {t : Int} {m : State} {rest : State → Except Fault State}
    (h : m.Sound c)
    (dispatch : e.dispatch c s = (Window.stop c m.frame.currentWin t m).bind rest)
    (total : ∀ m', Window.stop c m.frame.currentWin t m = .ok m' → ∃ s', rest m' = .ok s') :
    ChecksPass c s e ↔ ∀ i, Slice.InTime c t m i := by
  rcases Window.stop_outcome (t := t) h with ⟨hin, m', hm'⟩ | ⟨⟨i, hi⟩, f, hf, hfail⟩
  · refine iff_of_true (checksPass_ok ?_) hin
    rw [dispatch, hm', bind_ok]
    exact total m' hm'
  · refine iff_of_false (fun hpass => hpass f ?_ hf) fun hin => hi (hin i)
    rw [dispatch, hfail, bind_error]

theorem lastExit_dispatch {p : ProcessId} {now : Int} (started : s.Started)
    (valid : c.ValidProcess p)
    (empty : ∀ k < c.partitions.length, ((ended c p s).partition k).empty = true) :
    (exit p now).dispatch c s = (Window.stop c s.frame.currentWin now
      ((ended c p s).setFrame { s.frame with armed := false })).bind fun m =>
        .ok ((m.setScheduler { m.scheduler with loopBroken := true }).record .loopBroken) := by
  have hall : ((List.range c.partitions.length).all fun k =>
      ((ended c p s).partition k).empty) = true := by
    simpa using empty
  rw [dispatch_exit started.exitCb, empty p.part valid.1]
  simp only [PartitionManager.processExitCb, Bool.not_true, Bool.false_eq_true, if_false, hall,
    if_true]
  rfl

theorem otherExit_dispatch {p : ProcessId} {now : Int} (started : s.Started)
    (nonempty : ¬∀ k < c.partitions.length, ((ended c p s).partition k).empty = true) :
    (exit p now).dispatch c s = .ok (ended c p s) := by
  have hall : ¬((List.range c.partitions.length).all fun k =>
      ((ended c p s).partition k).empty) = true := by
    simpa using nonempty
  rw [dispatch_exit started.exitCb]
  unfold PartitionManager.processExitCb
  rw [if_neg hall, ite_self]

theorem windowTimer_rest_total {m' : State} (sound : s.Sound c) (started : s.Started)
    (budgeted : s.Budgeted c)
    (run : Window.stop c s.frame.currentWin s.frame.timeout
      (s.setFrame { s.frame with armed := false }) = .ok m') :
    ∃ s', MajorFrame.start c m'.frame.timeout (MajorFrame.moveToNextWindow c m') = .ok s' := by
  have hm := sound.disarmed
  obtain ⟨-, hsound, hhalted, hclosed, hkeeps⟩ := MajorFrame.stopWindow_sound hm run
  obtain ⟨hclosings, -⟩ := Window.stop_halted hm.queues hm.coherent.toWithin run
  have hbudgeted : m'.Budgeted c := State.Budgeted.closings
    (s := s.setFrame { s.frame with armed := false }) budgeted hclosings
  exact MajorFrame.start_total _
    (MajorFrame.moveToNextWindow_sound hsound hhalted hclosed
      (hkeeps (started.framed _)))
    (hhalted.congr rfl fun _ => rfl) fun p => hbudgeted p

theorem sliceTimer_total {i : SliceId} (sound : s.Sound c) (budgeted : s.Budgeted c)
    (enabled : (sliceTimer i).Enabled c s) : ∃ s', (sliceTimer i).dispatch c s = .ok s' := by
  simp only [Enabled] at enabled
  rw [sound.coherent.armed_iff, Option.isSome_iff_exists] at enabled
  obtain ⟨p, hp⟩ := enabled
  have hphase := sound.phase.resolve_left fun hhalted => by simp [hhalted.1.idle i] at hp
  obtain ⟨s', hs'⟩ := Slice.scheduleNext_total (s.slice i).timeout hphase sound.queues budgeted
    sound.coherent hp
  exact ⟨s', by rw [dispatch, Slice.scheduleNext_disarmed, hs']⟩

theorem StopCall.unique {e : Event} {t t' : Int} {m m' : State} (call : StopCall c s e t m)
    (call' : StopCall c s e t' m') : t = t' ∧ m = m' := by
  cases call <;> cases call' <;> exact ⟨rfl, rfl⟩

theorem checksPass_call {e : Event} {t : Int} {m : State} {rest : State → Except Fault State}
    (sound : s.Sound c) (started : s.Started) (call : StopCall c s e t m)
    (dispatch : e.dispatch c s = (Window.stop c m.frame.currentWin t m).bind rest)
    (total : ∀ m', Window.stop c m.frame.currentWin t m = .ok m' → ∃ s', rest m' = .ok s') :
    ChecksPass c s e ↔ ∀ t m, StopCall c s e t m → ∀ i, Slice.InTime c t m i := by
  rw [checksPass_stop (call.sound_of sound started) dispatch total]
  constructor
  · intro hin t' m' call'
    obtain ⟨rfl, rfl⟩ := call.unique call'
    exact hin
  · intro hin
    exact hin t m call

theorem checksPass_completion {p : ProcessId} {now : Int} (sound : s.Sound c) (started : s.Started)
    (budgeted : s.Budgeted c) : ChecksPass c s (.completion p now) := by
  intro f hf
  rw [Completion.dispatch_completion] at hf
  cases hcb : (s.partition p.part).completionCb with
  | unset =>
    rw [hcb, Except.error.injEq] at hf
    exact hf ▸ id
  | ignore => simp [hcb] at hf
  | processInit => exact absurd hcb (started.completionCb _)
  | slice i =>
    rw [hcb] at hf
    simp only at hf
    cases hrun : (s.slice i).runningProcess with
    | none =>
      have hstop : Slice.stopCurrentProcess i now true (Process.signalled p s) =
          .error (.noRunningProcess i) := by
        have hrun' : ((Process.signalled p s).slice i).runningProcess = none := hrun
        rw [Slice.stopCurrentProcess, hrun']
      rw [Slice.scheduleNext, hstop, bind_def, bind_error, Except.error.injEq] at hf
      exact hf ▸ id
    | some q =>
      have hsound := Completion.signalled_sound sound p
      have hphase := hsound.phase.resolve_left fun hhalted => by
        have hnone : (s.slice i).runningProcess = none := hhalted.1.idle i
        simp [hrun] at hnone
      obtain ⟨s', hs'⟩ := Slice.scheduleNext_total now hphase hsound.queues
        (State.Budgeted.setBudget budgeted (budgeted p)) hsound.coherent hrun
      simp [hs'] at hf

/-- The checks pass exactly when no call of `Window::stop` comes too late or too
early for a BE process. -/
theorem checksPass_iff {e : Event} (sound : s.Sound c) (started : s.Started)
    (budgeted : s.Budgeted c) (enabled : e.Enabled c s) :
    ChecksPass c s e ↔ ∀ t m, StopCall c s e t m → ∀ i, Slice.InTime c t m i := by
  cases e with
  | startup now =>
    simp only [Enabled, started.startup] at enabled
    simp at enabled
  | windowTimer =>
    exact checksPass_call sound started .windowTimer (dispatch_windowTimer s)
      fun m => @windowTimer_rest_total c s m sound started budgeted
  | sliceTimer i =>
    exact iff_of_true (checksPass_ok (sliceTimer_total sound budgeted enabled)) (by rintro t m ⟨⟩)
  | completion p now =>
    exact iff_of_true (checksPass_completion sound started budgeted) (by rintro t m ⟨⟩)
  | exit p now =>
    by_cases hempty : ∀ k < c.partitions.length, ((ended c p s).partition k).empty = true
    · exact checksPass_call sound started (.lastExit hempty)
        (lastExit_dispatch started enabled.1 hempty) fun _ _ => ⟨_, rfl⟩
    · refine iff_of_true (checksPass_ok ⟨_, otherExit_dispatch started hempty⟩) ?_
      intro t m hcall
      cases hcall with
      | lastExit hall => exact absurd hall hempty
  | signal now =>
    have hdispatch : (signal now).dispatch c s = (Window.stop c s.frame.currentWin now
        (s.setFrame { s.frame with armed := false })).bind fun m =>
          .ok ((PartitionManager.killAll c m).record .shutdown) := rfl
    exact checksPass_call sound started .signal hdispatch fun _ _ => ⟨_, rfl⟩
  | userTimeout now =>
    have hdispatch : (userTimeout now).dispatch c s = (Window.stop c s.frame.currentWin now
        ((s.setScheduler { s.scheduler with timeoutArmed := false }).setFrame
          { s.frame with armed := false })).bind fun m =>
          .ok ((PartitionManager.killAll c m).record .shutdown) := rfl
    exact checksPass_call sound started .userTimeout hdispatch fun _ _ => ⟨_, rfl⟩

theorem StopCall.handled {e : Event} {t : Int} {m s' : State} (call : StopCall c s e t m)
    (sound : s.Sound c) (started : s.Started) (step : Step c s e s') :
    ∃ m', Window.stop c m.frame.currentWin t m = .ok m' ∧ Turns c (fun _ => True) m' s' := by
  have hm := call.sound_of sound started
  have hmstarted : m.Started := by
    cases call with
    | windowTimer | signal | userTimeout =>
      exact ⟨started.exitCb, started.completionCb, started.startup⟩
    | @lastExit p now empty =>
      refine ⟨started.exitCb, fun k => ?_, started.startup⟩
      rw [State.setFrame_partition, (ended_partition p s k).2.1]
      exact started.completionCb k
  obtain ⟨henabled, run⟩ := step
  cases call with
  | windowTimer =>
    rw [dispatch_windowTimer, bind_eq_ok] at run
    obtain ⟨m', hm', hstart⟩ := run
    obtain ⟨-, hsound, hhalted, hclosed, hkeeps⟩ := MajorFrame.stopWindow_sound hm hm'
    have hstarted := hkeeps hmstarted
    obtain ⟨hchanges, -⟩ := MajorFrame.start_sound
      (MajorFrame.moveToNextWindow_sound hsound hhalted hclosed hstarted)
      (hhalted.congr rfl fun _ => rfl) hclosed
      ⟨hstarted.exitCb, hstarted.completionCb, hstarted.startup⟩ hstart
    exact ⟨m', hm', .head (.change (.moved hhalted hclosed)) hchanges.turns.of_unheard⟩
  | lastExit hempty =>
    rw [lastExit_dispatch started henabled.1 hempty, bind_eq_ok] at run
    obtain ⟨m', hm', hrest⟩ := run
    rw [Except.ok.injEq] at hrest
    exact ⟨m', hm', hrest ▸ .single (.change (.loopBroken trivial))⟩
  | signal | userTimeout =>
    change Except.bind (Window.stop _ _ _ _) _ = _ at run
    rw [bind_eq_ok] at run
    obtain ⟨m', hm', hrest⟩ := run
    rw [pure_def, Except.ok.injEq] at hrest
    exact ⟨m', hm', hrest ▸ (PartitionManager.killAll_turns m').1.of_unheard.tail
      (.noted .shutdown (.inr rfl))⟩

end Event

structure Slice.Interrupts (c : Config) (t : Int) (s : State) (i : SliceId) (p : ProcessId)
    (r : Int) : Prop where
  running : (s.slice i).runningProcess = some p
  role : (s.slice i).runningPartition = (c.slice i).be
  remaining : r = Process.durationCastMs ((s.slice i).timeout - t)
  nonzero : r ≠ 0

namespace Slice.Interrupts

variable {c : Config} {t r : Int} {s s' : State} {i : SliceId} {p : ProcessId}

/-- A remainder that passes the checks is positive, shorter than the budget and
no longer than the time that was left. -/
theorem bounds (h : Interrupts c t s i p r) (inTime : InTime c t s i) :
    0 < r ∧ r < (c.process p).budget ∧ r * nsPerMs ≤ (s.slice i).timeout - t := by
  have hbounds := inTime p h.running h.role
  have hchecks := (Process.durationCastMs_checks (c.process p).budget_pos).mpr
    (show -nsPerMs < (s.slice i).timeout - t ∧
      (s.slice i).timeout - t < (c.process p).budget * nsPerMs by omega)
  rw [h.remaining]
  have hne : Process.durationCastMs ((s.slice i).timeout - t) ≠ 0 := h.remaining ▸ h.nonzero
  refine ⟨(hchecks hne).1, (hchecks hne).2, Process.durationCastMs_le ?_⟩
  by_contra hneg
  have := (hchecks hne).1
  rw [Process.durationCastMs_neg (by omega)] at this
  unfold nsPerMs at this
  omega

theorem stored (h : Interrupts c t s i p r) (stopping : (s.window i.window).stopping = true)
    (run : Slice.stop c (Window.scDone c) i t s = .ok s') :
    ∃ older, .shortened p r :: older <:+ s'.history := by
  have hrun := h.running
  have hnonzero := h.nonzero
  rw [h.remaining] at hnonzero
  rcases stop_cases c stopping run with
    ⟨hidle, -⟩ | ⟨-, -, -, -, hzero, -⟩ | ⟨q, d, hq, rfl, -, ⟨-, -, -, rfl⟩ | ⟨hother, -⟩⟩
  · simp [hrun] at hidle
  · exact absurd hzero hnonzero
  · obtain rfl : p = q := by simpa [hrun] using hq
    rw [h.remaining]
    exact ⟨s.history, List.suffix_cons _ _⟩
  · exact absurd h.role hother

theorem window_stored (h : Interrupts c t s i p r) (sound : s.Sound c)
    (run : Window.stop c s.frame.currentWin t s = .ok s') :
    ∃ older, .shortened p r :: older <:+ s'.history := by
  have hmember := sound.coherent.running i p h.running
  simp only [Window.stop, bind_def, bind_eq_ok, pure_def, Except.ok.injEq] at run
  obtain ⟨s₁, hfold, rfl⟩ := run
  have hall : (∀ j ∉ c.sliceIds s.frame.currentWin, s₁.slice j = s.slice j) ∧
      (s₁.window s.frame.currentWin).stopping = true ∧ s₁.QueuesValid c ∧
      (i ∈ c.sliceIds s.frame.currentWin →
        ∃ older, .shortened p r :: older <:+ s₁.history) := by
    refine foldlM_induct (fun done s₂ => (∀ j ∉ done, s₂.slice j = s.slice j) ∧
      (s₂.window s.frame.currentWin).stopping = true ∧ s₂.QueuesValid c ∧
      (i ∈ done → ∃ older, .shortened p r :: older <:+ s₂.history)) ?_
      ⟨fun _ _ => rfl, by simp, sound.queues, by simp⟩ hfold
    rintro done j rest s₂ s₃ hsplit ⟨hsame, hstopping, hvalid, hstored⟩ hj
    have hjm : j ∈ c.sliceIds s.frame.currentWin := by simp [hsplit]
    obtain ⟨hclosings, hleft⟩ := Slice.stop_left hvalid hjm hstopping hj
    refine ⟨fun l hl => ?_, by rw [hleft.stopping]; exact hstopping, hvalid.closings hclosings,
      fun hi => ?_⟩
    · rw [List.mem_append, not_or, List.mem_singleton] at hl
      rw [hleft.slice, Function.update_of_ne hl.2, hsame l hl.1]
    · by_cases hdone : i ∈ done
      · obtain ⟨older, holder⟩ := hstored hdone
        exact ⟨older, holder.trans hclosings.history⟩
      · obtain rfl : i = j := by simpa [hdone] using hi
        have hhere : Interrupts c t s₂ i p r :=
          ⟨by rw [hsame i hdone]; exact h.running, by rw [hsame i hdone]; exact h.role,
            by rw [hsame i hdone]; exact h.remaining, h.nonzero⟩
        exact hhere.stored (by rw [(c.mem_sliceIds.mp hjm).1]; exact hstopping) hj
  exact hall.2.2.2 hmember

end Slice.Interrupts

/-- Once the initialization is over, an event handled in any reachable state
passes the checks of `set_remaining_budget` exactly when every call of
`Window::stop` it makes finds the BE processes in time. A process that is
interrupted then keeps a positive remainder that fits into the time it had left,
and a remainder is what the next start of its process grants. -/
theorem remaining_budget {c : Config} {gen : Nat → Nat} {timeout : Option Int}
    {es : List Event} {s : State} (reachable : Event.Reachable c gen timeout es s)
    (started : s.Started) {e : Event} (enabled : e.Enabled c s) :
    (Event.ChecksPass c s e ↔
      ∀ t m, Event.StopCall c s e t m → ∀ i, Slice.InTime c t m i) ∧
    (∀ t m s', Event.StopCall c s e t m → e.dispatch c s = .ok s' →
      ∀ i p r, Slice.Interrupts c t m i p r →
        0 < r ∧ r < (c.process p).budget ∧ r * nsPerMs ≤ (m.slice i).timeout - t ∧
        ∃ h, .shortened p r :: h <:+ s'.history) ∧
    (∀ i p t b h r, .started i p t b :: h <:+ s.history → Action.leftover p h = some r →
      b = r ∧ 0 < b ∧ b < (c.process p).budget) := by
  have hsound := reachable.sound
  have hiff := Event.checksPass_iff hsound started reachable.budgeted enabled
  refine ⟨hiff, fun t m s' hcall hrun i p r hint => ?_, fun i p t b h r hstart hleft => ?_⟩
  · have hpass : Event.ChecksPass c s e := Event.checksPass_ok ⟨s', hrun⟩
    obtain ⟨hpos, hlt, hle⟩ := hint.bounds (hiff.mp hpass t m hcall i)
    obtain ⟨m', hm', hturns⟩ := hcall.handled hsound started ⟨enabled, hrun⟩
    obtain ⟨older, holder⟩ := hint.window_stored (hcall.sound_of hsound started) hm'
    exact ⟨hpos, hlt, hle, older, holder.trans hturns.history⟩
  · have hledger := reachable.ledger
    rcases hledger.granted i p t b h hstart with hgrant | ⟨hnone, -⟩
    · obtain rfl : r = b := by simpa [hleft] using hgrant
      have holder : h <:+ s.history := (List.suffix_cons _ _).trans hstart
      exact ⟨rfl, hledger.bounds holder hleft⟩
    · simp [hleft] at hnone

/-- The BE process of the second slice is due at 7 ms; the window timer of 10 ms
is handled first. -/
theorem late_window_fails_check :
    ¬∀ c : Config, c.ZeroJitter → ∀ (gen : Nat → Nat) (timeout : Option Int) (es : List Event)
      (s : State) (e : Event), Event.Reachable c gen timeout es s → s.Started →
      e.Enabled c s → Event.ChecksPass c s e := by
  intro hclaim
  have hrun : ((Event.play .twoSlices (fun _ _ => True)
      [.startup 0, .sliceTimer ⟨0, 1⟩, .sliceTimer ⟨0, 0⟩]
      (State.initial .twoSlices (fun _ => 0) none)).map fun s =>
        (s.frame.armed, (Event.windowTimer.dispatch .twoSlices s).toOption.isSome,
          (Event.windowTimer.dispatch .twoSlices s).casesOn (motive := fun _ => Option Fault)
            some fun _ => none)) =
      some (true, false, some (.remainingNotPositive ⟨2, 0⟩ (-3))) := by decide
  obtain ⟨s, hplay, hs⟩ := Option.map_eq_some_iff.mp hrun
  simp only [Prod.mk.injEq] at hs
  obtain ⟨harmed, -, hfault⟩ := hs
  have hreach := Event.play_reachable hplay
  have hpass := hclaim .twoSlices (by decide) _ _ _ s .windowTimer hreach
    (hreach.started_of_armed harmed) harmed
  cases hd : Event.windowTimer.dispatch .twoSlices s with
  | ok s' => simp [hd] at hfault
  | error f =>
    rw [hd, Option.some.injEq] at hfault
    exact hpass f hd (hfault ▸ trivial)

/-- A BE process that the window timer interrupts 2 ms before its end is granted these
2 ms in the next window. -/
theorem remaining_budget_twoBes : ∃ s s' : State,
    Event.ChecksPass .twoBes s .windowTimer ∧
    (∀ t m, Event.StopCall .twoBes s .windowTimer t m → ∀ i, Slice.InTime .twoBes t m i) ∧
    Event.windowTimer.dispatch .twoBes s = .ok s' ∧
    (∃ h, .shortened ⟨0, 1⟩ 2 :: h <:+ s'.history) ∧
    ∃ h, .started ⟨0, 0⟩ ⟨0, 1⟩ (5 * nsPerMs) 2 :: h <:+ s'.history ∧
      Action.leftover ⟨0, 1⟩ h = some 2 ∧ 2 < (Config.twoBes.process ⟨0, 1⟩).budget := by
  have hbefore : ((Event.play .twoBes (fun _ _ => True) [.startup 0, .sliceTimer ⟨0, 0⟩]
      (State.initial .twoBes (fun _ => 0) none)).map fun s =>
        (s.frame.armed, s.frame.timeout, (s.slice ⟨0, 0⟩).runningProcess,
          (s.slice ⟨0, 0⟩).runningPartition, (s.slice ⟨0, 0⟩).timeout)) =
      some (true, 5 * nsPerMs, some ⟨0, 1⟩, some 0, 7 * nsPerMs) := by
    decide
  have hafter : ((Event.play .twoBes (fun _ _ => True) [.startup 0, .sliceTimer ⟨0, 0⟩]
      (State.initial .twoBes (fun _ => 0) none)).bind fun s =>
        (Event.windowTimer.dispatch .twoBes s).toOption.map fun s' =>
          (s'.frame.armed, (s'.history.drop 4).head?,
            Action.leftover ⟨0, 1⟩ (s'.history.drop 5))) =
      some (true, some (.started ⟨0, 0⟩ ⟨0, 1⟩ (5 * nsPerMs) 2), some 2) := by
    decide
  simp only [Option.bind_eq_some_iff, Option.map_eq_some_iff, toOption_eq_some,
    Prod.mk.injEq] at hbefore hafter
  obtain ⟨s, hplay, harmed, htimeout, hrunning, hrole, hdue⟩ := hbefore
  obtain ⟨_, hplay', s', hdispatch, harmed', hhead, hleft⟩ := hafter
  cases hplay.symm.trans hplay'
  have hreach := Event.play_reachable hplay
  have hreach' : Event.Reachable .twoBes (fun _ => 0) none _ s' :=
    hreach.snoc (show Event.Step .twoBes s .windowTimer s' from ⟨harmed, hdispatch⟩)
  have hspec := remaining_budget hreach (hreach.started_of_armed harmed) (e := .windowTimer) harmed
  have hpass := Event.checksPass_ok ⟨s', hdispatch⟩
  have hstart : .started ⟨0, 0⟩ ⟨0, 1⟩ (5 * nsPerMs) 2 :: s'.history.drop 5 <:+ s'.history := by
    have hdrop := List.drop_suffix 4 s'.history
    rwa [← List.cons_head?_tail hhead, List.tail_drop] at hdrop
  refine ⟨s, s', hpass, hspec.1.mp hpass, hdispatch, ?_, _, hstart, hleft, ?_⟩
  · have hinterrupts : Slice.Interrupts .twoBes s.frame.timeout
        (s.setFrame { s.frame with armed := false }) ⟨0, 0⟩ ⟨0, 1⟩ 2 := by
      refine ⟨hrunning, hrole, ?_, by decide⟩
      rw [htimeout, State.setFrame_slice, hdue]
      decide
    exact (hspec.2.1 _ _ s' .windowTimer hdispatch _ _ _ hinterrupts).2.2.2
  · exact ((remaining_budget hreach' (hreach'.started_of_armed harmed') (e := .windowTimer)
      harmed').2.2 _ _ _ _ _ _ hstart hleft).2.2

end DemosSched
