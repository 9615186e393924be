import DemosSched.Phases

/-! The end of a window: every slice is stopped, its timer disarmed and its
partitions disconnected, whichever way it leaves. -/

namespace DemosSched

open Fallible Relation

/-- What stopping a window at time `t` is made of. -/
inductive Closing (c : Config) (w : Nat) (t : Int) : State → State → Prop
  | announced {s : State} : Closing c w t s (s.record (.onWindowEnd w))
  | effect {s s' : State} (h : Effect c w t s s') : Closing c w t s s'
  | stopping {s : State} (b : Bool) :
      Closing c w t s (s.setWindow w { s.window w with stopping := b })
  | shortened {s : State} {i : SliceId} {p : ProcessId} {r : Int}
      (member : i ∈ c.sliceIds w) (running : (s.slice i).runningProcess = some p)
      (role : (s.slice i).runningPartition = (c.slice i).be)
      (pos : 0 < r) (lt : r < (c.process p).budget) : Closing c w t s (s.shortened p r)
  | released {s : State} {i : SliceId} (member : i ∈ c.sliceIds w)
      (idle : (s.slice i).runningProcess = none) : Closing c w t s (s.released c i)

abbrev Closings (c : Config) (w : Nat) (t : Int) : State → State → Prop :=
  ReflTransGen (Closing c w t)

theorem Effects.closings {c : Config} {w : Nat} {t : Int} {s s' : State}
    (h : Effects c w t s s') : Closings c w t s s' :=
  ReflTransGen.mono (fun _ _ h => Closing.effect h) s s' h

namespace Closings

variable {c : Config} {w : Nat} {t : Int} {s s' : State}

theorem invariant {I : State → Prop} (keeps : ∀ s s', I s → Closing c w t s s' → I s')
    (run : Closings c w t s s') (start : I s) : I s' := by
  induction run with
  | refl => exact start
  | tail _ last ih => exact keeps _ _ ih last

theorem outside (run : Closings c w t s s') :
    s'.frame = s.frame ∧ s'.manager = s.manager ∧ s'.scheduler = s.scheduler := by
  induction run with
  | refl => exact ⟨rfl, rfl, rfl⟩
  | tail _ last ih =>
    rw [← ih.1, ← ih.2.1, ← ih.2.2]
    cases last with
    | effect h => exact Effects.outside (.single h)
    | _ => exact ⟨rfl, rfl, rfl⟩

theorem history (run : Closings c w t s s') : s.history <:+ s'.history := by
  induction run with
  | refl => exact List.suffix_rfl
  | tail _ last ih =>
    refine ih.trans ?_
    cases last with
    | effect h => exact Effects.history (.single h)
    | announced | shortened => exact List.suffix_cons _ _
    | _ => exact List.suffix_rfl

end Closings

theorem State.QueuesValid.closings {c : Config} {w : Nat} {t : Int} {s s' : State} (h : s.QueuesValid c)
    (run : Closings c w t s s') : s'.QueuesValid c := by
  refine run.invariant (fun s s' h e => ?_) h
  cases e with
  | effect e => exact h.effect e
  | released member =>
    intro k
    simp only [State.released_partition]
    split <;> exact h k
  | _ => exact h

namespace Slice

variable {c : Config} {w : Nat}

structure Left (c : Config) (i : SliceId) (s s' : State) : Prop where
  slice : s'.slice =
    Function.update s.slice i { s.slice i with armed := false, runningProcess := none }
  completionCb : ∀ k, (s'.partition k).completionCb =
    if k ∈ (c.slice i).partitions then .ignore else (s.partition k).completionCb
  stopping : ∀ v, (s'.window v).stopping = (s.window v).stopping
  course : s'.course = s.course
  grows : s.Grows Action.SameRun s'

theorem left_stopped (c : Config) (i : SliceId) (p : ProcessId) (t : Int) (mark : Bool) (s : State) :
    Left c i s ((s.stopped i p t mark).released c i) where
  slice := by simp [State.released, State.stopped]
  completionCb k := by
    simp only [State.released_partition]
    split <;> rfl
  stopping _ := rfl
  course := rfl
  grows := .one (a := .stopped i p t mark) trivial rfl

theorem stop_left {i : SliceId} {t : Int} {s s' : State} (valid : s.QueuesValid c)
    (member : i ∈ c.sliceIds w) (stopping : (s.window w).stopping = true)
    (run : stop c (Window.scDone c) i t s = .ok s') : Closings c w t s s' ∧ Left c i s s' := by
  obtain ⟨rfl, -⟩ := c.mem_sliceIds.mp member
  have hstop : ∀ (s : State) (p : ProcessId) (mark : Bool),
      (s.slice i).runningProcess = some p →
      Closings c i.window t s ((s.stopped i p t mark).released c i) := fun s p mark hp =>
    .head (.effect (.stopped mark member hp)) (.single (.released member (by simp)))
  rcases stop_cases c stopping run with
    ⟨hrun, rfl⟩ | ⟨p, k, hrun, hk, -, rfl⟩ |
      ⟨p, r, hrun, rfl, -, ⟨hbe, hpos, hlt, rfl⟩ | ⟨-, rfl⟩⟩
  · refine ⟨.single (.released member hrun), ?_, fun k => ?_, fun _ => rfl, rfl, .same rfl⟩
    · simp [State.released, hrun]
    · simp only [State.released_partition]
      split <;> rfl
  · have hclosings := hstop s p true hrun
    have hvalid := valid.closings hclosings
    have seeking : Seeking c i.window i k ((s.stopped i p t true).released c i) :=
      ⟨member, by simp, by simpa using hk⟩
    obtain ⟨j, hj, heq⟩ : ∃ j < c.processCount k,
        (Partition.seekPendingProcess c k ((s.stopped i p t true).released c i)).2 =
          ((s.stopped i p t true).released c i).sought k j := by
      rcases Partition.seekPendingProcess_cases c k _ (hvalid k) with
        ⟨j, hj, -, hseek⟩ | ⟨-, hseek⟩
      · exact ⟨j, hj, by rw [hseek]⟩
      · exact ⟨_, CyclicSearch.next_lt (hvalid k), by rw [hseek]⟩
    have hsought := hclosings.tail (.effect (.sought seeking hj))
    have hleft : Left c i s (((s.stopped i p t true).released c i).sought k j) :=
      { slice := (left_stopped c i p t true s).slice
        completionCb := by
          intro m
          rw [← (left_stopped c i p t true s).completionCb m]
          exact State.update_field Partition.completionCb rfl
        stopping := fun _ => rfl
        course := rfl
        grows := (left_stopped c i p t true s).grows.trans (.same rfl) }
    unfold spent
    simp only [heq]
    split
    · refine ⟨hsought.tail (.effect (.windowSet _ rfl)), hleft.slice, hleft.completionCb, ?_,
        hleft.course, hleft.grows.trans (.same rfl)⟩
      intro v
      by_cases hv : v = i.window
      · subst hv
        simp
      · simp [hv]
    · exact ⟨hsought, hleft⟩
  · refine ⟨.head (.shortened member hrun hbe hpos hlt) (hstop _ p false hrun), ?_⟩
    have hleft := left_stopped c i p t false (s.shortened p
      (Process.durationCastMs ((s.slice i).timeout - t)))
    exact ⟨hleft.slice, hleft.completionCb, hleft.stopping, hleft.course,
      (State.Grows.one (a := .shortened p _) trivial rfl).trans hleft.grows⟩
  · exact ⟨hstop s p false hrun, left_stopped c i p t false s⟩

end Slice

structure State.Halted (s : State) : Prop where
  idle : s.AllIdle
  unarmed : ∀ i, (s.slice i).armed = false
  disconnected : ∀ k i, (s.partition k).completionCb ≠ .slice i

structure State.Within (c : Config) (w : Nat) (s : State) : Prop where
  running : ∀ i p, (s.slice i).runningProcess = some p → i ∈ c.sliceIds w
  armed : ∀ i, (s.slice i).armed = true → i ∈ c.sliceIds w
  registered : ∀ k i, (s.partition k).completionCb = .slice i →
    i ∈ c.sliceIds w ∧ k ∈ (c.slice i).partitions

namespace Window

variable {c : Config} {w : Nat}

/-- The part of `State.Halted` that holds once the slices `done` are stopped. -/
structure HaltedOn (c : Config) (w : Nat) (done : List SliceId) (s : State) : Prop
    extends State.Within c w s where
  idle : ∀ i ∈ done, (s.slice i).runningProcess = none
  unarmed : ∀ i ∈ done, (s.slice i).armed = false
  disconnected : ∀ k, ∀ i ∈ done, (s.partition k).completionCb ≠ .slice i

theorem HaltedOn.left {done : List SliceId} {i : SliceId} {s s' : State}
    (h : HaltedOn c w done s) (hleft : Slice.Left c i s s') : HaltedOn c w (done ++ [i]) s' where
  running j p hp := by
    rw [hleft.slice] at hp
    by_cases hj : j = i
    · subst hj
      simp at hp
    · exact h.running j p (by simpa [hj] using hp)
  armed j ha := by
    rw [hleft.slice] at ha
    by_cases hj : j = i
    · subst hj
      simp at ha
    · exact h.armed j (by simpa [hj] using ha)
  registered k j hk := by
    rw [hleft.completionCb] at hk
    split at hk
    · simp at hk
    · exact h.registered k j hk
  idle j hj := by
    rw [hleft.slice]
    by_cases hji : j = i
    · subst hji
      simp
    · simpa [hji] using h.idle j (by simpa [hji] using hj)
  unarmed j hj := by
    rw [hleft.slice]
    by_cases hji : j = i
    · subst hji
      simp
    · simpa [hji] using h.unarmed j (by simpa [hji] using hj)
  disconnected k j hj hk := by
    rw [hleft.completionCb] at hk
    split at hk
    · simp at hk
    · next hnot =>
      by_cases hji : j = i
      · exact hnot (hji ▸ (h.registered k j hk).2)
      · exact h.disconnected k j (by simpa [hji] using hj) hk

theorem stop_halted {t : Int} {s s' : State} (valid : s.QueuesValid c) (within : s.Within c w)
    (run : stop c w t s = .ok s') :
    Closings c w t s s' ∧ s'.Halted ∧ s'.course = s.course.next (.onWindowEnd w) ∧
      s.Grows Action.SameRun s' ∧
      (s'.window w).stopping = false ∧
      ∀ v ≠ w, (s'.window v).stopping = (s.window v).stopping := by
  simp only [stop, bind_def, bind_eq_ok, pure_def, Except.ok.injEq] at run
  obtain ⟨s₁, hfold, rfl⟩ := run
  have hbegin : Closings c w t s ((s.record (.onWindowEnd w)).setWindow w
      { s.window w with stopping := true }) :=
    .tail (.single .announced) (.stopping true)
  have hall : Closings c w t s s₁ ∧ HaltedOn c w (c.sliceIds w) s₁ ∧
      s₁.course = s.course.next (.onWindowEnd w) ∧ s.Grows Action.SameRun s₁ ∧
      (s₁.window w).stopping = true ∧ ∀ v ≠ w, (s₁.window v).stopping = (s.window v).stopping := by
    refine foldlM_induct (fun done s₂ => Closings c w t s s₂ ∧ HaltedOn c w done s₂ ∧
      s₂.course = s.course.next (.onWindowEnd w) ∧ s.Grows Action.SameRun s₂ ∧
      (s₂.window w).stopping = true ∧
      ∀ v ≠ w, (s₂.window v).stopping = (s.window v).stopping)
      ?_ ⟨hbegin, ⟨⟨within.running, within.armed, within.registered⟩, by simp, by simp, by simp⟩,
        rfl, .one (a := .onWindowEnd w) trivial rfl, by simp, ?_⟩ hfold
    · rintro done i rest s₂ s₃ hsplit ⟨hclosings, hhalted, hclosed, hgrows, hstopping, hothers⟩ h
      obtain ⟨hnext, hleft⟩ := Slice.stop_left (valid.closings hclosings)
        (by simp [hsplit]) hstopping h
      exact ⟨hclosings.trans hnext, hhalted.left hleft, by rw [hleft.course]; exact hclosed,
        hgrows.trans hleft.grows, by rw [hleft.stopping]; exact hstopping,
        fun v hv => (hleft.stopping v).trans (hothers v hv)⟩
    · intro v hv
      simp [hv]
  obtain ⟨hclosings, hhalted, hclosed, hgrows, -, hothers⟩ := hall
  refine ⟨hclosings.tail (.stopping false), ⟨fun i => ?_, fun i => ?_, fun k i hk => ?_⟩,
    hclosed, hgrows.trans (.same rfl), by simp, ?_⟩
  · change (s₁.slice i).runningProcess = none
    cases hrun : (s₁.slice i).runningProcess with
    | none => rfl
    | some p => rw [← hrun, hhalted.idle i (hhalted.running i p hrun)]
  · change (s₁.slice i).armed = false
    cases harmed : (s₁.slice i).armed with
    | false => rfl
    | true => rw [← harmed, hhalted.unarmed i (hhalted.armed i harmed)]
  · exact hhalted.disconnected k i (hhalted.registered k i hk).1 hk
  · intro v hv
    simpa [hv] using hothers v hv

theorem stop_idle {t : Int} {s s' : State} (idle : s.AllIdle) (run : stop c w t s = .ok s') :
    s'.process = s.process ∧ s'.history = .onWindowEnd w :: s.history := by
  simp only [stop, bind_def, bind_eq_ok, pure_def, Except.ok.injEq] at run
  obtain ⟨s₁, hfold, rfl⟩ := run
  have hall : s₁.AllIdle ∧ s₁.process = s.process ∧ s₁.history = .onWindowEnd w :: s.history := by
    refine foldlM_keeps (fun s₂ => s₂.AllIdle ∧ s₂.process = s.process ∧
      s₂.history = .onWindowEnd w :: s.history) ?_ ⟨idle, rfl, rfl⟩ hfold
    rintro i - s₂ s₃ ⟨hidle, hsame⟩ h
    rw [Slice.stop_idle c _ (hidle i), Except.ok.injEq] at h
    subst h
    refine ⟨fun j => ?_, hsame⟩
    rw [State.released_running]
    exact hidle j
  exact hall.2

end Window

end DemosSched
