import DemosSched.DemosScheduler
import DemosSched.Phases

/-! The handlers take finitely many steps from every state: the bounds on the
search of a slice and on the depth of the calls of the window are never met.
A search skips each pending process of its partition once, and the BE
partitions are started by one call at most, since the count of the finished SC
partitions passes the number of slices once. -/

namespace DemosSched

open Fallible

/-- The handler ends, and a state it returns has `Q`. -/
abbrev Ends {α : Type} (Q : α → Prop) (x : Except Fault α) : Prop := Avoids .outOfFuel Q x

def State.Bounded (c : Config) (P : (Nat → Window) → Prop) (s : State) : Prop :=
  s.QueuesValid c ∧ P s.window

variable {c : Config} {P : (Nat → Window) → Prop} {s : State}

theorem State.Bounded.congr {s' : State} (h : s.Bounded c P)
    (queues : ∀ k, (s'.partition k).currentProc = (s.partition k).currentProc)
    (window : s'.window = s.window) : s'.Bounded c P :=
  ⟨fun k => by rw [queues]; exact h.1 k, by rw [window]; exact h.2⟩

namespace Process

theorem getActualBudget_ends (p : ProcessId) (s : State) :
    Ends (fun r : Int × State => r.2 = s ∨ r.2 = s.drew c p) (getActualBudget c p s) := by
  unfold getActualBudget
  dsimp only
  split
  · split
    · exact .inl rfl
    · simp [Avoids]
  · split
    · exact .inr rfl
    · simp [Avoids]

theorem setRemainingBudget_ends (h : s.Bounded c P) (p : ProcessId) (r : Int) :
    Ends (State.Bounded c P) (setRemainingBudget c p s r) := by
  unfold setRemainingBudget
  split
  · simp [Avoids]
  · split
    · simp [Avoids]
    · exact h.congr (fun _ => rfl) rfl

theorem resume_ends (h : s.Bounded c P) (p : ProcessId) :
    Ends (State.Bounded c P) (resume p s) := by
  unfold resume
  split
  · exact h.congr (fun _ => rfl) rfl
  · simp [Avoids]

end Process

namespace Slice

variable {scDone : SliceId → Int → State → Except Fault State}

theorem launch_ends (h : s.Bounded c P) (i : SliceId) (p : ProcessId) (t budget : Int) :
    Ends (State.Bounded c P) (launch c i p t budget s) := by
  rw [launch, bind_def]
  have hrecord : (s.record (.started i p t budget)).Bounded c P := h.congr (fun _ => rfl) rfl
  exact (Process.resume_ends hrecord p).bind fun s' h' => h'.congr (fun _ => rfl) rfl

theorem stopCurrentProcess_ends (h : s.Bounded c P) (i : SliceId) (t : Int) (mark : Bool) :
    Ends (State.Bounded c P) (stopCurrentProcess i t mark s) := by
  unfold stopCurrentProcess
  split
  · simp [Avoids]
  · cases mark <;> exact h.congr (fun _ => rfl) rfl

theorem assigned_bounded (h : s.Bounded c P) (i : SliceId) (k : Nat) (first : Bool) (t : Int) :
    (s.assigned c i k first t).Bounded c P := ⟨h.1.assigned i k first t, h.2⟩

theorem sought_bounded (h : s.Bounded c P) {k j : Nat} (valid : j < c.processCount k) :
    (s.sought k j).Bounded c P := ⟨h.1.setQueue valid, h.2⟩

theorem countP_skipped {i : SliceId} {p : ProcessId} (member : p ∈ c.processIds p.part)
    (pending : Process.isPending p s = true) :
    (c.processIds p.part).countP (Process.isPending · s) =
      (c.processIds p.part).countP (Process.isPending · (s.skipped i p)) + 1 := by
  refine countP_raise (List.nodup_range.map fun _ _ e => by simpa using e) member
    (fun q hq => ?_) ?_ pending
  · simp [Process.isPending, Process.isSpawned, hq]
  · simp [Process.isPending]

theorem selectNext_ends {i : SliceId} {k n : Nat} (h : s.Bounded c P)
    (fuel : (c.processIds k).countP (Process.isPending · s) < n) :
    Ends (fun r => r.2.Bounded c P) (selectNext c i k n s) := by
  induction n generalizing s with
  | zero => omega
  | succ n ih =>
    unfold selectNext
    rcases Partition.seekPendingProcess_cases c k s (h.1 k) with
      ⟨j, hj, hp, hseek⟩ | ⟨-, hseek⟩
    · simp only [hseek, bind_def]
      have hsought := sought_bounded h hj
      refine (Process.getActualBudget_ends ⟨k, j⟩ (s.sought k j)).bind fun r hr => ?_
      obtain ⟨b, s₁⟩ := r
      have hprocess : s₁.process = s.process := by rcases hr with rfl | rfl <;> rfl
      have hbounded : s₁.Bounded c P := by
        rcases hr with rfl | rfl
        · exact hsought
        · exact hsought.congr (fun _ => rfl) rfl
      dsimp only
      split
      case isFalse => exact hbounded
      case isTrue =>
        have hsame : ∀ q, Process.isPending q s₁ = Process.isPending q s := fun q => by
          simp [Process.isPending, Process.isSpawned, hprocess]
        have hcount := countP_skipped (c := c) (i := i) (p := ⟨k, j⟩)
          (c.mem_processIds.mpr ⟨rfl, hj⟩) ((hsame _).trans hp)
        simp only [hsame] at hcount
        exact ih (hbounded.congr (fun _ => rfl) rfl) (by omega)
    · simp only [hseek]
      exact sought_bounded h (CyclicSearch.next_lt (h.1 k))

def DoneEnds (c : Config) (P : (Nat → Window) → Prop)
    (scDone : SliceId → Int → State → Except Fault State) (i : SliceId) : Prop :=
  ∀ t s, s.Bounded c P → Ends (State.Bounded c P) (scDone i t s)

variable {i : SliceId} (done : DoneEnds c P scDone i)
include done

theorem conclude_ends (k : Nat) (t : Int) {r : Option (ProcessId × Int) × State}
    (h : r.2.Bounded c P) : Ends (State.Bounded c P) (conclude c scDone i k t r) := by
  obtain ⟨_ | ⟨p, b⟩, s⟩ := r
  · rw [conclude]
    split
    · exact done t s h
    · exact h
  · have hset : (s.setSlice i { s.slice i with runningProcess := some p }).Bounded c P :=
      h.congr (fun _ => rfl) rfl
    exact launch_ends hset i p t b

theorem startNextLoop_ends (h : s.Bounded c P) {k : Nat}
    (hk : (s.slice i).runningPartition = some k) (t : Int) :
    Ends (State.Bounded c P) (startNextLoop c scDone (c.processCount k + 1) i t s) := by
  cases idle : (s.slice i).runningProcess with
  | some p => simp [startNextLoop, loadNextProcess, idle, Avoids]
  | none =>
    rw [startNextLoop_eq c scDone _ idle hk]
    have hcount := List.countP_le_length (p := (Process.isPending · s)) (l := c.processIds k)
    have hlength : (c.processIds k).length = c.processCount k := by simp [Config.processIds]
    exact (selectNext_ends h (by omega)).bind fun r hr => conclude_ends done k t hr

theorem startNextProcess_ends (h : s.Bounded c P) (t : Int) :
    Ends (State.Bounded c P) (startNextProcess c scDone i t s) := by
  unfold startNextProcess
  split
  case h_1 => simp [Avoids]
  case h_2 k hk => exact startNextLoop_ends done h hk t

theorem startPartition_ends (h : s.Bounded c P) (k : Nat) (t : Int) (first : Bool) :
    Ends (State.Bounded c P) (startPartition c scDone i k t first s) := by
  rw [startPartition_eq]
  exact startNextLoop_ends done (assigned_bounded h i k first t) (by simp) t

theorem startBe_ends (h : s.Bounded c P) (t : Int) :
    Ends (State.Bounded c P) (startBe c scDone i t s) := by
  unfold startBe
  split
  · exact h
  · exact startPartition_ends done h _ t false

theorem startSc_ends (h : s.Bounded c P) (t : Int) :
    Ends (State.Bounded c P) (startSc c scDone i t s) := by
  unfold startSc
  split
  · exact done t s h
  · exact startPartition_ends done h _ t true

theorem scheduleNext_ends (h : s.Bounded c P) (t : Int) :
    Ends (State.Bounded c P) (scheduleNext c scDone i t s) := by
  rw [scheduleNext, bind_def]
  exact (stopCurrentProcess_ends h i t true).bind fun s' h' => startNextProcess_ends done h' t

theorem loadNextProcess_ends (h : s.Bounded c P) (t : Int) :
    Ends (fun r => r.2.Bounded c P) (loadNextProcess c scDone i t s) := by
  unfold loadNextProcess
  split
  case isTrue => simp [Avoids]
  case isFalse =>
    split
    case h_1 => simp [Avoids]
    case h_2 k hk =>
      have hseek : (Partition.seekPendingProcess c k s).2.Bounded c P := by
        rcases Partition.seekPendingProcess_cases c k s (h.1 k) with
          ⟨j, hj, -, hseek⟩ | ⟨-, hseek⟩
        · rw [hseek]
          exact sought_bounded h hj
        · rw [hseek]
          exact sought_bounded h (CyclicSearch.next_lt (h.1 k))
      dsimp only
      generalize Partition.seekPendingProcess c k s = r at hseek ⊢
      have hset : (r.2.setSlice i { r.2.slice i with runningProcess := r.1 }).Bounded c P :=
        hseek.congr (fun _ => rfl) rfl
      split
      · rw [bind_def]
        exact (done t _ hset).bind fun s' h' => h'
      · exact hset

theorem stop_ends (h : s.Bounded c P) (t : Int) :
    Ends (State.Bounded c P) (stop c scDone i t s) := by
  have hreleased : (release c i s).Bounded c P := by
    rw [release_eq]
    refine h.congr (fun k => ?_) rfl
    rw [State.released_partition]
    split <;> rfl
  rw [stop]
  split
  case h_1 => exact hreleased
  case h_2 p hp =>
    dsimp only
    split
    case isTrue =>
      rw [bind_def]
      refine (stopCurrentProcess_ends hreleased i t true).bind fun s₁ h₁ => ?_
      rw [bind_def]
      exact (loadNextProcess_ends done h₁ t).bind fun r hr => hr.congr (fun _ => rfl) rfl
    case isFalse =>
      split
      · rw [bind_def]
        exact (Process.setRemainingBudget_ends hreleased p _).bind fun s₁ h₁ =>
          stopCurrentProcess_ends h₁ i t false
      · exact stopCurrentProcess_ends hreleased i t false

end Slice

namespace Window

def Past (c : Config) (w : Nat) (windows : Nat → Window) : Prop :=
  c.sliceCount w ≤ (windows w).finishedScPartitions

theorem sliceScEndCb_past (n : Nat) (i : SliceId) :
    Slice.DoneEnds c (Past c i.window) (sliceScEndCb c (n + 1)) i := by
  intro t s h
  have hpast : c.sliceCount i.window ≤ (s.window i.window).finishedScPartitions := h.2
  have hcounted : (s.counted i.window).Bounded c (Past c i.window) := by
    refine ⟨h.1, ?_⟩
    rw [Past, State.counted_window, Function.update_self]
    exact Nat.le_succ_of_le hpast
  rw [sliceScEndCb_finished n hpast]
  exact hcounted

theorem startBes_ends {w : Nat} (h : s.Bounded c (Past c w)) (n : Nat) (t : Int) :
    Ends (State.Bounded c (Past c w))
      ((c.sliceIds w).foldlM (fun s j => Slice.startBe c (sliceScEndCb c (n + 1)) j t s) s) := by
  refine Avoids.foldlM (fun j hj s hs => ?_) h
  obtain ⟨rfl, -⟩ := c.mem_sliceIds.mp hj
  exact Slice.startBe_ends (sliceScEndCb_past n j) hs t

theorem scDone_ends (i : SliceId) : Slice.DoneEnds c (fun _ => True) (scDone c) i := by
  intro t s h
  have hcounted : (s.counted i.window).Bounded c (fun _ => True) := ⟨h.1, trivial⟩
  rw [scDone, sliceScEndCb_succ]
  split
  · exact hcounted
  · split
    case isFalse => exact hcounted
    case isTrue hfull =>
      have hpast : ((s.counted i.window).record (.beStarted i.window t)).Bounded c
          (Past c i.window) := by
        refine ⟨h.1, ?_⟩
        rw [Past, State.record_window, State.counted_window, Function.update_self]
        exact hfull.ge
      exact (startBes_ends hpast 0 t).map fun s' h' => ⟨h'.1, trivial⟩

theorem start_ends (h : s.QueuesValid c) (w : Nat) (t : Int) :
    Ends (State.Bounded c fun _ => True) (start c w t s) := by
  rw [start, bind_def]
  have hstart : ((s.record (.windowStarted w t)).setWindow w
      { s.window w with finishedScPartitions := 0 }).Bounded c (fun _ => True) := ⟨h, trivial⟩
  refine (Avoids.foldlM (fun i _ s hs => ?_) hstart).bind fun s' h' => ⟨h'.1, trivial⟩
  exact Slice.startSc_ends (scDone_ends i) hs t

theorem stop_ends (h : s.QueuesValid c) (w : Nat) (t : Int) :
    Ends (State.Bounded c fun _ => True) (stop c w t s) := by
  rw [stop, bind_def]
  have hstart : ((s.record (.onWindowEnd w)).setWindow w
      { s.window w with stopping := true }).Bounded c (fun _ => True) := ⟨h, trivial⟩
  refine (Avoids.foldlM (fun i _ s hs => ?_) hstart).bind fun s' h' => ⟨h'.1, trivial⟩
  exact Slice.stop_ends (scDone_ends i) hs t

end Window

namespace MajorFrame

theorem timeoutCb_ends (h : s.QueuesValid c) :
    Ends (State.Bounded c fun _ => True) (timeoutCb c s) := by
  rw [timeoutCb, bind_def]
  refine (Window.stop_ends h _ _).bind fun s₁ h₁ => ?_
  have hnext : (moveToNextWindow c s₁).QueuesValid c := h₁.1
  rw [start, bind_def]
  exact (Window.start_ends hnext _ _).bind fun s₂ h₂ => ⟨h₂.1, trivial⟩

end MajorFrame

/-- Whatever the draws and the state, as long as the iterators of the partitions
point into their lists. -/
theorem handlers_terminate (c : Config) (s : State) (valid : s.QueuesValid c) :
    (∀ w t, Window.start c w t s ≠ .error .outOfFuel) ∧
      (∀ i t, Slice.scheduleNext c (Window.scDone c) i t s ≠ .error .outOfFuel) ∧
      (∀ i t, Slice.stop c (Window.scDone c) i t s ≠ .error .outOfFuel) ∧
      MajorFrame.timeoutCb c s ≠ .error .outOfFuel := by
  have hbounded : s.Bounded c fun _ => True := ⟨valid, trivial⟩
  refine ⟨fun w t => (Window.start_ends valid w t).ne, fun i t => ?_, fun i t => ?_,
    (MajorFrame.timeoutCb_ends valid).ne⟩
  · exact (Slice.scheduleNext_ends (Window.scDone_ends i) hbounded t).ne
  · exact (Slice.stop_ends (Window.scDone_ends i) hbounded t).ne

/-- With every budget drawn as zero each process is passed over. -/
theorem handlers_terminate_jitteredAll : ∃ s : State, s.QueuesValid .jitteredAll ∧
    (∀ p ∈ [(⟨0, 0⟩ : ProcessId), ⟨0, 1⟩, ⟨1, 0⟩], Process.isPending p s = true ∧
      (Process.getActualBudget .jitteredAll p s).toOption.map Prod.fst = some 0) ∧
    Window.start .jitteredAll 0 0 s ≠ .error .outOfFuel ∧
    (∀ i t, Slice.scheduleNext .jitteredAll (Window.scDone .jitteredAll) i t s ≠
      .error .outOfFuel) ∧
    (∀ i t, Slice.stop .jitteredAll (Window.scDone .jitteredAll) i t s ≠ .error .outOfFuel) ∧
    MajorFrame.timeoutCb .jitteredAll s ≠ .error .outOfFuel := by
  have valid : (State.initial .jitteredAll (fun _ => 0) none).QueuesValid .jitteredAll :=
    fun k => Config.processCount_pos _ k
  obtain ⟨hstart, hnext, hstop, htimeout⟩ := handlers_terminate .jitteredAll _ valid
  exact ⟨_, valid, by decide, hstart 0 0, hnext, hstop, htimeout⟩

end DemosSched
