import DemosSched.BeStart
import DemosSched.General.Confined
import Mathlib.Order.Bounds.Basic

/-! Two orders in which the timers of the slices of a window are delivered. In either
phase a slice that is served changes itself and its partition only, so that every
slice comes to the same in both; the orders can differ in the start of the BE phase
only. -/

namespace DemosSched

open Fallible

def Action.concerns (i : SliceId) : Action → Bool
  | .windowStarted _ _ | .beStarted _ _ => true
  | .entered j _ _ _ | .skipped j _ | .started j _ _ _ | .stopped j _ _ _ => j = i
  | _ => false

theorem Action.scEnd_concerns (i : SliceId) (h : List Action) :
    scEnd i (h.filter (concerns i)) = scEnd i h := by
  induction h with
  | nil => rfl
  | cons a h ih =>
    cases a with
    | windowStarted => rfl
    | beStarted => exact ih
    | stopped j _ _ _ =>
      by_cases hj : j = i
      · simp [concerns, scEnd, hj]
      · simpa [concerns, scEnd, hj] using ih
    | entered j _ _ _ =>
      by_cases hj : j = i <;> simpa [concerns, scEnd, hj] using ih
    | skipped j _ =>
      by_cases hj : j = i <;> simpa [concerns, scEnd, hj] using ih
    | started j _ _ _ =>
      by_cases hj : j = i <;> simpa [concerns, scEnd, hj] using ih
    | _ => simpa [concerns, scEnd] using ih

theorem Action.filter_beStarted (i : SliceId) (w : Nat) (t : Int) (h : List Action) :
    (beStarted w t :: h).filter (concerns i) = .beStarted w t :: h.filter (concerns i) :=
  List.filter_cons_of_pos rfl

namespace State

/-- Slice `i` with its records. -/
def desk (s : State) (i : SliceId) : Slice × List Action :=
  (s.slice i, s.history.filter (Action.concerns i))

/-- Partition `k` with its processes. -/
def stock (s : State) (k : Nat) : Partition × (Nat → Process) :=
  (s.partition k, fun j => s.process ⟨k, j⟩)

/-- The slices, partitions and processes are the same, and so is what has been
scheduled on each slice and when the BE phase began. -/
def SameSchedule (s s' : State) : Prop := Agree desk stock s s'

end State

namespace Slice

variable (c : Config) (i : SliceId) (k : Nat)

/-- The search of slice `i` for work in partition `k`. -/
def searches (t : Int) (s : State) : State :=
  match CyclicSearch.seek (c.processCount k) (fun j => Process.isPending ⟨k, j⟩ s)
      (c.processCount k) (s.partition k).currentProc with
  | (some j, _) =>
    ((s.sought k j).granted c ⟨k, j⟩).launched c i ⟨k, j⟩ t (s.process ⟨k, j⟩).actualBudget
  | (none, j) => s.sought k j

theorem searches_window (t : Int) (s : State) : (searches c i k t s).window = s.window := by
  unfold searches
  split
  · exact (s.sought k _).granted_window c _
  · rfl

theorem searches_stage (t : Int) (s : State) :
    (searches c i k t s).course.stage = s.course.stage := by
  unfold searches
  split
  · next j _ _ =>
    change (((s.sought k j).granted c ⟨k, j⟩).course.next _).stage = _
    rcases (s.sought k j).granted_history c ⟨k, j⟩ with h | ⟨o, h⟩ <;>
      simp [State.course, h, Action.course, Course.next]
  · rfl

/-- What the timer of slice `i`, which runs partition `k`, leads to. -/
def serves (s : State) : State :=
  match (s.slice i).runningProcess with
  | none => s
  | some p => searches c i k (s.slice i).timeout (s.stopped i ⟨k, p.index⟩ (s.slice i).timeout true)

/-- Partition `k` taken over by slice `i` at the start of the BE phase. -/
def begins (t : Int) (s : State) : State := searches c i k t (s.assigned c i k false t)

variable {i k}

theorem confined_stopped (j : Nat) (t : Int) (mark : Bool) :
    Confined State.desk State.stock i k fun s => s.stopped i ⟨k, j⟩ t mark where
  worker_other s l hl := by
    simp [State.desk, hl, Action.concerns, Ne.symm hl]
  queue_other s m hm := by
    have hne : ∀ n, (⟨m, n⟩ : ProcessId) ≠ ⟨k, j⟩ := fun n e => hm (by injection e)
    simp [State.stock, hne]
  congr s s' hi hk := by
    obtain ⟨hslice, hrecords⟩ := Prod.mk.inj hi
    obtain ⟨hpart, hproc⟩ := Prod.mk.inj hk
    refine ⟨?_, ?_⟩
    · simp [State.desk, hslice, hrecords, Action.concerns]
    · simp only [State.stock, State.stopped_partition, hpart, Prod.mk.injEq, true_and]
      funext n
      have hj := congrFun hproc j
      have hn := congrFun hproc n
      by_cases h : n = j
      · subst h
        simp_all
      · have hne : (⟨k, n⟩ : ProcessId) ≠ ⟨k, j⟩ := fun e => h (by injection e)
        simp [hne, hn]

theorem confined_assigned (t : Int) :
    Confined State.desk State.stock i k fun s => s.assigned c i k false t where
  worker_other s l hl := by
    simp [State.desk, hl, Action.concerns, Ne.symm hl]
  queue_other s m hm := by
    have hother : ∀ n, (⟨m, n⟩ : ProcessId) ∉ c.processIds k := fun n hmem =>
      hm (c.mem_processIds.mp hmem).1
    simp [State.stock, State.assigned, hm, hother]
  congr s s' hi hk := by
    obtain ⟨hslice, hrecords⟩ := Prod.mk.inj hi
    obtain ⟨hpart, hproc⟩ := Prod.mk.inj hk
    refine ⟨by simp [State.desk, hslice, hrecords, Action.concerns], ?_⟩
    simp only [State.stock, State.assigned, hpart, Function.update_self, Prod.mk.injEq, true_and]
    funext n
    rw [congrFun hproc n]

theorem confined_sought (j : Nat) : Confined State.desk State.stock i k fun s => s.sought k j where
  worker_other _ _ _ := rfl
  queue_other s m hm := by simp [State.stock, hm]
  congr s s' hi hk := by
    obtain ⟨hpart, hproc⟩ := Prod.mk.inj hk
    exact ⟨hi, by simp [State.stock, hpart, hproc]⟩

theorem agree_granted (s : State) (p : ProcessId) : s.SameSchedule (s.granted c p) := by
  have hrecords : ∀ i, (s.granted c p).history.filter (Action.concerns i) =
      s.history.filter (Action.concerns i) := by
    intro i
    rcases s.granted_history c p with h | ⟨o, h⟩ <;> simp [h, Action.concerns]
  exact ⟨fun i => by simp [State.desk, hrecords], fun k => by simp [State.stock]⟩

theorem confined_launched (j : Nat) (t b : Int) :
    Confined State.desk State.stock i k fun s => s.launched c i ⟨k, j⟩ t b where
  worker_other s l hl := by
    simp [State.desk, hl, Action.concerns, Ne.symm hl]
  queue_other s m hm := by
    have hne : ∀ n, (⟨m, n⟩ : ProcessId) ≠ ⟨k, j⟩ := fun n e => hm (by injection e)
    simp [State.stock, hne]
  congr s s' hi hk := by
    obtain ⟨hslice, hrecords⟩ := Prod.mk.inj hi
    obtain ⟨hpart, hproc⟩ := Prod.mk.inj hk
    refine ⟨by simp [State.desk, hslice, hrecords, Action.concerns], ?_⟩
    simp only [State.stock, State.launched_partition, hpart, Prod.mk.injEq, true_and]
    funext n
    have hj := congrFun hproc j
    have hn := congrFun hproc n
    by_cases h : n = j
    · subst h
      simp_all
    · have hne : (⟨k, n⟩ : ProcessId) ≠ ⟨k, j⟩ := fun e => h (by injection e)
      simp [hne, hn]

theorem confined_found (j : Nat) (t b : Int) : Confined State.desk State.stock i k fun s =>
    ((s.sought k j).granted c ⟨k, j⟩).launched c i ⟨k, j⟩ t b := by
  have hgranted : Confined State.desk State.stock i k fun s => s.granted c ⟨k, j⟩ :=
    { worker_other := fun s l _ => ((agree_granted c s ⟨k, j⟩).worker l).symm
      queue_other := fun s m _ => ((agree_granted c s ⟨k, j⟩).queue m).symm
      congr := fun s s' hi hk => by
        rw [← (agree_granted c s ⟨k, j⟩).worker, ← (agree_granted c s' ⟨k, j⟩).worker,
          ← (agree_granted c s ⟨k, j⟩).queue, ← (agree_granted c s' ⟨k, j⟩).queue]
        exact ⟨hi, hk⟩ }
  exact (confined_launched c j t b).comp (hgranted.comp (confined_sought j))

theorem confined_searches (t : Int) :
    Confined State.desk State.stock i k (searches c i k t) where
  worker_other s l hl := by
    unfold searches
    split
    · exact (confined_found c _ t _).worker_other s l hl
    · exact (confined_sought _).worker_other s l hl
  queue_other s m hm := by
    unfold searches
    split
    · exact (confined_found c _ t _).queue_other s m hm
    · exact (confined_sought (i := i) _).queue_other s m hm
  congr s s' hi hk := by
    obtain ⟨hpart, hproc⟩ := Prod.mk.inj hk
    have hprocess : ∀ j, s.process ⟨k, j⟩ = s'.process ⟨k, j⟩ := congrFun hproc
    simp only [searches, Process.isPending, Process.isSpawned, hprocess, hpart]
    split
    · exact (confined_found c _ t _).congr s s' hi hk
    · exact (confined_sought _).congr s s' hi hk

variable (i k) in
theorem confined_serves : Confined State.desk State.stock i k (serves c i k) where
  worker_other s l hl := by
    unfold serves
    split
    · rfl
    · exact ((confined_searches c _).comp (confined_stopped _ _ true)).worker_other s l hl
  queue_other s m hm := by
    unfold serves
    split
    · rfl
    · exact ((confined_searches c _).comp (confined_stopped _ _ true)).queue_other s m hm
  congr s s' hi hk := by
    have hslice : s.slice i = s'.slice i := (Prod.mk.inj hi).1
    simp only [serves, hslice]
    split
    · exact ⟨hi, hk⟩
    · exact ((confined_searches c _).comp (confined_stopped _ _ true)).congr s s' hi hk

theorem confined_begins (t : Int) : Confined State.desk State.stock i k (begins c i k t) :=
  (confined_searches c t).comp (confined_assigned c t)

theorem startNext_searches (zero : c.ZeroJitter) {n : Nat} {t : Int} {s s' : State}
    {scDone : SliceId → Int → State → Except Fault State} (valid : s.QueuesValid c)
    (budgeted : s.Budgeted c)
    (h : (selectNext c i k (n + 1) s).bind (conclude c scDone i k t) = .ok s') :
    (¬s.Exhausted c k ∧ s' = searches c i k t s) ∨
    (s.Exhausted c k ∧ (∃ j < c.processCount k, searches c i k t s = s.sought k j) ∧
      (if (c.slice i).sc = some k then scDone i t (searches c i k t s)
        else .ok (searches c i k t s)) = .ok s') := by
  rcases startNext_steady zero valid budgeted h with ⟨j, hseek, rfl⟩ | ⟨hnone, hend⟩
  · obtain ⟨-, hj, hpending, -⟩ := CyclicSearch.seek_some (valid k) hseek
    refine .inl ⟨fun hnone => ?_, by rw [searches, hseek]⟩
    simp [hnone j hj] at hpending
  · have hseek : CyclicSearch.seek (c.processCount k) (fun j => Process.isPending ⟨k, j⟩ s)
        (c.processCount k) (s.partition k).currentProc =
        (none, CyclicSearch.next (c.processCount k) (s.partition k).currentProc) := by
      cases hfound : CyclicSearch.seek (c.processCount k) (fun j => Process.isPending ⟨k, j⟩ s)
          (c.processCount k) (s.partition k).currentProc with
      | mk found cur =>
        cases found with
        | none => rw [(CyclicSearch.seek_all_none (valid k) hfound).1]
        | some j =>
          obtain ⟨-, hj, hpending, -⟩ := CyclicSearch.seek_some (valid k) hfound
          simp [hnone j hj] at hpending
    have hsearches : searches c i k t s =
        s.sought k (CyclicSearch.next (c.processCount k) (s.partition k).currentProc) := by
      rw [searches, hseek]
    exact .inr ⟨hnone, ⟨_, CyclicSearch.next_lt (valid k), hsearches⟩, hsearches ▸ hend⟩

end Slice

theorem State.sameSchedule_counted (s : State) (w : Nat) : s.SameSchedule (s.counted w) :=
  ⟨fun _ => rfl, fun _ => rfl⟩

namespace Window

variable (c : Config)

def takes (t : Int) (s : State) (j : SliceId) : State :=
  match c.role false j with
  | none => s
  | some k => Slice.begins c j k t s

def beBegun (w : Nat) (t : Int) (s : State) : State :=
  (c.sliceIds w).foldl (takes c t) (s.record (.beStarted w t))

variable {c} {w : Nat} {t : Int} {s s' : State}

theorem takes_congr (h : s.SameSchedule s') (j : SliceId) :
    (takes c t s j).SameSchedule (takes c t s' j) := by
  unfold takes
  split
  · exact h
  · exact (Slice.confined_begins c t).agree h

theorem beBegun_congr (h : s.SameSchedule s') :
    (beBegun c w t s).SameSchedule (beBegun c w t s') := by
  have hfold : ∀ (l : List SliceId) (s s' : State), s.SameSchedule s' →
      (l.foldl (takes c t) s).SameSchedule (l.foldl (takes c t) s') := by
    intro l
    induction l with
    | nil => exact fun _ _ h => h
    | cons j l ih => exact fun _ _ h => ih _ _ (takes_congr h j)
  refine hfold _ _ _ ⟨fun i => ?_, h.queue⟩
  obtain ⟨hslice, hrecords⟩ := Prod.mk.inj (h.worker i)
  simp only [State.desk, State.record_slice, State.record_history, hslice,
    Action.filter_beStarted, hrecords]

theorem startBe_takes (zero : c.ZeroJitter) {calls : List Action} {j : SliceId}
    (phase : BePhase c w calls s) (valid : s.QueuesValid c) (budgeted : s.Budgeted c)
    (member : j ∈ c.sliceIds w) (run : Slice.startBe c (sliceScEndCb c 1) j t s = .ok s') :
    (takes c t s j).SameSchedule s' := by
  have hwindow : j.window = w := (c.mem_sliceIds.mp member).1
  unfold Slice.startBe at run
  split at run
  · next hbe =>
    rw [Except.ok.injEq] at run
    subst run
    simp only [takes, Config.role, hbe]
    exact .refl _
  · next k hbe =>
    have hrole : c.role false j = some k := by simpa [Config.role] using hbe
    obtain ⟨hidle, run⟩ := Slice.startPartition_ok c _ run
    have hentered : Effect c w t s (s.assigned c j k false t) :=
      .entered false member hidle hrole phase.alike
    simp only [takes, hrole]
    rcases Slice.startNext_searches c zero (valid.effect hentered) (budgeted.effect hentered) run with
      ⟨-, rfl⟩ | ⟨-, -, hend⟩
    · exact .refl _
    · have hfinished : c.sliceCount j.window ≤
          ((Slice.begins c j k t s).window j.window).finishedScPartitions := by
        rw [Slice.begins, Slice.searches_window, hwindow]
        exact phase.finished
      rw [← Slice.begins] at hend
      have hcounted : s' = Slice.begins c j k t s ∨
          s' = (Slice.begins c j k t s).counted j.window := by
        split at hend
        · rw [sliceScEndCb_finished 0 hfinished, Except.ok.injEq] at hend
          exact .inr hend.symm
        · exact .inl (Except.ok.inj hend).symm
      rcases hcounted with rfl | rfl
      · exact .refl _
      · exact State.sameSchedule_counted _ _

theorem scDone_begun (zero : c.ZeroJitter) {i : SliceId} (idle : s.AllIdle)
    (valid : s.QueuesValid c) (budgeted : s.Budgeted c)
    (opened : (s.window i.window).stopping = false)
    (full : (s.window i.window).finishedScPartitions + 1 = c.sliceCount i.window)
    (run : scDone c i t s = .ok s') :
    (beBegun c i.window t s).SameSchedule s' ∧ s'.course.stage = .running i.window false := by
  rw [scDone, sliceScEndCb_succ, if_neg (by simp [opened]), if_pos full, map_eq_ok] at run
  obtain ⟨s₁, hfold, rfl⟩ := run
  have hphase : BePhase c i.window s.course.calls
      ((s.counted i.window).record (.beStarted i.window t)) := beStarted_phase idle full
  have hall : ((c.sliceIds i.window).foldl (takes c t)
        (s.record (.beStarted i.window t))).SameSchedule s₁ ∧
      Effects c i.window t ((s.counted i.window).record (.beStarted i.window t)) s₁ ∧
      BePhase c i.window s.course.calls s₁ := by
    refine foldlM_induct (fun done m => (done.foldl (takes c t)
        (s.record (.beStarted i.window t))).SameSchedule m ∧
      Effects c i.window t ((s.counted i.window).record (.beStarted i.window t)) m ∧
      BePhase c i.window s.course.calls m) ?_
      ⟨State.sameSchedule_counted (s.record (.beStarted i.window t)) _, .refl, hphase⟩ hfold
    intro done j rest m m' hsplit hm hj
    have hmember : j ∈ c.sliceIds i.window := by simp [hsplit]
    have hvalid : m.QueuesValid c :=
      State.QueuesValid.effects (s := (s.counted i.window).record (.beStarted i.window t)) valid hm.2.1
    have hbudgeted : m.Budgeted c :=
      State.Budgeted.effects (s := (s.counted i.window).record (.beStarted i.window t)) budgeted hm.2.1
    have hstart := hm.2.2.startBe hvalid hmember hj
    refine ⟨?_, hm.2.1.trans hstart.1, hstart.2⟩
    rw [List.foldl_append, List.foldl_cons, List.foldl_nil]
    exact (takes_congr hm.1 j).trans (startBe_takes zero hm.2.2 hvalid hbudgeted hmember hj)
  refine ⟨hall.1.trans ?_, hall.2.2.stage⟩
  exact ⟨fun l => by simp [State.desk, Action.concerns], fun _ => rfl⟩

end Window

section Served

variable {c : Config} {i : SliceId} {p : ProcessId} {m m' : State} {calls : List Action}

theorem serves_eq (running : (m.slice i).runningProcess = some p) : Slice.serves c i p.part m =
    Slice.searches c i p.part (m.slice i).timeout (m.stopped i p (m.slice i).timeout true) := by
  rw [Slice.serves, running]

theorem serves_stage (running : (m.slice i).runningProcess = some p) :
    (Slice.serves c i p.part m).course.stage = m.course.stage := by
  rw [serves_eq running, Slice.searches_stage]
  rfl

theorem serves_window (running : (m.slice i).runningProcess = some p) :
    (Slice.serves c i p.part m).window = m.window := by
  rw [serves_eq running, Slice.searches_window]
  rfl

theorem BePhase.served (phase : BePhase c i.window calls m)
    (running : (m.slice i).runningProcess = some p)
    (found : m' = Slice.serves c i p.part m ∨
      (if (c.slice i).sc = some p.part then
          Window.scDone c i (m.slice i).timeout (Slice.serves c i p.part m)
        else .ok (Slice.serves c i p.part m)) = .ok m') :
    ¬Slice.EndsScPhase c i m ∧ m'.course.stage = .running i.window false ∧
      (Slice.serves c i p.part m).SameSchedule m' := by
  have hnot : ¬Slice.EndsScPhase c i m := by
    intro hends
    have hlast := hends.1
    have hfinished := phase.finished
    omega
  have hstage := (serves_stage (c := c) running).trans phase.stage
  refine ⟨hnot, ?_⟩
  rcases found with rfl | hend
  · exact ⟨hstage, .refl _⟩
  · split at hend
    · rw [Window.scDone, Window.sliceScEndCb_finished 1
        (by rw [serves_window running]; exact phase.finished), Except.ok.injEq] at hend
      exact hend ▸ ⟨hstage, State.sameSchedule_counted _ _⟩
    · rw [Except.ok.injEq] at hend
      exact hend ▸ ⟨hstage, .refl _⟩

theorem ScPhase.counted (phase : ScPhase c i.window (c.sliceIds i.window) calls m)
    (running : (m.slice i).runningProcess = some p)
    (more : (m.window i.window).finishedScPartitions + 1 ≠ c.sliceCount i.window)
    (ended : Window.scDone c i (m.slice i).timeout (Slice.serves c i p.part m) = .ok m') :
    m'.course.stage = .running i.window true ∧ (Slice.serves c i p.part m).SameSchedule m' := by
  rw [Window.scDone, Window.sliceScEndCb_succ,
    if_neg (by rw [serves_window running, phase.opened]; decide),
    if_neg (by rw [serves_window running]; exact more), Except.ok.injEq] at ended
  exact ended ▸ ⟨(serves_stage (c := c) running).trans phase.stage, State.sameSchedule_counted _ _⟩

theorem ScPhase.last (zero : c.ZeroJitter) (valid : m.QueuesValid c) (budgeted : m.Budgeted c)
    (phase : ScPhase c i.window (c.sliceIds i.window) calls m) (member : i ∈ c.sliceIds i.window)
    (running : (m.slice i).runningProcess = some p) (role : c.role true i = some p.part)
    (full : (m.window i.window).finishedScPartitions + 1 = c.sliceCount i.window)
    (sought : ∃ j < c.processCount p.part, Slice.serves c i p.part m =
      (m.stopped i p (m.slice i).timeout true).sought p.part j)
    (ended : Window.scDone c i (m.slice i).timeout (Slice.serves c i p.part m) = .ok m') :
    m'.course.stage = .running i.window false ∧ (Slice.serves c i p.part m).AllIdle ∧
      (∃ q, (Slice.serves c i p.part m).history =
        .stopped i q (m.slice i).timeout true :: m.history) ∧
      (Window.beBegun c i.window (m.slice i).timeout (Slice.serves c i p.part m)).SameSchedule m' := by
  obtain ⟨j, hj, hsought⟩ := sought
  have hstopped : Effect c i.window (m.slice i).timeout m
      (m.stopped i p (m.slice i).timeout true) := .stopped true member running
  have hpart : (m.slice i).runningPartition = some p.part :=
    (phase.alike i p running).2.trans role
  have hmoved : Slice.Searched c i.window p.part (m.stopped i p (m.slice i).timeout true)
      (Slice.serves c i p.part m) :=
    hsought ▸ .sought ⟨member, by simp, by simpa using hpart⟩ hj
  have hidle : (Slice.serves c i p.part m).AllIdle := by
    intro l
    rw [hsought]
    exact ScSearch.allIdle (phase.stopped member running (m.slice i).timeout) full l
  obtain ⟨hbegun, hlater⟩ := Window.scDone_begun zero hidle
    ((valid.effect hstopped).effects (hmoved.effects (m.slice i).timeout))
    ((budgeted.effect hstopped).effects (hmoved.effects (m.slice i).timeout))
    (by rw [serves_window running]; exact phase.opened)
    (by rw [serves_window running]; exact full) ended
  exact ⟨hlater, hidle, ⟨p, by rw [hsought]; rfl⟩, hbegun⟩

end Served

namespace Event

variable {c : Config} {gen : Nat → Nat} {timeout : Option Int} {es : List Event} {m m' : State}
  {i : SliceId}

theorem sliceTimer_serves (reachable : Reachable c gen timeout es m) (zero : c.ZeroJitter)
    (step : Step c m (.sliceTimer i) m') : i ∈ c.sliceIds i.window ∧ ∃ k sc,
      m.course.stage = .running i.window sc ∧ c.role sc i = some k ∧
      (m.slice i).runningProcess ≠ none ∧
      (¬Slice.EndsScPhase c i m ∧ m'.course.stage = .running i.window sc ∧
          (Slice.serves c i k m).SameSchedule m' ∨
        sc = true ∧ m'.course.stage = .running i.window false ∧ Slice.EndsScPhase c i m ∧
          (Slice.serves c i k m).AllIdle ∧
          (∃ p, (Slice.serves c i k m).history =
            .stopped i p (m.slice i).timeout true :: m.history) ∧
          (Window.beBegun c i.window (m.slice i).timeout (Slice.serves c i k m)).SameSchedule m') := by
  obtain ⟨-, run⟩ := step
  rw [dispatch, Slice.scheduleNext_disarmed] at run
  obtain ⟨p, k, hp, hk, run⟩ := Slice.scheduleNext_ok c _ run
  have hsound := reachable.sound
  have hphase : Phase c m.frame.currentWin m := by
    rcases hsound.phase with ⟨hhalted, -⟩ | hphase
    · simp [hhalted.idle i] at hp
    · exact hphase
  have hmember := hsound.coherent.running i p hp
  obtain ⟨hw, -⟩ := c.mem_sliceIds.mp hmember
  rw [← hw] at hphase hmember
  have howner := (hsound.coherent.owner i p hp).1
  rw [hk, Option.some.injEq] at howner
  subst howner
  have hstopped : Effect c i.window (m.slice i).timeout m
      (m.stopped i p (m.slice i).timeout true) := .stopped true hmember hp
  have hrunning : (m.slice i).runningProcess ≠ none := by simp [hp]
  have hsearch := Slice.startNext_searches c zero (hsound.queues.effect hstopped)
    (reachable.budgeted.effect hstopped) run
  rw [← serves_eq hp] at hsearch
  have hbe : ∀ {calls}, BePhase c i.window calls m → _ := fun h =>
    h.served hp (hsearch.imp And.right fun h => h.2.2)
  refine ⟨hmember, p.part, ?_⟩
  rcases hphase with (h | ⟨h, -⟩) | h
  · have hrole : c.role true i = some p.part := (h.alike i p hp).2.symm.trans hk
    refine ⟨true, h.stage, hrole, hrunning, ?_⟩
    rcases hsearch with ⟨hpending, rfl⟩ | ⟨hexhausted, hsought, hend⟩
    · obtain ⟨j, hj, hjp⟩ : ∃ j < c.processCount p.part,
          Process.isPending ⟨p.part, j⟩ (m.stopped i p (m.slice i).timeout true) = true := by
        simpa [State.Exhausted] using hpending
      exact .inl ⟨Slice.not_endsScPhase hp hj hjp, (serves_stage hp).trans h.stage, .refl _⟩
    · have hsc : (c.slice i).sc = some p.part := by simpa [Config.role] using hrole
      rw [if_pos hsc] at hend
      by_cases hfull : (m.window i.window).finishedScPartitions + 1 = c.sliceCount i.window
      · obtain ⟨hlater, hidle, hhistory, hbegun⟩ := h.last zero hsound.queues reachable.budgeted
          hmember hp hrole hfull hsought hend
        exact .inr ⟨rfl, hlater, (Slice.endsScPhase_iff hp hexhausted).mpr hfull, hidle, hhistory,
          hbegun⟩
      · exact .inl ⟨fun hends => hfull hends.1, h.counted hp hfull hend⟩
  · exact ⟨false, h.stage, (h.alike i p hp).symm.trans hk, hrunning, .inl (hbe h)⟩
  · exact ⟨false, h.stage, (h.alike i p hp).symm.trans hk, hrunning, .inl (hbe h)⟩

end Event

/-- The partition slice `i` has in a phase of window `w`, if it is in the window. -/
def Config.inWindow (c : Config) (w : Nat) (sc : Bool) (i : SliceId) : Option Nat :=
  if i ∈ c.sliceIds w then c.role sc i else none

theorem Config.Unshared.apart {c : Config} (h : c.Unshared) (w : Nat) (sc : Bool) (i j : SliceId)
    (k : Nat) (hi : c.inWindow w sc i = some k) (hj : c.inWindow w sc j = some k) : i = j := by
  unfold inWindow at hi hj
  split at hi
  · next hmi =>
    split at hj
    · next hmj => exact h.eq hmi hmj hi hj
    · simp at hj
  · simp at hi

abbrev Slice.Turn (c : Config) (w : Nat) (sc : Bool) : State → SliceId → State → Prop :=
  Fallible.Turn State.desk State.stock (c.inWindow w sc) (fun x => x.1.runningProcess ≠ none)
    (Slice.serves c)

/-- A BE phase has been begun at `t` since `s`. -/
def BeginsBe (s s' : State) (t : Int) : Prop :=
  ∃ w older, .beStarted w t :: older <:+ s'.history ∧ s.history <:+ older

/-- What deliveries to the slices lead to: they are all made in one phase, or the first of
them in the SC phase, which leave every slice idle, and the others in the BE phase. -/
inductive Delivered (c : Config) (s : State) : List SliceId → State → Prop
  | none : Delivered c s [] s
  | phase {is : List SliceId} {s' : State} {w : Nat} {sc : Bool}
      (start : s.course.stage = .running w sc) (stage : s'.course.stage = .running w sc)
      (busy : sc = true → ¬s'.AllIdle) (unbegun : ∀ t, ¬BeginsBe s s' t)
      (run : Run (Slice.Turn c w sc) s is s') : Delivered c s is s'
  | begun {before after : List SliceId} {n m s' : State} {w : Nat} {t : Int}
      (start : s.course.stage = .running w true) (stage : s'.course.stage = .running w false)
      (once : ∀ u, BeginsBe s s' u → u = t) (some : before ≠ []) (idle : n.AllIdle)
      (latest : Action.LatestScEnd c w n.history t) (run : Run (Slice.Turn c w true) s before n)
      (begun : (Window.beBegun c w t n).SameSchedule m)
      (later : Run (Slice.Turn c w false) m after s') : Delivered c s (before ++ after) s'

theorem State.Sound.busy {c : Config} {s : State} {w : Nat} {i : SliceId} (h : s.Sound c)
    (stage : s.course.stage = .running w true) (member : i ∈ c.sliceIds w) : ¬s.AllIdle := by
  intro hidle
  have hsc : ∀ v, s.course.stage ≠ .running v false := by simp [stage]
  rcases h.phase with ⟨-, hclosed⟩ | (hphase | ⟨hphase, -⟩) | hphase
  · simp [stage] at hclosed
  · have hw := hphase.stage
    rw [stage, Stage.running.injEq] at hw
    obtain ⟨rfl, -⟩ := hw
    have hall : (c.sliceIds s.frame.currentWin).countP s.isIdle = c.sliceCount s.frame.currentWin := by
      rw [← c.length_sliceIds, List.countP_eq_length]
      intro j _
      simp [State.isIdle, hidle j]
    have hpos : c.sliceCount s.frame.currentWin ≠ 0 := by
      have := (c.mem_sliceIds.mp member).2
      omega
    have hlt := hphase.unfinished hpos
    rw [hphase.count, hall] at hlt
    omega
  · exact hsc _ hphase.stage
  · exact hsc _ hphase.stage

section Orders

variable {c : Config} {gen : Nat → Nat} {timeout : Option Int} {es : List Event} {s s₁ s₂ : State}
  {is is' : List SliceId} (reachable : Event.Reachable c gen timeout es s) (zero : c.ZeroJitter)
include reachable zero

theorem delivered
    (run : Run (fun m i m' => Slice.InOrder c i m ∧ Event.Step c m (.sliceTimer i) m') s is s₁) :
    Delivered c s is s₁ := by
  induction run with
  | nil => exact .none
  | @snoc m s' is i run step ih =>
    obtain ⟨horder, step⟩ := step
    have hplain := run.mono fun _ _ _ h => h.2
    obtain ⟨es', hreach⟩ := sliceTimers_reachable reachable hplain
    have hpast := sliceTimers_history reachable zero hplain
    obtain ⟨-, p, hbegun⟩ := beStarted_step hreach zero hpast step
    obtain ⟨hmember, k, sc, hstage, hrole, hbusy, hserved⟩ := Event.sliceTimer_serves hreach zero step
    have hin : c.inWindow i.window sc i = some k := by rw [Config.inWindow, if_pos hmember, hrole]
    have hnext : Event.Reachable c gen timeout (es' ++ [.sliceTimer i]) s' := hreach.snoc step
    have hone : (∀ t, ¬BeginsBe s m t) → Run (Slice.Turn c i.window sc) s is m →
        s.course.stage = .running i.window sc → Delivered c s (is ++ [i]) s' := by
      intro hunbegun hrun hstart
      rcases hserved with ⟨hnot, hlater, hsame⟩ | ⟨rfl, hlater, hends, hidle, ⟨q, hq⟩, hbe⟩
      · refine .phase hstart hlater (fun hsc => hnext.sound.busy (hsc ▸ hlater) hmember) ?_
          (hrun.snoc ⟨k, hin, hbusy, hsame⟩)
        rintro t ⟨w, older, hsuffix, hs⟩
        rcases (hbegun w t older hs).mp hsuffix with hold | ⟨hends, -⟩
        · exact hunbegun t ⟨w, older, hold, hs⟩
        · exact hnot hends
      · have hturn : Run (Slice.Turn c i.window true) s (is ++ [i]) (Slice.serves c i k m) :=
          hrun.snoc ⟨k, hin, hbusy, .refl _⟩
        refine List.append_nil (is ++ [i]) ▸ .begun hstart hlater ?_ (by simp) hidle
          (hq ▸ (Action.latestScEnd_stopped hmember).mpr (horder hends)) hturn hbe .nil
        rintro u ⟨w, older, hsuffix, hs⟩
        rcases (hbegun w u older hs).mp hsuffix with hold | ⟨-, -, rfl, -⟩
        · exact absurd ⟨w, older, hold, hs⟩ (hunbegun u)
        · rfl
    cases ih with
    | none =>
      refine hone ?_ .nil hstage
      rintro t ⟨w, older, hsuffix, hs⟩
      have hlength := (hsuffix.trans hs).length_le
      simp at hlength
    | phase start stage _ unbegun hrun =>
      obtain ⟨rfl, rfl⟩ := Stage.running.inj (stage.symm.trans hstage)
      exact hone unbegun hrun start
    | begun start stage once some idle latest hrun begun later =>
      obtain ⟨rfl, rfl⟩ := Stage.running.inj (stage.symm.trans hstage)
      rcases hserved with ⟨hnot, hlater, hsame⟩ | ⟨hsc, -⟩
      · rw [List.append_assoc]
        refine .begun start hlater ?_ some idle latest hrun begun
          (later.snoc ⟨k, hin, hbusy, hsame⟩)
        rintro u ⟨w, older, hsuffix, hs⟩
        rcases (hbegun w u older hs).mp hsuffix with hold | ⟨hends, -⟩
        · exact once u ⟨w, older, hold, hs⟩
        · exact absurd hends hnot
      · simp at hsc

end Orders

section Compared

variable {c : Config} {s s₁ s₂ n n₁ n₂ : State} {w : Nat} {is is' before before₁ before₂ : List SliceId}
  {t t₁ t₂ : Int} (unshared : c.Unshared)

theorem latestScEnd_unique (same : n₁.SameSchedule n₂) (h₁ : Action.LatestScEnd c w n₁.history t₁)
    (h₂ : Action.LatestScEnd c w n₂.history t₂) : t₁ = t₂ := by
  have hends : ∀ i, Action.scEnd i n₁.history = Action.scEnd i n₂.history := by
    intro i
    have hrecords := (Prod.mk.inj (same.worker i)).2
    rw [← Action.scEnd_concerns, hrecords, Action.scEnd_concerns]
  simp only [Action.LatestScEnd, hends] at h₁
  exact IsGreatest.unique h₁ h₂

include unshared

theorem turns_agree {sc : Bool} (start : s.SameSchedule n) (count : ∀ i, is.count i = is'.count i)
    (run₁ : Run (Slice.Turn c w sc) s is s₁) (run₂ : Run (Slice.Turn c w sc) n is' s₂) :
    s₁.SameSchedule s₂ :=
  run₁.agree (Slice.confined_serves c) (unshared.apart w sc) start count run₂

/-- However the deliveries were ordered, the SC phase has come to the same end. -/
theorem scPhases_agree (run₁ : Run (Slice.Turn c w true) s before₁ n₁) (idle₁ : n₁.AllIdle)
    (run₂ : Run (Slice.Turn c w true) s before₂ n₂) (idle₂ : n₂.AllIdle) :
    (∀ i, before₁.count i = before₂.count i) ∧ n₁.SameSchedule n₂ := by
  have hcount := Run.count_eq (Slice.confined_serves c) (unshared.apart w true) (.refl s) run₁ run₂
    (fun i hi => hi (idle₁ i)) (fun i hi => hi (idle₂ i))
  exact ⟨hcount, turns_agree unshared (.refl s) hcount run₁ run₂⟩

/-- Deliveries that end in the SC phase are not those of a run that has left it. -/
theorem not_begun (perm : is.Perm (before ++ is')) (run₁ : Run (Slice.Turn c w true) s is s₁)
    (busy : ¬s₁.AllIdle) (run : Run (Slice.Turn c w true) s before n) (idle : n.AllIdle) : False := by
  have hcount : ∀ i, is.count i = before.count i := by
    intro i
    have hle := Run.count_le (i := i) (Slice.confined_serves c) (unshared.apart w true) (.refl s) run
      run₁ fun hi => hi (idle i)
    have hall := perm.count_eq i
    rw [List.count_append] at hall
    omega
  have hsame := turns_agree unshared (.refl s) hcount run₁ run
  refine busy fun i => ?_
  rw [(Prod.mk.inj (hsame.worker i)).1]
  exact idle i

/-- Deliveries in different orders lead to the same schedule. -/
theorem Delivered.sameSchedule (h₁ : Delivered c s is s₁) (h₂ : Delivered c s is' s₂)
    (perm : is.Perm is') : s₁.SameSchedule s₂ := by
  cases h₁ with
  | none =>
    obtain rfl := perm.nil_eq
    generalize hnil : ([] : List SliceId) = l at h₂
    cases h₂ with
    | none => exact .refl _
    | phase _ _ _ _ run =>
      subst hnil
      exact turns_agree unshared (.refl s) (by simp) .nil run
    | begun _ _ _ some =>
      exact absurd (List.append_eq_nil_iff.mp hnil.symm).1 some
  | phase start _ busy _ run =>
    cases h₂ with
    | none =>
      obtain rfl := perm.eq_nil
      exact turns_agree unshared (.refl s) (by simp) run .nil
    | phase start' _ _ _ run' =>
      obtain ⟨rfl, rfl⟩ := Stage.running.inj (start.symm.trans start')
      exact turns_agree unshared (.refl s) (fun i => perm.count_eq i) run run'
    | begun start' _ _ _ idle _ run' =>
      obtain ⟨rfl, rfl⟩ := Stage.running.inj (start.symm.trans start')
      exact (not_begun unshared perm run (busy rfl) run' idle).elim
  | begun start _ _ some idle latest run begun later =>
    generalize hall : is' = l at h₂
    cases h₂ with
    | none =>
      subst hall
      exact absurd (List.append_eq_nil_iff.mp perm.eq_nil).1 some
    | phase start' _ busy _ run' =>
      obtain ⟨rfl, rfl⟩ := Stage.running.inj (start.symm.trans start')
      exact (not_begun unshared (hall ▸ perm.symm) run' (busy rfl) run idle).elim
    | begun start' _ _ _ idle' latest' run' begun' later' =>
      obtain ⟨rfl, -⟩ := Stage.running.inj (start.symm.trans start')
      obtain ⟨hcount, hsame⟩ := scPhases_agree unshared run idle run' idle'
      obtain rfl := latestScEnd_unique hsame latest latest'
      have hbegun := (begun.symm.trans (Window.beBegun_congr hsame)).trans begun'
      refine turns_agree unshared hbegun (fun i => ?_) later later'
      have hsum := (hall ▸ perm).count_eq i
      rw [List.count_append, List.count_append, hcount] at hsum
      omega

theorem Delivered.begins (h₁ : Delivered c s is s₁) (h₂ : Delivered c s is' s₂)
    (begins₁ : BeginsBe s s₁ t₁) (begins₂ : BeginsBe s s₂ t₂) : t₁ = t₂ := by
  have hnone : ∀ {t}, ¬BeginsBe s s t := by
    rintro t ⟨v, older, hsuffix, hs⟩
    have hlength := (hsuffix.trans hs).length_le
    simp at hlength
  cases h₁ with
  | none => exact absurd begins₁ hnone
  | phase _ _ _ unbegun => exact absurd begins₁ (unbegun t₁)
  | begun start _ once _ idle latest run =>
    cases h₂ with
    | none => exact absurd begins₂ hnone
    | phase _ _ _ unbegun => exact absurd begins₂ (unbegun t₂)
    | begun start' _ once' _ idle' latest' run' =>
      obtain ⟨rfl, -⟩ := Stage.running.inj (start.symm.trans start')
      obtain ⟨-, hsame⟩ := scPhases_agree unshared run idle run' idle'
      obtain rfl := once t₁ begins₁
      obtain rfl := once' t₂ begins₂
      exact latestScEnd_unique hsame latest latest'

end Compared

/-- Whatever the order in which the timers of the slices are delivered, the BE phase
starts at the latest end of an SC partition exactly if the timer that ends the last
of them does not expire before one that has been delivered already. Of two such orders
in a window whose slices share no partition, both begin the BE phase at the same time,
and both lead to the same schedule when they deliver the same timers. -/
theorem be_start_latest_iff {c : Config} {gen : Nat → Nat} {timeout : Option Int} {es : List Event}
    {s : State} (reachable : Event.Reachable c gen timeout es s) (zero : c.ZeroJitter) :
    (∀ is s', Run (fun m i m' => Event.Step c m (.sliceTimer i) m') s is s' →
      (BeStartsLatest c s s' ↔
        Run (fun m i m' => Slice.InOrder c i m ∧ Event.Step c m (.sliceTimer i) m') s is s')) ∧
    (c.Unshared → ∀ is is' s₁ s₂,
      Run (fun m i m' => Slice.InOrder c i m ∧ Event.Step c m (.sliceTimer i) m') s is s₁ →
      Run (fun m i m' => Slice.InOrder c i m ∧ Event.Step c m (.sliceTimer i) m') s is' s₂ →
        (∀ t₁ t₂, BeginsBe s s₁ t₁ → BeginsBe s s₂ t₂ → t₁ = t₂) ∧
        (is.Perm is' → s₁.SameSchedule s₂)) := by
  refine ⟨fun is s' run => beStartsLatest_iff reachable zero run,
    fun unshared is is' s₁ s₂ run₁ run₂ => ?_⟩
  have h₁ := delivered reachable zero run₁
  have h₂ := delivered reachable zero run₂
  exact ⟨fun t₁ t₂ => h₁.begins unshared h₂, h₁.sameSchedule unshared h₂⟩

theorem Event.play_sliceTimers {c : Config} {may : State → Event → Prop}
    [∀ s e, Decidable (may s e)] {is : List SliceId} {s s' : State}
    (h : play c may (is.map .sliceTimer) s = some s') :
    Run (fun m i m' => may m (.sliceTimer i) ∧ Step c m (.sliceTimer i) m') s is s' := by
  induction is generalizing s with
  | nil =>
    rw [List.map_nil, play, Option.some.injEq] at h
    exact h ▸ .nil
  | cons i is ih =>
    rw [List.map_cons, play] at h
    split at h
    · next hmay =>
      split at h
      · next m hm => exact .cons ⟨hmay.1, hmay.2, hm⟩ (ih h)
      · simp at h
    · simp at h

/-- The SC partition that ends at 5 ms is seen to before the one that ends at 3 ms. -/
theorem be_start_disordered :
    ¬∀ (c : Config) (gen : Nat → Nat) (timeout : Option Int) (es : List Event) (s s' : State)
      (is : List SliceId), c.ZeroJitter → Event.Reachable c gen timeout es s →
      Run (fun m i m' => Event.Step c m (.sliceTimer i) m') s is s' → BeStartsLatest c s s' := by
  intro hclaim
  have hrun : ((Event.play .twoSlices (fun _ _ => True) [.startup 0]
      (State.initial .twoSlices (fun _ => 0) none)).map fun s =>
        (Event.play .twoSlices (fun _ _ => True) ([⟨0, 0⟩, ⟨0, 1⟩].map .sliceTimer) s).map fun s' =>
          let older := (s'.history.dropWhile (· ≠ .beStarted 0 3000000)).tail
          ((s'.history.dropWhile (· ≠ .beStarted 0 3000000)).head?,
            decide (s.history <:+ older), Action.scEnd ⟨0, 0⟩ older)) =
      some (some (some (.beStarted 0 3000000), true, 5000000)) := by
    decide
  obtain ⟨s, hstart, hs⟩ := Option.map_eq_some_iff.mp hrun
  obtain ⟨s', hplay, hs'⟩ := Option.map_eq_some_iff.mp hs
  simp only [Prod.mk.injEq, decide_eq_true_eq] at hs'
  obtain ⟨hhead, hpast, hend⟩ := hs'
  obtain ⟨older, holder⟩ := List.head?_eq_some_iff.mp hhead
  rw [holder, List.tail_cons] at hpast hend
  have hbe : .beStarted 0 3000000 :: older <:+ s'.history := holder ▸ List.dropWhile_suffix _
  have hlatest := hclaim .twoSlices _ _ _ s s' _ (by decide) (Event.play_reachable hstart)
    ((Event.play_sliceTimers hplay).mono fun _ _ _ h => h.2) 0 3000000 older hbe hpast
  have hle := hlatest.2 ⟨⟨0, 0⟩, by decide, rfl⟩
  rw [hend] at hle
  exact absurd hle (by decide)

/-- Two SC partitions that end together, seen to in either order. -/
theorem be_start_twoOrders : ∃ s s₁ s₂ : State, .beStarted 0 5000000 ∈ s₁.history ∧
    s₁.history ≠ s₂.history ∧ BeStartsLatest .sliceFrequencies s s₁ ∧ s₁.SameSchedule s₂ := by
  have hrun : ((Event.play .sliceFrequencies (fun _ _ => True) [.startup 0]
      (State.initial .sliceFrequencies (fun _ => 0) none)).bind fun s =>
        let deliver := fun is : List SliceId => Event.play .sliceFrequencies (fun m e =>
          ∀ j ∈ Config.sliceFrequencies.sliceIds 0, Action.scEnd j m.history ≤ e.nominal m)
          (is.map .sliceTimer) s
        (deliver [⟨0, 0⟩, ⟨0, 1⟩]).bind fun s₁ => (deliver [⟨0, 1⟩, ⟨0, 0⟩]).map fun s₂ =>
          decide (.beStarted 0 5000000 ∈ s₁.history ∧ s₁.history ≠ s₂.history)) = some true := by
    decide
  obtain ⟨s, hstart, hs⟩ := Option.bind_eq_some_iff.mp hrun
  obtain ⟨s₁, hplay₁, hs⟩ := Option.bind_eq_some_iff.mp hs
  obtain ⟨s₂, hplay₂, hs⟩ := Option.map_eq_some_iff.mp hs
  obtain ⟨hbe, hne⟩ := of_decide_eq_true hs
  have hordered : ∀ {is : List SliceId} {s' : State}, Event.play .sliceFrequencies (fun m e =>
      ∀ j ∈ Config.sliceFrequencies.sliceIds 0, Action.scEnd j m.history ≤ e.nominal m)
      (is.map .sliceTimer) s = some s' →
      Run (fun m i m' => Slice.InOrder .sliceFrequencies i m ∧
        Event.Step .sliceFrequencies m (.sliceTimer i) m') s is s' := by
    refine fun h => (Event.play_sliceTimers h).mono fun m i m' hm => ⟨fun _ j hj _ => ?_, hm.2⟩
    have hwindow : i.window < 1 := Config.window_lt hj
    exact hm.1 j (by rwa [show i.window = 0 by omega] at hj)
  obtain ⟨hlatest, hsame⟩ := be_start_latest_iff (Event.play_reachable hstart) (by decide)
  have hrun₁ := hordered hplay₁
  exact ⟨s, s₁, s₂, hbe, hne, (hlatest _ _ (hrun₁.mono fun _ _ _ h => h.2)).mpr hrun₁,
    (hsame (by decide) _ _ _ _ hrun₁ (hordered hplay₂)).2 (.swap _ _ _)⟩

end DemosSched
