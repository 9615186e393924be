import DemosSched.BeStart

/-! What the handlers of the scheduling phase do when no budget is randomized and
every process is alive. The effects of a handler are put together to acts of a
slice on its partition, each with what has been found in the queue. -/

namespace DemosSched

open Fallible Relation

structure State.Regular (c : Config) (s : State) : Prop where
  queues : s.QueuesValid c
  budgeted : s.Budgeted c
  spawned : ∀ p, (s.process p).spawned = true

def Config.windowEnd (c : Config) (w : Nat) (u : Int) : Int := u + (c.window w).length * nsPerMs

/-- The window started last, and its nominal start. -/
def Action.current : List Action → Option (Nat × Int)
  | [] => none
  | .windowStarted w u :: _ => some (w, u)
  | _ :: h => current h

theorem Action.current_unique {h : List Action} {w v : Nat} {u x : Int}
    (hw : current h = some (w, u)) (hv : current h = some (v, x)) : w = v ∧ u = x :=
  Prod.mk.inj (Option.some.inj (hw.symm.trans hv))

namespace State

variable (c : Config) (s : State) (i : SliceId) (p : ProcessId) (t : Int)

def picked : State :=
  ((s.sought p.part p.index).granted c p).launched c i p t (s.process p).actualBudget

theorem picked_process : (s.picked c i p t).process = Function.update s.process p
    { s.process p with
      frozen := false
      demosCompleted := false
      continueTokens := (s.process p).continueTokens + if (s.process p).demosCompleted then 1 else 0
      actualBudget := (c.process p).budget } := by
  simp only [picked, launched, granted_process]
  rfl

theorem picked_completed (q : ProcessId) :
    ((s.picked c i p t).process q).completed = (s.process q).completed := by
  rw [picked_process]
  exact update_field Process.completed rfl

theorem picked_partition : (s.picked c i p t).partition = Function.update s.partition p.part
    { s.partition p.part with currentProc := p.index } := by
  simp only [picked, launched, granted_partition]
  rfl

theorem picked_slice : (s.picked c i p t).slice = Function.update s.slice i
    { s.slice i with
      runningProcess := some p
      timeout := t + (s.process p).actualBudget * nsPerMs
      armed := true } := by
  simp only [picked, launched, granted_slice]
  rfl

theorem picked_running {l : SliceId} {q : ProcessId} :
    ((s.picked c i p t).slice l).runningProcess = some q ↔
      l = i ∧ p = q ∨ l ≠ i ∧ (s.slice l).runningProcess = some q := by
  rw [picked, launched_running, granted_slice]
  rfl

theorem picked_running_other {l : SliceId} {q : ProcessId} (ne : p ≠ q)
    (free : (s.slice i).runningProcess ≠ some q) :
    ((s.picked c i p t).slice l).runningProcess = some q ↔
      (s.slice l).runningProcess = some q := by
  rw [picked_running]
  constructor
  · rintro (⟨-, hp⟩ | ⟨-, hl⟩)
    · exact absurd hp ne
    · exact hl
  · intro hl
    refine .inr ⟨?_, hl⟩
    rintro rfl
    exact free hl

theorem picked_timeout {l : SliceId} (ne : l ≠ i) :
    ((s.picked c i p t).slice l).timeout = (s.slice l).timeout := by
  rw [picked_slice, Function.update_of_ne ne]

theorem picked_frame : (s.picked c i p t).frame = s.frame := by
  simp only [picked, launched, granted_frame]
  rfl

theorem picked_history :
    (s.picked c i p t).history = .started i p t (s.process p).actualBudget :: s.history ∨
      ∃ o, (s.picked c i p t).history =
        .started i p t (s.process p).actualBudget :: .drawn p o :: s.history := by
  rw [picked, launched_history]
  rcases granted_history c (s.sought p.part p.index) p with h | ⟨o, h⟩
  · exact .inl (by rw [h]; rfl)
  · exact .inr ⟨o, by rw [h]; rfl⟩

theorem picked_course : (s.picked c i p t).course = s.course := by
  rcases s.picked_history c i p t with h | ⟨o, h⟩
  · rw [course, h]
    rfl
  · rw [course, h]
    rfl

end State

/-- What slice `i` of window `w`, which was started at `u`, does with partition `k` at `t`. -/
inductive Serve (c : Config) (w : Nat) (u t : Int) (i : SliceId) (k : Nat) : State → State → Prop
  | begun {s : State} (first : Bool) (idle : (s.slice i).runningProcess = none)
      (role : c.role first i = some k) (stage : s.course.stage = .running w first)
      (fresh : s.course.role i ≠ some (k, first)) (start : first = true → t = u)
      (before : t < c.windowEnd w u) :
      Serve c w u t i k s ((s.assigned c i k first t).picked c i
        ⟨k, if first then 0 else (s.partition k).currentProc⟩ t)
  | resumed {s : State} {j j' : Nat} (running : (s.slice i).runningProcess = some ⟨k, j⟩)
      (due : (s.slice i).timeout = t) (before : t < c.windowEnd w u)
      (found : CyclicSearch.seek (c.processCount k)
        (fun m => Process.isPending ⟨k, m⟩ (s.stopped i ⟨k, j⟩ t true)) (c.processCount k)
        (s.partition k).currentProc = (some j', j')) :
      Serve c w u t i k s ((s.stopped i ⟨k, j⟩ t true).picked c i ⟨k, j'⟩ t)
  | drained {s : State} {j : Nat} (running : (s.slice i).runningProcess = some ⟨k, j⟩)
      (due : (s.slice i).timeout = t) (before : t < c.windowEnd w u)
      (exhausted : ∀ m < c.processCount k,
        Process.isPending ⟨k, m⟩ (s.stopped i ⟨k, j⟩ t true) = false) :
      Serve c w u t i k s ((s.stopped i ⟨k, j⟩ t true).sought k
        (CyclicSearch.next (c.processCount k) (s.partition k).currentProc))
  | cut {s : State} {j : Nat} {r : Int} (running : (s.slice i).runningProcess = some ⟨k, j⟩)
      (closed : s.course.stage = .closed) (atEnd : t = c.windowEnd w u)
      (late : t ≤ (s.slice i).timeout) (be : c.role false i = some k)
      (remaining : r = Process.durationCastMs ((s.slice i).timeout - t)) (pos : 0 < r)
      (lt : r < (c.process ⟨k, j⟩).budget) :
      Serve c w u t i k s (((s.shortened ⟨k, j⟩ r).stopped i ⟨k, j⟩ t false).released c i)
  | dropped {s : State} {j : Nat} (running : (s.slice i).runningProcess = some ⟨k, j⟩)
      (closed : s.course.stage = .closed) (atEnd : t = c.windowEnd w u)
      (late : t ≤ (s.slice i).timeout) (notBe : c.role false i ≠ some k) :
      Serve c w u t i k s ((s.stopped i ⟨k, j⟩ t false).released c i)
  | spent {s : State} {j : Nat} (running : (s.slice i).runningProcess = some ⟨k, j⟩)
      (closed : s.course.stage = .closed) (atEnd : t = c.windowEnd w u)
      (late : t ≤ (s.slice i).timeout)
      (used : Process.durationCastMs ((s.slice i).timeout - t) = 0) :
      Serve c w u t i k s (((s.stopped i ⟨k, j⟩ t true).released c i).sought k
        (CyclicSearch.seek (c.processCount k)
          (fun m => Process.isPending ⟨k, m⟩ (s.stopped i ⟨k, j⟩ t true)) (c.processCount k)
          (s.partition k).currentProc).2)

/-- What happens at `t` in window `w`, which was started at `u`. -/
inductive Act (c : Config) (w : Nat) (u t : Int) : State → State → Prop
  | noted {s : State} (a : Action)
      (h : a = .onWindowStart w ∨ a = .onScStart w ∨ a = .onBeStart w) : Act c w u t s (s.record a)
  | counted {s : State} : Act c w u t s (s.counted w)
  | beStarted {s : State} (idle : s.AllIdle) (stage : s.course.stage = .running w true)
      (entered : ∀ i ∈ c.sliceIds w, ∀ k, c.role true i = some k →
        s.course.role i = some (k, true))
      (latest : Action.LatestScEnd c w s.history t) (before : t < c.windowEnd w u) :
      Act c w u t s (s.record (.beStarted w t))
  | served {s s' : State} {i : SliceId} {k : Nat} (member : i ∈ c.sliceIds w)
      (h : Serve c w u t i k s s') : Act c w u t s s'
  | closing {s : State} (atEnd : t = c.windowEnd w u)
      (entered : s.course.stage = .running w true → ∀ i ∈ c.sliceIds w, ∀ k,
        c.role true i = some k → s.course.role i = some (k, true))
      (unfinished : s.course.stage = .running w true → c.sliceIds w ≠ [] →
        ∃ i ∈ c.sliceIds w, ∃ k j, c.role true i = some k ∧
          (s.slice i).runningProcess = some ⟨k, j⟩ ∧ t ≤ (s.slice i).timeout) :
      Act c w u t s (s.record (.onWindowEnd w))
  | stopping {s : State} (b : Bool) :
      Act c w u t s (s.setWindow w { s.window w with stopping := b })
  | released {s : State} {i : SliceId} (member : i ∈ c.sliceIds w)
      (idle : (s.slice i).runningProcess = none) (closed : s.course.stage = .closed) :
      Act c w u t s (s.released c i)

abbrev Acts (c : Config) (w : Nat) (u t : Int) : State → State → Prop := ReflTransGen (Act c w u t)

theorem Acts.invariant {c : Config} {w : Nat} {u t : Int} {s s' : State} {I : State → Prop}
    (keeps : ∀ s s', I s → Act c w u t s s' → I s') (run : Acts c w u t s s') (start : I s) :
    I s' := by
  induction run with
  | refl => exact start
  | tail _ last ih => exact keeps _ _ ih last

namespace State.Regular

variable {c : Config} {s : State}

theorem isPending (h : s.Regular c) (p : ProcessId) :
    Process.isPending p s = !(s.process p).completed := by
  rw [Process.isPending, Process.isSpawned, h.spawned, Bool.true_and]

theorem assigned (h : s.Regular c) (i : SliceId) (k : Nat) (first : Bool) (t : Int) :
    (s.assigned c i k first t).Regular c where
  queues := h.queues.assigned i k first t
  budgeted p := h.budgeted p
  spawned p := h.spawned p

theorem picked (h : s.Regular c) (i : SliceId) {p : ProcessId} (t : Int)
    (valid : p.index < c.processCount p.part) : (s.picked c i p t).Regular c where
  queues m := by
    rw [State.picked_partition]
    exact h.queues.setQueue valid m
  budgeted q := by
    rw [State.picked_process]
    exact h.budgeted.setBudget ⟨(c.process p).budget_pos, le_rfl⟩ q
  spawned q := by
    rw [State.picked_process]
    exact Eq.trans (State.update_field Process.spawned rfl) (h.spawned q)

theorem stopped (h : s.Regular c) (i : SliceId) (p : ProcessId) (t : Int) (mark : Bool) :
    (s.stopped i p t mark).Regular c where
  queues := h.queues
  budgeted := h.budgeted.setBudget (h.budgeted p)
  spawned q := Eq.trans (State.update_field Process.spawned rfl) (h.spawned q)

theorem sought (h : s.Regular c) {k j : Nat} (valid : j < c.processCount k) :
    (s.sought k j).Regular c where
  queues := h.queues.setQueue valid
  budgeted := h.budgeted
  spawned := h.spawned

theorem shortened (h : s.Regular c) {p : ProcessId} {r : Int} (pos : 0 < r)
    (lt : r < (c.process p).budget) : (s.shortened p r).Regular c where
  queues := h.queues
  budgeted := h.budgeted.setBudget ⟨pos, lt.le⟩
  spawned q := Eq.trans (State.update_field Process.spawned rfl) (h.spawned q)

theorem released (h : s.Regular c) (i : SliceId) : (s.released c i).Regular c where
  queues m := by
    simp only [State.released_partition]
    split <;> exact h.queues m
  budgeted := h.budgeted
  spawned := h.spawned

theorem serve {w k : Nat} {u t : Int} {i : SliceId} {s' : State} (h : s.Regular c)
    (serve : Serve c w u t i k s s') : s'.Regular c := by
  cases serve with
  | begun first =>
    refine (h.assigned i k first t).picked i t ?_
    cases first
    · exact h.queues k
    · exact c.processCount_pos k
  | resumed running due before found =>
    exact (h.stopped i _ t true).picked i t (CyclicSearch.seek_some (h.queues k) found).2.1
  | drained => exact (h.stopped i _ t true).sought (CyclicSearch.next_lt (h.queues k))
  | cut running closed atEnd late be remaining pos lt =>
    exact ((h.shortened pos lt).stopped i _ t false).released i
  | dropped => exact (h.stopped i _ t false).released i
  | spent => exact ((h.stopped i _ t true).released i).sought (CyclicSearch.seek_lt (h.queues k))

theorem act {w : Nat} {u t : Int} {s' : State} (h : s.Regular c) (act : Act c w u t s s') :
    s'.Regular c := by
  cases act with
  | served member serve => exact h.serve serve
  | released => exact h.released _
  | _ => exact ⟨h.queues, h.budgeted, h.spawned⟩

theorem acts {w : Nat} {u t : Int} {s' : State} (h : s.Regular c) (run : Acts c w u t s s') :
    s'.Regular c :=
  run.invariant (fun _ _ h e => h.act e) h

end State.Regular

end DemosSched
