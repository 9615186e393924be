import DemosSched.Moves
import DemosSched.Shutdown

/-! What an act leaves alone. A slice that serves one partition changes nothing of
another: its queue, its processes, the slice that runs them and its records. -/

namespace DemosSched

def Action.Foreign (k : Nat) : Action → Prop
  | .started _ p _ _ | .stopped _ p _ _ => p.part ≠ k
  | .windowStarted _ _ => False
  | _ => True

theorem Action.foreign_of_quiet {a : Action} (h : ¬a.Schedules) (k : Nat) : a.Foreign k := by
  cases a with
  | started | stopped | windowStarted => exact absurd trivial h
  | _ => trivial

structure State.Apart (k : Nat) (s s' : State) : Prop where
  completed : ∀ j, (s'.process ⟨k, j⟩).completed = (s.process ⟨k, j⟩).completed
  stored : ∀ j, (s'.process ⟨k, j⟩).actualBudget = (s.process ⟨k, j⟩).actualBudget
  current : (s'.partition k).currentProc = (s.partition k).currentProc
  running : ∀ i j, (s'.slice i).runningProcess = some ⟨k, j⟩ ↔
    (s.slice i).runningProcess = some ⟨k, j⟩
  timeout : ∀ i j, (s'.slice i).runningProcess = some ⟨k, j⟩ →
    (s'.slice i).timeout = (s.slice i).timeout
  grows : s.Grows (Action.Foreign k) s'

theorem State.Grows.fixed {α : Type} {ok : Action → Prop} {s s' : State} {f : List Action → α}
    (h : s.Grows ok s') (same : ∀ a l, ok a → f (a :: l) = f l) : f s'.history = f s.history := by
  obtain ⟨new, hnew, hok⟩ := h
  rw [hnew]
  clear hnew
  induction new with
  | nil => rfl
  | cons a new ih =>
    rw [List.cons_append, same a _ (hok a List.mem_cons_self)]
    exact ih fun b hb => hok b (List.mem_cons_of_mem _ hb)

theorem State.picked_records (c : Config) (s : State) (i : SliceId) (p : ProcessId) (t : Int) :
    ∃ older, (s.picked c i p t).history =
        .started i p t (s.process p).actualBudget :: older ∧
      (older = s.history ∨ ∃ o, older = .drawn p o :: s.history) := by
  rcases s.picked_history c i p t with h | ⟨o, h⟩
  · exact ⟨_, h, .inl rfl⟩
  · exact ⟨_, h, .inr ⟨o, rfl⟩⟩

namespace State.Apart

variable {c : Config} {k : Nat} {s s' s'' : State}

theorem trans (h : s.Apart k s') (h' : s'.Apart k s'') : s.Apart k s'' where
  completed j := (h'.completed j).trans (h.completed j)
  stored j := (h'.stored j).trans (h.stored j)
  current := h'.current.trans h.current
  running i j := (h'.running i j).trans (h.running i j)
  timeout i j hi := (h'.timeout i j hi).trans (h.timeout i j ((h'.running i j).mp hi))
  grows := h.grows.trans h'.grows

theorem noted (process : s'.process = s.process) (partition : s'.partition = s.partition)
    (slice : s'.slice = s.slice) (grows : s.Grows (Action.Foreign k) s') : s.Apart k s' where
  completed j := by rw [process]
  stored j := by rw [process]
  current := by rw [partition]
  running i j := by rw [slice]
  timeout i j _ := by rw [slice]
  grows := grows

variable {i : SliceId} {p : ProcessId} {t : Int}

theorem stopped (ne : p.part ≠ k) (running : (s.slice i).runningProcess = some p) (mark : Bool) :
    s.Apart k (s.stopped i p t mark) where
  completed j := by
    have hj : (⟨k, j⟩ : ProcessId) ≠ p := fun h => ne (h ▸ rfl)
    simp [hj]
  stored j := by
    have hj : (⟨k, j⟩ : ProcessId) ≠ p := fun h => ne (h ▸ rfl)
    simp [hj]
  current := rfl
  running l j := State.stopped_running_other running fun h => ne (h ▸ rfl)
  timeout l j _ := State.stopped_timeout
  grows := .one (a := .stopped i p t mark) ne rfl

theorem picked (ne : p.part ≠ k) (free : ∀ j, (s.slice i).runningProcess ≠ some ⟨k, j⟩) :
    s.Apart k (s.picked c i p t) where
  completed j := by
    have hj : (⟨k, j⟩ : ProcessId) ≠ p := fun h => ne (h ▸ rfl)
    rw [State.picked_process, Function.update_of_ne hj]
  stored j := by
    have hj : (⟨k, j⟩ : ProcessId) ≠ p := fun h => ne (h ▸ rfl)
    rw [State.picked_process, Function.update_of_ne hj]
  current := by rw [State.picked_partition, Function.update_of_ne (Ne.symm ne)]
  running l j := s.picked_running_other c i p t (fun h => ne (h ▸ rfl)) (free j)
  timeout l j hrun := by
    rcases (s.picked_running c i p t).mp hrun with ⟨-, hp⟩ | ⟨hl, -⟩
    · exact absurd (hp ▸ rfl) ne
    · exact s.picked_timeout c i p t hl
  grows := by
    obtain ⟨older, hh, rfl | ⟨o, rfl⟩⟩ := s.picked_records c i p t
    · exact .one (a := .started i p t (s.process p).actualBudget) ne hh
    · exact ⟨[_, _], hh, by simpa [Action.Foreign] using ne⟩

theorem assigned {m : Nat} (ne : m ≠ k) (first : Bool) : s.Apart k (s.assigned c i m first t) where
  completed j := by
    have hj : (⟨k, j⟩ : ProcessId) ∉ c.processIds m := fun h => ne (c.mem_processIds.mp h).1.symm
    simp [hj]
  stored _ := rfl
  current := by simp [Ne.symm ne]
  running l j := by rw [State.assigned_running]
  timeout l j _ := State.assigned_timeout
  grows := .one (a := .entered i m first t) trivial rfl

theorem sought {m j : Nat} (ne : m ≠ k) : s.Apart k (s.sought m j) where
  completed _ := rfl
  stored _ := rfl
  current := by simp [Ne.symm ne]
  running _ _ := .rfl
  timeout _ _ _ := rfl
  grows := .same rfl

theorem shortened (ne : p.part ≠ k) (r : Int) : s.Apart k (s.shortened p r) where
  completed j := by
    have hj : (⟨k, j⟩ : ProcessId) ≠ p := fun h => ne (h ▸ rfl)
    simp [hj]
  stored j := by
    have hj : (⟨k, j⟩ : ProcessId) ≠ p := fun h => ne (h ▸ rfl)
    simp [hj]
  current := rfl
  running _ _ := .rfl
  timeout _ _ _ := rfl
  grows := .one (a := .shortened p r) trivial rfl

theorem released : s.Apart k (s.released c i) where
  completed _ := rfl
  stored _ := rfl
  current := State.released_currentProc c s i k
  running l j := by rw [State.released_running]
  timeout l j _ := State.released_timeout
  grows := .same rfl

theorem serve {w m : Nat} {u : Int} (h : Serve c w u t i m s s') (ne : m ≠ k) : s.Apart k s' := by
  cases h with
  | begun first idle =>
    exact (assigned ne first).trans (picked ne fun j => by simp [idle])
  | resumed running =>
    exact (stopped ne running true).trans (picked ne fun j => by simp)
  | drained running => exact (stopped ne running true).trans (sought ne)
  | @cut j r running =>
    have hshort : s.Apart k (s.shortened ⟨m, j⟩ r) := shortened ne r
    have hstop : (s.shortened ⟨m, j⟩ r).Apart k
        ((s.shortened ⟨m, j⟩ r).stopped i ⟨m, j⟩ t false) :=
      stopped (s := s.shortened ⟨m, j⟩ r) ne running false
    exact (hshort.trans hstop).trans released
  | dropped running => exact (stopped ne running false).trans released
  | spent running => exact ((stopped ne running true).trans released).trans (sought ne)

end State.Apart

theorem Serve.elsewhere {c : Config} {w k : Nat} {u t : Int} {i l : SliceId} {s s' : State}
    (h : Serve c w u t i k s s') (ne : l ≠ i) :
    s'.slice l = s.slice l ∧ Action.scEnd l s'.history = Action.scEnd l s.history := by
  have hpicked : ∀ (m : State) (p : ProcessId), (m.picked c i p t).slice l = m.slice l ∧
      Action.scEnd l (m.picked c i p t).history = Action.scEnd l m.history := by
    intro m p
    refine ⟨by rw [State.picked_slice, Function.update_of_ne ne], ?_⟩
    obtain ⟨older, hh, rfl | ⟨o, rfl⟩⟩ := m.picked_records c i p t
    · rw [hh]
      rfl
    · rw [hh]
      rfl
  have hstopped : ∀ (m : State) (p : ProcessId) (mark : Bool),
      (m.stopped i p t mark).slice l = m.slice l ∧
        Action.scEnd l (m.stopped i p t mark).history = Action.scEnd l m.history := by
    intro m p mark
    simp [ne, ne.symm, Action.scEnd]
  have hreleased : ∀ m : State, (m.released c i).slice l = m.slice l := by
    intro m
    simp [ne]
  cases h with
  | begun first =>
    obtain ⟨hslice, hend⟩ := hpicked (s.assigned c i k first t)
      ⟨k, if first then 0 else (s.partition k).currentProc⟩
    exact ⟨hslice.trans (by simp [ne]), hend⟩
  | @resumed j j' =>
    obtain ⟨hslice, hend⟩ := hpicked (s.stopped i ⟨k, j⟩ t true) ⟨k, j'⟩
    exact ⟨hslice.trans (hstopped s _ true).1, hend.trans (hstopped s _ true).2⟩
  | drained => exact hstopped s _ true
  | @cut j r =>
    obtain ⟨hslice, hend⟩ := hstopped (s.shortened ⟨k, j⟩ r) ⟨k, j⟩ false
    exact ⟨(hreleased _).trans hslice, hend⟩
  | dropped => exact ⟨(hreleased _).trans (hstopped s _ false).1, (hstopped s _ false).2⟩
  | spent => exact ⟨(hreleased _).trans (hstopped s _ true).1, (hstopped s _ true).2⟩

def Action.OfSlice : Action → Prop
  | .entered _ _ _ _ | .started _ _ _ _ | .stopped _ _ _ _ | .drawn _ _ | .shortened _ _ => True
  | _ => False

theorem Serve.grows {c : Config} {w k : Nat} {u t : Int} {i : SliceId} {s s' : State}
    (h : Serve c w u t i k s s') : s.Grows Action.OfSlice s' := by
  have hpicked : ∀ (m : State) (p : ProcessId), m.Grows Action.OfSlice (m.picked c i p t) := by
    intro m p
    obtain ⟨older, hh, rfl | ⟨o, rfl⟩⟩ := m.picked_records c i p t
    · exact ⟨[_], hh, by simp [Action.OfSlice]⟩
    · exact ⟨[_, _], hh, by simp [Action.OfSlice]⟩
  have hstopped : ∀ (m : State) (p : ProcessId) (mark : Bool),
      m.Grows Action.OfSlice (m.stopped i p t mark) :=
    fun m p mark => .one (a := .stopped i p t mark) trivial rfl
  cases h with
  | begun first =>
    have hassigned : s.Grows Action.OfSlice (s.assigned c i k first t) :=
      .one (a := .entered i k first t) trivial rfl
    exact hassigned.trans (hpicked _ _)
  | resumed => exact (hstopped s _ true).trans (hpicked _ _)
  | drained => exact hstopped s _ true
  | @cut j r =>
    have hshortened : s.Grows Action.OfSlice (s.shortened ⟨k, j⟩ r) :=
      .one (a := .shortened ⟨k, j⟩ r) trivial rfl
    exact hshortened.trans (hstopped _ ⟨k, j⟩ false)
  | dropped => exact hstopped s _ false
  | spent => exact hstopped s _ true

theorem Action.course_ofSlice {a : Action} (l : List Action) (ha : a.OfSlice) :
    (course (a :: l)).stage = (course l).stage := by
  cases a with
  | entered | started | stopped | drawn | shortened => rfl
  | _ => exact absurd ha id

theorem Action.current_ofSlice {a : Action} (l : List Action) (ha : a.OfSlice) :
    current (a :: l) = current l := by
  cases a with
  | entered | started | stopped | drawn | shortened => rfl
  | _ => exact absurd ha id

end DemosSched
