import DemosSched.Effects
import Mathlib.Data.List.Nodup

/-! The two phases of a window. While SC partitions run, the window's counter is
the number of started slices that are idle; when it reaches the number of
slices every slice is idle, and only BE partitions run from then on. -/

namespace DemosSched

open Fallible Relation

theorem countP_raise {α : Type*} [DecidableEq α] {l : List α} {f g : α → Bool} {i : α}
    (nodup : l.Nodup) (member : i ∈ l) (same : ∀ j, j ≠ i → g j = f j) (low : f i = false)
    (high : g i = true) : l.countP g = l.countP f + 1 := by
  induction l with
  | nil => simp at member
  | cons a l ih =>
    rw [List.nodup_cons] at nodup
    by_cases ha : a = i
    · subst ha
      have hrest : l.countP g = l.countP f :=
        List.countP_congr fun j hj => by rw [same j (fun e => nodup.1 (e ▸ hj))]
      simp [low, high, hrest]
    · have hi : i ∈ l := by
        rcases List.mem_cons.mp member with h | h
        · exact absurd h.symm ha
        · exact h
      simp only [List.countP_cons, same a ha, ih nodup.2 hi]
      omega

theorem Config.sliceIds_nodup (c : Config) (w : Nat) : (c.sliceIds w).Nodup :=
  List.nodup_range.map fun _ _ h => by simpa using h

theorem Config.sliceIds_fresh {c : Config} {w : Nat} {i : SliceId} {done rest : List SliceId}
    (split : c.sliceIds w = done ++ i :: rest) : i ∉ done := by
  have hnodup := c.sliceIds_nodup w
  rw [split, List.nodup_append] at hnodup
  exact fun hi => hnodup.2.2 i hi i List.mem_cons_self rfl

theorem Config.length_sliceIds (c : Config) (w : Nat) :
    (c.sliceIds w).length = c.sliceCount w := by
  simp [Config.sliceIds]

def State.isIdle (s : State) (i : SliceId) : Bool := (s.slice i).runningProcess.isNone

structure ScPhase (c : Config) (w : Nat) (done : List SliceId) (calls : List Action) (s : State) :
    Prop where
  alike : ∀ i p, (s.slice i).runningProcess = some p →
    i ∈ done ∧ (s.slice i).runningPartition = c.role true i
  count : (s.window w).finishedScPartitions = done.countP s.isIdle
  opened : (s.window w).stopping = false
  unfinished : c.sliceCount w ≠ 0 → (s.window w).finishedScPartitions < c.sliceCount w
  stage : s.course.stage = .running w true
  calls : s.course.calls = calls
  entered : ∀ i p, (s.slice i).runningProcess = some p →
    s.course.role i = (c.role true i).map (·, true)
  exhausted : ∀ i ∈ done, (s.slice i).runningProcess = none → ∀ k, c.role true i = some k →
    s.Exhausted c k ∨ ∃ j p, (s.slice j).runningProcess = some p ∧ c.role true j = some k

/-- Like `ScPhase`, but slice `i` of those started is idle and not yet counted. -/
structure ScSearch (c : Config) (w : Nat) (done : List SliceId) (calls : List Action)
    (i : SliceId) (s : State) : Prop where
  alike : ∀ j p, (s.slice j).runningProcess = some p →
    j ∈ done ∧ (s.slice j).runningPartition = c.role true j
  count : (s.window w).finishedScPartitions + 1 = done.countP s.isIdle
  opened : (s.window w).stopping = false
  stage : s.course.stage = .running w true
  calls : s.course.calls = calls
  entered : ∀ j p, (s.slice j).runningProcess = some p →
    s.course.role j = (c.role true j).map (·, true)
  exhausted : ∀ j ∈ done, j ≠ i → (s.slice j).runningProcess = none →
    ∀ k, c.role true j = some k → c.role true i = some k ∨
      s.Exhausted c k ∨ ∃ l p, (s.slice l).runningProcess = some p ∧ c.role true l = some k

structure BePhase (c : Config) (w : Nat) (calls : List Action) (s : State) : Prop where
  alike : ∀ i p, (s.slice i).runningProcess = some p →
    (s.slice i).runningPartition = c.role false i
  finished : c.sliceCount w ≤ (s.window w).finishedScPartitions
  stage : s.course.stage = .running w false
  calls : s.course.calls = calls
  entered : ∀ i p, (s.slice i).runningProcess = some p →
    s.course.role i = (c.role false i).map (·, false)

namespace Window

variable {c : Config} {w : Nat}

theorem sliceScEndCb_succ (n : Nat) (i : SliceId) (t : Int) (s : State) :
    sliceScEndCb c (n + 1) i t s =
      if (s.window i.window).stopping = true then .ok (s.counted i.window)
      else if (s.window i.window).finishedScPartitions + 1 = c.sliceCount i.window then
        ((c.sliceIds i.window).foldlM (fun s j => Slice.startBe c (sliceScEndCb c n) j t s)
          ((s.counted i.window).record (.beStarted i.window t))).map
            fun s => s.record (.onBeStart i.window)
      else .ok (s.counted i.window) := by
  have hfinished : hasScFinished c i.window (s.counted i.window) = true ↔
      (s.window i.window).finishedScPartitions + 1 = c.sliceCount i.window := by
    simp [hasScFinished]
  have hstopping : ((s.counted i.window).window i.window).stopping =
      (s.window i.window).stopping := by simp
  unfold sliceScEndCb
  change (if ((s.counted i.window).window i.window).stopping = true then
      Except.ok (s.counted i.window)
    else if hasScFinished c i.window (s.counted i.window) = true then
      ((c.sliceIds i.window).foldlM (fun s j => Slice.startBe c (sliceScEndCb c n) j t s)
        ((s.counted i.window).record (.beStarted i.window t))).bind
          fun s => Except.ok (s.record (.onBeStart i.window))
    else Except.ok (s.counted i.window)) = _
  simp only [hfinished, hstopping]
  congr 2

theorem sliceScEndCb_finished {i : SliceId} {t : Int} {s : State} (n : Nat)
    (h : c.sliceCount i.window ≤ (s.window i.window).finishedScPartitions) :
    sliceScEndCb c (n + 1) i t s = .ok (s.counted i.window) := by
  rw [sliceScEndCb_succ, if_neg (show ¬_ = c.sliceCount i.window by omega), ite_self]

end Window

namespace BePhase

variable {c : Config} {w : Nat} {calls : List Action}

theorem searched {k : Nat} {s s' : State} (h : BePhase c w calls s)
    (hs : Slice.Searched c w k s s') : BePhase c w calls s' where
  alike := by rw [hs.slice]; exact h.alike
  finished := by rw [hs.window]; exact h.finished
  stage := by rw [hs.course]; exact h.stage
  calls := by rw [hs.course]; exact h.calls
  entered := by rw [hs.slice, hs.course]; exact h.entered

theorem counted {s : State} (h : BePhase c w calls s) : BePhase c w calls (s.counted w) where
  alike := h.alike
  finished := by
    have := h.finished
    simp only [State.counted_window, Function.update_self]
    omega
  stage := h.stage
  calls := h.calls
  entered := h.entered

theorem selected {i : SliceId} {p : ProcessId} {b : Int} {s s₁ : State} (h : BePhase c w calls s)
    (hs : Slice.Selected c w i p b s s₁) : BePhase c w calls s₁ := by
  rcases hs.drew_or_same with rfl | rfl
  · exact h
  · exact ⟨h.alike, h.finished, h.stage, h.calls, h.entered⟩

theorem launched {i : SliceId} {p : ProcessId} {k : Nat} {t b : Int} {s : State}
    (h : BePhase c w calls s) (owner : (s.slice i).runningPartition = some k)
    (role : c.role false i = some k) (entered : s.course.role i = some (k, false)) :
    BePhase c w calls (s.launched c i p t b) where
  alike j q hq := by
    rw [State.launched_runningPartition]
    rcases State.launched_running.mp hq with ⟨rfl, -⟩ | ⟨-, hq⟩
    · rw [owner, role]
    · exact h.alike j q hq
  finished := h.finished
  stage := h.stage
  calls := h.calls
  entered j q hq := by
    change s.course.role j = _
    rcases State.launched_running.mp hq with ⟨rfl, -⟩ | ⟨-, hq⟩
    · rw [entered, role]
      rfl
    · exact h.entered j q hq

theorem assigned {i : SliceId} {s : State} (k : Nat) (first : Bool) (t : Int)
    (h : BePhase c w calls s) (idle : (s.slice i).runningProcess = none) :
    BePhase c w calls (s.assigned c i k first t) where
  alike j q hq := by
    rw [State.assigned_running] at hq
    rw [State.assigned_slice, Function.update_of_ne (s.ne_of_idle idle hq)]
    exact h.alike j q hq
  finished := h.finished
  stage := h.stage
  calls := h.calls
  entered j q hq := by
    rw [State.assigned_running] at hq
    rw [State.assigned_role, Function.update_of_ne (s.ne_of_idle idle hq)]
    exact h.entered j q hq

theorem stopped {s : State} (i : SliceId) (p : ProcessId) (t : Int) (mark : Bool)
    (h : BePhase c w calls s) : BePhase c w calls (s.stopped i p t mark) where
  alike j q hq := by
    rw [State.stopped_runningPartition]
    exact h.alike j q (State.stopped_running.mp hq).2
  finished := h.finished
  stage := h.stage
  calls := h.calls
  entered j q hq := h.entered j q (State.stopped_running.mp hq).2

theorem startNext {i : SliceId} {k n m : Nat} {t : Int} {s s' : State} (h : BePhase c w calls s)
    (valid : s.QueuesValid c) (seeking : Slice.Seeking c w i k s) (held : s.Held c i k)
    (role : c.role false i = some k) (entered : s.course.role i = some (k, false))
    (run : (Slice.selectNext c i k n s).bind
      (Slice.conclude c (Window.sliceScEndCb c (m + 1)) i k t) = .ok s') :
    Effects c w t s s' ∧ BePhase c w calls s' := by
  rcases Slice.startNext_cases valid seeking run with
    ⟨p, b, s₂, s₁, hpart, hb, hs, hsel, rfl⟩ | ⟨s₁, hs, -, hend⟩
  · have hentered : s₂.course.role i = some (p.part, false) := by
      rw [hs.course, hpart]
      exact entered
    have hrole : s₂.InRole w i p.part := ⟨false, (h.searched hs).stage, hentered⟩
    refine ⟨(hs.effects t).tail (.launched hsel hb (hpart ▸ hs.held held) hrole), ?_⟩
    refine ((h.searched hs).selected hsel).launched ?_ role ?_
    · rcases hsel.drew_or_same with rfl | rfl <;> exact hpart ▸ hsel.owner
    · rcases hsel.drew_or_same with rfl | rfl <;> exact hpart ▸ hentered
  · split at hend
    · obtain ⟨rfl, -⟩ := c.mem_sliceIds.mp seeking.member
      rw [Window.sliceScEndCb_finished m (h.searched hs).finished, Except.ok.injEq] at hend
      exact hend ▸ ⟨(hs.effects t).tail (.windowSet _ rfl), (h.searched hs).counted⟩
    · rw [Except.ok.injEq] at hend
      exact hend ▸ ⟨hs.effects t, h.searched hs⟩

theorem startBe {i : SliceId} {m : Nat} {t : Int} {s s' : State} (h : BePhase c w calls s)
    (valid : s.QueuesValid c) (member : i ∈ c.sliceIds w)
    (run : Slice.startBe c (Window.sliceScEndCb c (m + 1)) i t s = .ok s') :
    Effects c w t s s' ∧ BePhase c w calls s' := by
  unfold Slice.startBe at run
  split at run
  · rw [Except.ok.injEq] at run
    exact run ▸ ⟨.refl, h⟩
  · next k hk =>
    obtain ⟨idle, run⟩ := Slice.startPartition_ok c _ run
    have hrole : c.role false i = some k := by simpa [Config.role] using hk
    have hentered := Effect.entered (s := s) (t := t) false member idle hrole h.alike
    have hnext := (h.assigned k false t idle).startNext
      (valid.effect hentered) ⟨member, by simpa using idle, by simp⟩
      (fun _ => by simp) hrole (by simp) run
    exact ⟨.head hentered hnext.1, hnext.2⟩

end BePhase

/-- The phase of a window while its slices are started: `done` are, and `calls` were
made of the power policy. -/
def Starting (c : Config) (w : Nat) (done : List SliceId) (calls : List Action) (s : State) : Prop :=
  ScPhase c w done calls s ∨ BePhase c w (.onBeStart w :: calls) s ∧ done = c.sliceIds w

/-- The phase of a window between its handlers. The BE phase can begin before the
window has announced itself. -/
def Phase (c : Config) (w : Nat) (s : State) : Prop :=
  Starting c w (c.sliceIds w) (Action.opening w) s ∨
    BePhase c w (Action.opening w ++ [.onBeStart w]) s

theorem State.allIdle_of_countP {s : State} {done : List SliceId}
    (within : ∀ j p, (s.slice j).runningProcess = some p → j ∈ done)
    (full : done.countP s.isIdle = done.length) : s.AllIdle := by
  intro j
  cases hj : (s.slice j).runningProcess with
  | none => rfl
  | some p =>
    have hidle := List.countP_eq_length.mp full j (within j p hj)
    simp [State.isIdle, hj] at hidle

namespace Window

variable {c : Config} {w : Nat} {calls : List Action}

theorem beStarted_phase {t : Int} {s : State} (idle : s.AllIdle)
    (full : (s.window w).finishedScPartitions + 1 = c.sliceCount w) :
    BePhase c w s.course.calls ((s.counted w).record (.beStarted w t)) where
  alike j p hp := by simp [idle j] at hp
  finished := by simp [← full]
  stage := rfl
  calls := rfl
  entered j p hp := by simp [idle j] at hp

theorem scDone_phase {i : SliceId} {t : Int} {done rest : List SliceId} {s s' : State}
    (split : c.sliceIds w = done ++ rest) (member : i ∈ c.sliceIds w) (valid : s.QueuesValid c)
    (h : ScSearch c w done calls i s) (exhausted : ∀ k, c.role true i = some k → s.Exhausted c k)
    (run : scDone c i t s = .ok s') : Effects c w t s s' ∧ Starting c w done calls s' := by
  obtain ⟨rfl, -⟩ := c.mem_sliceIds.mp member
  have hlength : done.length + rest.length = c.sliceCount i.window := by
    rw [← c.length_sliceIds, split, List.length_append]
  have hcounted : Effects c i.window t s (s.counted i.window) := .single (.windowSet _ rfl)
  have hcount : ((s.counted i.window).window i.window).finishedScPartitions =
      done.countP s.isIdle := by simpa using h.count
  have hexhausted : ∀ j ∈ done, (s.slice j).runningProcess = none → ∀ k, c.role true j = some k →
      s.Exhausted c k ∨ ∃ l p, (s.slice l).runningProcess = some p ∧ c.role true l = some k := by
    intro j hj hidle k hk
    by_cases hji : j = i
    · exact .inl (exhausted k (hji ▸ hk))
    · rcases h.exhausted j hj hji hidle k hk with hown | hrest
      · exact .inl (exhausted k hown)
      · exact hrest
  rw [scDone, sliceScEndCb_succ, if_neg (by simp [h.opened]), h.count] at run
  split at run
  · -- every slice is idle, and the BE partitions are started one after the other
    next hfull =>
    have hdone : done = c.sliceIds i.window := by
      have := List.countP_le_length (p := s.isIdle) (l := done)
      have hrest : rest = [] := List.eq_nil_of_length_eq_zero (by omega)
      rw [split, hrest, List.append_nil]
    have hidle : s.AllIdle := s.allIdle_of_countP (fun j p hj => (h.alike j p hj).1) (by
      rw [hfull, hdone, c.length_sliceIds])
    have hopens : (s.counted i.window).Opens c i.window (.beStarted i.window t) := by
      refine ⟨rfl, hidle, by simpa using h.opened, h.stage, fun j hj k hk => ?_⟩
      rcases hexhausted j (hdone ▸ hj) (hidle j) k hk with he | ⟨l, p, hl, -⟩
      · exact he
      · simp [hidle l] at hl
    have hphase : BePhase c i.window calls
        ((s.counted i.window).record (.beStarted i.window t)) :=
      h.calls ▸ beStarted_phase hidle (h.count.trans hfull)
    rw [map_eq_ok] at run
    obtain ⟨s₁, hfold, rfl⟩ := run
    have hbegin : Effects c i.window t s ((s.counted i.window).record (.beStarted i.window t)) :=
      hcounted.tail (.noted _ trivial hopens)
    have hall : Effects c i.window t s s₁ ∧ BePhase c i.window calls s₁ :=
      foldlM_keeps (fun s₂ => Effects c i.window t s s₂ ∧ BePhase c i.window calls s₂)
        (fun j hj s₂ s₃ hs h =>
          have hstart := hs.2.startBe (valid.effects hs.1) hj h
          ⟨hs.1.trans hstart.1, hstart.2⟩)
        ⟨hbegin, hphase⟩ hfold
    refine ⟨hall.1.tail (.noted (.onBeStart i.window) trivial trivial), .inr ⟨?_, hdone⟩⟩
    exact ⟨hall.2.alike, hall.2.finished, hall.2.stage, congrArg _ hall.2.calls, hall.2.entered⟩
  · next hfull =>
    rw [Except.ok.injEq] at run
    have hlt : ((s.counted i.window).window i.window).finishedScPartitions <
        c.sliceCount i.window := by
      have := List.countP_le_length (p := s.isIdle) (l := done)
      rw [hcount]
      omega
    exact run ▸ ⟨hcounted, .inl ⟨h.alike, hcount, by simpa using h.opened, fun _ => hlt, h.stage,
      h.calls, h.entered, hexhausted⟩⟩

end Window

namespace ScSearch

variable {c : Config} {w : Nat} {calls : List Action}

theorem assigned {i : SliceId} {k : Nat} {done : List SliceId} {s : State} (t : Int)
    (h : ScSearch c w done calls i s) (idle : (s.slice i).runningProcess = none)
    (role : c.role true i = some k) : ScSearch c w done calls i (s.assigned c i k true t) := by
  have hrunning : ∀ j, ((s.assigned c i k true t).slice j).runningProcess =
      (s.slice j).runningProcess := fun _ => State.assigned_running
  have hne : ∀ j p, (s.slice j).runningProcess = some p → j ≠ i :=
    fun _ _ => s.ne_of_idle idle
  refine ⟨fun j p hp => ?_, ?_, h.opened, h.stage, h.calls, fun j p hp => ?_,
    fun j hj hji hidle m hm => ?_⟩
  · rw [hrunning] at hp
    simpa [hne j p hp] using h.alike j p hp
  · have hsame : (s.assigned c i k true t).isIdle = s.isIdle := by
      funext j
      rw [State.isIdle, State.isIdle, hrunning]
    rw [hsame]
    exact h.count
  · rw [hrunning] at hp
    simpa [hne j p hp] using h.entered j p hp
  · rw [hrunning] at hidle
    simp only [hrunning]
    rcases h.exhausted j hj hji hidle m hm with hown | he | hrun
    · exact .inl hown
    · by_cases hmk : m = k
      · exact .inl (hmk ▸ role)
      · refine .inr (.inl fun x hx => ?_)
        have hother : (⟨m, x⟩ : ProcessId) ∉ c.processIds k := fun hmem =>
          hmk (c.mem_processIds.mp hmem).1
        simpa [Process.isPending, Process.isSpawned, hother] using he x hx
    · exact .inr (.inr hrun)

theorem searched {i : SliceId} {k : Nat} {done : List SliceId} {s s₁ : State}
    (h : ScSearch c w done calls i s) (role : c.role true i = some k)
    (hs : Slice.Searched c w k s s₁) : ScSearch c w done calls i s₁ where
  alike := by rw [hs.slice]; exact h.alike
  count := by
    have hidle : s₁.isIdle = s.isIdle := by
      funext j
      simp [State.isIdle, hs.slice]
    rw [hs.window, hidle]
    exact h.count
  opened := by rw [hs.window]; exact h.opened
  stage := by rw [hs.course]; exact h.stage
  calls := by rw [hs.course]; exact h.calls
  entered := by rw [hs.slice, hs.course]; exact h.entered
  exhausted := by
    intro j hj hji hidle m hm
    rw [hs.slice] at hidle ⊢
    rcases h.exhausted j hj hji hidle m hm with hown | he | hrun
    · exact .inl hown
    · by_cases hmk : m = k
      · exact .inl (hmk ▸ role)
      · exact .inr (.inl (hs.exhausted hmk he))
    · exact .inr (.inr hrun)

theorem launched {i : SliceId} {k : Nat} {t b : Int} {p : ProcessId} {done : List SliceId}
    {s s₂ s₁ : State} (h : ScSearch c w done calls i s) (nodup : done.Nodup) (hi : i ∈ done)
    (seeking : Slice.Seeking c w i k s) (role : c.role true i = some k)
    (entered : s.course.role i = some (k, true))
    (unfinished : c.sliceCount w ≠ 0 → (s.window w).finishedScPartitions < c.sliceCount w)
    (hs : Slice.Searched c w k s s₂) (hsel : Slice.Selected c w i p b s₂ s₁)
    (part : p.part = k) : ScPhase c w done calls (s₁.launched c i p t b) := by
  obtain ⟨hslice, hwindow, hcourse⟩ : s₁.slice = s.slice ∧ s₁.window = s.window ∧
      s₁.course = s.course := by
    rcases hsel.drew_or_same with rfl | rfl <;> exact ⟨hs.slice, hs.window, hs.course⟩
  have hrunning : ((s₁.launched c i p t b).slice i).runningProcess = some p := by simp
  exact
    { alike := by
        intro j q hq
        rw [State.launched_runningPartition, hslice]
        rcases State.launched_running.mp hq with ⟨rfl, -⟩ | ⟨-, hq⟩
        · exact ⟨hi, by rw [seeking.owner, role]⟩
        · exact h.alike j q (hslice ▸ hq)
      count := by
        have hraise : done.countP s.isIdle = done.countP (s₁.launched c i p t b).isIdle + 1 :=
          countP_raise nodup hi (fun j hj => by simp [State.isIdle, hj, hslice])
            (by simp [State.isIdle]) (by simp [State.isIdle, seeking.idle])
        have := h.count
        rw [State.launched_window, hwindow]
        omega
      opened := by rw [State.launched_window, hwindow]; exact h.opened
      unfinished := by rw [State.launched_window, hwindow]; exact unfinished
      stage := by rw [← h.stage, ← hcourse]; rfl
      calls := by rw [← h.calls, ← hcourse]; rfl
      entered := by
        intro j q hq
        change s₁.course.role j = _
        rw [hcourse]
        rcases State.launched_running.mp hq with ⟨rfl, -⟩ | ⟨-, hq⟩
        · rw [entered, role]
          rfl
        · exact h.entered j q (hslice ▸ hq)
      exhausted := by
        intro j hj hidle m hm
        by_cases hmk : m = k
        · exact .inr ⟨i, p, hrunning, hmk ▸ role⟩
        have hji : j ≠ i := by
          rintro rfl
          rw [role, Option.some.injEq] at hm
          exact hmk hm.symm
        simp only [State.launched_slice, Function.update_of_ne hji, hslice] at hidle
        rcases h.exhausted j hj hji hidle m hm with hown | he | ⟨l, q, hl, hlm⟩
        · rw [role, Option.some.injEq] at hown
          exact absurd hown.symm hmk
        · refine .inl fun x hx => ?_
          have hne : (⟨m, x⟩ : ProcessId) ≠ p := fun e => hmk (by rw [← part, ← e])
          have hsame : (s₁.launched c i p t b).process ⟨m, x⟩ = s₂.process ⟨m, x⟩ := by
            rcases hsel.drew_or_same with rfl | rfl <;> simp [hne]
          simpa only [Process.isPending, Process.isSpawned, hsame] using hs.exhausted hmk he x hx
        · refine .inr ⟨l, q, ?_, hlm⟩
          have hli : l ≠ i := by
            rintro rfl
            rw [seeking.idle] at hl
            simp at hl
          simpa [hli, hslice] using hl }

theorem startNext {i : SliceId} {k n : Nat} {t : Int} {done rest : List SliceId} {s s' : State}
    (h : ScSearch c w done calls i s) (split : c.sliceIds w = done ++ rest) (hi : i ∈ done)
    (valid : s.QueuesValid c) (seeking : Slice.Seeking c w i k s) (held : s.Held c i k)
    (role : c.role true i = some k) (entered : s.course.role i = some (k, true))
    (unfinished : c.sliceCount w ≠ 0 → (s.window w).finishedScPartitions < c.sliceCount w)
    (run : (Slice.selectNext c i k n s).bind
      (Slice.conclude c (Window.scDone c) i k t) = .ok s') :
    Effects c w t s s' ∧ Starting c w done calls s' := by
  have hnodup : done.Nodup := (List.nodup_append.mp (split ▸ c.sliceIds_nodup w)).1
  rcases Slice.startNext_cases valid seeking run with
    ⟨p, b, s₂, s₁, hpart, hb, hs, hsel, rfl⟩ | ⟨s₁, hs, hnone, hend⟩
  · have hrole : s₂.InRole w i p.part := by
      refine ⟨true, ?_, ?_⟩
      · rw [hs.course]
        exact h.stage
      · rw [hs.course, hpart]
        exact entered
    exact ⟨(hs.effects t).tail (.launched hsel hb (hpart ▸ hs.held held) hrole),
      .inl (h.launched hnodup hi seeking role entered unfinished hs hsel hpart)⟩
  · have hsc : (c.slice i).sc = some k := by simpa [Config.role] using role
    rw [if_pos hsc] at hend
    have hphase := Window.scDone_phase split seeking.member (valid.effects (hs.effects t))
      (h.searched role hs) (fun m hm => by
        rw [role, Option.some.injEq] at hm
        exact hm ▸ hnone) hend
    exact ⟨(hs.effects t).trans hphase.1, hphase.2⟩

end ScSearch

namespace ScPhase

variable {c : Config} {w : Nat} {calls : List Action}

theorem next {i : SliceId} {done rest : List SliceId} {s : State} (h : ScPhase c w done calls s)
    (split : c.sliceIds w = done ++ i :: rest) :
    (s.slice i).runningProcess = none ∧ ScSearch c w (done ++ [i]) calls i s := by
  have hfresh : i ∉ done := Config.sliceIds_fresh split
  have hidle : (s.slice i).runningProcess = none := by
    cases hrun : (s.slice i).runningProcess with
    | none => rfl
    | some p => exact absurd (h.alike i p hrun).1 hfresh
  exact ⟨hidle,
    { alike := fun j p hp => ⟨List.mem_append_left _ (h.alike j p hp).1, (h.alike j p hp).2⟩
      count := by simp [List.countP_append, h.count, State.isIdle, hidle]
      opened := h.opened
      stage := h.stage
      calls := h.calls
      entered := h.entered
      exhausted := fun j hj hji hidle k hk =>
        .inr (h.exhausted j (by simpa [hji] using hj) hidle k hk) }⟩

theorem startSc {i : SliceId} {t : Int} {done rest : List SliceId} {s s' : State}
    (h : ScPhase c w done calls s) (split : c.sliceIds w = done ++ i :: rest)
    (valid : s.QueuesValid c) (run : Slice.startSc c (Window.scDone c) i t s = .ok s') :
    Effects c w t s s' ∧ Starting c w (done ++ [i]) calls s' := by
  have hsplit : c.sliceIds w = (done ++ [i]) ++ rest := by simpa using split
  have hmember : i ∈ c.sliceIds w := by simp [split]
  obtain ⟨hidle, hsearch⟩ := h.next split
  unfold Slice.startSc at run
  split at run
  · next hk =>
    exact Window.scDone_phase hsplit hmember valid hsearch
      (fun k hk' => by simp [Config.role, hk] at hk') run
  · next k hk =>
    have hrole : c.role true i = some k := by simpa [Config.role] using hk
    obtain ⟨-, run⟩ := Slice.startPartition_ok c _ run
    have hentered := Effect.entered (s := s) (t := t) true hmember hidle hrole
      fun j q hq => (h.alike j q hq).2
    have hnext := (hsearch.assigned t hidle hrole).startNext hsplit (by simp)
      (valid.effect hentered) ⟨hmember, by simpa using hidle, by simp⟩ (fun _ => by simp) hrole
      (by simp) h.unfinished run
    exact ⟨.head hentered hnext.1, hnext.2⟩

end ScPhase

theorem ScPhase.stopped {c : Config} {w : Nat} {calls : List Action} {i : SliceId} {p : ProcessId}
    {s : State} (h : ScPhase c w (c.sliceIds w) calls s) (member : i ∈ c.sliceIds w)
    (running : (s.slice i).runningProcess = some p) (t : Int) :
    ScSearch c w (c.sliceIds w) calls i (s.stopped i p t true) := by
  have hother : ∀ j q, ((s.stopped i p t true).slice j).runningProcess = some q →
      j ≠ i ∧ (s.slice j).runningProcess = some q := fun _ _ => State.stopped_running.mp
  refine ⟨fun j q hq => ?_, ?_, h.opened, h.stage, h.calls, fun j q hq => ?_,
    fun j hj hji hidle k hk => ?_⟩
  · obtain ⟨hj, hq'⟩ := hother j q hq
    simpa [hj] using h.alike j q hq'
  · have hraise : (c.sliceIds w).countP (s.stopped i p t true).isIdle =
        (c.sliceIds w).countP s.isIdle + 1 :=
      countP_raise (c.sliceIds_nodup w) member
        (fun j hj => by simp [State.isIdle, hj]) (by simp [State.isIdle, running])
        (by simp [State.isIdle])
    rw [hraise, ← h.count, State.stopped_window]
  · exact h.entered j q (hother j q hq).2
  · simp only [State.stopped_slice, Function.update_of_ne hji] at hidle
    rcases h.exhausted j hj hidle k hk with he | ⟨l, q, hl, hlk⟩
    · refine .inr (.inl fun x hx => ?_)
      have hpending := he x hx
      by_cases hp : (⟨k, x⟩ : ProcessId) = p
      · subst hp
        simp [Process.isPending]
      · simpa [Process.isPending, Process.isSpawned, hp] using hpending
    · by_cases hli : l = i
      · exact .inl (hli ▸ hlk)
      · exact .inr (.inr ⟨l, q, State.stopped_running.mpr ⟨hli, hl⟩, hlk⟩)

namespace Slice

variable {c : Config} {w : Nat}

theorem scheduleNext_stopped {i : SliceId} {t : Int} {s s' : State}
    (h : Phase c w s) (valid : s.QueuesValid c) (member : i ∈ c.sliceIds w)
    (held : ∀ k, (s.slice i).runningPartition = some k → s.Held c i k)
    (run : scheduleNext c (Window.scDone c) i t s = .ok s') :
    ∃ p, (s.slice i).runningProcess = some p ∧ Effects c w t (s.stopped i p t true) s' ∧
      Phase c w s' := by
  obtain ⟨p, k, hp, hk, run⟩ := scheduleNext_ok c _ run
  have hvalid := valid.effect (.stopped (t := t) true member hp)
  have seeking : Seeking c w i k (s.stopped i p t true) :=
    ⟨member, by simp, by simpa using hk⟩
  have hbe : ∀ calls, BePhase c w calls s →
      Effects c w t (s.stopped i p t true) s' ∧ BePhase c w calls s' := by
    intro calls h
    have hrole : c.role false i = some k := (h.alike i p hp).symm.trans hk
    exact (h.stopped i p t true).startNext hvalid seeking (held k hk) hrole
      ((h.entered i p hp).trans (by rw [hrole]; rfl)) run
  rcases h with (h | ⟨h, -⟩) | h
  · have hrole : c.role true i = some k := (h.alike i p hp).2.symm.trans hk
    have hnext := (h.stopped member hp t).startNext (List.append_nil _).symm member hvalid seeking
      (held k hk) hrole ((h.entered i p hp).trans (by rw [hrole]; rfl)) h.unfinished run
    exact ⟨p, hp, hnext.1, .inl hnext.2⟩
  · have hnext := hbe _ h
    exact ⟨p, hp, hnext.1, .inl (.inr ⟨hnext.2, rfl⟩)⟩
  · have hnext := hbe _ h
    exact ⟨p, hp, hnext.1, .inr hnext.2⟩

theorem scheduleNext_phase {i : SliceId} {t : Int} {s s' : State}
    (h : Phase c w s) (valid : s.QueuesValid c) (member : i ∈ c.sliceIds w)
    (held : ∀ k, (s.slice i).runningPartition = some k → s.Held c i k)
    (run : scheduleNext c (Window.scDone c) i t s = .ok s') :
    Effects c w t s s' ∧ Phase c w s' := by
  obtain ⟨p, hp, heffects, hphase⟩ := scheduleNext_stopped h valid member held run
  exact ⟨.head (.stopped true member hp) heffects, hphase⟩

end Slice

namespace Window

variable {c : Config} {w : Nat}

structure Startable (c : Config) (w : Nat) (s : State) : Prop where
  idle : s.AllIdle
  closed : s.course.stage = .closed
  opened : (s.window w).stopping = false
  valid : s.QueuesValid c

theorem begun_scPhase {t : Int} {s : State} (idle : s.AllIdle)
    (opened : (s.window w).stopping = false) :
    ScPhase c w [] [] ((s.record (.windowStarted w t)).setWindow w
      { s.window w with finishedScPartitions := 0 }) := by
  have hnone : ∀ i p, ¬(s.slice i).runningProcess = some p := fun i p hp => by
    rw [idle i] at hp
    simp at hp
  exact
    { alike := fun i p hp => absurd hp (hnone i p)
      count := by simp
      opened := by simpa using opened
      unfinished := fun hne => by simp; omega
      stage := rfl
      calls := rfl
      entered := fun i p hp => absurd hp (hnone i p)
      exhausted := by simp }

/-- A window started while nothing runs is in one of its phases. -/
theorem start_phase {t : Int} {s s' : State} (h : Startable c w s)
    (run : start c w t s = .ok s') : Effects c w t s s' ∧ Phase c w s' := by
  simp only [start, bind_def, bind_eq_ok, pure_def, Except.ok.injEq] at run
  obtain ⟨s₁, hfold, rfl⟩ := run
  have hbegin : Effects c w t s ((s.record (.windowStarted w t)).setWindow w
      { s.window w with finishedScPartitions := 0 }) :=
    .tail (.single (.noted (.windowStarted w t) trivial ⟨rfl, h.idle, h.closed⟩)) (.windowSet _ rfl)
  have hall : Effects c w t s s₁ ∧ Starting c w (c.sliceIds w) [] s₁ := by
    refine foldlM_induct (fun done s₂ => Effects c w t s s₂ ∧ Starting c w done [] s₂) ?_
      ⟨hbegin, .inl (begun_scPhase h.idle h.opened)⟩ hfold
    intro done i rest s₂ s₃ hsplit hs hstart
    rcases hs with ⟨heffects, hphase | ⟨-, hdone⟩⟩
    · have hnext := hphase.startSc hsplit (h.valid.effects heffects) hstart
      exact ⟨heffects.trans hnext.1, hnext.2⟩
    · -- the list ended with the slice that began the BE phase
      have hlength := congrArg List.length hsplit
      rw [hdone] at hlength
      simp at hlength
  refine ⟨(hall.1.tail (.noted (.onWindowStart w) trivial trivial)).tail
    (.noted (.onScStart w) trivial trivial), ?_⟩
  have hcalls : ∀ calls, s₁.course.calls = calls →
      ((s₁.record (.onWindowStart w)).record (.onScStart w)).course.calls =
        Action.opening w ++ calls := by
    rintro _ rfl
    rfl
  rcases hall.2 with h | ⟨h, -⟩
  · exact .inl (.inl ⟨h.alike, h.count, h.opened, h.unfinished, h.stage, hcalls _ h.calls,
      h.entered, h.exhausted⟩)
  · exact .inr ⟨h.alike, h.finished, h.stage, hcalls _ h.calls, h.entered⟩

end Window

end DemosSched
