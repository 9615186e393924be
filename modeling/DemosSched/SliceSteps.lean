import DemosSched.Window

/-! What a call of each slice operation leaves behind, written out as one state.
The operations are inverted here once; later proofs use the states. -/

namespace DemosSched

open Fallible

namespace State

variable (c : Config) (s : State)

@[simps] def stopped (i : SliceId) (p : ProcessId) (t : Int) (mark : Bool) : State :=
  { s with
    process := Function.update s.process p { s.process p with
      frozen := true, completed := (s.process p).completed || mark }
    slice := Function.update s.slice i { s.slice i with armed := false, runningProcess := none }
    history := .stopped i p t mark :: s.history }

@[simps] def launched (i : SliceId) (p : ProcessId) (t budget : Int) : State :=
  { s with
    process := Function.update s.process p { s.process p with
      frozen := false
      demosCompleted := false
      continueTokens := (s.process p).continueTokens +
        if (s.process p).demosCompleted then 1 else 0
      actualBudget := (c.process p).budget }
    slice := Function.update s.slice i { s.slice i with
      runningProcess := some p, timeout := t + budget * nsPerMs, armed := true }
    history := .started i p t budget :: s.history }

@[simps] def assigned (i : SliceId) (k : Nat) (first : Bool) (t : Int) : State :=
  { s with
    process := fun p => { s.process p with
      completed := (s.process p).completed && decide (p ∉ c.processIds k) }
    partition := Function.update s.partition k { s.partition k with
      currentProc := if first then 0 else (s.partition k).currentProc
      currentCpus := (c.slice i).cpus
      completionCb := .slice i }
    slice := Function.update s.slice i { s.slice i with runningPartition := some k }
    history := .entered i k first t :: s.history }

@[simps] def sought (k j : Nat) : State :=
  { s with partition := Function.update s.partition k { s.partition k with currentProc := j } }

@[simps] def skipped (i : SliceId) (p : ProcessId) : State :=
  { s with
    process := Function.update s.process p { s.process p with completed := true }
    history := .skipped i p :: s.history }

@[simps] def counted (w : Nat) : State :=
  { s with window := Function.update s.window w { s.window w with
      finishedScPartitions := (s.window w).finishedScPartitions + 1 } }

@[simps] def drew (p : ProcessId) : State :=
  { s with
    gen := fun n => s.gen (n + 1)
    history := .drawn p (Process.jitterOffset (c.process p).jitter (s.gen 0)) :: s.history }

@[simps] def shortened (p : ProcessId) (r : Int) : State :=
  { s with
    process := Function.update s.process p { s.process p with actualBudget := r }
    history := .shortened p r :: s.history }

@[simps] def released (i : SliceId) : State :=
  { s with
    slice := Function.update s.slice i { s.slice i with armed := false }
    partition := fun k => if k ∈ (c.slice i).partitions then
      { s.partition k with completionCb := .ignore } else s.partition k }

theorem released_stopped (i : SliceId) (p : ProcessId) (t : Int) (mark : Bool) :
    (s.released c i).stopped i p t mark = (s.stopped i p t mark).released c i := by
  simp [released, stopped]

section Slices

theorem ne_of_idle {i j : SliceId} {p : ProcessId} (idle : (s.slice i).runningProcess = none)
    (running : (s.slice j).runningProcess = some p) : j ≠ i := by
  rintro rfl
  simp [idle] at running

theorem update_field {ι α β : Type*} [DecidableEq ι] {f : ι → α} {v : α} {i l : ι}
    (field : α → β) (same : field v = field (f i)) :
    field (Function.update f i v l) = field (f l) := by
  by_cases hl : l = i
  · subst hl
    rwa [Function.update_self]
  · rw [Function.update_of_ne hl]

variable {c s} {i l : SliceId} {p q : ProcessId} {k : Nat} {t b : Int} {mark first : Bool}

theorem stopped_running : ((s.stopped i p t mark).slice l).runningProcess = some q ↔
    l ≠ i ∧ (s.slice l).runningProcess = some q := by
  by_cases hl : l = i
  · subst hl
    simp
  · simp [hl]

theorem stopped_running_other (running : (s.slice i).runningProcess = some p) (ne : p ≠ q) :
    ((s.stopped i p t mark).slice l).runningProcess = some q ↔
      (s.slice l).runningProcess = some q := by
  rw [stopped_running]
  refine ⟨And.right, fun hl => ⟨?_, hl⟩⟩
  rintro rfl
  rw [running, Option.some.injEq] at hl
  exact ne hl

theorem stopped_armed : ((s.stopped i p t mark).slice l).armed = true ↔
    l ≠ i ∧ (s.slice l).armed = true := by
  by_cases hl : l = i
  · subst hl
    simp
  · simp [hl]

theorem stopped_timeout : ((s.stopped i p t mark).slice l).timeout = (s.slice l).timeout :=
  update_field Slice.timeout rfl

theorem stopped_runningPartition :
    ((s.stopped i p t mark).slice l).runningPartition = (s.slice l).runningPartition :=
  update_field Slice.runningPartition rfl

theorem launched_running : ((s.launched c i p t b).slice l).runningProcess = some q ↔
    l = i ∧ p = q ∨ l ≠ i ∧ (s.slice l).runningProcess = some q := by
  by_cases hl : l = i
  · subst hl
    simp
  · simp [hl]

theorem launched_runningPartition :
    ((s.launched c i p t b).slice l).runningPartition = (s.slice l).runningPartition :=
  update_field Slice.runningPartition rfl

theorem assigned_running :
    ((s.assigned c i k first t).slice l).runningProcess = (s.slice l).runningProcess :=
  update_field Slice.runningProcess rfl

theorem assigned_armed : ((s.assigned c i k first t).slice l).armed = (s.slice l).armed :=
  update_field Slice.armed rfl

theorem assigned_timeout : ((s.assigned c i k first t).slice l).timeout = (s.slice l).timeout :=
  update_field Slice.timeout rfl

theorem released_running :
    ((s.released c i).slice l).runningProcess = (s.slice l).runningProcess :=
  update_field Slice.runningProcess rfl

theorem released_armed : ((s.released c i).slice l).armed = true ↔
    l ≠ i ∧ (s.slice l).armed = true := by
  by_cases hl : l = i
  · subst hl
    simp
  · simp [hl]

theorem released_timeout : ((s.released c i).slice l).timeout = (s.slice l).timeout :=
  update_field Slice.timeout rfl

end Slices

end State

namespace Process

variable (c : Config) (p : ProcessId) (s : State)

theorem getActualBudget_ok {b : Int} {s' : State} :
    getActualBudget c p s = .ok (b, s') ↔
      ((s.process p).actualBudget ≠ (c.process p).budget ∧ 0 < (s.process p).actualBudget ∧
        b = (s.process p).actualBudget ∧ s' = s) ∨
      ((s.process p).actualBudget = (c.process p).budget ∧
        b = (c.process p).budget + jitterOffset (c.process p).jitter (s.gen 0) ∧
        s' = s.drew c p) := by
  unfold getActualBudget
  by_cases h : (c.process p).budget = (s.process p).actualBudget
  · have hb := budget_add_jitterOffset_nonneg c p (s.gen 0)
    rw [h] at hb
    simp only [ne_eq, h, not_true_eq_false, if_false, hb, if_true, Except.ok.injEq,
      Prod.mk.injEq, false_and, true_and, false_or]
    exact ⟨fun ⟨h1, h2⟩ => ⟨h1.symm, h2.symm⟩, fun ⟨h1, h2⟩ => ⟨h1.symm, h2.symm⟩⟩
  · have h' : (s.process p).actualBudget ≠ (c.process p).budget := fun e => h e.symm
    by_cases hpos : 0 < (s.process p).actualBudget
    · simp only [ne_eq, h, not_false_eq_true, if_true, hpos, Except.ok.injEq, Prod.mk.injEq,
        h', true_and, false_and, or_false]
      exact ⟨fun ⟨h1, h2⟩ => ⟨h1.symm, h2.symm⟩, fun ⟨h1, h2⟩ => ⟨h1.symm, h2.symm⟩⟩
    · simp [h, hpos, h']

theorem setRemainingBudget_ok {r : Int} {s' : State} :
    setRemainingBudget c p s r = .ok s' ↔
      0 < r ∧ r < (c.process p).budget ∧ s' = s.shortened p r := by
  unfold setRemainingBudget
  by_cases h1 : 0 < r
  · by_cases h2 : r < (c.process p).budget
    · simp only [h1, h2, not_true_eq_false, if_false, Except.ok.injEq, true_and]
      exact eq_comm
    · simp [h1, h2]
  · simp [h1]

end Process

namespace Partition

variable (c : Config) (k : Nat) (s : State)

theorem seekPendingProcess_eq :
    seekPendingProcess c k s =
      let r := CyclicSearch.seek (c.processCount k)
        (fun j => Process.isPending ⟨k, j⟩ s) (c.processCount k) (s.partition k).currentProc
      (r.1.map (ProcessId.mk k), s.sought k r.2) := seekLoop_eq c k _ s

def FirstPending (d : Nat) : Prop :=
  d < c.processCount k ∧
    Process.isPending ⟨k, ((s.partition k).currentProc + d) % c.processCount k⟩ s = true ∧
    ∀ e < d,
      Process.isPending ⟨k, ((s.partition k).currentProc + e) % c.processCount k⟩ s = false

variable {c k s} in
theorem FirstPending.unique {d e : Nat} (hd : FirstPending c k s d) (he : FirstPending c k s e) :
    d = e := by
  rcases Nat.lt_trichotomy d e with h | h | h
  · simpa [hd.2.1] using he.2.2 d h
  · exact h
  · simpa [he.2.1] using hd.2.2 e h

theorem seekPendingProcess_first (valid : (s.partition k).currentProc < c.processCount k) :
    (∃ d, FirstPending c k s d ∧ seekPendingProcess c k s =
      (some ⟨k, ((s.partition k).currentProc + d) % c.processCount k⟩,
        s.sought k (((s.partition k).currentProc + d) % c.processCount k))) ∨
    ((∀ j < c.processCount k, Process.isPending ⟨k, j⟩ s = false) ∧
      seekPendingProcess c k s = (none, s.sought k
        (CyclicSearch.next (c.processCount k) (s.partition k).currentProc))) := by
  rw [seekPendingProcess_eq]
  cases hr : CyclicSearch.seek (c.processCount k) (fun j => Process.isPending ⟨k, j⟩ s)
      (c.processCount k) (s.partition k).currentProc with
  | mk found cur =>
    cases found with
    | some j =>
      obtain ⟨rfl, -, hp, d, hd, rfl, hbefore⟩ := CyclicSearch.seek_some valid hr
      exact .inl ⟨d, ⟨hd, hp, hbefore⟩, rfl⟩
    | none =>
      obtain ⟨rfl, hnone⟩ := CyclicSearch.seek_all_none valid hr
      exact .inr ⟨hnone, rfl⟩

theorem seekPendingProcess_cases (h : (s.partition k).currentProc < c.processCount k) :
    (∃ j < c.processCount k, Process.isPending ⟨k, j⟩ s = true ∧
      seekPendingProcess c k s = (some ⟨k, j⟩, s.sought k j)) ∨
    ((∀ j < c.processCount k, Process.isPending ⟨k, j⟩ s = false) ∧
      seekPendingProcess c k s = (none, s.sought k
        (CyclicSearch.next (c.processCount k) (s.partition k).currentProc))) := by
  rcases seekPendingProcess_first c k s h with ⟨d, hfirst, hseek⟩ | hnone
  · exact .inl ⟨_, Nat.mod_lt _ (c.processCount_pos k), hfirst.2.1, hseek⟩
  · exact .inr hnone

/-- The first pending process from the current one on is found and made the current
one; when there is none the queue moves one position. The processes stay as they are. -/
theorem seek_pending_process_iff (valid : (s.partition k).currentProc < c.processCount k) :
    (∀ p s', seekPendingProcess c k s = (some p, s') ↔
      ∃ d, FirstPending c k s d ∧
        p = ⟨k, ((s.partition k).currentProc + d) % c.processCount k⟩ ∧
        s' = s.setPartition k { s.partition k with currentProc := p.index }) ∧
    (∀ s', seekPendingProcess c k s = (none, s') ↔
      (∀ j < c.processCount k, Process.isPending ⟨k, j⟩ s = false) ∧
        s' = s.setPartition k { s.partition k with
          currentProc := ((s.partition k).currentProc + 1) % c.processCount k }) ∧
    (seekPendingProcess c k s).2.process = s.process := by
  rw [← CyclicSearch.next_eq_mod valid]
  rcases seekPendingProcess_first c k s valid with ⟨d, hfirst, hseek⟩ | ⟨hnone, hseek⟩
  · refine ⟨fun p s' => ?_, fun s' => ?_, by rw [hseek]; rfl⟩
    · rw [hseek, Prod.mk.injEq, Option.some.injEq]
      constructor
      · rintro ⟨rfl, rfl⟩
        exact ⟨d, hfirst, rfl, rfl⟩
      · rintro ⟨e, he, rfl, rfl⟩
        obtain rfl := he.unique hfirst
        exact ⟨rfl, rfl⟩
    · rw [hseek]
      refine ⟨fun h => by simp at h, fun h => ?_⟩
      have hmod := Nat.mod_lt ((s.partition k).currentProc + d) (c.processCount_pos k)
      simpa [hfirst.2.1] using h.1 _ hmod
  · refine ⟨fun p s' => ?_, fun s' => ?_, by rw [hseek]; rfl⟩
    · rw [hseek]
      refine ⟨fun h => by simp at h, ?_⟩
      rintro ⟨d, hfirst, -⟩
      have hmod := Nat.mod_lt ((s.partition k).currentProc + d) (c.processCount_pos k)
      simpa [hfirst.2.1] using hnone _ hmod
    · rw [hseek, Prod.mk.injEq]
      exact ⟨fun h => ⟨hnone, h.2.symm⟩, fun h => ⟨rfl, h.2.symm⟩⟩

/-- Of two processes the second is current and has completed. -/
theorem seek_pending_process_wraps :
    let s : State :=
      { process := fun p => { actualBudget := 1, spawned := true, completed := p.index == 1 }
        partition := fun _ => { currentProc := 1 }
        slice := fun _ => {}
        window := fun _ => {}
        frame := {}
        manager := {}
        scheduler := { timeout := none }
        gen := fun _ => 0
        history := [] }
    seekPendingProcess Config.twoProcesses 0 s =
      (some ⟨0, 0⟩, s.setPartition 0 { s.partition 0 with currentProc := 0 }) :=
  ((seek_pending_process_iff Config.twoProcesses 0 _ (by decide)).1 _ _).mpr
    ⟨1, ⟨by decide, by decide, by decide⟩, rfl, rfl⟩

theorem setCpus_ok {cpus : CpuSet} {s s' : State} (h : setCpus k s cpus = .ok s') :
    s' = s.setPartition k { s.partition k with currentCpus := cpus } := by
  unfold setCpus at h
  split at h
  · next e =>
    rw [Except.ok.injEq] at h
    simp [← h, e, State.setPartition]
  · split at h
    · simp at h
    · rw [Except.ok.injEq] at h
      exact h.symm

theorem foldl_disconnect (l : List Nat) (s : State) :
    l.foldl (fun s k => disconnect k s) s = { s with partition := fun k =>
      if k ∈ l then { s.partition k with completionCb := .ignore } else s.partition k } := by
  induction l generalizing s with
  | nil => simp
  | cons k l ih =>
    rw [List.foldl_cons, ih]
    simp only [disconnect, State.setPartition, List.mem_cons]
    congr 1
    funext j
    by_cases hj : j = k
    · subst hj
      simp
    · simp [hj]

theorem reset_cases {cpus : CpuSet} {first : Bool} {cb : CompletionCb} {s' : State}
    (h : reset c k s first cpus cb = .ok s') : s' = { s with
      process := fun p => { s.process p with
        completed := (s.process p).completed && decide (p ∉ c.processIds k) }
      partition := Function.update s.partition k { s.partition k with
        currentProc := if first then 0 else (s.partition k).currentProc
        currentCpus := cpus
        completionCb := cb } } := by
  simp only [reset, bind_def, bind_eq_ok, clearCompletedFlag_eq] at h
  obtain ⟨s₁, hset, h⟩ := h
  obtain rfl := setCpus_ok k hset
  cases first <;> simpa [State.setPartition] using h.symm

theorem reset_ok {cpus : CpuSet} (hc : cpus.Nonempty) (first : Bool) (cb : CompletionCb) :
    reset c k s first cpus cb = .ok { s with
      process := fun p => { s.process p with
        completed := (s.process p).completed && decide (p ∉ c.processIds k) }
      partition := Function.update s.partition k { s.partition k with
        currentProc := if first then 0 else (s.partition k).currentProc
        currentCpus := cpus
        completionCb := cb } } := by
  have hcard : cpus.card ≠ 0 := by simpa using hc.ne_empty
  cases hreset : reset c k s first cpus cb with
  | ok s' => rw [reset_cases c k s hreset]
  | error e =>
    exfalso
    revert hreset
    simp only [reset, setCpus, bind_def, hcard, if_false]
    split <;> cases first <;> simp

end Partition

namespace Slice

variable (c : Config) (scDone : SliceId → Int → State → Except Fault State)

theorem stopCurrentProcess_ok {i : SliceId} {t : Int} {mark : Bool} {s s' : State} :
    stopCurrentProcess i t mark s = .ok s' ↔
      ∃ p, (s.slice i).runningProcess = some p ∧ s' = s.stopped i p t mark := by
  unfold stopCurrentProcess
  cases h : (s.slice i).runningProcess with
  | none => simp
  | some p =>
    cases mark <;>
      simp [State.stopped, Process.suspend, Process.markCompleted, State.setProcess,
        State.setSlice, State.record, eq_comm]

theorem launch_ok {i : SliceId} {p : ProcessId} {t b : Int} {s s' : State} :
    launch c i p t b (s.setSlice i { s.slice i with runningProcess := some p }) = .ok s' ↔
      (s.process p).spawned = true ∧ s' = s.launched c i p t b := by
  unfold launch Process.resume Process.isSpawned
  by_cases h : (s.process p).spawned = true
  · have hs : ∀ x, (Except.ok x : Except Fault State) = .ok s' ↔ s' = x := fun x => by
      rw [Except.ok.injEq]
      exact eq_comm
    simp [h, State.launched, Process.resetBudget, State.setProcess, State.setSlice,
      State.record, hs]
    exact Iff.rfl
  · simp [h, State.setSlice, State.record]

/-- The search of `start_next_process` for a process with a budget to run. -/
def selectNext (i : SliceId) (k : Nat) : Nat → State →
    Except Fault (Option (ProcessId × Int) × State)
  | 0, _ => .error .outOfFuel
  | n + 1, s =>
    match Partition.seekPendingProcess c k s with
    | (none, s) => .ok (none, s)
    | (some p, s) => do
      let (b, s) ← Process.getActualBudget c p s
      if b = 0 then selectNext i k n (s.skipped i p) else .ok (some (p, b), s)

/-- A search that finds a process launches it; one that does not ends the phase. -/
def conclude (i : SliceId) (k : Nat) (t : Int) :
    Option (ProcessId × Int) × State → Except Fault State
  | (some (p, b), s) =>
    launch c i p t b (s.setSlice i { s.slice i with runningProcess := some p })
  | (none, s) => if (c.slice i).sc = some k then scDone i t s else .ok s

theorem seekPendingProcess_slice (k : Nat) (s : State) :
    (Partition.seekPendingProcess c k s).2.slice = s.slice := by
  rw [Partition.seekPendingProcess_eq]
  rfl

theorem getActualBudget_slice {p : ProcessId} {s s' : State} {b : Int}
    (h : Process.getActualBudget c p s = .ok (b, s')) : s'.slice = s.slice := by
  rcases (Process.getActualBudget_ok c p s).mp h with ⟨-, -, -, rfl⟩ | ⟨-, -, rfl⟩ <;> rfl

theorem setSlice_self {s : State} {i : SliceId} (h : (s.slice i).runningProcess = none) :
    s.setSlice i { s.slice i with runningProcess := none } = s := by
  have : ({ s.slice i with runningProcess := none } : Slice) = s.slice i := by
    rw [← h]
  rw [this, State.setSlice, Function.update_eq_self]

theorem getActualBudget_setSlice (p : ProcessId) (s : State) (i : SliceId) (x : Slice) :
    Process.getActualBudget c p (s.setSlice i x) =
      (Process.getActualBudget c p s).map fun r => (r.1, r.2.setSlice i x) := by
  unfold Process.getActualBudget
  simp only [State.setSlice_process, State.setSlice_gen]
  split
  · split <;> rfl
  · split <;> rfl

theorem startNextLoop_eq {i : SliceId} {k : Nat} {t : Int} (n : Nat) {s : State}
    (idle : (s.slice i).runningProcess = none) (hk : (s.slice i).runningPartition = some k) :
    startNextLoop c scDone n i t s = (selectNext c i k n s).bind (conclude c scDone i k t) := by
  induction n generalizing s with
  | zero => rfl
  | succ n ih =>
    have hslice := seekPendingProcess_slice c k s
    unfold startNextLoop selectNext loadNextProcess
    simp only [idle, hk, Option.isSome_none, Bool.false_eq_true, if_false]
    cases hseek : Partition.seekPendingProcess c k s with
    | mk found s₁ =>
      rw [hseek] at hslice
      simp only at hslice
      have idle₁ : (s₁.slice i).runningProcess = none := by rw [hslice]; exact idle
      cases found with
      | none =>
        rw [setSlice_self idle₁]
        by_cases hsc : (c.slice i).sc = some k
        · cases hd : scDone i t s₁ <;> simp [hsc, hd, conclude]
        · simp [hsc, conclude]
      | some p =>
        simp only [Option.isNone_some, Bool.false_and, Bool.false_eq_true, if_false, pure_def,
          bind_def, bind_ok, getActualBudget_setSlice]
        cases hb : Process.getActualBudget c p s₁ with
        | error e => rfl
        | ok r =>
          obtain ⟨b, s₂⟩ := r
          have hslice₂ := getActualBudget_slice c hb
          simp only [Except.map, bind_ok]
          by_cases h0 : b = 0
          · have hskip : ((Process.markCompleted p ((s₂.setSlice i { s₁.slice i with
                runningProcess := some p }).record (.skipped i p))).setSlice i
                { s₁.slice i with runningProcess := none }) = s₂.skipped i p := by
              rw [← hslice₂] at idle₁ ⊢
              simp only [State.skipped, State.setSlice, Process.markCompleted, State.setProcess,
                State.record, Function.update_idem]
              congr 1
              rw [← idle₁]
              exact Function.update_eq_self i s₂.slice
            simp only [h0, if_true]
            simp only [State.setSlice_slice, State.record_slice, Process.markCompleted,
              State.setProcess_slice, Function.update_self] at hskip ⊢
            rw [hskip]
            refine ih ?_ ?_
            · simpa [hslice₂] using idle₁
            · simpa [hslice₂, hslice] using hk
          · simp only [h0, if_false, bind_ok, conclude, hslice₂]

theorem startNextLoop_idle {i : SliceId} {t : Int} {n : Nat} {s s' : State}
    (h : startNextLoop c scDone n i t s = .ok s') : (s.slice i).runningProcess = none := by
  cases n with
  | zero => simp [startNextLoop] at h
  | succ n =>
    unfold startNextLoop loadNextProcess at h
    cases hr : (s.slice i).runningProcess with
    | none => rfl
    | some p => simp [hr] at h

theorem startPartition_eq (i : SliceId) (k : Nat) (t : Int) (first : Bool) (s : State) :
    startPartition c scDone i k t first s =
      startNextLoop c scDone (c.processCount k + 1) i t (s.assigned c i k first t) := by
  simp only [startPartition, Partition.reset_ok c k _ (c.slice i).cpus_nonempty, bind_def,
    bind_ok, startNextProcess, State.record_slice, State.setSlice_slice, Function.update_self]
  rfl

theorem startPartition_ok {i : SliceId} {k : Nat} {t : Int} {first : Bool} {s s' : State}
    (h : startPartition c scDone i k t first s = .ok s') :
    (s.slice i).runningProcess = none ∧
      (selectNext c i k (c.processCount k + 1) (s.assigned c i k first t)).bind
        (conclude c scDone i k t) = .ok s' := by
  rw [startPartition_eq] at h
  have idle := startNextLoop_idle c scDone h
  have hk : ((s.assigned c i k first t).slice i).runningPartition = some k := by simp
  rw [startNextLoop_eq c scDone _ idle hk] at h
  exact ⟨by simpa using idle, h⟩

theorem scheduleNext_ok {i : SliceId} {t : Int} {s s' : State}
    (h : scheduleNext c scDone i t s = .ok s') :
    ∃ p k, (s.slice i).runningProcess = some p ∧ (s.slice i).runningPartition = some k ∧
      (selectNext c i k (c.processCount k + 1) (s.stopped i p t true)).bind
        (conclude c scDone i k t) = .ok s' := by
  simp only [scheduleNext, bind_def, bind_eq_ok, stopCurrentProcess_ok] at h
  obtain ⟨_, ⟨p, hp, rfl⟩, h⟩ := h
  unfold startNextProcess at h
  split at h
  · simp at h
  · next k hk =>
    rw [startNextLoop_eq c scDone _ (by simp) hk] at h
    exact ⟨p, k, hp, by simpa using hk, h⟩

/-- A timer that has fired is already stopped when its callback stops it again. -/
theorem scheduleNext_disarmed (i : SliceId) (t : Int) (s : State) :
    scheduleNext c scDone i t (s.setSlice i { s.slice i with armed := false }) =
      scheduleNext c scDone i t s := by
  simp only [scheduleNext, stopCurrentProcess, State.setSlice_slice, Function.update_self]
  cases (s.slice i).runningProcess with
  | none => rfl
  | some p => simp [State.setSlice, Process.suspend, State.setProcess]

theorem release_eq (i : SliceId) (s : State) : release c i s = s.released c i := by
  unfold release
  rw [Partition.foldl_disconnect]
  rfl

theorem stop_idle {i : SliceId} {t : Int} {s : State} (h : (s.slice i).runningProcess = none) :
    stop c scDone i t s = .ok (s.released c i) := by
  simp [stop, release_eq, h]

/-- The process a slice interrupts at the end of a window: outside the BE
partition its remaining time is not stored. -/
theorem stop_cut {i : SliceId} {p : ProcessId} {t : Int} {s : State}
    (h : (s.slice i).runningProcess = some p)
    (hr : Process.durationCastMs ((s.slice i).timeout - t) ≠ 0) :
    stop c scDone i t s =
      (if (s.slice i).runningPartition = (c.slice i).be then
        Process.setRemainingBudget c p s (Process.durationCastMs ((s.slice i).timeout - t))
      else .ok s).map fun s => (s.stopped i p t false).released c i := by
  have hstop : ∀ s₁ : State, (s₁.slice i).runningProcess = some p →
      stopCurrentProcess i t false s₁ = .ok (s₁.stopped i p t false) :=
    fun s₁ h₁ => (stopCurrentProcess_ok).mpr ⟨p, h₁, rfl⟩
  unfold stop
  simp only [release_eq, State.released_slice, Function.update_self, h, hr, if_false]
  by_cases hbe : (s.slice i).runningPartition = (c.slice i).be
  · have hset : Process.setRemainingBudget c p (s.released c i)
        (Process.durationCastMs ((s.slice i).timeout - t)) =
        (Process.setRemainingBudget c p s
          (Process.durationCastMs ((s.slice i).timeout - t))).map (·.released c i) := by
      unfold Process.setRemainingBudget
      split
      · rfl
      · split <;> rfl
    simp only [hbe, if_true, hset]
    cases hset : Process.setRemainingBudget c p s
        (Process.durationCastMs ((s.slice i).timeout - t)) with
    | error e => rfl
    | ok s₁ =>
      obtain ⟨-, -, rfl⟩ := (Process.setRemainingBudget_ok c p _).mp hset
      simp only [bind_def, bind_ok, Except.map]
      rw [hstop _ (by simpa using h), State.released_stopped]
  · simp only [hbe, if_false, bind_def, bind_ok, pure_def, Except.map]
    rw [hstop _ (by simpa using h), State.released_stopped]

end Slice

namespace Window

variable (c : Config)

/-- While its window is stopping, the end of an SC partition is only counted. -/
theorem scDone_stopping {i : SliceId} {t : Int} {s : State}
    (h : (s.window i.window).stopping = true) :
    scDone c i t s = .ok (s.counted i.window) := by
  simp [scDone, sliceScEndCb, State.setWindow, State.counted, h]

end Window

namespace Slice

variable (c : Config)

/-- What a process that is out of budget at the end of a window leaves: the queue
of its partition rests on the process that comes next. -/
def spent (i : SliceId) (p : ProcessId) (k : Nat) (t : Int) (s : State) : State :=
  let r := Partition.seekPendingProcess c k ((s.stopped i p t true).released c i)
  if r.1 = none ∧ (c.slice i).sc = some k then r.2.counted i.window else r.2

theorem stop_spent {i : SliceId} {p : ProcessId} {k : Nat} {t : Int} {s : State}
    (stopping : (s.window i.window).stopping = true)
    (h : (s.slice i).runningProcess = some p) (hk : (s.slice i).runningPartition = some k)
    (hr : Process.durationCastMs ((s.slice i).timeout - t) = 0) :
    stop c (Window.scDone c) i t s = .ok (spent c i p k t s) := by
  have hstop : stopCurrentProcess i t true (s.released c i) =
      .ok ((s.released c i).stopped i p t true) :=
    (stopCurrentProcess_ok).mpr ⟨p, by simpa using h, rfl⟩
  unfold stop spent
  rw [← State.released_stopped]
  simp only [release_eq, State.released_slice, Function.update_self, h, hr, if_true, hstop,
    bind_def, bind_ok, loadNextProcess, State.stopped_slice, Option.isSome_none,
    Bool.false_eq_true, if_false, hk]
  have hslice := seekPendingProcess_slice c k ((s.released c i).stopped i p t true)
  have hwin : ((Partition.seekPendingProcess c k
      ((s.released c i).stopped i p t true)).2.window i.window).stopping = true := by
    rw [Partition.seekPendingProcess_eq]
    exact stopping
  cases hseek : Partition.seekPendingProcess c k ((s.released c i).stopped i p t true) with
  | mk found s₁ =>
    rw [hseek] at hslice hwin
    simp only at hslice hwin
    have idle : (s₁.slice i).runningProcess = none := by simp [hslice]
    cases found with
    | some q =>
      have hclear : (s₁.setSlice i { s₁.slice i with runningProcess := some q }).setSlice i
          { s₁.slice i with runningProcess := none } = s₁ := by
        simp only [State.setSlice, Function.update_idem]
        exact setSlice_self idle
      simpa using hclear
    | none =>
      rw [setSlice_self idle]
      by_cases hsc : (c.slice i).sc = some k
      · have hdone : (s₁.counted i.window).setSlice i
            { (s₁.counted i.window).slice i with runningProcess := none } = s₁.counted i.window :=
          setSlice_self (by simpa using idle)
        simpa [hsc, Window.scDone_stopping c hwin] using hdone
      · simp [hsc, setSlice_self idle]

theorem stop_cases {i : SliceId} {t : Int} {s s' : State}
    (stopping : (s.window i.window).stopping = true)
    (h : stop c (Window.scDone c) i t s = .ok s') :
    ((s.slice i).runningProcess = none ∧ s' = s.released c i) ∨
    (∃ p k, (s.slice i).runningProcess = some p ∧ (s.slice i).runningPartition = some k ∧
      Process.durationCastMs ((s.slice i).timeout - t) = 0 ∧ s' = spent c i p k t s) ∨
    (∃ p r, (s.slice i).runningProcess = some p ∧
      r = Process.durationCastMs ((s.slice i).timeout - t) ∧ r ≠ 0 ∧
      (((s.slice i).runningPartition = (c.slice i).be ∧ 0 < r ∧ r < (c.process p).budget ∧
        s' = ((s.shortened p r).stopped i p t false).released c i) ∨
      ((s.slice i).runningPartition ≠ (c.slice i).be ∧
        s' = (s.stopped i p t false).released c i))) := by
  cases hrun : (s.slice i).runningProcess with
  | none =>
    rw [stop_idle c _ hrun, Except.ok.injEq] at h
    exact .inl ⟨rfl, h.symm⟩
  | some p =>
    right
    by_cases hr : Process.durationCastMs ((s.slice i).timeout - t) = 0
    · left
      cases hk : (s.slice i).runningPartition with
      | none =>
        exfalso
        have hstop : stopCurrentProcess i t true (s.released c i) =
            .ok ((s.released c i).stopped i p t true) :=
          (stopCurrentProcess_ok).mpr ⟨p, by simpa using hrun, rfl⟩
        unfold stop at h
        simp [release_eq, hrun, hr, hstop, loadNextProcess, hk] at h
      | some k =>
        rw [stop_spent c stopping hrun hk hr, Except.ok.injEq] at h
        exact ⟨p, k, rfl, rfl, hr, h.symm⟩
    · right
      refine ⟨p, _, rfl, rfl, hr, ?_⟩
      rw [stop_cut c _ hrun hr] at h
      by_cases hbe : (s.slice i).runningPartition = (c.slice i).be
      · rw [if_pos hbe] at h
        cases hset : Process.setRemainingBudget c p s
            (Process.durationCastMs ((s.slice i).timeout - t)) with
        | error e => simp [hset, Except.map] at h
        | ok s₁ =>
          obtain ⟨hpos, hlt, rfl⟩ := (Process.setRemainingBudget_ok c p _).mp hset
          simp only [hset, Except.map, Except.ok.injEq] at h
          exact .inl ⟨hbe, hpos, hlt, h.symm⟩
      · simp only [if_neg hbe, Except.map, Except.ok.injEq] at h
        exact .inr ⟨hbe, h.symm⟩

end Slice

end DemosSched
