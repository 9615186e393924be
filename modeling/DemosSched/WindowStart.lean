import DemosSched.Phases

/-! The SC starts of a window that find no work. Every SC process is tried in turn,
and if all of them are granted an empty budget, the BE phase begins before
`Window::start` returns; otherwise some slice runs when it does. -/

namespace DemosSched

open Fallible Relation

/-- The processes `l`, tried in turn with the numbers of `gen`, all have an empty
effective budget; `stored` are their stored budgets. -/
def AllZero (c : Config) (stored : ProcessId → Int) : List ProcessId → (Nat → Nat) → Prop
  | [], _ => True
  | p :: l, gen => stored p = (c.process p).budget ∧
      (c.process p).budget + Process.jitterOffset (c.process p).jitter (gen 0) = 0 ∧
        AllZero c stored l fun n => gen (n + 1)

instance AllZero.decidable (c : Config) (stored : ProcessId → Int) :
    (l : List ProcessId) → (gen : Nat → Nat) → Decidable (AllZero c stored l gen)
  | [], _ => isTrue trivial
  | _ :: l, gen =>
    have := decidable c stored l fun n => gen (n + 1)
    inferInstanceAs (Decidable (_ ∧ _ ∧ _))

theorem allZero_append {c : Config} {stored : ProcessId → Int} {l l' : List ProcessId}
    {gen : Nat → Nat} : AllZero c stored (l ++ l') gen ↔
      AllZero c stored l gen ∧ AllZero c stored l' fun n => gen (n + l.length) := by
  induction l generalizing gen with
  | nil => simp [AllZero]
  | cons p l ih =>
    simp only [List.cons_append, AllZero, ih, List.length_cons, and_assoc]
    simp only [Nat.add_assoc]

namespace Partition

variable {c : Config} {k : Nat} {s : State}

def queue (c : Config) (k : Nat) (s : State) : List ProcessId :=
  (c.processIds k).filter fun p => Process.isPending p s

theorem queue_sorted (c : Config) (k : Nat) (s : State) :
    (queue c k s).Pairwise fun p q => p.index < q.index := by
  refine List.Pairwise.filter _ (List.pairwise_map.mpr ?_)
  exact List.pairwise_lt_range

theorem mem_queue {p : ProcessId} : p ∈ queue c k s ↔
    p.part = k ∧ p.index < c.processCount k ∧ Process.isPending p s = true := by
  rw [queue, List.mem_filter, c.mem_processIds, and_assoc]

theorem seekPendingProcess_queue {p : ProcessId} {l : List ProcessId}
    (hqueue : queue c k s = p :: l) (valid : (s.partition k).currentProc < c.processCount k)
    (ahead : (s.partition k).currentProc ≤ p.index) :
    seekPendingProcess c k s = (some p, s.sought k p.index) := by
  have hsorted := queue_sorted c k s
  rw [hqueue, List.pairwise_cons] at hsorted
  obtain ⟨rfl, hlt, hpending⟩ := mem_queue.mp (hqueue ▸ List.mem_cons_self : p ∈ queue c k s)
  obtain ⟨m, hm⟩ := @CyclicSearch.seek_exists _ (fun j => Process.isPending ⟨p.part, j⟩ s) _ _
    valid hlt hpending
  obtain ⟨-, hmlt, hmpending, d, -, hmd, hbefore⟩ := CyclicSearch.seek_some valid hm
  have hd : d ≤ p.index - (s.partition p.part).currentProc := by
    by_contra hgt
    have := hbefore (p.index - (s.partition p.part).currentProc) (by omega)
    rw [Nat.add_sub_cancel' ahead, Nat.mod_eq_of_lt hlt] at this
    simp [hpending] at this
  rw [Nat.mod_eq_of_lt (by omega)] at hmd
  have hmem : (⟨p.part, m⟩ : ProcessId) ∈ queue c p.part s := mem_queue.mpr ⟨rfl, hmlt, hmpending⟩
  have hfirst : m = p.index := by
    rw [hqueue] at hmem
    rcases List.mem_cons.mp hmem with heq | hrest
    · rw [← heq]
    · have := hsorted.1 _ hrest
      simp only at this
      omega
  rw [seekPendingProcess_eq, hm, hfirst]
  rfl

theorem queue_skipped {i : SliceId} {p : ProcessId} {l : List ProcessId}
    (hqueue : queue c k s = p :: l) : queue c k (s.skipped i p) = l := by
  have hsorted := queue_sorted c k s
  rw [hqueue, List.pairwise_cons] at hsorted
  have hfilter : queue c k (s.skipped i p) = (queue c k s).filter (· ≠ p) := by
    rw [queue, queue, List.filter_filter]
    refine List.filter_congr fun q _ => ?_
    by_cases hq : q = p
    · subst hq
      simp [Process.isPending]
    · simp [Process.isPending, Process.isSpawned, hq]
  rw [hfilter, hqueue, List.filter_cons_of_neg (by simp), List.filter_eq_self]
  intro q hq
  have := hsorted.1 q hq
  simp only [decide_eq_true_eq]
  rintro rfl
  omega

end Partition

namespace Slice

variable {c : Config}

theorem selectNext_allZero {i : SliceId} {k n : Nat} {l : List ProcessId} {s s₁ : State}
    {found : Option (ProcessId × Int)} (hqueue : Partition.queue c k s = l) (fuel : l.length < n)
    (valid : (s.partition k).currentProc < c.processCount k)
    (ahead : ∀ p ∈ l, (s.partition k).currentProc ≤ p.index)
    (run : selectNext c i k n s = .ok (found, s₁)) :
    (AllZero c (fun p => (s.process p).actualBudget) l s.gen ∧ found = none ∧
        s₁.gen = (fun m => s.gen (m + l.length)) ∧
        ∀ p, (s₁.process p).actualBudget = (s.process p).actualBudget ∧
          (s₁.process p).spawned = (s.process p).spawned) ∨
      (¬AllZero c (fun p => (s.process p).actualBudget) l s.gen ∧ found ≠ none) := by
  induction n generalizing s l with
  | zero => omega
  | succ n ih =>
    unfold selectNext at run
    cases l with
    | nil =>
      rcases Partition.seekPendingProcess_cases c k s valid with ⟨j, hj, hp, -⟩ | ⟨-, hseek⟩
      · have hmem : (⟨k, j⟩ : ProcessId) ∈ Partition.queue c k s :=
          Partition.mem_queue.mpr ⟨rfl, hj, hp⟩
        rw [hqueue] at hmem
        exact absurd hmem List.not_mem_nil
      · simp only [hseek, Except.ok.injEq, Prod.mk.injEq] at run
        obtain ⟨rfl, rfl⟩ := run
        exact .inl ⟨trivial, rfl, rfl, fun _ => ⟨rfl, rfl⟩⟩
    | cons p l =>
      have hp := Partition.mem_queue.mp (hqueue ▸ List.mem_cons_self : p ∈ Partition.queue c k s)
      have hsorted := Partition.queue_sorted c k s
      rw [hqueue, List.pairwise_cons] at hsorted
      rw [Partition.seekPendingProcess_queue hqueue valid (ahead p List.mem_cons_self)] at run
      simp only [bind_def, bind_eq_ok, Prod.exists] at run
      obtain ⟨b, s₂, hb, run⟩ := run
      rcases (Process.getActualBudget_ok c p _).mp hb with
        ⟨hne, hpos, rfl, rfl⟩ | ⟨hfull, rfl, rfl⟩
      · rw [if_neg (show ¬((s.sought k p.index).process p).actualBudget = 0 by omega),
          Except.ok.injEq, Prod.mk.injEq] at run
        exact .inr ⟨fun hzero => hne hzero.1, by rw [← run.1]; simp⟩
      · have hfull' : (s.process p).actualBudget = (c.process p).budget := hfull
        split at run
        · next hzero =>
          have hzero' : (c.process p).budget +
              Process.jitterOffset (c.process p).jitter (s.gen 0) = 0 := hzero
          set s₂ := ((s.sought k p.index).drew c p).skipped i p with hs₂
          have hqueue₂ : Partition.queue c k s₂ = l := Partition.queue_skipped hqueue
          have hcurrent : (s₂.partition k).currentProc = p.index := by simp [hs₂]
          have hbudgets : ∀ q, (s₂.process q).actualBudget = (s.process q).actualBudget ∧
              (s₂.process q).spawned = (s.process q).spawned := by
            intro q
            by_cases hq : q = p
            · subst hq
              simp [hs₂]
            · simp [hs₂, hq]
          have hrest := ih hqueue₂ (by simpa using fuel) (by rw [hcurrent]; exact hp.2.1)
            (fun q hq => by rw [hcurrent]; exact (hsorted.1 q hq).le) run
          simp only [(hbudgets _).1, (hbudgets _).2] at hrest
          have hgen : s₂.gen = fun m => s.gen (m + 1) := rfl
          rw [hgen] at hrest
          rcases hrest with ⟨hall, hnone, hdrawn, hsame⟩ | ⟨hnot, hsome⟩
          · refine .inl ⟨⟨hfull', hzero', hall⟩, hnone, ?_, hsame⟩
            rw [hdrawn]
            rfl
          · exact .inr ⟨fun hall => hnot hall.2.2, hsome⟩
        · next hzero =>
          rw [Except.ok.injEq, Prod.mk.injEq] at run
          exact .inr ⟨fun hall => hzero hall.2.1, by rw [← run.1]; simp⟩

def scQueue (c : Config) (spawned : ProcessId → Bool) (i : SliceId) : List ProcessId :=
  match c.role true i with
  | none => []
  | some k => (c.processIds k).filter spawned

structure Fruitless (l : List ProcessId) (s s₁ : State) : Prop where
  gen : s₁.gen = fun m => s.gen (m + l.length)
  process : ∀ p, (s₁.process p).actualBudget = (s.process p).actualBudget ∧
    (s₁.process p).spawned = (s.process p).spawned
  idle : ∀ i, (s₁.slice i).runningProcess = (s.slice i).runningProcess

theorem startSc_cases {w : Nat} {i : SliceId} {t : Int} {s s' : State}
    {scDone : SliceId → Int → State → Except Fault State} (member : i ∈ c.sliceIds w)
    (idle : (s.slice i).runningProcess = none) (valid : s.QueuesValid c)
    (alike : ∀ j q, (s.slice j).runningProcess = some q →
      (s.slice j).runningPartition = c.role true j)
    (run : startSc c scDone i t s = .ok s') :
    (¬AllZero c (fun p => (s.process p).actualBudget) (scQueue c (Process.isSpawned · s) i) s.gen ∧
      s'.course.calls = s.course.calls ∧ ∃ p, (s'.slice i).runningProcess = some p) ∨
    (AllZero c (fun p => (s.process p).actualBudget) (scQueue c (Process.isSpawned · s) i) s.gen ∧
      ∃ s₁, Fruitless (scQueue c (Process.isSpawned · s) i) s s₁ ∧ s₁.window = s.window ∧
        s₁.course.calls = s.course.calls ∧ scDone i t s₁ = .ok s') := by
  unfold startSc at run
  split at run
  · next hsc =>
    have hnone : c.role true i = none := by simpa [Config.role] using hsc
    simp only [scQueue, hnone]
    exact .inr ⟨trivial, s, ⟨rfl, fun _ => ⟨rfl, rfl⟩, fun _ => rfl⟩, rfl, rfl, run⟩
  · next k hsc =>
    have hrole : c.role true i = some k := by simpa [Config.role] using hsc
    simp only [scQueue, hrole]
    obtain ⟨-, run⟩ := startPartition_ok c scDone run
    have hqueue : Partition.queue c k (s.assigned c i k true t) =
        (c.processIds k).filter (Process.isSpawned · s) := by
      refine List.filter_congr fun p hp => ?_
      simp [Process.isPending, Process.isSpawned, hp]
    have hfuel : ((c.processIds k).filter (Process.isSpawned · s)).length <
        c.processCount k + 1 := by
      have := List.length_filter_le (Process.isSpawned · s) (c.processIds k)
      have hlength : (c.processIds k).length = c.processCount k := by simp [Config.processIds]
      omega
    have hentered := Effect.entered (s := s) (t := t) true member idle hrole alike
    have hvalid := valid.effect hentered
    have seeking : Seeking c w i k (s.assigned c i k true t) :=
      ⟨member, by simpa using idle, by simp⟩
    rw [bind_eq_ok] at run
    obtain ⟨⟨found, s₁⟩, hselect, hconclude⟩ := run
    have hzero := selectNext_allZero hqueue hfuel (hvalid k) (fun p _ => by simp) hselect
    simp only [State.assigned_process_actualBudget, State.assigned_process_spawned,
      State.assigned_gen] at hzero
    rcases selectNext_cases hvalid seeking hselect with
      ⟨p, b, s₂, rfl, hpart, hb, hs, hsel⟩ | ⟨rfl, hs, hpend⟩
    · refine .inl ⟨(hzero.resolve_left fun h => by simp at h).1, ?_, p, ?_⟩
      · rw [((launch_ok c).mp hconclude).2]
        change s₁.course.calls = _
        have hcourse : s₁.course.calls = s₂.course.calls := by
          rcases hsel.drew_or_same with rfl | rfl <;> rfl
        rw [hcourse, hs.course]
        rfl
      · rw [((launch_ok c).mp hconclude).2]
        simp
    · obtain ⟨hall, -, hgen, hsame⟩ := hzero.resolve_right fun h => h.2 rfl
      rw [conclude, if_pos hsc] at hconclude
      refine .inr ⟨hall, s₁, ⟨hgen, hsame, fun j => ?_⟩, hs.window, ?_, hconclude⟩
      · rw [hs.slice, State.assigned_running]
      · rw [hs.course]
        rfl

theorem Fruitless.trans {l l' : List ProcessId} {s s₁ s₂ : State} (h : Fruitless l s s₁)
    (h' : Fruitless l' s₁ s₂) : Fruitless (l ++ l') s s₂ where
  gen := by
    rw [h'.gen, h.gen, List.length_append]
    funext m
    change s.gen (m + l'.length + l.length) = _
    rw [Nat.add_assoc, Nat.add_comm l'.length]
  process p := ⟨(h'.process p).1.trans (h.process p).1, (h'.process p).2.trans (h.process p).2⟩
  idle i := (h'.idle i).trans (h.idle i)

end Slice

namespace Window

variable {c : Config} {w : Nat}

/-- The processes that are tried when the SC partitions of the slices `l` are started
one after the other. -/
def scQueue (c : Config) (spawned : ProcessId → Bool) (l : List SliceId) : List ProcessId :=
  l.flatMap (Slice.scQueue c spawned)

/-- The slices `done` have been started from `s₀` on: none of their processes has a
budget and the BE phase has not begun, or some slice runs, or the BE phase has begun
with the last slice. -/
inductive Trial (c : Config) (w : Nat) (s₀ : State) (done : List SliceId) (s : State) : Prop
  | fruitless
      (zero : AllZero c (fun p => (s₀.process p).actualBudget)
        (scQueue c (Process.isSpawned · s₀) done) s₀.gen)
      (only : Slice.Fruitless (scQueue c (Process.isSpawned · s₀) done) s₀ s)
      (idle : s.AllIdle) (phase : ScPhase c w done [] s)
  | runs
      (found : ¬AllZero c (fun p => (s₀.process p).actualBudget)
        (scQueue c (Process.isSpawned · s₀) done) s₀.gen)
      (running : ∃ i p, (s.slice i).runningProcess = some p) (phase : ScPhase c w done [] s)
  | be (zero : AllZero c (fun p => (s₀.process p).actualBudget)
        (scQueue c (Process.isSpawned · s₀) done) s₀.gen)
      (full : done = c.sliceIds w ∧ done ≠ []) (phase : BePhase c w [.onBeStart w] s)

/-- The counter is at the number of started slices unless one of them runs. -/
theorem scPhase_finished {done : List SliceId} {s : State} (h : ScPhase c w done [] s) :
    (s.AllIdle → (s.window w).finishedScPartitions = done.length) ∧
      ((∃ i p, (s.slice i).runningProcess = some p) →
        (s.window w).finishedScPartitions < done.length) := by
  rw [h.count]
  constructor
  · intro hidle
    rw [List.countP_eq_length]
    exact fun i _ => by simp [State.isIdle, hidle i]
  · rintro ⟨i, p, hp⟩
    refine lt_of_le_of_ne List.countP_le_length fun heq => ?_
    have hall := List.countP_eq_length.mp heq i (h.alike i p hp).1
    simp [State.isIdle, hp] at hall

theorem scDone_counts {i : SliceId} {t : Int} {s s' : State}
    (opened : (s.window i.window).stopping = false) (run : scDone c i t s = .ok s') :
    (s.window i.window).finishedScPartitions + 1 ≠ c.sliceCount i.window ∧
        s' = s.counted i.window ∨
      (s.window i.window).finishedScPartitions + 1 = c.sliceCount i.window ∧
        s'.course.calls ≠ [] := by
  rw [scDone, sliceScEndCb_succ, if_neg (by simp [opened])] at run
  split at run
  · next hfull =>
    obtain ⟨s₂, -, rfl⟩ := map_eq_ok.mp run
    exact .inr ⟨hfull, by simp [State.course, Action.course, Course.next]⟩
  · next hfull =>
    rw [Except.ok.injEq] at run
    exact .inl ⟨hfull, run.symm⟩

theorem Trial.startSc {t : Int} {s₀ s s' : State} {done rest : List SliceId} {i : SliceId}
    (split : c.sliceIds w = done ++ i :: rest) (valid : s.QueuesValid c)
    (h : Trial c w s₀ done s) (run : Slice.startSc c (scDone c) i t s = .ok s') :
    Effects c w t s s' ∧ Trial c w s₀ (done ++ [i]) s' := by
  have hmember : i ∈ c.sliceIds w := by simp [split]
  obtain ⟨rfl, -⟩ := c.mem_sliceIds.mp hmember
  have hlength := congrArg List.length split
  rw [c.length_sliceIds, List.length_append, List.length_cons] at hlength
  have hnodup : i ∉ done := Config.sliceIds_fresh split
  have hphase : ScPhase c i.window done [] s := by
    cases h with
    | fruitless _ _ _ phase | runs _ _ phase => exact phase
    | be _ full _ =>
      rw [full.1, c.length_sliceIds] at hlength
      omega
  have hidle : (s.slice i).runningProcess = none := by
    cases hrun : (s.slice i).runningProcess with
    | none => rfl
    | some p => exact absurd (hphase.alike i p hrun).1 hnodup
  obtain ⟨heffects, hstarting⟩ := hphase.startSc split valid run
  refine ⟨heffects, ?_⟩
  have hsc : s'.course.calls = [] → ScPhase c i.window (done ++ [i]) [] s' := fun hcalls =>
    hstarting.resolve_right fun hbe => by
      have := hbe.1.calls
      rw [hcalls] at this
      simp at this
  have hdone : scQueue c (Process.isSpawned · s₀) (done ++ [i]) =
      scQueue c (Process.isSpawned · s₀) done ++ Slice.scQueue c (Process.isSpawned · s₀) i := by
    simp [scQueue]
  have hcounted : ∀ s₁ : State, s₁.window = s.window → scDone c i t s₁ = .ok s' →
      (s.window i.window).finishedScPartitions + 1 ≠ c.sliceCount i.window ∧
          s' = s₁.counted i.window ∨
        (s.window i.window).finishedScPartitions + 1 = c.sliceCount i.window ∧
          s'.course.calls ≠ [] := by
    intro s₁ hwindow hend
    rw [← hwindow]
    exact scDone_counts (by rw [hwindow]; exact hphase.opened) hend
  have hcases := Slice.startSc_cases hmember hidle valid (fun j q hq => (hphase.alike j q hq).2) run
  cases h with
  | be _ full _ =>
    rw [full.1, c.length_sliceIds] at hlength
    omega
  | fruitless zero only idle =>
    have hstored : ∀ p, (s.process p).actualBudget = (s₀.process p).actualBudget :=
      fun p => (only.process p).1
    have hspawned : (Process.isSpawned · s) = (Process.isSpawned · s₀) :=
      funext fun p => (only.process p).2
    rw [hspawned, only.gen] at hcases
    simp only [hstored] at hcases
    have hzero : AllZero c (fun p => (s₀.process p).actualBudget)
        (scQueue c (Process.isSpawned · s₀) (done ++ [i])) s₀.gen ↔
        AllZero c (fun p => (s₀.process p).actualBudget)
          (Slice.scQueue c (Process.isSpawned · s₀) i)
          (fun m => s₀.gen (m + (scQueue c (Process.isSpawned · s₀) done).length)) := by
      rw [hdone, allZero_append]
      exact and_iff_right zero
    rcases hcases with ⟨hnot, hcalls, p, hp⟩ | ⟨hall, s₁, hs₁, hwindow, hcalls, hend⟩
    · exact .runs (mt hzero.mp hnot) ⟨i, p, hp⟩ (hsc (hcalls.trans hphase.calls))
    · rcases hcounted s₁ hwindow hend with ⟨-, rfl⟩ | ⟨hfull, hne⟩
      · have hcount : Slice.Fruitless [] s₁ (s₁.counted i.window) :=
          ⟨rfl, fun _ => ⟨rfl, rfl⟩, fun _ => rfl⟩
        have honly := (only.trans hs₁).trans hcount
        rw [List.append_nil, ← hdone] at honly
        exact .fruitless (hzero.mpr hall) honly
          (fun j => (hs₁.idle j).trans (idle j)) (hsc (hcalls.trans hphase.calls))
      · refine .be (hzero.mpr hall) ⟨?_, by simp⟩
          (hstarting.resolve_left fun h => hne h.calls).1
        rw [(scPhase_finished hphase).1 idle] at hfull
        have hrest : rest = [] := List.eq_nil_of_length_eq_zero (by omega)
        rw [split, hrest]
  | runs found running =>
    have hfound : ¬AllZero c (fun p => (s₀.process p).actualBudget)
        (scQueue c (Process.isSpawned · s₀) (done ++ [i])) s₀.gen := by
      rw [hdone, allZero_append]
      exact fun h => found h.1
    rcases hcases with ⟨-, hcalls, p, hp⟩ | ⟨-, s₁, hs₁, hwindow, hcalls, hend⟩
    · exact .runs hfound ⟨i, p, hp⟩ (hsc (hcalls.trans hphase.calls))
    · rcases hcounted s₁ hwindow hend with ⟨-, rfl⟩ | ⟨hfull, -⟩
      · obtain ⟨j, p, hp⟩ := running
        exact .runs hfound ⟨j, p, (hs₁.idle j).trans hp⟩ (hsc (hcalls.trans hphase.calls))
      · have := (scPhase_finished hphase).2 running
        omega

theorem start_trial {t : Int} {s s₁ : State} (h : Startable c w s)
    (run : (c.sliceIds w).foldlM (fun s i => Slice.startSc c (scDone c) i t s)
      ((s.record (.windowStarted w t)).setWindow w
        { s.window w with finishedScPartitions := 0 }) = .ok s₁) :
    Effects c w t ((s.record (.windowStarted w t)).setWindow w
        { s.window w with finishedScPartitions := 0 }) s₁ ∧
      Trial c w s (c.sliceIds w) s₁ := by
  have hvalid : ((s.record (.windowStarted w t)).setWindow w
      { s.window w with finishedScPartitions := 0 }).QueuesValid c := h.valid
  refine foldlM_induct (fun done s₂ => Effects c w t _ s₂ ∧ Trial c w s done s₂) ?_
    ⟨.refl, .fruitless trivial ⟨rfl, fun _ => ⟨rfl, rfl⟩, fun _ => rfl⟩ h.idle
      (begun_scPhase h.idle h.opened)⟩ run
  intro done i rest s₂ s₃ hsplit hs hstart
  have hnext := hs.2.startSc hsplit (hvalid.effects hs.1) hstart
  exact ⟨hs.1.trans hnext.1, hnext.2⟩

/-- The BE phase begins inside `Window::start` if and only if the window has slices
and none of their SC processes has an effective budget. -/
theorem start_calls {t : Int} {s s' : State} (h : Startable c w s)
    (run : start c w t s = .ok s') :
    ((c.sliceCount w ≠ 0 ∧ AllZero c (fun p => (s.process p).actualBudget)
        (scQueue c (Process.isSpawned · s) (c.sliceIds w)) s.gen) ∧
      s'.course.calls = Action.opening w ++ [.onBeStart w]) ∨
    (¬(c.sliceCount w ≠ 0 ∧ AllZero c (fun p => (s.process p).actualBudget)
        (scQueue c (Process.isSpawned · s) (c.sliceIds w)) s.gen) ∧
      s'.course.calls = Action.opening w) := by
  simp only [start, bind_def, bind_eq_ok, pure_def, Except.ok.injEq] at run
  obtain ⟨s₁, hfold, rfl⟩ := run
  obtain ⟨-, htrial⟩ := start_trial h hfold
  have hcalls : ((s₁.record (.onWindowStart w)).record (.onScStart w)).course.calls =
      Action.opening w ++ s₁.course.calls := rfl
  rw [hcalls]
  cases htrial with
  | fruitless zero only idle phase =>
    have hcount := (scPhase_finished phase).1 idle
    rw [c.length_sliceIds] at hcount
    refine .inr ⟨fun hne => ?_, by rw [phase.calls, List.append_nil]⟩
    have := phase.unfinished hne.1
    omega
  | runs found running phase =>
    exact .inr ⟨fun hzero => found hzero.2, by rw [phase.calls, List.append_nil]⟩
  | be zero full phase =>
    refine .inl ⟨⟨fun hempty => full.2 ?_, zero⟩, by rw [phase.calls]⟩
    rw [← c.length_sliceIds] at hempty
    exact List.eq_nil_of_length_eq_zero hempty

end Window

end DemosSched
