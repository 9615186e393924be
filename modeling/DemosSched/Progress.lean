import DemosSched.Runs

/-! The handlers that start processes never fail: budgets stay positive, every
search ends within its fuel, and a slice takes a partition over only when it is
idle. -/

namespace DemosSched

open Fallible Relation

def State.Budgeted (c : Config) (s : State) : Prop :=
  ∀ p, 0 < (s.process p).actualBudget ∧ (s.process p).actualBudget ≤ (c.process p).budget

namespace State.Budgeted

variable {c : Config} {w : Nat} {t : Int} {s s' : State}

theorem congr (h : s.Budgeted c)
    (budget : ∀ p, (s'.process p).actualBudget = (s.process p).actualBudget) : s'.Budgeted c :=
  fun p => by rw [budget]; exact h p

theorem setBudget (h : s.Budgeted c) {p : ProcessId} {x : Process}
    (hx : 0 < x.actualBudget ∧ x.actualBudget ≤ (c.process p).budget) (q : ProcessId) :
    0 < (Function.update s.process p x q).actualBudget ∧
      (Function.update s.process p x q).actualBudget ≤ (c.process q).budget := by
  have hall := Function.forall_update_iff s.process (a := p) (b := x)
    fun q y => 0 < y.actualBudget ∧ y.actualBudget ≤ (c.process q).budget
  exact hall.mpr ⟨hx, fun q _ => h q⟩ q

theorem effect (h : s.Budgeted c) (effect : Effect c w t s s') : s'.Budgeted c := by
  cases effect with
  | @skipped s₁ i p selected =>
    have hs : s₁.process = s.process := by
      rcases selected.drew_or_same with rfl | rfl <;> rfl
    refine h.congr fun q => ?_
    rw [← hs]
    exact State.update_field Process.actualBudget rfl
  | @launched s₁ i p b selected ne =>
    have hs : s₁.process = s.process := by
      rcases selected.drew_or_same with rfl | rfl <;> rfl
    have hs₁ : s₁.Budgeted c := h.congr fun q => by rw [hs]
    exact hs₁.setBudget ⟨(c.process p).budget_pos, le_rfl⟩
  | stopped => exact h.setBudget (h _)
  | _ => exact h

theorem effects (h : s.Budgeted c) (run : Effects c w t s s') : s'.Budgeted c :=
  run.invariant (I := State.Budgeted c) (fun _ _ h e => h.effect e) h

theorem closings (h : s.Budgeted c) (run : Closings c w t s s') : s'.Budgeted c := by
  refine run.invariant (I := State.Budgeted c) (fun s s' h e => ?_) h
  cases e with
  | effect e => exact h.effect e
  | @shortened i p r member running role pos lt => exact h.setBudget ⟨pos, lt.le⟩
  | _ => exact h

theorem turn {ok : Action → Prop} (h : s.Budgeted c) (turn : Turn c ok s s') : s'.Budgeted c := by
  cases turn with
  | change e =>
    cases e with
    | effects run => exact h.effects run
    | closed run => exact h.closings run
    | signalled | ended => exact h.setBudget (h _)
    | _ => exact h
  | killed | thawed | suspended => exact h.setBudget (h _)
  | _ => exact h

theorem turns {ok : Action → Prop} (h : s.Budgeted c) (run : Turns c ok s s') : s'.Budgeted c :=
  run.invariant (I := State.Budgeted c) (fun _ _ h e => h.turn e) h

end State.Budgeted

theorem Event.Reachable.budgeted {c : Config} {gen : Nat → Nat} {timeout : Option Int}
    {es : List Event} {s : State} (h : Reachable c gen timeout es s) : s.Budgeted c :=
  State.Budgeted.turns (fun p => ⟨(c.process p).budget_pos, le_rfl⟩) h.turns

theorem Process.getActualBudget_total {c : Config} {s : State} (h : s.Budgeted c)
    (p : ProcessId) : ∃ b s₁, getActualBudget c p s = .ok (b, s₁) := by
  by_cases heq : (s.process p).actualBudget = (c.process p).budget
  · exact ⟨_, _, (getActualBudget_ok c p s).mpr (.inr ⟨heq, rfl, rfl⟩)⟩
  · exact ⟨_, _, (getActualBudget_ok c p s).mpr (.inl ⟨heq, (h p).1, rfl, rfl⟩)⟩

namespace Slice

variable {c : Config} {w : Nat} {scDone : SliceId → Int → State → Except Fault State}

theorem skipped_pending {i : SliceId} {p : ProcessId} {s s₁ : State}
    (h : Selected c w i p 0 s s₁) :
    (c.processIds p.part).countP (Process.isPending · s) =
      (c.processIds p.part).countP (Process.isPending · (s₁.skipped i p)) + 1 := by
  have hs : s₁.process = s.process := by
    rcases h.drew_or_same with rfl | rfl <;> rfl
  refine countP_raise (List.nodup_range.map fun _ _ e => by simpa using e)
    (c.mem_processIds.mpr ⟨rfl, h.valid⟩) (fun q hq => ?_) ?_ h.pending
  · simp [Process.isPending, Process.isSpawned, hq, hs]
  · simp [Process.isPending]

theorem selectNext_total {i : SliceId} {k n : Nat} {s : State} (valid : s.QueuesValid c)
    (budgeted : s.Budgeted c) (seeking : Seeking c w i k s)
    (fuel : (c.processIds k).countP (Process.isPending · s) < n) :
    ∃ r, selectNext c i k n s = .ok r := by
  induction n generalizing s with
  | zero => omega
  | succ n ih =>
    unfold selectNext
    rcases Partition.seekPendingProcess_cases c k s (valid k) with
      ⟨j, hj, hp, hseek⟩ | ⟨-, hseek⟩
    · have hsought := Searched.sought seeking hj
      have hbudgeted := budgeted.effects (hsought.effects 0)
      obtain ⟨b, s₁, hb⟩ := Process.getActualBudget_total hbudgeted ⟨k, j⟩
      have hselected : Selected c w i ⟨k, j⟩ b (s.sought k j) s₁ :=
        ⟨⟨seeking.member, seeking.idle, seeking.owner⟩, hj, by simp, hp, hb⟩
      simp only [hseek, hb, bind_def, bind_ok]
      by_cases h0 : b = 0
      · subst h0
        have hskipped := hsought.trans (Searched.skipped hselected)
        have hcount := skipped_pending hselected
        have hsame : (c.processIds k).countP (Process.isPending · (s.sought k j)) =
            (c.processIds k).countP (Process.isPending · s) := rfl
        simp only at hcount
        rw [if_pos rfl]
        refine ih (valid.effects (hskipped.effects 0)) (budgeted.effects (hskipped.effects 0))
          ⟨seeking.member, ?_, ?_⟩ (by omega)
        · rw [hskipped.slice]
          exact seeking.idle
        · rw [hskipped.slice]
          exact seeking.owner
      · exact ⟨_, if_neg h0⟩
    · exact ⟨_, by rw [hseek]⟩

theorem startNext_total {i : SliceId} {k : Nat} {t : Int} {s : State} (valid : s.QueuesValid c)
    (budgeted : s.Budgeted c) (seeking : Seeking c w i k s)
    (done : ∀ s₁, Searched c w k s s₁ → (c.slice i).sc = some k → ∃ s', scDone i t s₁ = .ok s') :
    ∃ s', (selectNext c i k (c.processCount k + 1) s).bind (conclude c scDone i k t) =
      .ok s' := by
  have hfuel : (c.processIds k).countP (Process.isPending · s) < c.processCount k + 1 := by
    have := List.countP_le_length (p := (Process.isPending · s)) (l := c.processIds k)
    simp only [Config.processIds, List.length_map, List.length_range] at this
    exact Nat.lt_succ_of_le this
  obtain ⟨⟨found, s₁⟩, hselect⟩ := selectNext_total valid budgeted seeking hfuel
  rw [hselect, bind_ok]
  rcases selectNext_cases valid seeking hselect with
    ⟨p, b, s₂, rfl, -, -, hs, hsel⟩ | ⟨rfl, hs, -⟩
  · have hspawned : (s₁.process p).spawned = true := by
      have := ((Process.isPending_iff p s₂).mp hsel.pending).1
      rcases hsel.drew_or_same with rfl | rfl <;> exact this
    exact ⟨_, (launch_ok c).mpr ⟨hspawned, rfl⟩⟩
  · by_cases hsc : (c.slice i).sc = some k
    · obtain ⟨s', hs'⟩ := done s₁ hs hsc
      exact ⟨s', by simp [conclude, hsc, hs']⟩
    · exact ⟨s₁, by simp [conclude, hsc]⟩

theorem startPartition_total {i : SliceId} {k : Nat} {t : Int} {first : Bool} {s : State}
    (valid : s.QueuesValid c) (budgeted : s.Budgeted c) (member : i ∈ c.sliceIds w)
    (idle : (s.slice i).runningProcess = none)
    (done : ∀ s₁, Searched c w k (s.assigned c i k first t) s₁ → (c.slice i).sc = some k →
      ∃ s', scDone i t s₁ = .ok s') :
    ∃ s', startPartition c scDone i k t first s = .ok s' := by
  have hidle : ((s.assigned c i k first t).slice i).runningProcess = none := by simpa using idle
  have hk : ((s.assigned c i k first t).slice i).runningPartition = some k := by simp
  rw [startPartition_eq, startNextLoop_eq c scDone _ hidle hk]
  exact startNext_total (valid.assigned i k first t) (fun p => budgeted p) ⟨member, hidle, hk⟩ done

end Slice

namespace BePhase

variable {c : Config} {w : Nat} {calls : List Action} {t : Int} {s s' : State}

theorem startBe_others {i : SliceId} {m : Nat} {t : Int} (h : BePhase c w calls s)
    (valid : s.QueuesValid c) (member : i ∈ c.sliceIds w)
    (run : Slice.startBe c (Window.sliceScEndCb c (m + 1)) i t s = .ok s') :
    ∀ j ≠ i, s'.slice j = s.slice j := by
  intro j hj
  unfold Slice.startBe at run
  split at run
  · rw [Except.ok.injEq] at run
    rw [run]
  · next k hk =>
    obtain ⟨idle, run⟩ := Slice.startPartition_ok c _ run
    have hrole : c.role false i = some k := by simpa [Config.role] using hk
    have hentered := Effect.entered (s := s) (t := t) false member idle hrole h.alike
    have hassigned : (s.assigned c i k false t).slice j = s.slice j := by simp [hj]
    rcases Slice.startNext_cases (valid.effect hentered)
        ⟨member, by simpa using idle, by simp⟩ run with
      ⟨p, b, s₂, s₁, -, -, hs, hsel, rfl⟩ | ⟨s₁, hs, -, hend⟩
    · have hslice : s₁.slice = s₂.slice := by
        rcases hsel.drew_or_same with rfl | rfl <;> rfl
      rw [State.launched_slice, Function.update_of_ne hj, hslice, hs.slice, hassigned]
    · have hphase := (h.assigned k false t idle).searched hs
      obtain ⟨rfl, -⟩ := c.mem_sliceIds.mp member
      rw [Window.sliceScEndCb_finished m hphase.finished] at hend
      split at hend <;> rw [Except.ok.injEq] at hend
      · rw [← hend, State.counted_slice, hs.slice, hassigned]
      · rw [← hend, hs.slice, hassigned]

theorem startBe_total {i : SliceId} {m : Nat} (t : Int) (h : BePhase c w calls s)
    (valid : s.QueuesValid c) (budgeted : s.Budgeted c) (member : i ∈ c.sliceIds w)
    (idle : (s.slice i).runningProcess = none) :
    ∃ s', Slice.startBe c (Window.sliceScEndCb c (m + 1)) i t s = .ok s' := by
  unfold Slice.startBe
  split
  · exact ⟨s, rfl⟩
  · refine Slice.startPartition_total valid budgeted member idle fun s₁ hs _ => ?_
    obtain ⟨rfl, -⟩ := c.mem_sliceIds.mp member
    exact ⟨_, Window.sliceScEndCb_finished m ((h.assigned _ _ _ idle).searched hs).finished⟩

end BePhase

namespace Window

variable {c : Config} {w : Nat}

theorem startBes_total {t : Int} {calls : List Action} {s : State} (h : BePhase c w calls s)
    (idle : s.AllIdle)
    (valid : s.QueuesValid c) (budgeted : s.Budgeted c) :
    ∃ s', (c.sliceIds w).foldlM
      (fun s j => Slice.startBe c (sliceScEndCb c 1) j t s) s = .ok s' := by
  obtain ⟨s', hs', -⟩ := foldlM_total (l := c.sliceIds w) (s := s)
    (f := fun s j => Slice.startBe c (sliceScEndCb c 1) j t s)
    (fun done s' => Effects c w t s s' ∧ BePhase c w calls s' ∧
      ∀ j ∉ done, (s'.slice j).runningProcess = none)
    (fun done j rest s₁ hsplit hI => by
      obtain ⟨heffects, hphase, hidle⟩ := hI
      have hmember : j ∈ c.sliceIds w := by simp [hsplit]
      have hfresh : j ∉ done := Config.sliceIds_fresh hsplit
      obtain ⟨s₂, hs₂⟩ := hphase.startBe_total (m := 0) t (valid.effects heffects)
        (budgeted.effects heffects) hmember (hidle j hfresh)
      obtain ⟨hnext, hphase₂⟩ := hphase.startBe (valid.effects heffects) hmember hs₂
      refine ⟨s₂, hs₂, heffects.trans hnext, hphase₂, fun l hl => ?_⟩
      rw [List.mem_append, not_or, List.mem_singleton] at hl
      rw [hphase.startBe_others (valid.effects heffects) hmember hs₂ l hl.2]
      exact hidle l hl.1)
    ⟨.refl, h, fun j _ => idle j⟩
  exact ⟨s', hs'⟩

theorem scDone_total {i : SliceId} (t : Int) {done : List SliceId} {s : State}
    (member : i ∈ c.sliceIds w) (valid : s.QueuesValid c) (budgeted : s.Budgeted c)
    (sub : done.length ≤ c.sliceCount w)
    (alike : ∀ j p, (s.slice j).runningProcess = some p → j ∈ done)
    (count : (s.window w).finishedScPartitions + 1 = done.countP s.isIdle) :
    ∃ s', scDone c i t s = .ok s' := by
  obtain ⟨rfl, -⟩ := c.mem_sliceIds.mp member
  rw [scDone, sliceScEndCb_succ, count]
  split
  · exact ⟨_, rfl⟩
  · split
    · next hfull =>
      have hlength : done.countP s.isIdle = done.length := by
        have := List.countP_le_length (p := s.isIdle) (l := done)
        omega
      have hidle : s.AllIdle := s.allIdle_of_countP alike hlength
      have hphase : BePhase c i.window s.course.calls
          ((s.counted i.window).record (.beStarted i.window t)) :=
        beStarted_phase hidle (count.trans hfull)
      obtain ⟨s', hs'⟩ := startBes_total (t := t) hphase hidle valid budgeted
      exact ⟨_, by rw [hs']; rfl⟩
    · exact ⟨_, rfl⟩

end Window

namespace ScPhase

variable {c : Config} {w : Nat} {calls : List Action}

theorem startSc_total {i : SliceId} (t : Int) {done rest : List SliceId} {s : State}
    (h : ScPhase c w done calls s) (split : c.sliceIds w = done ++ i :: rest) (valid : s.QueuesValid c)
    (budgeted : s.Budgeted c) : ∃ s', Slice.startSc c (Window.scDone c) i t s = .ok s' := by
  have hmember : i ∈ c.sliceIds w := by simp [split]
  have hlength : (done ++ [i]).length ≤ c.sliceCount w := by
    rw [← c.length_sliceIds, split]
    simp
  have hidle : (s.slice i).runningProcess = none := by
    cases hrun : (s.slice i).runningProcess with
    | none => rfl
    | some p => exact absurd (h.alike i p hrun).1 (Config.sliceIds_fresh split)
  have hcount : (s.window w).finishedScPartitions + 1 = (done ++ [i]).countP s.isIdle := by
    simp [List.countP_append, h.count, State.isIdle, hidle]
  have halike : ∀ j p, (s.slice j).runningProcess = some p → j ∈ done ++ [i] :=
    fun j p hp => List.mem_append_left _ (h.alike j p hp).1
  unfold Slice.startSc
  cases hk : (c.slice i).sc with
  | none => exact Window.scDone_total t hmember valid budgeted hlength halike hcount
  | some k =>
    have hentered := Effect.entered (s := s) (t := t) true hmember hidle
      (by simpa [Config.role] using hk) fun j q hq => (h.alike j q hq).2
    refine Slice.startPartition_total valid budgeted hmember hidle fun s₁ hs _ => ?_
    have hrun : ∀ j, (s₁.slice j).runningProcess = (s.slice j).runningProcess := by
      intro j
      rw [hs.slice, State.assigned_running]
    have hsame : s₁.isIdle = s.isIdle := by
      funext j
      rw [State.isIdle, State.isIdle, hrun]
    refine Window.scDone_total t hmember ((valid.effect hentered).effects (hs.effects t))
      ((budgeted.effect hentered).effects (hs.effects t)) hlength (fun j p hp => ?_) ?_
    · exact halike j p (hrun j ▸ hp)
    · rw [hs.window, hsame]
      exact hcount

end ScPhase

namespace Slice

variable {c : Config} {w : Nat}

theorem scheduleNext_total {i : SliceId} {p : ProcessId} (t : Int) {s : State}
    (h : Phase c w s) (valid : s.QueuesValid c) (budgeted : s.Budgeted c)
    (coherent : s.Coherent c w) (hp : (s.slice i).runningProcess = some p) :
    ∃ s', scheduleNext c (Window.scDone c) i t s = .ok s' := by
  have member := coherent.running i p hp
  obtain ⟨hk, -⟩ := coherent.owner i p hp
  have hstopped := Effect.stopped (t := t) true member hp
  have seeking : Seeking c w i p.part (s.stopped i p t true) :=
    ⟨member, by simp, by simpa using hk⟩
  have hstop : stopCurrentProcess i t true s = .ok (s.stopped i p t true) :=
    stopCurrentProcess_ok.mpr ⟨p, hp, rfl⟩
  have hk' : ((s.stopped i p t true).slice i).runningPartition = some p.part := by simpa using hk
  simp only [scheduleNext, hstop, bind_def, bind_ok, startNextProcess, hk']
  rw [startNextLoop_eq c _ _ seeking.idle hk']
  refine startNext_total (valid.effect hstopped) (budgeted.effect hstopped) seeking
    fun s₁ hs hsc => ?_
  have hvalid := (valid.effect hstopped).effects (hs.effects t)
  have hbudgeted := (budgeted.effect hstopped).effects (hs.effects t)
  have hbe : ∀ calls, BePhase c w calls s → ∃ s', Window.scDone c i t s₁ = .ok s' := by
    intro calls h
    obtain ⟨rfl, -⟩ := c.mem_sliceIds.mp member
    exact ⟨_, Window.sliceScEndCb_finished 1 (by
      rw [hs.window]
      exact h.finished)⟩
  rcases h with (h | ⟨h, -⟩) | h
  · have hsearch := h.stopped member hp t
    have hsame : s₁.isIdle = (s.stopped i p t true).isIdle := by
      funext j
      rw [State.isIdle, State.isIdle, hs.slice]
    refine Window.scDone_total t member hvalid hbudgeted (c.length_sliceIds w).le
      (fun j q hq => ?_) ?_
    · rw [hs.slice] at hq
      exact (hsearch.alike j q hq).1
    · rw [hsame, hs.window]
      exact hsearch.count
  · exact hbe _ h
  · exact hbe _ h

end Slice

namespace Window

variable {c : Config} {w : Nat}

theorem start_total (t : Int) {s : State} (idle : s.AllIdle)
    (opened : (s.window w).stopping = false) (valid : s.QueuesValid c)
    (budgeted : s.Budgeted c) : ∃ s', start c w t s = .ok s' := by
  set s₀ := (s.record (.windowStarted w t)).setWindow w
    { s.window w with finishedScPartitions := 0 }
  have hstart : ScPhase c w [] [] s₀ := begun_scPhase idle opened
  obtain ⟨s', hs', -⟩ := foldlM_total (f := fun s i => Slice.startSc c (scDone c) i t s)
    (l := c.sliceIds w) (s := s₀)
    (fun done s₁ => s₁.QueuesValid c ∧ s₁.Budgeted c ∧ Starting c w done [] s₁)
    (fun done i rest s₁ hsplit hI => by
      obtain ⟨hvalid, hbudgeted, hphase⟩ := hI
      have hlength := congrArg List.length hsplit
      rw [c.length_sliceIds, List.length_append, List.length_cons] at hlength
      rcases hphase with hphase | ⟨-, hdone⟩
      · obtain ⟨s₂, hs₂⟩ := hphase.startSc_total t hsplit hvalid hbudgeted
        obtain ⟨hnext, hphase₂⟩ := hphase.startSc hsplit hvalid hs₂
        exact ⟨s₂, hs₂, hvalid.effects hnext, hbudgeted.effects hnext, hphase₂⟩
      · rw [hdone, c.length_sliceIds] at hlength
        omega)
    ⟨valid, budgeted, .inl hstart⟩
  exact ⟨(s'.record (.onWindowStart w)).record (.onScStart w), by
    change (List.foldlM _ s₀ _ >>= _) = _
    rw [bind_def, hs', bind_ok, pure_def]⟩

end Window

theorem MajorFrame.start_total {c : Config} (t : Int) {s : State} (h : s.Sound c)
    (halted : s.Halted) (budgeted : s.Budgeted c) : ∃ s', start c t s = .ok s' := by
  obtain ⟨s₁, hs₁⟩ :=
    Window.start_total t halted.idle (h.opened s.frame.currentWin) h.queues budgeted
  exact ⟨_, by rw [start, hs₁]; rfl⟩

end DemosSched
