import DemosSched.Ledger

/-! Entering an SC partition. The queue is always tried from its first process;
a stored remainder reaches an SC start only through a partition that some slice
also runs in the BE phase. -/

namespace DemosSched

open Fallible Relation

namespace Action

def beginsPhase (i : SliceId) : Action → Option (Nat × Bool)
  | .entered j k first _ => if j = i then some (k, first) else none
  | _ => none

/-- The partition slice `i` entered last, and whether it did in the SC phase. -/
def phase (i : SliceId) : List Action → Option (Nat × Bool)
  | [] => none
  | a :: h => (a.beginsPhase i).or (phase i h)

def Plain : Action → Prop
  | .entered _ _ _ _ | .drawn _ _ | .started _ _ _ _ | .shortened _ _ => False
  | _ => True

theorem OfWindow.plain {a : Action} (ha : a.OfWindow) : a.Plain := by
  cases a <;> trivial

theorem Plain.phase {a : Action} (ha : a.Plain) (i : SliceId) (h : List Action) :
    phase i (a :: h) = Action.phase i h := by
  cases a <;> first | rfl | exact absurd ha id

end Action

/-- The history knows the phase of every slice, what it has started there, and
for whom a remainder was stored. -/
structure State.Tracked (c : Config) (s : State) : Prop where
  owner : ∀ i p, (s.slice i).runningProcess = some p →
    (s.slice i).runningPartition = some p.part
  phase : ∀ i k, (s.slice i).runningPartition = some k →
    ∃ first, Action.phase i s.history = some (k, first) ∧ c.role first i = some k
  undrawn : ∀ p offset h, s.history ≠ .drawn p offset :: h
  starts : ∀ i p t b h, .started i p t b :: h <:+ s.history →
    (∃ first, Action.phase i h = some (p.part, first) ∧ c.role first i = some p.part) ∧
    (Action.leftover p h = some b → ∀ offset h', h ≠ .drawn p offset :: h')
  shortened : ∀ p r h, .shortened p r :: h <:+ s.history → ∃ i, (c.slice i).be = some p.part

namespace State.Tracked

variable {c : Config} {w : Nat} {t : Int} {s s' : State}

theorem congr (h : s.Tracked c)
    (running : ∀ i, (s'.slice i).runningProcess = (s.slice i).runningProcess ∨
      (s'.slice i).runningProcess = none)
    (partition : ∀ i, (s'.slice i).runningPartition = (s.slice i).runningPartition)
    (history : s'.history = s.history) : s'.Tracked c where
  owner i p hp := by
    rw [partition]
    rcases running i with hr | hr
    · exact h.owner i p (hr ▸ hp)
    · simp [hr] at hp
  phase i k hk := by
    rw [history]
    exact h.phase i k (partition i ▸ hk)
  undrawn := by rw [history]; exact h.undrawn
  starts := by rw [history]; exact h.starts
  shortened := by rw [history]; exact h.shortened

theorem recorded (h : s.Tracked c) {a : Action} {h₁ : List Action} (ha : a.Plain)
    (running : ∀ i, (s'.slice i).runningProcess = (s.slice i).runningProcess ∨
      (s'.slice i).runningProcess = none)
    (partition : ∀ i, (s'.slice i).runningPartition = (s.slice i).runningPartition)
    (draw : h₁ = s.history ∨ ∃ p offset, h₁ = .drawn p offset :: s.history)
    (history : s'.history = a :: h₁) : s'.Tracked c := by
  have hphase : ∀ i, Action.phase i s'.history = Action.phase i s.history := by
    intro i
    rw [history, ha.phase]
    rcases draw with rfl | ⟨p, offset, rfl⟩ <;> rfl
  have hsuffix : ∀ x l, x :: l <:+ s'.history → ¬x.Plain → x :: l <:+ s.history ∨
      ∃ p offset, x = .drawn p offset := by
    intro x l hx hplain
    rw [history, List.suffix_cons_iff] at hx
    rcases hx with heq | hx
    · exact absurd ((List.cons.inj heq).1 ▸ ha) hplain
    · rcases draw with rfl | ⟨p, offset, rfl⟩
      · exact .inl hx
      · rcases List.suffix_cons_iff.mp hx with heq | hx
        · exact .inr ⟨p, offset, (List.cons.inj heq).1⟩
        · exact .inl hx
  refine ⟨fun i p hp => ?_, fun i k hk => ?_, fun p offset older heq => ?_,
    fun i p t b older hx => ?_, fun p r older hx => ?_⟩
  · rw [partition]
    rcases running i with hr | hr
    · exact h.owner i p (hr ▸ hp)
    · simp [hr] at hp
  · rw [hphase]
    exact h.phase i k (partition i ▸ hk)
  · rw [history] at heq
    rw [(List.cons.inj heq).1] at ha
    exact ha
  · rcases hsuffix _ _ hx id with hx | ⟨q, offset, hq⟩
    · exact h.starts i p t b older hx
    · simp at hq
  · rcases hsuffix _ _ hx id with hx | ⟨q, offset, hq⟩
    · exact h.shortened p r older hx
    · simp at hq

theorem entered (h : s.Tracked c) {i : SliceId} {k : Nat} {first : Bool} {t : Int}
    (idle : (s.slice i).runningProcess = none) (role : c.role first i = some k) :
    (s.assigned c i k first t).Tracked c where
  owner j p hp := by
    rw [State.assigned_running] at hp
    rw [State.assigned_slice, Function.update_of_ne (s.ne_of_idle idle hp)]
    exact h.owner j p hp
  phase j m hm := by
    by_cases hj : j = i
    · subst hj
      have hkm : k = m := by simpa using hm
      subst hkm
      exact ⟨first, by simp [Action.phase, Action.beginsPhase], role⟩
    · have hother : (Action.entered i k first t).beginsPhase j = none := by
        simp [Action.beginsPhase, Ne.symm hj]
      simp only [State.assigned_slice, Function.update_of_ne hj] at hm
      rw [State.assigned_history, Action.phase, hother, Option.none_or]
      exact h.phase j m hm
  undrawn p offset older heq := by simp at heq
  starts j p u b older hsuffix := by
    rw [State.assigned_history, List.suffix_cons_iff] at hsuffix
    rcases hsuffix with heq | hsuffix
    · simp at heq
    · exact h.starts j p u b older hsuffix
  shortened p r older hsuffix := by
    rw [State.assigned_history, List.suffix_cons_iff] at hsuffix
    rcases hsuffix with heq | hsuffix
    · simp at heq
    · exact h.shortened p r older hsuffix

theorem launched (h : s.Tracked c) (ledger : s.Ledger c) {i : SliceId} {p : ProcessId} {b t : Int}
    {s₁ : State} (selected : Slice.Selected c w i p b s s₁) :
    (s₁.launched c i p t b).Tracked c := by
  have hslice : s₁.slice = s.slice := by
    rcases selected.drew_or_same with rfl | rfl <;> rfl
  have hhistory : s₁.history = s.history ∨
      ∃ offset, s₁.history = .drawn p offset :: s.history := by
    rcases selected.drew_or_same with rfl | rfl
    · exact .inl rfl
    · exact .inr ⟨_, rfl⟩
  have hphase : ∀ j, Action.phase j s₁.history = Action.phase j s.history := by
    intro j
    rcases hhistory with heq | ⟨offset, heq⟩ <;> rw [heq]
    rfl
  refine ⟨fun j q hq => ?_, fun j m hm => ?_, fun q offset older heq => ?_,
    fun j q u d older hsuffix => ?_, fun q r older hsuffix => ?_⟩
  · rw [State.launched_runningPartition, hslice]
    rcases State.launched_running.mp hq with ⟨rfl, rfl⟩ | ⟨-, hq⟩
    · exact selected.owner
    · exact h.owner j q (hslice ▸ hq)
  · have hpart : (s.slice j).runningPartition = some m := by
      rwa [State.launched_runningPartition, hslice] at hm
    obtain ⟨first, hfirst, hrole⟩ := h.phase j m hpart
    have hplain : Action.phase j (s₁.launched c i p t b).history = Action.phase j s₁.history := rfl
    exact ⟨first, by rw [hplain, hphase, hfirst], hrole⟩
  · simp at heq
  · rw [State.launched_history, List.suffix_cons_iff] at hsuffix
    rcases hsuffix with heq | hsuffix
    · obtain ⟨hstart, rfl⟩ := List.cons.inj heq
      obtain ⟨rfl, rfl, -, rfl⟩ := Action.started.inj hstart
      obtain ⟨first, hfirst, hrole⟩ := h.phase j q.part selected.owner
      refine ⟨⟨first, by rw [hphase, hfirst], hrole⟩, fun hleft offset older' hdrawn => ?_⟩
      rcases (Process.getActualBudget_ok c q s).mp selected.granted with
        ⟨-, -, -, rfl⟩ | ⟨hfull, -, rfl⟩
      · exact h.undrawn q offset older' hdrawn
      · -- a full budget is drawn for only when no remainder is stored
        rw [State.drew_history, Action.leftover_cons rfl] at hleft
        have hstored := ledger.stored q
        have hlt := (ledger.bounds List.suffix_rfl hleft).2
        rw [hleft, Option.getD_some] at hstored
        omega
    · rcases hhistory with heq | ⟨offset, heq⟩ <;> rw [heq] at hsuffix
      · exact h.starts j q u d older hsuffix
      · rw [List.suffix_cons_iff] at hsuffix
        rcases hsuffix with heq' | hsuffix
        · simp at heq'
        · exact h.starts j q u d older hsuffix
  · rw [State.launched_history, List.suffix_cons_iff] at hsuffix
    rcases hsuffix with heq | hsuffix
    · simp at heq
    · rcases hhistory with heq | ⟨offset, heq⟩ <;> rw [heq] at hsuffix
      · exact h.shortened q r older hsuffix
      · rw [List.suffix_cons_iff] at hsuffix
        rcases hsuffix with heq' | hsuffix
        · simp at heq'
        · exact h.shortened q r older hsuffix

theorem stopped (h : s.Tracked c) (i : SliceId) (p : ProcessId) (t : Int) (mark : Bool) :
    (s.stopped i p t mark).Tracked c := by
  refine h.recorded (a := .stopped i p t mark) trivial (fun j => ?_)
    (fun _ => State.stopped_runningPartition) (.inl rfl) rfl
  by_cases hj : j = i
  · exact .inr (by simp [hj])
  · exact .inl (by simp [hj])

theorem effect (h : s.Tracked c) (ledger : s.Ledger c) (effect : Effect c w t s s') :
    s'.Tracked c := by
  cases effect with
  | noted a ha => exact h.recorded ha.plain (fun _ => .inl rfl) (fun _ => rfl) (.inl rfl) rfl
  | windowSet | sought => exact h.congr (fun _ => .inl rfl) (fun _ => rfl) rfl
  | entered first member idle role alike => exact h.entered idle role
  | @skipped s₁ i p selected =>
    rcases selected.drew_or_same with rfl | rfl
    · exact h.recorded (a := .skipped i p) trivial (fun _ => .inl rfl) (fun _ => rfl) (.inl rfl) rfl
    · exact h.recorded (a := .skipped i p) trivial (fun _ => .inl rfl) (fun _ => rfl)
        (.inr ⟨p, _, rfl⟩) rfl
  | launched selected ne => exact h.launched ledger selected
  | stopped mark member running => exact h.stopped _ _ t mark

theorem shorten (h : s.Tracked c) {i : SliceId} {p : ProcessId} {r : Int}
    (running : (s.slice i).runningProcess = some p)
    (role : (s.slice i).runningPartition = (c.slice i).be) : (s.shortened p r).Tracked c where
  owner := h.owner
  phase := h.phase
  undrawn q offset older heq := by simp at heq
  starts j q t b older hsuffix := by
    rw [State.shortened_history, List.suffix_cons_iff] at hsuffix
    rcases hsuffix with heq | hsuffix
    · simp at heq
    · exact h.starts j q t b older hsuffix
  shortened q d older hsuffix := by
    rw [State.shortened_history, List.suffix_cons_iff] at hsuffix
    rcases hsuffix with heq | hsuffix
    · obtain ⟨rfl, -⟩ := Action.shortened.inj (List.cons.inj heq).1
      exact ⟨i, role ▸ h.owner i q running⟩
    · exact h.shortened q d older hsuffix

theorem closing (h : s.Tracked c) (ledger : s.Ledger c) (closing : Closing c w t s s') :
    s'.Tracked c := by
  cases closing with
  | effect e => exact h.effect ledger e
  | announced =>
    exact h.recorded (a := .onWindowEnd w) trivial (fun _ => .inl rfl) (fun _ => rfl) (.inl rfl) rfl
  | stopping => exact h.congr (fun _ => .inl rfl) (fun _ => rfl) rfl
  | shortened member running role pos lt => exact h.shorten running role
  | @released i member idle =>
    exact h.congr (fun _ => .inl State.released_running)
      (fun _ => State.update_field Slice.runningPartition rfl) rfl

theorem closings (h : s.Tracked c) (ledger : s.Ledger c) (run : Closings c w t s s') :
    s'.Tracked c := by
  have hboth := run.invariant (I := fun s => s.Ledger c ∧ s.Tracked c)
    (fun _ _ hs e => ⟨hs.1.closings (.single e), hs.2.closing hs.1 e⟩) ⟨ledger, h⟩
  exact hboth.2

theorem turn {ok : Action → Prop} (h : s.Tracked c) (ledger : s.Ledger c)
    (turn : Turn c ok s s') : s'.Tracked c := by
  cases turn with
  | change e =>
    cases e with
    | effects run => exact h.closings ledger run.closings
    | closed run => exact h.closings ledger run
    | windowArmed t =>
      exact h.recorded (a := .windowArmed t) trivial (fun _ => .inl rfl) (fun _ => rfl) (.inl rfl) rfl
    | signalled p =>
      exact h.recorded (a := .signalled p) trivial (fun _ => .inl rfl) (fun _ => rfl) (.inl rfl) rfl
    | ended p =>
      exact h.recorded (a := .exited p) trivial (fun _ => .inl rfl) (fun _ => rfl) (.inl rfl) rfl
    | loopBroken =>
      exact h.recorded (a := .loopBroken) trivial (fun _ => .inl rfl) (fun _ => rfl) (.inl rfl) rfl
    | _ => exact h.congr (fun _ => .inl rfl) (fun _ => rfl) rfl
  | noted a ha =>
    have hplain : a.Plain := by rcases ha with rfl | rfl <;> trivial
    exact h.recorded hplain (fun _ => .inl rfl) (fun _ => rfl) (.inl rfl) rfl
  | killed p =>
    exact h.recorded (a := .killed p) trivial (fun _ => .inl rfl) (fun _ => rfl) (.inl rfl) rfl
  | thawed _ p =>
    exact h.recorded (a := .initResumed p) trivial (fun _ => .inl rfl) (fun _ => rfl) (.inl rfl) rfl
  | suspended _ p =>
    exact h.recorded (a := .initSuspended p) trivial (fun _ => .inl rfl) (fun _ => rfl) (.inl rfl) rfl
  | _ => exact h.congr (fun _ => .inl rfl) (fun _ => rfl) rfl

theorem initial (c : Config) (gen : Nat → Nat) (timeout : Option Int) :
    (State.initial c gen timeout).Tracked c where
  owner _ _ h := by simp [State.initial] at h
  phase _ _ h := by simp [State.initial] at h
  undrawn _ _ _ h := by simp [State.initial] at h
  starts _ _ _ _ _ h := by simp [State.initial] at h
  shortened _ _ _ h := by simp [State.initial] at h

end State.Tracked

theorem Event.Reachable.tracked {c : Config} {gen : Nat → Nat} {timeout : Option Int}
    {es : List Event} {s : State} (h : Reachable c gen timeout es s) : s.Tracked c :=
  (h.turns.invariant (I := fun s => s.Ledger c ∧ s.Tracked c)
    (fun _ _ hs e => ⟨hs.1.turn e, hs.2.turn hs.1 e⟩)
    ⟨State.Ledger.initial c gen timeout, State.Tracked.initial c gen timeout⟩).2

/-- Every process started in an SC phase was granted its configured budget with
an offset drawn for this start. -/
def Action.FreshGrants (c : Config) (history : List Action) : Prop :=
  ∀ i p t b h, .started i p t b :: h <:+ history → Action.phase i h = some (p.part, true) →
    ∃ offset h', h = .drawn p offset :: h' ∧ b = (c.process p).budget + offset

/-- No process interrupted with a remainder is started in an SC phase before it
has been started again elsewhere. -/
def Action.NoneCarried (history : List Action) : Prop :=
  ∀ i p t b h, .started i p t b :: h <:+ history → Action.phase i h = some (p.part, true) →
    ∀ r older, .shortened p r :: older <:+ h → ∃ j u d mid, .started j p u d :: mid <:+ h ∧
      .shortened p r :: older <:+ mid

namespace Action

/-- No remainder is left for `p` exactly when every interruption of `p` is
followed by another start of it. -/
theorem leftover_eq_none_iff {p : ProcessId} {h : List Action} :
    leftover p h = none ↔ ∀ r older, .shortened p r :: older <:+ h →
      ∃ j u d mid, .started j p u d :: mid <:+ h ∧ .shortened p r :: older <:+ mid := by
  induction h with
  | nil => simp [leftover]
  | cons a h ih =>
    cases ha : a.remainder p with
    | none =>
      rw [leftover_cons ha, ih]
      constructor
      · intro hall r older hx
        rcases List.suffix_cons_iff.mp hx with heq | hx
        · rw [← (List.cons.inj heq).1] at ha
          simp [remainder] at ha
        · obtain ⟨j, u, d, mid, hmid, hin⟩ := hall r older hx
          exact ⟨j, u, d, mid, hmid.trans (List.suffix_cons _ _), hin⟩
      · intro hall r older hx
        obtain ⟨j, u, d, mid, hmid, hin⟩ := hall r older (hx.trans (List.suffix_cons _ _))
        rcases List.suffix_cons_iff.mp hmid with heq | hmid
        · rw [← (List.cons.inj heq).1] at ha
          simp [remainder] at ha
        · exact ⟨j, u, d, mid, hmid, hin⟩
    | some x =>
      cases a with
      | started i q t b =>
        simp only [remainder, Option.ite_none_right_eq_some, Option.some.injEq] at ha
        obtain ⟨rfl, rfl⟩ := ha
        refine iff_of_true (by simp [leftover, remainder]) fun r older hx => ?_
        rcases List.suffix_cons_iff.mp hx with heq | hx
        · simp at heq
        · exact ⟨i, t, b, h, List.suffix_rfl, hx⟩
      | shortened q d =>
        simp only [remainder, Option.ite_none_right_eq_some, Option.some.injEq] at ha
        obtain ⟨rfl, rfl⟩ := ha
        refine iff_of_false (by simp [leftover, remainder]) fun hall => ?_
        obtain ⟨j, u, e, mid, hmid, hin⟩ := hall d h List.suffix_rfl
        have hlong := hin.length_le
        rcases List.suffix_cons_iff.mp hmid with heq | hmid
        · simp at heq
        · have hshort := hmid.length_le
          simp only [List.length_cons] at hlong hshort
          omega
      | _ => simp [remainder] at ha

end Action

namespace State

variable {c : Config} {s : State}

theorem freshGrants_iff (ledger : s.Ledger c) (tracked : s.Tracked c) :
    Action.FreshGrants c s.history ↔ Action.NoneCarried s.history := by
  constructor
  · intro hfresh i p t b h hx hsc
    rw [← Action.leftover_eq_none_iff]
    obtain ⟨offset, older, hdrawn, -⟩ := hfresh i p t b h hx hsc
    rcases ledger.granted i p t b h hx with hleft | ⟨hnone, -⟩
    · exact absurd hdrawn ((tracked.starts i p t b h hx).2 hleft offset older)
    · exact hnone
  · intro hnone i p t b h hx hsc
    have hleft := Action.leftover_eq_none_iff.mpr (hnone i p t b h hx hsc)
    rcases ledger.granted i p t b h hx with hsome | ⟨-, hgrant⟩
    · simp [hleft] at hsome
    · exact hgrant

/-- With single roles a remainder is never stored for a process of an SC partition. -/
theorem noneCarried_of_singleRole (single : c.SingleRole) (tracked : s.Tracked c) :
    Action.NoneCarried s.history := by
  intro i p t b h hx hsc r older hr
  obtain ⟨⟨first, hfirst, hrole⟩, -⟩ := tracked.starts i p t b h hx
  obtain ⟨j, hj⟩ := tracked.shortened p r older
    (hr.trans ((List.suffix_cons _ _).trans hx))
  rw [hsc] at hfirst
  simp only [Option.some.injEq, Prod.mk.injEq, true_and] at hfirst
  subst hfirst
  exact absurd hj (single.ne hrole)

end State

/-- Entering the SC partition the queue starts over: what is found first is the
first process that has not exited. -/
theorem Slice.startSc_first (c : Config) (scDone : SliceId → Int → State → Except Fault State)
    {i : SliceId} {k : Nat} (sc : (c.slice i).sc = some k) (t : Int) (s : State) :
    startSc c scDone i t s =
        startNextLoop c scDone (c.processCount k + 1) i t (s.assigned c i k true t) ∧
      ∀ p, (Partition.seekPendingProcess c k (s.assigned c i k true t)).1 = some p →
        p.part = k ∧ (s.process p).spawned = true ∧
          ∀ j < p.index, (s.process ⟨k, j⟩).spawned = false := by
  refine ⟨by rw [startSc, sc]; exact startPartition_eq c scDone i k t true s, fun p hp => ?_⟩
  have hclear : ∀ j < c.processCount k,
      Process.isPending ⟨k, j⟩ (s.assigned c i k true t) = (s.process ⟨k, j⟩).spawned := by
    intro j hj
    have hmem : (⟨k, j⟩ : ProcessId) ∈ c.processIds k := c.mem_processIds.mpr ⟨rfl, hj⟩
    simp [Process.isPending, Process.isSpawned, hmem]
  rw [Partition.seekPendingProcess_eq] at hp
  have hzero : ((s.assigned c i k true t).partition k).currentProc = 0 := by simp
  rw [hzero] at hp
  cases hr : CyclicSearch.seek (c.processCount k)
      (fun j => Process.isPending ⟨k, j⟩ (s.assigned c i k true t)) (c.processCount k) 0 with
  | mk found cur =>
    rw [hr] at hp
    simp only [Option.map_eq_some_iff] at hp
    obtain ⟨j, rfl, rfl⟩ := hp
    obtain ⟨-, hlt, hpend, d, hd, hjd, hbefore⟩ :=
      CyclicSearch.seek_some (c.processCount_pos k) hr
    rw [Nat.zero_add, Nat.mod_eq_of_lt hd] at hjd
    subst hjd
    refine ⟨rfl, by rw [← hclear j hlt]; exact hpend, fun e he => ?_⟩
    have hej : e < j := he
    have hnot := hbefore e hej
    rw [Nat.zero_add, Nat.mod_eq_of_lt (by omega)] at hnot
    rw [← hclear e (by omega)]
    exact hnot

/-- A slice that enters its SC partition tries the processes from the first one.
They are all granted fresh budgets if and only if none of them is started there
with an interruption behind it that no start has followed yet; partitions of a
single role always are. -/
theorem sc_restart_fresh {c : Config} {gen : Nat → Nat} {timeout : Option Int}
    {es : List Event} {s : State} (reachable : Event.Reachable c gen timeout es s) :
    (∀ i k t m, (c.slice i).sc = some k →
      Slice.startSc c (Window.scDone c) i t m =
          Slice.startNextLoop c (Window.scDone c) (c.processCount k + 1) i t
            (m.assigned c i k true t) ∧
        ∀ p, (Partition.seekPendingProcess c k (m.assigned c i k true t)).1 = some p →
          p.part = k ∧ (m.process p).spawned = true ∧
            ∀ j < p.index, (m.process ⟨k, j⟩).spawned = false) ∧
    (Action.FreshGrants c s.history ↔ Action.NoneCarried s.history) ∧
    (c.SingleRole → Action.FreshGrants c s.history) := by
  have hiff := State.freshGrants_iff reachable.ledger reachable.tracked
  exact ⟨fun i k t m hsc => Slice.startSc_first c _ hsc t m, hiff,
    fun hsingle => hiff.mpr (State.noneCarried_of_singleRole hsingle reachable.tracked)⟩

/-- The only process of the slice is interrupted as a BE process and started again
as an SC process. -/
theorem leftover_reaches_sc :
    ¬∀ (c : Config) (gen : Nat → Nat) (timeout : Option Int) (es : List Event) (s : State),
      Run (fun s e s' => e.OnTime c s ∧ Event.Step c s e s') (State.initial c gen timeout) es s →
      Action.FreshGrants c s.history := by
  intro hclaim
  have hrun : ((Event.play .sharedRole (Event.OnTime .sharedRole) [.startup 0, .windowTimer]
      (State.initial .sharedRole (fun _ => 0) none)).map fun s => s.history) = some [
        .windowArmed 20000000, .onScStart 0, .onWindowStart 0,
        .started ⟨0, 0⟩ ⟨0, 0⟩ 10000000 5, .entered ⟨0, 0⟩ 0 true 10000000,
        .windowStarted 0 10000000,
        .stopped ⟨0, 0⟩ ⟨0, 0⟩ 10000000 false, .shortened ⟨0, 0⟩ 5, .onWindowEnd 0,
        .windowArmed 10000000, .onScStart 0, .onWindowStart 0,
        .started ⟨0, 0⟩ ⟨0, 0⟩ 0 15, .drawn ⟨0, 0⟩ 0, .entered ⟨0, 0⟩ 0 true 0,
        .windowStarted 0 0, .initFinished] := by decide
  obtain ⟨s, hplay, hs⟩ := Option.map_eq_some_iff.mp hrun
  have hfresh := hclaim _ _ _ _ s (Event.play_run _ hplay)
  rw [hs] at hfresh
  obtain ⟨offset, h', hdrawn, -⟩ := hfresh ⟨0, 0⟩ ⟨0, 0⟩ 10000000 5 _
    ⟨[.windowArmed 20000000, .onScStart 0, .onWindowStart 0], rfl⟩ rfl
  simp at hdrawn

theorem sc_restart_fresh_twoProcesses :
    ∃ s : State, s.history.length = 22 ∧ Action.FreshGrants .twoProcesses s.history := by
  have hrun : ((Event.play .twoProcesses (fun _ _ => True)
      [.startup 0, .sliceTimer ⟨0, 0⟩, .sliceTimer ⟨0, 0⟩, .windowTimer]
      (State.initial .twoProcesses (fun _ => 0) none)).map fun s => s.history.length) =
      some 22 := by decide
  obtain ⟨s, hplay, hs⟩ := Option.map_eq_some_iff.mp hrun
  exact ⟨s, hs, (sc_restart_fresh (Event.play_reachable hplay)).2.2 (by decide)⟩

end DemosSched
