import DemosSched.Gating
import DemosSched.PowerPolicy

/-! Which process runs on which slice, and on which CPUs, since `MajorFrame::start`.
A configuration that uses a partition in one slice of a window only never starts a
process that runs, and a slice stops the process it runs. -/

namespace DemosSched

open Fallible Relation

namespace Config

variable (c : Config)

def OneSlice : Prop :=
  ∀ w < c.windows.length, ∀ i ∈ c.sliceIds w, ∀ j ∈ c.sliceIds w,
    ∀ k ∈ (c.slice i).partitions, k ∈ (c.slice j).partitions → i = j

instance : Decidable c.OneSlice := inferInstanceAs (Decidable (∀ _ < _, _))

variable {c}

theorem role_mem {sc : Bool} {i : SliceId} {k : Nat} (h : c.role sc i = some k) :
    k ∈ (c.slice i).partitions := by
  cases sc <;> simp_all [role, SliceDef.partitions]

theorem OneSlice.eq (h : c.OneSlice) {w : Nat} {i j : SliceId} {k : Nat} (hi : i ∈ c.sliceIds w)
    (hj : j ∈ c.sliceIds w) (hik : k ∈ (c.slice i).partitions)
    (hjk : k ∈ (c.slice j).partitions) : i = j := by
  have hw : w < c.windows.length := by
    by_contra hle
    have hcount : c.sliceCount w = 0 := by
      rw [sliceCount, window, List.getD_eq_default _ _ (by omega)]
      rfl
    rw [mem_sliceIds, hcount] at hi
    omega
  exact h w hw i hi j hj k hik hjk

theorem OneSlice.unshared (h : c.OneSlice) : c.Unshared := by
  intro w _ i hi j hj sc hne hsame
  obtain ⟨k, hk⟩ := Option.ne_none_iff_exists'.mp hne
  exact h.eq hi hj (role_mem hk) (role_mem (hsame ▸ hk))

end Config

namespace Action

/-- After the records `h`, an idle slice starts a process that runs nowhere on its own
CPUs, and a slice stops the process it runs. -/
def Fits (c : Config) (h : List Action) : Action → Prop
  | .started i p _ _ => running i h = none ∧ (∀ j, running j h ≠ some p) ∧
      p.part ∈ (c.slice i).partitions ∧ p.index < c.processCount p.part ∧
      currentCpus c p.part h = (c.slice i).cpus
  | .stopped i p _ _ => running i h = some p
  | _ => True

def Fitting (c : Config) (history : List Action) : Prop :=
  ∀ a h, a :: h <:+ history → a.Fits c h

theorem fitting_cons {c : Config} {a : Action} {h : List Action} :
    Fitting c (a :: h) ↔ a.Fits c h ∧ Fitting c h := by
  constructor
  · intro hfit
    exact ⟨hfit a h List.suffix_rfl, fun b l hl => hfit b l (hl.trans (List.suffix_cons _ _))⟩
  · rintro ⟨hfits, hfit⟩ b l hl
    rcases List.suffix_cons_iff.mp hl with heq | hl
    · obtain ⟨rfl, rfl⟩ := List.cons.inj heq
      exact hfits
    · exact hfit b l hl

theorem Fitting.running_inj {c : Config} {h : List Action} (hfit : Fitting c h) {i j : SliceId}
    {p : ProcessId} (hi : running i h = some p) (hj : running j h = some p) : i = j := by
  induction h with
  | nil => simp [running] at hi
  | cons a h ih =>
    obtain ⟨hfits, hrest⟩ := fitting_cons.mp hfit
    cases a with
    | started l q t b =>
      by_cases hil : l = i
      · by_cases hjl : l = j
        · exact hil.symm.trans hjl
        · simp only [running, hil, if_true, Option.some.injEq] at hi
          simp only [running, hjl, if_false] at hj
          exact absurd hj (hi ▸ hfits.2.1 j)
      · simp only [running, hil, if_false] at hi
        by_cases hjl : l = j
        · simp only [running, hjl, if_true, Option.some.injEq] at hj
          exact absurd hi (hj ▸ hfits.2.1 i)
        · simp only [running, hjl, if_false] at hj
          exact ih hrest hi hj
    | stopped l q t mark =>
      by_cases hil : l = i
      · simp [running, hil] at hi
      · by_cases hjl : l = j
        · simp [running, hjl] at hj
        · simp only [running, hil, hjl, if_false] at hi hj
          exact ih hrest hi hj
    | _ => exact ih hrest hi hj

def Still : Action → Prop
  | .started _ _ _ _ | .stopped _ _ _ _ | .entered _ _ _ _ => False
  | _ => True

theorem running_still {a : Action} (ha : a.Still) (i : SliceId) (h : List Action) :
    running i (a :: h) = running i h := by
  cases a <;> first | rfl | exact absurd ha id

theorem currentCpus_still (c : Config) {a : Action} (ha : a.Still) (k : Nat) (h : List Action) :
    currentCpus c k (a :: h) = currentCpus c k h := by
  cases a <;> first | rfl | exact absurd ha id

theorem fits_still (c : Config) {a : Action} (ha : a.Still) (h : List Action) : a.Fits c h := by
  cases a <;> trivial

end Action

structure State.Tenured (c : Config) (base : List Action) (s : State) : Prop where
  placed : ∀ j q, (s.slice j).runningProcess = some q →
    j ∈ c.sliceIds s.frame.currentWin ∧ q.part ∈ (c.slice j).partitions ∧
      (s.process q).frozen = false
  roles : s.course.stage ≠ .closed → ∀ i k b, s.course.role i = some (k, b) → c.role b i = some k
  records : ∃ new, s.history = new ++ base ∧ Action.Fitting c new ∧
    (∀ i, Action.running i new = (s.slice i).runningProcess) ∧
    (s.course.stage ≠ .closed → ∀ i k b, s.course.role i = some (k, b) →
      Action.currentCpus c k new = (s.partition k).currentCpus)

namespace State.Tenured

variable {c : Config} {base : List Action} {w : Nat} {t : Int} {s s' : State}

theorem congr (h : s.Tenured c base)
    (running : ∀ j, (s'.slice j).runningProcess = (s.slice j).runningProcess)
    (frozen : ∀ p, (s'.process p).frozen = (s.process p).frozen)
    (cpus : ∀ k, (s'.partition k).currentCpus = (s.partition k).currentCpus)
    (frame : s'.frame.currentWin = s.frame.currentWin) (history : s'.history = s.history) :
    s'.Tenured c base := by
  have hcourse : s'.course = s.course := congrArg Action.course history
  obtain ⟨new, hnew, hfit, hrun, hcpus⟩ := h.records
  refine ⟨fun j q hq => ?_, by rw [hcourse]; exact h.roles, new, history.trans hnew, hfit,
    fun i => by rw [running]; exact hrun i, fun hstage i k b hrole => ?_⟩
  · rw [running] at hq
    rw [frame, frozen]
    exact h.placed j q hq
  · rw [hcourse] at hstage hrole
    rw [cpus]
    exact hcpus hstage i k b hrole

theorem noted (h : s.Tenured c base) {a : Action} (ha : a.Still)
    (role : (s.course.next a).stage ≠ .closed → ∀ i x, (s.course.next a).role i = some x →
      s.course.stage ≠ .closed ∧ s.course.role i = some x) : (s.record a).Tenured c base := by
  have hcourse : (s.record a).course = s.course.next a := rfl
  obtain ⟨new, hnew, hfit, hrun, hcpus⟩ := h.records
  refine ⟨h.placed, fun hstage i k b hrole => ?_, a :: new, by simp [hnew],
    Action.fitting_cons.mpr ⟨Action.fits_still c ha new, hfit⟩,
    fun i => (Action.running_still ha i new).trans (hrun i), fun hstage i k b hrole => ?_⟩
  · obtain ⟨hopen, hrole⟩ := role hstage i (k, b) hrole
    exact h.roles hopen i k b hrole
  · obtain ⟨hopen, hrole⟩ := role hstage i (k, b) hrole
    rw [Action.currentCpus_still c ha]
    exact hcpus hopen i k b hrole

theorem selected {i : SliceId} {p : ProcessId} {b : Int} {s₁ : State} (h : s.Tenured c base)
    (selected : Slice.Selected c w i p b s s₁) : s₁.Tenured c base := by
  rcases selected.drew_or_same with rfl | rfl
  · exact h
  · have hnoted := h.noted (a := .drawn p (Process.jitterOffset (c.process p).jitter (s.gen 0)))
      trivial fun hstage i x hx => ⟨hstage, hx⟩
    exact hnoted.congr (fun _ => rfl) (fun _ => rfl) (fun _ => rfl) rfl rfl

theorem entered {i : SliceId} {k : Nat} {first : Bool} (h : s.Tenured c base)
    (role : c.role first i = some k) : (s.assigned c i k first t).Tenured c base := by
  have hslice : ∀ j, ((s.assigned c i k first t).slice j).runningProcess =
      (s.slice j).runningProcess := fun _ => State.assigned_running
  have hstage : (s.assigned c i k first t).course.stage = s.course.stage := rfl
  obtain ⟨new, hnew, hfit, hrun, hcpus⟩ := h.records
  refine ⟨fun j q hq => h.placed j q (hslice j ▸ hq), fun hopen j m b hrole => ?_,
    .entered i k first t :: new, by simp [hnew], Action.fitting_cons.mpr ⟨trivial, hfit⟩,
    fun j => (hrun j).trans (hslice j).symm, fun hopen j m b hrole => ?_⟩
  · rw [State.assigned_role] at hrole
    by_cases hj : j = i
    · subst hj
      rw [Function.update_self, Option.some.injEq, Prod.mk.injEq] at hrole
      obtain ⟨rfl, rfl⟩ := hrole
      exact role
    · rw [Function.update_of_ne hj] at hrole
      exact h.roles hopen j m b hrole
  · change (if k = m then (c.slice i).cpus else Action.currentCpus c m new) = _
    by_cases hm : m = k
    · subst hm
      simp
    · rw [if_neg (Ne.symm hm), State.assigned_partition, Function.update_of_ne hm]
      rw [State.assigned_role] at hrole
      by_cases hj : j = i
      · subst hj
        rw [Function.update_self, Option.some.injEq, Prod.mk.injEq] at hrole
        exact absurd hrole.1.symm hm
      · rw [Function.update_of_ne hj] at hrole
        exact hcpus hopen j m b hrole

theorem skipped {i : SliceId} {p : ProcessId} (h : s.Tenured c base) :
    (s.skipped i p).Tenured c base := by
  have hnoted := h.noted (a := .skipped i p) trivial fun hstage i x hx => ⟨hstage, hx⟩
  exact hnoted.congr (fun _ => rfl) (fun _ => State.update_field Process.frozen rfl)
    (fun _ => rfl) rfl rfl

theorem launched {i : SliceId} {p : ProcessId} {b : Int} (h : s.Tenured c base)
    (oneSlice : c.OneSlice) (selected : Slice.Seeking c s.frame.currentWin i p.part s)
    (valid : p.index < c.processCount p.part) (held : s.Held c i p.part)
    (role : s.InRole w i p.part) : (s.launched c i p t b).Tenured c base := by
  obtain ⟨sc, hstage, hrole⟩ := role
  have hopen : s.course.stage ≠ .closed := by simp [hstage]
  have hpart := Config.role_mem (h.roles hopen i p.part sc hrole)
  obtain ⟨new, hnew, hfit, hrun, hcpus⟩ := h.records
  have hnowhere : ∀ j, (s.slice j).runningProcess ≠ some p := by
    intro j hj
    obtain ⟨hmember, hown, -⟩ := h.placed j p hj
    obtain rfl := oneSlice.eq hmember selected.member hown hpart
    simp [selected.idle] at hj
  refine ⟨fun j q hq => ?_, h.roles, .started i p t b :: new, by simp [hnew],
    Action.fitting_cons.mpr ⟨⟨?_, fun j => ?_, hpart, valid, ?_⟩, hfit⟩, fun j => ?_, hcpus⟩
  · rcases State.launched_running.mp hq with ⟨rfl, rfl⟩ | ⟨-, hj⟩
    · exact ⟨selected.member, hpart, by simp⟩
    · have hqp : q ≠ p := by
        rintro rfl
        exact hnowhere j hj
      simpa [hqp] using h.placed j q hj
  · rw [hrun]
    exact selected.idle
  · rw [hrun]
    exact hnowhere j
  · rw [hcpus hopen i p.part sc hrole]
    exact (held oneSlice.unshared).2
  · change (if i = j then some p else Action.running j new) = _
    rw [hrun]
    by_cases hj : j = i
    · subst hj
      simp
    · simp [hj, Ne.symm hj]

theorem stopped {i : SliceId} {p : ProcessId} {mark : Bool} (h : s.Tenured c base)
    (oneSlice : c.OneSlice) (running : (s.slice i).runningProcess = some p) :
    (s.stopped i p t mark).Tenured c base := by
  obtain ⟨new, hnew, hfit, hrun, hcpus⟩ := h.records
  refine ⟨fun j q hq => ?_, h.roles, .stopped i p t mark :: new, by simp [hnew],
    Action.fitting_cons.mpr ⟨(hrun i).trans running, hfit⟩, fun j => ?_, hcpus⟩
  · replace hq := State.stopped_running.mp hq
    obtain ⟨hj, hq⟩ := hq
    have hqp : q ≠ p := by
      rintro rfl
      obtain ⟨hmember, hown, -⟩ := h.placed j q hq
      obtain ⟨hmember', hown', -⟩ := h.placed i q running
      exact hj (oneSlice.eq hmember hmember' hown hown')
    simpa [hqp] using h.placed j q hq
  · change (if i = j then none else Action.running j new) = _
    rw [hrun]
    by_cases hj : j = i
    · subst hj
      simp
    · simp [hj, Ne.symm hj]

theorem effect (h : s.Tenured c base) (oneSlice : c.OneSlice)
    (effect : Effect c s.frame.currentWin t s s') : s'.Tenured c base := by
  cases effect with
  | noted a ha opens =>
    refine h.noted (by cases a <;> trivial) fun hstage i x hx => ?_
    cases a with
    | windowStarted v u => simp [Course.next] at hx
    | beStarted v u =>
      obtain ⟨-, -, -, hrunning, -⟩ := opens
      exact ⟨by simp [hrunning], hx⟩
    | onWindowEnd v => exact absurd opens id
    | entered => exact absurd ha id
    | _ => exact ⟨hstage, hx⟩
  | windowSet => exact h.congr (fun _ => rfl) (fun _ => rfl) (fun _ => rfl) rfl rfl
  | sought =>
    exact h.congr (fun _ => rfl) (fun _ => rfl)
      (fun _ => State.update_field Partition.currentCpus rfl) rfl rfl
  | entered first member idle role => exact h.entered role
  | skipped selected => exact (h.selected selected).skipped
  | @launched s₁ i p b selected ne held role =>
    have hs₁ := h.selected selected
    rcases selected.drew_or_same with rfl | rfl
    · exact hs₁.launched oneSlice selected.toSeeking selected.valid held role
    · exact hs₁.launched oneSlice
        ⟨selected.member, selected.idle, selected.owner⟩ selected.valid held role
  | stopped mark member running => exact h.stopped oneSlice running

theorem closing (h : s.Tenured c base) (oneSlice : c.OneSlice)
    (closing : Closing c s.frame.currentWin t s s') : s'.Tenured c base := by
  cases closing with
  | effect e => exact h.effect oneSlice e
  | announced =>
    exact h.noted (a := .onWindowEnd s.frame.currentWin) trivial fun hstage => absurd rfl hstage
  | stopping => exact h.congr (fun _ => rfl) (fun _ => rfl) (fun _ => rfl) rfl rfl
  | @shortened i p r =>
    have hnoted := h.noted (a := .shortened p r) trivial fun hstage i x hx => ⟨hstage, hx⟩
    exact hnoted.congr (fun _ => rfl) (fun _ => State.update_field Process.frozen rfl)
      (fun _ => rfl) rfl rfl
  | released =>
    refine h.congr (fun _ => State.released_running) (fun _ => rfl) (fun k => ?_) rfl rfl
    simp only [State.released_partition]
    split <;> rfl

theorem closings (h : s.Tenured c base) (oneSlice : c.OneSlice)
    (run : Closings c s.frame.currentWin t s s') : s'.Tenured c base := by
  have hall : s'.Tenured c base ∧ s'.frame.currentWin = s.frame.currentWin := by
    refine run.invariant (I := fun m => m.Tenured c base ∧
      m.frame.currentWin = s.frame.currentWin) ?_ ⟨h, rfl⟩
    rintro m m' ⟨hm, hw⟩ e
    have hframe := (Closings.outside (.single e)).1
    exact ⟨hm.closing oneSlice (hw ▸ e), by rw [hframe, hw]⟩
  exact hall.1

theorem change {ok : Action → Prop} (h : s.Tenured c base) (oneSlice : c.OneSlice)
    (change : Change c ok s s') : s'.Tenured c base := by
  have hwritten : ∀ {a : Action} {p : ProcessId} {x : Process}, a.Still →
      (∀ i x, (s.course.next a).role i = some x → s.course.role i = some x) →
      (s.course.next a).stage = s.course.stage → x.frozen = (s.process p).frozen →
      ((s.setProcess p x).record a).Tenured c base := by
    intro a p x ha hrole hstage hx
    have hnoted := h.noted ha fun hopen i y hy => ⟨by rwa [hstage] at hopen, hrole i y hy⟩
    refine hnoted.congr (fun _ => rfl) (fun q => ?_) (fun _ => rfl) rfl rfl
    by_cases hq : q = p
    · subst hq
      simpa using hx
    · simp [hq]
  cases change with
  | effects run => exact h.closings oneSlice run.closings
  | closed run => exact h.closings oneSlice run
  | moved halted =>
    obtain ⟨new, hnew, hfit, hrun, hcpus⟩ := h.records
    refine ⟨fun j q hq => ?_, h.roles, new, hnew, hfit, hrun, hcpus⟩
    have hidle := halted.idle j
    rw [show (s.slice j).runningProcess = some q from hq] at hidle
    simp at hidle
  | framed => exact h.congr (fun _ => rfl) (fun _ => rfl) (fun _ => rfl) rfl rfl
  | windowArmed t =>
    exact h.noted (a := .windowArmed t) trivial fun hstage i x hx => ⟨hstage, hx⟩
  | signalled p =>
    exact hwritten (a := .signalled p) trivial (fun _ _ hx => hx) rfl rfl
  | ended p =>
    have hended : ((s.setProcess p { s.process p with spawned := false }).record
        (.exited p)).Tenured c base :=
      hwritten (a := .exited p) trivial (fun _ _ hx => hx) rfl rfl
    refine hended.congr (fun _ => rfl) (fun _ => rfl) (fun k => ?_) rfl rfl
    by_cases hk : k = p.part
    · subst hk
      simp [Event.ended, Partition.updateEmpty]
    · simp [Event.ended, Partition.updateEmpty, hk]
  | loopBroken =>
    have hnoted := h.noted (a := .loopBroken) trivial fun hstage i x hx => ⟨hstage, hx⟩
    exact hnoted.congr (fun _ => rfl) (fun _ => rfl) (fun _ => rfl) rfl rfl

theorem changes {ok : Action → Prop} (h : s.Tenured c base) (oneSlice : c.OneSlice)
    (run : Changes c ok s s') : s'.Tenured c base :=
  run.invariant (I := State.Tenured c base) (fun _ _ h e => h.change oneSlice e) h

end State.Tenured

theorem State.Ready.tenured {c : Config} {s : State} (h : s.Ready c) :
    s.Tenured c s.history where
  placed j q hq := by simp [h.halted.idle j] at hq
  roles hopen := absurd h.closed hopen
  records := ⟨[], rfl, fun a l hl => by simp at hl, fun i => (h.halted.idle i).symm,
    fun hopen => absurd h.closed hopen⟩

theorem Event.scheduling_tenured {c : Config} {s₀ s₁ s : State} {now : Int} {es : List Event}
    (oneSlice : c.OneSlice) (ready : s₀.Ready c) (start : MajorFrame.start c now s₀ = .ok s₁)
    (run : Run (SchedulingStep c) s₁ es s) : s.Tenured c s₀.history := by
  obtain ⟨hchanges, hsound, hstarted⟩ :=
    MajorFrame.start_sound ready.sound ready.halted ready.closed ready.started start
  have hall : s.Sound c ∧ s.Started ∧ s.Tenured c s₀.history := by
    refine run.invariant (I := fun s => s.Sound c ∧ s.Started ∧ s.Tenured c s₀.history) ?_
      ⟨hsound, hstarted, ready.tenured.changes oneSlice hchanges⟩
    rintro s e s' ⟨hs, hst, htenured⟩ ⟨hsched, hstep⟩
    obtain ⟨-, hs', hst'⟩ := step_sound hs hst hsched hstep
    exact ⟨hs', hst', htenured.changes oneSlice (step_changes hs hst hsched hstep)⟩
  exact hall.2.2

end DemosSched
