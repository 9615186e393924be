import DemosSched.Tenure

/-! `PowerPolicy_PerProcess`. Every cluster of CPUs keeps the running processes that
have requested a frequency for it; a process that requests another one is refused. -/

namespace DemosSched

open Fallible

structure CpuCluster where
  cfPolicy : CpufreqPolicy
  requestingProcs : List ProcessId := []

def CpufreqPolicy.Affects (x : CpufreqPolicy) (cpus : CpuSet) : Prop :=
  0 < (cpus ∩ x.affectedCores).card

instance (x : CpufreqPolicy) (cpus : CpuSet) : Decidable (x.Affects cpus) :=
  inferInstanceAs (Decidable (_ < _))

namespace PerProcess

variable (c : Config) (debug : Bool)

/-- The constructor, given the policies of the `PowerManager`. -/
def clusters (pm : List CpufreqPolicy) : List CpuCluster := pm.map fun p => { cfPolicy := p }

def validate (clusters : List CpuCluster) : Except PowerFault PUnit :=
  c.windows.forM fun win => win.slices.forM fun slice => slice.partitions.forM fun k =>
    (c.partition k).processes.forM fun proc =>
      match proc.requestedFrequency with
      | none => .ok ⟨⟩
      | some freq => clusters.forM fun cluster =>
        if cluster.cfPolicy.Affects slice.cpus then cluster.cfPolicy.validateFrequency freq
        else .ok ⟨⟩

/-- The body of the loop of `on_process_start`. -/
def startOn (p : ProcessId) (cpus : CpuSet) (cc : CpuCluster) : Except PowerFault CpuCluster :=
  match (c.process p).requestedFrequency with
  | none => .ok cc
  | some freq =>
    if cc.cfPolicy.Affects cpus then
      -- all processes of the list request the same, so the first one is enough
      match cc.requestingProcs.head?.filter fun q => (c.process q).requestedFrequency ≠ some freq with
      | some q => .error (.differentFrequencies q p)
      | none => do
        let x ← cc.cfPolicy.writeFrequency debug freq
        return ⟨x, cc.requestingProcs ++ [p]⟩
    else .ok cc

def onProcessStart (p : ProcessId) (cpus : CpuSet) (clusters : List CpuCluster) :
    Except PowerFault (List CpuCluster) :=
  clusters.mapM (startOn c debug p cpus)

def onProcessEnd (p : ProcessId) (clusters : List CpuCluster) : List CpuCluster :=
  clusters.map fun cc => { cc with requestingProcs := cc.requestingProcs.filter (· ≠ p) }

end PerProcess

def powerPolicyPerProcess (c : Config) (debug : Bool) : PowerPolicy (List CpuCluster) where
  onProcessStart := PerProcess.onProcessStart c debug
  onProcessEnd p clusters := .ok (PerProcess.onProcessEnd p clusters)

def CpuCluster.requested (c : Config) (p : ProcessId) (cpus : CpuSet) (cc : CpuCluster) :
    Option Nat :=
  if cc.cfPolicy.Affects cpus then (c.process p).requestedFrequency else none

namespace PerProcess

variable {c : Config} {debug : Bool} {p : ProcessId} {cpus : CpuSet} {cc cc' : CpuCluster}

theorem startOn_unrequested (h : cc.requested c p cpus = none) :
    startOn c debug p cpus cc = .ok cc := by
  unfold CpuCluster.requested at h
  unfold startOn
  cases hfreq : (c.process p).requestedFrequency with
  | none => rfl
  | some freq =>
    rw [hfreq] at h
    by_cases ha : cc.cfPolicy.Affects cpus
    · simp [ha] at h
    · simp [ha]

theorem startOn_requested {freq : Nat} (h : cc.requested c p cpus = some freq) :
    startOn c debug p cpus cc =
      match cc.requestingProcs.head?.filter fun q =>
        (c.process q).requestedFrequency ≠ some freq with
      | some q => .error (.differentFrequencies q p)
      | none => (cc.cfPolicy.writeFrequency debug freq).bind fun x =>
          .ok ⟨x, cc.requestingProcs ++ [p]⟩ := by
  unfold CpuCluster.requested at h
  by_cases ha : cc.cfPolicy.Affects cpus
  · rw [if_pos ha] at h
    simp only [startOn, h, ha, if_true]
    rfl
  · simp [ha] at h

theorem active_of_requested {freq : Nat} (h : cc.requested c p cpus = some freq) :
    cc.cfPolicy.active = true := by
  unfold CpuCluster.requested at h
  by_cases ha : cc.cfPolicy.Affects cpus
  · have hle : (cpus ∩ cc.cfPolicy.affectedCores).card ≤ cc.cfPolicy.affectedCores.card :=
      Finset.card_le_card Finset.inter_subset_right
    exact decide_eq_true (lt_of_lt_of_le ha hle)
  · simp [ha] at h

theorem startOn_ok {freq : Nat} (h : cc.requested c p cpus = some freq)
    (run : startOn c debug p cpus cc = .ok cc') :
    (∀ q, cc.requestingProcs.head? = some q → (c.process q).requestedFrequency = some freq) ∧
      cc'.requestingProcs = cc.requestingProcs ++ [p] ∧
      cc'.cfPolicy = { cc.cfPolicy with setspeed := some (freq / 1000) } := by
  rw [startOn_requested h] at run
  split at run
  · simp at run
  · next hnone =>
    rw [bind_eq_ok] at run
    obtain ⟨x, hx, hcc⟩ := run
    rw [Except.ok.injEq] at hcc
    refine ⟨fun q hq => ?_, by rw [← hcc], ?_⟩
    · rw [hq] at hnone
      simpa using hnone
    · rw [← hcc, (CpufreqPolicy.writeFrequency_ok hx).1, if_pos (active_of_requested h)]

theorem startOn_error_iff {freq : Nat} (h : cc.requested c p cpus = some freq)
    (valid : cc.cfPolicy.validateFrequency freq = .ok ()) :
    (∃ e, startOn c debug p cpus cc = .error e) ↔
      ∃ q, cc.requestingProcs.head? = some q ∧ (c.process q).requestedFrequency ≠ some freq := by
  rw [startOn_requested h]
  have hwrite : cc.cfPolicy.writeFrequency debug freq =
      .ok { cc.cfPolicy with setspeed := some (freq / 1000) } := by
    unfold CpufreqPolicy.writeFrequency runDebug
    simp [active_of_requested h, valid]
  cases hhead : cc.requestingProcs.head? with
  | none => simp [hwrite]
  | some q =>
    by_cases hq : (c.process q).requestedFrequency = some freq
    · have hagree : (some q).filter (fun q => decide ((c.process q).requestedFrequency ≠ some freq)) =
          none := by simp [Option.filter, hq]
      simp only [hagree, hwrite]
      simp [hq]
    · have hdiffer : (some q).filter (fun q => decide ((c.process q).requestedFrequency ≠ some freq)) =
          some q := by simp [Option.filter, hq]
      simp only [hdiffer]
      simp [hq]

end PerProcess

namespace Action

/-- The CPUs of the partition of process `p` when `p` was started last. -/
def startCpus (c : Config) (p : ProcessId) : List Action → CpuSet
  | [] => ∅
  | .started _ q _ _ :: h => if q = p then currentCpus c p.part h else startCpus c p h
  | _ :: h => startCpus c p h

def Runs (p : ProcessId) (h : List Action) : Prop := ∃ i, running i h = some p

theorem runs_started {c : Config} {i : SliceId} {p : ProcessId} {t b : Int} {h : List Action}
    (fits : Fits c h (.started i p t b)) (q : ProcessId) :
    Runs q (.started i p t b :: h) ↔ q = p ∨ Runs q h := by
  constructor
  · rintro ⟨j, hj⟩
    by_cases hij : i = j
    · simp only [running, hij, if_true, Option.some.injEq] at hj
      exact .inl hj.symm
    · simp only [running, hij, if_false] at hj
      exact .inr ⟨j, hj⟩
  · rintro (rfl | ⟨j, hj⟩)
    · exact ⟨i, by simp [running]⟩
    · have hij : i ≠ j := by
        rintro rfl
        simp [fits.1] at hj
      exact ⟨j, by simpa [running, hij] using hj⟩

theorem runs_stopped {c : Config} {i : SliceId} {p : ProcessId} {t : Int} {mark : Bool}
    {h : List Action} (fits : Fits c h (.stopped i p t mark)) (fitting : Fitting c h)
    (q : ProcessId) : Runs q (.stopped i p t mark :: h) ↔ q ≠ p ∧ Runs q h := by
  have hrun : running i h = some p := fits
  constructor
  · rintro ⟨j, hj⟩
    have hij : i ≠ j := by
      rintro rfl
      simp [running] at hj
    simp only [running, hij, if_false] at hj
    refine ⟨?_, j, hj⟩
    rintro rfl
    exact hij (fitting.running_inj hrun hj)
  · rintro ⟨hne, j, hj⟩
    have hij : i ≠ j := by
      rintro rfl
      rw [hrun, Option.some.injEq] at hj
      exact hne hj.symm
    exact ⟨j, by simpa [running, hij] using hj⟩

end Action

/-- After the records `h`, the list of a cluster holds the running processes that have
requested a frequency of it; they have all requested the frequency written last. -/
structure CpuCluster.Arbitrates (c : Config) (h : List Action) (cc : CpuCluster) : Prop where
  members : ∀ p, p ∈ cc.requestingProcs ↔
    Action.Runs p h ∧ (cc.requested c p (Action.startCpus c p h)).isSome
  nodup : cc.requestingProcs.Nodup
  agreed : ∀ p ∈ cc.requestingProcs, ∀ q ∈ cc.requestingProcs,
    (c.process p).requestedFrequency = (c.process q).requestedFrequency
  written : ∀ p ∈ cc.requestingProcs, ∀ freq, (c.process p).requestedFrequency = some freq →
    cc.cfPolicy.setspeed = some (freq / 1000)

def CpufreqPolicy.SetsOnly (x y : CpufreqPolicy) : Prop := y = { x with setspeed := y.setspeed }

namespace CpuCluster

variable {c : Config} {p : ProcessId} {cpus : CpuSet} {cc cc' : CpuCluster} {h : List Action}

theorem requested_congr (same : cc.cfPolicy.SetsOnly cc'.cfPolicy) :
    cc'.requested c p cpus = cc.requested c p cpus := by
  unfold requested CpufreqPolicy.Affects
  rw [same]
  rfl

theorem requested_some {freq : Nat} (hr : cc.requested c p cpus = some freq) :
    (c.process p).requestedFrequency = some freq := by
  unfold requested at hr
  split at hr
  · exact hr
  · simp at hr

namespace Arbitrates

theorem still (ha : cc.Arbitrates c h) {a : Action}
    (runs : ∀ q, Action.Runs q (a :: h) ↔ Action.Runs q h)
    (cpus : ∀ q, Action.startCpus c q (a :: h) = Action.startCpus c q h) :
    cc.Arbitrates c (a :: h) where
  members q := by rw [ha.members, runs, cpus]
  nodup := ha.nodup
  agreed := ha.agreed
  written := ha.written

theorem stopped (ha : cc.Arbitrates c h) {i : SliceId} {t : Int} {mark : Bool}
    (fits : Action.Fits c h (.stopped i p t mark)) (fitting : Action.Fitting c h) :
    CpuCluster.Arbitrates c (.stopped i p t mark :: h)
      { cc with requestingProcs := cc.requestingProcs.filter (· ≠ p) } where
  members q := by
    rw [Action.runs_stopped fits fitting]
    change q ∈ cc.requestingProcs.filter (· ≠ p) ↔
      (q ≠ p ∧ Action.Runs q h) ∧ (cc.requested c q (Action.startCpus c q h)).isSome
    rw [List.mem_filter, ha.members, decide_eq_true_iff]
    tauto
  nodup := ha.nodup.filter _
  agreed q hq r hr := ha.agreed q (List.mem_filter.mp hq).1 r (List.mem_filter.mp hr).1
  written q hq := ha.written q (List.mem_filter.mp hq).1

theorem started {debug : Bool} (ha : cc.Arbitrates c h) {i : SliceId} {t b : Int}
    (fits : Action.Fits c h (.started i p t b))
    (run : PerProcess.startOn c debug p (Action.currentCpus c p.part h) cc = .ok cc') :
    cc.cfPolicy.SetsOnly cc'.cfPolicy ∧ cc'.Arbitrates c (.started i p t b :: h) := by
  have hidle : ¬Action.Runs p h := fun ⟨j, hj⟩ => fits.2.1 j hj
  have hfresh : p ∉ cc.requestingProcs := fun hp => hidle ((ha.members p).mp hp).1
  have hcpus : ∀ q, Action.startCpus c q (.started i p t b :: h) =
      if p = q then Action.currentCpus c q.part h else Action.startCpus c q h := fun _ => rfl
  cases hreq : cc.requested c p (Action.currentCpus c p.part h) with
  | none =>
    rw [PerProcess.startOn_unrequested hreq, Except.ok.injEq] at run
    subst run
    refine ⟨rfl, fun q => ?_, ha.nodup, ha.agreed, ha.written⟩
    rw [Action.runs_started fits, hcpus]
    by_cases hq : p = q
    · subst hq
      simp [hfresh, hreq]
    · rw [if_neg hq, ha.members]
      simp [Ne.symm hq]
  | some freq =>
    obtain ⟨hfirst, hprocs, hpolicy⟩ := PerProcess.startOn_ok hreq run
    have hsame : cc.cfPolicy.SetsOnly cc'.cfPolicy := by rw [hpolicy]; rfl
    have hfreq := requested_some hreq
    have hall : ∀ q ∈ cc.requestingProcs, (c.process q).requestedFrequency = some freq := by
      intro q hq
      obtain ⟨r, hr⟩ : ∃ r, cc.requestingProcs.head? = some r := by
        cases hprocs : cc.requestingProcs with
        | nil => simp [hprocs] at hq
        | cons r l => exact ⟨r, rfl⟩
      rw [ha.agreed q hq r (List.mem_of_mem_head? hr), hfirst r hr]
    have hevery : ∀ q ∈ cc'.requestingProcs, (c.process q).requestedFrequency = some freq := by
      intro q hq
      rw [hprocs, List.mem_append, List.mem_singleton] at hq
      rcases hq with hq | rfl
      · exact hall q hq
      · exact hfreq
    refine ⟨hsame, fun q => ?_, ?_, fun q hq r hr => (hevery q hq).trans (hevery r hr).symm,
      fun q hq f hf => ?_⟩
    · rw [Action.runs_started fits, hcpus, requested_congr hsame, hprocs, List.mem_append,
        List.mem_singleton]
      by_cases hq : p = q
      · subst hq
        simp [hreq]
      · rw [if_neg hq, ha.members]
        simp [Ne.symm hq]
    · rw [hprocs, List.nodup_append]
      refine ⟨ha.nodup, List.nodup_singleton _, fun q hq r hr => ?_⟩
      rw [List.mem_singleton] at hr
      rintro rfl
      exact hfresh (hr ▸ hq)
    · rw [hevery q hq, Option.some.injEq] at hf
      rw [hpolicy, hf]

end Arbitrates

end CpuCluster

namespace PerProcess

variable {c : Config} {debug : Bool} {pm : List CpufreqPolicy} {h : List Action}
  {cls : List CpuCluster}

theorem replay_arbitrates (fitting : Action.Fitting c h)
    (run : (powerPolicyPerProcess c debug).replay c (clusters pm) h = .ok cls) :
    ∀ cc ∈ cls, (∃ x ∈ pm, x.SetsOnly cc.cfPolicy) ∧ cc.Arbitrates c h := by
  induction h generalizing cls with
  | nil =>
    rw [PowerPolicy.replay, Except.ok.injEq] at run
    subst run
    intro cc hcc
    obtain ⟨x, hx, rfl⟩ := List.mem_map.mp hcc
    refine ⟨⟨x, hx, rfl⟩, fun p => ?_, List.nodup_nil, by simp, by simp⟩
    simp [Action.Runs, Action.running]
  | cons a h ih =>
    obtain ⟨hfits, hrest⟩ := Action.fitting_cons.mp fitting
    rw [PowerPolicy.replay, bind_def, bind_eq_ok] at run
    obtain ⟨cls₀, hreplay, hcall⟩ := run
    have hbefore := ih hrest hreplay
    have hstill : (∀ p, Action.Runs p (a :: h) ↔ Action.Runs p h) →
        (∀ p, Action.startCpus c p (a :: h) = Action.startCpus c p h) → cls₀ = cls →
        ∀ cc ∈ cls, (∃ x ∈ pm, x.SetsOnly cc.cfPolicy) ∧ cc.Arbitrates c (a :: h) := by
      rintro hruns hcpus rfl cc hcc
      obtain ⟨hown, harb⟩ := hbefore cc hcc
      exact ⟨hown, harb.still hruns hcpus⟩
    cases a with
    | started i p t b =>
      intro cc' hcc'
      obtain ⟨cc, hcc, hstart⟩ := mapM_mem hcall hcc'
      obtain ⟨⟨x, hx, hset⟩, harb⟩ := hbefore cc hcc
      obtain ⟨hset', harb'⟩ := harb.started hfits hstart
      refine ⟨⟨x, hx, ?_⟩, harb'⟩
      rw [CpufreqPolicy.SetsOnly, hset', hset]
    | stopped i p t mark =>
      intro cc' hcc'
      obtain rfl := Except.ok.inj hcall
      obtain ⟨cc, hcc, rfl⟩ := List.mem_map.mp hcc'
      obtain ⟨hown, harb⟩ := hbefore cc hcc
      exact ⟨hown, harb.stopped hfits hrest⟩
    | _ => exact hstill (fun _ => Iff.rfl) (fun _ => rfl) (Except.ok.inj hcall)

theorem validated (valid : validate c (clusters pm) = .ok ⟨⟩) {i : SliceId} {p : ProcessId}
    (part : p.part ∈ (c.slice i).partitions) (index : p.index < c.processCount p.part)
    {x : CpufreqPolicy} (hx : x ∈ pm) {cc : CpuCluster} (sets : x.SetsOnly cc.cfPolicy) {freq : Nat}
    (requested : cc.requested c p (c.slice i).cpus = some freq) :
    cc.cfPolicy.validateFrequency freq = .ok () := by
  obtain ⟨w, hw, hslice⟩ : ∃ w ∈ c.windows, c.slice i ∈ w.slices := by
    rcases c.slice_mem_or i with hmem | hdefault
    · exact hmem
    · rw [hdefault] at part
      exact absurd part List.not_mem_nil
  have hproc := forM_eq_ok.mp (forM_eq_ok.mp (forM_eq_ok.mp (forM_eq_ok.mp valid w hw) _ hslice) _
    part) _ (c.process_mem index)
  rw [CpuCluster.requested_some requested] at hproc
  have hown := forM_eq_ok.mp hproc ⟨x, []⟩ (List.mem_map.mpr ⟨x, hx, rfl⟩)
  have haffects : x.Affects (c.slice i).cpus := by
    have hsame : CpuCluster.requested c p (c.slice i).cpus ⟨x, []⟩ = some freq := by
      have hcongr : cc.requested c p (c.slice i).cpus =
          CpuCluster.requested c p (c.slice i).cpus ⟨x, []⟩ := CpuCluster.requested_congr sets
      rw [← hcongr, requested]
    unfold CpuCluster.requested at hsame
    by_contra hnot
    simp [hnot] at hsame
  simp only [haffects, if_true] at hown
  rw [sets]
  exact hown

/-- What the policy has done when the records `new` have been made since the start
of the scheduler and its state is `s`. -/
structure Arbitration (c : Config) (debug : Bool) (pm : List CpufreqPolicy) (new : List Action)
    (s : State) : Prop where
  members : ∀ cls, (powerPolicyPerProcess c debug).replay c (clusters pm) new = .ok cls →
    ∀ cc ∈ cls, cc.requestingProcs.Nodup ∧ ∀ p, p ∈ cc.requestingProcs ↔
      (s.process p).frozen = false ∧ (cc.requested c p (Action.startCpus c p new)).isSome
  written : ∀ cls, (powerPolicyPerProcess c debug).replay c (clusters pm) new = .ok cls →
    ∀ cc ∈ cls, ∀ p ∈ cc.requestingProcs, ∃ freq,
      (∀ q ∈ cc.requestingProcs, (c.process q).requestedFrequency = some freq) ∧
        cc.cfPolicy.setspeed = some (freq / 1000)
  throws_iff : ∀ i p t b h, .started i p t b :: h <:+ new →
    ∀ cls, (powerPolicyPerProcess c debug).replay c (clusters pm) h = .ok cls →
      ((∃ e, onProcessStart c debug p (Action.currentCpus c p.part h) cls = .error e) ↔
        ∃ cc ∈ cls, ∃ freq, cc.requested c p (Action.currentCpus c p.part h) = some freq ∧
          ∃ q ∈ cc.requestingProcs, q ≠ p ∧ (c.process q).requestedFrequency ≠ some freq)
  valid : ∀ i p t b h, .started i p t b :: h <:+ new →
    ∀ cls, (powerPolicyPerProcess c debug).replay c (clusters pm) h = .ok cls → ∀ cc ∈ cls,
      ∀ freq, cc.requested c p (Action.currentCpus c p.part h) = some freq →
        cc.cfPolicy.validateFrequency freq = .ok ()

theorem startOn_refused {cc : CpuCluster} {i : SliceId} {p : ProcessId} {t b : Int} {freq : Nat}
    (fits : Action.Fits c h (.started i p t b)) (arbitrates : cc.Arbitrates c h)
    (requested : cc.requested c p (Action.currentCpus c p.part h) = some freq)
    (valid : cc.cfPolicy.validateFrequency freq = .ok ()) :
    (∃ e, startOn c debug p (Action.currentCpus c p.part h) cc = .error e) ↔
      ∃ q ∈ cc.requestingProcs, q ≠ p ∧ (c.process q).requestedFrequency ≠ some freq := by
  rw [startOn_error_iff requested valid]
  constructor
  · rintro ⟨q, hhead, hne⟩
    have hq := List.mem_of_mem_head? hhead
    refine ⟨q, hq, ?_, hne⟩
    rintro rfl
    obtain ⟨j, hj⟩ := ((arbitrates.members q).mp hq).1
    exact fits.2.1 j hj
  · rintro ⟨q, hq, -, hne⟩
    cases hprocs : cc.requestingProcs with
    | nil => simp [hprocs] at hq
    | cons r l =>
      refine ⟨r, rfl, ?_⟩
      rwa [← arbitrates.agreed q hq r (by simp [hprocs])]

end PerProcess

/-- From `MajorFrame::start` on, whatever the order of timers, completions and exits,
each cluster lists the thawed processes that request a frequency of it, all of them
request the one written last, and a start is refused only for a real conflict. -/
theorem per_process_arbitration {c : Config} {debug : Bool} {pm : List CpufreqPolicy}
    (oneSlice : c.OneSlice)
    (valid : PerProcess.validate c (PerProcess.clusters pm) = .ok ⟨⟩) {s₀ s₁ s : State} {now : Int}
    {es : List Event} (ready : s₀.Ready c) (start : MajorFrame.start c now s₀ = .ok s₁)
    (run : Run (Event.SchedulingStep c) s₁ es s) :
    ∃ new, s.history = new ++ s₀.history ∧ PerProcess.Arbitration c debug pm new s := by
  obtain ⟨-, -, hthawed⟩ := Event.scheduling_run ready start run
  have htenured := Event.scheduling_tenured oneSlice ready start run
  obtain ⟨new, hnew, hfit, hrun, -⟩ := htenured.records
  have hbefore : ∀ {a h}, a :: h <:+ new → a.Fits c h ∧ Action.Fitting c h := fun hsuffix =>
    Action.fitting_cons.mp fun b l hl => hfit b l (hl.trans hsuffix)
  have hruns : ∀ p, Action.Runs p new ↔ (s.process p).frozen = false := by
    intro p
    constructor
    · rintro ⟨i, hi⟩
      exact (htenured.placed i p ((hrun i).symm.trans hi)).2.2
    · intro hp
      obtain ⟨i, hi⟩ := hthawed p hp
      exact ⟨i, (hrun i).trans hi⟩
  have hvalid : ∀ i p t b h, .started i p t b :: h <:+ new → ∀ cls,
      (powerPolicyPerProcess c debug).replay c (PerProcess.clusters pm) h = .ok cls → ∀ cc ∈ cls,
      ∀ freq, cc.requested c p (Action.currentCpus c p.part h) = some freq →
        cc.cfPolicy.validateFrequency freq = .ok () := by
    intro i p t b h hsuffix cls hreplay cc hcc freq hreq
    obtain ⟨⟨-, -, hpart, hindex, hcpus⟩, hfitting⟩ := hbefore hsuffix
    obtain ⟨⟨x, hx, hset⟩, -⟩ := PerProcess.replay_arbitrates hfitting hreplay cc hcc
    rw [hcpus] at hreq
    exact PerProcess.validated valid hpart hindex hx hset hreq
  refine ⟨new, hnew, fun cls hreplay cc hcc => ?_, fun cls hreplay cc hcc p hp => ?_,
    fun i p t b h hsuffix cls hreplay => ?_, hvalid⟩
  · obtain ⟨-, harb⟩ := PerProcess.replay_arbitrates hfit hreplay cc hcc
    exact ⟨harb.nodup, fun p => by rw [harb.members, hruns]⟩
  · obtain ⟨-, harb⟩ := PerProcess.replay_arbitrates hfit hreplay cc hcc
    obtain ⟨freq, hfreq⟩ := Option.isSome_iff_exists.mp ((harb.members p).mp hp).2
    have hown := CpuCluster.requested_some hfreq
    exact ⟨freq, fun q hq => (harb.agreed q hq p hp).trans hown, harb.written p hp freq hown⟩
  · obtain ⟨hfits, hfitting⟩ := hbefore hsuffix
    rw [PerProcess.onProcessStart, mapM_error_iff]
    refine exists_congr fun cc => and_congr_right fun hcc => ?_
    obtain ⟨-, harb⟩ := PerProcess.replay_arbitrates hfitting hreplay cc hcc
    cases hreq : cc.requested c p (Action.currentCpus c p.part h) with
    | none => simp [PerProcess.startOn_unrequested hreq]
    | some freq =>
      rw [PerProcess.startOn_refused hfits harb hreq (hvalid i p t b h hsuffix cls hreplay cc hcc
        freq hreq)]
      simp

theorem per_process_arbitration_twoFrequencies : ∃ (new : List Action) (s : State),
    (s.process ⟨0, 1⟩).frozen = false ∧
      PerProcess.Arbitration .twoFrequencies true [⟨600000000, 1200000000, none, {0, 1}, none⟩]
        new s := by
  have hrun : ((MajorFrame.start .twoFrequencies 0
      (State.readyState .twoFrequencies fun _ => 0)).toOption.bind
      (Event.play .twoFrequencies (fun _ e => e.Scheduling) [.sliceTimer ⟨0, 0⟩])).map
      (fun s => (s.process ⟨0, 1⟩).frozen) = some false := by decide
  obtain ⟨s, hs, hthawed⟩ := Option.map_eq_some_iff.mp hrun
  obtain ⟨s₁, hstart, hplay⟩ := Option.bind_eq_some_iff.mp hs
  have hall : ∃ new, s.history = new ++ [] ∧ PerProcess.Arbitration .twoFrequencies true
      [⟨600000000, 1200000000, none, {0, 1}, none⟩] new s :=
    per_process_arbitration (by decide) (by decide)
      (State.readyState_ready .twoFrequencies fun _ => 0) (toOption_eq_some.mp hstart)
      (Event.play_schedulingRun hplay)
  obtain ⟨new, -, harb⟩ := hall
  exact ⟨new, s, hthawed, harb⟩

end DemosSched
