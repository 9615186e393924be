import DemosSched.PerProcess

/-! `PowerPolicy_Imx8_PerProcess`, which knows the two clusters of the i.MX8, beside
`PowerPolicy_PerProcess`, which takes whatever clusters there are. -/

namespace DemosSched

open Fallible

/-- The policies of the `PowerManager` with their names, in the order of the directory. -/
abbrev NamedPolicies := List (String × CpufreqPolicy)

inductive Imx8Fault
  /-- `std::map::at` -/
  | outOfRange (name : String)
  | noFrequencyList
  deriving DecidableEq, Repr

namespace Imx8

def getPolicy (name : String) (pm : NamedPolicies) : Except Imx8Fault CpufreqPolicy :=
  match pm.find? (·.1 = name) with
  | some x => .ok x.2
  | none => .error (.outOfRange name)

def clusterPolicies (pm : NamedPolicies) : Except Imx8Fault (List CpufreqPolicy) := do
  let a53 ← getPolicy "policy0" pm
  let a72 ← getPolicy "policy4" pm
  if pm.any (·.2.availableFrequencies.isNone) then .error .noFrequencyList
  else return [a53, a72]

/-- The constructor of `PowerPolicy_Imx8_PerProcess`. -/
def clusters (pm : NamedPolicies) : Except Imx8Fault (List CpuCluster) := do
  return PerProcess.clusters (← clusterPolicies pm)

end Imx8

/-- Its handlers read like those of `PowerPolicy_PerProcess`. -/
def powerPolicyImx8PerProcess (c : Config) (debug : Bool) : PowerPolicy (List CpuCluster) where
  onProcessStart := PerProcess.onProcessStart c debug
  onProcessEnd p clusters := .ok (PerProcess.onProcessEnd p clusters)

namespace CpuCluster

variable (c : Config) (debug : Bool)

def handle (h : List Action) : Action → CpuCluster → Except PowerFault CpuCluster
  | .started _ p _ _, cc => PerProcess.startOn c debug p (Action.currentCpus c p.part h) cc
  | .stopped _ p _ _, cc => .ok { cc with requestingProcs := cc.requestingProcs.filter (· ≠ p) }
  | _, cc => .ok cc

def replay (cc : CpuCluster) : List Action → Except PowerFault CpuCluster
  | [] => .ok cc
  | a :: h => (replay cc h).bind (handle c debug h a)

end CpuCluster

namespace PerProcess

variable {c : Config} {debug : Bool} {h : List Action} {cls cls' : List CpuCluster}

theorem handle_forall₂ (a : Action) : (powerPolicyPerProcess c debug).handle c h a cls = .ok cls' ↔
    List.Forall₂ (fun cc cc' => cc.handle c debug h a = .ok cc') cls cls' := by
  cases a with
  | started => exact mapM_eq_ok
  | stopped i p t mark =>
    simp only [PowerPolicy.handle, powerPolicyPerProcess, onProcessEnd, CpuCluster.handle,
      Except.ok.injEq]
    rw [List.forall₂_map_left_iff.symm, List.forall₂_eq_eq_eq]
  | _ =>
    simp only [PowerPolicy.handle, powerPolicyPerProcess, CpuCluster.handle, Except.ok.injEq,
      List.forall₂_eq_eq_eq]

/-- The clusters do not see each other. -/
theorem replay_forall₂ : (powerPolicyPerProcess c debug).replay c cls h = .ok cls' ↔
    List.Forall₂ (fun cc cc' => cc.replay c debug h = .ok cc') cls cls' := by
  induction h generalizing cls' with
  | nil =>
    simp only [PowerPolicy.replay, CpuCluster.replay, Except.ok.injEq, List.forall₂_eq_eq_eq]
  | cons a h ih =>
    simp only [PowerPolicy.replay, bind_def, bind_eq_ok, ih, handle_forall₂, CpuCluster.replay]
    exact forall₂_comp

theorem replay_perm {cls₁ cls₂ : List CpuCluster} (perm : cls₁.Perm cls₂)
    (run : (powerPolicyPerProcess c debug).replay c cls₂ h = .ok cls') :
    ∃ cls'', (powerPolicyPerProcess c debug).replay c cls₁ h = .ok cls'' ∧ cls''.Perm cls' := by
  obtain ⟨cls'', hall, hperm⟩ := List.perm_comp_forall₂ perm (replay_forall₂.mp run)
  exact ⟨cls'', replay_forall₂.mpr hall, hperm⟩

theorem replay_subset {cls₁ cls₂ : List CpuCluster} (subset : ∀ cc ∈ cls₁, cc ∈ cls₂)
    (run : (powerPolicyPerProcess c debug).replay c cls₂ h = .ok cls') :
    ∃ cls'', (powerPolicyPerProcess c debug).replay c cls₁ h = .ok cls'' ∧
      ∀ cc ∈ cls'', cc ∈ cls' := by
  have hall := replay_forall₂.mp run
  have hmem : ∀ cc ∈ cls₁, ∃ cc', cc.replay c debug h = .ok cc' ∧ cc' ∈ cls' := by
    intro cc hcc
    obtain ⟨cc', hcc', hrun⟩ := forall₂_mem hall.flip (subset cc hcc)
    exact ⟨cc', hrun, hcc'⟩
  obtain ⟨cls'', hrun, hin⟩ := mapM_total hmem
  refine ⟨cls'', replay_forall₂.mpr (mapM_eq_ok.mp hrun), fun cc hcc => ?_⟩
  obtain ⟨-, -, hcc'⟩ := forall₂_mem hin hcc
  exact hcc'

theorem validate_subset {cls₁ cls₂ : List CpuCluster} (subset : ∀ cc ∈ cls₁, cc ∈ cls₂)
    (valid : validate c cls₂ = .ok ⟨⟩) : validate c cls₁ = .ok ⟨⟩ := by
  refine forM_eq_ok.mpr fun win hwin => forM_eq_ok.mpr fun slice hslice =>
    forM_eq_ok.mpr fun k hk => forM_eq_ok.mpr fun proc hproc => ?_
  have hall := forM_eq_ok.mp (forM_eq_ok.mp (forM_eq_ok.mp (forM_eq_ok.mp valid win hwin) slice
    hslice) k hk) proc hproc
  cases hfreq : proc.requestedFrequency with
  | none => rfl
  | some freq =>
    simp only [hfreq] at hall
    exact forM_eq_ok.mpr fun cc hcc => forM_eq_ok.mp hall cc (subset cc hcc)

end PerProcess

namespace Imx8

variable {pm : NamedPolicies}

theorem getPolicy_ok {name : String} {x : CpufreqPolicy} (h : getPolicy name pm = .ok x) :
    (name, x) ∈ pm := by
  unfold getPolicy at h
  cases hfind : pm.find? (·.1 = name) with
  | none => simp [hfind] at h
  | some y =>
    rw [hfind, Except.ok.injEq] at h
    have hname : y.1 = name := by simpa using List.find?_some hfind
    have hmem := List.mem_of_find?_eq_some hfind
    rwa [← hname, ← h]

theorem clusterPolicies_ok {xs : List CpufreqPolicy} (h : clusterPolicies pm = .ok xs) :
    ∃ a53 a72, xs = [a53, a72] ∧ ("policy0", a53) ∈ pm ∧ ("policy4", a72) ∈ pm := by
  simp only [clusterPolicies, bind_def, bind_eq_ok] at h
  obtain ⟨a53, h53, a72, h72, h⟩ := h
  split at h
  · cases h
  · cases h
    exact ⟨a53, a72, rfl, getPolicy_ok h53, getPolicy_ok h72⟩

theorem clusterPolicies_perm {xs : List CpufreqPolicy} (nodup : (pm.map Prod.fst).Nodup)
    (two : ∀ x ∈ pm, x.1 = "policy0" ∨ x.1 = "policy4") (h : clusterPolicies pm = .ok xs) :
    xs.Perm (pm.map Prod.snd) := by
  obtain ⟨a53, a72, rfl, h53, h72⟩ := clusterPolicies_ok h
  have hinj : ∀ {x y : String × CpufreqPolicy}, x ∈ pm → y ∈ pm → x.1 = y.1 → x = y :=
    fun hx hy => List.inj_on_of_nodup_map nodup hx hy
  have hperm : [("policy0", a53), ("policy4", a72)].Perm pm := by
    refine (List.perm_ext_iff_of_nodup (by simp) nodup.of_map).mpr fun x => ?_
    constructor
    · intro hx
      rcases List.mem_cons.mp hx with rfl | hx
      · exact h53
      · rwa [List.mem_singleton.mp hx]
    · intro hx
      rcases two x hx with hname | hname
      · exact List.mem_cons.mpr (.inl (hinj hx h53 hname))
      · exact List.mem_cons_of_mem _ (List.mem_singleton.mpr (hinj hx h72 hname))
  exact hperm.map Prod.snd

end Imx8

/-- What the policy for the i.MX8 does compared with `per_process`, in any run: it accepts
what that accepts and writes the same frequencies to the clusters it knows. Where these
are the only clusters, it does the same. -/
structure Imx8.Agrees (c : Config) (debug : Bool) (pm : NamedPolicies) (cls : List CpuCluster) :
    Prop where
  validates : PerProcess.validate c (PerProcess.clusters (pm.map Prod.snd)) = .ok ⟨⟩ →
    PerProcess.validate c cls = .ok ⟨⟩
  within : ∀ h all, (powerPolicyPerProcess c debug).replay c
      (PerProcess.clusters (pm.map Prod.snd)) h = .ok all →
    ∃ own, (powerPolicyImx8PerProcess c debug).replay c cls h = .ok own ∧ ∀ cc ∈ own, cc ∈ all
  validates_iff : (∀ x ∈ pm, x.1 = "policy0" ∨ x.1 = "policy4") →
    (PerProcess.validate c cls = .ok ⟨⟩ ↔
      PerProcess.validate c (PerProcess.clusters (pm.map Prod.snd)) = .ok ⟨⟩)
  same : (∀ x ∈ pm, x.1 = "policy0" ∨ x.1 = "policy4") → ∀ h all,
    (powerPolicyPerProcess c debug).replay c (PerProcess.clusters (pm.map Prod.snd)) h = .ok all →
    ∃ own, (powerPolicyImx8PerProcess c debug).replay c cls h = .ok own ∧ own.Perm all
  throws_iff : (∀ x ∈ pm, x.1 = "policy0" ∨ x.1 = "policy4") → ∀ h,
    ((∃ e, (powerPolicyImx8PerProcess c debug).replay c cls h = .error e) ↔
      ∃ e, (powerPolicyPerProcess c debug).replay c (PerProcess.clusters (pm.map Prod.snd)) h =
        .error e)

theorem imx8_per_process_agrees {c : Config} {debug : Bool} {pm : NamedPolicies}
    (nodup : (pm.map Prod.fst).Nodup) {cls : List CpuCluster}
    (created : Imx8.clusters pm = .ok cls) : Imx8.Agrees c debug pm cls := by
  obtain ⟨xs, hxs, rfl⟩ : ∃ xs, Imx8.clusterPolicies pm = .ok xs ∧
      PerProcess.clusters xs = cls := by
    simpa only [Imx8.clusters, bind_def, bind_eq_ok, pure_def, Except.ok.injEq] using created
  have hsubset : ∀ cc ∈ PerProcess.clusters xs, cc ∈ PerProcess.clusters (pm.map Prod.snd) := by
    obtain ⟨a53, a72, rfl, h53, h72⟩ := Imx8.clusterPolicies_ok hxs
    intro cc hcc
    obtain ⟨x, hx, rfl⟩ := List.mem_map.mp hcc
    refine List.mem_map_of_mem (List.mem_map.mpr ?_)
    rcases List.mem_cons.mp hx with rfl | hx
    · exact ⟨_, h53, rfl⟩
    · exact ⟨_, h72, (List.mem_singleton.mp hx).symm⟩
  have hperm : (∀ x ∈ pm, x.1 = "policy0" ∨ x.1 = "policy4") →
      (PerProcess.clusters xs).Perm (PerProcess.clusters (pm.map Prod.snd)) :=
    fun two => (Imx8.clusterPolicies_perm nodup two hxs).map _
  refine ⟨PerProcess.validate_subset hsubset, fun h all => PerProcess.replay_subset hsubset,
    fun two => ⟨PerProcess.validate_subset fun cc hcc => (hperm two).mem_iff.mpr hcc,
      PerProcess.validate_subset hsubset⟩,
    fun two h all => PerProcess.replay_perm (hperm two), fun two h => ?_⟩
  rw [error_iff, error_iff, not_iff_not]
  constructor
  · rintro ⟨own, hown⟩
    obtain ⟨all, hall, -⟩ := PerProcess.replay_perm (hperm two).symm hown
    exact ⟨all, hall⟩
  · rintro ⟨all, hall⟩
    obtain ⟨own, hown, -⟩ := PerProcess.replay_perm (hperm two) hall
    exact ⟨own, hown⟩

/-- The directory lists the faster cluster first. -/
theorem imx8_per_process_agrees_swapped :
    Imx8.Agrees .twoFrequencies true [("policy4", ⟨600000000, 1200000000, some [], {4, 5}, none⟩),
      ("policy0", ⟨600000000, 1200000000, some [], {0, 1, 2, 3}, none⟩)]
      (PerProcess.clusters [⟨600000000, 1200000000, some [], {0, 1, 2, 3}, none⟩,
        ⟨600000000, 1200000000, some [], {4, 5}, none⟩]) :=
  imx8_per_process_agrees (by decide) rfl

end DemosSched
