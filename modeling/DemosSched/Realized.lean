import DemosSched.Affinity
import DemosSched.Runs

/-! From the document to the CPUs. The objects created for an accepted document satisfy
what the constructors assert, so that they are a configuration of the scheduler, and what
holds of all its runs holds of the processes of the document. -/

namespace DemosSched

open Yaml Fallible

/-- The constructor of `Process` asserts the last part; a budget that is not positive or a
negative jitter is left to `Config::normalize`. -/
structure ProcessObject.Valid (o : ProcessObject) : Prop where
  budget_pos : 0 < o.budget
  jitter_nonneg : 0 ≤ o.budgetJitter
  jitter_le : o.budgetJitter ≤ 2 * o.budget

instance (o : ProcessObject) : Decidable o.Valid :=
  decidable_of_iff (0 < o.budget ∧ 0 ≤ o.budgetJitter ∧ o.budgetJitter ≤ 2 * o.budget)
    ⟨fun h => ⟨h.1, h.2.1, h.2.2⟩, fun h => ⟨h.budget_pos, h.jitter_nonneg, h.jitter_le⟩⟩

def ProcessObject.toDef (o : ProcessObject) (h : o.Valid) : ProcessDef :=
  ⟨o.argv, o.budget, o.budgetJitter, o.requestedFrequency, o.hasInitialization, h.budget_pos,
    h.jitter_nonneg, h.jitter_le⟩

structure PartitionObject.Valid (o : PartitionObject) : Prop where
  processes_ne : o.processes ≠ []
  processes : ∀ x ∈ o.processes, x.Valid

instance (o : PartitionObject) : Decidable o.Valid :=
  decidable_of_iff (o.processes ≠ [] ∧ ∀ x ∈ o.processes, x.Valid)
    ⟨fun h => ⟨h.1, h.2⟩, fun h => ⟨h.processes_ne, h.processes⟩⟩

def PartitionObject.toDef (o : PartitionObject) (h : o.Valid) : PartitionDef :=
  ⟨o.name, o.processes.pmap ProcessObject.toDef h.processes, by
    simpa [List.pmap_eq_nil_iff] using h.processes_ne⟩

def SliceObject.partitions (o : SliceObject) : List Nat := o.sc.toList ++ o.be.toList

def SliceObject.toDef (o : SliceObject) (h : o.cpus.Nonempty) : SliceDef :=
  ⟨o.sc, o.be, o.cpus, o.requestedFrequency, h⟩

def WindowObject.toDef (o : WindowObject) (h : ∀ x ∈ o.slices, x.cpus.Nonempty) : WindowDef :=
  ⟨o.length, o.slices.pmap SliceObject.toDef h⟩

/-- What the scheduler is started on: `main` gives up if there is no window. -/
structure SchedulerObjects.Runnable (os : SchedulerObjects) : Prop where
  partitions : ∀ o ∈ os.partitions, o.Valid
  windows_ne : os.windows ≠ []
  cpus : ∀ w ∈ os.windows, ∀ o ∈ w.slices, o.cpus.Nonempty
  references : ∀ w ∈ os.windows, ∀ o ∈ w.slices, ∀ k ∈ o.partitions, k < os.partitions.length

instance (os : SchedulerObjects) : Decidable os.Runnable :=
  decidable_of_iff ((∀ o ∈ os.partitions, o.Valid) ∧ os.windows ≠ [] ∧
      (∀ w ∈ os.windows, ∀ o ∈ w.slices, o.cpus.Nonempty) ∧
      ∀ w ∈ os.windows, ∀ o ∈ w.slices, ∀ k ∈ o.partitions, k < os.partitions.length)
    ⟨fun h => ⟨h.1, h.2.1, h.2.2.1, h.2.2.2⟩,
      fun h => ⟨h.partitions, h.windows_ne, h.cpus, h.references⟩⟩

def SchedulerObjects.toConfig (os : SchedulerObjects) (h : os.Runnable) : Config where
  partitions := os.partitions.pmap PartitionObject.toDef h.partitions
  windows := os.windows.pmap WindowObject.toDef h.cpus
  windows_ne := by simpa [List.pmap_eq_nil_iff] using h.windows_ne
  references := by
    intro w hw x hx k hk
    obtain ⟨v, hv, rfl⟩ := List.mem_pmap.mp hw
    obtain ⟨o, ho, rfl⟩ := List.mem_pmap.mp hx
    rw [List.length_pmap]
    exact h.references v hv o ho k hk

namespace SchedulerObjects

variable {os : SchedulerObjects} (h : os.Runnable)

theorem toConfig_slice {i : SliceId} (hi : i.index < (os.toConfig h).sliceCount i.window) :
    ∃ w, os.windows[i.window]? = some w ∧ ∃ o, w.slices[i.index]? = some o ∧
      ∃ hcpus, (os.toConfig h).slice i = o.toDef hcpus := by
  have hwindow : i.window < os.windows.length := by
    by_contra hlarge
    have hdefault : (os.toConfig h).window i.window = default :=
      List.getD_eq_default _ _ (by simp [toConfig] at hlarge ⊢; omega)
    simp [Config.sliceCount, hdefault, default, instInhabitedWindowDef.default] at hi
  have hget : (os.toConfig h).window i.window =
      os.windows[i.window].toDef (h.cpus _ (List.getElem_mem hwindow)) := by
    unfold Config.window
    rw [List.getD_eq_getElem _ _ (by simpa [toConfig] using hwindow)]
    exact List.getElem_pmap WindowObject.toDef h.cpus _
  have hslice : i.index < os.windows[i.window].slices.length := by
    simpa [Config.sliceCount, hget, WindowObject.toDef] using hi
  refine ⟨_, List.getElem?_eq_getElem hwindow, _, List.getElem?_eq_getElem hslice,
    h.cpus _ (List.getElem_mem hwindow) _ (List.getElem_mem hslice), ?_⟩
  unfold Config.slice
  rw [hget, List.getD_eq_getElem _ _ (by simpa [WindowObject.toDef] using hslice)]
  exact List.getElem_pmap SliceObject.toDef _ _

theorem toConfig_processCount {k : Nat} {part : PartitionObject}
    (hpart : os.partitions[k]? = some part) :
    (os.toConfig h).processCount k = part.processes.length := by
  obtain ⟨hlt, rfl⟩ := List.getElem?_eq_some_iff.mp hpart
  have hget : (os.toConfig h).partition k =
      os.partitions[k].toDef (h.partitions _ (List.getElem_mem hlt)) := by
    unfold Config.partition
    rw [List.getD_eq_getElem _ _ (by simpa [toConfig] using hlt)]
    exact List.getElem_pmap PartitionObject.toDef h.partitions _
  rw [Config.processCount, hget]
  exact List.length_pmap

end SchedulerObjects

variable {δ : Type} {y : Conversions δ} {maxCpus : Nat} {toHz : δ → Nat} {allowed : CpuSet}

theorem NormalProcess.valid {f : Fields} {b j : Int} {o : ProcessObject} (h : NormalProcess y f b j)
    (inv : y.Inverts) (run : createProcess y toHz f.toNode = .ok o) : o.Valid := by
  simp only [createProcess, get_toNode, bind_def, bind_ok, bind_eq_ok, pure_def,
    Except.ok.injEq] at run
  obtain ⟨b', hb, j', hj, -, -, -, -, -, -, rfl⟩ := run
  rw [h.find_budget, inv.asInt_int h.budget_isInt, Except.ok.injEq] at hb
  rw [h.find_jitter, inv.asInt_int h.jitter_isInt, Except.ok.injEq] at hj
  subst hb hj
  exact ⟨h.budget_pos, h.jitter_nonneg, h.jitter_le⟩

theorem MadeFrom.valid {d : Definition × String} {np : Node} {o : PartitionObject}
    (h : MadeFrom (y := y) d np) (inv : y.Inverts) (run : createPartition y toHz np = .ok o) :
    o.Valid := by
  have hexec := h.executable inv run
  obtain ⟨procs, hprocs, rfl⟩ := h
  simp only [createPartition, bind_def, bind_eq_ok, itemsAt_partitionNode, pure_def,
    Except.ok.injEq] at run
  obtain ⟨-, -, name, -, os, hos, rfl⟩ := run
  have hne := hexec.processes_ne
  rw [itemsAt_partitionNode] at hne
  refine ⟨fun hnil => hne ?_, fun x hx => ?_⟩
  · have hlength := (mapM_eq_ok.mp hos).length_eq
    rwa [show os = [] from hnil, List.length_nil, List.length_eq_zero_iff] at hlength
  · obtain ⟨np, hnp, hrun⟩ := mapM_mem hos hx
    obtain ⟨f, b, j, rfl, hf⟩ := normalizeAll_normal inv hprocs np hnp
    exact hf.valid inv hrun

theorem findPartition_name {name : String} {partitions : List PartitionObject} {k : Nat}
    (h : findPartition name partitions = .ok k) :
    ∃ part, partitions[k]? = some part ∧ part.name = name := by
  unfold findPartition at h
  cases hk : partitions.findIdx? (·.name = name) with
  | none => simp [hk] at h
  | some m =>
    rw [hk] at h
    cases h
    obtain ⟨hlt, hname, -⟩ := List.findIdx?_eq_some_iff_getElem.mp hk
    exact ⟨_, List.getElem?_eq_getElem hlt, of_decide_eq_true hname⟩

theorem readPartition?_name {partitions : List PartitionObject} {n : Node} {key : String}
    {o : Option Nat} (h : readPartition? y partitions n key = .ok o) :
    ∀ k ∈ o, ∃ part, partitions[k]? = some part ∧ y.asString (n.find key) = .ok part.name := by
  simp only [readPartition?, bind_def, bind_eq_ok] at h
  obtain ⟨v, hget, h⟩ := h
  rw [(get_ok_find hget).2]
  cases v with
  | none =>
    cases h
    exact fun k hk => absurd hk (by simp)
  | some v =>
    simp only [bind_eq_ok, pure_def, Except.ok.injEq] at h
    obtain ⟨name, hname, k, hk, rfl⟩ := h
    rintro _ ⟨⟩
    obtain ⟨part, hpart, rfl⟩ := findPartition_name hk
    exact ⟨part, hpart, hname⟩

structure Created (y : Conversions δ) (maxCpus : Nat) (allowed : CpuSet) (toHz : δ → Nat)
    (config : Node) (os : SchedulerObjects) : Prop where
  partitions : ∀ o ∈ os.partitions, o.Valid
  windows : List.Forall₂ (fun win w => createWindow y maxCpus toHz allowed os.partitions win = .ok w)
    (itemsAt config "windows") os.windows

theorem created_of {c c' : YamlConfig} {os : SchedulerObjects}
    {validate : List WindowObject → Except Failure Unit} (inv : y.Inverts)
    (accepted : c.normalize y maxCpus = .ok c')
    (run : createSchedulerObjects y maxCpus toHz validate allowed c' = .ok os) :
    Created y maxCpus allowed toHz c'.config os := by
  obtain ⟨setCwd, demosCpu, nps, nws, h⟩ := normalize_ok inv accepted
  have hparts := (itemsAt_normalConfig (y.bool setCwd) demosCpu nps nws).1
  rw [← h.config] at hparts
  simp only [createSchedulerObjects, bind_def, bind_eq_ok, pure_def, Except.ok.injEq] at run
  obtain ⟨-, -, partitions, hcreate, -, -, -, -, windows, hwindows, -, -, rfl⟩ := run
  rw [createPartitions, hparts, mapM_eq_ok] at hcreate
  refine ⟨fun o ho => ?_, mapM_eq_ok.mp hwindows⟩
  obtain ⟨np, hnp, hrun⟩ := forall₂_mem hcreate ho
  obtain ⟨d, -, hmade⟩ := forall₂_mem h.partitions hnp
  exact hmade.valid inv hrun

theorem createWindow_slices {partitions : List PartitionObject} {win : Node} {w : WindowObject}
    (run : createWindow y maxCpus toHz allowed partitions win = .ok w) :
    List.Forall₂ (fun slice o => createSlice y maxCpus toHz allowed partitions slice = .ok o)
      (itemsAt win "slices") w.slices := by
  simp only [createWindow, bind_def, bind_eq_ok, pure_def, Except.ok.injEq] at run
  obtain ⟨-, -, -, -, slices, hslices, rfl⟩ := run
  exact mapM_eq_ok.mp hslices

theorem createSlice_reads {partitions : List PartitionObject} {slice : Node} {o : SliceObject}
    (run : createSlice y maxCpus toHz allowed partitions slice = .ok o) :
    (∃ cpulist, y.asString (slice.find "cpu") = .ok cpulist ∧
      sliceCpus maxCpus allowed cpulist = .ok o.cpus) ∧
    ∀ sc : Bool, ∀ k ∈ (if sc then o.sc else o.be), ∃ part, partitions[k]? = some part ∧
      y.asString (slice.find (roleKey sc)) = .ok part.name := by
  simp only [createSlice, bind_def, bind_eq_ok, pure_def, Except.ok.injEq] at run
  obtain ⟨sc, hsc, be, hbe, v, hget, cpulist, hcpulist, cpus, hcpus, -, -, rfl⟩ := run
  refine ⟨⟨cpulist, (get_ok_find hget).2 ▸ hcpulist, hcpus⟩, fun role k hk => ?_⟩
  cases role with
  | true => exact readPartition?_name hsc k hk
  | false => exact readPartition?_name hbe k hk

namespace Created

variable {config : Node} {os : SchedulerObjects}

theorem slice (h : Created y maxCpus allowed toHz config os) {i : SliceId} {w : WindowObject}
    {o : SliceObject} (hw : os.windows[i.window]? = some w) (ho : w.slices[i.index]? = some o) :
    ∃ win slice, (itemsAt config "windows")[i.window]? = some win ∧
      (itemsAt win "slices")[i.index]? = some slice ∧
      createSlice y maxCpus toHz allowed os.partitions slice = .ok o := by
  obtain ⟨win, hwin, hrun⟩ := forall₂_getElem? h.windows hw
  obtain ⟨slice, hslice, hcreate⟩ := forall₂_getElem? (createWindow_slices hrun) ho
  exact ⟨win, slice, hwin, hslice, hcreate⟩

theorem cpus (h : Created y maxCpus allowed toHz config os) (nonempty : allowed.Nonempty)
    (valid : Validated y maxCpus config) :
    ∀ w ∈ os.windows, ∀ o ∈ w.slices, o.cpus.Nonempty ∧ o.cpus ⊆ allowed := by
  intro w hw o ho
  obtain ⟨win, hwin, hrun⟩ := forall₂_mem h.windows hw
  obtain ⟨sets, hsets, -⟩ := valid.cpus win hwin
  obtain ⟨p, hp, hcpus⟩ := forall₂_mem (createWindow_cpus hrun hsets) (List.mem_map_of_mem ho)
  obtain ⟨n, -, hhas⟩ := forall₂_mem hsets hp
  exact sliceCpus_allowed nonempty hhas.2 hcpus

theorem runnable (h : Created y maxCpus allowed toHz config os) (nonempty : allowed.Nonempty)
    (valid : Validated y maxCpus config) (windows_ne : os.windows ≠ []) : os.Runnable := by
  refine ⟨h.partitions, windows_ne, fun w hw o ho => (h.cpus nonempty valid w hw o ho).1,
    fun w hw o ho k hk => ?_⟩
  obtain ⟨win, hwin, hrun⟩ := forall₂_mem h.windows hw
  obtain ⟨slice, -, hcreate⟩ := forall₂_mem (createWindow_slices hrun) ho
  have hlt : ∀ sc : Bool, k ∈ (if sc then o.sc else o.be) → k < os.partitions.length := by
    intro sc hsc
    obtain ⟨part, hpart, -⟩ := (createSlice_reads hcreate).2 sc k hsc
    exact (List.getElem?_eq_some_iff.mp hpart).1
  rcases List.mem_append.mp hk with hsc | hbe
  · exact hlt true (Option.mem_toList.mp hsc)
  · exact hlt false (Option.mem_toList.mp hbe)

end Created

theorem CpusSeparate.apart {w : WindowObject} (h : CpusSeparate allowed w) {a b : Nat}
    {o o' : SliceObject} (ha : w.slices[a]? = some o) (hb : w.slices[b]? = some o') (ne : a ≠ b) :
    Disjoint o.cpus o'.cpus := by
  obtain ⟨hlta, rfl⟩ := List.getElem?_eq_some_iff.mp ha
  obtain ⟨hltb, rfl⟩ := List.getElem?_eq_some_iff.mp hb
  have hpairs := List.pairwise_iff_getElem.mp h.disjoint
  rcases Nat.lt_or_gt_of_ne ne with hlt | hlt
  · exact hpairs a b hlta hltb hlt
  · exact (hpairs b a hltb hlta hlt).symm

def Assigned (y : Conversions δ) (maxCpus : Nat) (allowed : CpuSet) (config : Node)
    (os : SchedulerObjects) (i : SliceId) (p : ProcessId) (cpus : CpuSet) : Prop :=
  ∃ win slice cpulist part, ∃ sc : Bool, (itemsAt config "windows")[i.window]? = some win ∧
    (itemsAt win "slices")[i.index]? = some slice ∧
    y.asString (slice.find "cpu") = .ok cpulist ∧ sliceCpus maxCpus allowed cpulist = .ok cpus ∧
    y.asString (slice.find (roleKey sc)) = .ok part.name ∧
    os.partitions[p.part]? = some part ∧ p.index < part.processes.length

/-- The running processes are where the document has them, on allowed CPUs. Each of them has
its own, unless a slice that is left without one takes another's. -/
structure State.Realizes (y : Conversions δ) (maxCpus : Nat) (allowed : CpuSet) (config : Node)
    (os : SchedulerObjects) (s : State) : Prop where
  assigned : ∀ i p, (s.slice i).runningProcess = some p →
    Assigned y maxCpus allowed config os i p (s.partition p.part).currentCpus
  within : ∀ i p, (s.slice i).runningProcess = some p →
    (s.partition p.part).currentCpus.Nonempty ∧ (s.partition p.part).currentCpus ⊆ allowed
  apart : FallbacksFree y maxCpus allowed config → ∀ i j p q, i ≠ j →
    (s.slice i).runningProcess = some p → (s.slice j).runningProcess = some q →
      Disjoint (s.partition p.part).currentCpus (s.partition q.part).currentCpus

theorem Created.realizes {config : Node} {os : SchedulerObjects} {s : State}
    (h : Created y maxCpus allowed toHz config os) (nonempty : allowed.Nonempty)
    (valid : Validated y maxCpus config) (runnable : os.Runnable)
    (unshared : (os.toConfig runnable).Unshared) (sound : s.Sound (os.toConfig runnable)) :
    s.Realizes y maxCpus allowed config os := by
  have hplaced : ∀ i p, (s.slice i).runningProcess = some p →
      i.window = s.frame.currentWin ∧ ∃ w, os.windows[i.window]? = some w ∧
        ∃ o, w.slices[i.index]? = some o ∧ (s.partition p.part).currentCpus = o.cpus ∧
          p.part ∈ o.partitions := by
    intro i p hp
    have hmember := (Config.mem_sliceIds _).mp (sound.coherent.running i p hp)
    obtain ⟨hcb, hcpus⟩ := sound.coherent.held i p hp unshared
    have hrole := (sound.coherent.registered _ _ hcb).2
    obtain ⟨w, hw, o, ho, hne, hslice⟩ :=
      SchedulerObjects.toConfig_slice runnable (hmember.1 ▸ hmember.2)
    rw [hslice] at hcpus hrole
    exact ⟨hmember.1, w, hw, o, ho, hcpus, hrole⟩
  refine ⟨fun i p hp => ?_, fun i p hp => ?_, fun free i j p q hne hp hq => ?_⟩
  · obtain ⟨-, w, hw, o, ho, hcpus, hrole⟩ := hplaced i p hp
    obtain ⟨win, slice, hwin, hslice, hcreate⟩ := h.slice hw ho
    obtain ⟨⟨cpulist, hcpulist, hset⟩, hnames⟩ := createSlice_reads hcreate
    have hname : ∃ (sc : Bool) (part : PartitionObject), os.partitions[p.part]? = some part ∧
        y.asString (slice.find (roleKey sc)) = .ok part.name := by
      rcases List.mem_append.mp hrole with hsc | hbe
      · exact ⟨true, hnames true _ (Option.mem_toList.mp hsc)⟩
      · exact ⟨false, hnames false _ (Option.mem_toList.mp hbe)⟩
    obtain ⟨sc, part, hpart, hname⟩ := hname
    have hindex := (sound.coherent.owner i p hp).2
    rw [SchedulerObjects.toConfig_processCount runnable hpart] at hindex
    exact ⟨win, slice, cpulist, part, sc, hwin, hslice, hcpulist, hcpus ▸ hset, hname, hpart,
      hindex⟩
  · obtain ⟨-, w, hw, o, ho, hcpus, -⟩ := hplaced i p hp
    rw [hcpus]
    exact h.cpus nonempty valid w (List.mem_of_getElem? hw) o (List.mem_of_getElem? ho)
  · obtain ⟨hi, w, hw, o, ho, hcpus, -⟩ := hplaced i p hp
    obtain ⟨hj, w', hw', o', ho', hcpus', -⟩ := hplaced j q hq
    rw [hi] at hw
    rw [hj, hw, Option.some.injEq] at hw'
    subst hw'
    obtain ⟨win, hwin, hrun⟩ := forall₂_mem h.windows (List.mem_of_getElem? hw)
    have hseparate := (CpusSeparate.iff_fallbackFree nonempty valid hwin hrun).mpr (free win hwin)
    have hindex : i.index ≠ j.index := fun he => hne (by
      obtain ⟨iw, ii⟩ := i
      obtain ⟨jw, ji⟩ := j
      simp_all)
    rw [hcpus, hcpus']
    exact hseparate.apart ho ho' hindex

/-- From the document to the CPUs. What is created for an accepted document with a window is
a configuration of the scheduler, in all of whose runs the processes that run are on the
CPUs the document gives them. -/
theorem document_realized (y : Conversions δ) (inv : y.Inverts) (maxCpus : Nat) (toHz : δ → Nat)
    (c c' : YamlConfig) (accepted : c.normalize y maxCpus = .ok c') (allowed : CpuSet)
    (nonempty : allowed.Nonempty) (validate : List WindowObject → Except Failure Unit)
    (os : SchedulerObjects)
    (created : createSchedulerObjects y maxCpus toHz validate allowed c' = .ok os)
    (windows_ne : os.windows ≠ []) :
    ∃ runnable : os.Runnable, (os.toConfig runnable).Unshared →
      ∀ gen timeout es s, Event.Reachable (os.toConfig runnable) gen timeout es s →
        s.Realizes y maxCpus allowed c'.config os := by
  obtain ⟨setCwd, demosCpu, nps, nws, h⟩ := normalize_ok inv accepted
  have hvalid := validateConfig_ok h.valid
  have hcreated := created_of inv accepted created
  have hrunnable := hcreated.runnable nonempty hvalid windows_ne
  exact ⟨hrunnable, fun unshared gen timeout es s reachable =>
    hcreated.realizes nonempty hvalid hrunnable unshared reachable.sound⟩

/-- Both processes of the document run, one on CPU 0 and one on CPU 1. -/
theorem document_realized_twoSlices : ∃ (c' : YamlConfig) (os : SchedulerObjects) (s : State),
    twoSlices.normalize Conversions.decimal 64 = .ok c' ∧
    (s.slice ⟨0, 0⟩).runningProcess = some ⟨0, 0⟩ ∧
    (s.slice ⟨0, 1⟩).runningProcess = some ⟨1, 0⟩ ∧
    s.Realizes Conversions.decimal 64 {0, 1} c'.config os := by
  have hrun : ((twoSlices.normalize Conversions.decimal 64).toOption.bind fun c' =>
      (createSchedulerObjects Conversions.decimal 64 Int.toNat (fun _ => .ok ()) {0, 1}
        c').toOption.bind fun os =>
          if h : os.Runnable ∧ ∀ h : os.Runnable, (os.toConfig h).Unshared then
            (Event.play (os.toConfig h.1) (fun _ _ => True) [.startup 0]
              (State.initial (os.toConfig h.1) (fun _ => 0) none)).map fun s =>
                ((s.slice ⟨0, 0⟩).runningProcess, (s.slice ⟨0, 1⟩).runningProcess)
          else none) = some (some ⟨0, 0⟩, some ⟨1, 0⟩) := by
    decide +kernel
  simp only [Option.bind_eq_some_iff, toOption_eq_some] at hrun
  obtain ⟨c', hc', os, hos, hplay⟩ := hrun
  by_cases h : os.Runnable ∧ ∀ h : os.Runnable, (os.toConfig h).Unshared
  · rw [dif_pos h, Option.map_eq_some_iff] at hplay
    obtain ⟨s, hs, hrunning⟩ := hplay
    obtain ⟨hfirst, hsecond⟩ := Prod.mk.inj hrunning
    obtain ⟨runnable, hall⟩ := document_realized Conversions.decimal Conversions.decimal_inverts 64
      Int.toNat _ c' hc' {0, 1} ⟨0, by decide⟩ (fun _ => .ok ()) os hos h.1.windows_ne
    exact ⟨c', os, s, hc', hfirst, hsecond, hall (h.2 runnable) _ _ _ s (Event.play_reachable hs)⟩
  · rw [dif_neg h] at hplay
    cases hplay

end DemosSched
