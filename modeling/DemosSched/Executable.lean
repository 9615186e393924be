import DemosSched.Accepted
import DemosSched.SchedulerObjects

/-! What `create_scheduler_objects` reads of a normal form, and which accepted
configurations have all of it. A process definition without a command is
accepted, and so is a window whose length is not positive. -/

namespace DemosSched

open Yaml Fallible

variable {δ : Type} (y : Conversions δ) (maxCpus : Nat)

structure ExecutableProcess (n : Node) : Prop where
  cmd : ∃ s, y.asString (n.find "cmd") = .ok s
  times : ∃ budget jitter, y.asInt (n.find "budget") = .ok budget ∧ 0 < budget ∧
    y.asInt (n.find "jitter") = .ok jitter ∧ 0 ≤ jitter ∧ jitter ≤ 2 * budget
  init : ∃ b, y.asBool (n.find "init") = .ok b

structure ExecutablePartition (n : Node) : Prop where
  name : ∃ s, y.asString (n.find "name") = .ok s
  processes_ne : itemsAt n "processes" ≠ []
  processes : ∀ proc ∈ itemsAt n "processes", ExecutableProcess y proc

structure ExecutableSlice (partitions : List Node) (n : Node) : Prop where
  cpu : ∃ s set, y.asString (n.find "cpu") = .ok s ∧ parseCpuSet maxCpus s ∅ = .ok set
  references : ∀ sc v, n.find (roleKey sc) = some v → RefersTo y partitions v

structure ExecutableWindow (partitions : List Node) (n : Node) : Prop where
  length : ∃ length, y.asInt (n.find "length") = .ok length ∧ 0 < length
  slices : ∀ slice ∈ itemsAt n "slices", ExecutableSlice y maxCpus partitions slice

/-- Every field that is read is present and valid. -/
structure Executable (config : Node) : Prop where
  partitions : ∀ part ∈ itemsAt config "partitions", ExecutablePartition y part
  windows : ∀ win ∈ itemsAt config "windows",
    ExecutableWindow y maxCpus (itemsAt config "partitions") win

def YamlConfig.HasCmds (c : YamlConfig) : Prop :=
  ∀ d ∈ definitions y c.config, ∀ p ∈ partitionProcesses d.node d.totalBudget, HasCmd p.1

def YamlConfig.LengthsPositive (c : YamlConfig) : Prop :=
  ∀ win ∈ elementsAt c.config "windows", 0 < windowLength y (win.getD .null)

instance (c : YamlConfig) : Decidable (c.HasCmds y) :=
  inferInstanceAs (Decidable (∀ d ∈ definitions y c.config,
    ∀ p ∈ partitionProcesses d.node d.totalBudget, HasCmd p.1))

instance (c : YamlConfig) : Decidable (c.LengthsPositive y) :=
  inferInstanceAs (Decidable (∀ win ∈ elementsAt c.config "windows",
    0 < windowLength y (win.getD .null)))

variable {y maxCpus}

theorem has_of_asString {f : Fields} {k s : String} (h : y.asString (f.find k) = .ok s) :
    f.has k = true := by
  cases hv : f.find k with
  | none => simp [hv, Conversions.asString] at h
  | some v => simp [Fields.has, hv]

theorem NormalProcess.executable_iff {f : Fields} {b j : Int} (h : NormalProcess y f b j)
    (inv : y.Inverts) : ExecutableProcess y f.toNode ↔ f.has "cmd" = true := by
  constructor
  · rintro ⟨⟨s, hs⟩, -, -⟩
    rw [Fields.find_toNode] at hs
    exact has_of_asString hs
  · intro hcmd
    obtain ⟨v, hv⟩ := Option.isSome_iff_exists.mp hcmd
    obtain ⟨s, hs, -⟩ := map_eq_ok.mp
      (show (y.asString (some v)).map .scalar = .ok v from h.fixed _ (Fields.mem_of_find hv))
    obtain ⟨init, hinit⟩ := h.find_init
    refine ⟨⟨s, by rw [Fields.find_toNode, hv, hs]⟩, ⟨b, j, ?_, h.budget_pos, ?_,
      h.jitter_nonneg, h.jitter_le⟩, init, ?_⟩
    · rw [Fields.find_toNode, h.find_budget, inv.asInt_int h.budget_isInt]
    · rw [Fields.find_toNode, h.find_jitter, inv.asInt_int h.jitter_isInt]
    · rw [Fields.find_toNode, hinit, inv.asBool_bool]

theorem normalizeAll_executable {procs : List (Node × Single)} {nps : List Node} (inv : y.Inverts)
    (run : normalizeAll y procs = .ok nps) :
    (∀ np ∈ nps, ExecutableProcess y np) ↔ ∀ p ∈ procs, HasCmd p.1 := by
  have hall := mapM_eq_ok.mp run
  clear run
  induction hall with
  | nil => simp
  | cons hnp hrest ih =>
    obtain ⟨f, b, j, rfl, hf, hcmd, -⟩ := normalizeProcess_ok inv hnp
    rw [List.forall_mem_cons, List.forall_mem_cons, hf.executable_iff inv, hcmd]
    exact and_congr_right fun _ => ih

theorem itemsAt_partitionNode (name : String) (procs : List Node) :
    itemsAt (partitionNode name procs) "processes" = procs := by
  refine itemsAt_toNode ?_
  simp

theorem MadeFrom.executable_of {d : Definition × String} {np : Node} (h : MadeFrom (y := y) d np)
    (all : ∀ proc ∈ itemsAt np "processes", ExecutableProcess y proc) :
    ExecutablePartition y np := by
  obtain ⟨procs, hprocs, rfl⟩ := h
  refine ⟨⟨d.2, asString_partitionNode _ _⟩, ?_, all⟩
  rw [itemsAt_partitionNode]
  rintro rfl
  have hlength := normalizeAll_length hprocs
  rw [List.length_nil, List.length_eq_zero_iff] at hlength
  exact partitionProcesses_ne_nil _ _ hlength

theorem MadeFrom.executable_iff {d : Definition × String} {np : Node} (h : MadeFrom (y := y) d np)
    (inv : y.Inverts) : ExecutablePartition y np ↔
      ∀ p ∈ partitionProcesses d.1.node d.1.totalBudget, HasCmd p.1 := by
  have hall : ExecutablePartition y np ↔
      ∀ proc ∈ itemsAt np "processes", ExecutableProcess y proc :=
    ⟨fun hexec => hexec.processes, fun all => h.executable_of all⟩
  obtain ⟨procs, hprocs, rfl⟩ := h
  rw [hall, itemsAt_partitionNode, normalizeAll_executable inv hprocs]

theorem partitions_executable {defs : List (Definition × String)} {nps : List Node}
    (inv : y.Inverts) (made : List.Forall₂ (MadeFrom (y := y)) defs nps) :
    (∀ np ∈ nps, ExecutablePartition y np) ↔
      ∀ d ∈ defs, ∀ p ∈ partitionProcesses d.1.node d.1.totalBudget, HasCmd p.1 := by
  induction made with
  | nil => simp
  | cons hmade hrest ih =>
    rw [List.forall_mem_cons, List.forall_mem_cons, hmade.executable_iff inv]
    exact and_congr_right fun _ => ih

theorem NormalSlice.executable {f : Fields} {partitions : List Node}
    (h : NormalSlice y maxCpus f)
    (references : ∀ sc v, f.toNode.find (roleKey sc) = some v → RefersTo y partitions v) :
    ExecutableSlice y maxCpus partitions f.toNode := by
  obtain ⟨s, set, hs, hset⟩ := h.cpu
  exact ⟨⟨s, set, by rw [Fields.find_toNode, hs]; rfl, hset⟩, references⟩

theorem windows_executable {wins : List (Option Node)} {nws partitions : List Node}
    (inv : y.Inverts) (windows : List.Forall₂ (WindowFrom y maxCpus) wins nws)
    (slices : ∀ nw ∈ nws, ∀ slice ∈ itemsAt nw "slices",
      ExecutableSlice y maxCpus partitions slice) :
    (∀ nw ∈ nws, ExecutableWindow y maxCpus partitions nw) ↔
      ∀ win ∈ wins, 0 < windowLength y (win.getD .null) := by
  induction windows with
  | nil => simp
  | cons hwin hrest ih =>
    obtain ⟨f, rfl, hf⟩ := hwin
    rw [List.forall_mem_cons] at slices
    rw [List.forall_mem_cons, List.forall_mem_cons]
    refine and_congr ?_ (ih slices.2)
    have hlength := inv.asInt_int hf.isInt
    rw [← hf.find_length, ← Fields.find_toNode] at hlength
    constructor
    · intro hexec
      obtain ⟨length, hread, hpos⟩ := hexec.length
      rwa [Except.ok.inj (hlength.symm.trans hread)]
    · intro hpos
      exact ⟨⟨_, hlength, hpos⟩, slices.1⟩

theorem itemsAt_normalConfig (setCwd : Node) (demosCpu : String) (nps nws : List Node) :
    itemsAt (normalConfig setCwd demosCpu nps nws) "partitions" = nps ∧
      itemsAt (normalConfig setCwd demosCpu nps nws) "windows" = nws :=
  ⟨itemsAt_toNode (by simp), itemsAt_toNode (by simp)⟩

theorem Accepted.executable_iff {c c' : YamlConfig} {setCwd : Bool} {demosCpu : String}
    {nps nws : List Node} (h : Accepted y maxCpus c c' setCwd demosCpu nps nws) (inv : y.Inverts) :
    Executable y maxCpus c'.config ↔ c.HasCmds y ∧ c.LengthsPositive y := by
  obtain ⟨hparts, hwins⟩ := itemsAt_normalConfig (y.bool setCwd) demosCpu nps nws
  rw [← h.config] at hparts hwins
  have hvalid := validateConfig_ok h.valid
  have hslices : ∀ nw ∈ nws, ∀ slice ∈ itemsAt nw "slices",
      ExecutableSlice y maxCpus nps slice := by
    intro nw hnw slice hslice
    obtain ⟨f, rfl, hf⟩ := h.slices nw hnw slice hslice
    have hrefs := hvalid.references nw (hwins ▸ hnw) _ hslice
    rw [hparts] at hrefs
    exact hf.executable hrefs
  have hcmds : c.HasCmds y ↔ ∀ d ∈ namedDefinitions y (definitions y c.config)
      c.anonymousPartitionCounter, ∀ p ∈ partitionProcesses d.1.node d.1.totalBudget,
        HasCmd p.1 := by
    unfold YamlConfig.HasCmds
    conv_lhs => rw [← map_fst_namedDefinitions (y := y) (definitions y c.config)
      c.anonymousPartitionCounter]
    rw [List.forall_mem_map]
  rw [hcmds, YamlConfig.LengthsPositive, ← partitions_executable inv h.partitions,
    ← windows_executable inv h.windows hslices]
  constructor
  · rintro ⟨hp, hw⟩
    rw [hparts] at hp hw
    rw [hwins] at hw
    exact ⟨hp, hw⟩
  · rintro ⟨hp, hw⟩
    exact ⟨by rwa [hparts], by rwa [hparts, hwins]⟩

variable (toHz : δ → Nat)

@[simp] theorem get_toNode (f : Fields) (k : String) : f.toNode.get k = .ok (f.find k) := by
  simp [Node.get]

theorem readFrequency_total {f : Fields}
    (fixed : ∀ v, f.find "frequency" = some v → ∃ x, v = y.double x) (inv : y.Inverts) :
    ∃ o, readFrequency y toHz f.toNode = .ok o := by
  cases hv : f.find "frequency" with
  | none => exact ⟨none, by simp [readFrequency, hv]⟩
  | some v =>
    obtain ⟨x, rfl⟩ := fixed v hv
    exact ⟨some (toHz x), by simp [readFrequency, hv, inv.asDouble_double]⟩

theorem NormalProcess.create {f : Fields} {b j : Int} (h : NormalProcess y f b j)
    (inv : y.Inverts) (exec : ExecutableProcess y f.toNode) :
    ∃ o, createProcess y toHz f.toNode = .ok o := by
  obtain ⟨⟨s, hs⟩, ⟨budget, jitter, hbudget, -, hjitter, -⟩, init, hinit⟩ := exec
  rw [Fields.find_toNode] at hs hbudget hjitter hinit
  have hfreq : ∀ v, f.find "frequency" = some v → ∃ x, v = y.double x := by
    intro v hv
    obtain ⟨x, -, rfl⟩ := map_eq_ok.mp
      (show (y.asDouble (some v)).map y.double = .ok v from h.fixed _ (Fields.mem_of_find hv))
    exact ⟨x, rfl⟩
  obtain ⟨o, ho⟩ := readFrequency_total toHz hfreq inv
  exact ⟨_, by simp [createProcess, hbudget, hjitter, ho, hs, hinit]; rfl⟩

theorem createProcess_cmd {n : Node} {o : ProcessObject} (run : createProcess y toHz n = .ok o) :
    ∃ s, y.asString (n.find "cmd") = .ok s := by
  simp only [createProcess, bind_def, bind_eq_ok] at run
  obtain ⟨-, -, -, -, -, -, -, -, -, -, v, hget, s, hs, -⟩ := run
  exact ⟨s, (get_ok_find hget).2 ▸ hs⟩

theorem normalizeAll_normal {procs : List (Node × Single)} {nps : List Node} (inv : y.Inverts)
    (run : normalizeAll y procs = .ok nps) :
    ∀ np ∈ nps, ∃ f b j, np = Fields.toNode f ∧ NormalProcess y f b j := by
  intro np hnp
  obtain ⟨p, -, hp⟩ := mapM_mem run hnp
  obtain ⟨f, b, j, rfl, hf, -⟩ := normalizeProcess_ok inv hp
  exact ⟨f, b, j, rfl, hf⟩

theorem MadeFrom.create {d : Definition × String} {np : Node} (h : MadeFrom (y := y) d np)
    (inv : y.Inverts) (exec : ExecutablePartition y np) :
    ∃ o, createPartition y toHz np = .ok o ∧ o.name = d.2 := by
  obtain ⟨procs, hprocs, rfl⟩ := h
  have hall := exec.processes
  rw [itemsAt_partitionNode] at hall
  obtain ⟨os, hos, -⟩ := mapM_total (f := createProcess y toHz) (P := fun _ _ => True) (l := procs)
    fun proc hproc => by
      obtain ⟨f, b, j, rfl, hf⟩ := normalizeAll_normal inv hprocs proc hproc
      obtain ⟨o, ho⟩ := hf.create toHz inv (hall _ hproc)
      exact ⟨o, ho, trivial⟩
  refine ⟨⟨d.2, os⟩, ?_, rfl⟩
  have hget : (partitionNode d.2 procs).get "name" =
      .ok ((partitionNode d.2 procs).find "name") := by simp [partitionNode]
  rw [createPartition, itemsAt_partitionNode, hget]
  simp [asString_partitionNode, hos]

theorem partitions_create {defs : List (Definition × String)} {nps : List Node} (inv : y.Inverts)
    (made : List.Forall₂ (MadeFrom (y := y)) defs nps)
    (exec : ∀ np ∈ nps, ExecutablePartition y np) :
    ∃ os, nps.mapM (createPartition y toHz) = .ok os ∧ os.map (·.name) = defs.map Prod.snd := by
  induction made with
  | nil => exact ⟨[], rfl, rfl⟩
  | cons hmade hrest ih =>
    rw [List.forall_mem_cons] at exec
    obtain ⟨o, ho, hname⟩ := hmade.create toHz inv exec.1
    obtain ⟨os, hos, hnames⟩ := ih exec.2
    exact ⟨o :: os, by rw [List.mapM_cons, ho, hos]; rfl, by simp [hname, hnames]⟩

theorem findPartition_total {name : String} {partitions : List PartitionObject}
    (mem : name ∈ partitions.map (·.name)) : ∃ k, findPartition name partitions = .ok k := by
  obtain ⟨p, hp, hname⟩ := List.mem_map.mp mem
  cases hk : partitions.findIdx? (·.name = name) with
  | some k => exact ⟨k, by simp [findPartition, hk]⟩
  | none =>
    rw [List.findIdx?_eq_none_iff] at hk
    simpa [hname] using hk p hp

theorem sliceCpus_total {s : String} {set allowed : CpuSet}
    (parses : parseCpuSet maxCpus s ∅ = .ok set) (lowest : ∃ i ∈ allowed, i < maxCpus) :
    ∃ cpus, sliceCpus maxCpus allowed s = .ok cpus := by
  obtain ⟨cpus, hcpus, -⟩ := parseCpuSet_total allowed parses
  obtain ⟨i, hi⟩ := CpuSet.lowest_total lowest
  simp only [sliceCpus, hcpus, hi, bind_def, bind_ok, pure_def]
  split
  · exact ⟨_, rfl⟩
  split
  · exact ⟨_, rfl⟩
  · exact ⟨_, rfl⟩

theorem readPartition?_total {partitions : List PartitionObject} {nps : List Node} {f : Fields}
    {sc : Bool} (names : ∀ part ∈ nps, ∀ name, y.asString (part.find "name") = .ok name →
      name ∈ partitions.map (·.name))
    (references : ∀ v, f.toNode.find (roleKey sc) = some v → RefersTo y nps v) :
    ∃ o, readPartition? y partitions f.toNode (roleKey sc) = .ok o := by
  rw [Fields.find_toNode] at references
  cases hv : f.find (roleKey sc) with
  | none => exact ⟨none, by simp [readPartition?, hv]⟩
  | some v =>
    obtain ⟨name, hname, part, hpart, hpname⟩ := references v hv
    obtain ⟨k, hk⟩ := findPartition_total (names part hpart name hpname)
    exact ⟨some k, by simp [readPartition?, hv, hname, hk]⟩

theorem NormalSlice.create {f : Fields} {partitions : List PartitionObject} {nps : List Node}
    {allowed : CpuSet} (h : NormalSlice y maxCpus f) (inv : y.Inverts)
    (realized : ∀ s, y.asString (f.toNode.find "cpu") = .ok s →
      ∃ cpus, sliceCpus maxCpus allowed s = .ok cpus)
    (names : ∀ part ∈ nps, ∀ name, y.asString (part.find "name") = .ok name →
      name ∈ partitions.map (·.name))
    (references : ∀ sc v, f.toNode.find (roleKey sc) = some v → RefersTo y nps v) :
    ∃ o, createSlice y maxCpus toHz allowed partitions f.toNode = .ok o := by
  obtain ⟨sc, hsc⟩ := readPartition?_total names (references true)
  obtain ⟨be, hbe⟩ := readPartition?_total names (references false)
  obtain ⟨s, set, hs, -⟩ := h.cpu
  obtain ⟨cpus, hcpus⟩ := realized s (by simp [hs, Conversions.asString])
  have hfreq : ∀ v, f.find "frequency" = some v → ∃ x, v = y.double x := by
    intro v hv
    rcases h.fixed _ (Fields.mem_of_find hv) with ⟨-, hx⟩ | ⟨hkey, -⟩
    · exact hx
    · simp at hkey
  obtain ⟨o, ho⟩ := readFrequency_total toHz hfreq inv
  have hsc : readPartition? y partitions f.toNode "sc_partition" = .ok sc := hsc
  have hbe : readPartition? y partitions f.toNode "be_partition" = .ok be := hbe
  exact ⟨_, by simp [createSlice, hsc, hbe, hs, Conversions.asString, hcpus, ho]; rfl⟩

theorem windows_create {wins : List (Option Node)} {nws nps : List Node}
    {partitions : List PartitionObject} {allowed : CpuSet} (inv : y.Inverts)
    (windows : List.Forall₂ (WindowFrom y maxCpus) wins nws)
    (names : ∀ part ∈ nps, ∀ name, y.asString (part.find "name") = .ok name →
      name ∈ partitions.map (·.name))
    (slices : ∀ nw ∈ nws, ∀ slice ∈ itemsAt nw "slices",
      (∃ f, slice = Fields.toNode f ∧ NormalSlice y maxCpus f) ∧
        ∀ sc v, slice.find (roleKey sc) = some v → RefersTo y nps v)
    (realized : ∀ nw ∈ nws, ∀ slice ∈ itemsAt nw "slices", ∀ s,
      y.asString (slice.find "cpu") = .ok s → ∃ cpus, sliceCpus maxCpus allowed s = .ok cpus) :
    ∃ os, nws.mapM (createWindow y maxCpus toHz allowed partitions) = .ok os := by
  induction windows with
  | nil => exact ⟨[], rfl⟩
  | @cons win nw wins nws hwin hrest ih =>
    rw [List.forall_mem_cons] at slices realized
    obtain ⟨os, hos⟩ := ih slices.2 realized.2
    obtain ⟨f, rfl, hf⟩ := hwin
    obtain ⟨ss, hss, -⟩ := mapM_total (f := createSlice y maxCpus toHz allowed partitions)
      (P := fun _ _ => True) (l := itemsAt f.toNode "slices") fun slice hslice => by
        obtain ⟨⟨g, rfl, hg⟩, hrefs⟩ := slices.1 slice hslice
        obtain ⟨o, ho⟩ := hg.create toHz inv (realized.1 _ hslice) names hrefs
        exact ⟨o, ho, trivial⟩
    have hwindow : createWindow y maxCpus toHz allowed partitions f.toNode =
        .ok ⟨windowLength y (win.getD .null), ss⟩ := by
      simp [createWindow, hf.find_length, inv.asInt_int hf.isInt, hss]
    exact ⟨_ :: os, by rw [List.mapM_cons, hwindow, hos]; rfl⟩

variable {toHz}

theorem MadeFrom.executable {d : Definition × String} {np : Node} {o : PartitionObject}
    (h : MadeFrom (y := y) d np) (inv : y.Inverts)
    (run : createPartition y toHz np = .ok o) : ExecutablePartition y np := by
  refine h.executable_of ?_
  obtain ⟨procs, hprocs, rfl⟩ := h
  simp only [createPartition, bind_def, bind_eq_ok, itemsAt_partitionNode] at run
  obtain ⟨-, -, -, -, os, hos, -⟩ := run
  rw [itemsAt_partitionNode]
  intro np hnp
  obtain ⟨f, b, j, rfl, hf⟩ := normalizeAll_normal inv hprocs np hnp
  obtain ⟨o, -, ho⟩ := mapM_each hos hnp
  obtain ⟨s, hs⟩ := createProcess_cmd toHz ho
  rw [Fields.find_toNode] at hs
  exact (hf.executable_iff inv).mpr (has_of_asString hs)

theorem partitions_executable_of {defs : List (Definition × String)} {nps : List Node}
    {os : List PartitionObject} (inv : y.Inverts)
    (made : List.Forall₂ (MadeFrom (y := y)) defs nps)
    (run : nps.mapM (createPartition y toHz) = .ok os) :
    ∀ np ∈ nps, ExecutablePartition y np := by
  intro np hnp
  obtain ⟨o, -, ho⟩ := mapM_each run hnp
  clear run
  induction made with
  | nil => simp at hnp
  | cons hmade hrest ih =>
    rcases List.mem_cons.mp hnp with rfl | hnp
    · exact hmade.executable inv ho
    · exact ih hnp

theorem names_of_made {defs : List (Definition × String)} {nps : List Node}
    (made : List.Forall₂ (MadeFrom (y := y)) defs nps) :
    ∀ part ∈ nps, ∀ name, y.asString (part.find "name") = .ok name → name ∈ defs.map Prod.snd := by
  induction made with
  | nil => simp
  | @cons d np defs nps hmade hrest ih =>
    obtain ⟨procs, -, rfl⟩ := hmade
    rw [List.forall_mem_cons]
    constructor
    · intro name hname
      rw [asString_partitionNode, Except.ok.injEq] at hname
      simp [hname]
    · intro part hpart name hname
      exact List.mem_cons_of_mem _ (ih part hpart name hname)

theorem Accepted.parses {c c' : YamlConfig} {setCwd : Bool} {demosCpu : String}
    {nps nws : List Node} (h : Accepted y maxCpus c c' setCwd demosCpu nps nws)
    {nw slice : Node} {s : String} (window : nw ∈ nws) (mem : slice ∈ itemsAt nw "slices")
    (cpu : y.asString (slice.find "cpu") = .ok s) : ∃ set, parseCpuSet maxCpus s ∅ = .ok set := by
  obtain ⟨f, rfl, hf⟩ := h.slices nw window slice mem
  obtain ⟨s', set, hs', hset⟩ := hf.cpu
  rw [Fields.find_toNode, hs'] at cpu
  cases cpu
  exact ⟨set, hset⟩

theorem Accepted.createWindows_total (toHz : δ → Nat) {c c' : YamlConfig} {setCwd : Bool}
    {demosCpu : String} {nps nws : List Node} {allowed : CpuSet} {partitions : List PartitionObject}
    (h : Accepted y maxCpus c c' setCwd demosCpu nps nws) (inv : y.Inverts)
    (names : partitions.map (·.name) = (namedDefinitions y (definitions y c.config)
      c.anonymousPartitionCounter).map Prod.snd)
    (realized : ∀ nw ∈ nws, ∀ slice ∈ itemsAt nw "slices", ∀ s,
      y.asString (slice.find "cpu") = .ok s → ∃ cpus, sliceCpus maxCpus allowed s = .ok cpus) :
    ∃ windows, createWindows y maxCpus toHz allowed partitions c'.config = .ok windows := by
  obtain ⟨hparts, hwins⟩ := itemsAt_normalConfig (y.bool setCwd) demosCpu nps nws
  rw [← h.config] at hparts hwins
  rw [createWindows, hwins]
  refine windows_create toHz inv h.windows (names ▸ names_of_made h.partitions) ?_ realized
  intro nw hnw slice hslice
  refine ⟨h.slices nw hnw slice hslice, ?_⟩
  have hrefs := (validateConfig_ok h.valid).references nw (hwins ▸ hnw) slice hslice
  rwa [hparts] at hrefs

/-- Creation fails exactly where a process definition has no command. -/
theorem Accepted.create_iff {c c' : YamlConfig} {setCwd : Bool} {demosCpu : String}
    {nps nws : List Node} {allowed : CpuSet}
    (h : Accepted y maxCpus c c' setCwd demosCpu nps nws) (inv : y.Inverts)
    (lowest : ∃ i ∈ allowed, i < maxCpus) :
    (∃ os, createSchedulerObjects y maxCpus toHz (fun _ => .ok ()) allowed c' = .ok os) ↔
      ∀ np ∈ nps, ExecutablePartition y np := by
  obtain ⟨hparts, hwins⟩ := itemsAt_normalConfig (y.bool setCwd) demosCpu nps nws
  rw [← h.config] at hparts hwins
  constructor
  · rintro ⟨os, hos⟩
    simp only [createSchedulerObjects, bind_def, bind_eq_ok] at hos
    obtain ⟨-, -, partitions, hcreate, -⟩ := hos
    rw [createPartitions, hparts] at hcreate
    exact partitions_executable_of inv h.partitions hcreate
  · intro hexec
    obtain ⟨partitions, hcreate, hnames⟩ := partitions_create toHz inv h.partitions hexec
    obtain ⟨windows, hwindows⟩ := h.createWindows_total toHz inv hnames
      fun nw hnw slice hslice s hs => by
        obtain ⟨set, hset⟩ := h.parses hnw hslice hs
        exact sliceCpus_total hset lowest
    rw [createWindows, hwins] at hwindows
    obtain ⟨set, hset⟩ := h.cpus
    obtain ⟨cpus, hcpus, -⟩ := parseCpuSet_total allowed hset
    have hcwd : checkCwd y c' = .ok () := by
      have hfind : c'.config.find "set_cwd" = some (y.bool setCwd) := by
        simp [h.config, normalConfig]
      cases hset : setCwd with
      | false => simp [checkCwd, hfind, hset, inv.asBool_bool]
      | true =>
        have hpath : c'.configFilePath.isNone = false := by
          have hsome := h.cwd hset
          rw [← h.path] at hsome
          cases hp : c'.configFilePath <;> simp_all
        simp [checkCwd, hfind, inv.asBool_bool, hpath]
    have hdemos : c'.config.find "demos_cpu" = some (.scalar demosCpu) := by
      simp [h.config, normalConfig]
    refine ⟨⟨cpus, partitions, windows⟩, ?_⟩
    simp [createSchedulerObjects, hcwd, createPartitions, hparts, hcreate, hdemos,
      Conversions.asString, hcpus, createWindows, hwins, hwindows]

/-- The normal form has every field that is read, and its objects can be created,
exactly if every process has a command and every window a positive length. -/
theorem accepted_executable_iff (y : Conversions δ) (inv : y.Inverts) (maxCpus : Nat)
    (toHz : δ → Nat) (c c' : YamlConfig) (accepted : c.normalize y maxCpus = .ok c')
    (allowedCpus : CpuSet) (lowest : ∃ i ∈ allowedCpus, i < maxCpus) :
    (Executable y maxCpus c'.config ∧
      ∃ os, createSchedulerObjects y maxCpus toHz (fun _ => .ok ()) allowedCpus c' = .ok os) ↔
        c.HasCmds y ∧ c.LengthsPositive y := by
  obtain ⟨setCwd, demosCpu, nps, nws, h⟩ := normalize_ok inv accepted
  rw [h.executable_iff inv, h.create_iff inv lowest, and_iff_left_iff_imp]
  intro hboth
  have hexec := ((h.executable_iff inv).mpr hboth).partitions
  obtain ⟨hparts, -⟩ := itemsAt_normalConfig (y.bool setCwd) demosCpu nps nws
  rwa [h.config, hparts] at hexec

/-- `{windows: [{length: 100, sc_processes: <processes>}]}`, given as text. -/
def oneWindow (processes : Node) : YamlConfig :=
  ⟨.map [(.scalar "windows", .seq [.map [(.scalar "length", .scalar "100"),
    (.scalar "sc_processes", processes)]])], false, none, 0⟩

theorem accepted_executable_oneProcess :
    ∃ c', (oneWindow (.map [(.scalar "cmd", .scalar "echo"),
        (.scalar "budget", .scalar "60")])).normalize Conversions.decimal 64 = .ok c' ∧
      Executable Conversions.decimal 64 c'.config := by
  have haccepted : ((oneWindow (.map [(.scalar "cmd", .scalar "echo"), (.scalar "budget",
      .scalar "60")])).normalize Conversions.decimal 64).toOption.isSome = true := by decide
  obtain ⟨c', hc'⟩ := Option.isSome_iff_exists.mp haccepted
  rw [toOption_eq_some] at hc'
  exact ⟨c', hc', ((accepted_executable_iff Conversions.decimal Conversions.decimal_inverts 64
    Int.toNat _ c' hc' {0} ⟨0, by decide⟩).mpr (by decide)).1⟩

/-- A list of no processes becomes one process, without a command. -/
theorem accepted_executable_noProcess :
    ∃ c', (oneWindow (.seq [])).normalize Conversions.decimal 64 = .ok c' ∧
      ¬ Executable Conversions.decimal 64 c'.config ∧
      ∀ os, createSchedulerObjects Conversions.decimal 64 Int.toNat (fun _ => .ok ()) {0} c' ≠
        .ok os := by
  have haccepted : ((oneWindow (.seq [])).normalize Conversions.decimal 64).toOption.isSome = true := by
    decide +kernel
  have hrejected : (((oneWindow (.seq [])).normalize Conversions.decimal 64).bind
      (createSchedulerObjects Conversions.decimal 64 Int.toNat (fun _ => .ok ()) {0}
        ·)).toOption.isNone = true := by
    decide +kernel
  obtain ⟨c', hc'⟩ := Option.isSome_iff_exists.mp haccepted
  rw [toOption_eq_some] at hc'
  refine ⟨c', hc', ?_, ?_⟩
  · obtain ⟨setCwd, demosCpu, nps, nws, h⟩ := normalize_ok Conversions.decimal_inverts hc'
    rw [h.executable_iff Conversions.decimal_inverts]
    decide
  · intro os hos
    rw [hc', bind_ok, hos] at hrejected
    cases hrejected

end DemosSched
