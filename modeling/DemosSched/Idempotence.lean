import DemosSched.Accepted

/-! Normalizing a normal form. Windows, slices and the names of the partitions
are fixed points; so is a process, unless the bound on its jitter, which is now
given, overflows. -/

namespace DemosSched

open Yaml Fallible

variable {δ : Type} {y : Conversions δ} {maxCpus : Nat}

theorem NormalSlice.normalize {f : Fields} (h : NormalSlice y maxCpus f) (inv : y.Inverts)
    (wl : Single) (st : Defined) :
    normalizeSlice y maxCpus f.toNode wl st = .ok (f.toNode, st) := by
  have hloop : f.toNode.keys.foldlM (normalizeSliceKey y f.toNode wl) ([], st) = .ok (f, st) := by
    refine Fields.foldlM_set (fun g => (g, st)) h.nodup ?_
    rintro g ⟨k, v⟩ he
    have hfind : f.find k = some v := Fields.find_of_mem h.nodup he
    rcases h.fixed _ he with ⟨rfl, x, rfl⟩ | ⟨hk, s, rfl⟩
    · simp [normalizeSliceKey, Conversions.asString, hfind, inv.asDouble_double]
    · simp only [List.mem_cons, List.not_mem_nil, or_false] at hk
      rcases hk with rfl | rfl | rfl
      · simp [normalizeSliceKey, Conversions.asString, hfind]
      all_goals
        simp [normalizeSliceKey, Conversions.asString, hfind, Node.valid,
          processXxPartitionAndGetName, Node.isScalar]
  obtain ⟨s, set, hs, hset⟩ := h.cpu
  have hcpu : f.has "cpu" = true := by simp [Fields.has, hs]
  simp [normalizeSlice, hloop, hcpu, hs, Conversions.asString, hset]

theorem normalizeSlices_again {ns : List Node} (inv : y.Inverts)
    (normal : ∀ n ∈ ns, ∃ f, n = Fields.toNode f ∧ NormalSlice y maxCpus f) (wl : Single)
    (st : Defined) : normalizeSlices y maxCpus (ns.map some) wl st = .ok (ns, st) := by
  suffices h : ∀ pre, (ns.map some).foldlM (fun (r : List Node × Defined) slice => do
      let q ← normalizeSlice y maxCpus (slice.getD .null) wl r.2
      return (r.1 ++ [q.1], q.2)) (pre, st) = .ok (pre ++ ns, st) from h []
  induction ns with
  | nil => simp
  | cons n ns ih =>
    intro pre
    obtain ⟨f, rfl, hf⟩ := normal n List.mem_cons_self
    rw [List.map_cons, List.foldlM_cons, Option.getD_some, hf.normalize inv]
    refine (ih (fun n hn => normal n (List.mem_cons_of_mem _ hn)) (pre ++ [f.toNode])).trans ?_
    simp

theorem NormalWindow.normalize {f : Fields} {length : Int} (h : NormalWindow y maxCpus length f)
    (inv : y.Inverts) (st : Defined) :
    normalizeWindow y maxCpus f.toNode st = .ok (f.toNode, st) := by
  have hlength : y.asInt (f.find "length") = .ok length := by
    rw [h.find_length, inv.asInt_int h.isInt]
  have hget : f.toNode.get "length" = .ok (f.find "length") := by simp [Node.get]
  have hother : ∀ k, k ≠ "length" → k ≠ "slices" → f.has k = false := by
    intro k hl hs
    by_contra hk
    obtain ⟨v, hv⟩ := Option.isSome_iff_exists.mp (Bool.not_eq_false _ ▸ hk)
    rcases h.fixed _ (Fields.mem_of_find hv) with ⟨hkey, -⟩ | ⟨hkey, -⟩
    · exact hl hkey
    · exact hs hkey
  have hcheck : checkWindow f.toNode = .ok () := by
    simp [checkWindow, hother "sc_partition", hother "be_partition", hother "cpu",
      hother "sc_processes", hother "be_processes"]
  have hloop : f.toNode.keys.foldlM (normalizeWindowKey y maxCpus f.toNode length) ([], st) =
      .ok (f, st) := by
    refine Fields.foldlM_set (fun g => (g, st)) h.nodup ?_
    rintro g ⟨k, v⟩ he
    have hfind : f.find k = some v := Fields.find_of_mem h.nodup he
    rcases h.fixed _ he with ⟨rfl, rfl⟩ | ⟨rfl, ns, rfl, hns⟩
    · simp [normalizeWindowKey, Conversions.asString]
    · simp [normalizeWindowKey, Conversions.asString, hfind, normalizeSlices_again inv hns]
  simp only [normalizeWindow, hget, hlength, hcheck, hloop, bind_def, bind_ok, pure_def]
  rcases h.slices_or with hslices | hf
  · rw [if_pos hslices, ite_self]
  · have hsize : f.toNode.size = 1 := by simp [hf, Fields.toNode, Node.size]
    have hhas : f.toNode.has "length" = true := by simp [Fields.has, h.find_length]
    rw [if_pos ⟨hsize, hhas⟩]

theorem normalizeWindows_again {wins : List (Option Node)} {nws : List Node} (inv : y.Inverts)
    (windows : List.Forall₂ (WindowFrom y maxCpus) wins nws) (st : Defined) :
    YamlConfig.normalizeWindows y maxCpus (nws.map some) st = .ok (nws, st) := by
  suffices h : ∀ pre, (nws.map some).foldlM (fun (r : List Node × Defined) win => do
      let q ← normalizeWindow y maxCpus (← Node.valid win) r.2
      return (r.1 ++ [q.1], q.2)) (pre, st) = .ok (pre ++ nws, st) from h []
  induction windows with
  | nil => simp
  | cons hwin hrest ih =>
    intro pre
    obtain ⟨f, rfl, hf⟩ := hwin
    simp only [List.map_cons, List.foldlM_cons, Node.valid, bind_def, bind_ok, hf.normalize inv,
      pure_def]
    refine (ih (pre ++ [f.toNode])).trans ?_
    simp

variable (y) in
def BudgetsSmall (procs : List (Node × Single)) : Prop :=
  ∀ p ∈ procs, ∀ b ∈ budgetOf y p.1 p.2, b < 2 ^ 30

instance (procs : List (Node × Single)) : Decidable (BudgetsSmall y procs) :=
  inferInstanceAs (Decidable (∀ p ∈ procs, ∀ b ∈ budgetOf y p.1 p.2, b < 2 ^ 30))

theorem normalizeAll_again {procs : List (Node × Single)} {nps nps' : List Node} (inv : y.Inverts)
    (run : normalizeAll y procs = .ok nps) (d : Single) :
    normalizeAll y (nps.map (·, d)) = .ok nps' ↔ BudgetsSmall y procs ∧ nps = nps' := by
  have hall := mapM_eq_ok.mp run
  clear run
  unfold normalizeAll BudgetsSmall
  rw [mapM_eq_ok]
  induction hall generalizing nps' with
  | nil => simp [eq_comm]
  | cons hnp hrest ih =>
    obtain ⟨f, b, j, rfl, hf, -, hbudget, -⟩ := normalizeProcess_ok inv hnp
    simp only [List.map_cons, List.forall₂_cons_left_iff, hf.normalize_iff inv, ih, List.forall_mem_cons,
      hbudget, Option.mem_some_iff, forall_eq']
    constructor
    · rintro ⟨np, l, ⟨hb, rfl⟩, ⟨hsmall, rfl⟩, rfl⟩
      exact ⟨⟨hb, hsmall⟩, rfl⟩
    · rintro ⟨⟨hb, hsmall⟩, rfl⟩
      exact ⟨_, _, ⟨hb, rfl⟩, ⟨hsmall, rfl⟩, rfl⟩

theorem MadeFrom.normalize_iff {d : Definition × String} {np np' : Node} {n n' : Nat} {t : Single}
    (h : MadeFrom (y := y) d np) (inv : y.Inverts) :
    normalizePartition y np t n = .ok (np', n') ↔
      BudgetsSmall y (partitionProcesses d.1.node d.1.totalBudget) ∧ np = np' ∧ n = n' := by
  obtain ⟨procs, hprocs, rfl⟩ := h
  have hne : procs ≠ [] := by
    rintro rfl
    have hlength := normalizeAll_length hprocs
    rw [List.length_nil, List.length_eq_zero_iff] at hlength
    exact partitionProcesses_ne_nil _ _ hlength
  rw [normalizePartition_partitionNode hne, map_eq_ok]
  simp only [normalizeAll_again inv hprocs, Prod.mk.injEq]
  constructor
  · rintro ⟨_, ⟨hsmall, rfl⟩, rfl, rfl⟩
    exact ⟨hsmall, rfl, rfl⟩
  · rintro ⟨hsmall, rfl, rfl⟩
    exact ⟨procs, ⟨hsmall, rfl⟩, rfl, rfl⟩

theorem normalizePartitions_again {defs : List (Definition × String)} {nps : List Node}
    (inv : y.Inverts) (made : List.Forall₂ (MadeFrom (y := y)) defs nps) (n : Nat) {st : Defined} :
    YamlConfig.normalizePartitions y (nps.map some) n = .ok st ↔
      (∀ d ∈ defs, BudgetsSmall y (partitionProcesses d.1.node d.1.totalBudget)) ∧
        ⟨nps, n⟩ = st := by
  suffices h : ∀ pre, (nps.map some).foldlM (fun (st : Defined) part => do
      let q ← normalizePartition y (← Node.valid part) .nan st.counter
      return (⟨st.partitions ++ [q.1], q.2⟩ : Defined)) ⟨pre, n⟩ = .ok st ↔
        (∀ d ∈ defs, BudgetsSmall y (partitionProcesses d.1.node d.1.totalBudget)) ∧
          ⟨pre ++ nps, n⟩ = st from h []
  induction made with
  | nil => simp
  | cons hmade hrest ih =>
    intro pre
    rw [List.map_cons, List.foldlM_cons]
    simp only [Node.valid, bind_def, bind_ok, bind_eq_ok, pure_def, Except.ok.injEq,
      List.forall_mem_cons]
    constructor
    · rintro ⟨_, ⟨⟨np, m⟩, hnp, rfl⟩, hrun⟩
      obtain ⟨hsmall, rfl, rfl⟩ := (hmade.normalize_iff inv).mp hnp
      obtain ⟨hsmalls, rfl⟩ := (ih _).mp hrun
      exact ⟨⟨hsmall, hsmalls⟩, by simp⟩
    · rintro ⟨⟨hsmall, hsmalls⟩, rfl⟩
      exact ⟨_, ⟨_, (hmade.normalize_iff inv).mpr ⟨hsmall, rfl, rfl⟩, rfl⟩,
        (ih _).mpr ⟨hsmalls, by simp⟩⟩

variable (y) in
def YamlConfig.BudgetsFit (c : YamlConfig) : Prop :=
  ∀ d ∈ definitions y c.config, BudgetsSmall y (partitionProcesses d.node d.totalBudget)

instance (c : YamlConfig) : Decidable (c.BudgetsFit y) :=
  inferInstanceAs (Decidable (∀ d ∈ definitions y c.config,
    BudgetsSmall y (partitionProcesses d.node d.totalBudget)))

theorem normalize_normalConfig {c : YamlConfig} {setCwd : Bool} {demosCpu : String}
    {nps nws : List Node} {set : CpuSet} (inv : y.Inverts)
    (config : c.config = normalConfig (y.bool setCwd) demosCpu nps nws)
    (file : c.configFilePath.isSome = true) (regular : c.configIsRegularFile = true)
    (cpus : parseCpuSet maxCpus demosCpu ∅ = .ok set) :
    c.normalize y maxCpus = (YamlConfig.normalizePartitions y (nps.map some)
      c.anonymousPartitionCounter).bind fun defined =>
        (YamlConfig.normalizeWindows y maxCpus (nws.map some) defined).bind fun r =>
          (validateConfig y maxCpus (normalConfig (y.bool setCwd) demosCpu r.2.partitions r.1)).bind
            fun _ => .ok { c with
              config := normalConfig (y.bool setCwd) demosCpu r.2.partitions r.1,
              anonymousPartitionCounter := r.2.counter } := by
  have hmap : c.checkMap = .ok () := by
    rw [YamlConfig.checkMap, config]
    rfl
  have hcwd : c.readSetCwd y = .ok setCwd := by
    have hfind : c.config.find "set_cwd" = some (y.bool setCwd) := by simp [config, normalConfig]
    simp [YamlConfig.readSetCwd, hfind, file, inv.asBool_bool]
  have hregular : c.checkRegularFile setCwd = .ok () := by
    simp [YamlConfig.checkRegularFile, regular]
  have hremove : c.config.remove "set_cwd" = Fields.toNode [("demos_cpu", .scalar demosCpu),
      ("partitions", .sequence nps), ("windows", .sequence nws)] := by
    rw [config]
    rfl
  have hremove' : (Fields.toNode [("demos_cpu", .scalar demosCpu), ("partitions", .sequence nps),
      ("windows", .sequence nws)]).remove "demos_cpu" =
        Fields.toNode [("partitions", .sequence nps), ("windows", .sequence nws)] := rfl
  have hremove'' : (Fields.toNode [("partitions", .sequence nps), ("windows",
      .sequence nws)]).remove "partitions" = Fields.toNode [("windows", .sequence nws)] := rfl
  have hkeys : YamlConfig.checkNoKeys y
      ((Fields.toNode [("windows", .sequence nws)]).remove "windows") = .ok () := rfl
  have hdemos : YamlConfig.readDemosCpu y (Fields.toNode [("demos_cpu", .scalar demosCpu),
      ("partitions", .sequence nps), ("windows", .sequence nws)]) = .ok demosCpu := rfl
  simp only [YamlConfig.normalize, hmap, hcwd, hregular, hremove, hdemos, cpus, hremove', hremove'',
    hkeys, bind_def, bind_ok, pure_def, Fields.find_toNode, Fields.find_cons, if_true,
    Option.getD_some, Node.elements_sequence]
  rfl

/-- The normal form of a configuration from a regular file is its own normal
form, unless a budget is 2^30 or more. -/
theorem normalize_idempotent_iff (y : Conversions δ) (inv : y.Inverts) (maxCpus : Nat)
    (c c' : YamlConfig) (file : c.configFilePath.isSome = true)
    (regular : c.configIsRegularFile = true) (accepted : c.normalize y maxCpus = .ok c') :
    (∃ c'', c'.normalize y maxCpus = .ok c'' ∧ c''.config = c'.config) ↔ c.BudgetsFit y := by
  obtain ⟨setCwd, demosCpu, nps, nws, h⟩ := normalize_ok inv accepted
  obtain ⟨set, hset⟩ := h.cpus
  have hsmall : (∀ d ∈ namedDefinitions y (definitions y c.config) c.anonymousPartitionCounter,
      BudgetsSmall y (partitionProcesses d.1.node d.1.totalBudget)) ↔ c.BudgetsFit y := by
    unfold YamlConfig.BudgetsFit
    conv_rhs => rw [← map_fst_namedDefinitions (y := y) (definitions y c.config)
      c.anonymousPartitionCounter]
    rw [List.forall_mem_map]
  rw [normalize_normalConfig inv h.config (h.path ▸ file) (h.regular.trans regular) hset, ← hsmall]
  constructor
  · rintro ⟨c'', hrun, -⟩
    obtain ⟨st, hst, -⟩ := bind_eq_ok.mp hrun
    exact ((normalizePartitions_again inv h.partitions _).mp hst).1
  · intro hfit
    rw [(normalizePartitions_again inv h.partitions _).mpr ⟨hfit, rfl⟩, bind_ok,
      normalizeWindows_again inv h.windows, bind_ok, ← h.config, h.valid]
    exact ⟨_, rfl, rfl⟩

/-- `{windows: [{length: 100, sc_processes: {cmd: echo, budget: <budget>}}]}`, loaded
from a file. -/
def oneProcess (budget : String) : YamlConfig :=
  ⟨.map [(.scalar "windows", .seq [.map [(.scalar "length", .scalar "100"),
    (.scalar "sc_processes", .map [(.scalar "cmd", .scalar "echo"),
      (.scalar "budget", .scalar budget)])]])], true, some "demos.yaml", 0⟩

theorem normalize_idempotent_oneProcess :
    ∃ c', (oneProcess "60").normalize Conversions.decimal 64 = .ok c' ∧
      ∃ c'', c'.normalize Conversions.decimal 64 = .ok c'' ∧ c''.config = c'.config := by
  have haccepted : ((oneProcess "60").normalize Conversions.decimal 64).toOption.isSome = true := by
    decide
  obtain ⟨c', hc'⟩ := Option.isSome_iff_exists.mp haccepted
  rw [toOption_eq_some] at hc'
  exact ⟨c', hc', (normalize_idempotent_iff Conversions.decimal Conversions.decimal_inverts 64
    (oneProcess "60") c' rfl rfl hc').mpr (by decide)⟩

/-- The jitter of the normal form is 0, which `2 * budget` is below. -/
theorem normalize_idempotent_overflow :
    ∃ c', (oneProcess "1073741824").normalize Conversions.decimal 64 = .ok c' ∧
      ¬ ∃ c'', c'.normalize Conversions.decimal 64 = .ok c'' ∧ c''.config = c'.config := by
  have haccepted : ((oneProcess "1073741824").normalize
      Conversions.decimal 64).toOption.isSome = true := by decide
  have hrejected : (((oneProcess "1073741824").normalize Conversions.decimal 64).bind
      (·.normalize Conversions.decimal 64)).toOption = none := by decide
  obtain ⟨c', hc'⟩ := Option.isSome_iff_exists.mp haccepted
  rw [toOption_eq_some] at hc'
  refine ⟨c', hc', ?_⟩
  rintro ⟨c'', hc'', -⟩
  rw [hc', bind_ok, hc''] at hrejected
  cases hrejected

end DemosSched
