import DemosSched.NormalForm

/-! The four ways to give a slice a single process. Three of them hand the process
definition over as it is; in place of a partition it is copied key by key, and
the keys that are expected there are listed once more. -/

namespace DemosSched

open Yaml Fallible

variable {δ : Type} {y : Conversions δ}

/-- Mappings with the same values; the order of the keys does not count. -/
def SameEntries (m n : Node) : Prop := ∀ k, m.find k = n.find k

def definedProcesses (defined : Defined) : List Node :=
  (defined.partitions.getLast?.map (itemsAt · "processes")).getD []

def SameOutcome : Except Failure (String × Defined) → Except Failure (String × Defined) → Prop :=
  Alike fun r₁ r₂ => List.Forall₂ SameEntries (definedProcesses r₁.2) (definedProcesses r₂.2)

theorem sameOutcome_refl (r : Except Failure (String × Defined)) : SameOutcome r r := by
  refine Alike.refl (fun a => ?_) r
  exact List.forall₂_same.mpr fun _ _ _ => rfl

variable (y) in
/-- `xx_partition: p`, `xx_partition: [p]`, `xx_processes: p` and `xx_processes: [p]`
have the same outcome, after any partitions and for every total budget. -/
def SpellingsAgree (p : Node) : Prop :=
  ∀ t : Single, t.IsFloat → ∀ st : Defined,
    SameOutcome (processXxPartitionAndGetName y p t st)
        (processXxPartitionAndGetName y (.seq [p]) t st) ∧
      SameOutcome (processXxProcessesAndGetName y p t st)
        (processXxPartitionAndGetName y (.seq [p]) t st) ∧
      SameOutcome (processXxProcessesAndGetName y (.seq [p]) t st)
        (processXxPartitionAndGetName y (.seq [p]) t st)

def SameFields (f g : Fields) : Prop := ∀ k, f.find k = g.find k

theorem SameFields.has {f g : Fields} (h : SameFields f g) (k : String) : f.has k = g.has k := by
  rw [Fields.has, Fields.has, h k]

theorem SameFields.set {f g : Fields} (h : SameFields f g) (k : String) (v : Node) :
    SameFields (f.set k v) (g.set k v) := by
  intro l
  rw [Fields.find_set, Fields.find_set, h l]

theorem SameFields.setDefaultBudget {f g : Fields} (h : SameFields f g) (t : Single) :
    Alike SameFields (setDefaultBudget y t f) (setDefaultBudget y t g) := by
  unfold DemosSched.setDefaultBudget
  rw [h.has]
  split
  case isTrue => exact h
  case isFalse =>
    split
    case isTrue => trivial
    case isFalse => exact h.set _ _

theorem SameFields.checkJitter {f g : Fields} (h : SameFields f g) (budget : Int) :
    Alike SameFields (checkJitter y budget f) (checkJitter y budget g) := by
  unfold DemosSched.checkJitter
  rw [h.has, h "jitter"]
  split
  case isFalse => exact h.set _ _
  case isTrue =>
    cases y.asInt (g.find "jitter") with
    | error => trivial
    | ok jitter =>
      simp only [bind_def, bind_ok]
      split
      case isTrue => trivial
      case isFalse =>
        split
        case isTrue => trivial
        case isFalse => exact h

theorem SameFields.setDefaultInit {f g : Fields} (h : SameFields f g) :
    SameFields (setDefaultInit y f) (setDefaultInit y g) := by
  unfold DemosSched.setDefaultInit
  rw [h.has]
  split
  case isTrue => exact h
  case isFalse => exact h.set _ _

variable (y) in
def finishProcess (t : Single) (f : Fields) : Except Failure Fields := do
  let f ← setDefaultBudget y t f
  let budget ← checkBudget y f
  let f ← checkJitter y budget f
  return setDefaultInit y f

theorem normalizeProcess_eq {proc : Node} {f : Fields} (read : readProcess y proc = .ok f)
    (t : Single) : normalizeProcess y proc t = (finishProcess y t f).map Fields.toNode := by
  rw [normalizeProcess, read, bind_def, bind_ok, finishProcess]
  cases setDefaultBudget y t f with
  | error => rfl
  | ok f =>
    simp only [bind_def, bind_ok]
    cases checkBudget y f with
    | error => rfl
    | ok budget =>
      simp only [bind_ok]
      cases checkJitter y budget f <;> rfl

theorem SameFields.finish {f g : Fields} (h : SameFields f g) (t : Single) :
    Alike SameFields (finishProcess y t f) (finishProcess y t g) := by
  refine (h.setDefaultBudget t).bind fun f₁ g₁ h₁ => ?_
  have hbudget : Alike Eq (checkBudget y f₁) (checkBudget y g₁) := by
    rw [checkBudget, checkBudget, h₁ "budget"]
    exact .refl (fun _ => rfl) _
  refine hbudget.bind ?_
  rintro budget _ rfl
  exact (h₁.checkJitter budget).bind fun f₂ g₂ h₂ => h₂.setDefaultInit

theorem readProcess_find {proc : Node} {f : Fields} (notScalar : proc.isScalar = false)
    (run : readProcess y proc = .ok f) (k : String) :
    f.find k = (proc.find k).bind fun v => (processField y k (some v)).toOption := by
  rw [readProcess, if_neg (by simp [notScalar]), normalizeProcessKey_eq] at run
  obtain ⟨-, hread, hhas⟩ :=
    Fields.foldlM_read (fun k => processField y k (proc.find k)) run
  cases hv : f.find k with
  | some w =>
    have hw := hread _ (Fields.mem_of_find hv)
    obtain ⟨v, hfind⟩ := Option.isSome_iff_exists.mp (processField_defined hw)
    rw [hfind] at hw
    simp [hfind, hw, Except.toOption]
  | none =>
    cases hfind : proc.find k with
    | none => rfl
    | some v =>
      have hgiven : f.has k = true :=
        (hhas k).mpr ⟨_, keys_of_has (show proc.has k = true by simp [Node.has, hfind]), rfl⟩
      simp [Fields.has, hv] at hgiven

theorem readProcess_keys {proc : Node} {f : Fields} (notScalar : proc.isScalar = false)
    (run : readProcess y proc = .ok f) :
    ∀ key ∈ proc.keys, ∃ k w, y.asString key = .ok k ∧ processField y k (proc.find k) = .ok w := by
  rw [readProcess, if_neg (by simp [notScalar]), normalizeProcessKey_eq] at run
  refine foldlM_induct (fun pre (_ : Fields) => ∀ key ∈ pre, ∃ k w, y.asString key = .ok k ∧
    processField y k (proc.find k) = .ok w) ?_ (by simp) run
  intro pre key post f f' _ ih hstep
  simp only [bind_def, bind_eq_ok] at hstep
  obtain ⟨k, hk, w, hw, -⟩ := hstep
  intro key' hkey'
  rcases List.mem_append.mp hkey' with hpre | hlast
  · exact ih key' hpre
  · rw [List.mem_singleton.mp hlast]
    exact ⟨k, w, hk, hw⟩

theorem readProcess_total {proc : Node} (notScalar : proc.isScalar = false)
    (keys : ∀ key ∈ proc.keys, ∃ k w, y.asString key = .ok k ∧
      processField y k (proc.find k) = .ok w) : ∃ f, readProcess y proc = .ok f := by
  rw [readProcess, if_neg (by simp [notScalar]), normalizeProcessKey_eq]
  have htotal := foldlM_total (f := fun (f : Fields) key => do
    let k ← y.asString key
    return f.set k (← processField y k (proc.find k))) (l := proc.keys) (s := []) (fun _ _ => True)
    (fun pre key post f hkeys _ => by
      obtain ⟨k, w, hk, hw⟩ := keys key (by simp [hkeys])
      exact ⟨f.set k w, by simp [hk, hw], trivial⟩) trivial
  obtain ⟨f, hf, -⟩ := htotal
  exact ⟨f, hf⟩

theorem processField_key {k : String} {v : Option Node} {w : Node}
    (h : processField y k v = .ok w) : k ∈ ["cmd", "budget", "jitter", "init", "frequency"] := by
  unfold processField at h
  by_contra hk
  simp only [List.mem_cons, List.not_mem_nil, or_false, not_or] at hk
  simp [hk] at h

theorem find_ownProcess {p : Node} {k : String} :
    (ownProcess p).find k =
      if k ∈ ["cmd", "budget", "jitter", "init", "_a53_freq", "_a72_freq"] then p.find k
      else none := by
  rw [ownProcess, Fields.find_toNode, Fields.find_copy]

theorem ownProcess_same {p : Node} {f : Fields} (notScalar : p.isScalar = false)
    (run : readProcess y p = .ok f) (noFrequency : p.has "frequency" = false) :
    SameEntries (ownProcess p) p := by
  intro k
  rw [find_ownProcess]
  split
  case isTrue => rfl
  case isFalse hk =>
    cases hv : p.find k with
    | none => rfl
    | some v =>
      have hkey := keys_of_has (show p.has k = true by simp [Node.has, hv])
      obtain ⟨l, w, hl, hw⟩ := readProcess_keys notScalar run _ hkey
      obtain rfl := Except.ok.inj hl
      have hmem := processField_key hw
      simp only [List.mem_cons, List.not_mem_nil, or_false, not_or] at hk hmem
      have hfreq : k = "frequency" := by tauto
      rw [hfreq] at hv
      simp [Node.has, hv] at noFrequency

theorem readProcess_ownProcess {p : Node} {f : Fields} (notScalar : p.isScalar = false)
    (run : readProcess y p = .ok f) (noFrequency : p.has "frequency" = false) :
    ∃ g, readProcess y (ownProcess p) = .ok g ∧ SameFields g f := by
  have hsame := ownProcess_same notScalar run noFrequency
  have hcopy : (ownProcess p).isScalar = false := Fields.isScalar_toNode
  obtain ⟨g, hg⟩ := readProcess_total (y := y) hcopy fun key hkey => by
    rw [ownProcess, Fields.keys_toNode] at hkey
    obtain ⟨k, hk, rfl⟩ := List.mem_map.mp hkey
    have hhas : p.has k = true := by
      rw [Node.has, ← hsame k, ownProcess, Fields.find_toNode]
      exact Fields.has_iff_mem_keys.mpr hk
    obtain ⟨l, w, hl, hw⟩ := readProcess_keys notScalar run _ (keys_of_has hhas)
    obtain rfl := Except.ok.inj hl
    exact ⟨k, w, rfl, by rwa [hsame k]⟩
  refine ⟨g, hg, fun k => ?_⟩
  rw [readProcess_find hcopy hg, readProcess_find notScalar run, hsame k]

def singleProcess (st : Defined) (np : Node) : String × Defined :=
  ("anonymous_" ++ toString st.counter,
    ⟨st.partitions ++ [partitionNode ("anonymous_" ++ toString st.counter) [np]], st.counter + 1⟩)

theorem definedProcesses_singleProcess (st : Defined) (np : Node) :
    definedProcesses (singleProcess st np).2 = [np] := by
  simp [definedProcesses, singleProcess, partitionNode, itemsAt]

theorem definePartition_listed {part : Node} {t : Single} {x : Except Failure Node}
    (read : readPartition y part t = x.map fun np => ([], Node.sequence [np])) (st : Defined) :
    definePartition y part t st = x.map (singleProcess st) := by
  rw [definePartition, normalizePartition, read]
  cases x <;> rfl

theorem definePartition_own {part : Node} {t : Single} (notScalar : part.isScalar = false)
    (read : readPartition y part t = .ok ([], .null)) (st : Defined) :
    definePartition y part t st =
      (normalizeProcess y (ownProcess part) t).map (singleProcess st) := by
  have hcopy := copyKeys_eq (f := []) notScalar
    ["cmd", "budget", "jitter", "init", "_a53_freq", "_a72_freq"] (by decide) (by simp [Fields.keys])
  rw [List.nil_append] at hcopy
  rw [definePartition, normalizePartition, read]
  simp only [bind_def, bind_ok, inlineProcess, Node.isNull, if_true, hcopy]
  rw [ownProcess]
  cases normalizeProcess y _ t <;> rfl

theorem listForms_eq {p : Node} (mapping : p.isMap = true) {t : Single} (float : t.IsFloat)
    (st : Defined) :
    processXxPartitionAndGetName y (.seq [p]) t st =
        (normalizeProcess y p t).map (singleProcess st) ∧
      processXxProcessesAndGetName y p t st =
        (normalizeProcess y p t).map (singleProcess st) ∧
      processXxProcessesAndGetName y (.seq [p]) t st =
        (normalizeProcess y p t).map (singleProcess st) := by
  have hlist : normalizeProcesses y (.seq [p]) t =
      (normalizeProcess y p t).map fun np => Node.sequence [np] := by
    have hdiv : t.div (.ofInt ((Node.seq [p]).size : Int)) = t := Single.div_ofInt_one float
    simp only [normalizeProcesses, hdiv, List.mapM_cons, List.mapM_nil]
    cases normalizeProcess y p t <;> rfl
  have hsingle : normalizeProcesses y p t =
      (normalizeProcess y p t).map fun np => Node.sequence [np] := by
    cases p with
    | map entries =>
      simp only [normalizeProcesses]
      cases normalizeProcess y _ t <;> rfl
    | null | scalar | seq => cases mapping
  have hprocesses : ∀ v : Node, normalizeProcesses y v t =
      ((normalizeProcess y p t).map fun np => Node.sequence [np]) →
      processXxProcessesAndGetName y v t st = (normalizeProcess y p t).map (singleProcess st) := by
    intro v hv
    refine definePartition_listed ?_ st
    have hnode : Fields.toNode [("processes", v)] = .map [(.scalar "processes", v)] := rfl
    simp only [hnode, readPartition, Node.keys, List.map_cons, List.map_nil, List.foldlM_cons,
      List.foldlM_nil, normalizePartitionKey, Conversions.asString, bind_def, bind_ok,
      Node.find, List.find?_cons, Node.isKey, decide_true, Option.map_some, Node.valid, hv,
      String.reduceEq, if_false, if_true]
    cases normalizeProcess y p t <;> rfl
  refine ⟨?_, hprocesses p hsingle, hprocesses (.seq [p]) hlist⟩
  refine definePartition_listed (y := y) ?_ st
  rw [readPartition, hlist]
  cases normalizeProcess y p t <;> rfl

theorem readPartition_process {p : Node} {f : Fields} {t : Single} (mapping : p.isMap = true)
    (run : readProcess y p = .ok f) (noFrequency : p.has "frequency" = false) :
    readPartition y p t = .ok ([], .null) := by
  match p with
  | .map entries =>
    have hkeys := readProcess_keys (y := y) rfl run
    have hstep : ∀ key ∈ (Node.map entries).keys,
        normalizePartitionKey y (.map entries) t ([], .null) key = .ok ([], .null) := by
      intro key hkey
      obtain ⟨k, w, hk, hw⟩ := hkeys key hkey
      have hmem := processField_key hw
      have hne : k ≠ "frequency" := by
        rintro rfl
        obtain ⟨v, hv⟩ := Option.isSome_iff_exists.mp (processField_defined hw)
        simp [Node.has, hv] at noFrequency
      simp only [List.mem_cons, List.not_mem_nil, or_false, hne] at hmem
      rcases hmem with rfl | rfl | rfl | rfl <;> simp [normalizePartitionKey, hk]
    exact foldlM_fixed hstep
  | .null | .scalar _ | .seq _ => cases mapping

theorem readPartition_frequency {p : Node} {t : Single} (mapping : p.isMap = true)
    (frequency : p.has "frequency" = true) : ∃ e, readPartition y p t = .error e := by
  match p with
  | .map entries =>
    cases hread : readPartition y (.map entries) t with
    | error e => exact ⟨e, rfl⟩
    | ok r =>
      have hno : some (.scalar "frequency") ∉ (Node.map entries).keys := by
        refine foldlM_induct (fun pre _ => some (.scalar "frequency") ∉ pre) ?_ (by simp) hread
        intro pre key post st st' _ ih hstep hmem
        rcases List.mem_append.mp hmem with hpre | hlast
        · exact ih hpre
        · rw [← List.mem_singleton.mp hlast] at hstep
          simp [normalizePartitionKey, Conversions.asString] at hstep
      exact absurd (keys_of_has frequency) hno
  | .null | .scalar _ | .seq _ => cases mapping

/-- The spellings agree exactly on the processes without a frequency. -/
theorem spellings_agree_iff (y : Conversions δ) (p : Node) (mapping : p.isMap = true)
    (accepted : ∃ d np, Single.IsFloat d ∧ normalizeProcess y p d = .ok np) :
    SpellingsAgree y p ↔ p.has "frequency" = false := by
  obtain ⟨d, np, hfloat, haccepted⟩ := accepted
  have hscalar : p.isScalar = false := by
    cases p <;> first | rfl | cases mapping
  constructor
  · intro hagree
    by_contra hfreq
    rw [Bool.not_eq_false] at hfreq
    obtain ⟨hown, -⟩ := hagree d hfloat ⟨[], 0⟩
    obtain ⟨e, he⟩ := readPartition_frequency (y := y) (t := d) mapping hfreq
    rw [(listForms_eq mapping hfloat _).1, haccepted, processXxPartitionAndGetName,
      if_neg (by simp [hscalar]), definePartition, normalizePartition, he] at hown
    exact hown
  · intro hfreq t ht st
    obtain ⟨hseq, hproc, hprocs⟩ := listForms_eq (y := y) mapping ht st
    rw [hseq, hproc, hprocs]
    refine ⟨?_, sameOutcome_refl _, sameOutcome_refl _⟩
    simp only [normalizeProcess, bind_def, bind_eq_ok] at haccepted
    obtain ⟨f, hread, -⟩ := haccepted
    obtain ⟨g, hcopy, hsame⟩ := readProcess_ownProcess hscalar hread hfreq
    rw [processXxPartitionAndGetName, if_neg (by simp [hscalar]),
      definePartition_own hscalar (readPartition_process mapping hread hfreq),
      normalizeProcess_eq hcopy, normalizeProcess_eq hread]
    refine ((hsame.finish t).map (S := SameEntries) fun f g h k => ?_).map fun m n h => ?_
    · rw [Fields.find_toNode, Fields.find_toNode, h k]
    · rw [definedProcesses_singleProcess, definedProcesses_singleProcess]
      exact .cons h .nil

theorem spellings_agree_echo :
    SpellingsAgree Conversions.decimal
      (.map [(.scalar "cmd", .scalar "echo"), (.scalar "jitter", .scalar "10")]) := by
  refine (spellings_agree_iff Conversions.decimal _ rfl ?_).mpr (by decide)
  have haccepted : (normalizeProcess Conversions.decimal (.map [(.scalar "cmd", .scalar "echo"),
      (.scalar "jitter", .scalar "10")]) ((Single.ofInt 100).mul beShare)).toOption.isSome = true := by
    decide +kernel
  obtain ⟨np, hnp⟩ := Option.isSome_iff_exists.mp haccepted
  exact ⟨_, np, Single.isFloat_mul _ _, toOption_eq_some.mp hnp⟩

/-- `{cmd: echo, budget: 60, frequency: 1000}` -/
def frequencyProcess : Node :=
  .map [(.scalar "cmd", .scalar "echo"), (.scalar "budget", .scalar "60"),
    (.scalar "frequency", .scalar "1000")]

/-- As a list it is accepted, in place of the partition it is not. -/
theorem spellings_agree_frequency :
    (processXxPartitionAndGetName Conversions.decimal (.seq [frequencyProcess]) .nan
        ⟨[], 0⟩).toOption.isSome = true ∧
      processXxPartitionAndGetName Conversions.decimal frequencyProcess .nan ⟨[], 0⟩ =
        .error (.runtimeError "Unexpected config key: frequency") ∧
      ¬ SpellingsAgree Conversions.decimal frequencyProcess := by
  have hlist : (processXxPartitionAndGetName Conversions.decimal (.seq [frequencyProcess]) .nan
      ⟨[], 0⟩).toOption.isSome = true := by decide
  have hown : processXxPartitionAndGetName Conversions.decimal frequencyProcess .nan ⟨[], 0⟩ =
      .error (.runtimeError "Unexpected config key: frequency") := by rfl
  refine ⟨hlist, hown, fun hagree => ?_⟩
  obtain ⟨r, hr⟩ := Option.isSome_iff_exists.mp hlist
  obtain ⟨hfirst, -⟩ := hagree .nan Single.isFloat_nan ⟨[], 0⟩
  rw [hown, toOption_eq_some.mp hr] at hfirst
  exact hfirst

end DemosSched
