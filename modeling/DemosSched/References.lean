import DemosSched.Executable
import DemosSched.General.Naming

/-! The names of the partitions and what the references of the slices resolve to.
The lookup takes the first partition of a name, so a name that is used twice
leads a slice to the wrong one. -/

namespace DemosSched

open Yaml Fallible

variable {δ : Type} (y : Conversions δ) {maxCpus : Nat}

def anonymousName (counter : Nat) : String := "anonymous_" ++ toString counter

def partitionName (part : Node) : String := (y.asString (part.find "name")).toOption.getD ""

def partitionNames (config : Node) : List String :=
  (itemsAt config "partitions").map (partitionName y)

def givenNames (c : YamlConfig) : List (Option String) :=
  (definitions y c.config).map fun d => givenName y d.node

/-- No name is given twice, and none is one that is generated. -/
def YamlConfig.NamesDistinct (c : YamlConfig) : Prop :=
  (givenNames y c).reduceOption.Nodup ∧
    ∀ n, c.anonymousPartitionCounter ≤ n →
      n < c.anonymousPartitionCounter + Naming.unnamed (givenNames y c) →
        anonymousName n ∉ (givenNames y c).reduceOption

/-- The partition that slice and phase of a use define in place keeps its name there:
a later use for them, if any, is by that name. -/
def YamlConfig.Kept (c : YamlConfig) : Prop :=
  ∀ pre u post d, uses y c.config = pre ++ u :: post → u.reference = .inline d →
    ∀ v ∈ (post.filter fun v => v.role = u.role).getLast?, v.reference =
      .name (nameOf (givenName y d.node) (countersAfter y pre (counterAtWindows y c)))

variable {y}

theorem anonymousName_injective : Function.Injective anonymousName := by
  intro m n h
  have hlist := congrArg String.toList h
  simp only [anonymousName, String.toList_append, List.append_cancel_left_eq] at hlist
  have hdigits : Nat.toDigits 10 m = Nat.toDigits 10 n := by
    simpa [toString] using hlist
  rw [← Nat.ofDigitChars_ten_toDigits (n := m), hdigits, Nat.ofDigitChars_ten_toDigits]

theorem map_snd_namedDefinitions (ds : List Definition) (n : Nat) :
    (namedDefinitions y ds n).map Prod.snd =
      Naming.names anonymousName (ds.map fun d => givenName y d.node) n := by
  induction ds generalizing n with
  | nil => rfl
  | cons d ds ih =>
    cases hd : givenName y d.node with
    | none => simp [namedDefinitions, Naming.names, hd, ih, nameOf, counterAfter, anonymousName]
    | some s => simp [namedDefinitions, Naming.names, hd, ih, nameOf, counterAfter]

theorem names_of_partitions {defs : List (Definition × String)} {nps : List Node}
    (made : List.Forall₂ (MadeFrom (y := y)) defs nps) :
    nps.map (partitionName y) = defs.map Prod.snd := by
  induction made with
  | nil => rfl
  | cons hmade hrest ih =>
    obtain ⟨procs, -, rfl⟩ := hmade
    rw [List.map_cons, List.map_cons, ih, partitionName, asString_partitionNode]
    rfl

theorem findPartition_iff {partitions : List PartitionObject} {name : String} {k : Nat}
    (nodup : (partitions.map (·.name)).Nodup) :
    findPartition name partitions = .ok k ↔ (partitions.map (·.name))[k]? = some name := by
  have hfind : findPartition name partitions = .ok k ↔
      partitions.findIdx? (·.name = name) = some k := by
    unfold findPartition
    cases partitions.findIdx? (·.name = name) <;> simp
  rw [hfind, List.findIdx?_eq_some_iff_getElem]
  constructor
  · rintro ⟨hk, hname, -⟩
    simpa [List.getElem?_eq_getElem hk] using hname
  · intro hname
    obtain ⟨hk, heq⟩ := List.getElem?_eq_some_iff.mp hname
    rw [List.length_map] at hk
    rw [List.getElem_map] at heq
    refine ⟨hk, by simpa using heq, ?_⟩
    intro j hj
    have hjlt : j < (partitions.map (·.name)).length := by
      rw [List.length_map]
      omega
    have hne := (List.nodup_iff_injective_get.mp nodup).ne
      (show (⟨j, hjlt⟩ : Fin _) ≠ ⟨k, by rwa [List.length_map]⟩ by simp; omega)
    simpa [heq] using hne

variable (y) in
/-- The name that is stored for a role leads to the partition at position `k`, and
that one is built from the definition. -/
def ResolvesTo (config : Node) (role : SliceId × Bool) (k : Nat) (d : Definition) : Prop :=
  ∃ name procs,
    storedNode (itemsAt config "windows") role = some (.scalar name) ∧
    (∀ partitions : List PartitionObject, partitions.map (·.name) = partitionNames y config →
      findPartition name partitions = .ok k) ∧
    normalizeAll y (partitionProcesses d.node d.totalBudget) = .ok procs ∧
    (itemsAt config "partitions")[k]? = some (partitionNode name procs) ∧
    ∀ toHz partitions, createPartitions y toHz config = .ok partitions →
      ∃ part, createPartition y toHz (partitionNode name procs) = .ok part ∧
        partitions[k]? = some part

variable (y) in
/-- The names are distinct, and each slice uses what it was given in place. -/
def ReferencesResolve (c c' : YamlConfig) : Prop :=
  (partitionNames y c'.config).Nodup ∧
    ∀ pre u post d, uses y c.config = pre ++ u :: post → u.reference = .inline d →
      ResolvesTo y c'.config u.role
        ((listedPartitions c.config).length + (definitionsOf pre).length) d

theorem createPartitions_get {toHz : δ → Nat} {config : Node} {partitions : List PartitionObject}
    (run : createPartitions y toHz config = .ok partitions) {k : Nat} {np : Node}
    (at_k : (itemsAt config "partitions")[k]? = some np) :
    ∃ part, createPartition y toHz np = .ok part ∧ partitions[k]? = some part := by
  obtain ⟨hlength, hget⟩ := List.forall₂_iff_get.mp (mapM_eq_ok.mp run)
  obtain ⟨hk, rfl⟩ := List.getElem?_eq_some_iff.mp at_k
  have hk' := hlength ▸ hk
  exact ⟨partitions[k], hget k hk hk', List.getElem?_eq_getElem hk'⟩

theorem namedDefinitions_length (ds : List Definition) (n : Nat) :
    (namedDefinitions y ds n).length = ds.length := by
  rw [← List.length_map (f := Prod.fst), map_fst_namedDefinitions]

theorem counterAfterAll_definitionsOf (us : List Use) (n : Nat) :
    counterAfterAll y (definitionsOf us) n = countersAfter y us n := by
  induction us generalizing n with
  | nil => rfl
  | cons u us ih =>
    have hafter : countersAfter y (u :: us) n = countersAfter y us (counterAfterUse y u n) := rfl
    rw [hafter, ← ih]
    cases hu : u.reference with
    | name s => simp [definitionsOf, counterAfterUse, hu, Reference.definition?]
    | inline d =>
      simp [definitionsOf, counterAfterUse, hu, Reference.definition?, counterAfterAll]

theorem namedDefinitions_use {c : YamlConfig} {pre post : List Use} {u : Use} {d : Definition}
    (split : uses y c.config = pre ++ u :: post) (inline : u.reference = .inline d) :
    (namedDefinitions y (definitions y c.config) c.anonymousPartitionCounter)[
      (listedPartitions c.config).length + (definitionsOf pre).length]? =
        some (d, nameOf (givenName y d.node) (countersAfter y pre (counterAtWindows y c))) := by
  have hdefs : definitionsOf (uses y c.config) = definitionsOf pre ++ d :: definitionsOf post := by
    rw [split, definitionsOf_append]
    simp [definitionsOf, inline, Reference.definition?]
  rw [definitions, hdefs, namedDefinitions_append, namedDefinitions_append,
    ← namedDefinitions_length (y := y) (listedPartitions c.config) c.anonymousPartitionCounter,
    List.getElem?_append_right (Nat.le_add_right _ _), Nat.add_sub_cancel_left,
    ← namedDefinitions_length (y := y) (definitionsOf pre)
      (counterAfterAll y (listedPartitions c.config) c.anonymousPartitionCounter),
    List.getElem?_append_right (Nat.le_refl _), Nat.sub_self, counterAfterAll_definitionsOf]
  rfl

theorem storedName_last (us : List Use) (n : Nat) (role : SliceId × Bool) :
    match (us.filter fun v => v.role = role).getLast? with
    | none => storedName (namedUses y us n) role = none
    | some v => ∃ pre post, us = pre ++ v :: post ∧
        storedName (namedUses y us n) role = some (useName y v (countersAfter y pre n)) := by
  induction us using List.reverseRecOn with
  | nil => rfl
  | append_singleton us u ih =>
    have hnamed : namedUses y (us ++ [u]) n =
        namedUses y us n ++ [(u, useName y u (countersAfter y us n))] := namedUses_append us [u] n
    rw [hnamed, storedName_append, List.filter_append]
    by_cases hu : u.role = role
    · have hfilter : [u].filter (fun v => v.role = role) = [u] := by simp [hu]
      rw [hfilter, List.getLast?_concat]
      exact ⟨us, [], rfl, by simp [storedName, hu]⟩
    · have hfilter : [u].filter (fun v => v.role = role) = [] := by simp [hu]
      have hnone : storedName [(u, useName y u (countersAfter y us n))] role = none := by
        simp [storedName, hu]
      rw [hfilter, List.append_nil, hnone, Option.none_or]
      cases hlast : (us.filter fun v => v.role = role).getLast? with
      | none => rwa [hlast] at ih
      | some v =>
        rw [hlast] at ih
        obtain ⟨pre, post, hus, hstored⟩ := ih
        exact ⟨pre, post ++ [u], by simp [hus], hstored⟩

theorem countersAfter_append (us vs : List Use) (n : Nat) :
    countersAfter y (us ++ vs) n = countersAfter y vs (countersAfter y us n) :=
  List.foldl_append

theorem definitionsOf_length_lt (pre mid : List Use) {u : Use} {d : Definition}
    (inline : u.reference = .inline d) :
    (definitionsOf pre).length < (definitionsOf (pre ++ u :: mid)).length := by
  rw [definitionsOf_append]
  simp [definitionsOf, inline, Reference.definition?]

theorem Accepted.stored_own_iff {c c' : YamlConfig} {setCwd : Bool} {demosCpu : String}
    {nps nws : List Node} (h : Accepted y maxCpus c c' setCwd demosCpu nps nws)
    (nodup : ((namedDefinitions y (definitions y c.config)
      c.anonymousPartitionCounter).map Prod.snd).Nodup)
    {pre post : List Use} {u : Use} {d : Definition}
    (split : uses y c.config = pre ++ u :: post) (inline : u.reference = .inline d) :
    storedNode nws u.role = some (.scalar
        (nameOf (givenName y d.node) (countersAfter y pre (counterAtWindows y c)))) ↔
      ∀ v ∈ (post.filter fun v => v.role = u.role).getLast?, v.reference =
        .name (nameOf (givenName y d.node) (countersAfter y pre (counterAtWindows y c))) := by
  have hown := namedDefinitions_use split inline
  generalize hname : nameOf (givenName y d.node)
    (countersAfter y pre (counterAtWindows y c)) = own at hown ⊢
  have hu : useName y u (countersAfter y pre (counterAtWindows y c)) = own := by
    simp [useName, inline, hname]
  have hbefore : storedName (namedUses y (pre ++ [u]) (counterAtWindows y c)) u.role = some own := by
    rw [namedUses_append, storedName_append]
    simp [namedUses, storedName, hu]
  have hafter := storedName_last (y := y) post
    (countersAfter y (pre ++ [u]) (counterAtWindows y c)) u.role
  have hsplit : uses y c.config = (pre ++ [u]) ++ post := by simp [split]
  rw [h.stored, hsplit, namedUses_append, storedName_append, hbefore]
  cases hfilter : (post.filter fun v => v.role = u.role).getLast? with
  | none =>
    rw [hfilter] at hafter
    simp [hafter]
  | some v =>
    rw [hfilter] at hafter
    obtain ⟨mid, rest, rfl, hstored⟩ := hafter
    rw [hstored]
    simp only [Option.some_or, Option.map_some, Option.some.injEq, Node.scalar.injEq,
      Option.mem_some_iff, forall_eq']
    cases hv : v.reference with
    | name s => simp [useName, hv]
    | inline e =>
      simp only [useName, hv, reduceCtorEq, iff_false]
      intro heq
      have hsplit' : uses y c.config = (pre ++ u :: mid) ++ v :: rest := by simp [split]
      have hother := namedDefinitions_use hsplit' hv
      have hcounter : countersAfter y (pre ++ u :: mid) (counterAtWindows y c) =
          countersAfter y mid (countersAfter y (pre ++ [u]) (counterAtWindows y c)) := by
        rw [← countersAfter_append]
        simp
      rw [hcounter, heq] at hother
      have hlt := definitionsOf_length_lt pre mid inline
      have hbound := (List.getElem?_eq_some_iff.mp hown).1
      have hsame : (listedPartitions c.config).length + (definitionsOf pre).length =
          (listedPartitions c.config).length + (definitionsOf (pre ++ u :: mid)).length :=
        (List.getElem?_inj (by rwa [List.length_map]) nodup).mp
          (by rw [List.getElem?_map, List.getElem?_map, hown, hother]; rfl)
      omega

theorem Accepted.partitionNames_eq {c c' : YamlConfig} {setCwd : Bool} {demosCpu : String}
    {nps nws : List Node} (h : Accepted y maxCpus c c' setCwd demosCpu nps nws) :
    partitionNames y c'.config = (namedDefinitions y (definitions y c.config)
      c.anonymousPartitionCounter).map Prod.snd := by
  rw [partitionNames, h.config, (itemsAt_normalConfig _ _ nps nws).1,
    names_of_partitions h.partitions]

/-- The partition names are distinct and every reference leads to the definition it
was made from exactly if no name is used twice and no definition is replaced. -/
theorem references_resolve_iff (y : Conversions δ) (inv : y.Inverts) (maxCpus : Nat)
    (c c' : YamlConfig) (accepted : c.normalize y maxCpus = .ok c') :
    ReferencesResolve y c c' ↔ c.NamesDistinct y ∧ c.Kept y := by
  obtain ⟨setCwd, demosCpu, nps, nws, h⟩ := normalize_ok inv accepted
  obtain ⟨hparts, hwins⟩ := itemsAt_normalConfig (y.bool setCwd) demosCpu nps nws
  rw [← h.config] at hparts hwins
  have hdistinct : (partitionNames y c'.config).Nodup ↔ c.NamesDistinct y := by
    rw [h.partitionNames_eq, map_snd_namedDefinitions,
      Naming.nodup_names_iff anonymousName_injective]
    rfl
  unfold ReferencesResolve
  rw [hdistinct]
  refine and_congr_right fun hnames => ?_
  have hnodup := hdistinct.mpr hnames
  have hnodup' := hnodup
  rw [h.partitionNames_eq] at hnodup'
  have hfind : ∀ (partitions : List PartitionObject) name k,
      partitions.map (·.name) = partitionNames y c'.config →
        (findPartition name partitions = .ok k ↔ (partitionNames y c'.config)[k]? = some name) := by
    intro partitions name k hpartitions
    rw [findPartition_iff (hpartitions ▸ hnodup), hpartitions]
  constructor
  · intro hresolve pre u post d split inline
    have hown := namedDefinitions_use split inline
    have hobjects : ((partitionNames y c'.config).map fun name =>
        (⟨name, []⟩ : PartitionObject)).map (·.name) = partitionNames y c'.config := by
      simp [Function.comp_def]
    obtain ⟨name, procs, hstored, hfound, -⟩ := hresolve pre u post d split inline
    have hname := hfound _ hobjects
    rw [hfind _ _ _ hobjects, h.partitionNames_eq, List.getElem?_map, hown, Option.map_some,
      Option.some.injEq] at hname
    refine (h.stored_own_iff hnodup' split inline).mp ?_
    rw [← hwins, hstored, ← hname]
  · intro hkept pre u post d split inline
    have hown := namedDefinitions_use split inline
    have hstored := (h.stored_own_iff hnodup' split inline).mpr (hkept pre u post d split inline)
    have hmade := List.forall₂_iff_get.mp h.partitions
    obtain ⟨hlt, hget⟩ := List.getElem?_eq_some_iff.mp hown
    have hlt' := hmade.1 ▸ hlt
    obtain ⟨procs, hprocs, hnode⟩ := hmade.2 _ hlt hlt'
    simp only [List.get_eq_getElem, hget] at hprocs hnode
    have hitem : (itemsAt c'.config "partitions")[(listedPartitions c.config).length +
        (definitionsOf pre).length]? = some (partitionNode
          (nameOf (givenName y d.node) (countersAfter y pre (counterAtWindows y c))) procs) := by
      rw [hparts, List.getElem?_eq_getElem hlt', hnode]
    refine ⟨_, procs, hwins ▸ hstored, ?_, hprocs, hitem, ?_⟩
    · intro partitions hpartitions
      rw [hfind _ _ _ hpartitions, h.partitionNames_eq, List.getElem?_map, hown]
      rfl
    · intro toHz partitions run
      exact createPartitions_get run hitem

theorem YamlConfig.kept_of_nodup {c : YamlConfig}
    (once : ((uses y c.config).map Use.role).Nodup) : c.Kept y := by
  intro pre u post d split _ v hv
  rw [split, List.map_append, List.map_cons] at once
  have hnotMem := (List.nodup_cons.mp once.of_append_right).1
  obtain ⟨hmem, hrole⟩ := List.mem_filter.mp (List.mem_of_getLast? hv)
  exact absurd (of_decide_eq_true hrole ▸ List.mem_map_of_mem hmem) hnotMem

def tenMs (cmd : String) : Node :=
  .map [(.scalar "cmd", .scalar cmd), (.scalar "budget", .scalar "10")]

/-- A listed partition, one that a slice defines with a name, and one without. -/
def threeDefinitions : YamlConfig :=
  ⟨.map [(.scalar "partitions", .seq [.map [(.scalar "name", .scalar "SC1"),
      (.scalar "processes", .seq [tenMs "a"])]]),
    (.scalar "windows", .seq [
      .map [(.scalar "length", .scalar "100"), (.scalar "sc_partition", .scalar "SC1"),
        (.scalar "be_partition", .map [(.scalar "name", .scalar "BE1"),
          (.scalar "processes", .seq [tenMs "b"])])],
      .map [(.scalar "length", .scalar "100"), (.scalar "sc_processes", tenMs "c")]])],
    false, none, 0⟩

theorem references_resolve_threeDefinitions :
    ∃ c', threeDefinitions.normalize Conversions.decimal 64 = .ok c' ∧
      partitionNames Conversions.decimal c'.config = ["SC1", "BE1", "anonymous_0"] ∧
      ReferencesResolve Conversions.decimal threeDefinitions c' := by
  have hnames : (threeDefinitions.normalize Conversions.decimal 64).toOption.map
      (fun c' => partitionNames Conversions.decimal c'.config) =
        some ["SC1", "BE1", "anonymous_0"] := by
    decide +kernel
  simp only [Option.map_eq_some_iff, toOption_eq_some] at hnames
  obtain ⟨c', hc', hnames⟩ := hnames
  refine ⟨c', hc', hnames, (references_resolve_iff Conversions.decimal Conversions.decimal_inverts 64
    _ c' hc').mpr ⟨⟨by decide, ?_⟩, YamlConfig.kept_of_nodup (by decide)⟩⟩
  intro n _ hn
  have hunnamed : Naming.unnamed (givenNames Conversions.decimal threeDefinitions) = 1 := by decide
  have hzero : threeDefinitions.anonymousPartitionCounter = 0 := rfl
  obtain rfl : n = 0 := by omega
  decide

/-- A partition listed as `anonymous_0`, and a window that defines its SC partition in
place and without a name. -/
def listedAnonymous : YamlConfig :=
  ⟨.map [(.scalar "partitions", .seq [.map [(.scalar "name", .scalar "anonymous_0"),
      (.scalar "processes", .seq [.map [(.scalar "cmd", .scalar "a"),
        (.scalar "budget", .scalar "10")]])]]),
    (.scalar "windows", .seq [.map [(.scalar "length", .scalar "100"),
      (.scalar "sc_partition", .seq [.map [(.scalar "cmd", .scalar "b"),
        (.scalar "budget", .scalar "10")]])]])], false, none, 0⟩

/-- Both partitions are called `anonymous_0`, and the slice gets the first. -/
theorem references_resolve_listedAnonymous :
    ∃ c' os, listedAnonymous.normalize Conversions.decimal 64 = .ok c' ∧
      createSchedulerObjects Conversions.decimal 64 Int.toNat (fun _ => .ok ()) {0} c' = .ok os ∧
      os.partitions.map (fun p => (p.name, p.processes.map (·.argv))) =
        [("anonymous_0", ["a"]), ("anonymous_0", ["b"])] ∧
      os.windows.map (fun w => w.slices.map (·.sc)) = [[some 0]] ∧
      ¬ ReferencesResolve Conversions.decimal listedAnonymous c' := by
  have hrun : ((listedAnonymous.normalize Conversions.decimal 64).toOption.bind fun c' =>
      (createSchedulerObjects Conversions.decimal 64 Int.toNat (fun _ => .ok ()) {0}
        c').toOption.map fun os =>
          (os.partitions.map (fun p => (p.name, p.processes.map (·.argv))),
            os.windows.map (fun w => w.slices.map (·.sc)), partitionNames Conversions.decimal c'.config)) =
      some ([("anonymous_0", ["a"]), ("anonymous_0", ["b"])], [[some 0]],
        ["anonymous_0", "anonymous_0"]) := by
    decide +kernel
  simp only [Option.bind_eq_some_iff, Option.map_eq_some_iff, toOption_eq_some, Prod.mk.injEq] at hrun
  obtain ⟨c', hc', os, hos, hparts, hwins, hnames⟩ := hrun
  refine ⟨c', os, hc', hos, hparts, hwins, ?_⟩
  rintro ⟨hnodup, -⟩
  rw [hnames] at hnodup
  simp at hnodup

end DemosSched
