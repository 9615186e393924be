import DemosSched.SliceRoles
import DemosSched.Realized
import DemosSched.Timetable

/-! The budgets of the processes that state none. They are computed with `float`s; in
windows of less than 35 minutes each process still gets an equal part of what its window
has for the phase, in whole milliseconds, and together they fit into it. -/

namespace DemosSched

open Yaml Fallible

/-- The equal part of one of `n` processes: SC partitions have three fifths of the window
for themselves, BE partitions all of it. -/
def equalPart (sc : Bool) (length : Int) (n : Nat) : Int :=
  if sc then 3 * length / (5 * n) else length / n

/-- Equal parts fit into the window: five of them, for three of its lengths, in the SC phase. -/
theorem equalPart_mul_le (sc : Bool) (length : Int) {n : Nat} (pos : 0 < n) :
    (if sc then 5 else 1) * (n * equalPart sc length n) ≤ (if sc then 3 else 1) * length := by
  have hn : (0 : Int) < n := by exact_mod_cast pos
  cases sc with
  | false =>
    have h := Int.ediv_mul_le length hn.ne'
    simp only [equalPart, Bool.false_eq_true, if_false]
    linarith
  | true =>
    have h := Int.ediv_mul_le (3 * length) (show (5 * n : Int) ≠ 0 by omega)
    simp only [equalPart, if_true]
    linarith

theorem share_value (sc : Bool) : ∃ s : ℚ, share sc = ⟨some s⟩ ∧ s ≤ 1 ∧
    (if sc then 3 / 5 else 1) ≤ s ∧
    s * (1 + 1 / 2 ^ 24) ^ 2 < (if sc then 3 / 5 else 1) + (if sc then 1 / 5 else 1) / (2 ^ 21 - 1) := by
  cases sc
  · exact ⟨1, rfl, by norm_num⟩
  · exact ⟨10066330 / 2 ^ 24, rfl, by norm_num⟩

/-- What the `float`s come to in windows of less than 2^21 ms. -/
theorem toInt_default (sc : Bool) {length : Int} {n : Nat} (nonneg : 0 ≤ length)
    (small : length < 2 ^ 21) (pos : 0 < n) :
    (((Single.ofInt length).mul (share sc)).div (.ofInt n)).toInt = equalPart sc length n := by
  have hlength : (0 : ℚ) ≤ length := by exact_mod_cast nonneg
  have hlength' : (length : ℚ) ≤ 2 ^ 21 - 1 := by
    have h : length ≤ 2 ^ 21 - 1 := by omega
    exact_mod_cast h
  obtain ⟨s, hs, hle, hlow, hhigh⟩ := share_value sc
  rw [hs]
  cases sc with
  | false =>
    simp only [Bool.false_eq_true, if_false] at hlow hhigh
    have h := Single.toInt_share (p := 1) (r := 1) nonneg (by omega : length < 2 ^ 23)
      (by exact_mod_cast pos : (0 : ℤ) < n) (by decide) (by decide) (by simpa using hlow) hle
      (by push_cast; nlinarith)
    simpa [equalPart] using h
  | true =>
    simp only [if_true] at hlow hhigh
    have h := Single.toInt_share (p := 3) (r := 5) nonneg (by omega : length < 2 ^ 23)
      (by exact_mod_cast pos : (0 : ℤ) < n) (by decide) (by decide) (by simpa using hlow) hle
      (by push_cast; nlinarith)
    simpa [equalPart] using h

theorem toInt_default_nonpos (sc : Bool) {length : Int} (n : Nat) (neg : length ≤ 0) :
    (((Single.ofInt length).mul (share sc)).div (.ofInt n)).toInt ≤ 0 := by
  obtain ⟨s, hs, -, hlow, -⟩ := share_value sc
  have hs_nonneg : 0 ≤ s := by
    refine le_trans ?_ hlow
    split <;> norm_num
  have htotal : Single.round (Single.round length * s) ≤ 0 :=
    Single.round_nonpos (mul_nonpos_of_nonpos_of_nonneg
      (Single.round_nonpos (by exact_mod_cast neg)) hs_nonneg)
  refine Single.toInt_nonpos (q := Single.round (Single.round (Single.round length * s) /
    Single.round (n : ℤ))) ?_ (Single.round_nonpos ?_)
  · simp [hs, Single.ofInt, Single.mul, Single.div]
  · exact div_nonpos_of_nonpos_of_nonneg htotal (Single.round_nonneg (by simp))

theorem partitionProcesses_default {part : Node} {t : Single} (isFloat : t.IsFloat)
    {p : Node × Single} (mem : p ∈ partitionProcesses part t) :
    p.2 = t.div (.ofInt (partitionProcesses part t).length) := by
  have hone : t = t.div (.ofInt ((1 : Nat) : Int)) := (Single.div_ofInt_one isFloat).symm
  have hlisted : ∀ processes, p ∈ listedProcesses processes t →
      p.2 = t.div (.ofInt (listedProcesses processes t).length) := by
    intro processes hp
    cases processes with
    | seq procs =>
      obtain ⟨proc, -, rfl⟩ := List.mem_map.mp hp
      simp only [listedProcesses, List.length_map]
    | null | scalar | map =>
      rw [List.mem_singleton.mp hp]
      exact hone
  unfold partitionProcesses at mem ⊢
  split at mem
  case isTrue hempty =>
    rw [List.mem_singleton.mp mem, if_pos hempty]
    exact hone
  case isFalse hnonempty =>
    rw [if_neg hnonempty]
    cases part with
    | seq procs => exact hlisted (.seq procs) mem
    | map entries =>
      simp only [givenProcesses] at mem ⊢
      cases hfind : (Node.map entries).find "processes" with
      | none => simp [hfind] at mem
      | some v =>
        simp only [hfind, Option.map_some, Option.getD_some] at mem
        exact hlisted v mem
    | null | scalar => simp [givenProcesses] at mem

variable {δ : Type} {y : Conversions δ} {maxCpus : Nat} {toHz : δ → Nat} {allowed : CpuSet}

theorem sliceUses_totalBudget {i : SliceId} {slice : Node} {wl : Single} {u : Use} {d : Definition}
    (mem : u ∈ sliceUses y i slice wl) (inline : u.reference = .inline d) :
    d.totalBudget = wl.mul (share u.sc) := by
  obtain ⟨key, -, hkey⟩ := List.mem_filterMap.mp mem
  obtain ⟨k, -, hk⟩ := Option.bind_eq_some_iff.mp hkey
  rcases keyUse_some hk with ⟨-, v, -, hu⟩ | ⟨-, v, -, hu⟩
  · rw [hu] at inline
    cases v with
    | scalar text => cases inline
    | null | seq | map => exact (Reference.inline.inj inline) ▸ rfl
  · rw [hu] at inline
    exact (Reference.inline.inj inline) ▸ rfl

theorem uses_totalBudget {config : Node} {u : Use} {d : Definition} (mem : u ∈ uses y config)
    (inline : u.reference = .inline d) :
    ∃ win, (elementsAt config "windows")[u.slice.window]? = some win ∧
      d.totalBudget = (Single.ofInt (windowLength y (win.getD .null))).mul (share u.sc) := by
  obtain ⟨⟨win, w⟩, hwin, hu⟩ := List.mem_flatMap.mp mem
  have hat := List.mk_mem_zipIdx_iff_getElem?.mp hwin
  have hw := windowUses_window hu
  refine ⟨win, hw ▸ hat, ?_⟩
  simp only [windowUses] at hu
  split at hu
  · simp at hu
  split at hu
  · exact sliceUses_totalBudget hu inline
  · obtain ⟨-, -, hu⟩ := List.mem_flatMap.mp hu
    obtain ⟨⟨slice, i⟩, -, hu⟩ := List.mem_flatMap.mp hu
    exact sliceUses_totalBudget hu inline

theorem createPartition_name {d : Definition × String} {np : Node} {o : PartitionObject}
    (made : MadeFrom (y := y) d np) (run : createPartition y toHz np = .ok o) :
    o.name = partitionName y np := by
  obtain ⟨procs, -, rfl⟩ := made
  simp only [createPartition, bind_def, bind_eq_ok, pure_def, Except.ok.injEq] at run
  obtain ⟨v, hget, name, hname, os, -, rfl⟩ := run
  rw [← (get_ok_find hget).2] at hname
  simp [partitionName, hname, Except.toOption]

theorem createPartitions_names {defs : List (Definition × String)} {nps : List Node}
    {partitions : List PartitionObject} (made : List.Forall₂ (MadeFrom (y := y)) defs nps)
    (run : List.Forall₂ (fun np o => createPartition y toHz np = .ok o) nps partitions) :
    partitions.map (·.name) = defs.map Prod.snd := by
  rw [← names_of_partitions made]
  induction made generalizing partitions with
  | nil =>
    cases run
    rfl
  | cons hmade _ ih =>
    cases run with
    | cons hrun hrest => rw [List.map_cons, List.map_cons, ih hrest, createPartition_name hmade hrun]

theorem createProcess_budget (inv : y.Inverts) {proc np : Node} {t : Single} {o : ProcessObject}
    (normal : normalizeProcess y proc t = .ok np) (run : createProcess y toHz np = .ok o) :
    budgetOf y proc t = some o.budget ∧ 0 < o.budget := by
  obtain ⟨f, b, j, rfl, hf, -, hbudget, -⟩ := normalizeProcess_ok inv normal
  simp only [createProcess, get_toNode, bind_def, bind_ok, bind_eq_ok, pure_def,
    Except.ok.injEq] at run
  obtain ⟨b', hb, -, -, -, -, -, -, -, -, rfl⟩ := run
  rw [hf.find_budget, inv.asInt_int hf.budget_isInt, Except.ok.injEq] at hb
  exact hb ▸ ⟨hbudget, hf.budget_pos⟩

theorem createPartition_budgets (inv : y.Inverts) {d : Definition} {procs : List Node}
    {name : String} {o : PartitionObject}
    (normal : normalizeAll y (partitionProcesses d.node d.totalBudget) = .ok procs)
    (run : createPartition y toHz (partitionNode name procs) = .ok o) :
    List.Forall₂ (fun p x => budgetOf y p.1 p.2 = some x.budget ∧ 0 < x.budget)
      (partitionProcesses d.node d.totalBudget) o.processes := by
  simp only [createPartition, bind_def, bind_eq_ok, itemsAt_partitionNode, pure_def,
    Except.ok.injEq] at run
  obtain ⟨-, -, name, -, os, hos, rfl⟩ := run
  refine (forall₂_comp.mp ⟨procs, mapM_eq_ok.mp normal, mapM_eq_ok.mp hos⟩).imp ?_
  rintro p x ⟨np, hnp, hx⟩
  exact createProcess_budget inv hnp hx

structure UseObjects (y : Conversions δ) (c : YamlConfig) (os : SchedulerObjects) (u : Use)
    (d : Definition) (k : Nat) (w : WindowObject) (o : SliceObject) (part : PartitionObject) :
    Prop where
  window : os.windows[u.slice.window]? = some w
  slice : w.slices[u.slice.index]? = some o
  role : (if u.sc then o.sc else o.be) = some k
  partition : os.partitions[k]? = some part
  length : ∃ win, (elementsAt c.config "windows")[u.slice.window]? = some win ∧
    w.length = windowLength y (win.getD .null)
  budgets : List.Forall₂ (fun p x => budgetOf y p.1 p.2 = some x.budget ∧ 0 < x.budget)
    (partitionProcesses d.node d.totalBudget) part.processes

theorem createSlice_role {partitions : List PartitionObject} {slice : Node} {o : SliceObject}
    (run : createSlice y maxCpus toHz allowed partitions slice = .ok o) {sc : Bool} {name : String}
    (find : slice.find (roleKey sc) = some (.scalar name)) {k : Nat}
    (found : findPartition name partitions = .ok k) : (if sc then o.sc else o.be) = some k := by
  have hread : ∀ {r : Option Nat},
      readPartition? y partitions slice (roleKey sc) = .ok r → r = some k := by
    intro r hr
    simp only [readPartition?, bind_def, bind_eq_ok] at hr
    obtain ⟨v, hget, hr⟩ := hr
    rw [← (get_ok_find hget).2, find] at hr
    simp only [Conversions.asString, bind_ok, found, pure_def, Except.ok.injEq] at hr
    exact hr.symm
  simp only [createSlice, bind_def, bind_eq_ok, pure_def, Except.ok.injEq] at run
  obtain ⟨sc', hsc, be, hbe, -, -, -, -, -, -, -, -, rfl⟩ := run
  cases sc with
  | false => exact hread hbe
  | true => exact hread hsc

theorem createWindow_length {length : Int} {f : Fields} {partitions : List PartitionObject}
    {w : WindowObject} (normal : NormalWindow y maxCpus length f) (inv : y.Inverts)
    (run : createWindow y maxCpus toHz allowed partitions f.toNode = .ok w) : w.length = length := by
  simp only [createWindow, get_toNode, bind_def, bind_ok, bind_eq_ok, pure_def,
    Except.ok.injEq] at run
  obtain ⟨l, hl, slices, -, rfl⟩ := run
  rw [normal.find_length, inv.asInt_int normal.isInt, Except.ok.injEq] at hl
  exact hl.symm

theorem Accepted.useObjects {c c' : YamlConfig} {setCwd : Bool} {demosCpu : String}
    {nps nws : List Node} (h : Accepted y maxCpus c c' setCwd demosCpu nps nws) (inv : y.Inverts)
    (distinct : c.NamesDistinct y) (kept : c.Kept y)
    {validate : List WindowObject → Except Failure Unit} {os : SchedulerObjects}
    (run : createSchedulerObjects y maxCpus toHz validate allowed c' = .ok os)
    {pre post : List Use} {u : Use} {d : Definition}
    (split : uses y c.config = pre ++ u :: post) (inline : u.reference = .inline d) :
    ∃ w o part, UseObjects y c os u d
      ((listedPartitions c.config).length + (definitionsOf pre).length) w o part := by
  obtain ⟨hparts, hwins⟩ := itemsAt_normalConfig (y.bool setCwd) demosCpu nps nws
  rw [← h.config] at hparts hwins
  simp only [createSchedulerObjects, bind_def, bind_eq_ok, pure_def, Except.ok.injEq] at run
  obtain ⟨-, -, partitions, hcreate, -, -, -, -, windows, hwindows, -, -, rfl⟩ := run
  rw [createPartitions, hparts, mapM_eq_ok] at hcreate
  rw [createWindows, hwins, mapM_eq_ok] at hwindows
  -- the partition is made from the definition
  have hown := namedDefinitions_use split inline
  obtain ⟨np, hnp, procs, hprocs, hnode⟩ := forall₂_getElem?_left h.partitions hown
  obtain ⟨part, hpart, hcreated⟩ := forall₂_getElem?_left hcreate hnp
  -- and the name of the slice leads to it
  have hnodup : ((namedDefinitions y (definitions y c.config)
      c.anonymousPartitionCounter).map Prod.snd).Nodup := by
    rw [map_snd_namedDefinitions]
    exact (Naming.nodup_names_iff anonymousName_injective _ _).mpr distinct
  have hstored := (h.stored_own_iff hnodup split inline).mpr (kept pre u post d split inline)
  obtain ⟨nw, hnw, hslices⟩ := Option.bind_eq_some_iff.mp hstored
  obtain ⟨slice, hslice, hfind⟩ := Option.bind_eq_some_iff.mp hslices
  obtain ⟨w, hw, hwindow⟩ := forall₂_getElem?_left hwindows hnw
  obtain ⟨o, ho, hrun⟩ := forall₂_getElem?_left (createWindow_slices hwindow) hslice
  have hnames := createPartitions_names h.partitions hcreate
  have hat : (partitions.map (·.name))[(listedPartitions c.config).length +
      (definitionsOf pre).length]? = some (nameOf (givenName y d.node)
        (countersAfter y pre (counterAtWindows y c))) := by
    rw [hnames, List.getElem?_map, hown]
    rfl
  have hrole := createSlice_role hrun hfind ((findPartition_iff (hnames ▸ hnodup)).mpr hat)
  obtain ⟨win, hwin, f, rfl, hnormal⟩ := forall₂_getElem? h.windows hnw
  refine ⟨w, o, part, hw, ho, hrole, hpart, ⟨win, hwin, ?_⟩, ?_⟩
  · exact createWindow_length hnormal inv hwindow
  · rw [hnode] at hcreated
    exact createPartition_budgets inv hprocs hcreated

namespace SchedulerObjects

variable {os : SchedulerObjects} (h : os.Runnable)

theorem toConfig_window {n : Nat} {w : WindowObject} (hw : os.windows[n]? = some w) :
    ∃ hcpus, (os.toConfig h).window n = w.toDef hcpus := by
  obtain ⟨hlt, rfl⟩ := List.getElem?_eq_some_iff.mp hw
  refine ⟨h.cpus _ (List.getElem_mem hlt), ?_⟩
  unfold Config.window
  rw [List.getD_eq_getElem _ _ (by simpa [toConfig] using hlt)]
  exact List.getElem_pmap WindowObject.toDef h.cpus _

theorem toConfig_role {i : SliceId} {w : WindowObject} {o : SliceObject}
    (hw : os.windows[i.window]? = some w) (ho : w.slices[i.index]? = some o) (sc : Bool) :
    (os.toConfig h).role sc i = if sc then o.sc else o.be := by
  obtain ⟨hcpus, hwindow⟩ := toConfig_window h hw
  have hlt := (List.getElem?_eq_some_iff.mp ho).1
  have hmember : i.index < (os.toConfig h).sliceCount i.window := by
    simpa [Config.sliceCount, hwindow, WindowObject.toDef] using hlt
  obtain ⟨w', hw', o', ho', hne, hslice⟩ := toConfig_slice h hmember
  rw [hw, Option.some.injEq] at hw'
  subst hw'
  rw [ho, Option.some.injEq] at ho'
  subst ho'
  unfold Config.role
  rw [hslice]
  rfl

theorem toConfig_budget {k j : Nat} {part : PartitionObject} {x : ProcessObject}
    (hpart : os.partitions[k]? = some part) (hx : part.processes[j]? = some x) :
    ((os.toConfig h).process ⟨k, j⟩).budget = x.budget := by
  obtain ⟨hlt, rfl⟩ := List.getElem?_eq_some_iff.mp hpart
  obtain ⟨hj, rfl⟩ := List.getElem?_eq_some_iff.mp hx
  have hvalid := h.partitions _ (List.getElem_mem hlt)
  have hget : (os.toConfig h).partition k = os.partitions[k].toDef hvalid := by
    unfold Config.partition
    rw [List.getD_eq_getElem _ _ (by simpa [toConfig] using hlt)]
    exact List.getElem_pmap PartitionObject.toDef h.partitions _
  unfold Config.process
  rw [hget, List.getD_eq_getElem _ _ (by simpa [PartitionObject.toDef] using hj)]
  exact congrArg ProcessDef.budget (List.getElem_pmap ProcessObject.toDef hvalid.processes _)

end SchedulerObjects

variable (y) in
/-- The partition that a slice is given in place has its processes, with the budgets they
state and equal parts of the window for those that state none. -/
structure Config.Budgeted (c : Config) (u : Use) (d : Definition) (k : Nat) : Prop where
  role : c.role u.sc u.slice = some k
  count : c.processCount k = (partitionProcesses d.node d.totalBudget).length
  stated : ∀ j p, (partitionProcesses d.node d.totalBudget)[j]? = some p → p.1.has "budget" = true →
    y.asInt (p.1.find "budget") = .ok (c.process ⟨k, j⟩).budget
  default : ∀ j p, (partitionProcesses d.node d.totalBudget)[j]? = some p →
    p.1.has "budget" = false → (c.process ⟨k, j⟩).budget =
      equalPart u.sc (c.window u.slice.window).length (c.processCount k)
  fits : (∀ p ∈ partitionProcesses d.node d.totalBudget, p.1.has "budget" = false) →
    (if u.sc then 5 else 1) * c.offset k (c.processCount k) ≤
      (if u.sc then 3 else 1) * (c.window u.slice.window).length

theorem Config.offset_equal {c : Config} {k : Nat} {b : Int} {j : Nat}
    (h : ∀ m < j, (c.process ⟨k, m⟩).budget = b) : c.offset k j = j * b := by
  induction j with
  | zero => simp [Config.offset_zero]
  | succ j ih =>
    rw [Config.offset_succ, ih fun m hm => h m (by omega), h j (by omega)]
    push_cast
    ring

theorem UseObjects.budgeted {c : YamlConfig} {os : SchedulerObjects} {u : Use} {d : Definition}
    {k : Nat} {w : WindowObject} {o : SliceObject} {part : PartitionObject}
    (h : UseObjects y c os u d k w o part) (mem : u ∈ uses y c.config)
    (inline : u.reference = .inline d) (runnable : os.Runnable) (small : w.length < 2 ^ 21) :
    (os.toConfig runnable).Budgeted y u d k := by
  obtain ⟨hcpus, hwindow⟩ := SchedulerObjects.toConfig_window runnable h.window
  have hlength : ((os.toConfig runnable).window u.slice.window).length = w.length := by
    rw [hwindow]
    rfl
  have hcount := SchedulerObjects.toConfig_processCount runnable h.partition
  have hprocs := h.budgets.length_eq
  have hbudget : ∀ j p, (partitionProcesses d.node d.totalBudget)[j]? = some p →
      budgetOf y p.1 p.2 = some ((os.toConfig runnable).process ⟨k, j⟩).budget ∧
        0 < ((os.toConfig runnable).process ⟨k, j⟩).budget := by
    intro j p hp
    obtain ⟨x, hx, hgiven, hpos⟩ := forall₂_getElem?_left h.budgets hp
    rw [SchedulerObjects.toConfig_budget runnable h.partition hx]
    exact ⟨hgiven, hpos⟩
  obtain ⟨win, hwin, htotal⟩ := uses_totalBudget mem inline
  obtain ⟨win', hwin', hlen⟩ := h.length
  rw [hwin, Option.some.injEq] at hwin'
  rw [← hwin'] at hlen
  rw [← hlen] at htotal
  have hdefault : ∀ j p, (partitionProcesses d.node d.totalBudget)[j]? = some p →
      p.1.has "budget" = false → ((os.toConfig runnable).process ⟨k, j⟩).budget =
        equalPart u.sc w.length ((os.toConfig runnable).processCount k) := by
    intro j p hp hnone
    obtain ⟨hgiven, hpos⟩ := hbudget j p hp
    have hpart : p.2 = ((Single.ofInt w.length).mul (share u.sc)).div
        (.ofInt ((os.toConfig runnable).processCount k)) := by
      rw [hcount, ← hprocs, partitionProcesses_default (htotal ▸ Single.isFloat_mul _ _)
        (List.mem_of_getElem? hp), htotal]
    rw [budgetOf, if_neg (by simp [hnone]), hpart, Option.some.injEq] at hgiven
    rcases le_or_gt w.length 0 with hneg | hlen
    · have hle := toInt_default_nonpos u.sc ((os.toConfig runnable).processCount k) hneg
      omega
    · rw [← hgiven]
      exact toInt_default u.sc hlen.le small (Config.processCount_pos _ k)
  refine ⟨?_, ?_, ?_, ?_, ?_⟩
  · rw [SchedulerObjects.toConfig_role runnable h.window h.slice]
    exact h.role
  · rw [hcount, hprocs]
  · intro j p hp hhas
    obtain ⟨hgiven, -⟩ := hbudget j p hp
    rw [budgetOf, if_pos hhas] at hgiven
    exact toOption_eq_some.mp hgiven
  · rw [hlength]
    exact hdefault
  · intro hnone
    have hequal : ∀ j < (os.toConfig runnable).processCount k,
        ((os.toConfig runnable).process ⟨k, j⟩).budget =
          equalPart u.sc w.length ((os.toConfig runnable).processCount k) := by
      intro j hj
      rw [hcount, ← hprocs] at hj
      have hget := List.getElem?_eq_getElem hj
      exact hdefault j _ hget (hnone _ (List.getElem_mem hj))
    rw [hlength, Config.offset_equal hequal]
    exact equalPart_mul_le u.sc w.length (Config.processCount_pos _ k)

/-- The budgets of a document. In a window of less than 2^21 ms the processes of a partition
that is defined in place and states no budgets have equal parts of three fifths of the
window, or of all of it for a BE partition, in whole milliseconds: the parts that exact
arithmetic would give, which fit into the window. -/
theorem default_budgets_fit (y : Conversions δ) (inv : y.Inverts) (maxCpus : Nat) (toHz : δ → Nat)
    (c c' : YamlConfig) (accepted : c.normalize y maxCpus = .ok c') (distinct : c.NamesDistinct y)
    (kept : c.Kept y) (allowed : CpuSet) (validate : List WindowObject → Except Failure Unit)
    (os : SchedulerObjects)
    (created : createSchedulerObjects y maxCpus toHz validate allowed c' = .ok os)
    (runnable : os.Runnable) (u : Use) (mem : u ∈ uses y c.config) (d : Definition)
    (inline : u.reference = .inline d)
    (small : ((os.toConfig runnable).window u.slice.window).length < 2 ^ 21) :
    ∃ k, (os.toConfig runnable).Budgeted y u d k := by
  obtain ⟨setCwd, demosCpu, nps, nws, h⟩ := normalize_ok inv accepted
  obtain ⟨pre, post, hsplit⟩ := List.append_of_mem mem
  obtain ⟨w, o, part, huse⟩ := h.useObjects inv distinct kept created hsplit inline
  obtain ⟨hcpus, hwindow⟩ := SchedulerObjects.toConfig_window runnable huse.window
  rw [hwindow] at small
  exact ⟨_, huse.budgeted mem inline runnable small⟩

theorem YamlConfig.Kept.single {c : YamlConfig} {u : Use} (hu : uses y c.config = [u]) :
    c.Kept y := by
  intro pre v post e split _
  have hone := congrArg List.length split
  rw [hu, List.length_append, List.length_singleton, List.length_cons] at hone
  have hpost : post = [] := List.eq_nil_of_length_eq_zero (by omega)
  simp [hpost]

def threeCommands : YamlConfig := oneWindow (.seq [.scalar "a", .scalar "b", .scalar "c"])

/-- Each of the three has 20 ms. -/
theorem default_budgets_threeCommands : ∃ (c' : YamlConfig) (os : SchedulerObjects)
    (runnable : os.Runnable), ∃ u ∈ uses Conversions.decimal threeCommands.config, ∃ d k,
    threeCommands.normalize Conversions.decimal 64 = .ok c' ∧
    os.partitions.map (fun part => part.processes.map (·.budget)) = [[20, 20, 20]] ∧
    u.reference = .inline d ∧ (os.toConfig runnable).Budgeted Conversions.decimal u d k := by
  have hrun : ((threeCommands.normalize Conversions.decimal 64).toOption.bind fun c' =>
      (createSchedulerObjects Conversions.decimal 64 Int.toNat (fun _ => .ok ()) {0}
        c').toOption.bind fun os =>
          if os.Runnable ∧ os.windows.map (·.length) = [100] then
            some (os.partitions.map fun part => part.processes.map (·.budget))
          else none) = some [[20, 20, 20]] := by
    decide +kernel
  have huses : ((uses Conversions.decimal threeCommands.config).map fun u =>
      (u.slice, u.reference.definition?.isSome)) = [(⟨0, 0⟩, true)] := by decide
  simp only [Option.bind_eq_some_iff, toOption_eq_some] at hrun
  obtain ⟨c', hc', os, hos, hbudgets⟩ := hrun
  split at hbudgets
  case isFalse => cases hbudgets
  case isTrue h =>
    obtain ⟨runnable, hlengths⟩ := h
    obtain ⟨u, hu, hrest⟩ := List.map_eq_singleton_iff.mp huses
    obtain ⟨hslice, hinline⟩ := Prod.mk.inj hrest
    cases href : u.reference with
    | name s => simp [href, Reference.definition?] at hinline
    | inline d =>
      have hmem : u ∈ uses Conversions.decimal threeCommands.config := by simp [hu]
      have hsmall : ((os.toConfig runnable).window u.slice.window).length < 2 ^ 21 := by
        obtain ⟨w, hw, hlength⟩ := List.map_eq_singleton_iff.mp hlengths
        obtain ⟨hcpus, hwindow⟩ := SchedulerObjects.toConfig_window runnable
          (show os.windows[u.slice.window]? = some w by rw [hslice, hw]; rfl)
        rw [hwindow]
        exact hlength.trans_lt (by decide)
      obtain ⟨k, hk⟩ := default_budgets_fit Conversions.decimal Conversions.decimal_inverts 64
        Int.toNat threeCommands c' hc' ⟨by decide, by decide⟩ (.single hu) {0} (fun _ => .ok ()) os hos
        runnable u hmem d href hsmall
      exact ⟨c', os, runnable, u, hmem, d, k, hc', Option.some.inj hbudgets, href, hk⟩

end DemosSched
