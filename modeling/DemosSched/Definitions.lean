import DemosSched.NormalForm

/-! The partitions a configuration defines and the slices that use them, read off
the document in the order in which normalization comes to them. A slice may use a
partition by its name or define it in place. -/

namespace DemosSched

open Yaml Fallible

/-- A partition definition, with the budget its processes share by default. -/
structure Definition where
  node : Node
  totalBudget : Single

inductive Reference
  | name (name : String)
  | inline (definition : Definition)

namespace Reference

def definition? : Reference → Option Definition
  | name _ => none
  | inline d => some d

def isInline (r : Reference) : Bool := r.definition?.isSome

end Reference

structure Use where
  slice : SliceId
  sc : Bool
  reference : Reference

def Use.role (u : Use) : SliceId × Bool := (u.slice, u.sc)

def roleKey (sc : Bool) : String := if sc then "sc_partition" else "be_partition"

variable {δ : Type} (y : Conversions δ)

def xxPartition (part : Node) (totalBudget : Single) : Reference :=
  match part with
  | .scalar name => .name name
  | part => .inline ⟨part, totalBudget⟩

def xxProcesses (processes : Node) (totalBudget : Single) : Reference :=
  .inline ⟨Fields.toNode [("processes", processes)], totalBudget⟩

def keyUse (i : SliceId) (slice : Node) (winLength : Single) (k : String) : Option Use :=
  (slice.find k).bind fun v =>
    if k = "sc_partition" then some ⟨i, true, xxPartition v (winLength.mul scShare)⟩
    else if k = "be_partition" then some ⟨i, false, xxPartition v (winLength.mul beShare)⟩
    else if k = "sc_processes" then some ⟨i, true, xxProcesses v (winLength.mul scShare)⟩
    else if k = "be_processes" then some ⟨i, false, xxProcesses v (winLength.mul beShare)⟩
    else none

def sliceUses (i : SliceId) (slice : Node) (winLength : Single) : List Use :=
  slice.keys.filterMap fun key => (y.asString key).toOption.bind (keyUse i slice winLength)

def slicesUses (w : Nat) (slices : List (Option Node)) (winLength : Single) : List Use :=
  slices.zipIdx.flatMap fun (slice, i) => sliceUses y ⟨w, i⟩ (slice.getD .null) winLength

def inlineSlice (win : Node) : Node :=
  Fields.toNode ((if win.has "cpu" then [] else [("cpu", .scalar "all")]) ++
    ["cpu", "sc_partition", "be_partition", "sc_processes", "be_processes"].filterMap fun k =>
      (win.find k).map (k, ·))

def windowLength (win : Node) : Int := (y.asInt (win.find "length")).toOption.getD 0

/-- How often a window gives its slices. -/
def slicesKeys (win : Node) : List (Option Node) :=
  win.keys.filter fun key => (y.asString key).toOption = some "slices"

def windowUses (w : Nat) (win : Node) : List Use :=
  if win.size = 1 then []
  else if (slicesKeys y win).isEmpty then
    sliceUses y ⟨w, 0⟩ (inlineSlice win) (.ofInt (windowLength y win))
  else (slicesKeys y win).flatMap fun _ =>
    slicesUses y w ((win.find "slices").getD .null).elements (.ofInt (windowLength y win))

def windowsUses (wins : List (Option Node)) : List Use :=
  wins.zipIdx.flatMap fun (win, w) => windowUses y w (win.getD .null)

def elementsAt (config : Node) (k : String) : List (Option Node) :=
  ((config.find k).getD .null).elements

def uses (config : Node) : List Use := windowsUses y (elementsAt config "windows")

def definitionsOf (uses : List Use) : List Definition :=
  uses.filterMap fun u => u.reference.definition?

def listedPartitions (config : Node) : List Definition :=
  (elementsAt config "partitions").map fun part => ⟨part.getD .null, .nan⟩

def definitions (config : Node) : List Definition :=
  listedPartitions config ++ definitionsOf (uses y config)

def defineAll (defs : List Definition) (st : Defined) : Except Failure Defined :=
  defs.foldlM (fun st d => do
    let (normPart, counter) ← normalizePartition y d.node d.totalBudget st.counter
    return ⟨st.partitions ++ [normPart], counter⟩) st

def counterAfterUse (u : Use) (counter : Nat) : Nat :=
  match u.reference with
  | .name _ => counter
  | .inline d => counterAfter (givenName y d.node) counter

def useName (u : Use) (counter : Nat) : String :=
  match u.reference with
  | .name name => name
  | .inline d => nameOf (givenName y d.node) counter

def namedUses : List Use → Nat → List (Use × String)
  | [], _ => []
  | u :: us, counter => (u, useName y u counter) :: namedUses us (counterAfterUse y u counter)

/-- The name a slice is left with for a phase: the last one stored. -/
def storedName (us : List (Use × String)) (role : SliceId × Bool) : Option String :=
  (us.reverse.find? (·.1.role = role)).map Prod.snd

def countersAfter (us : List Use) (counter : Nat) : Nat :=
  us.foldl (fun n u => counterAfterUse y u n) counter

def namedDefinitions : List Definition → Nat → List (Definition × String)
  | [], _ => []
  | d :: ds, counter => (d, nameOf (givenName y d.node) counter) ::
      namedDefinitions ds (counterAfter (givenName y d.node) counter)

def counterAfterAll (ds : List Definition) (counter : Nat) : Nat :=
  ds.foldl (fun n d => counterAfter (givenName y d.node) n) counter

variable {y}

@[simp] theorem namedUses_nil (n : Nat) : namedUses y [] n = [] := rfl

theorem namedUses_append (us vs : List Use) (n : Nat) :
    namedUses y (us ++ vs) n = namedUses y us n ++ namedUses y vs (countersAfter y us n) := by
  induction us generalizing n with
  | nil => rfl
  | cons u us ih => simp [namedUses, countersAfter, ih]

theorem map_fst_namedUses (us : List Use) (n : Nat) : (namedUses y us n).map Prod.fst = us := by
  induction us generalizing n with
  | nil => rfl
  | cons u us ih => simp [namedUses, ih]

@[simp] theorem storedName_nil (role : SliceId × Bool) : storedName [] role = none := rfl

theorem storedName_append (us vs : List (Use × String)) (role : SliceId × Bool) :
    storedName (us ++ vs) role = (storedName vs role).or (storedName us role) := by
  simp only [storedName, List.reverse_append, List.find?_append]
  cases vs.reverse.find? (·.1.role = role) <;> simp

theorem storedName_isSome {us : List Use} {n : Nat} {role : SliceId × Bool} :
    (storedName (namedUses y us n) role).isSome = true ↔ ∃ u ∈ us, u.role = role := by
  simp only [storedName, Option.isSome_map, List.find?_isSome, List.mem_reverse, decide_eq_true_eq]
  constructor
  · rintro ⟨u, hu, hrole⟩
    exact ⟨u.1, map_fst_namedUses (y := y) us n ▸ List.mem_map_of_mem hu, hrole⟩
  · rintro ⟨u, hu, hrole⟩
    rw [← map_fst_namedUses (y := y) us n] at hu
    obtain ⟨v, hv, rfl⟩ := List.mem_map.mp hu
    exact ⟨v, hv, hrole⟩

theorem storedName_eq_none {us : List Use} {n : Nat} {role : SliceId × Bool}
    (h : ∀ u ∈ us, u.role ≠ role) : storedName (namedUses y us n) role = none := by
  rw [← Option.not_isSome_iff_eq_none, storedName_isSome]
  rintro ⟨u, hu, hrole⟩
  exact h u hu hrole

theorem storedName_elsewhere {us : List Use} {n : Nat} {i : SliceId} {sc : Bool}
    (h : ∀ u ∈ us, u.slice ≠ i) : storedName (namedUses y us n) (i, sc) = none :=
  storedName_eq_none fun u hu hrole => h u hu (congrArg Prod.fst hrole)

theorem namedDefinitions_append (as bs : List Definition) (n : Nat) :
    namedDefinitions y (as ++ bs) n =
      namedDefinitions y as n ++ namedDefinitions y bs (counterAfterAll y as n) := by
  induction as generalizing n with
  | nil => rfl
  | cons a as ih => simp [namedDefinitions, counterAfterAll, ih]

theorem map_fst_namedDefinitions (ds : List Definition) (n : Nat) :
    (namedDefinitions y ds n).map Prod.fst = ds := by
  induction ds generalizing n with
  | nil => rfl
  | cons d ds ih => simp [namedDefinitions, ih]

def MadeFrom (d : Definition × String) (np : Node) : Prop :=
  ∃ procs, normalizeAll y (partitionProcesses d.1.node d.1.totalBudget) = .ok procs ∧
    np = partitionNode d.2 procs

/-- Every definition makes a partition of its own, under its own name. -/
theorem defineAll_ok {defs : List Definition} {st st' : Defined}
    (run : defineAll y defs st = .ok st') :
    st'.counter = counterAfterAll y defs st.counter ∧ ∃ nps,
      st'.partitions = st.partitions ++ nps ∧
        List.Forall₂ (MadeFrom (y := y)) (namedDefinitions y defs st.counter) nps := by
  induction defs generalizing st with
  | nil =>
    cases run
    exact ⟨rfl, [], by simp, .nil⟩
  | cons d defs ih =>
    simp only [defineAll, List.foldlM_cons, bind_def, bind_eq_ok, pure_def, Except.ok.injEq] at run
    obtain ⟨m, ⟨⟨np, n⟩, hpart, rfl⟩, hrest⟩ := run
    obtain ⟨procs, hprocs, rfl, rfl⟩ := normalizePartition_ok hpart
    obtain ⟨hcounter, nps, hparts, hall⟩ := ih hrest
    exact ⟨hcounter, _, by rw [hparts, List.append_assoc]; rfl, .cons ⟨procs, hprocs, rfl⟩ hall⟩

theorem definitionsOf_append (us vs : List Use) :
    definitionsOf (us ++ vs) = definitionsOf us ++ definitionsOf vs := by
  simp [definitionsOf]

theorem defineAll_append {as bs : List Definition} {st st' st'' : Defined}
    (ha : defineAll y as st = .ok st') (hb : defineAll y bs st' = .ok st'') :
    defineAll y (as ++ bs) st = .ok st'' := by
  rw [defineAll, List.foldlM_append, ← defineAll, ha]
  exact hb

variable (y) in
def Gives (us : List Use) (st st' : Defined) : Prop := defineAll y (definitionsOf us) st = .ok st'

theorem Gives.nil (st : Defined) : Gives y [] st st := rfl

theorem Gives.append {us vs : List Use} {st st' st'' : Defined} (hu : Gives y us st st')
    (hv : Gives y vs st' st'') : Gives y (us ++ vs) st st'' := by
  rw [Gives, definitionsOf_append]
  exact defineAll_append hu hv

theorem Gives.counter {us : List Use} {st st' : Defined} (h : Gives y us st st') :
    st'.counter = countersAfter y us st.counter := by
  induction us generalizing st with
  | nil =>
    cases h
    rfl
  | cons u us ih =>
    have hafter : countersAfter y (u :: us) st.counter =
        countersAfter y us (counterAfterUse y u st.counter) := rfl
    rw [hafter]
    cases hu : u.reference with
    | name s =>
      have hcounter : counterAfterUse y u st.counter = st.counter := by simp [counterAfterUse, hu]
      rw [hcounter]
      refine ih ?_
      simpa [Gives, definitionsOf, hu, Reference.definition?] using h
    | inline d =>
      simp only [Gives, definitionsOf, hu, Reference.definition?, List.filterMap_cons, defineAll,
        List.foldlM_cons, bind_def, bind_eq_ok, pure_def, Except.ok.injEq] at h
      obtain ⟨m, ⟨⟨np, n⟩, hrun, rfl⟩, hrest⟩ := h
      obtain ⟨-, -, -, hn⟩ := normalizePartition_ok hrun
      have hcounter : counterAfterUse y u st.counter = n := by simp [counterAfterUse, hu, hn]
      rw [hcounter]
      exact ih hrest

theorem asString_partitionNode (name : String) (nps : List Node) :
    y.asString ((partitionNode name nps).find "name") = .ok name := by
  simp [partitionNode, Conversions.asString]

theorem definePartition_ok {u : Use} {d : Definition} {st st' : Defined} {name : String}
    (inline : u.reference = .inline d)
    (run : definePartition y d.node d.totalBudget st = .ok (name, st')) :
    name = useName y u st.counter ∧ Gives y [u] st st' := by
  simp only [definePartition, bind_def, bind_eq_ok, pure_def, Except.ok.injEq,
    Prod.mk.injEq] at run
  obtain ⟨⟨np, n⟩, hrun, s, hs, rfl, rfl⟩ := run
  obtain ⟨nps, -, hnp, -⟩ := normalizePartition_ok hrun
  rw [hnp, asString_partitionNode, Except.ok.injEq] at hs
  constructor
  · simp [useName, inline, hs]
  · simp [Gives, definitionsOf, inline, Reference.definition?, defineAll, hrun]

theorem processXxPartition_ok {u : Use} {v : Node} {t : Single} {st st' : Defined} {name : String}
    (use : u.reference = xxPartition v t)
    (run : processXxPartitionAndGetName y v t st = .ok (name, st')) :
    name = useName y u st.counter ∧ Gives y [u] st st' := by
  unfold processXxPartitionAndGetName at run
  split at run
  case isTrue hscalar =>
    cases v with
    | scalar text =>
      simp only [Conversions.asString, bind_def, bind_ok, pure_def, Except.ok.injEq,
        Prod.mk.injEq] at run
      obtain ⟨rfl, rfl⟩ := run
      have hu : u.reference = .name text := use
      exact ⟨by simp [useName, hu], by simp [Gives, definitionsOf, hu, Reference.definition?, defineAll]⟩
    | null | seq | map => simp [Node.isScalar] at hscalar
  case isFalse hscalar =>
    refine definePartition_ok (d := ⟨v, t⟩) ?_ run
    cases v with
    | scalar text => simp [Node.isScalar] at hscalar
    | null | seq | map => exact use

theorem processXxProcesses_ok {u : Use} {v : Node} {t : Single} {st st' : Defined} {name : String}
    (use : u.reference = xxProcesses v t)
    (run : processXxProcessesAndGetName y v t st = .ok (name, st')) :
    name = useName y u st.counter ∧ Gives y [u] st st' :=
  definePartition_ok use run

variable (y) in
structure SliceFixed (f : Fields) : Prop where
  nodup : f.keys.Nodup
  fixed : ∀ e ∈ f, (e.1 = "frequency" ∧ ∃ x, e.2 = y.double x) ∨
    e.1 ∈ ["cpu", "sc_partition", "be_partition"] ∧ ∃ s, e.2 = .scalar s

theorem SliceFixed.set {f : Fields} (h : SliceFixed y f) {k : String} {v : Node}
    (fixed : (k = "frequency" ∧ ∃ x, v = y.double x) ∨
      k ∈ ["cpu", "sc_partition", "be_partition"] ∧ ∃ s, v = .scalar s) :
    SliceFixed y (f.set k v) := by
  refine ⟨Fields.nodup_set h.nodup, fun e he => ?_⟩
  rcases Fields.mem_set he with rfl | he
  · exact fixed
  · exact h.fixed e he

theorem roleKey_mem (sc : Bool) : roleKey sc ∈ ["cpu", "sc_partition", "be_partition"] := by
  cases sc <;> decide

theorem roleKey_inj {sc sc' : Bool} : roleKey sc = roleKey sc' ↔ sc = sc' := by
  cases sc <;> cases sc' <;> decide

theorem normalizeSliceKey_ok (i : SliceId) {slice : Node} {wl : Single} {st st' : Fields × Defined}
    {key : Option Node} {k : String} (hk : y.asString key = .ok k)
    (run : normalizeSliceKey y slice wl st key = .ok st') :
    (keyUse i slice wl k = none ∧ st'.2 = st.2 ∧ ∃ v, st'.1 = st.1.set k v ∧
      ((k = "cpu" ∧ ∃ s, v = .scalar s) ∨ (k = "frequency" ∧ ∃ x, v = y.double x))) ∨
    ∃ u, keyUse i slice wl k = some u ∧ u.slice = i ∧ Gives y [u] st.2 st'.2 ∧
      st'.1 = st.1.set (roleKey u.sc) (.scalar (useName y u st.2.counter)) := by
  simp only [normalizeSliceKey, hk, bind_def, bind_ok] at run
  split at run
  case isTrue hkey =>
    subst hkey
    simp only [bind_eq_ok, pure_def, Except.ok.injEq] at run
    obtain ⟨s, -, rfl⟩ := run
    refine .inl ⟨?_, rfl, _, rfl, .inl ⟨rfl, s, rfl⟩⟩
    cases slice.find "cpu" <;> simp [keyUse]
  split at run
  case isTrue hkey =>
    subst hkey
    simp only [bind_eq_ok, pure_def, Except.ok.injEq] at run
    obtain ⟨x, -, rfl⟩ := run
    refine .inl ⟨?_, rfl, _, rfl, .inr ⟨rfl, x, rfl⟩⟩
    cases slice.find "frequency" <;> simp [keyUse]
  right
  cases hv : slice.find k with
  | none =>
    simp only [hv, Node.valid, bind_error] at run
    split_ifs at run
  | some v =>
    simp only [hv, Node.valid, bind_ok] at run
    split at run
    case isTrue hkey =>
      subst hkey
      simp only [bind_eq_ok, pure_def, Except.ok.injEq] at run
      obtain ⟨⟨name, defined⟩, hdef, rfl⟩ := run
      obtain ⟨rfl, hgives⟩ := processXxPartition_ok (u := ⟨i, true, xxPartition v _⟩) rfl hdef
      exact ⟨_, by simp [keyUse, hv], rfl, hgives, rfl⟩
    split at run
    case isTrue hkey =>
      subst hkey
      simp only [bind_eq_ok, pure_def, Except.ok.injEq] at run
      obtain ⟨⟨name, defined⟩, hdef, rfl⟩ := run
      obtain ⟨rfl, hgives⟩ := processXxPartition_ok (u := ⟨i, false, xxPartition v _⟩) rfl hdef
      exact ⟨_, by simp [keyUse, hv], rfl, hgives, rfl⟩
    split at run
    case isTrue hkey =>
      subst hkey
      simp only [bind_eq_ok, pure_def, Except.ok.injEq] at run
      obtain ⟨⟨name, defined⟩, hdef, rfl⟩ := run
      obtain ⟨rfl, hgives⟩ := processXxProcesses_ok (u := ⟨i, true, xxProcesses v _⟩) rfl hdef
      exact ⟨_, by simp [keyUse, hv], rfl, hgives, rfl⟩
    split at run
    case isTrue hkey =>
      subst hkey
      simp only [bind_eq_ok, pure_def, Except.ok.injEq] at run
      obtain ⟨⟨name, defined⟩, hdef, rfl⟩ := run
      obtain ⟨rfl, hgives⟩ := processXxProcesses_ok (u := ⟨i, false, xxProcesses v _⟩) rfl hdef
      exact ⟨_, by simp [keyUse, hv], rfl, hgives, rfl⟩
    case isFalse => cases run

variable (y) in
structure SliceBuilt (i : SliceId) (us : List Use) (st : Defined) (f : Fields) (st' : Defined) :
    Prop where
  gives : Gives y us st st'
  slices : ∀ u ∈ us, u.slice = i
  fixed : SliceFixed y f
  stored : ∀ sc, f.find (roleKey sc) = (storedName (namedUses y us st.counter) (i, sc)).map .scalar

theorem SliceBuilt.use {i : SliceId} {us : List Use} {st st' st'' : Defined} {f : Fields} {u : Use}
    (h : SliceBuilt y i us st f st') (slice : u.slice = i) (gives : Gives y [u] st' st'') :
    SliceBuilt y i (us ++ [u]) st
      (f.set (roleKey u.sc) (.scalar (useName y u st'.counter))) st'' := by
  refine ⟨h.gives.append gives, ?_, h.fixed.set (.inr ⟨roleKey_mem _, _, rfl⟩), ?_⟩
  · intro v hv
    rcases List.mem_append.mp hv with hv | hv
    · exact h.slices v hv
    · exact (List.mem_singleton.mp hv) ▸ slice
  · intro sc
    rw [namedUses_append, ← h.gives.counter, storedName_append, Fields.find_set]
    simp only [roleKey_inj]
    have hlast : storedName (namedUses y [u] st'.counter) (i, sc) =
        if u.sc = sc then some (useName y u st'.counter) else none := by
      by_cases hsc : u.sc = sc <;> simp [storedName, namedUses, Use.role, slice, hsc]
    rw [hlast]
    split
    case isTrue => rfl
    case isFalse => simpa using h.stored sc

theorem SliceBuilt.other {i : SliceId} {us : List Use} {st st' : Defined} {f : Fields}
    (h : SliceBuilt y i us st f st') {k : String} {v : Node}
    (fixed : (k = "cpu" ∧ ∃ s, v = .scalar s) ∨ (k = "frequency" ∧ ∃ x, v = y.double x)) :
    SliceBuilt y i us st (f.set k v) st' := by
  have hne : ∀ sc, k ≠ roleKey sc := by
    rintro (_ | _) <;> rcases fixed with ⟨rfl, -⟩ | ⟨rfl, -⟩ <;> decide
  refine ⟨h.gives, h.slices, h.fixed.set ?_, ?_⟩
  · rcases fixed with ⟨rfl, hs⟩ | hx
    · exact .inr ⟨by decide, hs⟩
    · exact .inl hx
  · intro sc
    rw [Fields.find_set_ne (hne sc)]
    exact h.stored sc

theorem sliceKeys_built (i : SliceId) {slice : Node} {wl : Single} {st st' : Defined} {f : Fields}
    (run : slice.keys.foldlM (normalizeSliceKey y slice wl) ([], st) = .ok (f, st')) :
    SliceBuilt y i (sliceUses y i slice wl) st f st' := by
  refine foldlM_induct (fun pre (r : Fields × Defined) => SliceBuilt y i
    (pre.filterMap fun key => (y.asString key).toOption.bind (keyUse i slice wl)) st r.1 r.2)
    ?_ ⟨.nil st, by simp, ⟨by simp [Fields.keys], by simp⟩, by simp⟩ run
  intro pre key post r r' _ h hstep
  cases hk : y.asString key with
  | error e => simp [normalizeSliceKey, hk] at hstep
  | ok k =>
    rw [List.filterMap_append]
    rcases normalizeSliceKey_ok i hk hstep with ⟨hnone, hsame, v, hset, hfixed⟩ |
      ⟨u, hu, hslice, hgives, hset⟩
    · have hlast : [key].filterMap (fun key => (y.asString key).toOption.bind
          (keyUse i slice wl)) = [] := by simp [hk, Except.toOption, hnone]
      rw [hlast, List.append_nil, hset, hsame]
      exact h.other hfixed
    · have hlast : [key].filterMap (fun key => (y.asString key).toOption.bind
          (keyUse i slice wl)) = [u] := by simp [hk, Except.toOption, hu]
      rw [hlast, hset]
      exact h.use hslice hgives

end DemosSched
