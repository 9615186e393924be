import DemosSched.Definitions

/-! The two forms in which a slice can be given, and which keys and values each of them
accepts. The keys of a window are checked against each other and copied in a fixed order;
those of a slice are taken as they come, the later over the earlier. -/

namespace DemosSched

open Yaml Fallible

variable {δ : Type} {y : Conversions δ} {maxCpus : Nat}

def windowKeys : List String :=
  ["cpu", "sc_partition", "be_partition", "sc_processes", "be_processes"]

def processesKey (sc : Bool) : String := if sc then "sc_processes" else "be_processes"

def share (sc : Bool) : Single := if sc then scShare else beShare

/-- `{length: <length>, slices: [{<entries>}]}` -/
def explicitWindow (length : Node) (entries : List (Node × Node)) : Node :=
  .map [(.scalar "length", length), (.scalar "slices", .seq [.map entries])]

/-- `{length: <length>, <entries>}` -/
def inlineWindow (length : Node) (entries : List (Node × Node)) : Node :=
  .map ((.scalar "length", length) :: entries)

def KeysIn (known : List String) (entries : List (Node × Node)) : Prop :=
  ∀ e ∈ entries, ∃ k ∈ known, e.1 = .scalar k

def Exclusive (entries : List (Node × Node)) : Prop :=
  ∀ sc, (Node.map entries).has (roleKey sc) = true → (Node.map entries).has (processesKey sc) = false

variable (y maxCpus) in
/-- Every value is accepted by its own reader: a CPU list, a number, the name or the
definition of a partition, or processes. -/
structure Readable (entries : List (Node × Node)) (wl : Single) : Prop where
  cpu : ∀ v, (Node.map entries).find "cpu" = some v →
    ∃ s set, y.asString (some v) = .ok s ∧ parseCpuSet maxCpus s ∅ = .ok set
  frequency : ∀ v, (Node.map entries).find "frequency" = some v →
    ∃ q, y.asDouble (some v) = .ok q
  partition : ∀ sc v, (Node.map entries).find (roleKey sc) = some v →
    v.isScalar = true ∨ ∃ np, normalizePartition y v (wl.mul (share sc)) 0 = .ok np
  processes : ∀ sc v, (Node.map entries).find (processesKey sc) = some v →
    ∃ np, normalizePartition y (Fields.toNode [("processes", v)]) (wl.mul (share sc)) 0 = .ok np

def windowOf (y : Conversions δ) (length : Int) (r : Node × Defined) : Node × Defined :=
  (Fields.toNode [("length", y.int length), ("slices", .sequence [r.1])], r.2)

theorem explicitWindow_eq (length : Node) (entries : List (Node × Node)) (st : Defined) :
    normalizeWindow y maxCpus (explicitWindow length entries) st =
      (y.asInt (some length)).bind fun n =>
        (normalizeSlice y maxCpus (.map entries) (.ofInt n) st).map (windowOf y n) := by
  have hget : (explicitWindow length entries).get "length" = .ok (some length) := rfl
  have hcheck : checkWindow (explicitWindow length entries) = .ok () := rfl
  rw [normalizeWindow, hget, bind_def, bind_ok, bind_def]
  congr 1
  funext n
  have hkeys : (explicitWindow length entries).keys =
      [some (.scalar "length"), some (.scalar "slices")] := rfl
  have hslices : (((explicitWindow length entries).find "slices").getD .null).elements =
      [some (.map entries)] := rfl
  have hsize : (explicitWindow length entries).size = 2 := rfl
  simp only [hcheck, bind_def, bind_ok, hkeys, List.foldlM_cons, List.foldlM_nil, hsize,
    normalizeWindowKey, Conversions.asString, if_true, pure_def, Fields.set, String.reduceEq,
    if_false, hslices, normalizeSlices, Option.getD_some, List.nil_append]
  cases normalizeSlice y maxCpus (.map entries) (.ofInt n) st <;> rfl

abbrev Plain : List (Node × Node) → Prop := KeysIn windowKeys

def copied (entries : List (Node × Node)) : Node :=
  Fields.toNode (windowKeys.filterMap fun k => ((Node.map entries).find k).map (k, ·))

theorem find_copied {entries : List (Node × Node)} {k : String} (mem : k ∈ windowKeys) :
    (copied entries).find k = (Node.map entries).find k := by
  rw [copied, Fields.find_toNode, Fields.find_copy, if_pos mem]

theorem find_inlineWindow {length : Node} {entries : List (Node × Node)} {k : String}
    (ne : k ≠ "length") : (inlineWindow length entries).find k = (Node.map entries).find k := by
  simp [inlineWindow, Node.find, Node.isKey, Ne.symm ne]

theorem has_inlineWindow {length : Node} {entries : List (Node × Node)} {k : String}
    (ne : k ≠ "length") : (inlineWindow length entries).has k = (Node.map entries).has k := by
  rw [Node.has, find_inlineWindow ne, Node.has]

theorem inlineSlice_inlineWindow (length : Node) {entries : List (Node × Node)}
    (cpu : (Node.map entries).has "cpu" = true) :
    inlineSlice (inlineWindow length entries) = copied entries := by
  rw [inlineSlice, has_inlineWindow (by decide), if_pos cpu, List.nil_append]
  exact congrArg _ (List.filterMap_congr fun k hk => by
    rw [find_inlineWindow (by rintro rfl; simp at hk)])

theorem has_of_entry {entries : List (Node × Node)} {e : Node × Node} (mem : e ∈ entries)
    {k : String} (key : e.1 = .scalar k) : (Node.map entries).has k = true := by
  simp only [Node.has, Node.find, Option.isSome_map, List.find?_isSome]
  exact ⟨e, mem, by simp [key, Node.isKey]⟩

theorem KeysIn.key {known : List String} {entries : List (Node × Node)} (h : KeysIn known entries)
    {key : Option Node} (mem : key ∈ (Node.map entries).keys) :
    ∃ k ∈ known, key = some (.scalar k) := by
  obtain ⟨e, he, rfl⟩ := List.mem_map.mp mem
  obtain ⟨k, hk, hek⟩ := h e he
  exact ⟨k, hk, by rw [hek]⟩

theorem KeysIn.has {known : List String} {entries : List (Node × Node)} (h : KeysIn known entries)
    {k : String} (has : (Node.map entries).has k = true) : k ∈ known := by
  obtain ⟨l, hl, hkey⟩ := h.key (keys_of_has has)
  rw [Option.some.injEq, Node.scalar.injEq] at hkey
  exact hkey ▸ hl

theorem KeysIn.none {known : List String} {entries : List (Node × Node)} (h : KeysIn known entries)
    {k : String} (unknown : k ∉ known) : (Node.map entries).has k = false := by
  by_contra hhas
  exact unknown (h.has (by simpa using hhas))

theorem KeysIn.plain {entries : List (Node × Node)} {extra : String}
    (h : KeysIn (extra :: windowKeys) entries) (none : (Node.map entries).has extra = false) :
    Plain entries := by
  intro e he
  obtain ⟨k, hk, hek⟩ := h e he
  rcases List.mem_cons.mp hk with rfl | hk
  · exact absurd (has_of_entry he hek) (by simp [none])
  · exact ⟨k, hk, hek⟩

theorem KeysIn.cons {entries : List (Node × Node)} (plain : Plain entries) (k : String) :
    KeysIn (k :: windowKeys) entries := fun e he =>
  let ⟨l, hl, hel⟩ := plain e he
  ⟨l, List.mem_cons_of_mem _ hl, hel⟩

theorem inlineWindow_eq {entries : List (Node × Node)}
    (known : KeysIn ("length" :: windowKeys) entries) (exclusive : Exclusive entries)
    (cpu : (Node.map entries).has "cpu" = true) (length : Node) (st : Defined) :
    normalizeWindow y maxCpus (inlineWindow length entries) st =
      (y.asInt (some length)).bind fun n =>
        (normalizeSlice y maxCpus (copied entries) (.ofInt n) st).map (windowOf y n) := by
  have hget : (inlineWindow length entries).get "length" = .ok (some length) := rfl
  have hslices : (inlineWindow length entries).has "slices" = false := by
    rw [has_inlineWindow (by decide)]
    by_contra h
    exact absurd (known.has (by simpa using h)) (by decide)
  have hcheck : checkWindow (inlineWindow length entries) = .ok () := by
    unfold checkWindow
    rw [hslices, has_inlineWindow (k := "sc_partition") (by decide),
      has_inlineWindow (k := "be_partition") (by decide),
      has_inlineWindow (k := "sc_processes") (by decide),
      has_inlineWindow (k := "be_processes") (by decide)]
    have hsc : (Node.map entries).has "sc_partition" = true →
      (Node.map entries).has "sc_processes" = false := exclusive true
    have hbe : (Node.map entries).has "be_partition" = true →
      (Node.map entries).has "be_processes" = false := exclusive false
    cases hsc' : (Node.map entries).has "sc_partition" <;>
      cases hbe' : (Node.map entries).has "be_partition" <;> simp_all
  rw [normalizeWindow, hget, bind_def, bind_ok, bind_def]
  congr 1
  funext n
  have hloop : (inlineWindow length entries).keys.foldlM
      (normalizeWindowKey y maxCpus (inlineWindow length entries) n) ([], st) =
        .ok ([("length", y.int n)], st) := by
    have hkeys : (inlineWindow length entries).keys =
        some (.scalar "length") :: (Node.map entries).keys := rfl
    have hfirst : normalizeWindowKey y maxCpus (inlineWindow length entries) n ([], st)
        (some (.scalar "length")) = .ok ([("length", y.int n)], st) := rfl
    rw [hkeys, List.foldlM_cons, hfirst, bind_def, bind_ok]
    refine foldlM_fixed fun key hkey => ?_
    obtain ⟨k, hk, rfl⟩ := known.key hkey
    simp only [windowKeys, List.mem_cons, List.not_mem_nil, or_false] at hk
    rcases hk with rfl | rfl | rfl | rfl | rfl | rfl <;> rfl
  have hsize : ¬ ((inlineWindow length entries).size = 1 ∧
      (inlineWindow length entries).has "length" = true) := by
    rintro ⟨hsize, -⟩
    have hnil : entries = [] := by simpa [inlineWindow, Node.size] using hsize
    simp [hnil, Node.has, Node.find] at cpu
  have hcopy := copyKeys_eq (n := inlineWindow length entries) (f := []) rfl windowKeys
    (by decide) (by simp [Fields.keys])
  have hcpu : (inlineWindow length entries).has "cpu" = true := by
    rwa [has_inlineWindow (by decide)]
  have hslice := inlineSlice_inlineWindow length cpu
  rw [inlineSlice, if_pos hcpu, List.nil_append] at hslice
  have hlength : (Fields.has [("length", y.int n)] "slices") = false := rfl
  rw [windowKeys, List.nil_append] at hcopy
  simp only [hcheck, hloop, bind_def, bind_ok, if_neg hsize, hlength, Bool.false_eq_true, if_false,
    if_pos hcpu, hcopy, hslice]
  cases normalizeSlice y maxCpus (copied entries) (.ofInt n) st <;> rfl

theorem asString_key (null : ∀ text, y.nullText = some text → text = "null") {key : Option Node}
    {k : String} (h : y.asString key = .ok k) : key = some (.scalar k) ∨ k = "null" := by
  match key with
  | some (.scalar text) =>
    cases h
    exact .inl rfl
  | some .null =>
    cases ht : y.nullText with
    | none => simp [Conversions.asString, ht] at h
    | some text =>
      simp only [Conversions.asString, ht, Option.elim_some, Except.ok.injEq] at h
      exact .inr (h ▸ null text ht)
  | some (.seq _) | some (.map _) | none => cases h

theorem normalizeSlice_keys (null : ∀ text, y.nullText = some text → text = "null")
    {entries : List (Node × Node)} {wl : Single} {st : Defined} {r : Node × Defined}
    (run : normalizeSlice y maxCpus (.map entries) wl st = .ok r) :
    KeysIn ("frequency" :: windowKeys) entries := by
  simp only [normalizeSlice, bind_def, bind_eq_ok] at run
  obtain ⟨r', hloop, -⟩ := run
  intro e he
  obtain ⟨q, q', hstep⟩ := foldlM_each hloop (List.mem_map_of_mem he)
  simp only [normalizeSliceKey, bind_def, bind_eq_ok] at hstep
  obtain ⟨k, hk, hstep⟩ := hstep
  have hknown : k ∈ "frequency" :: windowKeys := by
    simp only [windowKeys, List.mem_cons, List.not_mem_nil, or_false]
    by_contra hno
    simp only [not_or] at hno
    simp [hno] at hstep
  rcases asString_key null hk with hkey | rfl
  · exact ⟨k, hknown, Option.some.inj hkey⟩
  · simp [windowKeys] at hknown

theorem normalizeWindow_keys (null : ∀ text, y.nullText = some text → text = "null")
    {entries : List (Node × Node)} (cpu : (Node.map entries).has "cpu" = true) {length : Node}
    {st : Defined} {r : Node × Defined}
    (run : normalizeWindow y maxCpus (inlineWindow length entries) st = .ok r) :
    KeysIn ("length" :: windowKeys) entries ∧ Exclusive entries := by
  simp only [normalizeWindow, bind_def, bind_eq_ok] at run
  obtain ⟨-, -, n, -, ⟨⟩, hcheck, r', hloop, -⟩ := run
  simp only [checkWindow, has_inlineWindow (k := "slices") (by decide),
    has_inlineWindow (k := "cpu") (by decide), has_inlineWindow (k := "sc_partition") (by decide),
    has_inlineWindow (k := "be_partition") (by decide),
    has_inlineWindow (k := "sc_processes") (by decide),
    has_inlineWindow (k := "be_processes") (by decide), cpu] at hcheck
  have hslices : (Node.map entries).has "slices" = false := by
    by_contra h
    rw [Bool.not_eq_false] at h
    simp only [h] at hcheck
    split at hcheck
    case isTrue => cases hcheck
    case isFalse => cases hcheck
  simp only [hslices, Bool.false_and, Bool.false_eq_true, if_false] at hcheck
  constructor
  · intro e he
    have hmem : some e.1 ∈ (inlineWindow length entries).keys :=
      List.mem_cons_of_mem _ (List.mem_map_of_mem he)
    obtain ⟨q, q', hstep⟩ := foldlM_each hloop hmem
    simp only [normalizeWindowKey, bind_def, bind_eq_ok] at hstep
    obtain ⟨k, hk, hstep⟩ := hstep
    have hknown : k ∈ windowKeys ∨ k = "length" ∨ k = "slices" := by
      by_contra hno
      simp only [not_or] at hno
      have hlist := hno.1
      rw [windowKeys] at hlist
      simp [hno.2.1, hno.2.2, hlist] at hstep
    rcases asString_key null hk with hkey | rfl
    · rw [Option.some.injEq] at hkey
      rcases hknown with h | h | rfl
      · exact ⟨k, List.mem_cons_of_mem _ h, hkey⟩
      · exact ⟨k, by simp [h], hkey⟩
      · exact absurd (has_of_entry he hkey) (by simp [hslices])
    · simp [windowKeys] at hknown
  · rintro (_ | _) hpartition <;> by_contra hprocesses <;>
      simp_all [roleKey, processesKey]

theorem normalizePartition_total {part : Node} {t : Single} {n : Nat} {r : Node × Nat}
    (run : normalizePartition y part t n = .ok r) (n' : Nat) :
    ∃ r', normalizePartition y part t n' = .ok r' := by
  simp only [normalizePartition, bind_def, bind_eq_ok] at run
  obtain ⟨⟨f, ps⟩, hread, run⟩ := run
  obtain ⟨rfl, -⟩ := readPartition_ok hread
  simp only [setDefaultName_eq] at run
  rw [if_neg (by simp [Fields.has])] at run
  obtain ⟨ps', hps, -⟩ := bind_eq_ok.mp run
  simp only [normalizePartition, hread, bind_def, bind_ok, setDefaultName_eq]
  rw [if_neg (by simp [Fields.has]), hps, bind_ok]
  exact ⟨_, rfl⟩

theorem definePartition_accepts_iff {part : Node} {t : Single} (st : Defined) :
    (∃ r, definePartition y part t st = .ok r) ↔ ∃ np, normalizePartition y part t 0 = .ok np := by
  constructor
  · rintro ⟨r, run⟩
    simp only [definePartition, bind_def, bind_eq_ok] at run
    obtain ⟨⟨np, n⟩, hpart, -⟩ := run
    exact normalizePartition_total hpart 0
  · rintro ⟨r, hr⟩
    obtain ⟨⟨np, n⟩, hpart⟩ := normalizePartition_total hr st.counter
    obtain ⟨nps, -, rfl, -⟩ := normalizePartition_ok hpart
    exact ⟨_, by simp only [definePartition, hpart, bind_def, bind_ok, asString_partitionNode]; rfl⟩

theorem sliceKeys_other {slice : Node} {wl : Single} {st st' : Defined} {f : Fields}
    (known : ∀ key ∈ slice.keys, ∃ k ∈ "frequency" :: windowKeys, key = some (.scalar k))
    (cpu : slice.has "cpu" = true)
    (run : slice.keys.foldlM (normalizeSliceKey y slice wl) ([], st) = .ok (f, st')) {k : String}
    (other : ∀ sc, k ≠ roleKey sc)
    (unread : some (.scalar "frequency") ∈ slice.keys → k ≠ "frequency") :
    f.find k = if k = "cpu" then (y.asString (slice.find "cpu")).toOption.map .scalar
      else none := by
  have hloop := foldlM_induct (fun pre (r : Fields × Defined) =>
    (k = "cpu" → some (.scalar "cpu") ∈ pre →
      r.1.find k = (y.asString (slice.find "cpu")).toOption.map .scalar) ∧
    (k ≠ "cpu" → r.1.find k = none)) ?step (by simp) run
  case step =>
    rintro pre key post r r' hsplit ⟨ihcpu, ihother⟩ hstep
    obtain ⟨l, hl, rfl⟩ := known key (by simp [hsplit])
    by_cases hcpu : l = "cpu"
    · subst hcpu
      simp only [normalizeSliceKey, Conversions.asString, bind_def, bind_ok, if_true,
        bind_eq_ok, pure_def, Except.ok.injEq] at hstep
      obtain ⟨s, hs, rfl⟩ := hstep
      have hs' : y.asString (slice.find "cpu") = .ok s := hs
      rw [Fields.find_set, hs']
      constructor
      · rintro rfl -
        simp [Except.toOption]
      · intro hk
        rw [if_neg (Ne.symm hk)]
        exact ihother hk
    · have hname : y.asString (some (.scalar l)) = .ok l := rfl
      rcases normalizeSliceKey_ok ⟨0, 0⟩ hname hstep with ⟨-, -, v, hv, ⟨h, -⟩ | ⟨h, -⟩⟩ |
        ⟨u, -, -, -, hu⟩
      · exact absurd h hcpu
      · subst h
        rw [hv, Fields.find_set_ne (Ne.symm (unread (by simp [hsplit])))]
        exact ⟨fun hk hmem => ihcpu hk (by simpa using hmem), ihother⟩
      · rw [hu, Fields.find_set_ne (Ne.symm (other u.sc))]
        refine ⟨fun hk hmem => ihcpu hk ?_, ihother⟩
        simpa [Ne.symm hcpu] using hmem
  by_cases hk : k = "cpu"
  · rw [if_pos hk]
    exact hloop.1 hk (keys_of_has cpu)
  · rw [if_neg hk]
    exact hloop.2 hk

theorem partitionKey_eq {slice v : Node} {wl : Single} {q : Fields × Defined} (sc : Bool)
    (find : slice.find (roleKey sc) = some v) :
    normalizeSliceKey y slice wl q (some (.scalar (roleKey sc))) =
      (processXxPartitionAndGetName y v (wl.mul (share sc)) q.2).map fun d =>
        (q.1.set (roleKey sc) (.scalar d.1), d.2) := by
  cases sc
  · have hfind : slice.find "be_partition" = some v := find
    simp only [normalizeSliceKey, show roleKey false = "be_partition" from rfl,
      Conversions.asString, bind_def, bind_ok, hfind, String.reduceEq, if_false, if_true,
      Node.valid, show share false = beShare from rfl]
    cases processXxPartitionAndGetName y v (wl.mul beShare) q.2 <;> rfl
  · have hfind : slice.find "sc_partition" = some v := find
    simp only [normalizeSliceKey, show roleKey true = "sc_partition" from rfl,
      Conversions.asString, bind_def, bind_ok, hfind, String.reduceEq, if_false, if_true,
      Node.valid, show share true = scShare from rfl]
    cases processXxPartitionAndGetName y v (wl.mul scShare) q.2 <;> rfl

theorem processesKey_eq {slice v : Node} {wl : Single} {q : Fields × Defined} (sc : Bool)
    (find : slice.find (processesKey sc) = some v) :
    normalizeSliceKey y slice wl q (some (.scalar (processesKey sc))) =
      (processXxProcessesAndGetName y v (wl.mul (share sc)) q.2).map fun d =>
        (q.1.set (roleKey sc) (.scalar d.1), d.2) := by
  cases sc
  · have hfind : slice.find "be_processes" = some v := find
    simp only [normalizeSliceKey, show processesKey false = "be_processes" from rfl,
      Conversions.asString, bind_def, bind_ok, hfind, String.reduceEq, if_false, if_true,
      Node.valid, show share false = beShare from rfl]
    cases processXxProcessesAndGetName y v (wl.mul beShare) q.2 <;> rfl
  · have hfind : slice.find "sc_processes" = some v := find
    simp only [normalizeSliceKey, show processesKey true = "sc_processes" from rfl,
      Conversions.asString, bind_def, bind_ok, hfind, String.reduceEq, if_false, if_true,
      Node.valid, show share true = scShare from rfl]
    cases processXxProcessesAndGetName y v (wl.mul scShare) q.2 <;> rfl

theorem processXxPartition_accepts_iff {v : Node} {t : Single} (st : Defined) :
    (∃ r, processXxPartitionAndGetName y v t st = .ok r) ↔
      v.isScalar = true ∨ ∃ np, normalizePartition y v t 0 = .ok np := by
  unfold processXxPartitionAndGetName
  split
  case isTrue hscalar =>
    refine iff_of_true ?_ (.inl hscalar)
    cases v with
    | scalar text => exact ⟨(text, st), rfl⟩
    | null | seq | map => cases hscalar
  case isFalse hscalar =>
    rw [definePartition_accepts_iff, or_iff_right hscalar]

theorem cpuKey_eq {slice : Node} {wl : Single} {q : Fields × Defined} :
    normalizeSliceKey y slice wl q (some (.scalar "cpu")) =
      (y.asString (slice.find "cpu")).map fun s => (q.1.set "cpu" (.scalar s), q.2) := by
  simp only [normalizeSliceKey, Conversions.asString, bind_def, bind_ok, if_true]
  cases y.asString (slice.find "cpu") <;> rfl

theorem frequencyKey_eq {slice : Node} {wl : Single} {q : Fields × Defined} :
    normalizeSliceKey y slice wl q (some (.scalar "frequency")) =
      (y.asDouble (slice.find "frequency")).map fun x => (q.1.set "frequency" (y.double x), q.2) := by
  simp only [normalizeSliceKey, Conversions.asString, bind_def, bind_ok, String.reduceEq, if_false,
    if_true]
  cases y.asDouble (slice.find "frequency") <;> rfl

theorem sliceKeys_cpu {entries : List (Node × Node)} {wl : Single} {st st' : Defined} {f : Fields}
    (known : KeysIn ("frequency" :: windowKeys) entries)
    (cpu : (Node.map entries).has "cpu" = true)
    (run : (Node.map entries).keys.foldlM (normalizeSliceKey y (.map entries) wl) ([], st) =
      .ok (f, st')) :
    f.find "cpu" = (y.asString ((Node.map entries).find "cpu")).toOption.map .scalar :=
  sliceKeys_other (fun _ => known.key) cpu run (by rintro (_ | _) <;> decide) fun _ => by decide

theorem readable_of_normalizeSlice {entries : List (Node × Node)} {wl : Single} {st : Defined}
    {r : Node × Defined} (known : KeysIn ("frequency" :: windowKeys) entries)
    (cpu : (Node.map entries).has "cpu" = true)
    (run : normalizeSlice y maxCpus (.map entries) wl st = .ok r) :
    Readable y maxCpus entries wl := by
  simp only [normalizeSlice, bind_def, bind_eq_ok] at run
  obtain ⟨⟨f, st'⟩, hloop, hrest⟩ := run
  have heach : ∀ {k v}, (Node.map entries).find k = some v →
      ∃ q q', normalizeSliceKey y (.map entries) wl q (some (.scalar k)) = .ok q' := fun hv =>
    foldlM_each hloop (keys_of_has (by rw [Node.has, hv]; rfl))
  refine ⟨fun v hv => ?_, fun v hv => ?_, fun sc v hv => ?_, fun sc v hv => ?_⟩
  · obtain ⟨q, q', hstep⟩ := heach hv
    rw [cpuKey_eq, hv, map_eq_ok] at hstep
    obtain ⟨s, hs, -⟩ := hstep
    have hfind := sliceKeys_cpu known cpu hloop
    rw [hv, hs] at hfind
    have hhas : f.has "cpu" = true := by rw [Fields.has, hfind]; rfl
    simp only [hhas, if_true, hfind, Except.toOption, Option.map_some, Conversions.asString,
      bind_ok, bind_eq_ok] at hrest
    obtain ⟨set, hset, -⟩ := hrest
    exact ⟨s, set, hs, hset⟩
  · obtain ⟨q, q', hstep⟩ := heach hv
    rw [frequencyKey_eq, hv, map_eq_ok] at hstep
    obtain ⟨x, hx, -⟩ := hstep
    exact ⟨x, hx⟩
  · obtain ⟨q, q', hstep⟩ := heach hv
    rw [partitionKey_eq sc hv, map_eq_ok] at hstep
    obtain ⟨d, hd, -⟩ := hstep
    exact (processXxPartition_accepts_iff _).mp ⟨d, hd⟩
  · obtain ⟨q, q', hstep⟩ := heach hv
    rw [processesKey_eq sc hv, map_eq_ok] at hstep
    obtain ⟨d, hd, -⟩ := hstep
    exact (definePartition_accepts_iff _).mp ⟨d, hd⟩

theorem Readable.sliceKey {entries : List (Node × Node)} {wl : Single}
    (h : Readable y maxCpus entries wl) {k : String} (known : k ∈ "frequency" :: windowKeys)
    {v : Node} (find : (Node.map entries).find k = some v) (q : Fields × Defined) :
    ∃ q', normalizeSliceKey y (.map entries) wl q (some (.scalar k)) = .ok q' := by
  have hpartition : ∀ sc, k = roleKey sc →
      ∃ q', normalizeSliceKey y (.map entries) wl q (some (.scalar k)) = .ok q' := by
    rintro sc rfl
    obtain ⟨d, hd⟩ := (processXxPartition_accepts_iff q.2).mpr (h.partition sc v find)
    exact ⟨_, by rw [partitionKey_eq sc find, hd]; rfl⟩
  have hprocesses : ∀ sc, k = processesKey sc →
      ∃ q', normalizeSliceKey y (.map entries) wl q (some (.scalar k)) = .ok q' := by
    rintro sc rfl
    obtain ⟨d, hd⟩ := (definePartition_accepts_iff q.2).mpr (h.processes sc v find)
    exact ⟨_, by rw [processesKey_eq sc find, processXxProcessesAndGetName, hd]; rfl⟩
  simp only [windowKeys, List.mem_cons, List.not_mem_nil, or_false] at known
  rcases known with rfl | rfl | hk | hk | hk | hk
  · obtain ⟨x, hx⟩ := h.frequency v find
    exact ⟨_, by rw [frequencyKey_eq, find, hx]; rfl⟩
  · obtain ⟨s, set, hs, -⟩ := h.cpu v find
    exact ⟨_, by rw [cpuKey_eq, find, hs]; rfl⟩
  · exact hpartition true hk
  · exact hpartition false hk
  · exact hprocesses true hk
  · exact hprocesses false hk

theorem Readable.normalizeSlice {entries : List (Node × Node)} {wl : Single}
    (h : Readable y maxCpus entries wl) (known : KeysIn ("frequency" :: windowKeys) entries)
    (cpu : (Node.map entries).has "cpu" = true) (st : Defined) :
    ∃ r, normalizeSlice y maxCpus (.map entries) wl st = .ok r := by
  obtain ⟨⟨f, st'⟩, hloop, -⟩ := foldlM_total (f := normalizeSliceKey y (.map entries) wl)
    (l := (Node.map entries).keys) (s := ([], st)) (fun _ _ => True) (by
      intro pre key post q hsplit _
      obtain ⟨e, he, rfl⟩ := List.mem_map.mp
        (show key ∈ (Node.map entries).keys by simp [hsplit])
      obtain ⟨k, hk, hek⟩ := known e he
      obtain ⟨v, hv⟩ := Option.isSome_iff_exists.mp (has_of_entry he hek)
      obtain ⟨q', hq'⟩ := h.sliceKey hk hv q
      exact ⟨q', by rw [hek, hq'], trivial⟩) trivial
  obtain ⟨v, hv⟩ := Option.isSome_iff_exists.mp cpu
  obtain ⟨s, set, hs, hset⟩ := h.cpu v hv
  have hfind := sliceKeys_cpu known cpu hloop
  rw [hv, hs] at hfind
  have hhas : f.has "cpu" = true := by rw [Fields.has, hfind]; rfl
  refine ⟨(f.toNode, st'), ?_⟩
  rw [DemosSched.normalizeSlice, hloop]
  simp [hhas, hfind, Except.toOption, Conversions.asString, hset]

theorem normalizeSlice_accepts_iff {entries : List (Node × Node)} {wl : Single} (st : Defined)
    (known : KeysIn ("frequency" :: windowKeys) entries)
    (cpu : (Node.map entries).has "cpu" = true) :
    (∃ r, normalizeSlice y maxCpus (.map entries) wl st = .ok r) ↔
      Readable y maxCpus entries wl :=
  ⟨fun ⟨_, run⟩ => readable_of_normalizeSlice known cpu run,
    fun h => h.normalizeSlice known cpu st⟩

theorem readable_congr {entries entries' : List (Node × Node)} {wl : Single}
    (find : ∀ k ∈ "frequency" :: windowKeys,
      (Node.map entries').find k = (Node.map entries).find k) :
    Readable y maxCpus entries' wl ↔ Readable y maxCpus entries wl := by
  have hroles : ∀ sc, (Node.map entries').find (roleKey sc) = (Node.map entries).find (roleKey sc) :=
    fun sc => find _ (by cases sc <;> decide)
  have hprocesses : ∀ sc,
      (Node.map entries').find (processesKey sc) = (Node.map entries).find (processesKey sc) :=
    fun sc => find _ (by cases sc <;> decide)
  have hcpu := find "cpu" (by decide)
  have hfrequency := find "frequency" (by decide)
  constructor <;> rintro ⟨h₁, h₂, h₃, h₄⟩ <;> constructor <;> simp_all

def copiedEntries (entries : List (Node × Node)) : List (Node × Node) :=
  (windowKeys.filterMap fun k => ((Node.map entries).find k).map (k, ·)).map fun e =>
    (.scalar e.1, e.2)

theorem copied_eq {entries : List (Node × Node)} (cpu : (Node.map entries).has "cpu" = true) :
    copied entries = .map (copiedEntries entries) := by
  obtain ⟨v, hv⟩ := Option.isSome_iff_exists.mp cpu
  rw [copied, Fields.toNode, if_neg (by simp [windowKeys, hv]), copiedEntries]

theorem plain_copiedEntries (entries : List (Node × Node)) : Plain (copiedEntries entries) := by
  intro e he
  obtain ⟨f, hf, rfl⟩ := List.mem_map.mp he
  obtain ⟨k, hk, hkf⟩ := List.mem_filterMap.mp hf
  obtain ⟨v, -, rfl⟩ := Option.map_eq_some_iff.mp hkf
  exact ⟨k, hk, rfl⟩

theorem explicitWindow_accepts_iff (null : ∀ text, y.nullText = some text → text = "null")
    {entries : List (Node × Node)} (cpu : (Node.map entries).has "cpu" = true) (length : Node)
    (st : Defined) :
    (∃ r, normalizeWindow y maxCpus (explicitWindow length entries) st = .ok r) ↔
      KeysIn ("frequency" :: windowKeys) entries ∧
        ∃ n, y.asInt (some length) = .ok n ∧ Readable y maxCpus entries (.ofInt n) := by
  simp only [explicitWindow_eq, bind_eq_ok, map_eq_ok]
  constructor
  · rintro ⟨-, n, hn, r, hr, -⟩
    have hkeys := normalizeSlice_keys null hr
    exact ⟨hkeys, n, hn, (normalizeSlice_accepts_iff st hkeys cpu).mp ⟨r, hr⟩⟩
  · rintro ⟨hkeys, n, hn, hread⟩
    obtain ⟨r, hr⟩ := (normalizeSlice_accepts_iff st hkeys cpu).mpr hread
    exact ⟨_, n, hn, r, hr, rfl⟩

/-- The window with the keys is accepted exactly if they are known, do not exclude each
other, and have readable values. -/
theorem inlineWindow_accepts_iff (null : ∀ text, y.nullText = some text → text = "null")
    {entries : List (Node × Node)} (cpu : (Node.map entries).has "cpu" = true) (length : Node)
    (st : Defined) :
    (∃ r, normalizeWindow y maxCpus (inlineWindow length entries) st = .ok r) ↔
      (KeysIn ("length" :: windowKeys) entries ∧ Exclusive entries) ∧
        ∃ n, y.asInt (some length) = .ok n ∧ Readable y maxCpus entries (.ofInt n) := by
  have hcopied : ∀ wl, KeysIn ("length" :: windowKeys) entries →
      ((∃ r, normalizeSlice y maxCpus (copied entries) wl st = .ok r) ↔
        Readable y maxCpus entries wl) := by
    intro wl hkeys
    rw [copied_eq cpu, normalizeSlice_accepts_iff st ((plain_copiedEntries entries).cons _) ?cpu]
    · refine readable_congr fun k hk => ?_
      rcases List.mem_cons.mp hk with rfl | hk
      · have h₁ := (plain_copiedEntries entries).none (k := "frequency") (by decide)
        have h₂ := hkeys.none (k := "frequency") (by decide)
        simp only [Node.has, Option.isSome_eq_false_iff, Option.isNone_iff_eq_none] at h₁ h₂
        rw [h₁, h₂]
      · rw [← copied_eq cpu, find_copied hk]
    case cpu => rw [← copied_eq cpu, Node.has, find_copied (by decide)]; exact cpu
  constructor
  · rintro ⟨r, hr⟩
    obtain ⟨hkeys, hexclusive⟩ := normalizeWindow_keys null cpu hr
    rw [inlineWindow_eq hkeys hexclusive cpu, bind_eq_ok] at hr
    obtain ⟨n, hn, hr⟩ := hr
    obtain ⟨r', hr', -⟩ := map_eq_ok.mp hr
    exact ⟨⟨hkeys, hexclusive⟩, n, hn, (hcopied _ hkeys).mp ⟨r', hr'⟩⟩
  · rintro ⟨⟨hkeys, hexclusive⟩, n, hn, hread⟩
    obtain ⟨r, hr⟩ := (hcopied _ hkeys).mpr hread
    exact ⟨_, by rw [inlineWindow_eq hkeys hexclusive cpu, hn, bind_ok, hr]; rfl⟩

end DemosSched
