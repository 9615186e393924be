import DemosSched.Definitions

/-! What `Config::normalize` accepts: the slices, windows and partitions of the
normal form, each traced back to what it was made from. -/

namespace DemosSched

open Yaml Fallible

variable {δ : Type} {y : Conversions δ} {maxCpus : Nat}

variable (y maxCpus) in
structure NormalSlice (f : Fields) : Prop extends SliceFixed y f where
  cpu : ∃ s set, f.find "cpu" = some (.scalar s) ∧ parseCpuSet maxCpus s ∅ = .ok set

theorem SliceFixed.find_cpu {f : Fields} (h : SliceFixed y f) (has : f.has "cpu" = true) :
    ∃ s, f.find "cpu" = some (.scalar s) := by
  obtain ⟨v, hv⟩ := Option.isSome_iff_exists.mp has
  rcases h.fixed _ (Fields.mem_of_find hv) with ⟨hkey, -⟩ | ⟨-, s, rfl⟩
  · simp at hkey
  · exact ⟨s, hv⟩

theorem normalizeSlice_ok (i : SliceId) {slice ns : Node} {wl : Single} {st st' : Defined}
    (run : normalizeSlice y maxCpus slice wl st = .ok (ns, st')) :
    ∃ f, ns = f.toNode ∧ NormalSlice y maxCpus f ∧
      SliceBuilt y i (sliceUses y i slice wl) st f st' := by
  simp only [normalizeSlice, bind_def, bind_eq_ok] at run
  obtain ⟨⟨f, defined⟩, hloop, run⟩ := run
  have hbuilt := sliceKeys_built i hloop
  split at run
  case isFalse => cases run
  case isTrue hcpu =>
    obtain ⟨s, hs⟩ := hbuilt.fixed.find_cpu hcpu
    simp only [hs, Conversions.asString, bind_ok, bind_eq_ok, Except.ok.injEq, pure_def,
      Prod.mk.injEq] at run
    obtain ⟨set, hset, rfl, rfl⟩ := run
    exact ⟨f, rfl, ⟨hbuilt.fixed, s, set, hs, hset⟩, hbuilt⟩

variable (y maxCpus) in
structure SlicesBuilt (w : Nat) (us : List Use) (st : Defined) (ns : List Node) (st' : Defined) :
    Prop where
  gives : Gives y us st st'
  normal : ∀ n ∈ ns, ∃ f, n = Fields.toNode f ∧ NormalSlice y maxCpus f
  slices : ∀ u ∈ us, u.slice.window = w ∧ u.slice.index < ns.length
  stored : ∀ i sc, ns[i]?.bind (·.find (roleKey sc)) =
    (storedName (namedUses y us st.counter) (⟨w, i⟩, sc)).map .scalar

theorem SlicesBuilt.snoc {w : Nat} {us vs : List Use} {st st' st'' : Defined} {ns : List Node}
    {f : Fields} (h : SlicesBuilt y maxCpus w us st ns st')
    (built : SliceBuilt y ⟨w, ns.length⟩ vs st' f st'') (normal : NormalSlice y maxCpus f) :
    SlicesBuilt y maxCpus w (us ++ vs) st (ns ++ [f.toNode]) st'' := by
  refine ⟨h.gives.append built.gives, ?_, ?_, ?_⟩
  · intro n hn
    rcases List.mem_append.mp hn with hn | hn
    · exact h.normal n hn
    · exact ⟨f, List.mem_singleton.mp hn, normal⟩
  · intro u hu
    rw [List.length_append, List.length_singleton]
    rcases List.mem_append.mp hu with hu | hu
    · obtain ⟨hw, hi⟩ := h.slices u hu
      exact ⟨hw, by omega⟩
    · rw [built.slices u hu]
      exact ⟨rfl, by simp⟩
  · intro i sc
    rw [namedUses_append, storedName_append, ← h.gives.counter]
    rcases Nat.lt_trichotomy i ns.length with hi | rfl | hi
    · have hnone : storedName (namedUses y vs st'.counter) (⟨w, i⟩, sc) = none := by
        refine storedName_elsewhere fun u hu hslice => ?_
        rw [built.slices u hu, SliceId.mk.injEq] at hslice
        omega
      rw [hnone, Option.none_or, List.getElem?_append_left hi, h.stored i sc]
    · have hnone : storedName (namedUses y us st.counter) (⟨w, ns.length⟩, sc) = none := by
        refine storedName_elsewhere fun u hu hslice => ?_
        have hlt := (h.slices u hu).2
        rw [hslice] at hlt
        exact absurd hlt (Nat.lt_irrefl _)
      rw [hnone, Option.or_none, List.getElem?_concat_length, Option.bind_some, Fields.find_toNode,
        built.stored sc]
    · have hnone : ∀ us' n, (∀ u ∈ us', u.slice.index ≤ ns.length) →
          storedName (namedUses y us' n) (⟨w, i⟩, sc) = none := by
        intro us' n hus
        refine storedName_elsewhere fun u hu hslice => ?_
        have hle := hus u hu
        rw [hslice] at hle
        exact absurd hle (Nat.not_le.mpr hi)
      rw [hnone us _ fun u hu => Nat.le_of_lt (h.slices u hu).2,
        hnone vs _ fun u hu => by rw [built.slices u hu]]
      simp [List.getElem?_eq_none (show (ns ++ [f.toNode]).length ≤ i by simp; omega)]

theorem normalizeSlices_ok (w : Nat) {slices : List (Option Node)} {wl : Single} {st st' : Defined}
    {ns : List Node} (run : normalizeSlices y maxCpus slices wl st = .ok (ns, st')) :
    SlicesBuilt y maxCpus w (slicesUses y w slices wl) st ns st' := by
  suffices h : ns.length = slices.length ∧
      SlicesBuilt y maxCpus w (slicesUses y w slices wl) st ns st' from h.2
  refine foldlM_induct (fun pre (r : List Node × Defined) => r.1.length = pre.length ∧
    SlicesBuilt y maxCpus w (slicesUses y w pre wl) st r.1 r.2)
    ?_ ⟨rfl, ⟨.nil st, by simp, by simp [slicesUses], by simp [slicesUses]⟩⟩ run
  intro pre slice post r r' _ ⟨hlength, h⟩ hstep
  simp only [bind_def, bind_eq_ok, pure_def, Except.ok.injEq] at hstep
  obtain ⟨⟨n, defined⟩, hslice, rfl⟩ := hstep
  obtain ⟨f, rfl, hnormal, hbuilt⟩ := normalizeSlice_ok ⟨w, r.1.length⟩ hslice
  have huses : slicesUses y w (pre ++ [slice]) wl =
      slicesUses y w pre wl ++ sliceUses y ⟨w, r.1.length⟩ (slice.getD .null) wl := by
    simp [slicesUses, List.zipIdx_append, hlength]
  rw [huses]
  exact ⟨by simp [hlength], h.snoc hbuilt hnormal⟩

variable (y maxCpus) in
structure WindowFixed (length : Int) (f : Fields) : Prop where
  nodup : f.keys.Nodup
  fixed : ∀ e ∈ f, (e.1 = "length" ∧ e.2 = y.int length) ∨ e.1 = "slices" ∧
    ∃ ns, e.2 = .sequence ns ∧ ∀ n ∈ ns, ∃ g, n = Fields.toNode g ∧ NormalSlice y maxCpus g

theorem WindowFixed.set {length : Int} {f : Fields} (h : WindowFixed y maxCpus length f) {k : String}
    {v : Node} (fixed : (k = "length" ∧ v = y.int length) ∨ k = "slices" ∧
      ∃ ns, v = .sequence ns ∧ ∀ n ∈ ns, ∃ g, n = Fields.toNode g ∧ NormalSlice y maxCpus g) :
    WindowFixed y maxCpus length (f.set k v) := by
  refine ⟨Fields.nodup_set h.nodup, fun e he => ?_⟩
  rcases Fields.mem_set he with rfl | he
  · exact fixed
  · exact h.fixed e he

theorem WindowFixed.find_length {length : Int} {f : Fields} (h : WindowFixed y maxCpus length f)
    (has : f.has "length" = true) : f.find "length" = some (y.int length) := by
  obtain ⟨v, hv⟩ := Option.isSome_iff_exists.mp has
  rcases h.fixed _ (Fields.mem_of_find hv) with ⟨-, rfl⟩ | ⟨hkey, -⟩
  · exact hv
  · simp at hkey

variable (y maxCpus) in
structure SlicesStored (w : Nat) (us : List Use) (counter : Nat) (ns : List Node) : Prop where
  normal : ∀ n ∈ ns, ∃ f, n = Fields.toNode f ∧ NormalSlice y maxCpus f
  stored : ∀ i sc, ns[i]?.bind (·.find (roleKey sc)) =
    (storedName (namedUses y us counter) (⟨w, i⟩, sc)).map .scalar

variable (y maxCpus) in
/-- What a window looks like after the keys `pre`, `us` being the uses of its slices. -/
structure WindowBuilt (w : Nat) (length : Int) (us : List Use) (pre : List (Option Node))
    (st : Defined) (f : Fields) (st' : Defined) : Prop where
  gives : Gives y ((pre.filter fun key => (y.asString key).toOption = some "slices").flatMap
    fun _ => us) st st'
  fixed : WindowFixed y maxCpus length f
  length : some (.scalar "length") ∈ pre → f.has "length" = true
  slices : (f.has "slices" = false ∧
      pre.filter (fun key => (y.asString key).toOption = some "slices") = []) ∨
    ∃ ns, f.find "slices" = some (.sequence ns) ∧
      pre.filter (fun key => (y.asString key).toOption = some "slices") ≠ [] ∧
      SlicesStored y maxCpus w ((pre.filter fun key =>
        (y.asString key).toOption = some "slices").flatMap fun _ => us) st.counter ns

theorem SlicesBuilt.again {w : Nat} {us vs : List Use} {st st' st'' : Defined} {ns : List Node}
    (gives : Gives y vs st st') (same : ∀ v ∈ vs, ∃ u ∈ us, u.role = v.role)
    (h : SlicesBuilt y maxCpus w us st' ns st'') :
    SlicesStored y maxCpus w (vs ++ us) st.counter ns := by
  refine ⟨h.normal, ?_⟩
  intro i sc
  rw [h.stored i sc, namedUses_append, storedName_append, ← gives.counter]
  cases hlast : storedName (namedUses y us st'.counter) (⟨w, i⟩, sc) with
  | some name => rfl
  | none =>
    rw [Option.none_or, storedName_eq_none]
    intro v hv hrole
    obtain ⟨u, hu, hsame⟩ := same v hv
    have hsome : (storedName (namedUses y us st'.counter) (⟨w, i⟩, sc)).isSome = true :=
      storedName_isSome.mpr ⟨u, hu, hsame.trans hrole⟩
    simp [hlast] at hsome

theorem windowKeys_built (w : Nat) {win : Node} {length : Int} {st st' : Defined} {f : Fields}
    (run : win.keys.foldlM (normalizeWindowKey y maxCpus win length) ([], st) = .ok (f, st')) :
    WindowBuilt y maxCpus w length
      (slicesUses y w ((win.find "slices").getD .null).elements (.ofInt length))
      win.keys st f st' := by
  refine foldlM_induct (fun pre (r : Fields × Defined) => WindowBuilt y maxCpus w length
    (slicesUses y w ((win.find "slices").getD .null).elements (.ofInt length)) pre st r.1 r.2)
    ?_ ⟨.nil st, ⟨by simp [Fields.keys], by simp⟩, by simp, .inl ⟨rfl, rfl⟩⟩ run
  intro pre key post r r' _ h hstep
  simp only [normalizeWindowKey, bind_def, bind_eq_ok] at hstep
  obtain ⟨k, hk, hstep⟩ := hstep
  have hother : k ≠ "slices" →
      (pre ++ [key]).filter (fun key => (y.asString key).toOption = some "slices") =
        pre.filter fun key => (y.asString key).toOption = some "slices" := by
    intro hne
    simp [List.filter_append, hk, Except.toOption, hne]
  have hkey : ∀ l, some (.scalar l) ∈ pre ++ [key] → some (.scalar l) ∈ pre ∨ k = l := by
    intro l hl
    rcases List.mem_append.mp hl with hl | hl
    · exact .inl hl
    · rw [← List.mem_singleton.mp hl] at hk
      exact .inr (Except.ok.inj hk).symm
  split at hstep
  case isTrue hlength =>
    subst hlength
    cases hstep
    have hfilter := hother (by decide)
    refine ⟨by rw [hfilter]; exact h.gives, h.fixed.set (.inl ⟨rfl, rfl⟩),
      fun _ => by simp [Fields.has_set], ?_⟩
    rw [hfilter, Fields.has_set, Fields.find_set_ne (by decide)]
    simpa using h.slices
  rename_i hlength
  split at hstep
  case isTrue hslices =>
    subst hslices
    simp only [bind_eq_ok, pure_def, Except.ok.injEq] at hstep
    obtain ⟨⟨ns, defined⟩, hslices, rfl⟩ := hstep
    have hbuilt := normalizeSlices_ok w hslices
    have hfilter : (pre ++ [key]).filter (fun key => (y.asString key).toOption = some "slices") =
        pre.filter (fun key => (y.asString key).toOption = some "slices") ++ [key] := by
      simp [List.filter_append, hk, Except.toOption]
    refine ⟨?_, h.fixed.set (.inr ⟨rfl, ns, rfl, hbuilt.normal⟩), ?_, .inr ⟨ns, by simp, ?_, ?_⟩⟩
    · rw [hfilter, List.flatMap_append, List.flatMap_singleton]
      exact h.gives.append hbuilt.gives
    · intro hl
      rw [Fields.has_set]
      rcases hkey "length" hl with hl | hl
      · rw [h.length hl, Bool.or_true]
      · simp at hl
    · rw [hfilter]
      exact List.append_ne_nil_of_right_ne_nil _ (List.cons_ne_nil _ _)
    · rw [hfilter, List.flatMap_append, List.flatMap_singleton]
      refine hbuilt.again h.gives ?_
      intro v hv
      obtain ⟨-, -, hv⟩ := List.mem_flatMap.mp hv
      exact ⟨v, hv, rfl⟩
  rename_i hslices
  split at hstep
  case isTrue =>
    cases hstep
    have hfilter := hother hslices
    refine ⟨by rw [hfilter]; exact h.gives, h.fixed, ?_, by rw [hfilter]; exact h.slices⟩
    intro hl
    rcases hkey "length" hl with hl | hl
    · exact h.length hl
    · exact absurd hl hlength
  case isFalse => cases hstep

variable (y maxCpus) in
structure NormalWindow (length : Int) (f : Fields) : Prop extends WindowFixed y maxCpus length f where
  isInt : IsInt length
  find_length : f.find "length" = some (y.int length)
  slices_or : f.has "slices" = true ∨ f = [("length", y.int length)]

theorem itemsAt_toNode {f : Fields} {k : String} {l : List Node}
    (h : f.find k = some (.sequence l)) : itemsAt f.toNode k = l := by
  simp [itemsAt, h]

theorem itemsAt_none {f : Fields} {k : String} (h : f.has k = false) : itemsAt f.toNode k = [] := by
  have hnone : f.find k = none := by simpa [Fields.has] using h
  simp [itemsAt, hnone, Node.elements]

theorem WindowFixed.eq_length {length : Int} {f : Fields} (h : WindowFixed y maxCpus length f)
    (has : f.has "length" = true) (none : f.has "slices" = false) :
    f = [("length", y.int length)] := by
  have hall : ∀ e ∈ f, e = ("length", y.int length) := by
    rintro ⟨k, v⟩ he
    rcases h.fixed _ he with ⟨hk, hv⟩ | ⟨hk, -⟩
    · exact Prod.ext hk hv
    · have hmem : "slices" ∈ f.keys := hk ▸ List.mem_map_of_mem he
      simp [Fields.has_iff_mem_keys.mpr hmem] at none
  match f, h.nodup with
  | [], _ => simp [Fields.has] at has
  | [e], _ => rw [hall e (List.mem_singleton_self e)]
  | e :: d :: f, hnodup =>
    have he := hall e (by simp)
    have hd := hall d (by simp)
    simp [Fields.keys, he, hd] at hnodup

theorem keys_of_size_one {win : Node} (size : win.size = 1) (has : win.has "length" = true) :
    win.keys = [some (.scalar "length")] := by
  have hmem := keys_of_has has
  match win with
  | .map entries =>
    obtain ⟨e, rfl⟩ := List.length_eq_one_iff.mp size
    simp only [Node.keys, List.map_cons, List.map_nil, List.mem_singleton] at hmem
    simp [Node.keys, hmem]
  | .null | .scalar _ | .seq _ => simp [Node.has, Node.find] at has

theorem inlineSlice_eq {win : Node} {slice : Fields} (notScalar : win.isScalar = false)
    (run : copyKeys win ["cpu", "sc_partition", "be_partition", "sc_processes", "be_processes"]
      (if win.has "cpu" then [] else [("cpu", .scalar "all")]) = .ok slice) :
    slice.toNode = inlineSlice win := by
  by_cases hcpu : win.has "cpu" = true
  · rw [if_pos hcpu, copyKeys_eq notScalar _ (by decide) (by simp [Fields.keys]),
      Except.ok.injEq] at run
    rw [inlineSlice, if_pos hcpu, ← run]
  · have hnone : win.find "cpu" = none := by simpa [Node.has] using hcpu
    have hget : win.get "cpu" = .ok none := by simp [Node.get, notScalar, hnone]
    rw [if_neg hcpu, copyKeys, List.foldlM_cons, hget] at run
    simp only [bind_def, bind_ok, pure_def] at run
    have hrest : copyKeys win ["sc_partition", "be_partition", "sc_processes", "be_processes"]
        [("cpu", .scalar "all")] = .ok slice := run
    rw [copyKeys_eq notScalar _ (by decide) (by simp [Fields.keys]), Except.ok.injEq] at hrest
    have hskip : (["cpu", "sc_partition", "be_partition", "sc_processes", "be_processes"].filterMap
        fun k => (win.find k).map (k, ·)) =
        ["sc_partition", "be_partition", "sc_processes", "be_processes"].filterMap
          fun k => (win.find k).map (k, ·) := by
      rw [List.filterMap_cons, hnone]
      rfl
    rw [inlineSlice, if_neg hcpu, ← hrest, hskip]

theorem get_ok_find {win : Node} {k : String} {v : Option Node} (h : win.get k = .ok v) :
    win.isScalar = false ∧ win.find k = v := by
  unfold Node.get at h
  split at h
  case isTrue => cases h
  case isFalse hs => exact ⟨by simpa using hs, Except.ok.inj h⟩

theorem normalizeWindow_ok (w : Nat) {win nw : Node} {st st' : Defined} (inv : y.Inverts)
    (run : normalizeWindow y maxCpus win st = .ok (nw, st')) :
    ∃ f, nw = f.toNode ∧ NormalWindow y maxCpus (windowLength y win) f ∧
      Gives y (windowUses y w win) st st' ∧
      SlicesStored y maxCpus w (windowUses y w win) st.counter (itemsAt nw "slices") := by
  simp only [normalizeWindow, bind_def, bind_eq_ok] at run
  obtain ⟨v, hget, length, hlength, -, -, ⟨f, defined⟩, hkeys, run⟩ := run
  obtain ⟨hscalar, rfl⟩ := get_ok_find hget
  have hof : windowLength y win = length := by simp [windowLength, hlength, Except.toOption]
  have hhas : win.has "length" = true := by
    cases hv : win.find "length" with
    | none => simp [hv, Conversions.asInt, Conversions.convert] at hlength
    | some v => simp [Node.has, hv]
  have hbuilt := windowKeys_built w hkeys
  have hflength := hbuilt.length (keys_of_has hhas)
  have hfind := hbuilt.fixed.find_length hflength
  have hint := inv.isInt_of_asInt hlength
  rw [hof]
  split at run
  case isTrue honly =>
    obtain ⟨hsize, -⟩ := honly
    cases run
    have hfilter : win.keys.filter (fun key => (y.asString key).toOption = some "slices") = [] := by
      simp [keys_of_size_one hsize hhas, Conversions.asString, Except.toOption]
    have huses : windowUses y w win = [] := by rw [windowUses, if_pos hsize]
    have hnone : f.has "slices" = false := by
      rcases hbuilt.slices with ⟨hnone, -⟩ | ⟨-, -, hne, -⟩
      · exact hnone
      · exact absurd hfilter hne
    have hgives := hbuilt.gives
    rw [hfilter] at hgives
    rw [huses, itemsAt_none hnone]
    exact ⟨f, rfl, ⟨hbuilt.fixed, hint, hfind, .inr (hbuilt.fixed.eq_length hflength hnone)⟩, hgives,
      ⟨by simp, by simp⟩⟩
  rename_i honly
  have hsize : win.size ≠ 1 := fun hsize => honly ⟨hsize, hhas⟩
  split at run
  case isTrue hslices =>
    cases run
    rcases hbuilt.slices with ⟨hnone, -⟩ | ⟨ns, hns, hne, hstored⟩
    · simp [hnone] at hslices
    · have huses : windowUses y w win = (win.keys.filter fun key =>
          (y.asString key).toOption = some "slices").flatMap fun _ =>
            slicesUses y w ((win.find "slices").getD .null).elements (.ofInt length) := by
        rw [windowUses, if_neg hsize, slicesKeys, if_neg (by simpa using hne), hof]
      rw [huses, itemsAt_toNode hns]
      exact ⟨f, rfl, ⟨hbuilt.fixed, hint, hfind, .inl hslices⟩, hbuilt.gives, hstored⟩
  case isFalse hslices =>
    simp only [bind_eq_ok, pure_def, Except.ok.injEq, Prod.mk.injEq] at run
    obtain ⟨slice, hcopy, ⟨ns, defined'⟩, hslice, rfl, rfl⟩ := run
    rw [inlineSlice_eq hscalar hcopy] at hslice
    obtain ⟨g, rfl, hnormal, hsbuilt⟩ := normalizeSlice_ok ⟨w, 0⟩ hslice
    have hfilter : win.keys.filter (fun key => (y.asString key).toOption = some "slices") = [] := by
      rcases hbuilt.slices with ⟨-, hnil⟩ | ⟨ns, hns, -, -⟩
      · exact hnil
      · simp [Fields.has, hns] at hslices
    have huses : windowUses y w win = sliceUses y ⟨w, 0⟩ (inlineSlice win) (.ofInt length) := by
      rw [windowUses, if_neg hsize, slicesKeys, if_pos (by rw [hfilter]; rfl), hof]
    have hgives := hbuilt.gives
    rw [hfilter] at hgives
    cases hgives
    have hstart : SlicesBuilt y maxCpus w [] st [] st :=
      ⟨.nil st, by simp, by simp, by simp⟩
    have hsnoc := hstart.snoc hsbuilt hnormal
    rw [List.nil_append, List.nil_append] at hsnoc
    refine ⟨f.set "slices" (.sequence [g.toNode]), rfl,
      ⟨hbuilt.fixed.set (.inr ⟨rfl, _, rfl, hsnoc.normal⟩), hint, ?_, .inl ?_⟩, ?_, ?_⟩
    · rw [Fields.find_set_ne (by decide), hfind]
    · simp [Fields.has_set]
    · rw [huses]
      exact hsbuilt.gives
    · rw [huses, itemsAt_toNode (l := [g.toNode]) Fields.find_set_self]
      exact ⟨hsnoc.normal, hsnoc.stored⟩

theorem normalizePartitions_ok {parts : List (Option Node)} {counter : Nat} {st : Defined}
    (run : YamlConfig.normalizePartitions y parts counter = .ok st) :
    defineAll y (parts.map fun part => ⟨part.getD .null, .nan⟩) ⟨[], counter⟩ = .ok st := by
  refine foldlM_induct (fun pre (r : Defined) =>
    defineAll y (pre.map fun part => ⟨part.getD .null, .nan⟩) ⟨[], counter⟩ = .ok r) ?_ rfl run
  intro pre part post r r' _ h hstep
  cases part with
  | none => cases hstep
  | some part =>
    rw [List.map_append]
    exact defineAll_append h (by simpa [defineAll, Node.valid] using hstep)

theorem sliceUses_slice {i : SliceId} {slice : Node} {wl : Single} {u : Use}
    (h : u ∈ sliceUses y i slice wl) : u.slice = i := by
  obtain ⟨key, -, hkey⟩ := List.mem_filterMap.mp h
  obtain ⟨k, -, hk⟩ := Option.bind_eq_some_iff.mp hkey
  obtain ⟨v, -, hv⟩ := Option.bind_eq_some_iff.mp hk
  split_ifs at hv <;> exact Option.some.inj hv ▸ rfl

theorem windowUses_window {w : Nat} {win : Node} {u : Use} (h : u ∈ windowUses y w win) :
    u.slice.window = w := by
  unfold windowUses at h
  split at h
  · simp at h
  split at h
  · rw [sliceUses_slice h]
  · obtain ⟨-, -, h⟩ := List.mem_flatMap.mp h
    obtain ⟨⟨s, i⟩, -, h⟩ := List.mem_flatMap.mp h
    rw [sliceUses_slice h]

def storedNode (nws : List Node) (role : SliceId × Bool) : Option Node :=
  nws[role.1.window]?.bind fun nw =>
    (itemsAt nw "slices")[role.1.index]?.bind (·.find (roleKey role.2))

variable (y maxCpus) in
def WindowFrom (win : Option Node) (nw : Node) : Prop :=
  ∃ f, nw = Fields.toNode f ∧ NormalWindow y maxCpus (windowLength y (win.getD .null)) f

variable (y maxCpus) in
structure WindowsBuilt (wins : List (Option Node)) (st : Defined) (nws : List Node) (st' : Defined) :
    Prop where
  gives : Gives y (windowsUses y wins) st st'
  windows : List.Forall₂ (WindowFrom y maxCpus) wins nws
  slices : ∀ nw ∈ nws, ∀ n ∈ itemsAt nw "slices", ∃ f, n = Fields.toNode f ∧ NormalSlice y maxCpus f
  stored : ∀ role, storedNode nws role =
    (storedName (namedUses y (windowsUses y wins) st.counter) role).map .scalar

theorem WindowsBuilt.snoc {wins : List (Option Node)} {win nw : Node} {f : Fields}
    {st st' st'' : Defined} {nws : List Node} (h : WindowsBuilt y maxCpus wins st nws st')
    (node : nw = f.toNode) (normal : NormalWindow y maxCpus (windowLength y win) f)
    (gives : Gives y (windowUses y nws.length win) st' st'')
    (slices : SlicesStored y maxCpus nws.length (windowUses y nws.length win) st'.counter
      (itemsAt nw "slices")) :
    WindowsBuilt y maxCpus (wins ++ [some win]) st (nws ++ [nw]) st'' := by
  have hlength := h.windows.length_eq
  have huses : windowsUses y (wins ++ [some win]) =
      windowsUses y wins ++ windowUses y nws.length win := by
    simp [windowsUses, List.zipIdx_append, hlength]
  have hbefore : ∀ u ∈ windowsUses y wins, u.slice.window < nws.length := by
    intro u hu
    obtain ⟨⟨win', w⟩, hmem, hu⟩ := List.mem_flatMap.mp hu
    have hw : w < wins.length := by
      have := (List.mem_zipIdx hmem).2.1
      omega
    rw [windowUses_window hu]
    omega
  refine ⟨huses ▸ h.gives.append gives, ?_, ?_, ?_⟩
  · exact List.rel_append h.windows (.cons ⟨f, node, normal⟩ .nil)
  · intro n hn
    rcases List.mem_append.mp hn with hn | hn
    · exact h.slices n hn
    · exact List.mem_singleton.mp hn ▸ slices.normal
  · rintro ⟨⟨w, i⟩, sc⟩
    rw [huses, namedUses_append, storedName_append, ← h.gives.counter]
    rcases Nat.lt_trichotomy w nws.length with hw | rfl | hw
    · have hnone : storedName (namedUses y (windowUses y nws.length win) st'.counter)
          (⟨w, i⟩, sc) = none := by
        refine storedName_elsewhere fun u hu hslice => ?_
        have hwin := windowUses_window hu
        rw [hslice] at hwin
        exact absurd hwin (Nat.ne_of_lt hw)
      rw [hnone, Option.none_or, ← h.stored]
      simp [storedNode, List.getElem?_append_left hw]
    · have hnone : storedName (namedUses y (windowsUses y wins) st.counter)
          (⟨nws.length, i⟩, sc) = none := by
        refine storedName_elsewhere fun u hu hslice => ?_
        have hwin := hbefore u hu
        rw [hslice] at hwin
        exact absurd hwin (Nat.lt_irrefl _)
      rw [hnone, Option.or_none, ← slices.stored]
      simp [storedNode]
    · have hnone : ∀ us n, (∀ u ∈ us, u.slice.window ≤ nws.length) →
          storedName (namedUses y us n) (⟨w, i⟩, sc) = none := by
        intro us n hus
        refine storedName_elsewhere fun u hu hslice => ?_
        have hwin := hus u hu
        rw [hslice] at hwin
        exact absurd hwin (Nat.not_le.mpr hw)
      rw [hnone _ _ fun u hu => Nat.le_of_lt (hbefore u hu),
        hnone _ _ fun u hu => by rw [windowUses_window hu]]
      simp [storedNode, List.getElem?_eq_none (show (nws ++ [nw]).length ≤ w by simp; omega)]

theorem normalizeWindows_ok {wins : List (Option Node)} {st st' : Defined} {nws : List Node}
    (inv : y.Inverts) (run : YamlConfig.normalizeWindows y maxCpus wins st = .ok (nws, st')) :
    WindowsBuilt y maxCpus wins st nws st' := by
  refine foldlM_induct (fun pre (r : List Node × Defined) => WindowsBuilt y maxCpus pre st r.1 r.2)
    ?_ ⟨.nil st, .nil, by simp, by simp [storedNode, windowsUses]⟩ run
  intro pre win post r r' _ h hstep
  cases win with
  | none => cases hstep
  | some win =>
    simp only [Node.valid, bind_def, bind_ok, bind_eq_ok, pure_def, Except.ok.injEq] at hstep
    obtain ⟨⟨nw, defined⟩, hwin, rfl⟩ := hstep
    obtain ⟨f, hnode, hnormal, hgives, hslices⟩ := normalizeWindow_ok r.1.length inv hwin
    exact h.snoc hnode hnormal hgives hslices

variable (y) in
def RefersTo (partitions : List Node) (v : Node) : Prop :=
  ∃ name, y.asString (some v) = .ok name ∧
    ∃ part ∈ partitions, y.asString (part.find "name") = .ok name

theorem checkReference_ok {partitions : List Node} {w i : Nat} {slice v : Node} {key : String}
    (find : slice.find key = some v) (run : checkReference y partitions w i slice key = .ok ()) :
    RefersTo y partitions v := by
  simp only [checkReference, find, bind_def, bind_eq_ok] at run
  obtain ⟨name, hname, found, hfound, run⟩ := run
  have hloop : found = true → ∃ part ∈ partitions, y.asString (part.find "name") = .ok name := by
    refine foldlM_induct (fun pre (found : Bool) =>
      found = true → ∃ part ∈ pre, y.asString (part.find "name") = .ok name) ?_ (by simp) hfound
    intro pre part post found found' _ ih hstep htrue
    cases found with
    | true =>
      obtain ⟨q, hq, hqname⟩ := ih rfl
      exact ⟨q, List.mem_append_left _ hq, hqname⟩
    | false =>
      simp only [Bool.false_eq_true, if_false, bind_eq_ok, pure_def, Except.ok.injEq] at hstep
      obtain ⟨pname, hpname, rfl⟩ := hstep
      rw [decide_eq_true_eq] at htrue
      exact ⟨part, by simp, htrue ▸ hpname⟩
  cases found with
  | true => exact ⟨name, hname, hloop rfl⟩
  | false => cases run

variable (y maxCpus) in
/-- The CPU list of a slice and the set it denotes, `all` being the empty set. -/
def HasCpus (slice : Node) (cpus : String × CpuSet) : Prop :=
  y.asString (slice.find "cpu") = .ok cpus.1 ∧ parseCpuSet maxCpus cpus.1 ∅ = .ok cpus.2

theorem checkOverlap_ok {slices : List Node} {w : Nat} {acc : CpuSet}
    (run : slices.foldlM (checkOverlap y maxCpus w slices.length) ∅ = .ok acc) :
    ∃ sets, List.Forall₂ (HasCpus y maxCpus) slices sets ∧
      (∀ p ∈ sets, p.1 = "all" → slices.length ≤ 1) ∧
      sets.Pairwise fun p q => Disjoint p.2 q.2 := by
  suffices h : ∃ sets, List.Forall₂ (HasCpus y maxCpus) slices sets ∧
      (∀ p ∈ sets, p.1 = "all" → slices.length ≤ 1) ∧
      (sets.Pairwise fun p q => Disjoint p.2 q.2) ∧ ∀ p ∈ sets, p.2 ⊆ acc by
    obtain ⟨sets, hsets, hall, hdisjoint, -⟩ := h
    exact ⟨sets, hsets, hall, hdisjoint⟩
  refine foldlM_induct (fun pre (acc : CpuSet) => ∃ sets,
    List.Forall₂ (HasCpus y maxCpus) pre sets ∧
      (∀ p ∈ sets, p.1 = "all" → slices.length ≤ 1) ∧
      (sets.Pairwise fun p q => Disjoint p.2 q.2) ∧ ∀ p ∈ sets, p.2 ⊆ acc) ?_
    ⟨[], .nil, by simp, .nil, by simp⟩ run
  intro pre slice post acc acc' _ ⟨sets, hsets, hall, hdisjoint, hsub⟩ hstep
  simp only [checkOverlap, bind_def, bind_eq_ok] at hstep
  obtain ⟨s, hs, set, hset, hstep⟩ := hstep
  split at hstep
  case isTrue => cases hstep
  case isFalse hno =>
    cases hstep
    rw [not_or, not_not] at hno
    obtain ⟨hcount, hempty⟩ := hno
    refine ⟨sets ++ [(s, set)], List.rel_append hsets (.cons ⟨hs, hset⟩ .nil), ?_, ?_, ?_⟩
    · intro p hp hpall
      rcases List.mem_append.mp hp with hp | hp
      · exact hall p hp hpall
      · rw [List.mem_singleton.mp hp] at hpall
        exact Nat.not_lt.mp fun hlt => hcount ⟨hpall, hlt⟩
    · refine List.pairwise_append.mpr ⟨hdisjoint, List.pairwise_singleton _ _, ?_⟩
      intro p hp q hq
      rw [List.mem_singleton.mp hq]
      exact (Finset.disjoint_iff_inter_eq_empty.mpr hempty).mono_left (hsub p hp)
    · intro p hp
      rcases List.mem_append.mp hp with hp | hp
      · exact (hsub p hp).trans Finset.subset_union_left
      · rw [List.mem_singleton.mp hp]
        exact Finset.subset_union_right

variable (y maxCpus) in
structure Validated (config : Node) : Prop where
  references : ∀ win ∈ itemsAt config "windows", ∀ slice ∈ itemsAt win "slices", ∀ sc v,
    slice.find (roleKey sc) = some v → RefersTo y (itemsAt config "partitions") v
  cpus : ∀ win ∈ itemsAt config "windows", ∃ sets,
    List.Forall₂ (HasCpus y maxCpus) (itemsAt win "slices") sets ∧
      (∀ p ∈ sets, p.1 = "all" → (itemsAt win "slices").length ≤ 1) ∧
      sets.Pairwise fun p q => Disjoint p.2 q.2

theorem validateConfig_ok {config : Node} (run : validateConfig y maxCpus config = .ok ()) :
    Validated y maxCpus config := by
  simp only [validateConfig, bind_def, bind_eq_ok] at run
  obtain ⟨⟨⟩, hrefs, hcpus⟩ := run
  constructor
  · intro win hwin slice hslice sc v hv
    obtain ⟨w, hw⟩ := zipIdx_forM_eq_ok hrefs hwin
    obtain ⟨i, hi⟩ := zipIdx_forM_eq_ok hw hslice
    refine checkReference_ok hv (forM_eq_ok.mp hi _ ?_)
    cases sc <;> simp [roleKey]
  · intro win hwin
    obtain ⟨w, hw⟩ := zipIdx_forM_eq_ok hcpus hwin
    simp only [bind_eq_ok] at hw
    obtain ⟨acc, hacc, -⟩ := hw
    exact checkOverlap_ok hacc

def normalConfig (setCwd : Node) (demosCpu : String) (nps nws : List Node) : Node :=
  Fields.toNode [("set_cwd", setCwd), ("demos_cpu", .scalar demosCpu),
    ("partitions", .sequence nps), ("windows", .sequence nws)]

variable (y) in
/-- The counter of anonymous partitions when the windows are read. -/
def counterAtWindows (c : YamlConfig) : Nat :=
  counterAfterAll y (listedPartitions c.config) c.anonymousPartitionCounter

variable (y maxCpus) in
structure Accepted (c c' : YamlConfig) (setCwd : Bool) (demosCpu : String) (nps nws : List Node) :
    Prop where
  config : c'.config = normalConfig (y.bool setCwd) demosCpu nps nws
  path : c'.configFilePath = c.configFilePath
  regular : c'.configIsRegularFile = c.configIsRegularFile
  cwd : setCwd = true → c.configFilePath.isSome = true
  counter : c'.anonymousPartitionCounter =
    counterAfterAll y (definitions y c.config) c.anonymousPartitionCounter
  partitions : List.Forall₂ (MadeFrom (y := y))
    (namedDefinitions y (definitions y c.config) c.anonymousPartitionCounter) nps
  windows : List.Forall₂ (WindowFrom y maxCpus) (elementsAt c.config "windows") nws
  slices : ∀ nw ∈ nws, ∀ n ∈ itemsAt nw "slices", ∃ f, n = Fields.toNode f ∧ NormalSlice y maxCpus f
  stored : ∀ role, storedNode nws role =
    (storedName (namedUses y (uses y c.config) (counterAtWindows y c)) role).map .scalar
  cpus : ∃ set, parseCpuSet maxCpus demosCpu ∅ = .ok set
  valid : validateConfig y maxCpus c'.config = .ok ()

theorem readSetCwd_path {c : YamlConfig} (run : c.readSetCwd y = .ok true) :
    c.configFilePath.isSome = true := by
  unfold YamlConfig.readSetCwd at run
  split at run
  case h_2 => exact Except.ok.inj run
  case h_1 =>
    split at run
    case isTrue hpath => exact hpath
    case isFalse => cases run

theorem normalize_ok {c c' : YamlConfig} (inv : y.Inverts)
    (run : c.normalize y maxCpus = .ok c') :
    ∃ setCwd demosCpu nps nws, Accepted y maxCpus c c' setCwd demosCpu nps nws := by
  simp only [YamlConfig.normalize, bind_def, bind_eq_ok, pure_def, Except.ok.injEq] at run
  obtain ⟨-, -, setCwd, hcwd, -, -, demosCpu, -, set, hset, ⟨nps, n⟩, hparts, ⟨nws, nps', n'⟩, hwins,
    -, -, ⟨⟩, hvalid, rfl⟩ := run
  have hlookup : ((c.config.remove "set_cwd").remove "demos_cpu").find "partitions" =
      c.config.find "partitions" := by
    rw [Node.find_remove (by decide), Node.find_remove (by decide)]
  have hwindows : (((c.config.remove "set_cwd").remove "demos_cpu").remove "partitions").find
      "windows" = c.config.find "windows" := by
    rw [Node.find_remove (by decide), Node.find_remove (by decide), Node.find_remove (by decide)]
  rw [hlookup] at hparts
  rw [hwindows] at hwins
  have hlisted := normalizePartitions_ok hparts
  have hbuilt := normalizeWindows_ok inv hwins
  have hall : defineAll y (definitions y c.config) ⟨[], c.anonymousPartitionCounter⟩ =
      .ok ⟨nps', n'⟩ := defineAll_append hlisted hbuilt.gives
  obtain ⟨hcounter, nps'', hnps, hmade⟩ := defineAll_ok hall
  rw [List.nil_append] at hnps
  subst hnps
  have hn : n = counterAtWindows y c := (defineAll_ok hlisted).1
  refine ⟨setCwd, demosCpu, nps', nws, rfl, rfl, rfl, fun htrue => readSetCwd_path (htrue ▸ hcwd),
    hcounter, hmade, hbuilt.windows, hbuilt.slices,
    ?_, ⟨set, hset⟩, hvalid⟩
  intro role
  rw [← hn]
  exact hbuilt.stored role

end DemosSched
