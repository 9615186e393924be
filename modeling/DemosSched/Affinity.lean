import DemosSched.References

/-! The CPUs the slices are given where the program may not run on all of them. A
slice that is left without a CPU is put on the lowest allowed one, which another
slice of the window may be using. -/

namespace DemosSched

open Yaml Fallible

variable {δ : Type} {y : Conversions δ} {maxCpus : Nat} {allowed : CpuSet}

/-- A slice with this list has no CPU it may run on. -/
def CutOff (allowed : CpuSet) (p : String × CpuSet) : Prop := p.1 ≠ "all" ∧ p.2 ∩ allowed = ∅

instance (p : String × CpuSet) : Decidable (CutOff allowed p) :=
  inferInstanceAs (Decidable (_ ∧ _))

def allowedPart (allowed : CpuSet) (p : String × CpuSet) : CpuSet :=
  if p.1 = "all" then allowed else p.2 ∩ allowed

variable (maxCpus allowed) in
/-- A slice that is cut off finds a lowest allowed CPU, and finds it unused: no other
slice of the window is cut off or lists it. -/
def FallbackFree (sets : List (String × CpuSet)) : Prop :=
  ∀ a (ha : a < sets.length), CutOff allowed sets[a] →
    ∃ i, CpuSet.lowest maxCpus allowed = .ok i ∧
      ∀ b (hb : b < sets.length), b ≠ a → ¬ CutOff allowed sets[b] ∧ i ∉ sets[b].2

variable (y maxCpus allowed) in
/-- In every window the slices that are cut off find an unused CPU. -/
def FallbacksFree (config : Node) : Prop :=
  ∀ win ∈ itemsAt config "windows", ∀ sets,
    List.Forall₂ (HasCpus y maxCpus) (itemsAt win "slices") sets →
      FallbackFree maxCpus allowed sets

/-- Slices that run on allowed CPUs, each on its own. -/
structure CpusSeparate (allowed : CpuSet) (w : WindowObject) : Prop where
  allowed : ∀ s ∈ w.slices, s.cpus.Nonempty ∧ s.cpus ⊆ allowed
  disjoint : w.slices.Pairwise fun s t => Disjoint s.cpus t.cpus

variable (y maxCpus allowed) in
/-- The windows are created, whatever the partitions of these names are, with slices
on CPUs of their own. -/
def CpusRealized (toHz : δ → Nat) (config : Node) : Prop :=
  ∀ partitions : List PartitionObject, partitions.map (·.name) = partitionNames y config →
    ∃ windows, createWindows y maxCpus toHz allowed partitions config = .ok windows ∧
      ∀ w ∈ windows, CpusSeparate allowed w

theorem allowedPart_subset (p : String × CpuSet) : allowedPart allowed p ⊆ allowed := by
  unfold allowedPart
  split
  · exact Finset.Subset.refl _
  · exact Finset.inter_subset_right

theorem allowedPart_nonempty (nonempty : allowed.Nonempty) {p : String × CpuSet}
    (live : ¬ CutOff allowed p) : (allowedPart allowed p).Nonempty := by
  unfold allowedPart
  split
  case isTrue => exact nonempty
  case isFalse hall =>
    rw [Finset.nonempty_iff_ne_empty]
    exact fun hempty => live ⟨hall, hempty⟩

theorem sliceCpus_eq (nonempty : allowed.Nonempty) {p : String × CpuSet}
    (parses : parseCpuSet maxCpus p.1 ∅ = .ok p.2) :
    sliceCpus maxCpus allowed p.1 =
      if CutOff allowed p then (CpuSet.lowest maxCpus allowed).map ({·})
      else .ok (allowedPart allowed p) := by
  by_cases hall : p.1 = "all"
  · have hlive : ¬ CutOff allowed p := fun h => h.1 hall
    have hne : allowed ≠ ∅ := nonempty.ne_empty
    rw [if_neg hlive]
    simp [sliceCpus, parseCpuSet, allowedPart, hall, hne]
  · obtain ⟨cpus, hcpus, heq⟩ := parseCpuSet_total allowed parses
    obtain rfl := heq hall
    have hcut : CutOff allowed p ↔ p.2 ∩ allowed = ∅ := by simp [CutOff, hall]
    by_cases hempty : p.2 ∩ allowed = ∅
    · rw [if_pos (hcut.mpr hempty)]
      cases hlow : CpuSet.lowest maxCpus allowed <;>
        simp [sliceCpus, hcpus, hempty, hlow, Except.map]
    · rw [if_neg (mt hcut.mp hempty)]
      by_cases hsub : p.2 ∩ allowed = p.2
      · have hne : p.2 ≠ ∅ := fun h => hempty (by simp [h])
        simp [sliceCpus, hcpus, hsub, hne, allowedPart, hall]
      · have hcut : ¬ p.2 ⊆ allowed := fun h => hsub (Finset.inter_eq_left.mpr h)
        simp [sliceCpus, hcpus, hempty, hcut, allowedPart, hall]

theorem sliceCpus_allowed (nonempty : allowed.Nonempty) {p : String × CpuSet}
    (parses : parseCpuSet maxCpus p.1 ∅ = .ok p.2) {cpus : CpuSet}
    (run : sliceCpus maxCpus allowed p.1 = .ok cpus) : cpus.Nonempty ∧ cpus ⊆ allowed := by
  rw [sliceCpus_eq nonempty parses] at run
  split at run
  case isTrue =>
    obtain ⟨i, hi, rfl⟩ := map_eq_ok.mp run
    exact ⟨Finset.singleton_nonempty i, Finset.singleton_subset_iff.mpr (CpuSet.lowest_ok hi).1⟩
  case isFalse hlive =>
    cases run
    exact ⟨allowedPart_nonempty nonempty hlive, allowedPart_subset p⟩

/-- Two slices with disjoint lists get disjoint sets unless the fallback of one is used
by the other. -/
theorem sliceCpus_disjoint_iff (nonempty : allowed.Nonempty) {p q : String × CpuSet}
    (hp : parseCpuSet maxCpus p.1 ∅ = .ok p.2) (hq : parseCpuSet maxCpus q.1 ∅ = .ok q.2)
    (disjoint : Disjoint p.2 q.2) (pall : p.1 ≠ "all") (qall : q.1 ≠ "all") {s t : CpuSet}
    (hs : sliceCpus maxCpus allowed p.1 = .ok s) (ht : sliceCpus maxCpus allowed q.1 = .ok t) :
    Disjoint s t ↔ ∀ i, CpuSet.lowest maxCpus allowed = .ok i →
      (CutOff allowed p → ¬ CutOff allowed q ∧ i ∉ q.2) ∧
        (CutOff allowed q → ¬ CutOff allowed p ∧ i ∉ p.2) := by
  rw [sliceCpus_eq nonempty hp] at hs
  rw [sliceCpus_eq nonempty hq] at ht
  by_cases hpc : CutOff allowed p
  · rw [if_pos hpc] at hs
    obtain ⟨i, hi, rfl⟩ := map_eq_ok.mp hs
    have hmem := (CpuSet.lowest_ok hi).1
    by_cases hqc : CutOff allowed q
    · rw [if_pos hqc, hi] at ht
      cases ht
      simp [hpc, hqc, hi]
    · rw [if_neg hqc] at ht
      cases ht
      simp [hpc, hqc, hi, allowedPart, qall, hmem]
  · rw [if_neg hpc] at hs
    cases hs
    by_cases hqc : CutOff allowed q
    · rw [if_pos hqc] at ht
      obtain ⟨i, hi, rfl⟩ := map_eq_ok.mp ht
      have hmem := (CpuSet.lowest_ok hi).1
      simp [hpc, hqc, hi, allowedPart, pall, hmem]
    · rw [if_neg hqc] at ht
      cases ht
      have hparts : Disjoint (allowedPart allowed p) (allowedPart allowed q) := by
        simp only [allowedPart, pall, qall, if_false]
        exact disjoint.mono Finset.inter_subset_left Finset.inter_subset_left
      simp [hpc, hqc, hparts]

theorem slices_separate_iff (nonempty : allowed.Nonempty) {sets : List (String × CpuSet)}
    (parses : ∀ p ∈ sets, parseCpuSet maxCpus p.1 ∅ = .ok p.2)
    (alone : ∀ p ∈ sets, p.1 = "all" → sets.length ≤ 1)
    (disjoint : sets.Pairwise fun p q => Disjoint p.2 q.2) {cpus : List CpuSet}
    (run : List.Forall₂ (fun p s => sliceCpus maxCpus allowed p.1 = .ok s) sets cpus) :
    cpus.Pairwise Disjoint ↔ FallbackFree maxCpus allowed sets := by
  obtain ⟨hlength, hget⟩ := List.forall₂_iff_get.mp run
  have hpair : ∀ a b (ha : a < sets.length) (hb : b < sets.length), a ≠ b →
      (Disjoint (cpus.get ⟨a, hlength ▸ ha⟩) (cpus.get ⟨b, hlength ▸ hb⟩) ↔
        ∀ i, CpuSet.lowest maxCpus allowed = .ok i →
          (CutOff allowed sets[a] → ¬ CutOff allowed sets[b] ∧ i ∉ sets[b].2) ∧
            (CutOff allowed sets[b] → ¬ CutOff allowed sets[a] ∧ i ∉ sets[a].2)) := by
    intro a b ha hb hne
    have hlists : Disjoint sets[a].2 sets[b].2 := by
      rw [List.pairwise_iff_getElem] at disjoint
      rcases Nat.lt_or_gt_of_ne hne with hlt | hlt
      · exact disjoint a b ha hb hlt
      · exact (disjoint b a hb ha hlt).symm
    have hnotall : ∀ k (hk : k < sets.length), sets[k].1 ≠ "all" := by
      intro k hk hall
      have hone := alone _ (List.getElem_mem hk) hall
      omega
    exact sliceCpus_disjoint_iff nonempty (parses _ (List.getElem_mem ha))
      (parses _ (List.getElem_mem hb)) hlists (hnotall a ha) (hnotall b hb)
      (hget a ha (hlength ▸ ha)) (hget b hb (hlength ▸ hb))
  constructor
  · intro hseparate a ha hcut
    have hrun := hget a ha (hlength ▸ ha)
    rw [List.get_eq_getElem, sliceCpus_eq nonempty (parses _ (List.getElem_mem ha)),
      if_pos hcut] at hrun
    obtain ⟨i, hi, -⟩ := map_eq_ok.mp hrun
    refine ⟨i, hi, fun b hb hne => ?_⟩
    rw [List.pairwise_iff_getElem] at hseparate
    have hdisjoint : Disjoint (cpus.get ⟨a, hlength ▸ ha⟩) (cpus.get ⟨b, hlength ▸ hb⟩) := by
      rcases Nat.lt_or_gt_of_ne hne with hlt | hlt
      · exact (hseparate b a _ _ hlt).symm
      · exact hseparate a b _ _ hlt
    exact (((hpair a b ha hb hne.symm).mp hdisjoint) i hi).1 hcut
  · intro hfree
    rw [List.pairwise_iff_getElem]
    intro a b ha hb hlt
    refine (hpair a b (hlength ▸ ha) (hlength ▸ hb) (by omega)).mpr fun i hi => ?_
    constructor
    · intro hcut
      obtain ⟨j, hj, hothers⟩ := hfree a (hlength ▸ ha) hcut
      rw [hi, Except.ok.injEq] at hj
      exact hj ▸ hothers b (hlength ▸ hb) (by omega)
    · intro hcut
      obtain ⟨j, hj, hothers⟩ := hfree b (hlength ▸ hb) hcut
      rw [hi, Except.ok.injEq] at hj
      exact hj ▸ hothers a (hlength ▸ ha) (by omega)

theorem createSlice_cpus {toHz : δ → Nat} {partitions : List PartitionObject} {slice : Node}
    {o : SliceObject} (run : createSlice y maxCpus toHz allowed partitions slice = .ok o)
    {p : String × CpuSet} (has : HasCpus y maxCpus slice p) :
    sliceCpus maxCpus allowed p.1 = .ok o.cpus := by
  simp only [createSlice, bind_def, bind_eq_ok, pure_def, Except.ok.injEq] at run
  obtain ⟨-, -, -, -, v, hget, s, hs, cpus, hcpus, -, -, rfl⟩ := run
  rw [← (get_ok_find hget).2, has.1, Except.ok.injEq] at hs
  exact hs ▸ hcpus

theorem hasCpus_unique : Relator.RightUnique (HasCpus y maxCpus) := by
  intro slice p q hp hq
  have hlist : p.1 = q.1 := Except.ok.inj (hp.1.symm.trans hq.1)
  have hset : p.2 = q.2 := Except.ok.inj (hp.2.symm.trans (hlist ▸ hq.2))
  exact Prod.ext hlist hset

theorem createWindow_cpus {toHz : δ → Nat} {partitions : List PartitionObject} {win : Node}
    {w : WindowObject} (run : createWindow y maxCpus toHz allowed partitions win = .ok w)
    {sets : List (String × CpuSet)}
    (has : List.Forall₂ (HasCpus y maxCpus) (itemsAt win "slices") sets) :
    List.Forall₂ (fun p s => sliceCpus maxCpus allowed p.1 = .ok s) sets
      (w.slices.map (·.cpus)) := by
  simp only [createWindow, bind_def, bind_eq_ok, pure_def, Except.ok.injEq] at run
  obtain ⟨-, -, -, -, slices, hslices, rfl⟩ := run
  rw [mapM_eq_ok] at hslices
  rw [List.forall₂_map_right_iff]
  generalize itemsAt win "slices" = nodes at has hslices
  induction has generalizing slices with
  | nil =>
    cases hslices
    exact .nil
  | cons hhas hrest ih =>
    cases hslices with
    | cons hrun hslices => exact .cons (createSlice_cpus hrun hhas) (ih _ hslices)

theorem CpusSeparate.iff_fallbackFree (nonempty : allowed.Nonempty) {toHz : δ → Nat}
    {partitions : List PartitionObject} {config win : Node} {w : WindowObject}
    (valid : Validated y maxCpus config) (mem : win ∈ itemsAt config "windows")
    (run : createWindow y maxCpus toHz allowed partitions win = .ok w) :
    CpusSeparate allowed w ↔ ∀ sets,
      List.Forall₂ (HasCpus y maxCpus) (itemsAt win "slices") sets →
        FallbackFree maxCpus allowed sets := by
  obtain ⟨sets, hsets, halone, hdisjoint⟩ := valid.cpus win mem
  have hruns := createWindow_cpus run hsets
  have hparses : ∀ p ∈ sets, parseCpuSet maxCpus p.1 ∅ = .ok p.2 := by
    intro p hp
    obtain ⟨n, -, hn⟩ := forall₂_mem hsets hp
    exact hn.2
  rw [hsets.length_eq] at halone
  have hseparate := slices_separate_iff nonempty hparses halone hdisjoint hruns
  rw [List.pairwise_map] at hseparate
  constructor
  · intro h sets' hsets'
    rw [List.right_unique_forall₂' hasCpus_unique hsets' hsets]
    exact hseparate.mp h.disjoint
  · intro h
    refine ⟨fun s hs => ?_, hseparate.mpr (h sets hsets)⟩
    obtain ⟨p, hp, hrun⟩ := forall₂_mem hruns (List.mem_map_of_mem hs)
    exact sliceCpus_allowed nonempty (hparses p hp) hrun

theorem sliceCpus_of_fallbacksFree (nonempty : allowed.Nonempty) {config win slice : Node}
    {s : String} (valid : Validated y maxCpus config) (free : FallbacksFree y maxCpus allowed config)
    (window : win ∈ itemsAt config "windows") (mem : slice ∈ itemsAt win "slices")
    (cpu : y.asString (slice.find "cpu") = .ok s) :
    ∃ cpus, sliceCpus maxCpus allowed s = .ok cpus := by
  obtain ⟨sets, hsets, -⟩ := valid.cpus win window
  obtain ⟨p, hp, hhas⟩ := forall₂_mem hsets.flip mem
  obtain ⟨a, ha, rfl⟩ := List.getElem_of_mem hp
  obtain rfl := Except.ok.inj (cpu.symm.trans hhas.1)
  rw [sliceCpus_eq nonempty hhas.2]
  split
  case isFalse => exact ⟨_, rfl⟩
  case isTrue hcut =>
    obtain ⟨i, hi, -⟩ := free win window sets hsets a ha hcut
    exact ⟨{i}, by rw [hi]; rfl⟩

/-- The slices of every window get disjoint sets of allowed CPUs exactly if those that
are cut off find an unused CPU. -/
theorem cpus_realized_iff (y : Conversions δ) (inv : y.Inverts) (maxCpus : Nat) (toHz : δ → Nat)
    (c c' : YamlConfig) (accepted : c.normalize y maxCpus = .ok c') (allowed : CpuSet)
    (nonempty : allowed.Nonempty) :
    CpusRealized y maxCpus allowed toHz c'.config ↔ FallbacksFree y maxCpus allowed c'.config := by
  obtain ⟨setCwd, demosCpu, nps, nws, h⟩ := normalize_ok inv accepted
  have hvalid := validateConfig_ok h.valid
  have hwins := (itemsAt_normalConfig (y.bool setCwd) demosCpu nps nws).2
  rw [← h.config] at hwins
  constructor
  · intro hrealized win hwin
    have hobjects : ((partitionNames y c'.config).map fun name =>
        (⟨name, []⟩ : PartitionObject)).map (·.name) = partitionNames y c'.config := by
      simp [Function.comp_def]
    obtain ⟨windows, hwindows, hseparate⟩ := hrealized _ hobjects
    obtain ⟨w, hw, hrun⟩ := mapM_each hwindows hwin
    exact (CpusSeparate.iff_fallbackFree nonempty hvalid hwin hrun).mp (hseparate w hw)
  · intro hfree partitions hnames
    obtain ⟨windows, hwindows⟩ := h.createWindows_total toHz inv
      (h.partitionNames_eq ▸ hnames) fun nw hnw slice hslice s hs =>
        sliceCpus_of_fallbacksFree nonempty hvalid hfree (hwins ▸ hnw) hslice hs
    refine ⟨windows, hwindows, fun w hw => ?_⟩
    obtain ⟨win, hwin, hrun⟩ := mapM_mem hwindows hw
    exact (CpusSeparate.iff_fallbackFree nonempty hvalid hwin hrun).mpr (hfree win hwin)

def slicesOn (first second : String) : YamlConfig :=
  ⟨.map [(.scalar "windows", .seq [.map [(.scalar "length", .scalar "100"),
    (.scalar "slices", .seq [
      .map [(.scalar "cpu", .scalar first), (.scalar "sc_processes", .map [
        (.scalar "cmd", .scalar "a"), (.scalar "budget", .scalar "10")])],
      .map [(.scalar "cpu", .scalar second), (.scalar "sc_processes", .map [
        (.scalar "cmd", .scalar "b"), (.scalar "budget", .scalar "10")])]])]])], false, none, 0⟩

def twoSlices : YamlConfig := slicesOn "0" "1"

/-- Where CPUs 0 and 1 are allowed, the slice on CPU 5 falls back to CPU 0. -/
theorem cpus_realized_apart :
    ∃ c', (slicesOn "1" "5").normalize Conversions.decimal 64 = .ok c' ∧
      CpusRealized Conversions.decimal 64 {0, 1} Int.toNat c'.config := by
  have hlists : ((slicesOn "1" "5").normalize Conversions.decimal 64).toOption.map (fun c' =>
      (itemsAt c'.config "windows").map fun win => (itemsAt win "slices").map fun slice =>
        (Conversions.decimal.asString (slice.find "cpu")).toOption) =
      some [[some "1", some "5"]] := by
    decide +kernel
  simp only [Option.map_eq_some_iff, toOption_eq_some] at hlists
  obtain ⟨c', hc', hlists⟩ := hlists
  obtain ⟨win, hwindows, hwin⟩ := List.map_eq_singleton_iff.mp hlists
  refine ⟨c', hc', (cpus_realized_iff Conversions.decimal Conversions.decimal_inverts 64 Int.toNat
    _ c' hc' {0, 1} ⟨0, by decide⟩).mpr ?_⟩
  intro win' hwin' sets hsets
  rw [hwindows, List.mem_singleton] at hwin'
  subst hwin'
  obtain ⟨first, rest, hslices, hfirst, hrest⟩ := List.map_eq_cons_iff.mp hwin
  obtain ⟨second, hsecond, hsecond'⟩ := List.map_eq_singleton_iff.mp hrest
  have hset : ∀ (set : CpuSet) {slice : Node} {list : String} {p : String × CpuSet},
      (Conversions.decimal.asString (slice.find "cpu")).toOption = some list →
        parseCpuSet 64 list ∅ = .ok set → HasCpus Conversions.decimal 64 slice p →
          p = (list, set) := by
    intro set slice list p hlist hparse hhas
    exact hasCpus_unique hhas ⟨toOption_eq_some.mp hlist, hparse⟩
  rw [hslices, hsecond] at hsets
  cases hsets with
  | cons h₁ hsets =>
    cases hsets with
    | cons h₂ hnil =>
      cases hnil
      rw [hset {1} hfirst (by decide) h₁, hset {5} hsecond' (by decide) h₂]
      intro a ha hcut
      rcases a with _ | _ | a
      · exact absurd hcut (show ¬ CutOff {0, 1} ("1", {1}) by decide)
      · refine ⟨0, by decide, fun b hb hne => ?_⟩
        rcases b with _ | _ | b
        · exact ⟨show ¬ CutOff {0, 1} ("1", {1}) by decide, show 0 ∉ ({1} : CpuSet) by decide⟩
        · exact absurd rfl hne
        · exact absurd hb (by simp)
      · exact absurd ha (by simp)

/-- Where only CPU 0 is allowed, both slices run on it. -/
theorem cpus_realized_twoSlices :
    ∃ c' os, twoSlices.normalize Conversions.decimal 64 = .ok c' ∧
      createSchedulerObjects Conversions.decimal 64 Int.toNat (fun _ => .ok ()) {0} c' = .ok os ∧
      os.windows.map (fun w => w.slices.map (·.cpus)) = [[{0}, {0}]] ∧
      ¬ CpusRealized Conversions.decimal 64 {0} Int.toNat c'.config := by
  have hrun : ((twoSlices.normalize Conversions.decimal 64).toOption.bind fun c' =>
      (createSchedulerObjects Conversions.decimal 64 Int.toNat (fun _ => .ok ()) {0}
        c').toOption.map fun os => os.windows.map fun w => w.slices.map (·.cpus)) =
      some [[{0}, {0}]] := by
    decide +kernel
  have hnames : ((twoSlices.normalize Conversions.decimal 64).toOption.bind fun c' =>
      (createWindows Conversions.decimal 64 Int.toNat {0}
        ((partitionNames Conversions.decimal c'.config).map (⟨·, []⟩)) c'.config).toOption.map
          fun ws => ws.map fun w => w.slices.map (·.cpus)) = some [[{0}, {0}]] := by
    decide +kernel
  simp only [Option.bind_eq_some_iff, Option.map_eq_some_iff, toOption_eq_some] at hrun hnames
  obtain ⟨c', hc', os, hos, hcpus⟩ := hrun
  obtain ⟨c'', hc'', windows, hwindows, hsame⟩ := hnames
  obtain rfl := Except.ok.inj (hc'.symm.trans hc'')
  refine ⟨c', os, hc', hos, hcpus, fun hrealized => ?_⟩
  obtain ⟨windows', hwindows', hseparate⟩ := hrealized
    ((partitionNames Conversions.decimal c'.config).map (⟨·, []⟩)) (by simp [Function.comp_def])
  obtain rfl := Except.ok.inj (hwindows.symm.trans hwindows')
  obtain ⟨w, rfl, hw⟩ := List.map_eq_singleton_iff.mp hsame
  have hdisjoint := List.pairwise_map.mpr (hseparate w (List.mem_singleton_self w)).disjoint
  rw [hw] at hdisjoint
  simp at hdisjoint

end DemosSched
