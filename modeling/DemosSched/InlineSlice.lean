import DemosSched.SliceRoles

/-! A slice given in a list of its own, and the same slice with its keys moved into
the window. -/

namespace DemosSched

open Yaml Fallible

variable {δ : Type} {y : Conversions δ} {maxCpus : Nat}

structure SameSlice (ρ : Equiv.Perm String) (a b : Node) : Prop where
  roles : ∀ sc, b.find (roleKey sc) = (a.find (roleKey sc)).map (renameNode ρ)
  other : ∀ k, (∀ sc, k ≠ roleKey sc) → b.find k = a.find k

def UsesAll (slice : Node) (partitions : List Node) : Prop :=
  ∀ np ∈ partitions, ∃ sc, slice.find (roleKey sc) = np.find "name"

/-- Windows with one slice each, the same for both up to generated names, and with
the same partitions defined, all of which the slice uses. -/
def SameWindow (st : Defined) (r₁ r₂ : Node × Defined) : Prop :=
  ∃ (ρ : Equiv.Perm String) (slice₁ slice₂ : Node) (new₁ new₂ : List Node),
    (∀ name, ρ name ≠ name → ∃ n, st.counter ≤ n ∧ name = anonymousName n) ∧
    r₁.1.find "length" = r₂.1.find "length" ∧
    itemsAt r₁.1 "slices" = [slice₁] ∧ itemsAt r₂.1 "slices" = [slice₂] ∧
    SameSlice ρ slice₁ slice₂ ∧
    r₁.2.partitions = st.partitions ++ new₁ ∧ r₂.2.partitions = st.partitions ++ new₂ ∧
    new₂.Perm (new₁.map (renamePartition ρ)) ∧
    UsesAll slice₁ new₁ ∧ UsesAll slice₂ new₂

variable (y maxCpus) in
/-- For every window length, both forms are rejected or both give the same. -/
def FormsAgree (entries : List (Node × Node)) : Prop :=
  ∀ length st, Alike (SameWindow st) (normalizeWindow y maxCpus (explicitWindow length entries) st)
    (normalizeWindow y maxCpus (inlineWindow length entries) st)

/-- The keys of a slice that a window can have in its place. -/
structure Movable (entries : List (Node × Node)) : Prop where
  frequency : (Node.map entries).has "frequency" = false
  length : (Node.map entries).has "length" = false
  sc : (Node.map entries).has "sc_partition" = true → (Node.map entries).has "sc_processes" = false
  be : (Node.map entries).has "be_partition" = true → (Node.map entries).has "be_processes" = false
  once : ∀ k v, (Node.map entries).find k = some v → DefinesAt k v →
    entries.countP (Node.isKey k ·.1) ≤ 1

variable (y maxCpus) in
/-- For some window length every value is readable, and the keys are those of a slice, or
those of a window that do not exclude each other. -/
def Recognized (entries : List (Node × Node)) : Prop :=
  ∃ length n, y.asInt (some length) = .ok n ∧ Readable y maxCpus entries (.ofInt n) ∧
    (KeysIn ("frequency" :: windowKeys) entries ∨
      KeysIn ("length" :: windowKeys) entries ∧ Exclusive entries)

theorem normalizeSlice_spec {slice : Node} {wl : Single} {st : Defined} {r : Node × Defined}
    (plain : ∀ key ∈ slice.keys, ∃ k ∈ windowKeys, key = some (.scalar k))
    (cpu : slice.has "cpu" = true) (run : normalizeSlice y maxCpus slice wl st = .ok r) :
    (∃ new, r.2.partitions = st.partitions ++ new ∧ List.Forall₂ (MadeFrom (y := y))
      (namedDefinitions y (definitionsOf (sliceUses y ⟨0, 0⟩ slice wl)) st.counter) new) ∧
    (∀ sc, r.1.find (roleKey sc) =
      (storedName (namedUses y (sliceUses y ⟨0, 0⟩ slice wl) st.counter) (⟨0, 0⟩, sc)).map .scalar) ∧
    ∀ k, (∀ sc, k ≠ roleKey sc) → r.1.find k =
      if k = "cpu" then (y.asString (slice.find "cpu")).toOption.map .scalar else none := by
  simp only [normalizeSlice, bind_def, bind_eq_ok] at run
  obtain ⟨⟨f, st'⟩, hloop, run⟩ := run
  have hbuilt := sliceKeys_built ⟨0, 0⟩ hloop
  have hr : r = (f.toNode, st') := by
    split at run
    case isFalse => cases run
    case isTrue =>
      simp only [bind_eq_ok, pure_def, Except.ok.injEq] at run
      obtain ⟨-, -, -, -, rfl⟩ := run
      rfl
  subst hr
  obtain ⟨-, new, hnew, hmade⟩ := defineAll_ok hbuilt.gives
  refine ⟨⟨new, hnew, hmade⟩, ?_, ?_⟩
  · intro sc
    rw [Fields.find_toNode, hbuilt.stored sc]
  · intro k hk
    have hknown : ∀ key ∈ slice.keys, ∃ l ∈ "frequency" :: windowKeys, key = some (.scalar l) := by
      intro key hkey
      obtain ⟨l, hl, rfl⟩ := plain key hkey
      exact ⟨l, List.mem_cons_of_mem _ hl, rfl⟩
    have hunread : some (.scalar "frequency") ∉ slice.keys := by
      intro hkey
      obtain ⟨l, hl, hkey⟩ := plain _ hkey
      rw [Option.some.injEq, Node.scalar.injEq] at hkey
      exact absurd (hkey ▸ hl) (by decide)
    rw [Fields.find_toNode,
      sliceKeys_other hknown cpu hloop hk fun hkey => absurd hkey hunread]

theorem Presents.usesAll {i : SliceId} {roles : Bool → Option Reference} {us : List Use}
    (h : Presents i roles us) {n : Nat} {slice : Node} {new : List Node}
    (stored : ∀ sc, slice.find (roleKey sc) =
      (storedName (namedUses y us n) (i, sc)).map .scalar)
    (made : List.Forall₂ (MadeFrom (y := y)) (namedDefinitions y (definitionsOf us) n) new) :
    UsesAll slice new := by
  intro np hnp
  obtain ⟨d, hd, procs, -, rfl⟩ := forall₂_mem made hnp
  obtain ⟨r, hr⟩ := h.defined_stored hd
  refine ⟨r, ?_⟩
  rw [stored r, hr]
  simp [partitionNode]

theorem sameWindow_of_presents {slice₁ slice₂ : Node} {wl : Single} {st : Defined}
    {r₁ r₂ : Node × Defined} {roles : Bool → Option Reference} (length : Int)
    (plain₁ : ∀ key ∈ slice₁.keys, ∃ k ∈ windowKeys, key = some (.scalar k))
    (plain₂ : ∀ key ∈ slice₂.keys, ∃ k ∈ windowKeys, key = some (.scalar k))
    (cpu₁ : slice₁.has "cpu" = true) (cpu : slice₂.find "cpu" = slice₁.find "cpu")
    (h₁ : Presents ⟨0, 0⟩ roles (sliceUses y ⟨0, 0⟩ slice₁ wl))
    (h₂ : Presents ⟨0, 0⟩ roles (sliceUses y ⟨0, 0⟩ slice₂ wl))
    (run₁ : normalizeSlice y maxCpus slice₁ wl st = .ok r₁)
    (run₂ : normalizeSlice y maxCpus slice₂ wl st = .ok r₂) :
    SameWindow st (windowOf y length r₁) (windowOf y length r₂) := by
  obtain ⟨⟨new₁, hnew₁, hmade₁⟩, hstored₁, hother₁⟩ := normalizeSlice_spec plain₁ cpu₁ run₁
  obtain ⟨⟨new₂, hnew₂, hmade₂⟩, hstored₂, hother₂⟩ :=
    normalizeSlice_spec plain₂ (by rwa [Node.has, cpu]) run₂
  obtain ⟨ρ, hρ⟩ := h₁.renames (y := y) h₂ st.counter
  have hitems : ∀ r : Node × Defined, itemsAt (windowOf y length r).1 "slices" = [r.1] := by
    intro r
    rw [windowOf, itemsAt_toNode (l := [r.1]) (by simp)]
  refine ⟨ρ, r₁.1, r₂.1, new₁, new₂, hρ.generated, rfl, hitems r₁, hitems r₂, ⟨?_, ?_⟩, hnew₁,
    hnew₂, hρ.perm hmade₁ hmade₂, h₁.usesAll hstored₁ hmade₁, h₂.usesAll hstored₂ hmade₂⟩
  · intro sc
    rw [hstored₂ sc, hstored₁ sc, hρ.stored sc, Option.map_map, Option.map_map]
    rfl
  · intro k hk
    rw [hother₂ k hk, hother₁ k hk, cpu]

theorem countP_copiedEntries (entries : List (Node × Node)) (k : String) :
    (copiedEntries entries).countP (Node.isKey k ·.1) ≤ 1 := by
  have hnodup : (windowKeys.filter (Node.map entries).has).Nodup :=
    List.Nodup.filter _ (by decide)
  rw [← Fields.keys_copy, List.nodup_iff_count_le_one] at hnodup
  have hcount := hnodup k
  rw [copiedEntries, List.countP_map]
  rw [Fields.keys, List.count, List.countP_map] at hcount
  refine le_of_eq_of_le (List.countP_congr fun e _ => ?_) hcount
  simp [Node.isKey]

theorem keys_copied {entries : List (Node × Node)} {key : Option Node} :
    key ∈ (copied entries).keys ↔
      ∃ k ∈ windowKeys, (Node.map entries).has k = true ∧ key = some (.scalar k) := by
  rw [copied, Fields.keys_toNode, Fields.keys_copy, List.mem_map]
  simp only [List.mem_filter, and_assoc, eq_comm]

theorem Movable.exclusive {entries : List (Node × Node)} (h : Movable entries) :
    Exclusive entries := by
  intro sc
  cases sc
  · exact h.be
  · exact h.sc

theorem plain_copied (entries : List (Node × Node)) :
    ∀ key ∈ (copied entries).keys, ∃ k ∈ windowKeys, key = some (.scalar k) := by
  intro key hkey
  obtain ⟨k, hk, -, rfl⟩ := keys_copied.mp hkey
  exact ⟨k, hk, rfl⟩

theorem copied_presents {entries : List (Node × Node)}
    (cpu : (Node.map entries).has "cpu" = true) (exclusive : Exclusive entries) (wl : Single) :
    Presents ⟨0, 0⟩ (rolesOf (.map entries) wl) (sliceUses y ⟨0, 0⟩ (copied entries) wl) := by
  have hfind : ∀ k ∈ windowKeys, (copied entries).find k = (Node.map entries).find k :=
    fun k hk => find_copied hk
  have hexclusive : Exclusive (copiedEntries entries) := by
    intro r
    rw [← copied_eq cpu, Node.has, Node.has, hfind _ (by cases r <;> decide),
      hfind _ (by cases r <;> decide)]
    exact exclusive r
  rw [← rolesOf_congr hfind wl, copied_eq cpu]
  exact ⟨shows_rolesOf ⟨0, 0⟩ wl hexclusive,
    (once_iff ⟨0, 0⟩ wl (plain_copiedEntries entries) hexclusive).mpr
      fun k _ _ _ => countP_copiedEntries entries k⟩

theorem formsAgree_of_movable (null : ∀ text, y.nullText = some text → text = "null")
    {entries : List (Node × Node)} (cpu : (Node.map entries).has "cpu" = true)
    (movable : Movable entries) : FormsAgree y maxCpus entries := by
  have hexclusive := movable.exclusive
  intro length st
  have hiff : (∃ r, normalizeWindow y maxCpus (explicitWindow length entries) st = .ok r) ↔
      ∃ r, normalizeWindow y maxCpus (inlineWindow length entries) st = .ok r := by
    rw [explicitWindow_accepts_iff null cpu, inlineWindow_accepts_iff null cpu]
    refine and_congr_left fun _ => ⟨fun hkeys => ⟨?_, hexclusive⟩, fun ⟨hkeys, _⟩ => ?_⟩
    · exact (hkeys.plain movable.frequency).cons _
    · exact (hkeys.plain movable.length).cons _
  refine Alike.of_ok_iff hiff fun r₁ r₂ h₁ h₂ => ?_
  obtain ⟨hslice, -⟩ := (explicitWindow_accepts_iff null cpu length st).mp ⟨r₁, h₁⟩
  have hplain := hslice.plain movable.frequency
  rw [explicitWindow_eq, bind_eq_ok] at h₁
  obtain ⟨n, hn, h₁⟩ := h₁
  obtain ⟨q₁, hq₁, rfl⟩ := map_eq_ok.mp h₁
  rw [inlineWindow_eq (hplain.cons _) hexclusive cpu, hn, bind_ok] at h₂
  obtain ⟨q₂, hq₂, rfl⟩ := map_eq_ok.mp h₂
  have hpresents : Presents ⟨0, 0⟩ (rolesOf (.map entries) (.ofInt n))
      (sliceUses y ⟨0, 0⟩ (.map entries) (.ofInt n)) :=
    ⟨shows_rolesOf ⟨0, 0⟩ _ hexclusive, (once_iff ⟨0, 0⟩ _ hplain hexclusive).mpr movable.once⟩
  exact sameWindow_of_presents n (fun _ => hplain.key) (plain_copied entries) cpu
    (find_copied (by decide)) hpresents (copied_presents cpu hexclusive _) hq₁ hq₂

theorem movable_of_sameWindow (null : ∀ text, y.nullText = some text → text = "null")
    {entries : List (Node × Node)} (cpu : (Node.map entries).has "cpu" = true) {length : Node}
    {st : Defined} {r₁ r₂ : Node × Defined}
    (h₁ : normalizeWindow y maxCpus (explicitWindow length entries) st = .ok r₁)
    (h₂ : normalizeWindow y maxCpus (inlineWindow length entries) st = .ok r₂)
    (same : SameWindow st r₁ r₂) : Movable entries := by
  obtain ⟨hslice, -⟩ := (explicitWindow_accepts_iff null cpu length st).mp ⟨r₁, h₁⟩
  obtain ⟨hwindow, hexclusive⟩ := normalizeWindow_keys null cpu h₂
  have hplain := hslice.plain (hwindow.none (by decide))
  rw [explicitWindow_eq, bind_eq_ok] at h₁
  obtain ⟨n, hn, h₁⟩ := h₁
  obtain ⟨q₁, hq₁, rfl⟩ := map_eq_ok.mp h₁
  rw [inlineWindow_eq hwindow hexclusive cpu, hn, bind_ok] at h₂
  obtain ⟨q₂, hq₂, rfl⟩ := map_eq_ok.mp h₂
  have hcopy := copied_presents (y := y) cpu hexclusive (.ofInt n)
  obtain ⟨⟨new₁, hnew₁, hmade₁⟩, -⟩ := normalizeSlice_spec (fun _ => hplain.key) cpu hq₁
  obtain ⟨⟨new₂, hnew₂, hmade₂⟩, -⟩ := normalizeSlice_spec (plain_copied entries)
    (by rw [Node.has, find_copied (by decide)]; exact cpu) hq₂
  have hlength : new₁.length = new₂.length := by
    obtain ⟨ρ, -, -, parts₁, parts₂, -, -, -, -, -, hparts₁, hparts₂, hperm, -⟩ := same
    rw [List.append_cancel_left (hnew₁.symm.trans hparts₁),
      List.append_cancel_left (hnew₂.symm.trans hparts₂), hperm.length_eq, List.length_map]
  have hcount : ∀ us : List Use, (namedDefinitions y (definitionsOf us) st.counter).length =
      (definedRoles us).length := by
    intro us
    rw [namedDefinitions_length, ← map_snd_definedRoles, List.length_map]
  have honce := once_of_length (shows_rolesOf (y := y) ⟨0, 0⟩ (.ofInt n) hexclusive) hcopy
    (by rw [← hcount, ← hcount, hmade₁.length_eq, hmade₂.length_eq, hlength])
  exact ⟨hplain.none (by decide), hplain.none (by decide), hexclusive true, hexclusive false,
    (once_iff ⟨0, 0⟩ (.ofInt n) hplain hexclusive).mp honce⟩

/-- A slice in a list and its keys in the window normalize alike exactly if the keys
can be moved, or are not those of either form with values that can be read. -/
theorem forms_agree_iff (y : Conversions δ)
    (null : ∀ text, y.nullText = some text → text = "null") (maxCpus : Nat)
    (entries : List (Node × Node)) (cpu : (Node.map entries).has "cpu" = true) :
    FormsAgree y maxCpus entries ↔ (Recognized y maxCpus entries → Movable entries) := by
  constructor
  · rintro hagree ⟨length, n, hn, hread, hkeys⟩
    have hpair := hagree length ⟨[], 0⟩
    have hboth : (∃ r, normalizeWindow y maxCpus (explicitWindow length entries) ⟨[], 0⟩ = .ok r) ∧
        ∃ r, normalizeWindow y maxCpus (inlineWindow length entries) ⟨[], 0⟩ = .ok r := by
      rcases hkeys with hkeys | hkeys
      · have h := (explicitWindow_accepts_iff null cpu length ⟨[], 0⟩).mpr ⟨hkeys, n, hn, hread⟩
        exact ⟨h, hpair.ok_iff.mp h⟩
      · have h := (inlineWindow_accepts_iff null cpu length ⟨[], 0⟩).mpr ⟨hkeys, n, hn, hread⟩
        exact ⟨hpair.ok_iff.mpr h, h⟩
    obtain ⟨⟨r₁, h₁⟩, r₂, h₂⟩ := hboth
    rw [h₁, h₂] at hpair
    exact movable_of_sameWindow null cpu h₁ h₂ hpair
  · intro hmovable
    by_cases hrecognized : Recognized y maxCpus entries
    · exact formsAgree_of_movable null cpu (hmovable hrecognized)
    · intro length st
      -- neither form is accepted
      have hexplicit : ¬ ∃ r, normalizeWindow y maxCpus (explicitWindow length entries) st = .ok r := by
        rw [explicitWindow_accepts_iff null cpu]
        rintro ⟨hkeys, n, hn, hread⟩
        exact hrecognized ⟨length, n, hn, hread, .inl hkeys⟩
      have hinline : ¬ ∃ r, normalizeWindow y maxCpus (inlineWindow length entries) st = .ok r := by
        rw [inlineWindow_accepts_iff null cpu]
        rintro ⟨hkeys, n, hn, hread⟩
        exact hrecognized ⟨length, n, hn, hread, .inr hkeys⟩
      exact Alike.of_ok_iff (iff_of_false hexplicit hinline) fun r _ h _ => absurd ⟨r, h⟩ hexplicit

/-- `{cpu: 0, be_processes: {cmd: b, budget: 20}, sc_processes: {cmd: a, budget: 10}}` -/
def twoPhases : List (Node × Node) :=
  [(.scalar "cpu", .scalar "0"),
    (.scalar "be_processes", .map [(.scalar "cmd", .scalar "b"), (.scalar "budget", .scalar "20")]),
    (.scalar "sc_processes", .map [(.scalar "cmd", .scalar "a"), (.scalar "budget", .scalar "10")])]

theorem forms_agree_twoPhases : FormsAgree Conversions.decimal 64 twoPhases := by
  have hnull : ∀ text, Conversions.decimal.nullText = some text → text = "null" := by
    rintro text ⟨⟩
    rfl
  refine (forms_agree_iff Conversions.decimal hnull 64 twoPhases (by decide)).mpr fun _ => ?_
  refine ⟨by decide, by decide, by decide, by decide, ?_⟩
  rintro k v - (rfl | rfl | ⟨rfl | rfl, -⟩) <;> decide

/-- `{cpu: 0, frequency: 1000, sc_processes: {cmd: a, budget: 10}}` -/
def frequencySlice : List (Node × Node) :=
  [(.scalar "cpu", .scalar "0"), (.scalar "frequency", .scalar "1000"),
    (.scalar "sc_processes", .map [(.scalar "cmd", .scalar "a"), (.scalar "budget", .scalar "10")])]

/-- A frequency is known to a slice and not to a window. -/
theorem forms_agree_frequency :
    (normalizeWindow Conversions.decimal 64 (explicitWindow (.scalar "100") frequencySlice)
        ⟨[], 0⟩).toOption.isSome = true ∧
      normalizeWindow Conversions.decimal 64 (inlineWindow (.scalar "100") frequencySlice) ⟨[], 0⟩ =
        .error (.runtimeError "Unexpected config key in window definition: frequency") ∧
      ¬ FormsAgree Conversions.decimal 64 frequencySlice := by
  have hexplicit : (normalizeWindow Conversions.decimal 64
      (explicitWindow (.scalar "100") frequencySlice) ⟨[], 0⟩).toOption.isSome = true := by
    decide +kernel
  have hinline : normalizeWindow Conversions.decimal 64
      (inlineWindow (.scalar "100") frequencySlice) ⟨[], 0⟩ =
        .error (.runtimeError "Unexpected config key in window definition: frequency") := by rfl
  refine ⟨hexplicit, hinline, fun hagree => ?_⟩
  obtain ⟨r, hr⟩ := Option.isSome_iff_exists.mp hexplicit
  have hpair := hagree (.scalar "100") ⟨[], 0⟩
  rw [hinline, toOption_eq_some.mp hr] at hpair
  exact hpair

end DemosSched
