import DemosSched.References
import DemosSched.SliceForms
import Mathlib.Data.Fintype.Card
import Mathlib.Logic.Equiv.Basic

/-! Two slices that give their phases the same partitions, in whichever order. The
partitions that are defined in place are the same up to the names that are generated. -/

namespace DemosSched

open Yaml Fallible

variable {δ : Type} {y : Conversions δ} {maxCpus : Nat}

def renameNode (ρ : Equiv.Perm String) : Node → Node
  | .scalar name => .scalar (ρ name)
  | n => n

def renamePartition (ρ : Equiv.Perm String) : Node → Node
  | .map (e :: entries) => .map ((e.1, renameNode ρ e.2) :: entries)
  | n => n

def DefinesAt (k : String) (v : Node) : Prop :=
  k = "sc_processes" ∨ k = "be_processes" ∨
    (k = "sc_partition" ∨ k = "be_partition") ∧ v.isScalar = false

instance (k : String) (v : Node) : Decidable (DefinesAt k v) :=
  inferInstanceAs (Decidable (_ ∨ _ ∨ _))

def definedRoles (us : List Use) : List (Bool × Definition) :=
  us.filterMap fun u => u.reference.definition?.map (u.sc, ·)

theorem map_snd_definedRoles (us : List Use) : (definedRoles us).map Prod.snd = definitionsOf us := by
  rw [definedRoles, definitionsOf, List.map_filterMap]
  refine List.filterMap_congr fun u _ => ?_
  cases u.reference.definition? <;> rfl

theorem mem_definedRoles {us : List Use} {r : Bool} {d : Definition} :
    (r, d) ∈ definedRoles us ↔ ∃ u ∈ us, u.sc = r ∧ u.reference = .inline d := by
  rw [definedRoles, List.mem_filterMap]
  refine exists_congr fun u => and_congr_right fun _ => ?_
  cases hu : u.reference <;> simp [Reference.definition?]

structure Shows (i : SliceId) (roles : Bool → Option Reference) (us : List Use) : Prop where
  slices : ∀ u ∈ us, u.slice = i
  sound : ∀ u ∈ us, roles u.sc = some u.reference
  complete : ∀ r ref, roles r = some ref → ∃ u ∈ us, u.sc = r ∧ u.reference = ref

structure Presents (i : SliceId) (roles : Bool → Option Reference) (us : List Use) : Prop
    extends Shows i roles us where
  once : ((definedRoles us).map Prod.fst).Nodup

namespace Presents

variable {i : SliceId} {roles : Bool → Option Reference} {us : List Use} {n : Nat}

theorem stored_name (h : Presents i roles us) {r : Bool} {s : String}
    (role : roles r = some (.name s)) : storedName (namedUses y us n) (i, r) = some s := by
  have hlast := storedName_last (y := y) us n (i, r)
  cases hf : (us.filter fun v => v.role = (i, r)).getLast? with
  | none =>
    obtain ⟨u, hu, hr, -⟩ := h.complete r _ role
    rw [List.getLast?_eq_none_iff, List.filter_eq_nil_iff] at hf
    exact absurd (by simp [Use.role, h.slices u hu, hr]) (hf u hu)
  | some v =>
    rw [hf] at hlast
    obtain ⟨pre, post, hus, hstored⟩ := hlast
    obtain ⟨hv, hrole⟩ := List.mem_filter.mp (List.mem_of_getLast? hf)
    have hsc : v.sc = r := congrArg Prod.snd (of_decide_eq_true hrole)
    have href := h.sound v hv
    rw [hsc, role, Option.some.injEq] at href
    rw [hstored, useName, ← href]

theorem stored_none (h : Presents i roles us) {r : Bool} (role : roles r = none) :
    storedName (namedUses y us n) (i, r) = none := by
  refine storedName_eq_none fun u hu hrole => ?_
  have hsc : u.sc = r := congrArg Prod.snd hrole
  have href := h.sound u hu
  rw [hsc, role] at href
  cases href

theorem stored_inline (h : Presents i roles us) {A B : List (Bool × Definition)} {r : Bool}
    {d : Definition} (split : definedRoles us = A ++ (r, d) :: B) :
    storedName (namedUses y us n) (i, r) =
      some (nameOf (givenName y d.node) (counterAfterAll y (A.map Prod.snd) n)) := by
  have hlast := storedName_last (y := y) us n (i, r)
  obtain ⟨u, hu, hr, href⟩ := mem_definedRoles.mp (show (r, d) ∈ definedRoles us by simp [split])
  cases hf : (us.filter fun v => v.role = (i, r)).getLast? with
  | none =>
    rw [List.getLast?_eq_none_iff, List.filter_eq_nil_iff] at hf
    exact absurd (by simp [Use.role, h.slices u hu, hr]) (hf u hu)
  | some v =>
    rw [hf] at hlast
    obtain ⟨pre, post, hus, hstored⟩ := hlast
    obtain ⟨hv, hrole⟩ := List.mem_filter.mp (List.mem_of_getLast? hf)
    have hsc : v.sc = r := congrArg Prod.snd (of_decide_eq_true hrole)
    have hsame : v.reference = .inline d := by
      have h₁ := h.sound v hv
      have h₂ := h.sound u hu
      rw [hsc, ← hr, h₂, Option.some.injEq] at h₁
      rw [← h₁, href]
    have hpre : definedRoles us = definedRoles pre ++ (r, d) :: definedRoles post := by
      simp [definedRoles, hus, hsame, hsc, Reference.definition?]
    have hsplit : A = definedRoles pre := by
      have hnodup := h.once
      rw [split, List.map_append, List.map_cons, List.nodup_append] at hnodup
      obtain ⟨-, hB, hA⟩ := hnodup
      have hnotA : (r, d) ∉ A := fun hmem => hA r (List.mem_map_of_mem hmem) r (by simp) rfl
      have hnotB : (r, d) ∉ B := fun hmem =>
        (List.nodup_cons.mp hB).1 (List.mem_map_of_mem (f := Prod.fst) hmem)
      rw [split, eq_comm] at hpre
      exact ((List.append_cons_inj_of_notMem hnotA hnotB).mp hpre.symm).1
    rw [hstored, useName, hsame, ← counterAfterAll_definitionsOf, ← map_snd_definedRoles, hsplit]

end Presents

structure Renames (y : Conversions δ) (i : SliceId) (n : Nat) (us₁ us₂ : List Use)
    (ρ : Equiv.Perm String) : Prop where
  generated : ∀ name, ρ name ≠ name → ∃ m, n ≤ m ∧ name = anonymousName m
  stored : ∀ r, storedName (namedUses y us₂ n) (i, r) =
    (storedName (namedUses y us₁ n) (i, r)).map ρ
  defined : namedDefinitions y (definitionsOf us₂) n =
      (namedDefinitions y (definitionsOf us₁) n).map (Prod.map id ρ) ∨
    ∃ p q, namedDefinitions y (definitionsOf us₁) n = [p, q] ∧
      namedDefinitions y (definitionsOf us₂) n = [Prod.map id ρ q, Prod.map id ρ p]

theorem two_roles {J₁ J₂ : List (Bool × Definition)} (h₁ : (J₁.map Prod.fst).Nodup)
    (h₂ : (J₂.map Prod.fst).Nodup) (same : ∀ x, x ∈ J₁ ↔ x ∈ J₂) :
    J₁ = J₂ ∨ ∃ a b, J₁ = [a, b] ∧ J₂ = [b, a] := by
  have hperm := (List.perm_ext_iff_of_nodup h₁.of_map h₂.of_map).mpr same
  have hlength : J₁.length ≤ 2 := by
    have hcard := List.Nodup.length_le_card h₁
    rwa [List.length_map, Fintype.card_bool] at hcard
  match J₁, hlength with
  | [], _ => exact .inl hperm.nil_eq
  | [a], _ => exact .inl (List.perm_singleton.mp hperm.symm).symm
  | [a, b], _ =>
    have hJ₂ := hperm.length_eq
    match J₂, hJ₂ with
    | [c, d], _ =>
      have hc := (same c).mpr (by simp)
      have hd := (same d).mpr (by simp)
      have hne : c ≠ d := by
        have hnodup := h₂.of_map
        simp only [List.nodup_cons, List.mem_singleton] at hnodup
        exact hnodup.1
      simp only [List.mem_cons, List.not_mem_nil, or_false] at hc hd
      rcases hc with rfl | rfl <;> rcases hd with rfl | rfl
      · exact absurd rfl hne
      · exact .inl rfl
      · exact .inr ⟨_, _, rfl, rfl⟩
      · exact absurd rfl hne

/-- Two names in the other order of generation. -/
theorem exists_renaming (given₁ given₂ : Option String) (n : Nat) :
    ∃ ρ : Equiv.Perm String, (∀ name, ρ name ≠ name → ∃ m, n ≤ m ∧ name = anonymousName m) ∧
      ρ (nameOf given₁ n) = nameOf given₁ (counterAfter given₂ n) ∧
      ρ (nameOf given₂ (counterAfter given₁ n)) = nameOf given₂ n := by
  cases given₁ with
  | some s => exact ⟨Equiv.refl _, fun name h => absurd rfl h, rfl, rfl⟩
  | none =>
    cases given₂ with
    | some t => exact ⟨Equiv.refl _, fun name h => absurd rfl h, rfl, rfl⟩
    | none =>
      refine ⟨Equiv.swap (anonymousName n) (anonymousName (n + 1)), ?_,
        Equiv.swap_apply_left _ _, Equiv.swap_apply_right _ _⟩
      intro name hmoved
      rcases Equiv.eq_or_eq_of_swap_apply_ne_self hmoved with rfl | rfl
      · exact ⟨n, le_rfl, rfl⟩
      · exact ⟨n + 1, Nat.le_succ n, rfl⟩

theorem Shows.mem_iff {i : SliceId} {roles : Bool → Option Reference} {us : List Use}
    (h : Shows i roles us) (x : Bool × Definition) :
    x ∈ definedRoles us ↔ roles x.1 = some (.inline x.2) := by
  rw [mem_definedRoles]
  constructor
  · rintro ⟨u, hu, hr, href⟩
    rw [← hr, h.sound u hu, href]
  · intro hrole
    exact h.complete x.1 _ hrole

theorem Presents.renames {i : SliceId} {roles : Bool → Option Reference} {us₁ us₂ : List Use}
    (h₁ : Presents i roles us₁) (h₂ : Presents i roles us₂) (n : Nat) :
    ∃ ρ, Renames y i n us₁ us₂ ρ := by
  have hsame : ∀ x, x ∈ definedRoles us₁ ↔ x ∈ definedRoles us₂ := fun x =>
    (h₁.mem_iff x).trans (h₂.mem_iff x).symm
  rcases two_roles h₁.once h₂.once hsame with heq | ⟨a, b, ha, hb⟩
  · have hdefs : definitionsOf us₂ = definitionsOf us₁ := by
      rw [← map_snd_definedRoles, ← map_snd_definedRoles, heq]
    refine ⟨Equiv.refl _, fun name h => absurd rfl h, fun r => ?_, .inl ?_⟩
    · cases hr : roles r with
      | none => rw [h₁.stored_none hr, h₂.stored_none hr, Option.map_none]
      | some ref =>
        cases ref with
        | name s => rw [h₁.stored_name hr, h₂.stored_name hr]; rfl
        | inline d =>
          obtain ⟨A, B, hsplit⟩ := List.append_of_mem ((h₁.mem_iff (r, d)).mpr hr)
          rw [h₁.stored_inline hsplit, h₂.stored_inline (heq ▸ hsplit)]
          rfl
    · rw [hdefs]
      exact (List.map_id _).symm
  · obtain ⟨ρ, hgenerated, hfirst, hsecond⟩ :=
      exists_renaming (givenName y a.2.node) (givenName y b.2.node) n
    have hne : a.1 ≠ b.1 := by
      have hnodup := h₁.once
      rw [ha] at hnodup
      simpa using hnodup
    have hroles : ∀ r, r = a.1 ∨ r = b.1 := by
      intro r
      cases r <;> cases hra : a.1 <;> cases hrb : b.1 <;> simp_all
    refine ⟨ρ, hgenerated, fun r => ?_, .inr
      ⟨(a.2, nameOf (givenName y a.2.node) n),
        (b.2, nameOf (givenName y b.2.node) (counterAfter (givenName y a.2.node) n)), ?_, ?_⟩⟩
    · rcases hroles r with rfl | rfl
      · have hS₁ := h₁.stored_inline (y := y) (n := n) (A := []) (r := a.1) (d := a.2) ha
        have hS₂ := h₂.stored_inline (y := y) (n := n) (A := [b]) (r := a.1) (d := a.2) hb
        rw [hS₁, hS₂, Option.map_some]
        exact congrArg some hfirst.symm
      · have hS₁ := h₁.stored_inline (y := y) (n := n) (A := [a]) (r := b.1) (d := b.2) ha
        have hS₂ := h₂.stored_inline (y := y) (n := n) (A := []) (r := b.1) (d := b.2) hb
        rw [hS₁, hS₂, Option.map_some]
        exact congrArg some hsecond.symm
    · rw [← map_snd_definedRoles, ha]
      rfl
    · rw [← map_snd_definedRoles, hb]
      simp only [List.map_cons, List.map_nil, namedDefinitions, Prod.map, id_eq, hfirst, hsecond]

theorem Presents.defined_stored {i : SliceId} {roles : Bool → Option Reference} {us : List Use}
    (h : Presents i roles us) {n : Nat} {p : Definition × String}
    (mem : p ∈ namedDefinitions y (definitionsOf us) n) :
    ∃ r, storedName (namedUses y us n) (i, r) = some p.2 := by
  rw [← map_snd_definedRoles] at mem
  suffices hall : ∀ A B, definedRoles us = A ++ B →
      p ∈ namedDefinitions y (B.map Prod.snd) (counterAfterAll y (A.map Prod.snd) n) →
        ∃ r, storedName (namedUses y us n) (i, r) = some p.2 from hall [] _ rfl mem
  intro A B
  induction B generalizing A with
  | nil => simp [namedDefinitions]
  | cons b B ih =>
    intro hsplit hmem
    rcases List.mem_cons.mp hmem with rfl | hmem
    · exact ⟨b.1, h.stored_inline hsplit⟩
    · refine ih (A ++ [b]) (by simp [hsplit]) ?_
      rw [List.map_append, counterAfterAll, List.foldl_append]
      exact hmem

theorem once_of_length {i : SliceId} {roles : Bool → Option Reference} {us₁ us₂ : List Use}
    (h₁ : Shows i roles us₁) (h₂ : Presents i roles us₂)
    (length : (definedRoles us₁).length ≤ (definedRoles us₂).length) :
    ((definedRoles us₁).map Prod.fst).Nodup := by
  have hsubset : definedRoles us₂ ⊆ definedRoles us₁ := fun x hx =>
    (h₁.mem_iff x).mpr ((h₂.mem_iff x).mp hx)
  have hperm := (h₂.once.of_map.subperm hsubset).perm_of_length_le length
  exact (hperm.map Prod.fst).nodup_iff.mp h₂.once

def rolesOf (slice : Node) (wl : Single) (r : Bool) : Option Reference :=
  ((slice.find (roleKey r)).map (xxPartition · (wl.mul (share r)))).or
    ((slice.find (processesKey r)).map (xxProcesses · (wl.mul (share r))))

theorem rolesOf_congr {slice slice' : Node} (find : ∀ k ∈ windowKeys, slice'.find k = slice.find k)
    (wl : Single) : rolesOf slice' wl = rolesOf slice wl := by
  funext r
  cases r
  · rw [rolesOf, rolesOf, find _ (by decide), find _ (by decide)]
  · rw [rolesOf, rolesOf, find _ (by decide), find _ (by decide)]

theorem keyUse_eq (i : SliceId) (slice : Node) (wl : Single) (r : Bool) :
    keyUse i slice wl (roleKey r) =
        (slice.find (roleKey r)).map (fun v => ⟨i, r, xxPartition v (wl.mul (share r))⟩) ∧
      keyUse i slice wl (processesKey r) =
        (slice.find (processesKey r)).map fun v => ⟨i, r, xxProcesses v (wl.mul (share r))⟩ := by
  cases r
  · constructor
    · cases hv : slice.find "be_partition" <;> simp [keyUse, roleKey, hv, share]
    · cases hv : slice.find "be_processes" <;> simp [keyUse, processesKey, hv, share]
  · constructor
    · cases hv : slice.find "sc_partition" <;> simp [keyUse, roleKey, hv, share]
    · cases hv : slice.find "sc_processes" <;> simp [keyUse, processesKey, hv, share]

theorem keyUse_some {i : SliceId} {slice : Node} {wl : Single} {k : String} {u : Use}
    (h : keyUse i slice wl k = some u) :
    (k = roleKey u.sc ∧ ∃ v, slice.find k = some v ∧
        u = ⟨i, u.sc, xxPartition v (wl.mul (share u.sc))⟩) ∨
      k = processesKey u.sc ∧ ∃ v, slice.find k = some v ∧
        u = ⟨i, u.sc, xxProcesses v (wl.mul (share u.sc))⟩ := by
  have hk : ∃ r, k = roleKey r ∨ k = processesKey r := by
    obtain ⟨v, -, hv⟩ := Option.bind_eq_some_iff.mp h
    split_ifs at hv with h₁ h₂ h₃ h₄
    · exact ⟨true, .inl h₁⟩
    · exact ⟨false, .inl h₂⟩
    · exact ⟨true, .inr h₃⟩
    · exact ⟨false, .inr h₄⟩
  obtain ⟨r, rfl | rfl⟩ := hk
  · rw [(keyUse_eq i slice wl r).1, Option.map_eq_some_iff] at h
    obtain ⟨v, hv, rfl⟩ := h
    exact .inl ⟨rfl, v, hv, rfl⟩
  · rw [(keyUse_eq i slice wl r).2, Option.map_eq_some_iff] at h
    obtain ⟨v, hv, rfl⟩ := h
    exact .inr ⟨rfl, v, hv, rfl⟩

theorem keyUse_inline {i : SliceId} {slice : Node} {wl : Single} {k : String} {u : Use}
    {d : Definition} (h : keyUse i slice wl k = some u) (inline : u.reference = .inline d) :
    ∃ v, slice.find k = some v ∧ DefinesAt k v := by
  rcases keyUse_some h with ⟨rfl, v, hv, hu⟩ | ⟨rfl, v, hv, -⟩
  · refine ⟨v, hv, .inr (.inr ⟨?_, ?_⟩)⟩
    · cases u.sc
      · exact .inr rfl
      · exact .inl rfl
    · rw [hu] at inline
      cases v with
      | scalar text => cases inline
      | null | seq | map => rfl
  · refine ⟨v, hv, ?_⟩
    cases u.sc
    · exact .inr (.inl rfl)
    · exact .inl rfl

theorem DefinesAt.keyUse {slice : Node} {k : String} {v : Node} (h : DefinesAt k v)
    (i : SliceId) (wl : Single) (find : slice.find k = some v) :
    ∃ u d, keyUse i slice wl k = some u ∧ u.reference = .inline d := by
  have hprocesses : ∀ r, k = processesKey r → ∃ u d, DemosSched.keyUse i slice wl k = some u ∧
      u.reference = .inline d := by
    rintro r rfl
    rw [(keyUse_eq i slice wl r).2, find]
    exact ⟨_, _, rfl, rfl⟩
  have hpartition : v.isScalar = false → ∀ r, k = roleKey r →
      ∃ u d, DemosSched.keyUse i slice wl k = some u ∧ u.reference = .inline d := by
    rintro hscalar r rfl
    rw [(keyUse_eq i slice wl r).1, find]
    refine ⟨_, ⟨v, wl.mul (share r)⟩, rfl, ?_⟩
    cases v with
    | scalar text => cases hscalar
    | null | seq | map => rfl
  rcases h with h | h | ⟨h | h, hscalar⟩
  · exact hprocesses true h
  · exact hprocesses false h
  · exact hpartition hscalar true h
  · exact hpartition hscalar false h

theorem shows_rolesOf {entries : List (Node × Node)} (i : SliceId) (wl : Single)
    (exclusive : Exclusive entries) :
    Shows i (rolesOf (.map entries) wl) (sliceUses y i (.map entries) wl) := by
  have hmem : ∀ u ∈ sliceUses y i (.map entries) wl, ∃ k, keyUse i (.map entries) wl k = some u := by
    intro u hu
    obtain ⟨key, -, hkey⟩ := List.mem_filterMap.mp hu
    obtain ⟨k, -, hk⟩ := Option.bind_eq_some_iff.mp hkey
    exact ⟨k, hk⟩
  refine ⟨fun u hu => sliceUses_slice hu, ?_, ?_⟩
  · intro u hu
    obtain ⟨k, hk⟩ := hmem u hu
    rcases keyUse_some hk with ⟨rfl, v, hv, hu⟩ | ⟨rfl, v, hv, hu⟩
    · rw [rolesOf, hv, hu]
      rfl
    · have hnone : (Node.map entries).find (roleKey u.sc) = none := by
        by_contra hsome
        have hhas : (Node.map entries).has (roleKey u.sc) = true := by
          rwa [Node.has, Option.isSome_iff_ne_none]
        have hno := exclusive _ hhas
        simp [Node.has, hv] at hno
      rw [rolesOf, hnone, hv, hu]
      rfl
  · intro r ref hrole
    have hgive : ∀ k u, keyUse i (.map entries) wl k = some u →
        (Node.map entries).has k = true → u ∈ sliceUses y i (.map entries) wl := by
      intro k u hk hhas
      exact List.mem_filterMap.mpr ⟨_, keys_of_has hhas, hk⟩
    cases hv : (Node.map entries).find (roleKey r) with
    | some v =>
      have hk := (keyUse_eq i (.map entries) wl r).1
      rw [hv] at hk
      rw [rolesOf, hv] at hrole
      exact ⟨_, hgive _ _ hk (by simp [Node.has, hv]), rfl, Option.some.inj hrole⟩
    | none =>
      have hk := (keyUse_eq i (.map entries) wl r).2
      rw [rolesOf, hv, Option.map_none, Option.none_or, Option.map_eq_some_iff] at hrole
      obtain ⟨v, hv', href⟩ := hrole
      rw [hv'] at hk
      exact ⟨_, hgive _ _ hk (by simp [Node.has, hv']), rfl, href⟩

theorem definedRoles_key {entries : List (Node × Node)} {i : SliceId} {wl : Single}
    (plain : Plain entries) {e : Node × Node} (mem : e ∈ entries) {r : Bool}
    (h : (Option.map Prod.fst (((y.asString (some e.1)).toOption.bind
      (keyUse i (.map entries) wl)).bind fun u => u.reference.definition?.map (u.sc, ·))) = some r) :
    ∃ k v, e.1 = .scalar k ∧ (Node.map entries).find k = some v ∧ DefinesAt k v ∧
      (k = roleKey r ∨ k = processesKey r) := by
  obtain ⟨k, -, hek⟩ := plain e mem
  simp only [hek, Conversions.asString, Except.toOption, Option.bind_some,
    Option.map_eq_some_iff, Option.bind_eq_some_iff] at h
  obtain ⟨-, ⟨u, hu, d, hd, rfl⟩, rfl⟩ := h
  have hinline : u.reference = .inline d := by
    cases hu' : u.reference with
    | name s => simp [hu', Reference.definition?] at hd
    | inline d' => simpa [hu', Reference.definition?] using hd
  obtain ⟨v, hv, hdef⟩ := keyUse_inline hu hinline
  rcases keyUse_some hu with ⟨hk, -⟩ | ⟨hk, -⟩
  · exact ⟨k, v, hek, hv, hdef, .inl hk⟩
  · exact ⟨k, v, hek, hv, hdef, .inr hk⟩

theorem once_iff {entries : List (Node × Node)} (i : SliceId) (wl : Single) (plain : Plain entries)
    (exclusive : Exclusive entries) :
    ((definedRoles (sliceUses y i (.map entries) wl)).map Prod.fst).Nodup ↔
      ∀ k v, (Node.map entries).find k = some v → DefinesAt k v →
        entries.countP (Node.isKey k ·.1) ≤ 1 := by
  rw [definedRoles, sliceUses, List.filterMap_filterMap, List.map_filterMap, Node.keys,
      List.filterMap_map, List.Nodup, List.pairwise_filterMap]
  constructor
  · intro hpairwise k v hfind hdef
    by_contra hcount
    have hkeys := hpairwise.filter (Node.isKey k ·.1)
    rw [not_le, List.countP_eq_length_filter] at hcount
    obtain ⟨u, d, hu, hd⟩ := hdef.keyUse i wl hfind
    have hmem : ∀ e ∈ entries.filter (Node.isKey k ·.1), e.1 = .scalar k := by
      intro e he
      have hkey := (List.mem_filter.mp he).2
      cases hek : e.1 with
      | scalar text => simpa [hek, Node.isKey] using hkey
      | null | seq | map => simp [hek, Node.isKey] at hkey
    cases hfilter : entries.filter (Node.isKey k ·.1) with
    | nil => simp [hfilter] at hcount
    | cons e rest =>
      cases rest with
      | nil => simp [hfilter] at hcount
      | cons e' rest =>
        rw [hfilter] at hkeys hmem
        have hrole : ∀ f ∈ e :: e' :: rest, Option.map Prod.fst (((y.asString
            (some f.1)).toOption.bind (keyUse i (.map entries) wl)).bind fun u =>
              u.reference.definition?.map (u.sc, ·)) = some u.sc := by
          intro f hf
          simp [hmem f hf, Conversions.asString, Except.toOption, hu, hd, Reference.definition?]
        exact (List.pairwise_cons.mp hkeys).1 e' (by simp) u.sc (hrole e (by simp)) u.sc
          (hrole e' (by simp)) rfl
  · intro once
    rw [List.pairwise_iff_forall_sublist]
    rintro e e' hsub r hr _ hr' rfl
    obtain ⟨k, v, hek, hv, hdef, hk⟩ := definedRoles_key plain (hsub.subset (by simp)) hr
    obtain ⟨k', v', hek', hv', -, hk'⟩ := definedRoles_key plain (hsub.subset (by simp)) hr'
    have hsame : k = k' := by
      have hhas : (Node.map entries).has k = true := by simp [Node.has, hv]
      have hhas' : (Node.map entries).has k' = true := by simp [Node.has, hv']
      rcases hk with rfl | rfl <;> rcases hk' with rfl | rfl
      · rfl
      · simp [exclusive r hhas] at hhas'
      · simp [exclusive r hhas'] at hhas
      · rfl
    have htwo := hsub.countP_le (p := (Node.isKey k ·.1))
    have hone := once k v hv hdef
    have hisKey : Node.isKey k (.scalar k) = true := decide_eq_true rfl
    simp only [List.countP_cons, List.countP_nil, hek, hek', ← hsame, hisKey, if_true] at htwo
    omega

theorem madeFrom_rename {d : Definition × String} {np : Node} (h : MadeFrom (y := y) d np)
    (ρ : Equiv.Perm String) :
    MadeFrom (y := y) (Prod.map id ρ d) (renamePartition ρ np) := by
  obtain ⟨procs, hprocs, rfl⟩ := h
  exact ⟨procs, hprocs, rfl⟩

theorem madeFrom_unique : Relator.RightUnique (MadeFrom (y := y)) := by
  rintro d np np' ⟨procs, hprocs, rfl⟩ ⟨procs', hprocs', rfl⟩
  rw [Except.ok.inj (hprocs.symm.trans hprocs')]

theorem Renames.perm {i : SliceId} {n : Nat} {us₁ us₂ : List Use} {ρ : Equiv.Perm String}
    (h : Renames y i n us₁ us₂ ρ) {new₁ new₂ : List Node}
    (made₁ : List.Forall₂ (MadeFrom (y := y)) (namedDefinitions y (definitionsOf us₁) n) new₁)
    (made₂ : List.Forall₂ (MadeFrom (y := y)) (namedDefinitions y (definitionsOf us₂) n) new₂) :
    new₂.Perm (new₁.map (renamePartition ρ)) := by
  rcases h.defined with heq | ⟨p, q, hpq, hqp⟩
  · have hrenamed : List.Forall₂ (MadeFrom (y := y))
        ((namedDefinitions y (definitionsOf us₁) n).map (Prod.map id ρ))
        (new₁.map (renamePartition ρ)) := by
      rw [List.forall₂_map_left_iff, List.forall₂_map_right_iff]
      exact made₁.imp fun _ _ hmade => madeFrom_rename hmade ρ
    rw [heq] at made₂
    rw [List.right_unique_forall₂' madeFrom_unique made₂ hrenamed]
  · rw [hpq] at made₁
    rw [hqp] at made₂
    cases made₁ with
    | cons hp hrest =>
      cases hrest with
      | cons hq hnil =>
        cases hnil
        cases made₂ with
        | cons hq' hrest' =>
          cases hrest' with
          | cons hp' hnil' =>
            cases hnil'
            rw [madeFrom_unique hq' (madeFrom_rename hq ρ),
              madeFrom_unique hp' (madeFrom_rename hp ρ)]
            exact List.Perm.swap _ _ _

end DemosSched
