import DemosSched.Cgroups
import DemosSched.General.Fallible

/-! The groups at the end of the program. Whatever failed on the way, what is left of the
groups that were made is what leads to a group that still has a task in it. -/

namespace DemosSched

open Directories Raising Setup

structure ProperName (name : String) : Prop where
  nonempty : name ≠ ""
  single : '/' ∉ name.toList
  notDot : name ≠ "." ∧ name ≠ ".."

theorem components_child (path : String) {name : String} (h : ProperName name) :
    components (path ++ "/" ++ name) = components path ++ [name.toList] := by
  have hne : name.toList ≠ [] := fun heq => h.nonempty (String.toList_eq_nil_iff.mp heq)
  have htext : (path ++ "/" ++ name).toList = path.toList ++ '/' :: name.toList := by simp
  rw [components, htext, List.splitOn_append_cons_self, List.filter_append,
    List.splitOn_eq_singleton h.single]
  simp [components, hne]

theorem properName_proc (n : Nat) : ProperName ("proc" ++ toString n) := by
  have hdigits : '/' ∉ Nat.toDigits 10 n := fun h =>
    absurd (Nat.isDigit_of_mem_toDigits (by decide) (by decide) h) (by decide)
  have htext : ("proc" ++ toString n).toList = 'p' :: 'r' :: 'o' :: 'c' :: Nat.toDigits 10 n := by
    simp [toString]
  have hne : ∀ s : String, s.toList.length < 4 → "proc" ++ toString n ≠ s := by
    rintro s hs rfl
    rw [htext] at hs
    simp only [List.length_cons] at hs
    omega
  refine ⟨hne _ (by decide), ?_, hne _ (by decide), hne _ (by decide)⟩
  rw [htext]
  simpa using hdigits

namespace Host

variable (m : Host)

/-- Something else makes the directory while the event loop runs. -/
def Makes (d : List (List Char)) : Prop :=
  ∃ k : Kernel, d ∉ k.tree.dirs ∧ d ∈ (m.loop k).2.tree.dirs

def Removes (d : List (List Char)) : Prop :=
  ∃ k : Kernel, d ∈ k.tree.dirs ∧ d ∉ (m.loop k).2.tree.dirs

/-- What has become of the directories of `k₀` while the groups `gs` were made. -/
structure Built (k₀ : Kernel) (gs : List Cgroup) (k : Kernel) : Prop where
  kept : ∀ d ∈ k₀.tree.dirs, d ∈ k.tree.dirs ∨ m.Removes d
  grown : ∀ d ∈ k.tree.dirs, d ∈ k₀.tree.dirs ∨ m.Makes d ∨
    d ∈ gs.flatMap Cgroup.removed ∧ m.refuses d.dropLast = none

variable {m} {k₀ k k' : Kernel} {gs gs' : List Cgroup}

theorem Built.start : m.Built k₀ [] k₀ := ⟨fun _ hd => .inl hd, fun _ hd => .inl hd⟩

theorem Built.of_removed (h : m.Built k₀ gs k)
    (sub : ∀ g ∈ gs, ∀ d ∈ g.removed, d ∈ gs'.flatMap Cgroup.removed) : m.Built k₀ gs' k where
  kept := h.kept
  grown d hd := by
    refine (h.grown d hd).imp_right (Or.imp_right (And.imp_left fun hmem => ?_))
    obtain ⟨g, hg, hgd⟩ := List.mem_flatMap.mp hmem
    exact sub g hg d hgd

theorem Built.mono (h : m.Built k₀ gs k) (sub : gs ⊆ gs') : m.Built k₀ gs' k :=
  h.of_removed fun g hg _ hd => List.mem_flatMap.mpr ⟨g, sub hg, hd⟩

theorem Built.same (h : m.Built k₀ gs k) (tree : k'.tree = k.tree) : m.Built k₀ gs k' := by
  constructor
  · rw [tree]
    exact h.kept
  · rw [tree]
    exact h.grown

end Host

variable {m : Host} {k₀ k k' : Kernel} {gs : List Cgroup}

section Calls

variable {ok : Unit → Kernel → Prop} {thrown : Thrown → Kernel → Prop}

theorem Setup.check_ends {e : Option Errno} (hok : ok () k) (hthrown : ∀ x, thrown ⟨x, []⟩ k) :
    Ends (check e) k ok thrown := by
  cases e with
  | none => exact ends_pure hok
  | some e => exact ends_throw (hthrown _)

theorem Setup.require_ends {e : Option SetupError} (hok : ok () k) (hthrown : ∀ x, thrown ⟨x, []⟩ k) :
    Ends (require e) k ok thrown := by
  cases e with
  | none => exact ends_pure hok
  | some e => exact ends_throw (hthrown _)

theorem Setup.owning_ends {α : Type} {body : Setup α} {ok : α → Kernel → Prop}
    (h : Ends body k ok fun x => thrown { x with pending := x.pending ++ gs }) :
    Ends (owning gs body) k ok thrown :=
  ends_tryCatch (h.imp (fun _ _ => id) fun _ _ => ends_throw)

theorem Host.call_ends {f : GroupCall} {path : String} (hok : ok () k)
    (hthrown : ∀ x, thrown ⟨x, []⟩ k) : Ends (m.call f path) k ok thrown := by
  refine ends_bind (ends_get ?_)
  split
  · exact check_ends hok hthrown
  · exact check_ends hok hthrown

end Calls

namespace Cgroup

theorem mem_removed {g : Cgroup} {p : List (List Char)} :
    p ∈ g.removed ↔ g.path ≠ "" ∧ g.remove = true ∧ p = components g.path := by
  unfold removed
  split
  next h => exact iff_of_false List.not_mem_nil fun ⟨hpath, hremove, _⟩ => by simp_all
  next h => simp_all

theorem mkdir_ok {path : String} (h : m.mkdir path k = .ok k') :
    components path ∉ k.tree.dirs ∧ (components path).dropLast ∈ k.tree.dirs ∧
      m.refuses (components path).dropLast = none ∧
      k'.tree.dirs = insert (components path) k.tree.dirs := by
  unfold Host.mkdir at h
  split at h
  next => cases h
  split at h
  next => cases h
  next => cases h
  next tree htree =>
    obtain ⟨hnew, hparent, hdirs⟩ := DirTree.mkdir_ok htree
    split at h
    next => cases h
    next hfree =>
      cases h
      exact ⟨hnew, hparent, hfree, hdirs⟩

theorem create_ends {path : String} {mayExist : Bool} (built : m.Built k₀ gs k) :
    Ends (create m path mayExist) k
      (fun g k' => m.Built k₀ (g :: gs) k' ∧ g.path = path ∧ (mayExist = false → g.remove = true) ∧
        (mayExist = true → g.remove = true → components path ∉ k.tree.dirs))
      (fun x k' => x.pending = [] ∧ m.Built k₀ gs k') := by
  refine ends_bind (ends_get ?_)
  split
  next k' hmkdir =>
    obtain ⟨hnew, hparent, hfree, hdirs⟩ := mkdir_ok hmkdir
    have hpath : path ≠ "" := by
      rintro rfl
      exact hnew hparent
    refine ends_bind (ends_set (ends_pure ⟨⟨fun d hd => ?_, fun d hd => ?_⟩, rfl, fun _ => rfl,
      fun _ _ => hnew⟩))
    · refine (built.kept d hd).imp_left fun hd => ?_
      rw [hdirs]
      exact Finset.mem_insert_of_mem hd
    · rw [hdirs] at hd
      rcases Finset.mem_insert.mp hd with rfl | hd
      · refine .inr (.inr ⟨List.mem_flatMap.mpr ⟨{ path }, List.mem_cons_self, ?_⟩, hfree⟩)
        exact mem_removed.mpr ⟨hpath, rfl, rfl⟩
      · exact (built.mono (List.subset_cons_self _ _)).grown d hd
  next =>
    refine ends_pure ⟨built.mono (List.subset_cons_self _ _), rfl, fun h => by simp [h], fun h => ?_⟩
    simp [h]
  next => exact ends_throw ⟨rfl, built⟩

theorem createIn_ends {parent : Cgroup} {name : String} (proper : ProperName name)
    (built : m.Built k₀ gs k) : Ends (createIn m parent name) k
      (fun g k' => m.Built k₀ (g :: gs) k' ∧
        components g.path = components parent.path ++ [name.toList])
      (fun x k' => x.pending = [] ∧ m.Built k₀ gs k') :=
  (create_ends built).imp (fun _ _ h => ⟨h.1, by rw [h.2.1, components_child _ proper]⟩)
    fun _ _ => id

theorem createWith_ends {f : GroupCall} {parent : Cgroup} {name : String} (proper : ProperName name)
    (built : m.Built k₀ gs k) : Ends (createWith m f parent name) k
      (fun g k' => m.Built k₀ (g :: gs) k' ∧
        components g.path = components parent.path ++ [name.toList])
      (fun x k' => m.Built k₀ (x.pending ++ gs) k' ∧
        ∀ g ∈ x.pending, components g.path = components parent.path ++ [name.toList]) := by
  refine ends_bind ((createIn_ends proper built).imp (fun g s hg => ?_) fun x s hx => ?_)
  · refine ends_bind (owning_ends (Host.call_ends (ends_pure hg) fun x => ⟨hg.1, ?_⟩))
    intro g' hg'
    obtain rfl := List.mem_singleton.mp hg'
    exact hg.2
  · rw [hx.1]
    exact ⟨hx.2, fun g hg => absurd hg List.not_mem_nil⟩

end Cgroup

variable {R : List (List (List Char))} {n : String}

/-- A group of a process, and one of a partition, below the top-level groups at `R`. -/
def Cgroup.Deep (R : List (List (List Char))) (n : String) (g : Cgroup) : Prop :=
  ∃ r ∈ R, ∃ p, components g.path = r ++ [n.toList, p]

def Cgroup.Mid (R : List (List (List Char))) (n : String) (g : Cgroup) : Prop :=
  ∃ r ∈ R, components g.path = r ++ [n.toList]

theorem Cgroup.Mid.child {g g' : Cgroup} {p : List Char} (h : g.Mid R n)
    (child : components g'.path = components g.path ++ [p]) : g'.Deep R n := by
  obtain ⟨r, hr, heq⟩ := h
  exact ⟨r, hr, p, by rw [child, heq, List.append_assoc]; rfl⟩

structure PartitionGroups.Named (R : List (List (List Char))) (n : String) (x : PartitionGroups) :
    Prop where
  own : ∀ g ∈ [x.cge, x.cgf, x.cgc], g.Mid R n
  processes : ∀ y ∈ x.processes, ∀ g ∈ y.teardown, g.Deep R n

namespace ProcessGroups

theorem create_ends {x : PartitionGroups} {name : String} (named : x.Named R n)
    (proper : ProperName name) (built : m.Built k₀ gs k) : Ends (create m x name) k
      (fun y k' => m.Built k₀ (y.teardown ++ gs) k' ∧ ∀ g ∈ y.teardown, g.Deep R n)
      (fun t k' => m.Built k₀ (t.pending ++ gs) k' ∧ ∀ g ∈ t.pending, g.Deep R n) := by
  have hcge := named.own x.cge (by simp)
  have hcgf := named.own x.cgf (by simp)
  refine ends_bind (check_ends ?_ fun _ => ⟨built, by simp⟩)
  refine ends_bind ((Cgroup.createWith_ends proper built).imp (fun cge s hs => ?_)
    fun t s ht => ⟨ht.1, fun g hg => hcge.child (ht.2 g hg)⟩)
  refine owning_ends (ends_bind ((Cgroup.createWith_ends proper hs.1).imp (fun cgf s' hs' => ?_)
    fun t s' ht => ⟨ht.1.mono (by simp), fun g hg => ?_⟩))
  · have hall : ∀ g ∈ [cgf, cge], g.Deep R n := by
      simpa using ⟨hcgf.child hs'.2, hcge.child hs.2⟩
    exact ends_bind (owning_ends (Host.call_ends (ends_pure ⟨hs'.1, hall⟩) fun _ =>
      ⟨hs'.1, hall⟩))
  · rcases List.mem_append.mp hg with hg | hg
    · exact hcgf.child (ht.2 g hg)
    · obtain rfl := List.mem_singleton.mp hg
      exact hcge.child hs.2

end ProcessGroups

namespace PartitionGroups

theorem create_ends {roots : RootGroups} (proper : ProperName n)
    (known : ∀ g ∈ roots.teardown, components g.path ∈ R) (built : m.Built k₀ gs k) :
    Ends (create m roots n) k
      (fun x k' => m.Built k₀ (x.teardown ++ gs) k' ∧ x.Named R n ∧ x.processes = [])
      (fun t k' => m.Built k₀ (t.pending ++ gs) k' ∧ ∀ g ∈ t.pending, g.Mid R n) := by
  have hmid : ∀ g ∈ roots.teardown, ∀ g' : Cgroup,
      components g'.path = components g.path ++ [n.toList] → g'.Mid R n :=
    fun g hg g' heq => ⟨_, known g hg, heq⟩
  have hcgc := hmid roots.cpuset (by simp [RootGroups.teardown])
  have hcgf := hmid roots.freezer (by simp [RootGroups.teardown])
  have hcge := hmid roots.unified (by simp [RootGroups.teardown])
  refine ends_bind ((Cgroup.createWith_ends proper built).imp (fun cgc s hs => ?_)
    fun t s ht => ⟨ht.1, fun g hg => hcgc g (ht.2 g hg)⟩)
  refine owning_ends (ends_bind ((Cgroup.createIn_ends proper hs.1).imp (fun cgf s' hs' => ?_)
    fun t s' ht => ?_))
  · refine owning_ends (ends_bind ((Cgroup.createIn_ends proper hs'.1).imp
      (fun cge s'' hs'' => ends_pure ?_) fun t s'' ht => ?_))
    · have hall : ∀ g ∈ [cge, cgf, cgc], g.Mid R n := by
        simpa using ⟨hcge _ hs''.2, hcgf _ hs'.2, hcgc _ hs.2⟩
      exact ⟨hs''.1, ⟨hall, by simp⟩, rfl⟩
    · rw [ht.1]
      refine ⟨ht.2, ?_⟩
      simpa using ⟨hcgf _ hs'.2, hcgc _ hs.2⟩
  · rw [ht.1]
    refine ⟨ht.2, ?_⟩
    simpa using hcgc _ hs.2

theorem addProcess_ends {x : PartitionGroups} (named : x.Named R n) (built : m.Built k₀ gs k) :
    Ends (x.addProcess m) k
      (fun x' k' => x'.Named R n ∧ ∃ y : ProcessGroups, x' = { x with processes := x.processes ++ [y] } ∧
        m.Built k₀ (y.teardown ++ gs) k')
      (fun t k' => m.Built k₀ (t.pending ++ gs) k' ∧ ∀ g ∈ t.pending, g.Deep R n) := by
  refine ends_bind ((ProcessGroups.create_ends named (properName_proc _) built).imp
    (fun y s hs => ends_pure ⟨⟨named.own, fun z hz => ?_⟩, y, rfl, hs.1⟩) fun _ _ => id)
  rcases List.mem_append.mp hz with hz | hz
  · exact named.processes z hz
  · obtain rfl := List.mem_singleton.mp hz
    exact hs.2

end PartitionGroups

/-- No top-level group is in another one. -/
def Separate (R : List (List (List Char))) : Prop :=
  ∀ r ∈ R, ∀ r' ∈ R, ∀ p, r <+: p → r' <+: p → r = r'

def Cgroup.At (R : List (List (List Char))) (l : List (List Char)) (g : Cgroup) : Prop :=
  ∀ p ∈ g.removed, ∃ r ∈ R, p = r ++ l

def Cgroup.Apart (g g' : Cgroup) : Prop := ∀ p ∈ g.removed, ∀ p' ∈ g'.removed, p <+: p' → p = p'

namespace Cgroup

variable {g g' : Cgroup} {l l' : List (List Char)} {n' : String}

theorem at_of (h : ∃ r ∈ R, components g.path = r ++ l) : g.At R l := by
  intro p hp
  obtain ⟨-, -, rfl⟩ := mem_removed.mp hp
  exact h

theorem At.apart (h : g.At R l) (h' : g'.At R l') (separate : Separate R)
    (below : l <+: l' → l = l') : g.Apart g' := by
  intro p hp p' hp' hprefix
  obtain ⟨r, hr, rfl⟩ := h p hp
  obtain ⟨r', hr', rfl⟩ := h' p' hp'
  obtain rfl := separate r hr r' hr' (r' ++ l') ((List.prefix_append r l).trans hprefix)
    (List.prefix_append r' l')
  rw [below ((List.prefix_append_right_inj r).mp hprefix)]

theorem Deep.apart (h : g.Deep R n) (h' : ∃ l', l'.length ≤ 2 ∧ g'.At R l') (separate : Separate R) :
    g.Apart g' := by
  obtain ⟨r, hr, p, heq⟩ := h
  obtain ⟨l', hle, hat⟩ := h'
  refine (at_of ⟨r, hr, heq⟩).apart hat separate fun hprefix => ?_
  exact hprefix.eq_of_length (by have := hprefix.length_le; simp at this ⊢; omega)

theorem Deep.shallow (h : g.Deep R n) : ∃ l, l.length ≤ 2 ∧ g.At R l := by
  obtain ⟨r, hr, p, heq⟩ := h
  exact ⟨_, le_rfl, at_of ⟨r, hr, heq⟩⟩

theorem Mid.at (h : g.Mid R n) : g.At R [n.toList] := at_of h

theorem Mid.apart (h : g.Mid R n) (h' : g'.Mid R n' ∨ g'.At R [] ∨ n ≠ n' ∧ g'.Deep R n')
    (separate : Separate R) : g.Apart g' := by
  rcases h' with h' | h' | ⟨hne, r, hr, p, heq⟩
  · exact h.at.apart h'.at separate fun hprefix => hprefix.eq_of_length rfl
  · exact h.at.apart h' separate fun hprefix => absurd hprefix.length_le (by simp)
  · refine h.at.apart (at_of ⟨r, hr, heq⟩) separate fun hprefix => ?_
    rw [List.cons_prefix_cons] at hprefix
    exact absurd (String.toList_inj.mp hprefix.1) hne

end Cgroup

namespace PartitionGroups

variable {x y : PartitionGroups}

theorem mem_teardown {g : Cgroup} : g ∈ x.teardown ↔
    (∃ y ∈ x.processes, g ∈ y.teardown) ∨ g ∈ [x.cge, x.cgf, x.cgc] := by
  rw [teardown, List.mem_append, List.mem_flatMap]

theorem Named.shallow (h : x.Named R n) {g : Cgroup} (hg : g ∈ x.teardown) :
    ∃ l, l.length ≤ 2 ∧ g.At R l := by
  rcases mem_teardown.mp hg with ⟨y, hy, hg⟩ | hg
  · exact (h.processes y hy g hg).shallow
  · exact ⟨_, by simp, (h.own g hg).at⟩

theorem Named.upward (h : x.Named R n) (separate : Separate R) :
    x.teardown.Pairwise Cgroup.Apart := by
  have hdeep : ∀ g ∈ x.processes.flatMap ProcessGroups.teardown, g.Deep R n := by
    intro g hg
    obtain ⟨y, hy, hg⟩ := List.mem_flatMap.mp hg
    exact h.processes y hy g hg
  refine List.pairwise_append.mpr ⟨?_, ?_, fun g hg g' hg' => ?_⟩
  · exact List.pairwise_of_forall_mem_list fun g hg g' hg' =>
      (hdeep g hg).apart (hdeep g' hg').shallow separate
  · exact List.pairwise_of_forall_mem_list fun g hg g' hg' =>
      (h.own g hg).apart (.inl (h.own g' hg')) separate
  · exact (hdeep g hg).apart ⟨_, by simp, (h.own g' hg').at⟩ separate

theorem Named.apart {n' : String} (h : x.Named R n) (h' : y.Named R n') (ne : n ≠ n')
    (separate : Separate R) {g g' : Cgroup} (hg : g ∈ x.teardown) (hg' : g' ∈ y.teardown) :
    g.Apart g' := by
  rcases mem_teardown.mp hg with ⟨z, hz, hg⟩ | hg
  · exact (h.processes z hz g hg).apart (h'.shallow hg') separate
  · rcases mem_teardown.mp hg' with ⟨z, hz, hg'⟩ | hg'
    · exact (h.own g hg).apart (.inr (.inr ⟨ne, h'.processes z hz g' hg'⟩)) separate
    · exact (h.own g hg).apart (.inl (h'.own g' hg')) separate

end PartitionGroups

namespace SchedulerGroups

variable {names : List String} {parts done : List PartitionGroups}

/-- The groups that are alive below the top-level ones: whole partitions and, before them,
what an exception destroys of the one being made. -/
def Stack (R : List (List (List Char))) (gs : List Cgroup) : Prop :=
  ∃ zs names parts, gs = zs ++ teardown parts ∧
    List.Forall₂ (PartitionGroups.Named R) names parts ∧ names.Nodup ∧
    ((∀ g ∈ zs, ∃ n, g.Deep R n) ∨ ∃ n ∉ names, ∀ g ∈ zs, g.Mid R n)

theorem mem_teardown {g : Cgroup} (named : List.Forall₂ (PartitionGroups.Named R) names parts)
    (hg : g ∈ teardown parts) :
    ∃ n ∈ names, ∃ x : PartitionGroups, x.Named R n ∧ g ∈ x.teardown := by
  induction named with
  | nil => exact absurd hg List.not_mem_nil
  | @cons n x names parts hx hnamed ih =>
    rcases List.mem_append.mp hg with hg | hg
    · exact ⟨n, List.mem_cons_self, x, hx, hg⟩
    · obtain ⟨n', hn', y, hy, hg⟩ := ih hg
      exact ⟨n', List.mem_cons_of_mem _ hn', y, hy, hg⟩

theorem teardown_upward (named : List.Forall₂ (PartitionGroups.Named R) names parts)
    (nodup : names.Nodup) (separate : Separate R) : (teardown parts).Pairwise Cgroup.Apart := by
  induction named with
  | nil => exact List.Pairwise.nil
  | @cons n x names parts hx hnamed ih =>
    obtain ⟨hn, hnames⟩ := List.nodup_cons.mp nodup
    refine List.pairwise_append.mpr ⟨hx.upward separate, ih hnames, fun g hg g' hg' => ?_⟩
    obtain ⟨n', hn', y, hy, hg'⟩ := mem_teardown hnamed hg'
    exact hx.apart hy (fun heq => hn (heq ▸ hn')) separate hg hg'

theorem Stack.upward {gs : List Cgroup} (h : Stack R gs) (separate : Separate R) :
    gs.Pairwise Cgroup.Apart := by
  obtain ⟨zs, names, parts, rfl, named, nodup, hzs⟩ := h
  refine List.pairwise_append.mpr ⟨?_, teardown_upward named nodup separate, fun g hg g' hg' => ?_⟩
  · refine List.pairwise_of_forall_mem_list fun g hg g' hg' => ?_
    rcases hzs with hdeep | ⟨n, -, hmid⟩
    · obtain ⟨n, hg⟩ := hdeep g hg
      obtain ⟨n', hg'⟩ := hdeep g' hg'
      exact hg.apart hg'.shallow separate
    · exact (hmid g hg).apart (.inl (hmid g' hg')) separate
  · obtain ⟨n', hn', y, hy, hg'⟩ := mem_teardown named hg'
    rcases hzs with hdeep | ⟨n, hn, hmid⟩
    · obtain ⟨n, hg⟩ := hdeep g hg
      exact hg.apart (hy.shallow hg') separate
    · have hne : n ≠ n' := fun heq => hn (heq ▸ hn')
      rcases PartitionGroups.mem_teardown.mp hg' with ⟨z, hz, hg'⟩ | hg'
      · exact (hmid g hg).apart (.inr (.inr ⟨hne, hy.processes z hz g' hg'⟩)) separate
      · exact (hmid g hg).apart (.inl (hy.own g' hg')) separate

theorem addProcesses_ends {x : PartitionGroups} {count : Nat} (named : x.Named R n)
    (built : m.Built k₀ (teardown (done ++ [x]) ++ gs) k) : Ends (addProcesses m done count x) k
      (fun x' k' => x'.Named R n ∧ m.Built k₀ (teardown (done ++ [x']) ++ gs) k')
      (fun t k' => m.Built k₀ (t.pending ++ gs) k' ∧ ∃ zs x', t.pending = zs ++ teardown (done ++ [x']) ∧
        (∀ g ∈ zs, g.Deep R n) ∧ x'.Named R n) := by
  induction count generalizing x k with
  | zero => exact ends_pure ⟨named, built⟩
  | succ count ih =>
    refine ends_bind (owning_ends ((PartitionGroups.addProcess_ends named built).imp
      (fun x' s hs => ?_) fun t s ht => ?_))
    · obtain ⟨hnamed, y, rfl, hbuilt⟩ := hs
      refine ih hnamed (hbuilt.mono fun g hg => ?_)
      simp only [teardown, PartitionGroups.teardown, List.flatMap_append, List.flatMap_cons,
        List.flatMap_nil, List.mem_append, List.append_nil] at hg ⊢
      tauto
    · refine ⟨ht.1.mono fun g hg => ?_, _, x, rfl, ht.2, named⟩
      simpa using hg

theorem createPartitions_ends {roots : RootGroups} {shape : List (String × Nat)}
    (proper : ∀ e ∈ shape, ProperName e.1) (known : ∀ g ∈ roots.teardown, components g.path ∈ R)
    (named : List.Forall₂ (PartitionGroups.Named R) names done)
    (nodup : (names ++ shape.map Prod.fst).Nodup) (built : m.Built k₀ (teardown done ++ gs) k) :
    Ends (createPartitions m roots shape done) k
      (fun parts k' => Stack R (teardown parts) ∧ m.Built k₀ (teardown parts ++ gs) k')
      (fun t k' => Stack R t.pending ∧ m.Built k₀ (t.pending ++ gs) k') := by
  induction shape generalizing names done k with
  | nil =>
    refine ends_pure ⟨⟨[], names, done, rfl, named, ?_, .inl (by simp)⟩, built⟩
    simpa using nodup
  | cons e shape ih =>
    obtain ⟨n, count⟩ := e
    have hn : n ∉ names := fun hmem => by
      rw [List.nodup_append] at nodup
      exact nodup.2.2 n hmem n (by simp) rfl
    have hnames : names.Nodup := (List.nodup_append.mp nodup).1
    refine ends_bind (owning_ends ((PartitionGroups.create_ends (proper _ List.mem_cons_self) known
      built).imp (fun x s hs => ?_) fun t s ht => ?_))
    · obtain ⟨hbuilt, hnamed, -⟩ := hs
      have hbuilt' : m.Built k₀ (teardown (done ++ [x]) ++ gs) s := hbuilt.mono fun g hg => by
        simp only [teardown, List.flatMap_append, List.flatMap_cons, List.flatMap_nil,
          List.mem_append, List.append_nil] at hg ⊢
        tauto
      refine ends_bind ((addProcesses_ends hnamed hbuilt').imp (fun x' s' hs' => ?_) fun t s' ht => ?_)
      · have hnamed' : List.Forall₂ (PartitionGroups.Named R) (names ++ [n]) (done ++ [x']) :=
          List.rel_append named (List.Forall₂.cons hs'.1 .nil)
        refine ih (fun e he => proper e (List.mem_cons_of_mem _ he)) hnamed' ?_ hs'.2
        simpa using nodup
      · obtain ⟨hpending, zs, x', heq, hdeep, hx'⟩ := ht
        exact ⟨⟨zs, names ++ [n], done ++ [x'], heq,
          List.rel_append named (List.Forall₂.cons hx' .nil),
          (List.nodup_append.mpr ⟨hnames, List.nodup_singleton _, by
            rintro a ha b hb rfl
            exact hn (List.mem_singleton.mp hb ▸ ha)⟩), .inl fun g hg => ⟨n, hdeep g hg⟩⟩, hpending⟩
    · refine ⟨⟨t.pending, names, done, rfl, named, hnames, .inr ⟨n, hn, ht.2⟩⟩, ?_⟩
      simpa using ht.1

end SchedulerGroups

namespace CgroupSetup

def RootPaths.all (x : RootPaths) : List (List (List Char)) :=
  [components x.cpuset, components x.freezer, components x.unified]

theorem components_controller {w : String} (hw : ProperName w) (rest : String) :
    ∃ z l, components ("/sys/fs/cgroup/" ++ w ++ rest) =
      ['s', 'y', 's'] :: ['f', 's'] :: ['c', 'g', 'r', 'o', 'u', 'p'] :: (w.toList ++ z) :: l := by
  have htext : ("/sys/fs/cgroup/" ++ w ++ rest).toList = [] ++ '/' :: (['s', 'y', 's'] ++
      '/' :: (['f', 's'] ++ '/' :: (['c', 'g', 'r', 'o', 'u', 'p'] ++ '/' :: (w.toList ++ rest.toList)))) := by
    simp
  have hne : w.toList ≠ [] := fun heq => hw.nonempty (String.toList_eq_nil_iff.mp heq)
  have hword : ∃ z l, ((w.toList ++ rest.toList).splitOn '/').filter (!·.isEmpty) =
      (w.toList ++ z) :: l := by
    by_cases hslash : '/' ∈ rest.toList
    · obtain ⟨z, l, heq, hz⟩ := List.eq_append_cons_of_mem hslash
      refine ⟨z, (l.splitOn '/').filter (!·.isEmpty), ?_⟩
      rw [heq, ← List.append_assoc, List.splitOn_append_cons_self, List.filter_append,
        List.splitOn_eq_singleton (by simp [hw.single, hz])]
      simp [hne]
    · refine ⟨rest.toList, [], ?_⟩
      rw [List.splitOn_eq_singleton (by simp [hw.single, hslash])]
      simp [hne]
  obtain ⟨z, l, hword⟩ := hword
  refine ⟨z, l, ?_⟩
  rw [components, htext]
  simp only [List.splitOn_append_cons_self, List.filter_append, hword]
  rfl

def Sited (w path : String) : Prop := path = "" ∨ ∃ rest, path = "/sys/fs/cgroup/" ++ w ++ rest

structure RootPaths.Sited (x : RootPaths) : Prop where
  unified : CgroupSetup.Sited "unified" x.unified
  freezer : CgroupSetup.Sited "freezer" x.freezer
  cpuset : CgroupSetup.Sited "cpuset" x.cpuset

theorem sited_of {w : String} (rest : String) {beginning : String}
    (h : beginning = "/sys/fs/cgroup/" ++ w) : Sited w (beginning ++ rest) := .inr ⟨rest, by rw [h]⟩

theorem readLine_sited {name : String} {x x' : RootPaths} {line : Int × String} (h : x.Sited)
    (run : readLine name x line = .ok x') : x'.Sited := by
  unfold readLine at run
  split at run
  next => cases run
  next =>
    cases run
    constructor
    · dsimp only
      split
      · exact sited_of _ (by simp)
      · exact h.unified
    · dsimp only
      split
      · exact sited_of _ (by simp)
      · exact h.freezer
    · dsimp only
      split
      · exact sited_of _ (by simp)
      · exact h.cpuset

theorem readRootPaths_sited {name : String} {x : RootPaths} (run : readRootPaths m name = .ok x) :
    x.Sited ∧ x.unified ≠ "" ∧ x.freezer ≠ "" ∧ x.cpuset ≠ "" := by
  simp only [readRootPaths, Fallible.bind_def, Fallible.bind_eq_ok] at run
  obtain ⟨y, hread, run⟩ := run
  have hsited : y.Sited := Fallible.foldlM_keeps RootPaths.Sited
    (fun _ _ _ _ h e => readLine_sited h e) ⟨.inl rfl, .inl rfl, .inl rfl⟩ hread
  by_cases hu : y.unified = ""
  · simp [hu] at run
  by_cases hf : y.freezer = ""
  · simp [hu, hf] at run
  by_cases hc : y.cpuset = ""
  · simp [hu, hf, hc] at run
  simp only [hu, hf, hc, if_false, Fallible.pure_def, Except.ok.injEq] at run
  subst run
  exact ⟨hsited, hu, hf, hc⟩

theorem Sited.components {w path : String} (h : Sited w path) (hw : ProperName w) (ne : path ≠ "") :
    ∃ z l, DemosSched.components path =
      ['s', 'y', 's'] :: ['f', 's'] :: ['c', 'g', 'r', 'o', 'u', 'p'] :: (w.toList ++ z) :: l := by
  obtain ⟨rest, rfl⟩ := h.resolve_left ne
  exact components_controller hw rest

theorem separate_all {name : String} {x : RootPaths} (run : readRootPaths m name = .ok x) :
    Separate x.all := by
  obtain ⟨hsited, hu, hf, hc⟩ := readRootPaths_sited run
  obtain ⟨zu, lu, hu⟩ := hsited.unified.components ⟨by decide, by decide, by decide⟩ hu
  obtain ⟨zf, lf, hf⟩ := hsited.freezer.components ⟨by decide, by decide, by decide⟩ hf
  obtain ⟨zc, lc, hc⟩ := hsited.cpuset.components ⟨by decide, by decide, by decide⟩ hc
  intro r hr r' hr' p hp hp'
  obtain ⟨t, rfl⟩ := hp
  obtain ⟨t', heq⟩ := hp'
  rw [RootPaths.all, hu, hf, hc] at hr hr'
  simp only [List.mem_cons, List.not_mem_nil, or_false] at hr hr'
  rcases hr with rfl | rfl | rfl <;> rcases hr' with rfl | rfl | rfl
  all_goals first | (exfalso; simp at heq; done) | rfl

def Advice.isNone (a : Advice) : Bool := a.mountCmds.isEmpty && a.commands.isEmpty

theorem handleCgroupExc_advises {e : Errno} {path : String} {a a' : Advice}
    (h : handleCgroupExc e path a = .ok a') : a'.isNone = false := by
  have hmount : ∀ cmd, ({ a with mountCmds := a.mountCmds ++ [cmd] } : Advice).isNone = false := by
    simp [Advice.isNone]
  have hcommand : ∀ cmd, ({ a with commands := a.commands ++ [cmd] } : Advice).isNone = false := by
    simp [Advice.isNone]
  unfold handleCgroupExc at h
  cases e with
  | eacces | eperm =>
    cases h
    exact hcommand _
  | erofs | enoent =>
    dsimp only at h
    split_ifs at h
    all_goals
      cases h
      exact hmount _
  | eexist | other => cases h

/-- A top-level group that has been made, or is there; one that is there is kept. -/
def RootAt (m : Host) (k₀ : Kernel) (path : String) (g : Cgroup) : Prop :=
  g.path = "" ∨ g.path = path ∧
    (g.remove = true → components path ∈ k₀.tree.dirs → m.Removes (components path))

structure RootsAt (m : Host) (k₀ : Kernel) (x : RootPaths) (roots : RootGroups) : Prop where
  unified : RootAt m k₀ x.unified roots.unified
  freezer : RootAt m k₀ x.freezer roots.freezer
  cpuset : RootAt m k₀ x.cpuset roots.cpuset

theorem rootsAt_default {x : RootPaths} : RootsAt m k₀ x {} := ⟨.inl rfl, .inl rfl, .inl rfl⟩

/-- An exception on its way out of the set-up of the top-level groups. -/
def Aborted (m : Host) (k₀ : Kernel) (x : RootPaths) (t : Thrown) (k : Kernel) : Prop :=
  ∃ roots, t.pending = RootGroups.teardown roots ∧ RootsAt m k₀ x roots ∧ m.Built k₀ t.pending k

theorem makeRoot_ends {path : String} {a : Advice} (built : m.Built k₀ gs k) :
    Ends (makeRoot m path a) k
      (fun r k' => m.Built k₀ (r.1 :: gs) k' ∧ RootAt m k₀ path r.1 ∧
        (r.2.isNone = true → a.isNone = true ∧ r.1.path = path))
      (fun t k' => t.pending = [] ∧ m.Built k₀ gs k') := by
  refine ends_tryCatch (ends_bind ((Cgroup.create_ends built).imp (fun g s hs => ends_pure ?_)
    fun t s ht => ?_))
  · obtain ⟨hbuilt, hpath, -, hnew⟩ := hs
    exact ⟨hbuilt, .inr ⟨hpath, fun hremove hmem =>
      (built.kept _ hmem).resolve_left (hnew rfl hremove)⟩, fun hnone => ⟨hnone, hpath⟩⟩
  · split
    next e _ =>
      split
      next a' hadvice =>
        refine ends_pure ⟨ht.2.mono (List.subset_cons_self _ _), .inl rfl, fun hnone => ?_⟩
        simp [handleCgroupExc_advises hadvice] at hnone
      next => exact ends_throw ht
    next => exact ends_throw ht

/-- What only moves tasks around. -/
def Still {α : Type} (f : Setup α) : Prop :=
  ∀ k : Kernel, Ends f k (fun _ k' => k'.tree = k.tree) fun t k' => t.pending = [] ∧ k'.tree = k.tree

theorem Still.bind {α β : Type} {f : Setup α} {g : α → Setup β} (hf : Still f)
    (hg : ∀ a, Still (g a)) : Still (f >>= g) := fun k =>
  ends_bind ((hf k).imp (fun a s hs => (hg a s).imp (fun _ _ h => h.trans hs)
    fun _ _ h => ⟨h.1, h.2.trans hs⟩) fun _ _ => id)

theorem still_pure {α : Type} (a : α) : Still (pure a : Setup α) := fun _ => ends_pure rfl

theorem still_forM {α : Type} {f : α → Setup Unit} (hf : ∀ a, Still (f a)) (l : List α) :
    Still (l.forM f) := by
  induction l with
  | nil => exact still_pure ()
  | cons a l ih => exact (hf a).bind fun _ => ih

theorem still_addProcess (g : Cgroup) (pid : Nat) : Still (g.addProcess m pid) := by
  have hcall : ∀ f path, Still (m.call f path) := fun f path k =>
    Host.call_ends rfl fun _ => ⟨rfl, rfl⟩
  refine (hcall _ _).bind fun _ => (hcall _ _).bind fun _ => fun k => ?_
  exact ends_bind (ends_get (ends_set rfl))

theorem joinRoot_ends {g : Cgroup} {pid : Nat} {commands : List String} {a : Advice}
    {ok : Advice → Kernel → Prop} {thrown : Thrown → Kernel → Prop}
    (hok : ∀ a' k', k'.tree = k.tree → (a'.isNone = true → a.isNone = true) → ok a' k') :
    Ends (joinRoot m g pid commands a) k ok thrown := by
  refine ends_tryCatch (ends_bind ((still_addProcess g pid k).imp
    (fun _ s hs => ends_pure (hok a s hs id)) fun t s ht => ends_pure (hok _ s ht.2 fun hnone => ?_)))
  simp only [Advice.isNone, Bool.and_eq_true, List.isEmpty_iff, List.append_eq_nil_iff] at hnone ⊢
  exact ⟨hnone.1, hnone.2.1⟩

theorem makeRoots_ends {x : RootPaths} {pid : Nat} : Ends (makeRoots m x pid) k₀
    (fun r k' => m.Built k₀ r.2.teardown k' ∧ RootsAt m k₀ x r.2 ∧ (r.1 = true →
      r.2.unified.path = x.unified ∧ r.2.freezer.path = x.freezer ∧ r.2.cpuset.path = x.cpuset))
    (Aborted m k₀ x) := by
  have habort : ∀ roots : RootGroups, RootsAt m k₀ x roots → ∀ (t : Thrown) (s : Kernel),
      t.pending = [] ∧ m.Built k₀ roots.teardown s →
      Aborted m k₀ x { t with pending := t.pending ++ roots.teardown } s := by
    rintro roots hroots t s ⟨hnone, hbuilt⟩
    rw [hnone, List.nil_append]
    exact ⟨roots, rfl, hroots, hbuilt⟩
  have hstart : m.Built k₀ ({} : RootGroups).teardown k₀ := Host.Built.start.mono (List.nil_subset _)
  refine ends_bind (owning_ends ((makeRoot_ends hstart).imp (fun r s hs => ?_)
    (habort _ rootsAt_default)))
  obtain ⟨unified, a⟩ := r
  obtain ⟨hbuilt, hunified, hnone⟩ := hs
  refine ends_bind (joinRoot_ends fun a s' hs' hnone' => ?_)
  have hbuilt' : m.Built k₀ ({ unified } : RootGroups).teardown s' :=
    (hbuilt.same hs').mono (by simp [RootGroups.teardown])
  have hroots : RootsAt m k₀ x { unified } := ⟨hunified, .inl rfl, .inl rfl⟩
  refine ends_bind (owning_ends ((makeRoot_ends hbuilt').imp (fun r s hs => ?_) (habort _ hroots)))
  obtain ⟨freezer, a'⟩ := r
  obtain ⟨hbuilt, hfreezer, hnone₂⟩ := hs
  refine ends_bind (joinRoot_ends fun a s' hs' hnone₂' => ?_)
  have hbuilt' : m.Built k₀ ({ unified, freezer } : RootGroups).teardown s' :=
    (hbuilt.same hs').mono (by simp [RootGroups.teardown])
  have hroots : RootsAt m k₀ x { unified, freezer } := ⟨hunified, hfreezer, .inl rfl⟩
  refine ends_bind (owning_ends ((makeRoot_ends hbuilt').imp (fun r s hs => ?_) (habort _ hroots)))
  obtain ⟨cpuset, a''⟩ := r
  obtain ⟨hbuilt, hcpuset, hnone₃⟩ := hs
  refine ends_bind (joinRoot_ends fun a s' hs' hnone₃' => ends_pure ⟨?_, ⟨hunified, hfreezer, hcpuset⟩,
    fun hall => ?_⟩)
  · refine (hbuilt.same hs').of_removed fun g hg d hd => ?_
    simp only [RootGroups.teardown, List.mem_cons, List.not_mem_nil, or_false] at hg
    rcases hg with rfl | rfl | rfl | rfl
    · simpa [RootGroups.teardown] using .inl hd
    · simp [Cgroup.removed] at hd
    · simpa [RootGroups.teardown] using .inr (.inl hd)
    · simpa [RootGroups.teardown] using .inr (.inr hd)
  · obtain ⟨hall, hpath⟩ := hnone₃ (hnone₃' hall)
    obtain ⟨hall, hpath₂⟩ := hnone₂ (hnone₂' hall)
    exact ⟨(hnone (hnone' hall)).2, hpath₂, hpath⟩

theorem killChild_ends {pid : Nat} : Ends (killChild m pid) k (fun _ k' => k'.tree = k.tree)
    fun _ _ => False := by
  unfold killChild
  split
  · exact ends_bind (ends_get (ends_set rfl))
  · exact ends_pure rfl

theorem withChild_ends {α : Type} {pid : Nat} {body : Setup α} {ok : α → Kernel → Prop}
    {thrown : Thrown → Kernel → Prop} (h : Ends body k ok thrown)
    (hok : ∀ a s s', s'.tree = s.tree → ok a s → ok a s')
    (hthrown : ∀ t s s', s'.tree = s.tree → thrown t s → thrown t s') :
    Ends (withChild m pid body) k ok thrown := by
  refine ends_bind (ends_tryCatch (h.imp (fun a s hs => ?_) fun t s ht => ?_))
  · exact ends_bind (killChild_ends.imp (fun _ s' hs' => ends_pure (hok a s s' hs' hs))
      fun _ _ => False.elim)
  · exact ends_bind (killChild_ends.imp (fun _ s' hs' => ends_throw (hthrown t s s' hs' ht))
      fun _ _ => False.elim)

end CgroupSetup

namespace SchedulerGroups

open CgroupSetup

def BelowRoot (m : Host) (name : String) (d : List (List Char)) : Prop :=
  ∃ x, readRootPaths m name = .ok x ∧ ∃ r ∈ x.all, ∃ l, l ≠ [] ∧ d = r ++ l

/-- The groups `gs` are alive, and are destroyed in this order. -/
structure Ending (m : Host) (name : String) (k₀ : Kernel) (gs : List Cgroup) (k : Kernel) : Prop where
  built : m.Built k₀ gs k
  upward : gs.Pairwise Cgroup.Apart
  below : ∀ d ∈ gs.flatMap Cgroup.removed, d ∈ k₀.tree.dirs → m.Removes d ∨ BelowRoot m name d

theorem Ending.same {name : String} {gs : List Cgroup} (h : Ending m name k₀ gs k)
    (tree : k'.tree = k.tree) : Ending m name k₀ gs k' := ⟨h.built.same tree, h.upward, h.below⟩

theorem Ending.removed_upward {name : String} {gs : List Cgroup} (h : Ending m name k₀ gs k) :
    DirTree.Upward (gs.flatMap Cgroup.removed) := by
  refine List.pairwise_flatMap.mpr ⟨fun g _ => ?_, h.upward.imp fun hapart => hapart⟩
  unfold Cgroup.removed
  split
  · exact List.Pairwise.nil
  · exact List.pairwise_singleton _ _

theorem Ending.default {name : String} (built : m.Built k₀ [] k) :
    Ending m name k₀ ({} : RootGroups).teardown k where
  built := built.mono (List.nil_subset _)
  upward := List.pairwise_of_forall_mem_list fun g hg _ _ p hp => by
    simp only [RootGroups.teardown, List.mem_cons, List.not_mem_nil, or_false, or_self] at hg
    subst hg
    simp [Cgroup.removed] at hp
  below d hd := by simp [RootGroups.teardown, Cgroup.removed] at hd

theorem stack_nil : Stack R [] := ⟨[], [], [], rfl, .nil, List.nodup_nil, .inl (by simp)⟩

theorem Stack.below {gs : List Cgroup} (h : Stack R gs) {g : Cgroup} (hg : g ∈ gs) :
    (∃ n, g.Deep R n) ∨ ∃ n, g.Mid R n := by
  obtain ⟨zs, names, parts, rfl, named, -, hzs⟩ := h
  rcases List.mem_append.mp hg with hg | hg
  · exact hzs.imp (fun hdeep => hdeep g hg) fun ⟨n, _, hmid⟩ => ⟨n, hmid g hg⟩
  · obtain ⟨n, -, x, hx, hg⟩ := mem_teardown named hg
    exact (PartitionGroups.mem_teardown.mp hg).imp (fun ⟨y, hy, hg⟩ => ⟨n, hx.processes y hy g hg⟩)
      fun hg => ⟨n, hx.own g hg⟩

theorem Ending.of_stack {name : String} {x : RootPaths} {roots : RootGroups} {gs : List Cgroup}
    (read : readRootPaths m name = .ok x) (hroots : RootsAt m k₀ x roots) (stack : Stack x.all gs)
    (built : m.Built k₀ (gs ++ roots.teardown) k) : Ending m name k₀ (gs ++ roots.teardown) k := by
  have hseparate := separate_all read
  have hroot : ∀ g ∈ roots.teardown, ∃ path, components path ∈ x.all ∧ RootAt m k₀ path g := by
    intro g hg
    simp only [RootGroups.teardown, List.mem_cons, List.not_mem_nil, or_false] at hg
    rcases hg with rfl | rfl | rfl
    · exact ⟨_, by simp [RootPaths.all], hroots.cpuset⟩
    · exact ⟨_, by simp [RootPaths.all], hroots.freezer⟩
    · exact ⟨_, by simp [RootPaths.all], hroots.unified⟩
  have hat : ∀ g ∈ roots.teardown, g.At x.all [] := by
    intro g hg p hp
    obtain ⟨path, hmem, hempty | ⟨hpath, -⟩⟩ := hroot g hg
    · exact absurd hempty (Cgroup.mem_removed.mp hp).1
    · obtain ⟨-, -, rfl⟩ := Cgroup.mem_removed.mp hp
      exact ⟨_, hmem, by rw [hpath, List.append_nil]⟩
  refine ⟨built, List.pairwise_append.mpr ⟨stack.upward hseparate, ?_, fun g hg g' hg' => ?_⟩, ?_⟩
  · exact List.pairwise_of_forall_mem_list fun g hg g' hg' =>
      (hat g hg).apart (hat g' hg') hseparate fun _ => rfl
  · rcases stack.below hg with ⟨n, hdeep⟩ | ⟨n, hmid⟩
    · exact hdeep.apart ⟨[], by simp, hat g' hg'⟩ hseparate
    · have hroots' : g'.Mid x.all n ∨ g'.At x.all [] ∨ n ≠ n ∧ g'.Deep x.all n :=
        .inr (.inl (hat g' hg'))
      exact hmid.apart hroots' hseparate
  · intro d hd hmem
    rw [List.flatMap_append, List.mem_append, List.mem_flatMap, List.mem_flatMap] at hd
    rcases hd with ⟨g, hg, hd⟩ | ⟨g, hg, hd⟩
    · refine .inr ⟨x, read, ?_⟩
      obtain ⟨-, -, rfl⟩ := Cgroup.mem_removed.mp hd
      rcases stack.below hg with ⟨n, r, hr, p, heq⟩ | ⟨n, r, hr, heq⟩
      · exact ⟨r, hr, _, by simp, heq⟩
      · exact ⟨r, hr, _, by simp, heq⟩
    · obtain ⟨path, -, hempty | ⟨hpath, hremove⟩⟩ := hroot g hg
      · exact absurd hempty (Cgroup.mem_removed.mp hd).1
      · obtain ⟨-, hremoved, rfl⟩ := Cgroup.mem_removed.mp hd
        rw [hpath] at hmem ⊢
        exact .inl (hremove hremoved hmem)

theorem Ending.of_roots {name : String} {x : RootPaths} {roots : RootGroups}
    (read : readRootPaths m name = .ok x) (hroots : RootsAt m k₀ x roots)
    (built : m.Built k₀ roots.teardown k) : Ending m name k₀ roots.teardown k := by
  have hbuilt : m.Built k₀ ([] ++ roots.teardown) k := built
  exact Ending.of_stack read hroots stack_nil hbuilt

theorem runLoop_ends (built : m.Built k₀ gs k) : Ends (runLoop m) k (fun _ k' => m.Built k₀ gs k')
    fun t k' => t.pending = [] ∧ m.Built k₀ gs k' := by
  have hbuilt : m.Built k₀ gs (m.loop k).2 := by
    refine ⟨fun d hd => ?_, fun d hd => ?_⟩
    · rcases built.kept d hd with hmem | hremoved
      · by_cases hd' : d ∈ (m.loop k).2.tree.dirs
        · exact .inl hd'
        · exact .inr ⟨k, hmem, hd'⟩
      · exact .inr hremoved
    · by_cases hd' : d ∈ k.tree.dirs
      · exact built.grown d hd'
      · exact .inr (.inl ⟨k, hd', hd⟩)
  exact ends_bind (ends_get (ends_bind (ends_set (require_ends hbuilt fun _ => ⟨rfl, hbuilt⟩))))

theorem still_createProcesses (x : PartitionGroups) : Still (x.createProcesses m) := by
  have hexec : ∀ p : ProcessGroups, Still (p.exec m) := by
    intro p k
    unfold ProcessGroups.exec
    split
    next => exact ends_throw ⟨rfl, rfl⟩
    next pid _ =>
      exact ((still_addProcess _ pid).bind fun _ => (still_addProcess _ pid).bind
        fun _ => still_pure pid) k
  exact still_forM (fun p => (hexec p).bind fun pid => still_addProcess _ pid) x.processes

theorem createToplevelCgroups_ends {name : String} : Ends (createToplevelCgroups m name) k₀
    (fun r k => ∃ x, readRootPaths m name = .ok x ∧ m.Built k₀ r.2.teardown k ∧ RootsAt m k₀ x r.2 ∧
      (r.1 = true → ∀ g ∈ r.2.teardown, components g.path ∈ x.all))
    fun t k => Ending m name k₀ t.pending k := by
  unfold createToplevelCgroups
  split
  next => exact ends_throw (Ending.default Host.Built.start)
  next x hread =>
    split
    next => exact ends_throw (Ending.default Host.Built.start)
    next pid _ =>
      refine (withChild_ends makeRoots_ends ?_ ?_).imp (fun r k hr => ?_) fun t k ht => ?_
      · exact fun _ _ _ tree h => ⟨h.1.same tree, h.2⟩
      · rintro t s s' tree ⟨roots, hpending, hroots, hbuilt⟩
        exact ⟨roots, hpending, hroots, hbuilt.same tree⟩
      · obtain ⟨hbuilt, hroots, hall⟩ := hr
        refine ⟨x, hread, hbuilt, hroots, fun hok g hg => ?_⟩
        obtain ⟨hu, hf, hc⟩ := hall hok
        simp only [RootGroups.teardown, List.mem_cons, List.not_mem_nil, or_false] at hg
        rcases hg with rfl | rfl | rfl
        · simp [RootPaths.all, hc]
        · simp [RootPaths.all, hf]
        · simp [RootPaths.all, hu]
      · obtain ⟨roots, hpending, hroots, hbuilt⟩ := ht
        have hending := Ending.of_roots hread hroots (hpending ▸ hbuilt)
        rwa [hpending]

theorem main_ends {name : String} {shape : List (String × Nat)}
    (proper : ∀ e ∈ shape, ProperName e.1) (nodup : (shape.map Prod.fst).Nodup) :
    Ends (main m name shape) k₀ (fun gs k => Ending m name k₀ gs k)
      fun t k => Ending m name k₀ t.pending k := by
  refine ends_bind (createToplevelCgroups_ends.imp (fun r k hr => ?_) fun _ _ => id)
  obtain ⟨ok, roots⟩ := r
  obtain ⟨x, hread, hbuilt, hroots, hall⟩ := hr
  cases ok with
  | false => exact ends_pure (Ending.of_roots hread hroots hbuilt)
  | true =>
    refine owning_ends (ends_bind (require_ends ?_ fun _ => Ending.of_roots hread hroots hbuilt))
    have hnamed : List.Forall₂ (PartitionGroups.Named x.all) [] [] := .nil
    refine ends_bind ((createPartitions_ends proper (hall rfl) hnamed nodup hbuilt).imp
      (fun parts s hs => ?_) fun t s ht => Ending.of_stack hread hroots ht.1 ht.2)
    have hending := Ending.of_stack hread hroots hs.1 hs.2
    refine ends_bind (owning_ends (ends_bind (require_ends ?_ ?_)))
    · refine ends_bind ((still_forM still_createProcesses parts s).imp (fun _ s' hs' => ?_) ?_)
      · refine (runLoop_ends (hs.2.same hs')).imp (fun _ s'' hs'' => ends_pure ?_) ?_
        · exact Ending.of_stack hread hroots hs.1 hs''
        · rintro t s'' ⟨hnone, hs''⟩
          simpa [hnone] using Ending.of_stack hread hroots hs.1 hs''
      · rintro t s' ⟨hnone, hs'⟩
        simpa [hnone] using hending.same hs'
    · intro e
      simpa using hending

/-- In whichever way the program ends, a group it has made is only left when a task is in it or
below it, or a directory something else has made, and a group that was there is only removed
below the top-level groups. -/
theorem groups_cleaned_up (m : Host) (name : String) (shape : List (String × Nat)) (k₀ : Kernel)
    (proper : ∀ e ∈ shape, ProperName e.1) (nodup : (shape.map Prod.fst).Nodup) :
    (∀ d ∈ (ended m name shape k₀).tree.dirs, d ∈ k₀.tree.dirs ∨
      ∃ b ∈ (ended m name shape k₀).tree.dirs, d <+: b ∧
        ((ended m name shape k₀).occupied b = true ∨ m.Makes b)) ∧
    ∀ d ∈ k₀.tree.dirs, d ∉ (ended m name shape k₀).tree.dirs → m.Removes d ∨ BelowRoot m name d := by
  obtain ⟨gs, k, hending, hended⟩ : ∃ gs k, Ending m name k₀ gs k ∧
      ended m name shape k₀ = Host.destroy m gs k := by
    have hmain : Ends (main m name shape) k₀ (fun gs k => Ending m name k₀ gs k)
        fun t k => Ending m name k₀ t.pending k := main_ends proper nodup
    unfold ended
    split
    next gs k hrun => exact ⟨gs, k, hmain.1 _ _ hrun, rfl⟩
    next t k hrun => exact ⟨t.pending, k, hmain.2 _ _ hrun, rfl⟩
  have hmem : ∀ d, d ∈ (ended m name shape k₀).tree.dirs ↔
      DirTree.Stays (m.held k) (gs.flatMap Cgroup.removed) d k.tree := by
    intro d
    rw [hended]
    exact DirTree.mem_clear_all hending.removed_upward
  have hoccupied : ∀ b, (ended m name shape k₀).occupied b = k.occupied b := by
    intro b
    rw [hended]
    rfl
  refine ⟨fun d hd => ?_, fun d hd hgone => ?_⟩
  · obtain ⟨b, hb, hdb, hstay⟩ := (hmem d).mp hd
    have hleft : b ∈ (ended m name shape k₀).tree.dirs :=
      (hmem b).mpr ⟨b, hb, List.prefix_rfl, hstay⟩
    rcases hending.built.grown b hb with hold | hmade | ⟨hown, hfree⟩
    · exact .inl (k₀.tree.mem_of_prefix hold hdb)
    · exact .inr ⟨b, hleft, hdb, .inr hmade⟩
    · refine .inr ⟨b, hleft, hdb, .inl ?_⟩
      have hheld := hstay.resolve_right (not_not_intro hown)
      simpa [Host.held, hfree, hoccupied] using hheld
  · rcases hending.built.kept d hd with hkept | hremoved
    · by_cases hown : d ∈ gs.flatMap Cgroup.removed
      · exact hending.below d hown hd
      · exact absurd ((hmem d).mpr ⟨d, hkept, List.prefix_rfl, .inr hown⟩) hgone
    · exact .inl hremoved

/-- The three hierarchies are mounted, with nothing in them. -/
def mounted : Kernel where
  tree := ⟨{[], components "/sys", components "/sys/fs", components "/sys/fs/cgroup",
    components "/sys/fs/cgroup/unified", components "/sys/fs/cgroup/freezer",
    components "/sys/fs/cgroup/cpuset"}, by decide +kernel⟩
  tasks := ∅

/-- No process may join the `cpuset` group of a partition. -/
def refusing : Host where
  selfCgroup := [(4, ":freezer:/"), (3, ":cpuset:/"), (0, "::/")]
  uid := 0
  ppid := 1
  refuses _ := none
  mkdirFails _ := none
  fails f path :=
    if f = .writeProcs ∧ path = "/sys/fs/cgroup/cpuset//demos/P" then some (.other 28) else none
  eventfd _ := none
  fork path := .ok path.length
  lingers := false
  beforePartitions := none
  afterPartitions := none
  loop k := (none, k)

/-- The process that could not join has been spawned and frozen, and keeps its groups. -/
theorem groups_cleaned_up_refusing : ∃ (k : Kernel) (p : List (List Char)),
    ended refusing "demos" [("P", 1)] mounted = k ∧
    p = components "/sys/fs/cgroup/freezer/demos/P" ∧ p ∈ k.tree.dirs ∧ p ∉ mounted.tree.dirs ∧
    ∃ b ∈ k.tree.dirs, p <+: b ∧ (k.occupied b = true ∨ refusing.Makes b) := by
  have hproper : ∀ e ∈ [("P", 1)], ProperName e.1 := by
    intro e he
    obtain rfl := List.mem_singleton.mp he
    exact ⟨by decide, by decide, by decide⟩
  obtain ⟨p, hp⟩ : ∃ p, p = components "/sys/fs/cgroup/freezer/demos/P" := ⟨_, rfl⟩
  obtain ⟨k, hk⟩ : ∃ k, ended refusing "demos" [("P", 1)] mounted = k := ⟨_, rfl⟩
  have hleft : p ∈ k.tree.dirs := by
    rw [hp, ← hk]
    decide +kernel
  have hnew : p ∉ mounted.tree.dirs := by
    rw [hp]
    decide +kernel
  have hcleaned := (groups_cleaned_up refusing "demos" [("P", 1)] mounted hproper (by simp)).1
  rw [hk] at hcleaned
  exact ⟨k, p, hk, hp, hleft, hnew, (hcleaned p hleft).resolve_left hnew⟩

end SchedulerGroups

end DemosSched
