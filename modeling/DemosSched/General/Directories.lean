import Mathlib.Data.Finset.Basic
import Mathlib.Data.List.Infix

/-! Directories of a file system, by their paths. A directory is removed only when it is
empty and not held; removing a list of them, each after those below it, leaves what has to
stay and the way to it, and nothing else. -/

namespace DemosSched.Directories

variable {α : Type*} [DecidableEq α]

/-- With a directory there is the one it is in. -/
structure DirTree (α : Type*) [DecidableEq α] where
  dirs : Finset (List α)
  closed : ∀ p ∈ dirs, p.dropLast ∈ dirs

inductive Refusal
  | missing
  | present
  | inUse
  deriving DecidableEq, Repr

namespace DirTree

variable {p q d b : List α} {t t' : DirTree α} {held : List α → Bool}

theorem mem_of_prefix (t : DirTree α) (hp : p ∈ t.dirs) (h : d <+: p) : d ∈ t.dirs := by
  obtain ⟨r, rfl⟩ := h
  induction r using List.reverseRecOn with
  | nil => simpa using hp
  | append_singleton r a ih =>
    refine ih ?_
    have hclosed := t.closed _ hp
    rwa [← List.append_assoc, List.dropLast_concat] at hclosed

def mkdir (p : List α) (t : DirTree α) : Except Refusal (DirTree α) :=
  if h : p.dropLast ∈ t.dirs then
    if p ∈ t.dirs then .error .present
    else .ok ⟨insert p t.dirs, fun q hq => by
      rcases Finset.mem_insert.mp hq with rfl | hq
      · exact Finset.mem_insert_of_mem h
      · exact Finset.mem_insert_of_mem (t.closed q hq)⟩
  else .error .missing

def Empty (p : List α) (t : DirTree α) : Prop := ∀ q ∈ t.dirs, q.dropLast = p → q = p

instance (p : List α) (t : DirTree α) : Decidable (t.Empty p) := inferInstanceAs (Decidable (∀ _ ∈ _, _))

def rmdir (held : List α → Bool) (p : List α) (t : DirTree α) : Except Refusal (DirTree α) :=
  if p ∈ t.dirs then
    if h : t.Empty p ∧ held p = false then .ok ⟨t.dirs.erase p, fun q hq => by
      obtain ⟨hqp, hq⟩ := Finset.mem_erase.mp hq
      exact Finset.mem_erase.mpr ⟨fun heq => hqp (h.1 q hq heq), t.closed q hq⟩⟩
    else .error .inUse
  else .error .missing

theorem mkdir_ok (h : mkdir p t = .ok t') :
    p ∉ t.dirs ∧ p.dropLast ∈ t.dirs ∧ t'.dirs = insert p t.dirs := by
  unfold mkdir at h
  split at h
  next hparent =>
    split at h
    next => cases h
    next hp =>
      cases h
      exact ⟨hp, hparent, rfl⟩
  next => cases h

/-- Removes the directory if it can be removed. -/
def discard (held : List α → Bool) (p : List α) (t : DirTree α) : DirTree α :=
  match rmdir held p t with
  | .ok t' => t'
  | .error _ => t

theorem mem_discard : d ∈ (t.discard held p).dirs ↔
    d ∈ t.dirs ∧ (d = p → ¬t.Empty p ∨ held p = true) := by
  unfold discard rmdir
  by_cases hp : p ∈ t.dirs
  · by_cases hfree : t.Empty p ∧ held p = false
    · rw [if_pos hp, dif_pos hfree]
      constructor
      · intro hd
        obtain ⟨hne, hd⟩ := Finset.mem_erase.mp hd
        exact ⟨hd, fun heq => absurd heq hne⟩
      · rintro ⟨hd, hstuck⟩
        refine Finset.mem_erase.mpr ⟨fun heq => ?_, hd⟩
        rcases hstuck heq with hnot | hheld
        · exact hnot hfree.1
        · simp [hfree.2] at hheld
    · rw [if_pos hp, dif_neg hfree]
      refine ⟨fun hd => ⟨hd, fun _ => ?_⟩, And.left⟩
      by_contra hcon
      push Not at hcon
      exact hfree ⟨hcon.1, by simpa using hcon.2⟩
  · rw [if_neg hp]
    exact ⟨fun hd => ⟨hd, fun heq => absurd (heq ▸ hd) hp⟩, And.left⟩

def clear (held : List α → Bool) : List (List α) → DirTree α → DirTree α
  | [], t => t
  | p :: ps, t => clear held ps (t.discard held p)

def Stays (held : List α → Bool) (own : List (List α)) (d : List α) (t : DirTree α) : Prop :=
  ∃ b ∈ t.dirs, d <+: b ∧ (held b = true ∨ b ∉ own)

variable {own ps : List (List α)}

theorem stays_discard (hp : p ∈ own) : Stays held own d (t.discard held p) ↔ Stays held own d t := by
  constructor
  · rintro ⟨b, hb, hstay⟩
    exact ⟨b, (mem_discard.mp hb).1, hstay⟩
  · rintro ⟨b, hb, hdb, hstay⟩
    refine ⟨b, mem_discard.mpr ⟨hb, fun heq => ?_⟩, hdb, hstay⟩
    subst heq
    exact .inr (hstay.resolve_right (not_not_intro hp))

/-- Each directory is removed after those below it. -/
def Upward (ps : List (List α)) : Prop := ps.Pairwise fun p q => p <+: q → p = q

theorem mem_clear (below : ∀ p ∈ ps, p ∈ own) (upward : Upward ps)
    (listed : ∀ p ∈ own, p ∈ t.dirs → p ∈ ps ∨ Stays held own p t) :
    d ∈ (clear held ps t).dirs ↔ Stays held own d t := by
  induction ps generalizing t with
  | nil =>
    refine ⟨fun hd => ?_, fun ⟨b, hb, hdb, _⟩ => t.mem_of_prefix hb hdb⟩
    by_cases hown : d ∈ own
    · exact (listed d hown hd).resolve_left List.not_mem_nil
    · exact ⟨d, hd, List.prefix_rfl, .inr hown⟩
  | cons q ps ih =>
    have hq := below q List.mem_cons_self
    obtain ⟨hlast, hrest⟩ := List.pairwise_cons.mp upward
    rw [clear, ih (fun p hp => below p (List.mem_cons_of_mem _ hp)) hrest, stays_discard hq]
    intro p hp hmem
    rw [stays_discard hq]
    have hstuck := (mem_discard.mp hmem).2
    replace hmem := (mem_discard.mp hmem).1
    rcases listed p hp hmem with hlisted | hstays
    · rcases List.mem_cons.mp hlisted with rfl | hlisted
      · -- it could not be removed, for what is in it or because it is held
        rcases hstuck rfl with hfull | hheld
        · simp only [Empty, not_forall] at hfull
          obtain ⟨b, hb, hparent, hne⟩ := hfull
          have hprefix : p <+: b := hparent ▸ List.dropLast_prefix b
          by_cases hown : b ∈ own
          · rcases listed b hown hb with hlater | ⟨e, he, hbe, hstay⟩
            · have hmember := (List.mem_cons.mp hlater).resolve_left hne
              exact absurd (hlast b hmember hprefix).symm hne
            · exact .inr ⟨e, he, hprefix.trans hbe, hstay⟩
          · exact .inr ⟨b, hb, hprefix, .inr hown⟩
        · exact .inr ⟨p, hmem, List.prefix_rfl, .inl hheld⟩
      · exact .inl hlisted
    · exact .inr hstays

theorem mem_clear_all (upward : Upward ps) :
    d ∈ (clear held ps t).dirs ↔ Stays held ps d t :=
  mem_clear (fun _ hp => hp) upward fun _ hp _ => .inl hp

end DirTree

end DemosSched.Directories
