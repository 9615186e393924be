import Mathlib.Data.List.Nodup
import Mathlib.Data.List.ReduceOption
import Mathlib.Data.List.Perm.Basic

/-! Names of the entries of a list: some are given, the others are generated from
a counter. Nothing here mentions a particular program. -/

namespace DemosSched.Naming

variable {α : Type*} (generate : Nat → α)

def names : List (Option α) → Nat → List α
  | [], _ => []
  | some a :: l, n => a :: names l n
  | none :: l, n => generate n :: names l (n + 1)

def unnamed (l : List (Option α)) : Nat := l.countP Option.isNone

variable {generate}

theorem names_perm (l : List (Option α)) (n : Nat) :
    (names generate l n).Perm
      (l.reduceOption ++ (List.range' n (unnamed l)).map generate) := by
  induction l generalizing n with
  | nil => simp [names, unnamed]
  | cons a l ih =>
    cases a with
    | some a => simpa [names, unnamed, List.reduceOption_cons_of_some] using (ih n).cons a
    | none =>
      have hcount : unnamed (none :: l) = unnamed l + 1 := by simp [unnamed]
      rw [names, List.reduceOption_cons_of_none, hcount, List.range'_succ, List.map_cons]
      exact ((ih (n + 1)).cons _).trans List.perm_middle.symm

theorem nodup_names_iff (inj : Function.Injective generate) (l : List (Option α)) (n : Nat) :
    (names generate l n).Nodup ↔
      l.reduceOption.Nodup ∧
        ∀ m, n ≤ m → m < n + unnamed l → generate m ∉ l.reduceOption := by
  rw [(names_perm l n).nodup_iff, List.nodup_append]
  have hrange : (List.range' n (unnamed l)).Nodup := List.nodup_range'
  have hgenerated : ((List.range' n (unnamed l)).map generate).Nodup := hrange.map inj
  constructor
  · rintro ⟨hgiven, -, hdisjoint⟩
    refine ⟨hgiven, ?_⟩
    intro m hle hlt hmem
    refine hdisjoint _ hmem _ (List.mem_map_of_mem ?_) rfl
    exact List.mem_range'_1.mpr ⟨hle, hlt⟩
  · rintro ⟨hgiven, hnone⟩
    refine ⟨hgiven, hgenerated, ?_⟩
    rintro a ha b hb rfl
    obtain ⟨m, hm, rfl⟩ := List.mem_map.mp hb
    obtain ⟨hle, hlt⟩ := List.mem_range'_1.mp hm
    exact hnone m hle hlt ha

end DemosSched.Naming
