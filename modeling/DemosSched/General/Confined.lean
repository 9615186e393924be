import Mathlib.Data.List.Count
import Mathlib.Data.List.Perm.Basic
import Mathlib.Logic.Function.Iterate
import Mathlib.Order.Defs.LinearOrder
import DemosSched.General.Fallible

/-! Operations on a state with two families of parts, workers and the queues they
serve, that are confined to one part of each family: they change no other part and
go by no other. In a run of such operations every worker comes to what its own turns
alone make of its parts, whatever the order in which the workers take their turns.
Nothing here mentions a particular program. -/

namespace DemosSched.Fallible

variable {σ ι κ α β : Type*} (desk : σ → ι → α) (stock : σ → κ → β)

/-- `f` changes worker `i` and queue `k` only, and goes by these only. -/
structure Confined (i : ι) (k : κ) (f : σ → σ) : Prop where
  worker_other : ∀ s j, j ≠ i → desk (f s) j = desk s j
  queue_other : ∀ s m, m ≠ k → stock (f s) m = stock s m
  congr : ∀ s s', desk s i = desk s' i → stock s k = stock s' k →
    desk (f s) i = desk (f s') i ∧ stock (f s) k = stock (f s') k

structure Agree (s s' : σ) : Prop where
  worker : ∀ i, desk s i = desk s' i
  queue : ∀ k, stock s k = stock s' k

variable {desk stock} {i : ι} {k : κ} {f g : σ → σ} {s s' s'' : σ}

namespace Agree

theorem refl (s : σ) : Agree desk stock s s := ⟨fun _ => rfl, fun _ => rfl⟩

theorem symm (h : Agree desk stock s s') : Agree desk stock s' s :=
  ⟨fun i => (h.worker i).symm, fun k => (h.queue k).symm⟩

theorem trans (h : Agree desk stock s s') (h' : Agree desk stock s' s'') : Agree desk stock s s'' :=
  ⟨fun i => (h.worker i).trans (h'.worker i), fun k => (h.queue k).trans (h'.queue k)⟩

end Agree

namespace Confined

theorem comp (hg : Confined desk stock i k g) (hf : Confined desk stock i k f) :
    Confined desk stock i k (g ∘ f) where
  worker_other s j hj := (hg.worker_other _ j hj).trans (hf.worker_other s j hj)
  queue_other s m hm := (hg.queue_other _ m hm).trans (hf.queue_other s m hm)
  congr s s' hi hk := by
    obtain ⟨hi', hk'⟩ := hf.congr s s' hi hk
    exact hg.congr _ _ hi' hk'

theorem iterate (hf : Confined desk stock i k f) (n : ℕ) : Confined desk stock i k f^[n] := by
  induction n with
  | zero => exact ⟨fun _ _ _ => rfl, fun _ _ _ => rfl, fun _ _ => .intro⟩
  | succ n ih =>
    rw [Function.iterate_succ']
    exact hf.comp ih

theorem agree (hf : Confined desk stock i k f) (h : Agree desk stock s s') :
    Agree desk stock (f s) (f s') := by
  obtain ⟨hworker, hqueue⟩ := hf.congr s s' (h.worker i) (h.queue k)
  refine ⟨fun j => ?_, fun m => ?_⟩
  · by_cases hj : j = i
    · rw [hj, hworker]
    · rw [hf.worker_other s j hj, hf.worker_other s' j hj, h.worker]
  · by_cases hm : m = k
    · rw [hm, hqueue]
    · rw [hf.queue_other s m hm, hf.queue_other s' m hm, h.queue]

end Confined

section Turns

variable (desk stock) (role : ι → Option κ) (busy : α → Prop) (work : ι → κ → σ → σ)

/-- Worker `i`, which is busy, does its work on the queue it has. -/
def Turn (s : σ) (i : ι) (s' : σ) : Prop :=
  ∃ k, role i = some k ∧ busy (desk s i) ∧ Agree desk stock (work i k s) s'

/-- What a worker and its queue see of a run in which the worker has had `n` turns. -/
structure Served (i : ι) (k : κ) (s : σ) (n : ℕ) (s' : σ) : Prop where
  worker : desk s' i = desk ((work i k)^[n] s) i
  queue : stock s' k = stock ((work i k)^[n] s) k
  turns : ∀ m < n, busy (desk ((work i k)^[m] s) i)

variable {desk stock role busy work} {is is' : List ι} {s₁ s₂ t : σ}

theorem Run.unserved (confined : ∀ i k, Confined desk stock i k (work i k))
    (run : Run (Turn desk stock role busy work) s is s') :
    (∀ i, role i = none → desk s' i = desk s i ∧ i ∉ is) ∧
      ∀ k, (∀ i, role i ≠ some k) → stock s' k = stock s k := by
  induction run with
  | nil => exact ⟨fun _ _ => ⟨rfl, by simp⟩, fun _ _ => rfl⟩
  | @snoc m s' is j _ turn ih =>
    obtain ⟨l, hj, -, hagree⟩ := turn
    refine ⟨fun i hi => ?_, fun k hk => ?_⟩
    · have hne : i ≠ j := by
        rintro rfl
        simp [hi] at hj
      rw [← hagree.worker, (confined j l).worker_other _ i hne]
      exact ⟨(ih.1 i hi).1, by simp [(ih.1 i hi).2, hne]⟩
    · rw [← hagree.queue, (confined j l).queue_other _ k, ih.2 k hk]
      rintro rfl
      exact hk j hj

variable [DecidableEq ι] (confined : ∀ i k, Confined desk stock i k (work i k))
  (apart : ∀ i j k, role i = some k → role j = some k → i = j)
include confined apart

/-- Every worker comes to what its own turns alone lead to. -/
theorem Run.served (hi : role i = some k) (run : Run (Turn desk stock role busy work) s is s') :
    Served desk stock busy work i k s (is.count i) s' := by
  induction run with
  | nil => exact ⟨rfl, rfl, by simp⟩
  | @snoc m s' is j _ turn ih =>
    obtain ⟨l, hj, hbusy, hagree⟩ := turn
    by_cases hji : j = i
    · subst hji
      rw [hi, Option.some.injEq] at hj
      subst hj
      obtain ⟨hworker, hqueue⟩ := (confined j k).congr _ _ ih.worker ih.queue
      rw [List.count_append, List.count_singleton_self]
      refine ⟨?_, ?_, fun n hn => ?_⟩
      · rw [← hagree.worker, hworker, Function.iterate_succ_apply']
      · rw [← hagree.queue, hqueue, Function.iterate_succ_apply']
      · rcases Nat.lt_succ_iff_lt_or_eq.mp hn with hlt | rfl
        · exact ih.turns n hlt
        · exact ih.worker ▸ hbusy
    · have hkl : k ≠ l := fun e => hji (apart j i k (e ▸ hj) hi)
      rw [List.count_append, List.count_singleton, if_neg (by simpa using hji), Nat.add_zero]
      refine ⟨?_, ?_, ih.turns⟩
      · rw [← hagree.worker, (confined j l).worker_other _ _ (Ne.symm hji), ih.worker]
      · rw [← hagree.queue, (confined j l).queue_other _ _ hkl, ih.queue]

theorem Run.count_le (start : Agree desk stock s t)
    (run : Run (Turn desk stock role busy work) s is s₁)
    (run' : Run (Turn desk stock role busy work) t is' s₂) (idle : ¬busy (desk s₁ i)) :
    is'.count i ≤ is.count i := by
  cases hi : role i with
  | none => rw [List.count_eq_zero.mpr ((run'.unserved confined).1 i hi).2]; exact Nat.zero_le _
  | some k =>
    by_contra hlt
    have hbusy := (run'.served confined apart hi).turns _ (Nat.lt_of_not_le hlt)
    have hsame := ((confined i k).iterate (is.count i)).agree start
    rw [← hsame.worker, ← (run.served confined apart hi).worker] at hbusy
    exact idle hbusy

/-- Runs that leave every worker idle have given each as many turns. -/
theorem Run.count_eq (start : Agree desk stock s t)
    (run : Run (Turn desk stock role busy work) s is s₁)
    (run' : Run (Turn desk stock role busy work) t is' s₂) (idle : ∀ i, ¬busy (desk s₁ i))
    (idle' : ∀ i, ¬busy (desk s₂ i)) (i : ι) : is.count i = is'.count i :=
  Nat.le_antisymm (run'.count_le confined apart start.symm run (idle' i))
    (run.count_le confined apart start run' (idle i))

theorem Run.agree (start : Agree desk stock s t) (count : ∀ i, is.count i = is'.count i)
    (run : Run (Turn desk stock role busy work) s is s₁)
    (run' : Run (Turn desk stock role busy work) t is' s₂) : Agree desk stock s₁ s₂ := by
  have hserved : ∀ i k, role i = some k → desk s₁ i = desk s₂ i ∧ stock s₁ k = stock s₂ k := by
    intro i k hi
    have hrun := run.served confined apart hi
    have hrun' := run'.served confined apart hi
    have hsame := ((confined i k).iterate (is.count i)).agree start
    rw [hrun.worker, hrun'.worker, hrun.queue, hrun'.queue, ← count]
    exact ⟨hsame.worker i, hsame.queue k⟩
  refine ⟨fun i => ?_, fun k => ?_⟩
  · cases hi : role i with
    | none =>
      rw [((run.unserved confined).1 i hi).1, ((run'.unserved confined).1 i hi).1,
        start.worker]
    | some k => exact (hserved i k hi).1
  · by_cases hk : ∃ i, role i = some k
    · obtain ⟨i, hi⟩ := hk
      exact (hserved i k hi).2
    · have hnone : ∀ i, role i ≠ some k := fun i hi => hk ⟨i, hi⟩
      rw [(run.unserved confined).2 k hnone, (run'.unserved confined).2 k hnone, start.queue]

end Turns

end DemosSched.Fallible
