import Mathlib.Data.List.Basic
import Mathlib.Data.List.Forall2

/-! Fallible state transformers `σ → Except ε σ`: inversion of a sequence,
invariants and totality of a left-to-right loop, and runs of a labelled
step. Nothing here mentions a particular program. -/

namespace DemosSched.Fallible

variable {σ ε α γ : Type*}

@[simp] theorem bind_eq_ok {ρ β : Type*} {x : Except ε ρ} {f : ρ → Except ε β} {b : β} :
    x.bind f = .ok b ↔ ∃ a, x = .ok a ∧ f a = .ok b := by
  cases x <;> simp [Except.bind]

@[simp] theorem map_eq_ok {ρ β : Type*} {x : Except ε ρ} {f : ρ → β} {b : β} :
    x.map f = .ok b ↔ ∃ a, x = .ok a ∧ f a = b := by
  cases x <;> simp [Except.map]

@[simp] theorem mapError_eq_ok {ρ ε' : Type*} {x : Except ε ρ} {f : ε → ε'} {a : ρ} :
    x.mapError f = .ok a ↔ x = .ok a := by
  cases x <;> simp [Except.mapError]

@[simp] theorem toOption_eq_some {ρ : Type*} {x : Except ε ρ} {a : ρ} :
    x.toOption = some a ↔ x = .ok a := by
  cases x <;> simp [Except.toOption]

@[simp] theorem bind_def {ρ β : Type _} (x : Except ε ρ) (f : ρ → Except ε β) :
    (x >>= f) = x.bind f := rfl

@[simp] theorem pure_def {ρ : Type _} (a : ρ) : (pure a : Except ε ρ) = .ok a := rfl

@[simp] theorem throw_def {ρ : Type _} (e : ε) : (throw e : Except ε ρ) = .error e := rfl

@[simp] theorem bind_ok {ρ β : Type*} (a : ρ) (f : ρ → Except ε β) :
    (Except.ok a).bind f = f a := rfl

@[simp] theorem bind_error {ρ β : Type*} (e : ε) (f : ρ → Except ε β) :
    (Except.error e).bind f = .error e := rfl

/-- Two computations that both fail, or both return with related results. -/
def Alike {ρ τ : Type*} (R : ρ → τ → Prop) : Except ε ρ → Except ε τ → Prop
  | .ok a, .ok b => R a b
  | .error _, .error _ => True
  | _, _ => False

namespace Alike

variable {ρ τ ρ' τ' : Type*} {R : ρ → τ → Prop} {S : ρ' → τ' → Prop} {x : Except ε ρ}
  {x' : Except ε τ}

theorem refl {R : ρ → ρ → Prop} (hR : ∀ a, R a a) (x : Except ε ρ) : Alike R x x := by
  cases x with
  | error e => trivial
  | ok a => exact hR a

theorem bind {f : ρ → Except ε ρ'} {g : τ → Except ε τ'} (h : Alike R x x')
    (cont : ∀ a b, R a b → Alike S (f a) (g b)) : Alike S (x.bind f) (x'.bind g) := by
  cases x with
  | error e =>
    cases x' with
    | error e' => trivial
    | ok b => exact h.elim
  | ok a =>
    cases x' with
    | error e' => exact h.elim
    | ok b => exact cont a b h

theorem map {f : ρ → ρ'} {g : τ → τ'} (h : Alike R x x') (imp : ∀ a b, R a b → S (f a) (g b)) :
    Alike S (x.map f) (x'.map g) := by
  cases x <;> cases x' <;> first | trivial | exact imp _ _ h

theorem of_ok_iff (iff : (∃ a, x = .ok a) ↔ ∃ b, x' = .ok b)
    (related : ∀ a b, x = .ok a → x' = .ok b → R a b) : Alike R x x' := by
  cases x with
  | error e =>
    cases x' with
    | error e' => trivial
    | ok b => exact absurd (iff.mpr ⟨b, rfl⟩) (by simp)
  | ok a =>
    cases x' with
    | error e' => exact absurd (iff.mp ⟨a, rfl⟩) (by simp)
    | ok b => exact related a b rfl rfl

theorem ok_iff (h : Alike R x x') : (∃ a, x = .ok a) ↔ ∃ b, x' = .ok b := by
  cases x <;> cases x' <;> simp_all [Alike]

end Alike

/-- A computation that returns a result with `Q`, or fails for another reason. -/
def Avoids {ρ : Type*} (e : ε) (Q : ρ → Prop) : Except ε ρ → Prop
  | .ok a => Q a
  | .error e' => e' ≠ e

namespace Avoids

variable {ρ ρ' : Type*} {e : ε} {Q : ρ → Prop} {R : ρ' → Prop} {x : Except ε ρ}

theorem ne (h : Avoids e Q x) : x ≠ .error e := by
  rintro rfl
  exact h rfl

theorem bind {f : ρ → Except ε ρ'} (h : Avoids e Q x) (next : ∀ a, Q a → Avoids e R (f a)) :
    Avoids e R (x.bind f) := by
  cases x with
  | ok a => exact next a h
  | error e' => exact h

theorem map {f : ρ → ρ'} (h : Avoids e Q x) (imp : ∀ a, Q a → R (f a)) :
    Avoids e R (x.map f) := by
  cases x with
  | ok a => exact imp a h
  | error e' => exact h

theorem foldlM {f : σ → α → Except ε σ} {l : List α} {I : σ → Prop}
    (step : ∀ a ∈ l, ∀ s, I s → Avoids e I (f s a)) {s : σ} (start : I s) :
    Avoids e I (l.foldlM f s) := by
  induction l generalizing s with
  | nil => exact start
  | cons a l ih =>
    rw [List.foldlM_cons, bind_def]
    exact (step a List.mem_cons_self s start).bind fun s' hs' =>
      ih (fun b hb => step b (List.mem_cons_of_mem _ hb)) hs'

end Avoids

/-- What one step of a loop keeps, given the part of the list already done,
the whole loop keeps. -/
theorem foldlM_induct {f : σ → α → Except ε σ} {l : List α} (I : List α → σ → Prop)
    (step : ∀ pre a post s s', l = pre ++ a :: post → I pre s → f s a = .ok s' →
      I (pre ++ [a]) s')
    {s s' : σ} (start : I [] s) (run : l.foldlM f s = .ok s') : I l s' := by
  suffices h : ∀ pre post s, l = pre ++ post → I pre s → post.foldlM f s = .ok s' → I l s' from
    h [] l s rfl start run
  intro pre post
  induction post generalizing pre with
  | nil =>
    intro s hl hI hrun
    simp only [List.foldlM_nil, pure_def, Except.ok.injEq] at hrun
    subst hrun
    simpa [hl] using hI
  | cons a post ih =>
    intro s hl hI hrun
    simp only [List.foldlM_cons, bind_def, bind_eq_ok] at hrun
    obtain ⟨m, hm, hrest⟩ := hrun
    exact ih (pre ++ [a]) m (by simp [hl]) (step pre a post s m hl hI hm) hrest

theorem foldlM_total {f : σ → α → Except ε σ} {l : List α} (I : List α → σ → Prop)
    (step : ∀ pre a post s, l = pre ++ a :: post → I pre s →
      ∃ s', f s a = .ok s' ∧ I (pre ++ [a]) s')
    {s : σ} (start : I [] s) : ∃ s', l.foldlM f s = .ok s' ∧ I l s' := by
  suffices h : ∀ pre post s, l = pre ++ post → I pre s →
      ∃ s', post.foldlM f s = .ok s' ∧ I l s' from h [] l s rfl start
  intro pre post
  induction post generalizing pre with
  | nil =>
    intro s hl hI
    exact ⟨s, rfl, by simpa [hl] using hI⟩
  | cons a post ih =>
    intro s hl hI
    obtain ⟨m, hm, hIm⟩ := step pre a post s hl hI
    obtain ⟨s', hs', hI'⟩ := ih (pre ++ [a]) m (by simp [hl]) hIm
    refine ⟨s', ?_, hI'⟩
    rw [List.foldlM_cons, hm, bind_def, bind_ok, hs']

theorem foldlM_keeps {f : σ → α → Except ε σ} {l : List α} (I : σ → Prop)
    (step : ∀ a ∈ l, ∀ s s', I s → f s a = .ok s' → I s')
    {s s' : σ} (start : I s) (run : l.foldlM f s = .ok s') : I s' :=
  foldlM_induct (fun _ => I)
    (fun _ a _ s s' hl hI hs => step a (by simp [hl]) s s' hI hs) start run

theorem foldlM_each {f : σ → α → Except ε σ} {l : List α} {s s' : σ} (run : l.foldlM f s = .ok s')
    {a : α} (mem : a ∈ l) : ∃ r r', f r a = .ok r' := by
  induction l generalizing s with
  | nil => simp at mem
  | cons b l ih =>
    rw [List.foldlM_cons, bind_def, bind_eq_ok] at run
    obtain ⟨m, hm, hrest⟩ := run
    rcases List.mem_cons.mp mem with rfl | hl
    · exact ⟨s, m, hm⟩
    · exact ih hrest hl

theorem foldlM_fixed {f : σ → α → Except ε σ} {l : List α} {s : σ}
    (step : ∀ a ∈ l, f s a = .ok s) : l.foldlM f s = .ok s := by
  induction l with
  | nil => rfl
  | cons a l ih =>
    rw [List.foldlM_cons, step a List.mem_cons_self, bind_def, bind_ok]
    exact ih fun b hb => step b (List.mem_cons_of_mem _ hb)

theorem mapM_eq_ok {β : Type*} {f : α → Except ε β} {l : List α} {l' : List β} :
    l.mapM f = .ok l' ↔ List.Forall₂ (fun a b => f a = .ok b) l l' := by
  induction l generalizing l' with
  | nil =>
    simp only [List.mapM_nil, pure_def, Except.ok.injEq, List.forall₂_nil_left_iff]
    exact eq_comm
  | cons a l ih =>
    simp only [List.mapM_cons, bind_def, bind_eq_ok, pure_def, Except.ok.injEq,
      List.forall₂_cons_left_iff, ih]
    constructor
    · rintro ⟨b, hb, bs, hbs, rfl⟩
      exact ⟨b, bs, hb, hbs, rfl⟩
    · rintro ⟨b, bs, hb, hbs, rfl⟩
      exact ⟨b, hb, bs, hbs, rfl⟩

theorem error_iff {x : Except ε α} : (∃ e, x = .error e) ↔ ¬∃ a, x = .ok a := by
  cases x <;> simp

theorem forall₂_mem {β : Type*} {R : α → β → Prop} {l : List α} {l' : List β}
    (h : List.Forall₂ R l l') {b : β} (mem : b ∈ l') : ∃ a ∈ l, R a b := by
  induction h with
  | nil => simp at mem
  | @cons a b' l l' hR _ ih =>
    rcases List.mem_cons.mp mem with rfl | mem
    · exact ⟨a, List.mem_cons_self, hR⟩
    · obtain ⟨a', ha', hR'⟩ := ih mem
      exact ⟨a', List.mem_cons_of_mem _ ha', hR'⟩

theorem forall₂_getElem? {β : Type*} {R : α → β → Prop} {l : List α} {l' : List β}
    (h : List.Forall₂ R l l') {n : Nat} {b : β} (hb : l'[n]? = some b) :
    ∃ a, l[n]? = some a ∧ R a b := by
  induction h generalizing n with
  | nil => simp at hb
  | @cons a b' l l' hR _ ih =>
    cases n with
    | zero =>
      rw [List.getElem?_cons_zero, Option.some.injEq] at hb
      exact ⟨a, rfl, hb ▸ hR⟩
    | succ n => exact ih hb

theorem forall₂_getElem?_left {β : Type*} {R : α → β → Prop} {l : List α} {l' : List β}
    (h : List.Forall₂ R l l') {n : Nat} {a : α} (ha : l[n]? = some a) :
    ∃ b, l'[n]? = some b ∧ R a b :=
  forall₂_getElem? h.flip ha

theorem forall₂_comp {β γ : Type*} {R : α → β → Prop} {S : β → γ → Prop} {l : List α}
    {l' : List γ} : (∃ mid, List.Forall₂ R l mid ∧ List.Forall₂ S mid l') ↔
      List.Forall₂ (fun a b => ∃ m, R a m ∧ S m b) l l' := by
  induction l generalizing l' with
  | nil => simp
  | cons a l ih =>
    constructor
    · rintro ⟨_, hR, hS⟩
      cases hR with
      | cons hr hR =>
        cases hS with
        | cons hs hS => exact .cons ⟨_, hr, hs⟩ (ih.mp ⟨_, hR, hS⟩)
    · intro h
      cases h with
      | cons hm hrest =>
        obtain ⟨m, hr, hs⟩ := hm
        obtain ⟨mid, hR, hS⟩ := ih.mpr hrest
        exact ⟨m :: mid, .cons hr hR, .cons hs hS⟩

theorem mapM_total {β : Type*} {f : α → Except ε β} {l : List α} {P : α → β → Prop}
    (total : ∀ a ∈ l, ∃ b, f a = .ok b ∧ P a b) :
    ∃ l', l.mapM f = .ok l' ∧ List.Forall₂ P l l' := by
  induction l with
  | nil => exact ⟨[], rfl, .nil⟩
  | cons a l ih =>
    obtain ⟨b, hb, hP⟩ := total a List.mem_cons_self
    obtain ⟨l', hl', hall⟩ := ih fun a ha => total a (List.mem_cons_of_mem _ ha)
    exact ⟨b :: l', by rw [List.mapM_cons, hb, hl']; rfl, .cons hP hall⟩

theorem mapM_mem {β : Type*} {f : α → Except ε β} {l : List α} {l' : List β}
    (h : l.mapM f = .ok l') {b : β} (hb : b ∈ l') : ∃ a ∈ l, f a = .ok b :=
  forall₂_mem (mapM_eq_ok.mp h) hb

theorem mapM_each {β : Type*} {f : α → Except ε β} {l : List α} {l' : List β}
    (h : l.mapM f = .ok l') {a : α} (ha : a ∈ l) : ∃ b ∈ l', f a = .ok b :=
  forall₂_mem (mapM_eq_ok.mp h).flip ha

theorem mapM_error_iff {β : Type*} {f : α → Except ε β} {l : List α} :
    (∃ e, l.mapM f = .error e) ↔ ∃ a ∈ l, ∃ e, f a = .error e := by
  constructor
  · rintro ⟨e, he⟩
    by_contra hnone
    have hall : ∀ a ∈ l, ∃ b, f a = .ok b ∧ True := by
      intro a ha
      cases hf : f a with
      | ok b => exact ⟨b, rfl, trivial⟩
      | error e' => exact absurd ⟨a, ha, e', hf⟩ hnone
    obtain ⟨l', hl', -⟩ := mapM_total hall
    simp [he] at hl'
  · rintro ⟨a, ha, e, he⟩
    cases hl : l.mapM f with
    | error e' => exact ⟨e', rfl⟩
    | ok l' =>
      obtain ⟨b, -, hb⟩ := mapM_each hl ha
      simp [he] at hb

theorem forM_eq_ok {α : Type} {f : α → Except ε PUnit} {l : List α} :
    l.forM f = .ok ⟨⟩ ↔ ∀ a ∈ l, f a = .ok ⟨⟩ := by
  induction l with
  | nil => simp [List.forM]
  | cons a l ih =>
    have hcons : (a :: l).forM f = (f a).bind fun _ => l.forM f := rfl
    rw [hcons, bind_eq_ok, List.forall_mem_cons, ← ih]
    constructor
    · rintro ⟨⟨⟩, ha, hl⟩
      exact ⟨ha, hl⟩
    · rintro ⟨ha, hl⟩
      exact ⟨⟨⟩, ha, hl⟩

theorem zipIdx_forM_eq_ok {α : Type} {f : α × Nat → Except ε PUnit} {l : List α} {a : α}
    (run : l.zipIdx.forM f = .ok ⟨⟩) (h : a ∈ l) : ∃ i, f (a, i) = .ok ⟨⟩ := by
  obtain ⟨i, hi⟩ := List.mem_iff_getElem?.mp h
  exact ⟨i, forM_eq_ok.mp run _ (List.mk_mem_zipIdx_iff_getElem?.mpr hi)⟩

section Runs

variable (step : σ → γ → σ → Prop)

/-- The runs of a labelled step relation, with the labels in the order taken. -/
inductive Run (s : σ) : List γ → σ → Prop
  | nil : Run s [] s
  | snoc {m s' : σ} {es : List γ} {e : γ} : Run s es m → step m e s' → Run s (es ++ [e]) s'

variable {step}

theorem Run.cons {s m s' : σ} {e : γ} {es : List γ} (first : step s e m)
    (run : Run step m es s') : Run step s (e :: es) s' := by
  induction run with
  | nil =>
    have hnil : Run step s [] s := .nil
    exact hnil.snoc first
  | snoc _ last ih => exact .snoc ih last

/-- An invariant of the step is an invariant of the run. -/
theorem Run.invariant {I : σ → Prop} (keeps : ∀ s e s', I s → step s e s' → I s')
    {s s' : σ} {es : List γ} (run : Run step s es s') (start : I s) : I s' := by
  induction run with
  | nil => exact start
  | snoc _ hstep ih => exact keeps _ _ _ ih hstep

theorem Run.labelled {I : List γ → σ → Prop}
    (keeps : ∀ es s e s', I es s → step s e s' → I (es ++ [e]) s')
    {s s' : σ} {es : List γ} (run : Run step s es s') (start : I [] s) : I es s' := by
  induction run with
  | nil => exact start
  | snoc _ hstep ih => exact keeps _ _ _ _ ih hstep

theorem Run.mono {step' : σ → γ → σ → Prop} (sub : ∀ s e s', step s e s' → step' s e s')
    {s s' : σ} {es : List γ} (run : Run step s es s') : Run step' s es s' := by
  induction run with
  | nil => exact .nil
  | snoc _ hstep ih => exact .snoc ih (sub _ _ _ hstep)

end Runs

end DemosSched.Fallible
