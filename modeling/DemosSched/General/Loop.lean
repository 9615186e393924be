import Mathlib.Init

/-! A loop that is left from inside its body. A pass over the body gives a result
or the state of the next pass; a loop without a result goes on for ever. -/

namespace DemosSched.Loop

variable {σ ρ : Type}

/-- At most `fuel` passes. -/
def run (body : σ → ρ ⊕ σ) : Nat → σ → Option ρ
  | 0, _ => none
  | fuel + 1, x =>
    match body x with
    | .inl r => some r
    | .inr y => run body fuel y

def Returns (body : σ → ρ ⊕ σ) (x : σ) (r : ρ) : Prop := ∃ fuel, run body fuel x = some r

variable {body : σ → ρ ⊕ σ} {x y : σ} {r r' : ρ}

theorem returns_inl (h : body x = .inl r) : Returns body x r := ⟨1, by simp [run, h]⟩

theorem returns_inr (h : body x = .inr y) : Returns body x r ↔ Returns body y r := by
  constructor
  · rintro ⟨fuel, hrun⟩
    cases fuel with
    | zero => simp [run] at hrun
    | succ fuel => exact ⟨fuel, by simpa [run, h] using hrun⟩
  · rintro ⟨fuel, hrun⟩
    exact ⟨fuel + 1, by simpa [run, h] using hrun⟩

theorem Returns.unique (h : Returns body x r) (h' : Returns body x r') : r = r' := by
  obtain ⟨fuel, hrun⟩ := h
  induction fuel generalizing x with
  | zero => simp [run] at hrun
  | succ fuel ih =>
    cases hbody : body x with
    | inl a =>
      have hr : a = r := by simpa [run, hbody] using hrun
      obtain ⟨fuel', hrun'⟩ := h'
      cases fuel' with
      | zero => simp [run] at hrun'
      | succ fuel' =>
        have hr' : a = r' := by simpa [run, hbody] using hrun'
        exact hr.symm.trans hr'
    | inr y => exact ih ((returns_inr hbody).mp h') (by simpa [run, hbody] using hrun)

theorem returns_along {f : Nat → σ} {d : Nat} (passes : ∀ e < d, body (f e) = .inr (f (e + 1)))
    (last : body (f d) = .inl r) : Returns body (f 0) r := by
  induction d generalizing f with
  | zero => exact returns_inl last
  | succ d ih =>
    rw [returns_inr (passes 0 d.succ_pos)]
    exact ih (f := fun e => f (e + 1)) (fun e he => passes (e + 1) (by omega)) last

/-- A loop that keeps to states in which it goes on has no result. -/
theorem Returns.not_of_forever {I : σ → Prop} (forever : ∀ x, I x → ∃ y, body x = .inr y ∧ I y)
    (start : I x) : ¬Returns body x r := by
  rintro ⟨fuel, hrun⟩
  induction fuel generalizing x with
  | zero => simp [run] at hrun
  | succ fuel ih =>
    obtain ⟨y, hbody, hy⟩ := forever x start
    exact ih hy (by simpa [run, hbody] using hrun)

end DemosSched.Loop
