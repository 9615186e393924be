import Mathlib.Init

/-! Computations that change a state and may throw. What has been changed stays changed, so
what holds after an exception is stated beside what holds of the result. -/

namespace DemosSched

/-- The state is kept when an exception is thrown. -/
abbrev Raising (ε σ : Type) := ExceptT ε (StateM σ)

namespace Raising

variable {ε σ α β : Type} {s : σ}

def Ends (f : Raising ε σ α) (s : σ) (ok : α → σ → Prop) (thrown : ε → σ → Prop) : Prop :=
  (∀ a s', f.run s = (.ok a, s') → ok a s') ∧ ∀ x s', f.run s = (.error x, s') → thrown x s'

variable {f : Raising ε σ α} {g : α → Raising ε σ β} {ok ok' : α → σ → Prop} {next : β → σ → Prop}
  {thrown thrown' : ε → σ → Prop}

theorem ends_pure {a : α} (h : ok a s) : Ends (pure a) s ok thrown := by
  refine ⟨fun b s' hrun => ?_, fun x s' hrun => ?_⟩
  · cases hrun
    exact h
  · cases hrun

theorem ends_bind (h : Ends f s (fun a s' => Ends (g a) s' next thrown) thrown) :
    Ends (f >>= g) s next thrown := by
  have hbind : ∀ r, f.run s = r → (f >>= g).run s =
      (ExceptT.bindCont g r.1 : StateM σ (Except ε β)) r.2 := by
    rintro r rfl
    rfl
  rcases hrun : f.run s with ⟨x | a, s'⟩
  · refine ⟨fun b t ht => ?_, fun y t ht => ?_⟩
    · rw [hbind _ hrun] at ht
      cases ht
    · rw [hbind _ hrun] at ht
      cases ht
      exact h.2 x s' hrun
  · have hnext := h.1 a s' hrun
    refine ⟨fun b t ht => ?_, fun y t ht => ?_⟩
    · rw [hbind _ hrun] at ht
      exact hnext.1 b t ht
    · rw [hbind _ hrun] at ht
      exact hnext.2 y t ht

theorem ends_get {ok : σ → σ → Prop} (h : ok s s) : Ends get s ok thrown := by
  refine ⟨fun a s' hrun => ?_, fun x s' hrun => ?_⟩
  · cases hrun
    exact h
  · cases hrun

theorem ends_set {s' : σ} {ok : PUnit → σ → Prop} (h : ok ⟨⟩ s') : Ends (set s') s ok thrown := by
  refine ⟨fun a t hrun => ?_, fun x t hrun => ?_⟩
  · cases hrun
    exact h
  · cases hrun

theorem ends_throw {x : ε} (h : thrown x s) : Ends (throw x : Raising ε σ α) s ok thrown := by
  refine ⟨fun a s' hrun => ?_, fun y s' hrun => ?_⟩
  · cases hrun
  · cases hrun
    exact h

theorem ends_tryCatch {handler : ε → Raising ε σ α}
    (h : Ends f s ok fun x s' => Ends (handler x) s' ok thrown) :
    Ends (tryCatch f handler) s ok thrown := by
  rcases hrun : f.run s with ⟨x | a, s'⟩
  · have hcatch : (tryCatch f handler).run s = (handler x).run s' := by
      change f s = _ at hrun
      simp [tryCatch, tryCatchThe, MonadExceptOf.tryCatch, ExceptT.tryCatch, ExceptT.run, ExceptT.mk,
        bind, StateT.bind, hrun]
    exact ⟨fun b t ht => (h.2 x s' hrun).1 b t (hcatch ▸ ht),
      fun y t ht => (h.2 x s' hrun).2 y t (hcatch ▸ ht)⟩
  · have hcatch : (tryCatch f handler).run s = (.ok a, s') := by
      change f s = _ at hrun
      simp [tryCatch, tryCatchThe, MonadExceptOf.tryCatch, ExceptT.tryCatch, ExceptT.run, ExceptT.mk,
        bind, StateT.bind, hrun]
      rfl
    refine ⟨fun b t ht => ?_, fun y t ht => ?_⟩
    · rw [hcatch] at ht
      cases ht
      exact h.1 a s' hrun
    · rw [hcatch] at ht
      cases ht

theorem Ends.imp (h : Ends f s ok thrown) (hok : ∀ a s', ok a s' → ok' a s')
    (hthrown : ∀ x s', thrown x s' → thrown' x s') : Ends f s ok' thrown' :=
  ⟨fun a s' hrun => hok a s' (h.1 a s' hrun), fun x s' hrun => hthrown x s' (h.2 x s' hrun)⟩

end Raising

end DemosSched
