import DemosSched.NormalForm
import DemosSched.Process

/-! The check of a jitter against its budget when a process definition is read, and
the budgets that are drawn within it. The check multiplies two `int`s, the draws
are made in the arithmetic of `long`. -/

namespace DemosSched

open Yaml Fallible

variable {δ : Type} {y : Conversions δ}

/-- The process can be constructed, and what an uninterrupted one is given lies within
half the jitter on each side of its budget. -/
structure DrawsBounded (budget jitter : Int) : Prop where
  constructed : ∃ d : ProcessDef, d.budget = budget ∧ d.jitter = jitter
  drawn : ∀ (c : Config) (p : ProcessId) (s : State), (c.process p).budget = budget →
    (c.process p).jitter = jitter → (s.process p).actualBudget = budget →
      ∃ actual s', Process.getActualBudget c p s = .ok (actual, s') ∧
        budget - jitter / 2 ≤ actual ∧ actual ≤ budget + (jitter + 1) / 2 ∧ 0 ≤ actual

variable (y) in
/-- A definition with this budget and jitter is accepted for the jitters that cannot
make the budget negative, and its draws are bounded. -/
def JitterBounds (proc : Node) (defaultBudget : Single) (budget jitter : Int) : Prop :=
  ((∃ np, normalizeProcess y proc defaultBudget = .ok np) ↔ jitter ≤ 2 * budget) ∧
    ((∃ np, normalizeProcess y proc defaultBudget = .ok np) → DrawsBounded budget jitter)

theorem drawsBounded_of_le {budget jitter : Int} (pos : 0 < budget) (nonneg : 0 ≤ jitter)
    (le : jitter ≤ 2 * budget) : DrawsBounded budget jitter := by
  refine ⟨⟨⟨"", budget, jitter, none, false, pos, nonneg, le⟩, rfl, rfl⟩, ?_⟩
  intro c p s hbudget hjitter hactual
  have hbounds := Process.jitterOffset_bounds nonneg (s.gen 0)
  rw [Process.getActualBudget, if_neg (by rw [hbudget, hactual]; simp), hjitter, hactual,
    if_pos (by omega)]
  exact ⟨_, _, rfl, by omega, by omega, by omega⟩

theorem ReadProcess.find_time {proc : Node} {f : Fields} (h : ReadProcess y proc f) {k : String}
    (key : k = "budget" ∨ k = "jitter") {n : Int} (given : y.asInt (proc.find k) = .ok n) :
    f.find k = some (y.int n) := by
  have hne : k ≠ "cmd" := by rcases key with rfl | rfl <;> decide
  have hhas : f.has k = true := by
    rw [h.given k hne, Node.has]
    cases hfind : proc.find k with
    | none =>
      rw [hfind] at given
      cases given
    | some v => rfl
  obtain ⟨v, hv⟩ := Option.isSome_iff_exists.mp hhas
  have hvalue := h.value k v hne hv
  have hread : ∃ m, y.asInt (proc.find k) = .ok m ∧ v = y.int m := by
    rcases key with rfl | rfl
    · exact processField_budget hvalue
    · exact processField_jitter hvalue
  obtain ⟨m, hm, rfl⟩ := hread
  rw [hv, Except.ok.inj (hm.symm.trans given)]

/-- The product of the check overflows from a budget of 2^30 on. -/
theorem normalizeProcess_accepts_iff (inv : y.Inverts) {proc : Node} {d : Single}
    {budget jitter : Int} (readable : ∃ f, readProcess y proc = .ok f)
    (budgetGiven : y.asInt (proc.find "budget") = .ok budget)
    (jitterGiven : y.asInt (proc.find "jitter") = .ok jitter)
    (pos : 0 < budget) (nonneg : 0 ≤ jitter) :
    (∃ np, normalizeProcess y proc d = .ok np) ↔ budget < 2 ^ 30 ∧ jitter ≤ 2 * budget := by
  obtain ⟨f, hread⟩ := readable
  have hf := readProcess_ok inv hread
  have hbint := inv.isInt_of_asInt budgetGiven
  have hjint := inv.isInt_of_asInt jitterGiven
  have hfindb := hf.find_time (.inl rfl) budgetGiven
  have hfindj := hf.find_time (.inr rfl) jitterGiven
  have hhasb : f.has "budget" = true := by simp [Fields.has, hfindb]
  have hhasj : f.has "jitter" = true := by simp [Fields.has, hfindj]
  have hcheck : checkBudget y f = .ok budget :=
    (checkBudget_ok inv hbint hfindb).mpr ⟨rfl, pos⟩
  have hmul := intMul_two hbint pos nonneg
  simp only [normalizeProcess, hread, bind_def, bind_ok, setDefaultBudget, if_pos hhasb, pure_def,
    hcheck, checkJitter, if_pos hhasj, hfindj, inv.asInt_int hjint, if_neg (not_lt.mpr nonneg)]
  split
  case isTrue hlt =>
    simp only [throw_def, bind_error, reduceCtorEq, exists_false, false_iff]
    exact fun hle => absurd (hmul.mpr hle) (by omega)
  case isFalse hle =>
    simp only [bind_ok, Except.ok.injEq, exists_eq', true_iff]
    exact hmul.mp (by omega)

/-- The check is exact, and the draws bounded, for the budgets below 2^30. -/
theorem jitter_bounds_iff (y : Conversions δ) (inv : y.Inverts) (proc : Node) (d : Single)
    (budget jitter : Int) (readable : ∃ f, readProcess y proc = .ok f)
    (budgetGiven : y.asInt (proc.find "budget") = .ok budget)
    (jitterGiven : y.asInt (proc.find "jitter") = .ok jitter)
    (pos : 0 < budget) (nonneg : 0 ≤ jitter) :
    JitterBounds y proc d budget jitter ↔ budget < 2 ^ 30 := by
  have haccepts := normalizeProcess_accepts_iff (d := d) inv readable budgetGiven jitterGiven
    pos nonneg
  rw [JitterBounds, haccepts]
  constructor
  · rintro ⟨hexact, -⟩
    by_contra hlarge
    have hjint := inv.isInt_of_asInt jitterGiven
    unfold IsInt at hjint
    exact hlarge (hexact.mpr (by omega)).1
  · intro hsmall
    exact ⟨⟨fun h => h.2, fun h => ⟨hsmall, h⟩⟩, fun h => drawsBounded_of_le pos nonneg h.2⟩

/-- `{cmd: echo, budget: <budget>, jitter: <jitter>}`. -/
def jitteredProcess (budget jitter : String) : Node :=
  .map [(.scalar "cmd", .scalar "echo"), (.scalar "budget", .scalar budget),
    (.scalar "jitter", .scalar jitter)]

theorem jitter_bounds_odd : JitterBounds Conversions.decimal (jitteredProcess "50" "99") .nan 50 99 :=
  (jitter_bounds_iff Conversions.decimal Conversions.decimal_inverts _ _ 50 99
    ⟨_, rfl⟩ (by decide) (by decide) (by decide) (by decide)).mpr (by decide)

/-- Twice 2^30 is negative as an `int`. -/
theorem jitter_bounds_overflow :
    ¬ JitterBounds Conversions.decimal (jitteredProcess "1073741824" "0") .nan 1073741824 0 := by
  have hrejected : (normalizeProcess Conversions.decimal (jitteredProcess "1073741824" "0")
      .nan).toOption.isNone = true := by decide
  rintro ⟨hexact, -⟩
  obtain ⟨np, hnp⟩ := hexact.mpr (by decide)
  rw [hnp] at hrejected
  cases hrejected

end DemosSched
