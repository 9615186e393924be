import DemosSched.General.CyclicService
import DemosSched.WindowTurns

/-! The BE part of the timetable: how much time the windows leave to a BE partition, and
which of its processes start in them, when and with how much of their budgets. -/

namespace DemosSched

open CyclicService

namespace Config

variable (c : Config)

/-- When the last SC partition of window `w` ends, from the start of the window on. -/
def scEnd (w : Nat) : Int := ((c.sliceIds w).map c.scTotal).foldr max 0

def sliceOf (sc : Bool) (k w : Nat) : Option SliceId :=
  (c.sliceIds w).find? fun i => decide (c.role sc i = some k)

/-- The time window `w` leaves to BE partition `k`. -/
def beTime (k w : Nat) : Int :=
  if (c.sliceOf false k w).isSome then max 0 ((c.window w).length - c.scEnd w) else 0

def budgets (k j : Nat) : Int := (c.process ⟨k, j⟩).budget

/-- The process of BE partition `k` whose turn it is in the `m`-th window, and what is left
of its budget. -/
def bePosition (k : Nat) : Nat → Position :=
  positions (c.processCount k) (c.budgets k) (fun m => c.beTime k (m % c.windows.length))
    ⟨0, c.budgets k 0⟩

/-- The `e`-th start in a window begun at `u` in which the processes stand at `p`. -/
def beStart (i : SliceId) (k : Nat) (u : Int) (p : Position) (e : Nat) : Action :=
  .started i ⟨k, p.nth (c.processCount k) e⟩
    (u + (c.scEnd i.window + p.demand (c.processCount k) (c.budgets k) e) * nsPerMs)
    (p.need (c.processCount k) (c.budgets k) e)

/-- The starts of BE partition `k` in the `m`-th window, begun at `u`. -/
def beWindow (k m : Nat) (u : Int) : List Action :=
  match c.sliceOf false k (m % c.windows.length) with
  | none => []
  | some i => ((c.bePosition k m).started (c.processCount k) (c.budgets k)
      (c.beTime k i.window)).map (c.beStart i k u (c.bePosition k m))

/-- The start of the `m`-th window of a schedule begun at `t₀`. -/
def windowStart (t₀ : Int) (m : Nat) : Int := t₀ + c.windowOffset m * nsPerMs

/-- The starts of BE partition `k` in the first `N` windows of a schedule begun at `t₀`. -/
def bePlan (t₀ : Int) (k N : Nat) : List Action :=
  (List.range N).flatMap fun m => c.beWindow k m (c.windowStart t₀ m)

variable {c} {k w m N : Nat} {t₀ u : Int} {i : SliceId}

theorem budgets_pos (k j : Nat) : 0 < c.budgets k j := (c.process ⟨k, j⟩).budget_pos

theorem bePlan_succ (t₀ : Int) (k N : Nat) : c.bePlan t₀ k (N + 1) =
    c.bePlan t₀ k N ++ c.beWindow k N (c.windowStart t₀ N) := by
  simp [bePlan, List.range_succ]

theorem bePosition_succ (k m : Nat) : c.bePosition k (m + 1) =
    (c.bePosition k m).after (c.processCount k) (c.budgets k)
      (c.beTime k (m % c.windows.length)) := rfl

theorem beTime_nonneg (k w : Nat) : 0 ≤ c.beTime k w := by
  unfold beTime
  split
  · exact le_max_left _ _
  · exact le_rfl

theorem bePosition_valid (k m : Nat) :
    (c.bePosition k m).Valid (c.processCount k) (c.budgets k) :=
  valid_positions (budgets_pos k) (fun _ => beTime_nonneg _ _)
    ⟨c.processCount_pos k, budgets_pos k 0, le_rfl⟩ m

theorem scTotal_nonneg (i : SliceId) : 0 ≤ c.scTotal i := by
  unfold scTotal
  split
  · exact le_rfl
  · exact offset_le (Nat.zero_le _)

theorem latestEnd_scEnd (member : i ∈ c.sliceIds w) : c.LatestEnd w (c.scEnd w) := by
  have hall : ∀ l : List SliceId, (∀ j ∈ l, c.scTotal j ≤ (l.map c.scTotal).foldr max 0) ∧
      (l ≠ [] → ∃ j ∈ l, c.scTotal j = (l.map c.scTotal).foldr max 0) := by
    intro l
    induction l with
    | nil => simp
    | cons a l ih =>
      obtain ⟨hle, hsome⟩ := ih
      refine ⟨fun j hj => ?_, fun _ => ?_⟩
      · rcases List.mem_cons.mp hj with rfl | hj
        · exact le_max_left _ _
        · exact (hle j hj).trans (le_max_right _ _)
      · rw [List.map_cons, List.foldr_cons]
        rcases le_total ((l.map c.scTotal).foldr max 0) (c.scTotal a) with h | h
        · exact ⟨a, List.mem_cons_self, (max_eq_left h).symm⟩
        · by_cases hl : l = []
          · have hpos := scTotal_nonneg (c := c) a
            exact ⟨a, List.mem_cons_self, by simp [hl, hpos]⟩
          · obtain ⟨j, hj, heq⟩ := hsome hl
            exact ⟨j, List.mem_cons_of_mem _ hj, heq.trans (max_eq_right h).symm⟩
  obtain ⟨hle, hsome⟩ := hall (c.sliceIds w)
  obtain ⟨j, hj, heq⟩ := hsome (List.ne_nil_of_mem member)
  refine ⟨⟨j, hj, heq⟩, ?_⟩
  rintro _ ⟨l, hl, rfl⟩
  exact hle l hl

theorem LatestEnd.eq_scEnd {E : Int} (h : c.LatestEnd w E) : E = c.scEnd w := by
  obtain ⟨⟨i, hi, -⟩, -⟩ := id h
  exact h.unique (latestEnd_scEnd hi)

theorem sliceOf_some {sc : Bool} (h : c.sliceOf sc k w = some i) :
    i ∈ c.sliceIds w ∧ c.role sc i = some k := by
  have hrole := List.find?_some h
  exact ⟨List.mem_of_find?_eq_some h, of_decide_eq_true hrole⟩

theorem sliceOf_none {sc : Bool} (h : c.sliceOf sc k w = none) :
    ∀ i ∈ c.sliceIds w, c.role sc i ≠ some k := by
  intro i hi
  have hnone := List.find?_eq_none.mp h i hi
  simpa using hnone

theorem sliceOf_eq {sc : Bool} (member : i ∈ c.sliceIds w) (role : c.role sc i = some k)
    (unique : ∀ j ∈ c.sliceIds w, c.role sc j = some k → j = i) : c.sliceOf sc k w = some i := by
  cases hfind : c.sliceOf sc k w with
  | none => exact absurd role (sliceOf_none hfind i member)
  | some j =>
    obtain ⟨hj, hrole⟩ := sliceOf_some hfind
    rw [unique j hj hrole]

theorem BeOnly.sliceOf (only : c.BeOnly k) (member : i ∈ c.sliceIds w)
    (role : c.role false i = some k) : c.sliceOf false k w = some i :=
  sliceOf_eq member role fun j hj hrole => (only w (window_lt hj) j hj).2 i member hrole role

theorem beTime_eq (h : c.sliceOf false k w = some i) (lt : c.scEnd w < (c.window w).length) :
    c.beTime k w = (c.window w).length - c.scEnd w := by
  rw [beTime, h, Option.isSome_some, if_pos rfl, max_eq_right (by omega)]

theorem beTime_pos (pos : 0 < c.beTime k w) : c.beTime k w = (c.window w).length - c.scEnd w := by
  unfold beTime at pos ⊢
  split at pos
  · next h =>
    rw [if_pos h]
    omega
  · simp at pos

theorem beTime_eq_zero (h : c.sliceOf false k w = none ∨ (c.window w).length ≤ c.scEnd w) :
    c.beTime k w = 0 := by
  unfold beTime
  rcases h with h | h
  · simp [h]
  · rw [max_eq_left (by omega), ite_self]

theorem beWindow_empty (h : c.beTime k (m % c.windows.length) = 0) (u : Int) :
    c.beWindow k m u = [] ∧ c.bePosition k (m + 1) = c.bePosition k m := by
  refine ⟨?_, by rw [bePosition_succ, h, Position.after_empty (budgets_pos k) (bePosition_valid k m)]⟩
  unfold beWindow
  split
  · rfl
  · next i hi =>
    have hwindow : i.window = m % c.windows.length := (c.mem_sliceIds.mp (sliceOf_some hi).1).1
    rw [hwindow, h, Position.started_empty (budgets_pos k) (bePosition_valid k m) le_rfl]
    rfl

theorem beWindow_eq (h : c.sliceOf false k (m % c.windows.length) = some i) (u : Int) :
    c.beWindow k m u = ((c.bePosition k m).started (c.processCount k) (c.budgets k)
      (c.beTime k i.window)).map (c.beStart i k u (c.bePosition k m)) := by
  rw [beWindow, h]

end Config

namespace Action

def startsOf (k : Nat) : List Action → List Action
  | [] => []
  | .started i p t b :: h => if p.part = k then .started i p t b :: startsOf k h else startsOf k h
  | _ :: h => startsOf k h

theorem startsOf_foreign {k : Nat} {a : Action} (l : List Action)
    (ha : a.Foreign k ∨ ∃ w u, a = .windowStarted w u) : startsOf k (a :: l) = startsOf k l := by
  rcases ha with ha | ⟨w, u, rfl⟩
  · cases a with
    | started i p t b => exact if_neg ha
    | _ => rfl
  · rfl

theorem startsOf_of_quiet {h : List Action} (quiet : ∀ a ∈ h, ¬a.Schedules) (k : Nat) :
    startsOf k h = [] := by
  induction h with
  | nil => rfl
  | cons a h ih =>
    rw [startsOf_foreign h (.inl (foreign_of_quiet (quiet a List.mem_cons_self) k))]
    exact ih fun b hb => quiet b (List.mem_cons_of_mem _ hb)

end Action

end DemosSched
