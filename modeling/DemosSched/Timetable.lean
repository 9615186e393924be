import Mathlib.Algebra.BigOperators.Group.List.Basic
import DemosSched.Bystanders

/-! The timetable a configuration stands for: when its windows start, which SC
processes start in them and when, and when the BE phase begins. -/

namespace DemosSched

namespace Config

variable (c : Config)

/-- The budgets of the first `j` processes of partition `k` together. -/
def offset (k j : Nat) : Int := ((List.range j).map fun m => (c.process ⟨k, m⟩).budget).sum

/-- The budgets of the SC partition of slice `i` together; 0 if it has none. -/
def scTotal (i : SliceId) : Int :=
  match c.role true i with
  | none => 0
  | some k => c.offset k (c.processCount k)

/-- The lengths of `m` windows in the order of the cycle together. -/
def windowOffset (m : Nat) : Int :=
  ((List.range m).map fun l => (c.window (l % c.windows.length)).length).sum

/-- The start of process `j` of partition `k` in a window started at `u`. -/
def scStart (i : SliceId) (k : Nat) (u : Int) (j : Nat) : Action :=
  .started i ⟨k, j⟩ (u + c.offset k j * nsPerMs) (c.process ⟨k, j⟩).budget

def slicePlan (i : SliceId) (k : Nat) (u : Int) : List Action :=
  ((List.range (c.processCount k)).filter fun j =>
    c.offset k j < (c.window i.window).length).map (c.scStart i k u)

def LatestEnd (w : Nat) (E : Int) : Prop := IsGreatest {x | ∃ i ∈ c.sliceIds w, c.scTotal i = x} E

variable {c}

theorem offset_zero (k : Nat) : c.offset k 0 = 0 := rfl

theorem offset_succ (k j : Nat) : c.offset k (j + 1) = c.offset k j + (c.process ⟨k, j⟩).budget := by
  simp [offset, List.range_succ]

theorem windowOffset_succ (m : Nat) : c.windowOffset (m + 1) =
    c.windowOffset m + (c.window (m % c.windows.length)).length := by
  simp [windowOffset, List.range_succ]

theorem offset_le {k i j : Nat} (h : i ≤ j) : c.offset k i ≤ c.offset k j := by
  induction h with
  | refl => exact le_rfl
  | @step j _ ih =>
    have hpos := (c.process ⟨k, j⟩).budget_pos
    rw [offset_succ]
    omega

theorem scTotal_eq {i : SliceId} {k : Nat} (h : c.role true i = some k) :
    c.scTotal i = c.offset k (c.processCount k) := by
  simp [scTotal, h]

theorem filter_range_eq {k j : Nat} {length : Int} (before : c.offset k j < length) :
    (List.range (j + 1)).filter (fun l => decide (c.offset k l < length)) =
      List.range (j + 1) := by
  rw [List.filter_eq_self]
  intro l hl
  have hle : c.offset k l ≤ c.offset k j := offset_le (by rw [List.mem_range] at hl; omega)
  exact decide_eq_true (by omega)

theorem prefix_slicePlan {i : SliceId} {k j : Nat} (u : Int) (hj : j < c.processCount k)
    (before : c.offset k j < (c.window i.window).length) :
    (List.range (j + 1)).map (c.scStart i k u) <+: c.slicePlan i k u := by
  obtain ⟨r, hr⟩ : ∃ r, c.processCount k = j + 1 + r := ⟨c.processCount k - (j + 1), by omega⟩
  rw [slicePlan, hr, List.range_add (n := j + 1), List.filter_append, filter_range_eq before,
    List.map_append]
  exact List.prefix_append _ _

theorem slicePlan_eq {i : SliceId} {k j : Nat} (u : Int) (hj : j < c.processCount k)
    (before : c.offset k j < (c.window i.window).length)
    (after : j + 1 < c.processCount k → (c.window i.window).length ≤ c.offset k (j + 1)) :
    c.slicePlan i k u = (List.range (j + 1)).map (c.scStart i k u) := by
  obtain ⟨r, hr⟩ : ∃ r, c.processCount k = j + 1 + r := ⟨c.processCount k - (j + 1), by omega⟩
  have hrest : ((List.range r).map (j + 1 + ·)).filter (fun m =>
      decide (c.offset k m < (c.window i.window).length)) = [] := by
    rw [List.filter_eq_nil_iff]
    intro m hm
    obtain ⟨e, he, rfl⟩ := List.mem_map.mp hm
    rw [List.mem_range] at he
    have hle : c.offset k (j + 1) ≤ c.offset k (j + 1 + e) := offset_le (by omega)
    have hafter := after (by omega)
    simpa using by omega
  rw [slicePlan, hr, List.range_add, List.filter_append, filter_range_eq before, hrest,
    List.append_nil]

theorem slicePlan_all {i : SliceId} {k j : Nat} (u : Int) (hj : j + 1 = c.processCount k)
    (before : c.offset k j < (c.window i.window).length) :
    c.slicePlan i k u = (List.range (c.processCount k)).map (c.scStart i k u) := by
  rw [slicePlan_eq u (by omega) before (by omega), hj]

end Config

namespace Action

def starts (k : Nat) : List Action → List Action
  | [] => []
  | .windowStarted _ _ :: _ => []
  | .started i p t b :: h => if p.part = k then .started i p t b :: starts k h else starts k h
  | _ :: h => starts k h

def beStarts : List Action → List Int
  | [] => []
  | .windowStarted _ _ :: _ => []
  | .beStarted _ t :: h => t :: beStarts h
  | _ :: h => beStarts h

def windowStarts : List Action → List (Nat × Int)
  | [] => []
  | .windowStarted w u :: h => (w, u) :: windowStarts h
  | _ :: h => windowStarts h

def Planned (c : Config) (k w : Nat) (u : Int) (h : List Action) : Prop :=
  (∀ i ∈ c.sliceIds w, c.role true i = some k → starts k h = (c.slicePlan i k u).reverse) ∧
    ((∀ i ∈ c.sliceIds w, c.role true i ≠ some k) → starts k h = [])

def BePlanned (c : Config) (w : Nat) (u : Int) (h : List Action) : Prop :=
  (∀ E, c.LatestEnd w E →
    beStarts h = if E < (c.window w).length then [u + E * nsPerMs] else []) ∧
  (c.sliceIds w = [] → beStarts h = [])

variable {k : Nat} {a : Action} (l : List Action)

theorem starts_foreign (ha : a.Foreign k) : starts k (a :: l) = starts k l := by
  cases a with
  | started i p t b => exact if_neg ha
  | windowStarted w u => exact absurd ha id
  | _ => rfl

theorem current_foreign (ha : a.Foreign k) : current (a :: l) = current l := by
  cases a with
  | windowStarted w u => exact absurd ha id
  | _ => rfl

end Action

end DemosSched
