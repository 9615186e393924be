import DemosSched.Bystanders

/-! The time granted to a process since it was last started with its full budget.
What a process has been granted, what is stored for it and what is left of its current
run add up to its budget. -/

namespace DemosSched

namespace Action

variable (c : Config) (p : ProcessId)

def startTime : List Action → Int
  | [] => 0
  | .started _ q t _ :: h => if q = p then t else startTime h
  | _ :: h => startTime h

/-- The time granted to `p` since its last start with the full budget, if there was one. -/
def granted : List Action → Option Int
  | [] => none
  | .started _ q _ b :: h =>
    if q = p ∧ b = (c.process p).budget then some 0 else granted h
  | .stopped _ q t _ :: h =>
    if q = p then (granted h).map (· + (t - startTime p h)) else granted h
  | _ :: h => granted h

variable {c p}

theorem startTime_foreign {a : Action} (l : List Action) (ha : a.Foreign p.part) :
    startTime p (a :: l) = startTime p l := by
  cases a with
  | started i q t b =>
    have hne : q ≠ p := fun h => ha (h ▸ rfl)
    simp [startTime, hne]
  | _ => rfl

theorem granted_foreign {a : Action} (l : List Action) (ha : a.Foreign p.part) :
    granted c p (a :: l) = granted c p l := by
  cases a with
  | started i q t b =>
    have hne : q ≠ p := fun h => ha (h ▸ rfl)
    simp [granted, hne]
  | stopped i q t mark =>
    have hne : q ≠ p := fun h => ha (h ▸ rfl)
    simp [granted, hne]
  | _ => rfl

end Action

/-- How the time granted to `p` stands; timers expire whole milliseconds from `t₀`. -/
inductive State.Account (c : Config) (t₀ : Int) (p : ProcessId) (s : State) : Prop
  | full (idle : ∀ i, (s.slice i).runningProcess ≠ some p)
      (stored : (s.process p).actualBudget = (c.process p).budget)
      (paid : ∀ g, Action.granted c p s.history = some g → g = (c.process p).budget * nsPerMs)
  | cut (idle : ∀ i, (s.slice i).runningProcess ≠ some p)
      (stored : (s.process p).actualBudget < (c.process p).budget)
      (owed : Action.granted c p s.history =
        some (((c.process p).budget - (s.process p).actualBudget) * nsPerMs))
  | running (i : SliceId) (running : (s.slice i).runningProcess = some p)
      (stored : (s.process p).actualBudget = (c.process p).budget)
      (spent : Action.granted c p s.history = some ((c.process p).budget * nsPerMs -
        ((s.slice i).timeout - Action.startTime p s.history)))
      (aligned : nsPerMs ∣ (s.slice i).timeout - t₀)

namespace State.Account

variable {c : Config} {t₀ : Int} {p : ProcessId} {s s' : State}

theorem congr (h : s.Account c t₀ p)
    (stored : (s'.process p).actualBudget = (s.process p).actualBudget)
    (running : ∀ i, (s'.slice i).runningProcess = some p ↔ (s.slice i).runningProcess = some p)
    (timeout : ∀ i, (s.slice i).runningProcess = some p → (s'.slice i).timeout = (s.slice i).timeout)
    (granted : Action.granted c p s'.history = Action.granted c p s.history)
    (start : Action.startTime p s'.history = Action.startTime p s.history) :
    s'.Account c t₀ p := by
  cases h with
  | full idle full paid =>
    exact .full (fun i hi => idle i ((running i).mp hi)) (stored.trans full) (by rwa [granted])
  | cut idle lt owed =>
    exact .cut (fun i hi => idle i ((running i).mp hi)) (by rwa [stored]) (by rw [granted, stored, owed])
  | running i hi full spent aligned =>
    exact .running i ((running i).mpr hi) (stored.trans full)
      (by rw [granted, timeout i hi, start, spent]) (by rwa [timeout i hi])

theorem apart (h : s.Account c t₀ p) (apart : s.Apart p.part s') : s'.Account c t₀ p :=
  h.congr (apart.stored p.index) (fun i => apart.running i p.index)
    (fun i hi => apart.timeout i p.index ((apart.running i p.index).mpr hi))
    (apart.grows.fixed fun _ l ha => Action.granted_foreign l ha)
    (apart.grows.fixed fun _ l ha => Action.startTime_foreign l ha)

variable {i : SliceId} {q : ProcessId} {t : Int}

theorem apart_released (h : s.Account c t₀ p) : (s.released c i).Account c t₀ p :=
  h.apart State.Apart.released

theorem stopped_other (h : s.Account c t₀ p) (ne : q ≠ p)
    (running : (s.slice i).runningProcess = some q) (mark : Bool) :
    (s.stopped i q t mark).Account c t₀ p := by
  refine h.congr (by simp [ne.symm]) (fun _ => State.stopped_running_other running ne)
    (fun _ _ => State.stopped_timeout) ?_ ?_
  · simp [Action.granted, ne]
  · simp [Action.startTime]

theorem stopped (h : s.Account c t₀ p) (running : (s.slice i).runningProcess = some p)
    (only : ∀ l, (s.slice l).runningProcess = some p → l = i) (due : (s.slice i).timeout = t) :
    (s.stopped i p t true).Account c t₀ p := by
  have hidle : ∀ l, ((s.stopped i p t true).slice l).runningProcess ≠ some p := by
    intro l hl
    obtain ⟨hli, hl⟩ := State.stopped_running.mp hl
    exact hli (only l hl)
  cases h with
  | full idle => exact absurd running (idle i)
  | cut idle => exact absurd running (idle i)
  | running j hj stored spent =>
    obtain rfl := only j hj
    refine .full hidle (by simpa using stored) fun g hg => ?_
    have hsum : Action.granted c p (s.stopped j p t true).history =
        some ((c.process p).budget * nsPerMs) := by
      simp only [State.stopped_history, Action.granted, if_true, spent, Option.map_some, due]
      congr 1
      omega
    rw [hsum, Option.some.injEq] at hg
    exact hg.symm

theorem cutShort {r : Int} (h : s.Account c t₀ p) (running : (s.slice i).runningProcess = some p)
    (only : ∀ l, (s.slice l).runningProcess = some p → l = i) (lt : r < (c.process p).budget)
    (left : r * nsPerMs = (s.slice i).timeout - t) :
    ((s.shortened p r).stopped i p t false).Account c t₀ p := by
  cases h with
  | full idle => exact absurd running (idle i)
  | cut idle => exact absurd running (idle i)
  | running j hj stored spent =>
    obtain rfl := only j hj
    refine .cut (fun l hl => ?_) (by simpa using lt) ?_
    · obtain ⟨hli, hl⟩ := State.stopped_running.mp hl
      exact hli (only l hl)
    · have hgranted : Action.granted c p (.shortened p r :: s.history) =
          Action.granted c p s.history := rfl
      have hstart : Action.startTime p (.shortened p r :: s.history) =
          Action.startTime p s.history := rfl
      simp only [State.stopped_history, State.shortened_history, Action.granted, hstart, if_true,
        State.stopped_process, State.shortened_process, Function.update_self]
      rw [spent, Option.map_some, Int.sub_mul, left]
      congr 1
      omega

theorem picked_other (h : s.Account c t₀ p) (ne : q ≠ p)
    (idle : (s.slice i).runningProcess = none) : (s.picked c i q t).Account c t₀ p := by
  have hrecords : Action.granted c p (s.picked c i q t).history = Action.granted c p s.history ∧
      Action.startTime p (s.picked c i q t).history = Action.startTime p s.history := by
    obtain ⟨older, hh, holder⟩ := s.picked_records c i q t
    have hsame : Action.granted c p older = Action.granted c p s.history ∧
        Action.startTime p older = Action.startTime p s.history := by
      rcases holder with rfl | ⟨o, rfl⟩
      · exact ⟨rfl, rfl⟩
      · exact ⟨rfl, rfl⟩
    rw [hh]
    simpa [Action.granted, Action.startTime, ne] using hsame
  refine h.congr ?_ (fun l => ?_) (fun l hl => ?_) hrecords.1 hrecords.2
  · rw [State.picked_process, Function.update_of_ne ne.symm]
  · exact s.picked_running_other c i q t ne (by simp [idle])
  · refine s.picked_timeout c i q t ?_
    rintro rfl
    simp [idle] at hl

theorem picked (h : s.Account c t₀ p) (unique : ∀ l, (s.slice l).runningProcess ≠ some p)
    (aligned : nsPerMs ∣ t - t₀) : (s.picked c i p t).Account c t₀ p := by
  have hstored : ((s.picked c i p t).process p).actualBudget = (c.process p).budget := by
    rw [State.picked_process, Function.update_self]
  have hrun : ((s.picked c i p t).slice i).runningProcess = some p := by
    rw [State.picked_slice, Function.update_self]
  have htimeout : ((s.picked c i p t).slice i).timeout =
      t + (s.process p).actualBudget * nsPerMs := by
    rw [State.picked_slice, Function.update_self]
  have haligned : nsPerMs ∣ ((s.picked c i p t).slice i).timeout - t₀ := by
    rw [htimeout, show t + (s.process p).actualBudget * nsPerMs - t₀ =
      t - t₀ + (s.process p).actualBudget * nsPerMs by omega]
    exact Int.dvd_add aligned (Int.dvd_mul_left _ _)
  obtain ⟨older, hh, holder⟩ := s.picked_records c i p t
  have hsame : Action.granted c p older = Action.granted c p s.history := by
    rcases holder with rfl | ⟨o, rfl⟩
    · rfl
    · rfl
  have hstart : Action.startTime p (s.picked c i p t).history = t := by
    rw [hh]
    simp [Action.startTime]
  refine .running i hrun hstored ?_ haligned
  rw [hstart, htimeout, hh]
  cases h with
  | full idle stored =>
    simp only [Action.granted, stored, and_self, if_true]
    congr 1
    omega
  | cut idle lt owed =>
    simp only [Action.granted, lt.ne, and_false, if_false, hsame, owed]
    congr 1
    rw [Int.sub_mul]
    omega
  | running j hj => exact absurd hj (unique j)

theorem aligned_of (h : s.Account c t₀ p) (running : (s.slice i).runningProcess = some p)
    (only : ∀ l, (s.slice l).runningProcess = some p → l = i) :
    nsPerMs ∣ (s.slice i).timeout - t₀ := by
  cases h with
  | full idle => exact absurd running (idle i)
  | cut idle => exact absurd running (idle i)
  | running j hj stored spent aligned =>
    obtain rfl := only j hj
    exact aligned

end State.Account

end DemosSched
