import DemosSched.Fairness
import DemosSched.General.CyclicService

/-! How the time of a BE partition is divided. At every moment of an undisturbed run its
processes have used up their budgets equally often but for one, and the time granted to
them is in proportion to their budgets but for one budget. -/

namespace DemosSched

open Fallible Relation

namespace Action

/-- How many budgets `p` has used up. -/
def turns (p : ProcessId) : List Action → Nat
  | [] => 0
  | .stopped _ q _ completed :: h =>
    if q = p ∧ completed = true then turns p h + 1 else turns p h
  | _ :: h => turns p h

variable {c : Config} {k : Nat} {p : ProcessId}

theorem turns_foreign {a : Action} (l : List Action) (ha : a.Foreign p.part) :
    turns p (a :: l) = turns p l := by
  cases a with
  | stopped i q t mark =>
    have hne : q ≠ p := fun h => ha (h ▸ rfl)
    simp [turns, hne]
  | _ => rfl

theorem timeGranted_foreign {a : Action} (l : List Action) (ha : a.Foreign p.part) :
    timeGranted p (a :: l) = timeGranted p l := by
  cases a with
  | stopped i q t mark =>
    have hne : q ≠ p := fun h => ha (h ▸ rfl)
    simp [timeGranted, hne]
  | _ => rfl

theorem granted_of_quiet {h : List Action} (quiet : ∀ a ∈ h, ¬a.Schedules) (p : ProcessId) :
    timeGranted p h = 0 ∧ turns p h = 0 := by
  induction h with
  | nil => exact ⟨rfl, rfl⟩
  | cons a h ih =>
    have ha := foreign_of_quiet (quiet a List.mem_cons_self) p.part
    rw [timeGranted_foreign h ha, turns_foreign h ha]
    exact ih fun b hb => quiet b (List.mem_cons_of_mem _ hb)

theorem TakesTurns.turns {h : List Action} (takes : TakesTurns c k h) :
    ∃ T, due c k h = T % c.processCount k ∧
      (∀ j < c.processCount k, Action.turns ⟨k, j⟩ h = CyclicService.turns (c.processCount k) T j) ∧
      ∀ j, runs k h = some j → j = due c k h := by
  have hpos := c.processCount_pos k
  induction h with
  | nil =>
    refine ⟨0, (Nat.zero_mod _).symm, fun j _ => ?_, fun j hj => by simp [runs] at hj⟩
    rw [CyclicService.turns_zero]
    rfl
  | cons a h ih =>
    cases a with
    | started i p t b =>
      obtain ⟨hstart, hrest⟩ := takes
      obtain ⟨T, hdue, hturns, hruns⟩ := ih hrest
      refine ⟨T, hdue, hturns, fun j hj => ?_⟩
      by_cases hp : p.part = k
      · rw [runs, if_pos hp, Option.some.injEq] at hj
        exact hj ▸ (hstart hp).2.1
      · rw [runs, if_neg hp] at hj
        exact hruns j hj
    | stopped i p t completed =>
      obtain ⟨hstop, hrest⟩ := takes
      obtain ⟨T, hdue, hturns, hruns⟩ := ih hrest
      by_cases hp : p.part = k
      · have hnone : ∀ j, runs k (.stopped i p t completed :: h) = some j →
            j = due c k (.stopped i p t completed :: h) := by
          intro j hj
          rw [runs, if_pos hp] at hj
          simp at hj
        have hindex : p.index = T % c.processCount k := (hruns _ (hstop hp).1).trans hdue
        cases completed with
        | false =>
          refine ⟨T, ?_, fun j hj => ?_, hnone⟩
          · rw [due, if_pos hp, if_neg (by simp), hindex]
          · rw [Action.turns, if_neg (by simp)]
            exact hturns j hj
        | true =>
          refine ⟨T + 1, ?_, fun j hj => ?_, hnone⟩
          · rw [due, if_pos hp, if_pos rfl, hindex,
              CyclicSearch.next_eq_mod (Nat.mod_lt _ hpos), Nat.mod_add_mod]
          · rw [Action.turns, CyclicService.turns_succ hj, ← hturns j hj, ← hindex]
            by_cases hj' : p = ⟨k, j⟩
            · have hp' : j = p.index := by rw [hj']
              rw [if_pos ⟨hj', rfl⟩, if_pos hp']
            · have hp' : j ≠ p.index := by
                rintro rfl
                exact hj' (hp ▸ rfl)
              rw [if_neg (fun h => hj' h.1), if_neg hp', Nat.add_zero]
      · refine ⟨T, ?_, fun j hj => ?_, fun j hj => ?_⟩
        · rw [due, if_neg hp, hdue]
        · have hne : p ≠ ⟨k, j⟩ := fun h => hp (h ▸ rfl)
          rw [Action.turns, if_neg fun h => hne h.1]
          exact hturns j hj
        · rw [runs, if_neg hp] at hj
          rw [due, if_neg hp]
          exact hruns j hj
    | _ => exact ih takes

end Action

/-- What `p` has been granted and what is left of its present turn are whole budgets. Only
the process whose turn it is may have been cut short. -/
inductive State.Share (c : Config) (p : ProcessId) (s : State) : Prop
  | waiting (idle : ∀ i, (s.slice i).runningProcess ≠ some p)
      (account : Action.timeGranted p s.history + (s.process p).actualBudget * nsPerMs =
        (Action.turns p s.history + 1) * ((c.process p).budget * nsPerMs))
      (cut : (s.process p).actualBudget < (c.process p).budget →
        Action.runs p.part s.history = none ∧ p.index = Action.due c p.part s.history)
  | running (i : SliceId) (running : (s.slice i).runningProcess = some p)
      (full : (s.process p).actualBudget = (c.process p).budget)
      (account : Action.timeGranted p s.history +
        ((s.slice i).timeout - Action.startTime p s.history) =
        (Action.turns p s.history + 1) * ((c.process p).budget * nsPerMs))
      (nonneg : 0 ≤ (s.slice i).timeout - Action.startTime p s.history)
      (le : (s.slice i).timeout - Action.startTime p s.history ≤ (c.process p).budget * nsPerMs)

namespace State.Share

variable {c : Config} {p q : ProcessId} {s s' : State} {i : SliceId} {t : Int}

theorem congr (h : s.Share c p)
    (stored : (s'.process p).actualBudget = (s.process p).actualBudget)
    (running : ∀ i, (s'.slice i).runningProcess = some p ↔ (s.slice i).runningProcess = some p)
    (timeout : ∀ i, (s.slice i).runningProcess = some p → (s'.slice i).timeout = (s.slice i).timeout)
    (granted : Action.timeGranted p s'.history = Action.timeGranted p s.history)
    (turns : Action.turns p s'.history = Action.turns p s.history)
    (start : Action.startTime p s'.history = Action.startTime p s.history)
    (cut : (s.process p).actualBudget < (c.process p).budget →
      Action.runs p.part s.history = none ∧ p.index = Action.due c p.part s.history →
      Action.runs p.part s'.history = none ∧ p.index = Action.due c p.part s'.history) :
    s'.Share c p := by
  cases h with
  | waiting idle account hcut =>
    refine .waiting (fun i hi => idle i ((running i).mp hi)) (by rw [granted, stored, turns, account])
      fun hlt => ?_
    rw [stored] at hlt
    exact cut hlt (hcut hlt)
  | running i hi full account nonneg le =>
    have htimeout := timeout i hi
    exact .running i ((running i).mpr hi) (stored.trans full) (by rw [granted, htimeout, start, turns, account])
      (by rw [htimeout, start]; exact nonneg) (by rw [htimeout, start]; exact le)

theorem apart (h : s.Share c p) (apart : s.Apart p.part s') : s'.Share c p := by
  have hruns : Action.runs p.part s'.history = Action.runs p.part s.history :=
    apart.grows.fixed fun _ l ha => Action.runs_foreign l ha
  have hdue : Action.due c p.part s'.history = Action.due c p.part s.history :=
    apart.grows.fixed fun _ l ha => Action.due_foreign l ha
  exact h.congr (apart.stored p.index) (fun i => apart.running i p.index)
    (fun i hi => apart.timeout i p.index ((apart.running i p.index).mpr hi))
    (apart.grows.fixed fun _ l ha => Action.timeGranted_foreign l ha)
    (apart.grows.fixed fun _ l ha => Action.turns_foreign l ha)
    (apart.grows.fixed fun _ l ha => Action.startTime_foreign l ha)
    fun _ h => by rwa [hruns, hdue]

theorem stopped (h : s.Share c p) (running : (s.slice i).runningProcess = some p)
    (only : ∀ l, (s.slice l).runningProcess = some p → l = i) (due : (s.slice i).timeout = t) :
    (s.stopped i p t true).Share c p := by
  cases h with
  | waiting idle => exact absurd running (idle i)
  | running j hj full account =>
    obtain rfl := only j hj
    have hstored : ((s.stopped j p t true).process p).actualBudget = (c.process p).budget := by
      simpa using full
    refine .waiting (fun l hl => ?_) ?_ fun hlt => by omega
    · obtain ⟨hlj, hl⟩ := State.stopped_running.mp hl
      exact hlj (only l hl)
    · rw [hstored]
      simp only [State.stopped_history, Action.timeGranted, Action.turns, if_true, and_self]
      push_cast
      rw [due] at account
      rw [Int.add_mul _ 1, ← account]
      omega

theorem cutShort {r : Int} (h : s.Share c p) (running : (s.slice i).runningProcess = some p)
    (only : ∀ l, (s.slice l).runningProcess = some p → l = i)
    (left : r * nsPerMs = (s.slice i).timeout - t) :
    ((s.shortened p r).stopped i p t false).Share c p := by
  cases h with
  | waiting idle => exact absurd running (idle i)
  | running j hj full account =>
    obtain rfl := only j hj
    refine .waiting (fun l hl => ?_) ?_ fun _ => ?_
    · obtain ⟨hlj, hl⟩ := State.stopped_running.mp hl
      exact hlj (only l hl)
    · have hstart : Action.startTime p (.shortened p r :: s.history) =
          Action.startTime p s.history := rfl
      simp only [State.stopped_history, State.shortened_history, Action.timeGranted, Action.turns,
        hstart, if_true, State.stopped_process, State.shortened_process, Function.update_self]
      simp only [Bool.false_eq_true, and_false, if_false]
      rw [left, ← account]
      omega
    · simp [Action.runs, Action.due]

theorem stopped_other (h : s.Share c p) (ne : q ≠ p)
    (running : (s.slice i).runningProcess = some q)
    (runs : Action.runs p.part s.history = some q.index) (mark : Bool) :
    (s.stopped i q t mark).Share c p := by
  refine h.congr (by simp [ne.symm]) (fun _ => State.stopped_running_other running ne)
    (fun _ _ => State.stopped_timeout) ?_ ?_ ?_ fun _ hcut => ?_
  · simp [Action.timeGranted, ne]
  · simp [Action.turns, ne]
  · simp [Action.startTime]
  · simp [hcut.1] at runs

theorem picked (h : s.Share c p) (budgeted : s.Budgeted c)
    (idle : ∀ l, (s.slice l).runningProcess ≠ some p) : (s.picked c i p t).Share c p := by
  cases h with
  | running j hj => exact absurd hj (idle j)
  | waiting _ account =>
    obtain ⟨hpos, hle⟩ := budgeted p
    have hrecords : Action.timeGranted p (s.picked c i p t).history =
          Action.timeGranted p s.history ∧
        Action.turns p (s.picked c i p t).history = Action.turns p s.history ∧
        Action.startTime p (s.picked c i p t).history = t := by
      obtain ⟨older, hh, rfl | ⟨o, rfl⟩⟩ := s.picked_records c i p t
      · rw [hh]
        simp [Action.timeGranted, Action.turns, Action.startTime]
      · rw [hh]
        simp [Action.timeGranted, Action.turns, Action.startTime]
    obtain ⟨hgranted, hturns, hstart⟩ := hrecords
    have htimeout : ((s.picked c i p t).slice i).timeout - t =
        (s.process p).actualBudget * nsPerMs := by
      rw [State.picked_slice, Function.update_self]
      dsimp only
      omega
    refine .running i ?_ ?_ ?_ ?_ ?_
    · rw [State.picked_slice, Function.update_self]
    · rw [State.picked_process, Function.update_self]
    · rw [hgranted, hturns, hstart, htimeout, account]
    · rw [hstart, htimeout]
      unfold nsPerMs
      omega
    · rw [hstart, htimeout]
      unfold nsPerMs
      omega

theorem picked_other (h : s.Share c p) (ne : q ≠ p) (part : q.part = p.part)
    (due : q.index = Action.due c p.part s.history)
    (idle : (s.slice i).runningProcess = none) : (s.picked c i q t).Share c p := by
  have hrecords : Action.timeGranted p (s.picked c i q t).history =
        Action.timeGranted p s.history ∧
      Action.turns p (s.picked c i q t).history = Action.turns p s.history ∧
      Action.startTime p (s.picked c i q t).history = Action.startTime p s.history := by
    obtain ⟨older, hh, rfl | ⟨o, rfl⟩⟩ := s.picked_records c i q t
    · rw [hh]
      simp [Action.timeGranted, Action.turns, Action.startTime, ne]
    · rw [hh]
      simp [Action.timeGranted, Action.turns, Action.startTime, ne]
  refine h.congr ?_ (fun l => ?_) (fun l hl => ?_) hrecords.1 hrecords.2.1 hrecords.2.2
    fun _ hcut => ?_
  · rw [State.picked_process, Function.update_of_ne ne.symm]
  · exact s.picked_running_other c i q t ne (by simp [idle])
  · refine s.picked_timeout c i q t ?_
    rintro rfl
    simp [idle] at hl
  · have hindex : q.index = p.index := due.trans hcut.2.symm
    cases q
    cases p
    simp_all

variable {t₀ u : Int} {k w : Nat}

theorem serve (robin : s.RoundRobin c t₀ k) (shares : ∀ j, s.Share c ⟨k, j⟩) (only : c.BeOnly k)
    (regular : s.Regular c) (aligned : nsPerMs ∣ t - t₀) (member : i ∈ c.sliceIds w)
    (serve : Serve c w u t i k s s') (j : Nat) : s'.Share c ⟨k, j⟩ := by
  have hstopped : ∀ {f d}, s.Serving c k i f d → (s.slice i).timeout = t → ∀ m,
      (s.stopped i ⟨k, (f + d) % c.processCount k⟩ t true).Share c ⟨k, m⟩ := by
    intro f d hserving due m
    by_cases hm : (f + d) % c.processCount k = m
    · subst hm
      exact (shares _).stopped hserving.running (fun l => hserving.only l _) due
    · exact (shares m).stopped_other (fun e => hm (ProcessId.mk.inj e).2) hserving.running
        hserving.runs true
  cases serve with
  | begun first idle role stage fresh =>
    cases first with
    | true => exact absurd role (only.notSc i)
    | false =>
      obtain ⟨hidle, hruns, hcurrent, -, -⟩ :=
        robin.turn.begun_waiting only member idle role stage fresh
      have hassigned : ∀ m, (s.assigned c i k false t).Share c ⟨k, m⟩ := fun m =>
        (shares m).congr rfl (fun l => by rw [State.assigned_running])
          (fun _ _ => State.assigned_timeout) rfl rfl rfl fun _ hcut => hcut
      by_cases hj : (s.partition k).currentProc = j
      · subst hj
        refine (hassigned _).picked (regular.assigned i k false t).budgeted fun l => ?_
        rw [State.assigned_running]
        exact hidle l _
      · exact (hassigned j).picked_other (fun e => hj (ProcessId.mk.inj e).2) rfl hcurrent
          (by simpa using idle)
  | @resumed _ j' running due before found =>
    obtain ⟨f, d, hserving, rfl⟩ := robin.turn.serving_of running
    have hdue : j' = Action.due c k
        (s.stopped i ⟨k, (f + d) % c.processCount k⟩ t true).history := by
      rw [hserving.seek_stopped regular, Prod.mk.injEq] at found
      simp [Action.due, CyclicSearch.next_round (c.processCount_pos k), found.2]
    by_cases hj : j' = j
    · subst hj
      exact (hstopped hserving due _).picked (regular.stopped i _ t true).budgeted fun l =>
        hserving.idle_stopped (t := t) true l _
    · exact (hstopped hserving due j).picked_other (fun e => hj (ProcessId.mk.inj e).2) rfl hdue
        (by simp)
  | drained running due =>
    obtain ⟨f, d, hserving, rfl⟩ := robin.turn.serving_of running
    exact (hstopped hserving due j).congr rfl (fun _ => .rfl) (fun _ _ => rfl) rfl rfl rfl
      fun _ hcut => hcut
  | @cut m r running closed atEnd late be remaining pos lt =>
    obtain ⟨f, d, hserving, rfl⟩ := robin.turn.serving_of running
    have hleft : r * nsPerMs = (s.slice i).timeout - t := by
      rw [remaining]
      exact durationCastMs_mul aligned
        ((robin.account _).aligned_of running fun l => hserving.only l _) late
    have hcut : ((s.shortened ⟨k, (f + d) % c.processCount k⟩ r).stopped i
        ⟨k, (f + d) % c.processCount k⟩ t false).Share c ⟨k, j⟩ := by
      by_cases hj : (f + d) % c.processCount k = j
      · subst hj
        exact (shares _).cutShort running (fun l => hserving.only l _) hleft
      · have hne : (⟨k, (f + d) % c.processCount k⟩ : ProcessId) ≠ ⟨k, j⟩ :=
          fun e => hj (ProcessId.mk.inj e).2
        have hshort : (s.shortened ⟨k, (f + d) % c.processCount k⟩ r).Share c ⟨k, j⟩ :=
          (shares j).congr (by simp [Ne.symm hj]) (fun _ => .rfl) (fun _ _ => rfl) rfl rfl rfl
            fun _ hcut => hcut
        exact hshort.stopped_other hne running hserving.runs false
    exact hcut.apart .released
  | dropped running closed atEnd late notBe =>
    obtain ⟨f, d, hserving, -⟩ := robin.turn.serving_of running
    exact absurd hserving.be notBe
  | spent running closed atEnd late used =>
    obtain ⟨f, d, hserving, rfl⟩ := robin.turn.serving_of running
    have haligned := (robin.account _).aligned_of running fun l => hserving.only l _
    have hdue : (s.slice i).timeout = t := by
      have hleft := durationCastMs_mul aligned haligned late
      rw [used] at hleft
      omega
    have hreleased : ((s.stopped i ⟨k, (f + d) % c.processCount k⟩ t true).released c i).Share c
        ⟨k, j⟩ := (hstopped hserving hdue j).apart .released
    exact hreleased.congr rfl (fun _ => .rfl) (fun _ _ => rfl) rfl rfl rfl fun _ hcut => hcut

theorem act (robin : s.RoundRobin c t₀ k) (shares : ∀ j, s.Share c ⟨k, j⟩) (only : c.BeOnly k)
    (regular : s.Regular c) (aligned : nsPerMs ∣ t - t₀) (act : Act c w u t s s') (j : Nat) :
    s'.Share c ⟨k, j⟩ := by
  cases act with
  | noted a ha =>
    have hforeign : a.Foreign k := by rcases ha with rfl | rfl | rfl <;> trivial
    exact (shares j).apart (.noted rfl rfl rfl (.one hforeign rfl))
  | beStarted =>
    exact (shares j).apart (.noted rfl rfl rfl (.one (a := .beStarted w t) trivial rfl))
  | closing =>
    exact (shares j).apart (.noted rfl rfl rfl (.one (a := .onWindowEnd w) trivial rfl))
  | @served _ i m member serve =>
    by_cases hm : m = k
    · subst hm
      exact Share.serve robin shares only regular aligned member serve j
    · exact (shares j).apart (State.Apart.serve serve hm)
  | released => exact (shares j).apart .released
  | _ => exact (shares j).apart (.noted rfl rfl rfl (.same rfl))

theorem move (robin : s.RoundRobin c t₀ k) (shares : ∀ j, s.Share c ⟨k, j⟩) (only : c.BeOnly k)
    (regular : s.Regular c) (move : Move c t₀ s s') (j : Nat) : s'.Share c ⟨k, j⟩ := by
  cases move with
  | act _ aligned act => exact Share.act robin shares only regular aligned act j
  | windowStarted w u =>
    exact (shares j).congr rfl (fun _ => .rfl) (fun _ _ => rfl) rfl rfl rfl fun _ hcut => hcut
  | windowArmed t =>
    exact (shares j).apart (.noted rfl rfl rfl (.one (a := .windowArmed t) trivial rfl))
  | _ => exact (shares j).apart (.noted rfl rfl rfl (.same rfl))

theorem start (idle : s.AllIdle) (full : (s.process p).actualBudget = (c.process p).budget)
    (quiet : ∀ a ∈ s.history, ¬a.Schedules) : s.Share c p := by
  obtain ⟨hgranted, hturns⟩ := Action.granted_of_quiet quiet p
  refine .waiting (fun i hi => by simp [idle i] at hi) ?_ fun hlt => by omega
  rw [hgranted, hturns, full]
  simp

/-- What has been granted lies between the turns that are over and the next one. -/
theorem bounds (h : s.Share c p) (budgeted : s.Budgeted c) :
    Action.turns p s.history * ((c.process p).budget * nsPerMs) ≤ Action.timeGranted p s.history ∧
      Action.timeGranted p s.history ≤
        (Action.turns p s.history + 1) * ((c.process p).budget * nsPerMs) := by
  rw [Int.add_mul, Int.one_mul]
  cases h with
  | waiting _ account =>
    obtain ⟨hpos, hle⟩ := budgeted p
    rw [Int.add_mul, Int.one_mul] at account
    have hpos' : 0 ≤ (s.process p).actualBudget * nsPerMs :=
      Int.mul_nonneg hpos.le (by decide)
    have hle' : (s.process p).actualBudget * nsPerMs ≤ (c.process p).budget * nsPerMs :=
      Int.mul_le_mul_of_nonneg_right hle (by decide)
    omega
  | running i _ _ account nonneg le =>
    rw [Int.add_mul, Int.one_mul] at account
    omega

theorem whole (h : s.Share c p) (budgeted : s.Budgeted c)
    (running : ∀ i, (s.slice i).runningProcess ≠ some p)
    (notDue : p.index ≠ Action.due c p.part s.history) : Action.timeGranted p s.history =
      Action.turns p s.history * ((c.process p).budget * nsPerMs) := by
  cases h with
  | running i hi => exact absurd hi (running i)
  | waiting _ account cut =>
    have hfull : (s.process p).actualBudget = (c.process p).budget := by
      have hle := (budgeted p).2
      have hnot := fun hlt => notDue (cut hlt).2
      omega
    rw [hfull, Int.add_mul, Int.one_mul] at account
    omega

end State.Share

/-- The processes of a partition have used up their budgets equally often but for one, and
what they have been granted is in proportion to their budgets but for one budget. -/
theorem State.RoundRobin.fair_whole {c : Config} {t₀ : Int} {k : Nat} {s : State}
    (robin : s.RoundRobin c t₀ k) (regular : s.Regular c) (shares : ∀ j, s.Share c ⟨k, j⟩)
    {a b : Nat} (ha : a < c.processCount k) (hb : b < c.processCount k) :
    Action.turns ⟨k, a⟩ s.history ≤ Action.turns ⟨k, b⟩ s.history + 1 ∧
      Action.timeGranted ⟨k, a⟩ s.history * (c.process ⟨k, b⟩).budget ≤
        (Action.timeGranted ⟨k, b⟩ s.history + (c.process ⟨k, b⟩).budget * nsPerMs) *
          (c.process ⟨k, a⟩).budget := by
  obtain ⟨T, hdue, hturns, hruns⟩ := robin.takesTurns.turns
  have hle : Action.turns ⟨k, a⟩ s.history ≤ Action.turns ⟨k, b⟩ s.history + 1 := by
    rw [hturns a ha, hturns b hb]
    exact CyclicService.turns_le_succ
  refine ⟨hle, ?_⟩
  -- at most the turns of `b` and one more
  have hupper : Action.timeGranted ⟨k, a⟩ s.history ≤
      (Action.turns ⟨k, b⟩ s.history + 1) * ((c.process ⟨k, a⟩).budget * nsPerMs) := by
    have hpos := Int.mul_nonneg (c.process ⟨k, a⟩).budget_pos.le (show 0 ≤ nsPerMs by decide)
    by_cases hmore : Action.turns ⟨k, a⟩ s.history ≤ Action.turns ⟨k, b⟩ s.history
    · refine ((shares a).bounds regular.budgeted).2.trans ?_
      exact Int.mul_le_mul_of_nonneg_right (by omega) hpos
    · -- `a` has had more turns than `b`, so it is not its turn
      have hnot : a ≠ Action.due c k s.history := by
        intro heq
        refine hmore ?_
        rw [hturns a ha, hturns b hb, heq, hdue]
        exact CyclicService.turns_due_le
      have hidle : ∀ i, (s.slice i).runningProcess ≠ some ⟨k, a⟩ := by
        intro i hi
        obtain ⟨f, d, hserving, hfd⟩ := robin.turn.serving_of hi
        exact hnot (hruns a (hfd ▸ hserving.runs))
      rw [(shares a).whole regular.budgeted hidle hnot]
      exact Int.mul_le_mul_of_nonneg_right (by omega) hpos
  have hlower := ((shares b).bounds regular.budgeted).1
  calc Action.timeGranted ⟨k, a⟩ s.history * (c.process ⟨k, b⟩).budget
      ≤ (Action.turns ⟨k, b⟩ s.history + 1) * ((c.process ⟨k, a⟩).budget * nsPerMs) *
          (c.process ⟨k, b⟩).budget :=
        Int.mul_le_mul_of_nonneg_right hupper (c.process ⟨k, b⟩).budget_pos.le
    _ = (Action.turns ⟨k, b⟩ s.history * ((c.process ⟨k, b⟩).budget * nsPerMs) +
          (c.process ⟨k, b⟩).budget * nsPerMs) * (c.process ⟨k, a⟩).budget := by ring
    _ ≤ (Action.timeGranted ⟨k, b⟩ s.history + (c.process ⟨k, b⟩).budget * nsPerMs) *
          (c.process ⟨k, a⟩).budget :=
        Int.mul_le_mul_of_nonneg_right (Int.add_le_add_right hlower _)
          (c.process ⟨k, a⟩).budget_pos.le

/-- At every moment of an undisturbed run the time of a BE partition is divided fairly. -/
theorem fair_shares {c : Config} {gen : Nat → Nat} {timeout : Option Int} {es : List Event}
    {s : State} {k a b : Nat} (zero : c.ZeroJitter) (positive : c.PositiveLengths)
    (only : c.BeOnly k) (ha : a < c.processCount k) (hb : b < c.processCount k)
    (run : Run (Event.UndisturbedStep c) (State.initial c gen timeout) es s) :
    Action.turns ⟨k, a⟩ s.history ≤ Action.turns ⟨k, b⟩ s.history + 1 ∧
      Action.timeGranted ⟨k, a⟩ s.history * (c.process ⟨k, b⟩).budget ≤
        (Action.timeGranted ⟨k, b⟩ s.history + (c.process ⟨k, b⟩).budget * nsPerMs) *
          (c.process ⟨k, a⟩).budget := by
  have hquiet : (∀ a ∈ s.history, ¬a.Schedules) →
      Action.turns ⟨k, a⟩ s.history ≤ Action.turns ⟨k, b⟩ s.history + 1 ∧
      Action.timeGranted ⟨k, a⟩ s.history * (c.process ⟨k, b⟩).budget ≤
        (Action.timeGranted ⟨k, b⟩ s.history + (c.process ⟨k, b⟩).budget * nsPerMs) *
          (c.process ⟨k, a⟩).budget := by
    intro quiet
    obtain ⟨hgranted, hturns⟩ := Action.granted_of_quiet quiet ⟨k, a⟩
    obtain ⟨hgranted', hturns'⟩ := Action.granted_of_quiet quiet ⟨k, b⟩
    rw [hgranted, hturns, hgranted', hturns', Int.zero_mul, Int.zero_add]
    exact ⟨by omega, Int.mul_nonneg (Int.mul_nonneg (c.process ⟨k, b⟩).budget_pos.le (by decide))
      (c.process ⟨k, a⟩).budget_pos.le⟩
  cases Event.undisturbed_stands zero positive run with
  | preparing _ _ untouched => exact hquiet untouched.quiet
  | down _ quiet => exact hquiet quiet
  | underway t₀ s₀ fresh moves underway =>
    have hall : s.Regular c ∧ s.RoundRobin c t₀ k ∧ ∀ j, s.Share c ⟨k, j⟩ :=
      moves.invariant (I := fun m => m.Regular c ∧ m.RoundRobin c t₀ k ∧ ∀ j, m.Share c ⟨k, j⟩)
        (fun _ _ h e => ⟨h.1.move e, h.2.1.move only h.1 e, State.Share.move h.2.1 h.2.2 only h.1 e⟩)
        ⟨fresh.regular, .start fresh.halted.idle fresh.closed (fresh.heads k) fresh.full fresh.quiet,
          fun j => .start fresh.halted.idle (fresh.full _) fresh.quiet⟩
    exact hall.2.1.fair_whole hall.1 hall.2.2 ha hb

/-- The second process has been cut short after 1 ms of its 3 ms, and is owed the rest. -/
theorem fair_shares_twoBes : ∃ s : State,
    Action.timeGranted ⟨0, 0⟩ s.history = 4 * nsPerMs ∧
    Action.timeGranted ⟨0, 1⟩ s.history = 1 * nsPerMs ∧
    Action.timeGranted ⟨0, 0⟩ s.history * (Config.twoBes.process ⟨0, 1⟩).budget ≤
      (Action.timeGranted ⟨0, 1⟩ s.history + (Config.twoBes.process ⟨0, 1⟩).budget * nsPerMs) *
        (Config.twoBes.process ⟨0, 0⟩).budget := by
  have hrun : ((Event.play .twoBes (fun s e => e.Undisturbed .twoBes s)
      [.startup 0, .sliceTimer ⟨0, 0⟩, .windowTimer]
      (State.initial .twoBes (fun _ => 0) none)).map fun s =>
        (Action.timeGranted ⟨0, 0⟩ s.history, Action.timeGranted ⟨0, 1⟩ s.history)) =
      some (4 * nsPerMs, 1 * nsPerMs) := by decide
  obtain ⟨s, hplay, hs⟩ := Option.map_eq_some_iff.mp hrun
  obtain ⟨hfirst, hsecond⟩ := Prod.mk.inj hs
  exact ⟨s, hfirst, hsecond, (fair_shares (k := 0) (a := 0) (b := 1) (by decide) (by decide)
    (by decide) (by decide) (by decide) (Event.play_run _ hplay)).2⟩

end DemosSched
