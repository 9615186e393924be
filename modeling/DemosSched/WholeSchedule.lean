import DemosSched.BeTimetable

/-! The whole schedule of an undisturbed run is the plan of its configuration, partition by
partition: neither latencies nor the order of timers that expire together show in it. -/

namespace DemosSched

open CyclicService Fallible Relation

variable {c : Config} {t₀ : Int} {k N w : Nat} {u t : Int} {s s' : State} {i : SliceId}

namespace Config

variable (c : Config)

def IsSc (k : Nat) : Prop := ∃ w < c.windows.length, ∃ i ∈ c.sliceIds w, c.role true i = some k

instance (k : Nat) : Decidable (c.IsSc k) := inferInstanceAs (Decidable (∃ _ < _, _))

def scWindow (k m : Nat) (u : Int) : List Action :=
  match c.sliceOf true k (m % c.windows.length) with
  | none => []
  | some i => c.slicePlan i k u

def scPlan (t₀ : Int) (k N : Nat) : List Action :=
  (List.range N).flatMap fun m => c.scWindow k m (c.windowStart t₀ m)

/-- The starts of partition `k` in the first `N` windows of a schedule begun at `t₀`. -/
def plan (t₀ : Int) (k N : Nat) : List Action :=
  if c.IsSc k then c.scPlan t₀ k N else c.bePlan t₀ k N

variable {c}

theorem scPlan_succ (t₀ : Int) (k N : Nat) : c.scPlan t₀ k (N + 1) =
    c.scPlan t₀ k N ++ c.scWindow k N (c.windowStart t₀ N) := by
  simp [scPlan, List.range_succ]

theorem plan_succ (t₀ : Int) (k N : Nat) : c.plan t₀ k N <+: c.plan t₀ k (N + 1) := by
  unfold plan
  split
  · exact scPlan_succ t₀ k N ▸ List.prefix_append _ _
  · exact bePlan_succ t₀ k N ▸ List.prefix_append _ _

theorem plan_prefix {M : Nat} (h : N ≤ M) : c.plan t₀ k N <+: c.plan t₀ k M := by
  induction h with
  | refl => exact List.prefix_rfl
  | step _ ih => exact ih.trans (plan_succ t₀ k _)

theorem Unshared.beOnly (unshared : c.Unshared) (sc : ¬c.IsSc k) : c.BeOnly k := fun w hw i hi =>
  ⟨fun hrole => sc ⟨w, hw, i, hi, hrole⟩, fun _ hj hik hjk => unshared.eq hi hj hik hjk⟩

end Config

namespace Action

theorem startsOf_planned {h : List Action} (role : c.role true i = some k) (past : Past c h)
    (unbegun : current h = none → starts k h = [])
    (windows : windowStarts h = (c.windowPlan t₀ N).reverse) :
    (startsOf k h).reverse = c.scPlan t₀ k (N - 1) ++ (starts k h).reverse := by
  induction h generalizing N with
  | nil =>
    have hzero := congrArg List.length windows
    rw [List.length_reverse, Config.windowPlan, List.length_map, List.length_range] at hzero
    simp [← hzero, windowStarts, startsOf, starts, Config.scPlan]
  | cons a h ih =>
    cases a with
    | windowStarted w u =>
      obtain ⟨hover, hpast⟩ := past
      obtain ⟨M, rfl⟩ : ∃ M, N = M + 1 := by
        refine Nat.exists_eq_succ_of_ne_zero ?_
        rintro rfl
        simp [windowStarts, Config.windowPlan] at windows
      rw [Config.windowPlan_succ, List.reverse_append, List.reverse_singleton,
        List.singleton_append] at windows
      have hrest : windowStarts h = (c.windowPlan t₀ M).reverse := (List.cons.inj windows).2
      have hold := ih hpast (fun hnone => by rw [hnone] at hover; exact hover.1 i k role) hrest
      change (startsOf k h).reverse = c.scPlan t₀ k M ++ []
      rw [hold, List.append_nil]
      cases M with
      | zero =>
        have hnone : current h = none := by
          rw [current_eq_head, hrest]
          rfl
        rw [hnone] at hover
        rw [hover.1 i k role]
        simp [Config.scPlan]
      | succ L =>
        have hsome : current h = some (L % c.windows.length, c.windowStart t₀ L) := by
          rw [current_eq_head, hrest, Config.windowPlan_succ, List.reverse_append,
            List.reverse_singleton, List.singleton_append, List.head?_cons]
          rfl
        rw [hsome] at hover
        obtain ⟨hplanned, habsent⟩ := hover.1 i k role
        have hwindow : (starts k h).reverse = c.scWindow k L (c.windowStart t₀ L) := by
          unfold Config.scWindow
          split
          · next hslice => rw [habsent (Config.sliceOf_none hslice), List.reverse_nil]
          · next l hslice =>
            obtain ⟨hl, hrole⟩ := Config.sliceOf_some hslice
            rw [hplanned l hl hrole, List.reverse_reverse]
        rw [hwindow, Config.scPlan_succ]
        rfl
    | started l p x b =>
      by_cases hp : p.part = k
      · have hcons : starts k (.started l p x b :: h) = .started l p x b :: starts k h := if_pos hp
        have hall : startsOf k (.started l p x b :: h) = .started l p x b :: startsOf k h := if_pos hp
        rw [hcons] at unbegun
        have hold := ih past (fun hnone => absurd (unbegun hnone) (by simp)) windows
        rw [hcons, hall, List.reverse_cons, List.reverse_cons, hold, List.append_assoc]
      · have hcons : starts k (.started l p x b :: h) = starts k h := if_neg hp
        have hall : startsOf k (.started l p x b :: h) = startsOf k h := if_neg hp
        rw [hcons] at unbegun ⊢
        rw [hall]
        exact ih past unbegun windows
    | _ => exact ih past unbegun windows

end Action

/-- The processes of partition `k` have been started as planned in `N` windows, the last of
which may still be running. -/
def State.FollowsPlan (c : Config) (t₀ : Int) (k N : Nat) (s : State) : Prop :=
  c.plan t₀ k (N - 1) <+: (Action.startsOf k s.history).reverse ∧
    (Action.startsOf k s.history).reverse <+: c.plan t₀ k N

theorem State.OnTimetable.followsPlan_sc (h : s.OnTimetable c t₀) (underway : s.Underway c t₀)
    (single : ∀ i k, c.role true i = some k → c.ScOnly k) (nth : s.InNth c t₀ N w u)
    (inWindow : Action.current s.history = some (w, u))
    (windows : Action.windowStarts s.history = (c.windowPlan t₀ (N + 1)).reverse) (sc : c.IsSc k) :
    s.FollowsPlan c t₀ k (N + 1) := by
  obtain ⟨-, -, i, -, hrole⟩ := id sc
  have hall := Action.startsOf_planned hrole h.past (by simp [inWindow]) windows
  have hwindow : (Action.starts k s.history).reverse <+: c.scWindow k N (c.windowStart t₀ N) := by
    unfold Config.scWindow
    rw [← nth.window, ← nth.start]
    split
    · next hslice =>
      rw [h.starts_eq_nil single inWindow hrole (Config.sliceOf_none hslice), List.reverse_nil]
    · next l hslice =>
      obtain ⟨hl, hlk⟩ := Config.sliceOf_some hslice
      rcases h.keepsUp single underway inWindow hl hlk with hdone | ⟨j, hprefix, hstarts, -⟩
      · rw [hdone, List.reverse_reverse]
      · rw [hstarts, List.reverse_reverse]
        exact hprefix
  unfold State.FollowsPlan Config.plan
  rw [if_pos sc, if_pos sc, hall, Config.scPlan_succ, Nat.add_sub_cancel]
  exact ⟨List.prefix_append _ _, (List.prefix_append_right_inj _).mpr hwindow⟩

/-- An undisturbed run schedules every partition as the plan of its configuration says. -/
theorem Event.undisturbed_followsPlan {gen : Nat → Nat} {timeout : Option Int} {es : List Event}
    (zero : c.ZeroJitter) (positive : c.PositiveLengths) (roles : c.SingleRole)
    (unshared : c.Unshared)
    (run : Run (Event.UndisturbedStep c) (State.initial c gen timeout) es s) :
    ∃ t₀ N, Action.windowStarts s.history = (c.windowPlan t₀ N).reverse ∧
      ∀ k, s.FollowsPlan c t₀ k N := by
  rcases undisturbed_kept zero positive roles unshared run with
    quiet | ⟨t₀, underway, timetable, kept⟩
  · refine ⟨0, 0, by rw [Action.windowStarts_of_quiet quiet]; rfl, fun k => ?_⟩
    unfold State.FollowsPlan
    rw [Action.startsOf_of_quiet quiet]
    have hnone : c.plan 0 k 0 = [] := by simp [Config.plan, Config.scPlan, Config.bePlan]
    rw [hnone]
    exact ⟨List.prefix_rfl, List.prefix_rfl⟩
  · obtain ⟨N, hN⟩ := timetable.windows
    obtain ⟨M, w, u, rfl, hnth, inWindow⟩ := timetable.nth_of underway hN
    refine ⟨t₀, M + 1, hN, fun k => ?_⟩
    by_cases hsc : c.IsSc k
    · exact timetable.followsPlan_sc underway (fun _ _ hk => roles.scOnly unshared hk) hnth inWindow
        hN hsc
    · have honly := unshared.beOnly hsc
      have hkeeps := ((kept k honly).keepsUp honly underway hnth inWindow).isPrefix
      unfold State.FollowsPlan Config.plan
      rw [if_neg hsc, if_neg hsc]
      exact hkeeps

def Action.shift (d : Int) : Action → Action
  | .started i p t b => .started i p (t + d) b
  | a => a

namespace Config

theorem slicePlan_shift (i : SliceId) (k : Nat) (u d : Int) :
    (c.slicePlan i k u).map (Action.shift d) = c.slicePlan i k (u + d) := by
  rw [slicePlan, slicePlan, List.map_map]
  refine List.map_congr_left fun j _ => ?_
  simp only [Function.comp_apply, scStart, Action.shift, Action.started.injEq, true_and, and_true]
  omega

theorem beWindow_shift (k m : Nat) (u d : Int) :
    (c.beWindow k m u).map (Action.shift d) = c.beWindow k m (u + d) := by
  unfold beWindow
  split
  · rfl
  · rw [List.map_map]
    refine List.map_congr_left fun j _ => ?_
    simp only [Function.comp_apply, beStart, Action.shift, Action.started.injEq, true_and, and_true]
    omega

theorem scWindow_shift (k m : Nat) (u d : Int) :
    (c.scWindow k m u).map (Action.shift d) = c.scWindow k m (u + d) := by
  unfold scWindow
  split
  · rfl
  · exact slicePlan_shift _ k u d

theorem windowStart_shift (t₀ d : Int) (m : Nat) :
    c.windowStart t₀ m + d = c.windowStart (t₀ + d) m := by
  unfold windowStart
  omega

theorem plan_shift (t₀ d : Int) (k N : Nat) :
    (c.plan t₀ k N).map (Action.shift d) = c.plan (t₀ + d) k N := by
  unfold plan
  split
  · simp only [scPlan, List.map_flatMap, scWindow_shift, windowStart_shift]
  · simp only [bePlan, List.map_flatMap, beWindow_shift, windowStart_shift]

end Config

theorem State.FollowsPlan.isPrefix {M : Nat} (h : s.FollowsPlan c t₀ k N) (le : N ≤ M) :
    (Action.startsOf k s.history).reverse.map (Action.shift (-t₀)) <+: c.plan 0 k M := by
  have hshift := (h.2.trans (Config.plan_prefix le)).map (Action.shift (-t₀))
  rwa [Config.plan_shift, Int.add_right_neg] at hshift

/-- Two undisturbed runs of a configuration start the same processes of each partition with
the same budgets at the same times from the start of the schedule on, the longer run more of
them, whatever their latencies and in whatever order they handle timers that expire together. -/
theorem schedule_determined {gen gen' : Nat → Nat} {timeout timeout' : Option Int}
    {es es' : List Event} (zero : c.ZeroJitter) (positive : c.PositiveLengths)
    (roles : c.SingleRole) (unshared : c.Unshared)
    (run : Run (Event.UndisturbedStep c) (State.initial c gen timeout) es s)
    (run' : Run (Event.UndisturbedStep c) (State.initial c gen' timeout') es' s') :
    ∃ t₀ t₀' N N', Action.windowStarts s.history = (c.windowPlan t₀ N).reverse ∧
      Action.windowStarts s'.history = (c.windowPlan t₀' N').reverse ∧
      ∀ k, (Action.startsOf k s.history).reverse.map (Action.shift (-t₀)) <+:
          (Action.startsOf k s'.history).reverse.map (Action.shift (-t₀')) ∨
        (Action.startsOf k s'.history).reverse.map (Action.shift (-t₀')) <+:
          (Action.startsOf k s.history).reverse.map (Action.shift (-t₀)) := by
  obtain ⟨t₀, N, hwindows, hplan⟩ := Event.undisturbed_followsPlan zero positive roles unshared run
  obtain ⟨t₀', N', hwindows', hplan'⟩ :=
    Event.undisturbed_followsPlan zero positive roles unshared run'
  exact ⟨t₀, t₀', N, N', hwindows, hwindows', fun k => List.prefix_or_prefix_of_prefix
    ((hplan k).isPrefix (le_max_left N N')) ((hplan' k).isPrefix (le_max_right N N'))⟩

/-- The schedule begins at 0 in one run and at 7 ms in the other, which has handled one
timer more. -/
theorem schedule_determined_twoSlices : ∃ (s s' : State) (t₀ t₀' : Int),
    Action.startsOf 2 s.history = [.started ⟨0, 1⟩ ⟨2, 0⟩ (5 * nsPerMs) 2] ∧
    Action.startsOf 2 s'.history = [.started ⟨0, 1⟩ ⟨2, 0⟩ (12 * nsPerMs) 2] ∧
    ((Action.startsOf 2 s.history).reverse.map (Action.shift (-t₀)) <+:
        (Action.startsOf 2 s'.history).reverse.map (Action.shift (-t₀')) ∨
      (Action.startsOf 2 s'.history).reverse.map (Action.shift (-t₀')) <+:
        (Action.startsOf 2 s.history).reverse.map (Action.shift (-t₀))) := by
  have hrun : ((Event.play .twoSlices (fun s e => e.Undisturbed .twoSlices s)
      [.startup 0, .sliceTimer ⟨0, 1⟩, .sliceTimer ⟨0, 0⟩]
      (State.initial .twoSlices (fun _ => 0) none)).map fun s => Action.startsOf 2 s.history) =
      some [.started ⟨0, 1⟩ ⟨2, 0⟩ (5 * nsPerMs) 2] := by decide
  have hrun' : ((Event.play .twoSlices (fun s e => e.Undisturbed .twoSlices s)
      [.startup (7 * nsPerMs), .sliceTimer ⟨0, 1⟩, .sliceTimer ⟨0, 0⟩, .sliceTimer ⟨0, 1⟩]
      (State.initial .twoSlices (fun _ => 0) none)).map fun s => Action.startsOf 2 s.history) =
      some [.started ⟨0, 1⟩ ⟨2, 0⟩ (12 * nsPerMs) 2] := by decide
  obtain ⟨s, hplay, hs⟩ := Option.map_eq_some_iff.mp hrun
  obtain ⟨s', hplay', hs'⟩ := Option.map_eq_some_iff.mp hrun'
  obtain ⟨t₀, t₀', -, -, -, -, hagree⟩ := schedule_determined (by decide) (by decide) (by decide)
    (by decide) (Event.play_run _ hplay) (Event.play_run _ hplay')
  exact ⟨s, s', t₀, t₀', hs, hs', hagree 2⟩

namespace Config

end Config

end DemosSched
