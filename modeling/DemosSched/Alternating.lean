import DemosSched.General.Scanning
import DemosSched.Imx8
import DemosSched.PolicyOrder
import DemosSched.WholeSchedule
import DemosSched.WindowPolicies

/-! `PowerPolicy_Imx8_Alternating`, which changes the frequencies of the two clusters of the
i.MX8 with every window, and `PowerPolicy_Imx8_Fixed`, which sets them once. -/

namespace DemosSched

open Fallible

/-- `std::stoul` takes the number modulo `2^64`, unless it is too large without its sign. -/
def stoul (str : List Char) : Option Nat :=
  (((Scanning.integer str).map Prod.fst).filter fun n => n.natAbs < 2 ^ 64).map fun n =>
    (n % 2 ^ 64).toNat

/-- The `index`-th lowest frequency. -/
def CpufreqPolicy.getFreq (x : CpufreqPolicy) (index : Nat) : Option Nat :=
  x.availableFrequencies.bind fun available => available[index]?

def CpufreqPolicy.writeFrequencyI (debug : Bool) (x : CpufreqPolicy) (index : Nat) :
    Option CpufreqPolicy :=
  if !x.active then some x
  else (x.getFreq index).bind fun freq => (x.writeFrequency debug freq).toOption

namespace Imx8

/-- The constructor of `PowerPolicy_Imx8_Fixed`, which leaves the frequencies of the two
clusters as they are from then on; `none` is an exception. -/
def fixed (debug : Bool) (pm : NamedPolicies) (a53FreqI a72FreqI : List Char) :
    Option (CpufreqPolicy × CpufreqPolicy) := do
  let a53 ← (getPolicy "policy0" pm).toOption
  let a72 ← (getPolicy "policy4" pm).toOption
  if pm.any (·.2.availableFrequencies.isNone) then none
  else
    let a53 ← (stoul a53FreqI).bind (a53.writeFrequencyI debug)
    let a72 ← (stoul a72FreqI).bind (a72.writeFrequencyI debug)
    return (a53, a72)

structure Alternating where
  a53 : CpufreqPolicy
  a72 : CpufreqPolicy
  f1A53 : Nat
  f2A53 : Nat
  f1A72 : Nat
  f2A72 : Nat
  f1Next : Bool := true

variable (debug : Bool)

/-- What the constructor writes to a cluster. -/
def fix (f1 f2 : Nat) (x : CpufreqPolicy) : Except PowerFault CpufreqPolicy :=
  if f1 = f2 then x.writeFrequency debug f1 else .ok x

/-- What `on_window_start` writes to a cluster. -/
def alternate (f1Next : Bool) (f1 f2 : Nat) (x : CpufreqPolicy) : Except PowerFault CpufreqPolicy :=
  if f1 ≠ f2 then x.writeFrequency debug (if f1Next then f1 else f2) else .ok x

namespace Alternating

/-- The constructor; `none` is an exception. -/
def tryConstruct (pm : NamedPolicies) (a53F1Str a53F2Str a72F1Str a72F2Str : List Char) :
    Option Alternating := do
  let a53 ← (getPolicy "policy0" pm).toOption
  let a72 ← (getPolicy "policy4" pm).toOption
  let f1A53 ← (stoul a53F1Str).bind a53.getFreq
  let f2A53 ← (stoul a53F2Str).bind a53.getFreq
  let f1A72 ← (stoul a72F1Str).bind a72.getFreq
  let f2A72 ← (stoul a72F2Str).bind a72.getFreq
  if pm.any (·.2.availableFrequencies.isNone) then none
  else
    let a53 ← (fix debug f1A53 f2A53 a53).toOption
    let a72 ← (fix debug f1A72 f2A72 a72).toOption
    return { a53, a72, f1A53, f2A53, f1A72, f2A72 }

def construct (pm : NamedPolicies) (a53F1Str a53F2Str a72F1Str a72F2Str : List Char) :
    Except String Alternating :=
  match tryConstruct debug pm a53F1Str a53F2Str a72F1Str a72F2Str with
  | some x => .ok x
  | none => .error "All power policy arguments must be integers in the range <0, 3>"

def onWindowStart (x : Alternating) : Except PowerFault Alternating := do
  let a53 ← alternate debug x.f1Next x.f1A53 x.f2A53 x.a53
  let a72 ← alternate debug x.f1Next x.f1A72 x.f2A72 x.a72
  return { x with a53 := a53, a72 := a72, f1Next := !x.f1Next }

end Alternating

end Imx8

def powerPolicyImx8Alternating (debug : Bool) : WindowPolicy PowerFault Imx8.Alternating where
  onWindowStart _ := Imx8.Alternating.onWindowStart debug

/-- Every window has been announced when it was started. -/
def State.Told (s : State) : Prop :=
  Action.announced s.history = (Action.windowStarts s.history).map Prod.fst

theorem Action.announced_sameRun {new h : List Action} (hnew : ∀ a ∈ new, a.SameRun) :
    ∃ l, announced (new ++ h) = l ++ announced h ∧
      announced (course (new ++ h)).calls = l ++ announced (course h).calls ∧
      windowStarts (new ++ h) = windowStarts h := by
  induction new with
  | nil => exact ⟨[], rfl, rfl, rfl⟩
  | cons a new ih =>
    obtain ⟨l, hall, hcalls, hstarts⟩ := ih fun b hb => hnew b (List.mem_cons_of_mem _ hb)
    cases a with
    | windowStarted => exact absurd (hnew _ List.mem_cons_self) id
    | onWindowStart v =>
      exact ⟨v :: l, congrArg (v :: ·) hall, congrArg (v :: ·) hcalls, hstarts⟩
    | _ => exact ⟨l, hall, hcalls, hstarts⟩

namespace State.Told

variable {c : Config} {s s' : State}

theorem sameRun (h : s.Told) (grows : s.Grows Action.SameRun s')
    (same : Action.announced s'.course.calls = Action.announced s.course.calls) : s'.Told := by
  obtain ⟨new, hnew, hall⟩ := grows
  obtain ⟨l, hannounced, hcalls, hstarts⟩ := Action.announced_sameRun (h := s.history) hall
  have hnone : l = [] := by
    rw [State.course, State.course, hnew, hcalls] at same
    exact List.append_left_eq_self.mp same
  rw [State.Told, hnew, hannounced, hstarts, hnone]
  exact h

theorem start {t : Int} {w : Nat} (h : s.Told) (ready : Window.Startable c w s)
    (run : Window.start c w t s = .ok s') : s'.Told := by
  obtain ⟨new, hnew, hwithin⟩ := Window.start_withinRun ready run
  obtain ⟨l, hannounced, hcalls, hstarts⟩ := Action.announced_sameRun
    (h := (s.record (.windowStarted w t)).history) fun a ha => (hwithin a ha).sameRun
  have hone : l = [w] := by
    have hlast : Action.announced s'.course.calls = [w] := by
      rcases Window.start_calls ready run with ⟨-, hcalls⟩ | ⟨-, hcalls⟩
      all_goals
        rw [hcalls]
        rfl
    rw [State.course, hnew, hcalls] at hlast
    exact (List.append_nil l).symm.trans hlast
  rw [State.Told, hnew, hannounced, hstarts, hone]
  exact congrArg (w :: ·) h

theorem turn {ok : Action → Prop} (h : s.Told) (turn : Turn c ok s s') : s'.Told := by
  cases turn with
  | change e =>
    cases e with
    | effects run course =>
      rcases course with ⟨before, after⟩ | ⟨ready, hstart⟩
      · obtain ⟨⟨sc, hstage⟩, -⟩ := before.calls
        exact h.sameRun ((run.withinRun hstage).mono fun _ => Action.WithinRun.sameRun)
          (after.announced_calls.trans before.announced_calls.symm)
      · exact h.start ready hstart
    | closed run halted course grows => exact h.sameRun grows (by rw [course]; rfl)
    | moved halted closed => exact h
    | framed => exact h
    | windowArmed t => exact h
    | signalled p => exact h
    | ended p => exact h
    | loopBroken => exact h
  | noted a ha => rcases ha with rfl | rfl <;> exact h
  | _ => exact h

end State.Told

theorem Event.Reachable.told {c : Config} {gen : Nat → Nat} {timeout : Option Int}
    {es : List Event} {s : State} (h : Reachable c gen timeout es s) : s.Told :=
  h.turns.invariant (I := State.Told) (fun _ _ hs e => hs.turn e) rfl

namespace CpufreqPolicy

variable {debug : Bool} {x : CpufreqPolicy} {freq f1 f2 N : Nat}

theorem writeFrequency_valid (valid : x.validateFrequency freq = .ok ()) :
    x.writeFrequency debug freq =
      .ok (if x.active then { x with setspeed := some (freq / 1000) } else x) := by
  unfold writeFrequency runDebug
  cases x.active <;> cases debug <;> simp [valid]

/-- The cluster after `N` windows, the first of which has the frequency `f1`. -/
def alternated (f1 f2 N : Nat) (x : CpufreqPolicy) : CpufreqPolicy :=
  if x.active ∧ (f1 = f2 ∨ 0 < N) then
    { x with setspeed := some ((if N % 2 = 0 then f2 else f1) / 1000) }
  else x

theorem alternated_active : (x.alternated f1 f2 N).active = x.active := by
  unfold alternated
  split <;> rfl

theorem validateFrequency_alternated :
    (x.alternated f1 f2 N).validateFrequency freq = x.validateFrequency freq := by
  unfold alternated
  split <;> rfl

theorem setspeed_alternated {v : Option Nat} :
    { x.alternated f1 f2 N with setspeed := v } = { x with setspeed := v } := by
  unfold alternated
  split <;> rfl

theorem fix_alternated (valid : x.validateFrequency f1 = .ok ()) :
    Imx8.fix debug f1 f2 x = .ok (x.alternated f1 f2 0) := by
  unfold Imx8.fix alternated
  by_cases h : f1 = f2
  · subst h
    rw [if_pos rfl, writeFrequency_valid valid]
    simp
  · rw [if_neg h, if_neg (by simp [h])]

theorem alternate_alternated (valid : ∀ f, f = f1 ∨ f = f2 → x.validateFrequency f = .ok ()) :
    Imx8.alternate debug (decide (N % 2 = 0)) f1 f2 (x.alternated f1 f2 N) =
      .ok (x.alternated f1 f2 (N + 1)) := by
  unfold Imx8.alternate
  by_cases h : f1 = f2
  · subst h
    rw [if_neg (by simp)]
    simp [alternated]
  · have hvalid : (x.alternated f1 f2 N).validateFrequency
        (if decide (N % 2 = 0) = true then f1 else f2) = .ok () := by
      rw [validateFrequency_alternated]
      apply valid
      split
      · exact .inl rfl
      · exact .inr rfl
    have hparity : (if decide (N % 2 = 0) = true then f1 else f2) =
        if (N + 1) % 2 = 0 then f2 else f1 := by
      rcases Nat.mod_two_eq_zero_or_one N with hN | hN
      · rw [if_pos (by simp [hN]), if_neg (by omega)]
      · rw [if_neg (by simp [hN]), if_pos (by omega)]
    rw [if_pos h, writeFrequency_valid hvalid, alternated_active, setspeed_alternated, hparity]
    by_cases hactive : x.active = true
    · have hnext : x.active = true ∧ (f1 = f2 ∨ 0 < N + 1) := ⟨hactive, .inr N.succ_pos⟩
      rw [if_pos hactive, alternated, if_pos hnext]
    · rw [if_neg hactive, alternated, alternated, if_neg fun hx => hactive hx.1,
        if_neg fun hx => hactive hx.1]

end CpufreqPolicy

/-- What the arguments select: the frequencies in question of two clusters that are there. -/
structure Imx8.Selects (pm : NamedPolicies) (a53F1Str a53F2Str a72F1Str a72F2Str : List Char)
    (a53 a72 : CpufreqPolicy) (f1A53 f2A53 f1A72 f2A72 : Nat) : Prop where
  first : getPolicy "policy0" pm = .ok a53
  second : getPolicy "policy4" pm = .ok a72
  listed : ∀ x ∈ pm, x.2.availableFrequencies ≠ none
  f1A53 : (stoul a53F1Str).bind a53.getFreq = some f1A53
  f2A53 : (stoul a53F2Str).bind a53.getFreq = some f2A53
  f1A72 : (stoul a72F1Str).bind a72.getFreq = some f1A72
  f2A72 : (stoul a72F2Str).bind a72.getFreq = some f2A72

def CpufreqPolicy.Limited (x : CpufreqPolicy) : Prop :=
  ∀ available, x.availableFrequencies = some available →
    ∀ f ∈ available, x.minFrequency ≤ f ∧ f ≤ x.maxFrequency

theorem CpufreqPolicy.Limited.valid {x : CpufreqPolicy} (h : x.Limited) {str : List Char} {f : Nat}
    (selected : (stoul str).bind x.getFreq = some f) : x.validateFrequency f = .ok () := by
  obtain ⟨index, -, hf⟩ := Option.bind_eq_some_iff.mp selected
  obtain ⟨available, hlist, hget⟩ := Option.bind_eq_some_iff.mp hf
  have hmem := List.mem_of_getElem? hget
  obtain ⟨hmin, hmax⟩ := h available hlist f hmem
  unfold validateFrequency
  rw [if_neg (by omega), if_neg (by omega), hlist]
  exact if_pos hmem

namespace Imx8

theorem getPolicy_mem {name : String} {pm : NamedPolicies} {x : CpufreqPolicy}
    (h : getPolicy name pm = .ok x) : ∃ y ∈ pm, y.2 = x := by
  unfold getPolicy at h
  split at h
  case h_1 y hy => exact ⟨y, List.mem_of_find?_eq_some hy, Except.ok.inj h⟩
  case h_2 => cases h

theorem Selects.allListed {pm : NamedPolicies} {a53F1Str a53F2Str a72F1Str a72F2Str : List Char}
    {a53 a72 : CpufreqPolicy} {f1A53 f2A53 f1A72 f2A72 : Nat}
    (h : Selects pm a53F1Str a53F2Str a72F1Str a72F2Str a53 a72 f1A53 f2A53 f1A72 f2A72) :
    ¬pm.any (·.2.availableFrequencies.isNone) = true := by
  rw [List.any_eq_true]
  rintro ⟨p, hp, hnone⟩
  exact h.listed p hp (Option.isNone_iff_eq_none.mp hnone)

namespace Alternating

variable {debug : Bool} {pm : NamedPolicies} {a53F1Str a53F2Str a72F1Str a72F2Str : List Char}
  {a53 a72 : CpufreqPolicy} {f1A53 f2A53 f1A72 f2A72 : Nat}

def after (a53 a72 : CpufreqPolicy) (f1A53 f2A53 f1A72 f2A72 N : Nat) : Alternating :=
  ⟨a53.alternated f1A53 f2A53 N, a72.alternated f1A72 f2A72 N, f1A53, f2A53, f1A72, f2A72,
    decide (N % 2 = 0)⟩

theorem selects_of_construct {x : Alternating}
    (built : construct debug pm a53F1Str a53F2Str a72F1Str a72F2Str = .ok x) :
    ∃ a53 a72 f1A53 f2A53 f1A72 f2A72,
      Selects pm a53F1Str a53F2Str a72F1Str a72F2Str a53 a72 f1A53 f2A53 f1A72 f2A72 := by
  unfold construct at built
  split at built
  case h_2 => cases built
  case h_1 y hy =>
    simp only [tryConstruct, Option.bind_eq_bind, Option.bind_eq_some_iff, toOption_eq_some] at hy
    obtain ⟨a53, h53, a72, h72, f1A53, h1, f2A53, h2, f1A72, h3, f2A72, h4, hrest⟩ := hy
    split at hrest
    case isTrue => cases hrest
    case isFalse hlisted =>
      refine ⟨a53, a72, f1A53, f2A53, f1A72, f2A72, h53, h72, fun p hp hnone => hlisted ?_,
        Option.bind_eq_some_iff.mpr h1, Option.bind_eq_some_iff.mpr h2,
        Option.bind_eq_some_iff.mpr h3, Option.bind_eq_some_iff.mpr h4⟩
      exact List.any_eq_true.mpr ⟨p, hp, by rw [hnone]; rfl⟩

theorem construct_of_selects (limited : ∀ x ∈ pm, x.2.Limited)
    (h : Selects pm a53F1Str a53F2Str a72F1Str a72F2Str a53 a72 f1A53 f2A53 f1A72 f2A72) :
    construct debug pm a53F1Str a53F2Str a72F1Str a72F2Str =
      .ok (after a53 a72 f1A53 f2A53 f1A72 f2A72 0) := by
  obtain ⟨x, hx, rfl⟩ := getPolicy_mem h.first
  obtain ⟨y, hy, rfl⟩ := getPolicy_mem h.second
  have hbuilt : tryConstruct debug pm a53F1Str a53F2Str a72F1Str a72F2Str =
      some (after x.2 y.2 f1A53 f2A53 f1A72 f2A72 0) := by
    simp only [tryConstruct, Option.bind_eq_bind, h.first, h.second, Except.toOption,
      Option.bind_some, h.f1A53, h.f2A53, h.f1A72, h.f2A72, if_neg h.allListed,
      CpufreqPolicy.fix_alternated ((limited x hx).valid h.f1A53),
      CpufreqPolicy.fix_alternated ((limited y hy).valid h.f1A72)]
    rfl
  rw [construct, hbuilt]

theorem replay_after (limited : ∀ x ∈ pm, x.2.Limited)
    (h : Selects pm a53F1Str a53F2Str a72F1Str a72F2Str a53 a72 f1A53 f2A53 f1A72 f2A72)
    (ws : List Nat) :
    (powerPolicyImx8Alternating debug).replay (after a53 a72 f1A53 f2A53 f1A72 f2A72 0) ws =
      .ok (after a53 a72 f1A53 f2A53 f1A72 f2A72 ws.length) := by
  obtain ⟨x, hx, rfl⟩ := getPolicy_mem h.first
  obtain ⟨y, hy, rfl⟩ := getPolicy_mem h.second
  induction ws with
  | nil => rfl
  | cons w ws ih =>
    have hfirst : ∀ f, f = f1A53 ∨ f = f2A53 → x.2.validateFrequency f = .ok () := by
      rintro f (rfl | rfl)
      · exact (limited x hx).valid h.f1A53
      · exact (limited x hx).valid h.f2A53
    have hsecond : ∀ f, f = f1A72 ∨ f = f2A72 → y.2.validateFrequency f = .ok () := by
      rintro f (rfl | rfl)
      · exact (limited y hy).valid h.f1A72
      · exact (limited y hy).valid h.f2A72
    have hnext : (!decide (ws.length % 2 = 0)) = decide ((ws.length + 1) % 2 = 0) := by
      rw [← decide_not, decide_eq_decide]
      omega
    rw [WindowPolicy.replay, ih, bind_def, bind_ok]
    simp only [powerPolicyImx8Alternating, onWindowStart, after,
      CpufreqPolicy.alternate_alternated hfirst, CpufreqPolicy.alternate_alternated hsecond,
      bind_def, bind_ok, hnext, List.length_cons]
    rfl

end Alternating

end Imx8

section Runs

variable {c : Config} {gen : Nat → Nat} {timeout : Option Int} {es : List Event} {s : State}

/-- The policy is there exactly if the arguments select frequencies of the two clusters. It
is told the windows that are started and no others, never throws, and after `N` windows the
clusters are at the frequencies of the `N`-th. -/
theorem imx8_alternating (debug : Bool) (pm : NamedPolicies)
    (a53F1Str a53F2Str a72F1Str a72F2Str : List Char) (limited : ∀ x ∈ pm, x.2.Limited)
    (reachable : Event.Reachable c gen timeout es s) :
    ((∃ x, Imx8.Alternating.construct debug pm a53F1Str a53F2Str a72F1Str a72F2Str = .ok x) ↔
      ∃ a53 a72 f1A53 f2A53 f1A72 f2A72,
        Imx8.Selects pm a53F1Str a53F2Str a72F1Str a72F2Str a53 a72 f1A53 f2A53 f1A72 f2A72) ∧
    Action.announced s.history = (Action.windowStarts s.history).map Prod.fst ∧
    ∀ x, Imx8.Alternating.construct debug pm a53F1Str a53F2Str a72F1Str a72F2Str = .ok x →
      ∃ a53 a72 f1A53 f2A53 f1A72 f2A72,
        Imx8.Selects pm a53F1Str a53F2Str a72F1Str a72F2Str a53 a72 f1A53 f2A53 f1A72 f2A72 ∧
        (powerPolicyImx8Alternating debug).replay x (Action.announced s.history) =
          .ok (.after a53 a72 f1A53 f2A53 f1A72 f2A72 (Action.windowStarts s.history).length) := by
  refine ⟨⟨fun ⟨x, hx⟩ => Imx8.Alternating.selects_of_construct hx, ?_⟩, reachable.told,
    fun x built => ?_⟩
  · rintro ⟨a53, a72, f1A53, f2A53, f1A72, f2A72, selects⟩
    exact ⟨_, Imx8.Alternating.construct_of_selects limited selects⟩
  · obtain ⟨a53, a72, f1A53, f2A53, f1A72, f2A72, selects⟩ :=
      Imx8.Alternating.selects_of_construct built
    refine ⟨a53, a72, f1A53, f2A53, f1A72, f2A72, selects, ?_⟩
    have hcount := congrArg List.length reachable.told
    rw [List.length_map] at hcount
    rw [Imx8.Alternating.construct_of_selects limited selects, Except.ok.injEq] at built
    rw [← built, Imx8.Alternating.replay_after limited selects, hcount]

def Imx8.twoClusters : NamedPolicies :=
  [("policy0", ⟨600000000, 1200000000, some [600000000, 896000000, 1104000000, 1200000000],
      {0, 1, 2, 3}, none⟩),
    ("policy4", ⟨600000000, 1600000000, some [600000000, 1600000000], {4, 5}, none⟩)]

theorem Imx8.twoClusters_limited : ∀ x ∈ twoClusters, x.2.Limited := by
  simp [twoClusters, CpufreqPolicy.Limited]

/-- The second cluster stays at its highest frequency. -/
theorem imx8_alternating_twoClusters : ∃ (s : State) (x y : Imx8.Alternating),
    Imx8.Alternating.construct true Imx8.twoClusters ['0'] ['3'] ['1'] ['1'] = .ok x ∧
      (powerPolicyImx8Alternating true).replay x (Action.announced s.history) = .ok y ∧
      y.a72.setspeed = some 1600000 := by
  have hrun : ((Event.play .twoBes (fun _ _ => True) [.startup 0]
      (State.initial .twoBes (fun _ => 0) none)).map fun s =>
        (Action.windowStarts s.history).length) = some 1 := by decide
  obtain ⟨s, hplay, hcount⟩ := Option.map_eq_some_iff.mp hrun
  obtain ⟨-, -, hall⟩ := imx8_alternating true Imx8.twoClusters ['0'] ['3'] ['1'] ['1']
    Imx8.twoClusters_limited (Event.play_reachable hplay)
  obtain ⟨x, hx⟩ : ∃ x, Imx8.Alternating.construct true Imx8.twoClusters ['0'] ['3'] ['1'] ['1'] =
      .ok x := ⟨_, rfl⟩
  obtain ⟨a53, a72, f1A53, f2A53, f1A72, f2A72, selects, hreplay⟩ := hall x hx
  have ha72 : a72 = (Imx8.twoClusters.getLast (by decide)).2 :=
    (Except.ok.inj selects.second).symm
  have hf1 : f1A72 = 1600000000 := by
    have hselected := selects.f1A72
    rw [ha72] at hselected
    exact (Option.some.inj hselected).symm
  have hf2 : f2A72 = 1600000000 := by
    have hselected := selects.f2A72
    rw [ha72] at hselected
    exact (Option.some.inj hselected).symm
  rw [hcount, ha72, hf1, hf2] at hreplay
  exact ⟨s, x, _, hx, hreplay, rfl⟩

/-- Which frequency window `w` has in the `q`-th major frame: where the number of windows is
even it is the same one in every frame. -/
def Config.alternation (c : Config) (q w f1 f2 : Nat) : Nat :=
  if (if c.windows.length % 2 = 0 then w else q + w) % 2 = 0 then f1 else f2

theorem CpufreqPolicy.alternated_frame {c : Config} {x : CpufreqPolicy} {q w N f1 f2 : Nat}
    (count : N = q * c.windows.length + w + 1) (active : x.active = true) :
    (x.alternated f1 f2 N).setspeed = some (c.alternation q w f1 f2 / 1000) := by
  have hproduct := Nat.mul_mod q c.windows.length 2
  have hodd : N % 2 = 0 ↔ ¬(if c.windows.length % 2 = 0 then w else q + w) % 2 = 0 := by
    rcases Nat.mod_two_eq_zero_or_one c.windows.length with h | h
    · rw [h, Nat.mul_zero] at hproduct
      rw [if_pos h]
      omega
    · rw [h, Nat.mul_one] at hproduct
      rw [if_neg (by omega)]
      omega
  have hfreq : (if N % 2 = 0 then f2 else f1) = c.alternation q w f1 f2 := by
    unfold Config.alternation
    by_cases h : N % 2 = 0
    · rw [if_pos h, if_neg (hodd.mp h)]
    · rw [if_neg h, if_pos (not_not.mp (mt hodd.mpr h))]
  have hstarted : x.active = true ∧ (f1 = f2 ∨ 0 < N) := ⟨active, .inr (by omega)⟩
  rw [alternated, if_pos hstarted, hfreq]

/-- In an undisturbed run the frequencies of a window depend on its number alone, unless the
number of windows is odd. -/
theorem imx8_alternating_frames {debug : Bool} {pm : NamedPolicies}
    {a53F1Str a53F2Str a72F1Str a72F2Str : List Char} (limited : ∀ x ∈ pm, x.2.Limited)
    (zero : c.ZeroJitter) (positive : c.PositiveLengths) (roles : c.SingleRole) (unshared : c.Unshared)
    (run : Run (Event.UndisturbedStep c) (State.initial c gen timeout) es s) {w : Nat} {u : Int}
    (current : Action.current s.history = some (w, u)) {x : Imx8.Alternating}
    (built : Imx8.Alternating.construct debug pm a53F1Str a53F2Str a72F1Str a72F2Str = .ok x) :
    ∃ a53 a72 f1A53 f2A53 f1A72 f2A72 q y,
      Imx8.Selects pm a53F1Str a53F2Str a72F1Str a72F2Str a53 a72 f1A53 f2A53 f1A72 f2A72 ∧
      (powerPolicyImx8Alternating debug).replay x (Action.announced s.history) = .ok y ∧
      (Action.windowStarts s.history).length = q * c.windows.length + w + 1 ∧
      (a53.active = true → y.a53.setspeed = some (c.alternation q w f1A53 f2A53 / 1000)) ∧
      (a72.active = true → y.a72.setspeed = some (c.alternation q w f1A72 f2A72 / 1000)) := by
  obtain ⟨a53, a72, f1A53, f2A53, f1A72, f2A72, selects⟩ :=
    Imx8.Alternating.selects_of_construct built
  obtain ⟨t₀, N, hwindows, -⟩ := Event.undisturbed_followsPlan zero positive roles unshared run
  have htold := Event.Reachable.told (run.mono fun _ _ _ step => step.2)
  have hlength := congrArg List.length htold
  rw [List.length_map] at hlength
  rw [Action.current_eq_head, hwindows] at current
  cases N with
  | zero => simp [Config.windowPlan] at current
  | succ M =>
    rw [Config.windowPlan_succ, List.reverse_append, List.reverse_singleton, List.singleton_append,
      List.head?_cons, Option.some.injEq, Prod.mk.injEq] at current
    have hcount : (Action.windowStarts s.history).length =
        M / c.windows.length * c.windows.length + w + 1 := by
      rw [hwindows, List.length_reverse, Config.windowPlan, List.length_map, List.length_range,
        ← current.1, Nat.div_add_mod']
    rw [Imx8.Alternating.construct_of_selects limited selects, Except.ok.injEq] at built
    refine ⟨a53, a72, f1A53, f2A53, f1A72, f2A72, M / c.windows.length,
      .after a53 a72 f1A53 f2A53 f1A72 f2A72 (Action.announced s.history).length, selects, ?_,
      hcount, CpufreqPolicy.alternated_frame (hlength.trans hcount),
      CpufreqPolicy.alternated_frame (hlength.trans hcount)⟩
    rw [← built, Imx8.Alternating.replay_after limited selects]

end Runs

/-- In the second window the first cluster has the second of its frequencies. -/
theorem imx8_alternating_frames_twoClusters : ∃ (s : State) (x y : Imx8.Alternating),
    Imx8.Alternating.construct true Imx8.twoClusters ['0'] ['3'] ['1'] ['1'] = .ok x ∧
      (powerPolicyImx8Alternating true).replay x (Action.announced s.history) = .ok y ∧
      (Action.windowStarts s.history).length = 2 ∧ y.a53.setspeed = some 1200000 := by
  have hrun : ((Event.play .twoBes (fun s e => e.Undisturbed .twoBes s)
      [.startup 0, .sliceTimer ⟨0, 0⟩, .windowTimer]
      (State.initial .twoBes (fun _ => 0) none)).map fun s =>
        (Action.current s.history, (Action.windowStarts s.history).length)) =
      some (some (0, 5 * nsPerMs), 2) := by decide
  obtain ⟨s, hplay, hs⟩ := Option.map_eq_some_iff.mp hrun
  obtain ⟨hcurrent, hcount⟩ := Prod.mk.inj hs
  obtain ⟨x, hx⟩ : ∃ x, Imx8.Alternating.construct true Imx8.twoClusters ['0'] ['3'] ['1'] ['1'] =
      .ok x := ⟨_, rfl⟩
  obtain ⟨a53, a72, f1A53, f2A53, f1A72, f2A72, q, y, selects, hreplay, hframe, hfirst, -⟩ :=
    imx8_alternating_frames Imx8.twoClusters_limited (by decide) (by decide) (by decide) (by decide)
      (Event.play_run _ hplay) hcurrent hx
  have hq : q = 1 := by
    rw [hcount, show Config.twoBes.windows.length = 1 from rfl] at hframe
    omega
  have ha53 : a53 = (Imx8.twoClusters.head (by decide)).2 := (Except.ok.inj selects.first).symm
  have hf2 : f2A53 = 1200000000 := by
    have hselected := selects.f2A53
    rw [ha53] at hselected
    exact (Option.some.inj hselected).symm
  have hspeed := hfirst (by rw [ha53]; decide)
  rw [hq, hf2, Config.alternation, if_neg (by decide)] at hspeed
  exact ⟨s, x, y, hx, hreplay, hcount, hspeed⟩

section Fixed

variable {debug : Bool} {pm : NamedPolicies} {a53FreqI a72FreqI : List Char}

theorem CpufreqPolicy.alternated_same {x : CpufreqPolicy} {f N : Nat} :
    x.alternated f f N = x.alternated f f 0 := by
  unfold alternated
  simp

theorem CpufreqPolicy.Limited.writeFrequencyI {x : CpufreqPolicy} (h : x.Limited) {str : List Char}
    {f : Nat} (selected : (stoul str).bind x.getFreq = some f) :
    (stoul str).bind (x.writeFrequencyI debug) = some (x.alternated f f 0) := by
  obtain ⟨index, hindex, hf⟩ := Option.bind_eq_some_iff.mp selected
  rw [hindex, Option.bind_some]
  unfold CpufreqPolicy.writeFrequencyI
  by_cases hactive : x.active = true
  · rw [if_neg (by simp [hactive]), hf, Option.bind_some, writeFrequency_valid (h.valid selected),
      alternated, if_pos hactive, if_pos ⟨hactive, .inl rfl⟩, ite_self]
    rfl
  · rw [if_pos (by simp [hactive]), alternated, if_neg fun hx => hactive hx.1]

/-- To alternate between equal frequencies is to fix them. -/
theorem imx8_fixed_alternating (limited : ∀ x ∈ pm, x.2.Limited) {x : Imx8.Alternating}
    (built : Imx8.Alternating.construct debug pm a53FreqI a53FreqI a72FreqI a72FreqI = .ok x)
    (ws : List Nat) : Imx8.fixed debug pm a53FreqI a72FreqI = some (x.a53, x.a72) ∧
      ∃ y, (powerPolicyImx8Alternating debug).replay x ws = .ok y ∧ y.a53 = x.a53 ∧
        y.a72 = x.a72 := by
  obtain ⟨a53, a72, f1A53, f2A53, f1A72, f2A72, selects⟩ :=
    Imx8.Alternating.selects_of_construct built
  obtain rfl : f1A53 = f2A53 := Option.some.inj (selects.f1A53.symm.trans selects.f2A53)
  obtain rfl : f1A72 = f2A72 := Option.some.inj (selects.f1A72.symm.trans selects.f2A72)
  rw [Imx8.Alternating.construct_of_selects limited selects, Except.ok.injEq] at built
  subst built
  refine ⟨?_, _, Imx8.Alternating.replay_after limited selects ws,
    CpufreqPolicy.alternated_same, CpufreqPolicy.alternated_same⟩
  obtain ⟨p, hp, rfl⟩ := Imx8.getPolicy_mem selects.first
  obtain ⟨q, hq, rfl⟩ := Imx8.getPolicy_mem selects.second
  simp only [Imx8.fixed, Option.bind_eq_bind, selects.first, selects.second, Except.toOption,
    Option.bind_some, if_neg selects.allListed, (limited p hp).writeFrequencyI selects.f1A53,
    (limited q hq).writeFrequencyI selects.f1A72]
  rfl

theorem imx8_fixed_alternating_twoClusters : ∃ x : CpufreqPolicy × CpufreqPolicy,
    Imx8.fixed true Imx8.twoClusters ['3'] ['1'] = some x ∧ x.1.setspeed = some 1200000 := by
  obtain ⟨x, hx⟩ : ∃ x, Imx8.Alternating.construct true Imx8.twoClusters ['3'] ['3'] ['1'] ['1'] =
      .ok x := ⟨_, rfl⟩
  obtain ⟨hfixed, -⟩ := imx8_fixed_alternating Imx8.twoClusters_limited hx []
  refine ⟨_, hfixed, ?_⟩
  rw [← Except.ok.inj hx]

end Fixed

end DemosSched
