import DemosSched.BeRounds
import DemosSched.ReferenceSchedule

/-! An undisturbed schedule runs every BE partition as its plan says: which processes are
started in which window, when, and with how much of their budgets. -/

namespace DemosSched

open CyclicService Fallible Relation

variable {c : Config} {t₀ : Int} {k N w : Nat} {u t : Int} {s s' : State} {i : SliceId}

theorem durationCastMs_mul_ms {x : Int} (h : 0 ≤ x) : Process.durationCastMs (x * nsPerMs) = x := by
  have hpos : 0 < nsPerMs := by decide
  rw [Process.durationCastMs_nonneg (Int.mul_nonneg h hpos.le), Int.mul_ediv_cancel _ hpos.ne']

theorem State.BeServing.left_eq {d : Nat} (h : s.BeServing c t₀ k N i d) :
    (s.slice i).timeout - c.windowEnd i.window (c.windowStart t₀ N) =
      ((c.bePosition k N).demand (c.processCount k) (c.budgets k) (d + 1) - c.beTime k i.window) *
        nsPerMs := by
  rw [h.windowEnd, h.timeout, Int.sub_mul, Int.add_mul, Int.add_mul]
  omega

namespace State.BeRound

theorem begun (h : s.BeRound c t₀ k) (robin : s.RoundRobin c t₀ k) (only : c.BeOnly k)
    (regular : s.Regular c) (nth : s.InNth c t₀ N w u) (member : i ∈ c.sliceIds w)
    (idle : (s.slice i).runningProcess = none) (role : c.role false i = some k)
    (stage : s.course.stage = .running w false) (fresh : s.course.role i ≠ some (k, false))
    (clock : t = u + c.scEnd w * nsPerMs) (lt : c.scEnd w < (c.window w).length) :
    ((s.assigned c i k false t).picked c i ⟨k, (s.partition k).currentProc⟩ t).BeRound c t₀ k := by
  have hwindow : i.window = w := (c.mem_sliceIds.mp member).1
  obtain ⟨hidle, -, -, hnone, hroles⟩ := robin.turn.begun_waiting only member idle role stage fresh
  have hturn := State.RobinTurn.begun (t := t) regular member role stage hidle hnone hroles
  have hqueue : s.QueueAt c k (c.bePosition k N) ∧
      Action.startsOf k s.history = (c.bePlan t₀ k N).reverse := by
    have hcount := nth.count
    cases h with
    | resting M count _ _ _ closed => simp [stage] at closed
    | waiting M count _ queue starts =>
      obtain rfl : M = N := by omega
      exact ⟨queue, starts⟩
    | serving M count l d h =>
      have hl : l.window = i.window := by
        rcases h.stage with hrun | hclosed
        · rw [stage, Stage.running.injEq] at hrun
          rw [hwindow, hrun.1]
        · simp [stage] at hclosed
      obtain rfl := only.single h.be role hl
      simpa [idle] using h.running
    | finished M count l be _ _ _ hrun hrole =>
      rw [stage, Stage.running.injEq] at hrun
      obtain rfl := only.single be role (by rw [hwindow, hrun.1])
      exact absurd hrole fresh
  obtain ⟨hqueue, hstarts⟩ := hqueue
  have hassigned : (s.assigned c i k false t).QueueAt c k (c.bePosition k N) :=
    ⟨by simpa using hqueue.head, hqueue.left, hqueue.full⟩
  have hvalid := c.bePosition_valid k N
  have hrunning : (((s.assigned c i k false t).picked c i ⟨k, (s.partition k).currentProc⟩ t).slice
      i).runningProcess = some ⟨k, (s.partition k).currentProc⟩ := by
    rw [State.picked_slice, Function.update_self]
  obtain ⟨f, d, hserving, hfd⟩ := hturn.serving_of hrunning
  -- no process has completed in the window, so the slice is at the first one of its round
  have hzero : d = 0 := by
    by_contra hd
    obtain ⟨-, hcompletions⟩ := State.picked_functions c (s.assigned c i k false t) i k
      (s.partition k).currentProc t
    have hmem := (hserving.completions (f % c.processCount k)).mpr ⟨0, by omega, rfl⟩
    have hempty : Action.completions k (s.assigned c i k false t).history = [] := hnone
    rw [hcompletions, hempty] at hmem
    exact List.not_mem_nil hmem
  subst hzero
  obtain rfl : f = (c.bePosition k N).job := by
    rw [Nat.add_zero, Nat.mod_eq_of_lt hserving.first, hqueue.head] at hfd
    exact hfd.symm
  have hslice := Config.BeOnly.sliceOf only member role
  have hbefore : 0 < c.beTime k w := by
    rw [Config.beTime_eq hslice lt]
    omega
  have hfirst : (c.bePosition k N).nth (c.processCount k) 0 = (c.bePosition k N).job :=
    Position.nth_zero hvalid
  have hpicked : ((s.assigned c i k false t).picked c i ⟨k, (s.partition k).currentProc⟩ t) =
      (s.assigned c i k false t).picked c i ⟨k, (c.bePosition k N).job⟩ t := by rw [hqueue.head]
  have hcount := Act.windows (c := c) (.served member (.begun (u := u) (t := t) false idle role stage
    fresh (by simp) ?_))
  refine .serving N ((congrArg List.length hcount.1).trans nth.count) i 0
    { toServing := hserving
      window := hwindow.trans nth.window
      before := by
        rw [Position.demand_zero, hwindow]
        exact hbefore
      timeout := ?_
      stored := fun j => by
        rw [hpicked]
        exact hassigned.stored_picked j
      starts := ?_ }
  · rw [State.picked_slice, Function.update_self, hqueue.head]
    dsimp only
    rw [hassigned.left, clock, Position.demand_one, hwindow, nth.start, Int.add_mul]
    omega
  · have hsame : Action.startsOf k (s.assigned c i k false t).history =
        Action.startsOf k s.history := rfl
    rw [hpicked, State.picked_startsOf, hsame, hstarts, hassigned.left, clock]
    simp [Config.beStart, hfirst, Position.demand_zero, Position.need_zero, hwindow, nth.start]
  · rw [clock, Config.windowEnd]
    unfold nsPerMs
    omega

theorem serve (h : s.BeRound c t₀ k) (robin : s.RoundRobin c t₀ k) (only : c.BeOnly k)
    (regular : s.Regular c) (be : s.BeTurn c) (clock : s.BeClock c w t)
    (inWindow : Action.current s.history = some (w, u)) (nth : s.InNth c t₀ N w u)
    (member : i ∈ c.sliceIds w) (serve : Serve c w u t i k s s') : s'.BeRound c t₀ k := by
  have hcount : (Action.windowStarts s'.history).length = N + 1 := by
    rw [(Act.windows (c := c) (.served member serve)).1, nth.count]
  have hserving : ∀ {j}, (s.slice i).runningProcess = some ⟨k, j⟩ →
      ∃ d, s.BeServing c t₀ k N i d ∧ j = ((c.bePosition k N).job + d) % c.processCount k := by
    intro j running
    obtain ⟨M, d, hM, hs, hj⟩ := h.serving_of running
    obtain rfl : M = N := by
      have := nth.count
      omega
    exact ⟨d, hs, hj⟩
  have hwindow : i.window = w := (c.mem_sliceIds.mp member).1
  have hstart := nth.start
  subst hwindow hstart
  cases serve with
  | begun first idle role stage fresh start before =>
    cases first with
    | true => exact absurd role (only.notSc i)
    | false =>
      obtain ⟨ht, hlt⟩ := clock.begun be inWindow member role stage fresh
      exact h.begun robin only regular nth member idle role stage fresh ht hlt
  | resumed running due before found =>
    obtain ⟨d, hs, rfl⟩ := hserving running
    exact .serving N hcount i (d + 1) (hs.resumed regular due before found)
  | drained running due before exhausted =>
    obtain ⟨d, hs, rfl⟩ := hserving running
    have hlast : d + 1 = c.processCount k := by
      by_contra hne
      have hpos := hs.pos
      have hpending := hs.toServing.pending_stopped (t := t) regular (d + 1) (by omega)
      rw [exhausted _ (Nat.mod_lt _ (c.processCount_pos k))] at hpending
      simp at hpending
    have henough : (c.bePosition k N).demand (c.processCount k) (c.budgets k) (d + 1) ≤
        c.beTime k i.window := by
      have ht := due.symm.trans hs.timeout
      rw [ht, hs.windowEnd] at before
      unfold nsPerMs at before
      omega
    obtain ⟨hposition, hstarts⟩ := hs.drained only hlast henough
    have hidle := hs.toServing.idle_stopped (t := t) true
    have hqueue : ((s.stopped i ⟨k, ((c.bePosition k N).job + d) % c.processCount k⟩ t true).sought k
        (CyclicSearch.next (c.processCount k) (s.partition k).currentProc)).QueueAt c k
          (c.bePosition k (N + 1)) := by
      have hstored : ∀ j, ((s.stopped i ⟨k, ((c.bePosition k N).job + d) % c.processCount k⟩ t
          true).process ⟨k, j⟩).actualBudget = c.budgets k j := fun j =>
        Eq.trans (State.update_field Process.actualBudget rfl) (hs.stored j)
      rw [hposition]
      refine ⟨?_, hstored _, fun j _ => hstored j⟩
      rw [hs.current, CyclicSearch.next_round (c.processCount_pos k), hlast, Nat.add_mod_right,
        Nat.mod_eq_of_lt hs.first]
      simp
    rcases hs.stage with hstage | hclosed
    · exact .finished N hcount i hs.be hidle hqueue hstarts hstage ((hs.role i).mpr rfl)
    · exact .resting (N + 1) hcount hidle hqueue hstarts hclosed
  | cut running closed atEnd late role remaining pos =>
    obtain ⟨d, hs, rfl⟩ := hserving running
    have hleft := hs.left_eq
    rw [← atEnd] at hleft
    rw [hleft, durationCastMs_mul_ms (by unfold nsPerMs at hleft; omega)] at remaining
    subst remaining
    have hshort := Int.sub_pos.mp pos
    refine .resting (N + 1) hcount (fun l m hl => ?_) ?_ (hs.exhausted only hshort.le) closed
    · exact hs.toServing.idle_stopped (t := t) false l m
        ((State.released_running (c := c)).symm.trans hl)
    · rw [hs.position_cut hshort]
      refine ⟨?_, ?_, fun m hm => ?_⟩
      · rw [State.released_currentProc]
        exact hs.current
      · simp
      · have hne : (⟨k, m⟩ : ProcessId) ≠
            ⟨k, ((c.bePosition k N).job + d) % c.processCount k⟩ :=
          fun heq => hm (ProcessId.mk.inj heq).2
        simpa [hne] using hs.stored m
  | dropped running closed atEnd late notBe =>
    obtain ⟨d, hs, -⟩ := hserving running
    exact absurd hs.be notBe
  | spent running closed atEnd late used =>
    obtain ⟨d, hs, rfl⟩ := hserving running
    have hleft := hs.left_eq
    rw [← atEnd] at hleft
    rw [hleft, durationCastMs_mul_ms (by unfold nsPerMs at hleft; omega)] at used
    have hexact := (Int.sub_eq_zero.mp used).symm
    refine .resting (N + 1) hcount (fun l m hl => ?_) ?_ (hs.exhausted only hexact.le) closed
    · exact hs.toServing.idle_stopped (t := t) true l m
        ((State.released_running (c := c)).symm.trans hl)
    · have hstored : ∀ j, ((((s.stopped i ⟨k, ((c.bePosition k N).job + d) % c.processCount k⟩ t
          true).released c i)).process ⟨k, j⟩).actualBudget = c.budgets k j := fun j =>
        Eq.trans (State.update_field Process.actualBudget rfl) (hs.stored j)
      rw [hs.position_spent hexact, hs.toServing.seek_stopped regular]
      exact ⟨by simp, hstored _, fun j _ => hstored j⟩

theorem serve_other (h : s.BeRound c t₀ k) (robin : s.RoundRobin c t₀ k) {m : Nat} (ne : m ≠ k)
    (member : i ∈ c.sliceIds w) (serve : Serve c w u t i m s s') : s'.BeRound c t₀ k := by
  have hapart := State.Apart.serve serve ne
  have hcount := (Act.windows (c := c) (.served member serve)).1
  cases serve with
  | begun first idle role stage =>
    refine h.apart hapart hcount (by rw [State.course_begun]) fun l => ?_
    rw [State.course_begun]
    by_cases hli : l = i
    · subst hli
      have hnot := robin.turn.begun_other idle role ne stage
      simp [hnot, ne]
    · simp [hli]
  | resumed =>
    refine h.apart hapart hcount ?_ fun l => ?_
    · rw [State.picked_course]
      rfl
    · rw [State.picked_course]
      rfl
  | _ => exact h.apart hapart hcount rfl fun _ => .rfl

end State.BeRound

structure State.BeKept (c : Config) (t₀ : Int) (k : Nat) (s : State) : Prop where
  regular : s.Regular c
  timetable : s.OnTimetable c t₀
  robin : s.RoundRobin c t₀ k
  round : s.BeRound c t₀ k

namespace State.BeKept

variable (only : c.BeOnly k) (single : ∀ i k, c.role true i = some k → c.ScOnly k)
  (positive : c.PositiveLengths)

include only single positive

theorem round_act (h : s.BeKept c t₀ k) (clock : s.BeClock c w t)
    (inWindow : Action.current s.history = some (w, u)) (act : Act c w u t s s') :
    s'.BeRound c t₀ k := by
  obtain ⟨N, hnth⟩ := h.timetable.inNth inWindow
  have hcount := (act.windows (c := c)).1
  have hafter : s'.BeTurn c := (h.timetable.act single
    (positive.lt_windowEnd (h.timetable.window_lt inWindow) u) h.regular inWindow act).be
  cases act with
  | noted a ha =>
    have hforeign : a.Foreign k := by rcases ha with rfl | rfl | rfl <;> trivial
    refine h.round.apart (.noted rfl rfl rfl (.one hforeign rfl)) hcount ?_ fun l => ?_
    · rcases ha with rfl | rfl | rfl <;> rfl
    · rcases ha with rfl | rfl | rfl <;> rfl
  | beStarted idle stage => exact h.round.beStarted stage t
  | closing atEnd =>
    refine h.round.closing hnth h.timetable.be inWindow (fun stage nonempty => ?_) fun stage => ?_
    · -- the BE phase has not begun, so the window has no time for it
      obtain ⟨i, hi⟩ := List.exists_mem_of_ne_nil _ nonempty
      have hnone : Action.beStarts s.history = [] := by
        cases h.timetable.be with
        | before hcurrent => simp [inWindow] at hcurrent
        | sc _ _ _ _ starts => exact starts
        | be _ _ _ _ running => simp [stage] at running
        | ended _ _ _ closed => simp [stage] at closed
      cases hafter with
      | before hcurrent => exact absurd (hcurrent.symm.trans inWindow) (by simp)
      | sc _ _ _ running => simp [State.course, Action.course, Course.next] at running
      | be _ _ _ _ running => simp [State.course, Action.course, Course.next] at running
      | ended v x hcurrent _ planned =>
        obtain ⟨rfl, rfl⟩ := Action.current_unique inWindow hcurrent
        have hstarts := planned.1 _ (Config.latestEnd_scEnd hi)
        by_contra hlt
        rw [if_pos (by omega)] at hstarts
        exact absurd (hstarts.symm.trans hnone) (by simp)
    · refine (clock stage).resolve_left fun hbegan => ?_
      cases h.timetable.be with
      | before hcurrent => simp [inWindow] at hcurrent
      | sc _ _ _ running => simp [stage] at running
      | ended _ _ _ closed => simp [stage] at closed
      | be v x E hcurrent _ latest lt starts =>
        obtain ⟨rfl, rfl⟩ := Action.current_unique inWindow hcurrent
        rw [starts, List.cons.injEq, atEnd, Config.windowEnd] at hbegan
        have hsame := hbegan.1
        unfold nsPerMs at hsame
        omega
  | @served _ i m member serve =>
    by_cases hm : m = k
    · subst hm
      exact h.round.serve h.robin only h.regular h.timetable.be clock inWindow hnth member serve
    · exact h.round.serve_other h.robin hm member serve
  | released => exact h.round.apart .released hcount rfl fun _ => .rfl
  | _ => exact h.round.apart (.noted rfl rfl rfl (.same rfl)) hcount rfl fun _ => .rfl

theorem acts (h : s.BeKept c t₀ k) (clock : s.BeClock c w t)
    (inWindow : Action.current s.history = some (w, u)) (aligned : nsPerMs ∣ t - t₀)
    (run : Acts c w u t s s') : s'.BeKept c t₀ k := by
  have hall : s'.BeKept c t₀ k ∧ s'.BeClock c w t ∧ Action.current s'.history = some (w, u) := by
    refine run.invariant (I := fun m => m.BeKept c t₀ k ∧ m.BeClock c w t ∧
      Action.current m.history = some (w, u)) ?_ ⟨h, clock, inWindow⟩
    rintro m m' ⟨hm, hclock, hin⟩ act
    have hpositive := positive.lt_windowEnd (hm.timetable.window_lt hin) u
    exact ⟨⟨hm.regular.act act, hm.timetable.act single hpositive hm.regular hin act,
      hm.robin.act only hm.regular aligned act, hm.round_act only single positive hclock hin act⟩,
      hclock.act hm.timetable.be hin act, act.current.trans hin⟩
  exact hall.1

theorem beat (h : s.BeKept c t₀ k) (beat : Beat c t₀ s s') : s'.BeKept c t₀ k := by
  have hmove : ∀ {m}, Move c t₀ s m → m.BeRound c t₀ k → m.BeKept c t₀ k := fun move round =>
    ⟨h.regular.move move, h.timetable.move single positive h.regular move,
      h.robin.move only h.regular move, round⟩
  have happly : ∀ {m : State}, Move c t₀ s m → s.Apart k m →
      Action.windowStarts m.history = Action.windowStarts s.history → m.course = s.course →
      m.BeKept c t₀ k := fun move apart count course =>
    hmove move (h.round.apart apart count (by rw [course]) fun l => by rw [course])
  cases beat with
  | acts inWindow aligned roles acts =>
    refine h.acts only single positive (fun stage => .inr ?_) inWindow aligned acts
    cases roles with
    | sc hstage => simp [stage] at hstage
    | be _ entered => exact entered
  | begun w u idle closed next aligned acts =>
    have hstarted := hmove (.windowStarted w u idle closed next)
      (h.round.windowStarted idle closed w u _)
    refine hstarted.acts only single positive (fun stage => ?_) rfl aligned acts
    simp [State.course, Action.course, Course.next] at stage
  | framed x => exact happly (.framed x) (.noted rfl rfl rfl (.same rfl)) rfl rfl
  | windowArmed x =>
    exact happly (.windowArmed x) (.noted rfl rfl rfl (.one (a := .windowArmed x) trivial rfl)) rfl rfl
  | scheduled x => exact happly (.scheduled x) (.noted rfl rfl rfl (.same rfl)) rfl rfl

end State.BeKept

theorem State.Fresh.beKept (fresh : s.Fresh c) : s.BeKept c t₀ k where
  regular := fresh.regular
  timetable := fresh.onTimetable
  robin := .start fresh.halted.idle fresh.closed (fresh.heads k) fresh.full fresh.quiet
  round := by
    refine .resting 0 ?_ (fun i j hi => by simp [fresh.halted.idle i] at hi)
      ⟨fresh.heads k, fresh.full _, fun j _ => fresh.full _⟩
      (Action.startsOf_of_quiet fresh.quiet k) fresh.closed
    rw [Action.windowStarts_of_quiet fresh.quiet]
    rfl

/-- BE partition `k` has been run as planned in the windows before the `M`-th one, which is
being run. In this one it waits for the SC partitions, has started all that is planned, or
the timer of its slice expires when the process it runs has used up what it was given. -/
def State.BeKeepsUp (c : Config) (t₀ : Int) (k M : Nat) (s : State) : Prop :=
  (Action.beStarts s.history = [] ∧
    (Action.startsOf k s.history).reverse = c.bePlan t₀ k M) ∨
  (Action.startsOf k s.history).reverse = c.bePlan t₀ k (M + 1) ∨
  ∃ i d, c.sliceOf false k (M % c.windows.length) = some i ∧ (s.slice i).armed = true ∧
    (s.slice i).timeout = c.windowStart t₀ M + (c.scEnd i.window +
      (c.bePosition k M).demand (c.processCount k) (c.budgets k) (d + 1)) * nsPerMs ∧
    (Action.startsOf k s.history).reverse = c.bePlan t₀ k M ++ (List.range (d + 1)).map
      (c.beStart i k (c.windowStart t₀ M) (c.bePosition k M)) ∧
    (Action.startsOf k s.history).reverse <+: c.bePlan t₀ k (M + 1)

theorem State.BeKeepsUp.isPrefix {M : Nat} (h : s.BeKeepsUp c t₀ k M) :
    c.bePlan t₀ k M <+: (Action.startsOf k s.history).reverse ∧
      (Action.startsOf k s.history).reverse <+: c.bePlan t₀ k (M + 1) := by
  rcases h with ⟨-, h⟩ | h | ⟨i, d, -, -, -, h, hprefix⟩
  · rw [h, Config.bePlan_succ]
    exact ⟨List.prefix_rfl, List.prefix_append _ _⟩
  · rw [h, Config.bePlan_succ]
    exact ⟨List.prefix_append _ _, List.prefix_rfl⟩
  · exact ⟨h ▸ List.prefix_append _ _, hprefix⟩

theorem State.BeKept.keepsUp (h : s.BeKept c t₀ k) (only : c.BeOnly k) (underway : s.Underway c t₀)
    (nth : s.InNth c t₀ N w u) (inWindow : Action.current s.history = some (w, u)) :
    s.BeKeepsUp c t₀ k N := by
  obtain ⟨rfl, -⟩ := underway.current_eq inWindow
  have hcount := nth.count
  cases h.round with
  | resting M count _ _ _ closed => exact absurd closed underway.roles.stage_ne
  | waiting M count idle queue starts hstage roles =>
    obtain rfl : M = N := by omega
    cases underway.roles with
    | sc stage =>
      refine .inl ⟨?_, by rw [starts, List.reverse_reverse]⟩
      cases h.timetable.be with
      | before hcurrent => simp [inWindow] at hcurrent
      | sc _ _ _ _ none => exact none
      | be _ _ _ _ running => simp [stage] at running
      | ended _ _ _ closed => simp [stage] at closed
    | be stage entered =>
      have hslice : c.sliceOf false k (M % c.windows.length) = none := by
        rw [← nth.window]
        cases hslice : c.sliceOf false k s.frame.currentWin with
        | none => rfl
        | some l =>
          obtain ⟨hl, hrole⟩ := Config.sliceOf_some hslice
          exact absurd (entered l hl k hrole) (roles l)
      obtain ⟨hwindow, -⟩ := Config.beWindow_empty (Config.beTime_eq_zero (.inl hslice))
        (c.windowStart t₀ M)
      refine .inr (.inl ?_)
      rw [starts, List.reverse_reverse, Config.bePlan_succ, hwindow, List.append_nil]
  | serving M count i d serving =>
    obtain rfl : M = N := by omega
    have hslice := serving.window ▸ serving.sliceOf only
    refine .inr (.inr ⟨i, d, hslice, ?_, serving.timeout, ?_, ?_⟩)
    · rw [underway.sound.coherent.armed_iff, serving.running]
      rfl
    · rw [serving.starts, List.reverse_reverse]
    · rw [serving.starts, List.reverse_reverse, Config.bePlan_succ, Config.beWindow_eq hslice,
        List.prefix_append_right_inj]
      exact (Position.range_prefix_started (Config.budgets_pos k) (c.bePosition_valid k M)
        serving.pos serving.before).map _
  | finished M count i be idle queue starts =>
    obtain rfl : M = N := by omega
    exact .inr (.inl (by rw [starts, List.reverse_reverse]))

theorem Event.undisturbed_kept {gen : Nat → Nat} {timeout : Option Int} {es : List Event}
    (zero : c.ZeroJitter) (positive : c.PositiveLengths) (roles : c.SingleRole)
    (unshared : c.Unshared)
    (run : Run (Event.UndisturbedStep c) (State.initial c gen timeout) es s) :
    (∀ a ∈ s.history, ¬a.Schedules) ∨ ∃ t₀, s.Underway c t₀ ∧ s.OnTimetable c t₀ ∧
      ∀ k, c.BeOnly k → s.BeKept c t₀ k := by
  have hsingle : ∀ i k, c.role true i = some k → c.ScOnly k :=
    fun _ _ hk => roles.scOnly unshared hk
  refine (undisturbed_inBeat zero positive run).imp_right ?_
  rintro ⟨t₀, underway, s₀, fresh, beats⟩
  have htimetable : s.Regular c ∧ s.OnTimetable c t₀ :=
    beats.invariant (I := fun m => m.Regular c ∧ m.OnTimetable c t₀)
      (fun _ _ h e => e.moves.invariant (I := fun m => m.Regular c ∧ m.OnTimetable c t₀)
        (fun _ _ h e => ⟨h.1.move e, h.2.move hsingle positive h.1 e⟩) h)
      ⟨fresh.regular, fresh.onTimetable⟩
  exact ⟨t₀, underway, htimetable.2, fun k only => beats.invariant (I := fun m => m.BeKept c t₀ k)
    (fun _ _ h e => h.beat only hsingle positive e) fresh.beKept⟩

theorem State.OnTimetable.nth_of {N : Nat} (h : s.OnTimetable c t₀) (underway : s.Underway c t₀)
    (windows : Action.windowStarts s.history = (c.windowPlan t₀ N).reverse) :
    ∃ M w u, N = M + 1 ∧ s.InNth c t₀ M w u ∧ Action.current s.history = some (w, u) := by
  obtain ⟨u, inWindow, -⟩ := underway.window
  obtain ⟨M, hnth⟩ := h.inNth inWindow
  have hcount := hnth.count
  rw [windows, List.length_reverse, Config.windowPlan, List.length_map, List.length_range] at hcount
  exact ⟨M, _, u, hcount, hnth, inWindow⟩

/-- Whatever the latency, an undisturbed run starts the processes of a BE partition when
and with the budgets its plan says. -/
theorem be_timetable {gen : Nat → Nat} {timeout : Option Int} {es : List Event}
    (zero : c.ZeroJitter) (positive : c.PositiveLengths) (roles : c.SingleRole)
    (unshared : c.Unshared) (only : c.BeOnly k)
    (run : Run (Event.UndisturbedStep c) (State.initial c gen timeout) es s) :
    ∃ t₀ N, Action.windowStarts s.history = (c.windowPlan t₀ N).reverse ∧
      (N = 0 → Action.startsOf k s.history = []) ∧ ∀ M, N = M + 1 → s.BeKeepsUp c t₀ k M := by
  rcases Event.undisturbed_kept zero positive roles unshared run with
    quiet | ⟨t₀, underway, timetable, kept⟩
  · refine ⟨0, 0, ?_, fun _ => Action.startsOf_of_quiet quiet k, by simp⟩
    rw [Action.windowStarts_of_quiet quiet]
    rfl
  · obtain ⟨N, hN⟩ := timetable.windows
    obtain ⟨M, w, u, rfl, hnth, inWindow⟩ := timetable.nth_of underway hN
    refine ⟨t₀, M + 1, hN, by simp, fun L hL => ?_⟩
    obtain rfl : M = L := by omega
    exact (kept k only).keepsUp only underway hnth inWindow

/-- The second process is cut short after 1 ms, goes on for 2 ms in the next window, and the
first one starts afresh behind it. -/
theorem be_timetable_twoBes : ∃ (s : State) (t₀ : Int),
    (Action.startsOf 0 s.history).reverse = [
      .started ⟨0, 0⟩ ⟨0, 0⟩ 0 4, .started ⟨0, 0⟩ ⟨0, 1⟩ (4 * nsPerMs) 3,
      .started ⟨0, 0⟩ ⟨0, 1⟩ (5 * nsPerMs) 2, .started ⟨0, 0⟩ ⟨0, 0⟩ (7 * nsPerMs) 4] ∧
    s.BeKeepsUp .twoBes t₀ 0 1 := by
  have hrun : ((Event.play .twoBes (fun s e => e.Undisturbed .twoBes s)
      [.startup 0, .sliceTimer ⟨0, 0⟩, .windowTimer, .sliceTimer ⟨0, 0⟩]
      (State.initial .twoBes (fun _ => 0) none)).map fun s =>
        ((Action.startsOf 0 s.history).reverse, (Action.windowStarts s.history).length)) =
      some ([.started ⟨0, 0⟩ ⟨0, 0⟩ 0 4, .started ⟨0, 0⟩ ⟨0, 1⟩ (4 * nsPerMs) 3,
        .started ⟨0, 0⟩ ⟨0, 1⟩ (5 * nsPerMs) 2, .started ⟨0, 0⟩ ⟨0, 0⟩ (7 * nsPerMs) 4], 2) := by
    decide
  obtain ⟨s, hplay, hs⟩ := Option.map_eq_some_iff.mp hrun
  obtain ⟨hstarts, hcount⟩ := Prod.mk.inj hs
  obtain ⟨t₀, N, hwindows, -, hkeeps⟩ := be_timetable (k := 0) (by decide) (by decide) (by decide)
    (by decide) (by decide) (Event.play_run _ hplay)
  rw [hwindows, List.length_reverse, Config.windowPlan, List.length_map, List.length_range] at hcount
  exact ⟨s, t₀, hstarts, hkeeps 1 hcount⟩

end DemosSched
