import DemosSched.BePlan
import DemosSched.Beats
import DemosSched.Fairness

/-! A BE partition in an undisturbed schedule: in the windows that leave it time its
processes start one after the other as the plan of the partition says. -/

namespace DemosSched

open CyclicService Fallible Relation

variable {c : Config} {t₀ : Int} {k N w : Nat} {u t : Int} {s s' : State} {i : SliceId}

structure State.QueueAt (c : Config) (k : Nat) (p : Position) (s : State) : Prop where
  head : (s.partition k).currentProc = p.job
  left : (s.process ⟨k, p.job⟩).actualBudget = p.left
  full : ∀ j, j ≠ p.job → (s.process ⟨k, j⟩).actualBudget = c.budgets k j

/-- Slice `i` runs the `d`-th process of BE partition `k` after the one it began the
`N`-th window with. -/
structure State.BeServing (c : Config) (t₀ : Int) (k N : Nat) (i : SliceId) (d : Nat) (s : State) :
    Prop extends s.Serving c k i (c.bePosition k N).job d where
  window : i.window = N % c.windows.length
  before : (c.bePosition k N).demand (c.processCount k) (c.budgets k) d < c.beTime k i.window
  timeout : (s.slice i).timeout = c.windowStart t₀ N + (c.scEnd i.window +
    (c.bePosition k N).demand (c.processCount k) (c.budgets k) (d + 1)) * nsPerMs
  stored : ∀ j, (s.process ⟨k, j⟩).actualBudget = c.budgets k j
  starts : Action.startsOf k s.history = (c.bePlan t₀ k N ++ (List.range (d + 1)).map
    (c.beStart i k (c.windowStart t₀ N) (c.bePosition k N))).reverse

inductive State.BeRound (c : Config) (t₀ : Int) (k : Nat) (s : State) : Prop
  | resting (N : Nat) (count : (Action.windowStarts s.history).length = N)
      (idle : ∀ i j, (s.slice i).runningProcess ≠ some ⟨k, j⟩)
      (queue : s.QueueAt c k (c.bePosition k N))
      (starts : Action.startsOf k s.history = (c.bePlan t₀ k N).reverse)
      (closed : s.course.stage = .closed)
  | waiting (N : Nat) (count : (Action.windowStarts s.history).length = N + 1)
      (idle : ∀ i j, (s.slice i).runningProcess ≠ some ⟨k, j⟩)
      (queue : s.QueueAt c k (c.bePosition k N))
      (starts : Action.startsOf k s.history = (c.bePlan t₀ k N).reverse)
      (stage : s.course.stage ≠ .closed) (roles : ∀ i, s.course.role i ≠ some (k, false))
  | serving (N : Nat) (count : (Action.windowStarts s.history).length = N + 1) (i : SliceId) (d : Nat)
      (h : s.BeServing c t₀ k N i d)
  | finished (N : Nat) (count : (Action.windowStarts s.history).length = N + 1) (i : SliceId)
      (be : c.role false i = some k) (idle : ∀ i j, (s.slice i).runningProcess ≠ some ⟨k, j⟩)
      (queue : s.QueueAt c k (c.bePosition k (N + 1)))
      (starts : Action.startsOf k s.history = (c.bePlan t₀ k (N + 1)).reverse)
      (stage : s.course.stage = .running i.window false) (role : s.course.role i = some (k, false))

structure State.InNth (c : Config) (t₀ : Int) (N w : Nat) (u : Int) (s : State) : Prop where
  count : (Action.windowStarts s.history).length = N + 1
  window : w = N % c.windows.length
  start : u = c.windowStart t₀ N

theorem State.OnTimetable.inNth (h : s.OnTimetable c t₀)
    (inWindow : Action.current s.history = some (w, u)) : ∃ N, s.InNth c t₀ N w u := by
  obtain ⟨N, hN⟩ := h.windows
  rw [Action.current_eq_head, hN] at inWindow
  cases N with
  | zero => simp [Config.windowPlan] at inWindow
  | succ N =>
    rw [Config.windowPlan_succ, List.reverse_append, List.reverse_singleton, List.singleton_append,
      List.head?_cons, Option.some.injEq, Prod.mk.injEq] at inWindow
    refine ⟨N, ?_, inWindow.1.symm, inWindow.2.symm⟩
    rw [hN]
    simp [Config.windowPlan]

theorem State.picked_startsOf (c : Config) (s : State) (i : SliceId) (k j : Nat) (t : Int) :
    Action.startsOf k (s.picked c i ⟨k, j⟩ t).history =
      .started i ⟨k, j⟩ t (s.process ⟨k, j⟩).actualBudget :: Action.startsOf k s.history := by
  obtain ⟨older, hh, rfl | ⟨o, rfl⟩⟩ := s.picked_records c i ⟨k, j⟩ t
  · rw [hh]
    simp [Action.startsOf]
  · rw [hh]
    simp [Action.startsOf]

namespace State.QueueAt

variable {p : Position}

theorem apart (h : s.QueueAt c k p) (apart : s.Apart k s') : s'.QueueAt c k p where
  head := apart.current.trans h.head
  left := (apart.stored _).trans h.left
  full j hj := (apart.stored j).trans (h.full j hj)

theorem stored_picked (h : s.QueueAt c k p) (j : Nat) :
    ((s.picked c i ⟨k, p.job⟩ t).process ⟨k, j⟩).actualBudget = c.budgets k j := by
  rw [State.picked_process]
  by_cases hj : j = p.job
  · subst hj
    rw [Function.update_self]
    rfl
  · rw [Function.update_of_ne (by simpa using hj)]
    exact h.full j hj

end State.QueueAt

section Serving

variable {d : Nat}

namespace State.BeServing

variable (h : s.BeServing c t₀ k N i d)

include h

theorem sliceOf (only : c.BeOnly k) : c.sliceOf false k i.window = some i :=
  Config.BeOnly.sliceOf only (Config.role_member h.be) h.be

theorem beTime : c.beTime k i.window = (c.window i.window).length - c.scEnd i.window := by
  have hle := Position.demand_le (Config.budgets_pos k) (c.bePosition_valid k N) (Nat.zero_le d)
  have hbefore := h.before
  rw [Position.demand_zero] at hle
  exact Config.beTime_pos (by omega)

theorem windowEnd : c.windowEnd i.window (c.windowStart t₀ N) =
    c.windowStart t₀ N + (c.scEnd i.window + c.beTime k i.window) * nsPerMs := by
  rw [h.beTime, Config.windowEnd]
  congr 2
  omega

theorem resumed (regular : s.Regular c) (due : (s.slice i).timeout = t)
    (before : t < c.windowEnd i.window (c.windowStart t₀ N)) {j : Nat}
    (found : CyclicSearch.seek (c.processCount k) (fun m => Process.isPending ⟨k, m⟩
      (s.stopped i ⟨k, ((c.bePosition k N).job + d) % c.processCount k⟩ t true)) (c.processCount k)
      (s.partition k).currentProc = (some j, j)) :
    ((s.stopped i ⟨k, ((c.bePosition k N).job + d) % c.processCount k⟩ t true).picked c i
      ⟨k, j⟩ t).BeServing c t₀ k N i (d + 1) := by
  have hserving := h.toServing.resumed (t := t) regular found
  rw [h.toServing.seek_stopped regular, Prod.mk.injEq] at found
  obtain ⟨-, rfl⟩ := found
  have ht := due.symm.trans h.timeout
  have hstored : ∀ m, ((s.stopped i ⟨k, ((c.bePosition k N).job + d) % c.processCount k⟩ t
      true).process ⟨k, m⟩).actualBudget = c.budgets k m := by
    intro m
    rw [← h.stored m]
    by_cases hm : m = ((c.bePosition k N).job + d) % c.processCount k
    · subst hm
      simp
    · simp [hm]
  have hneed : (c.bePosition k N).need (c.processCount k) (c.budgets k) (d + 1) =
      c.budgets k (((c.bePosition k N).job + (d + 1)) % c.processCount k) := rfl
  refine ⟨hserving, h.window, ?_, ?_, fun m => ?_, ?_⟩
  · rw [ht, h.windowEnd] at before
    unfold nsPerMs at before
    omega
  · rw [State.picked_slice, Function.update_self]
    dsimp only
    rw [hstored, ht, Position.demand_succ (d + 1), hneed]
    simp only [Int.add_mul]
    omega
  · rw [State.picked_process]
    by_cases hm : m = ((c.bePosition k N).job + (d + 1)) % c.processCount k
    · subst hm
      rw [Function.update_self]
      rfl
    · rw [Function.update_of_ne (by simpa using hm)]
      exact hstored m
  · have hstarts : Action.startsOf k (s.stopped i ⟨k, ((c.bePosition k N).job + d) %
        c.processCount k⟩ t true).history = Action.startsOf k s.history := rfl
    rw [State.picked_startsOf, hstarts, h.starts, hstored, ht]
    rw [show List.range (d + 1 + 1) = List.range (d + 1) ++ [d + 1] from List.range_succ,
      List.map_append, ← List.append_assoc]
    exact List.reverse_concat.symm

theorem drained (only : c.BeOnly k) (last : d + 1 = c.processCount k)
    (enough : (c.bePosition k N).demand (c.processCount k) (c.budgets k) (d + 1) ≤
      c.beTime k i.window) :
    c.bePosition k (N + 1) = ⟨(c.bePosition k N).job, c.budgets k (c.bePosition k N).job⟩ ∧
      Action.startsOf k s.history = (c.bePlan t₀ k (N + 1)).reverse := by
  have hvalid := c.bePosition_valid k N
  refine ⟨?_, ?_⟩
  · rw [Config.bePosition_succ, ← h.window]
    exact Position.after_all (Config.budgets_pos k) hvalid (last ▸ enough)
  · rw [h.starts, Config.bePlan_succ, Config.beWindow_eq (h.window ▸ h.sliceOf only),
      Position.started_eq (Config.budgets_pos k) hvalid h.pos h.before (by omega)]

theorem exhausted (only : c.BeOnly k)
    (short : c.beTime k i.window ≤
      (c.bePosition k N).demand (c.processCount k) (c.budgets k) (d + 1)) :
    Action.startsOf k s.history = (c.bePlan t₀ k (N + 1)).reverse := by
  rw [h.starts, Config.bePlan_succ, Config.beWindow_eq (h.window ▸ h.sliceOf only),
    Position.started_eq (Config.budgets_pos k) (c.bePosition_valid k N) h.pos h.before fun _ => short]

theorem position_cut
    (short : c.beTime k i.window <
      (c.bePosition k N).demand (c.processCount k) (c.budgets k) (d + 1)) :
    c.bePosition k (N + 1) = ⟨((c.bePosition k N).job + d) % c.processCount k,
      (c.bePosition k N).demand (c.processCount k) (c.budgets k) (d + 1) - c.beTime k i.window⟩ := by
  rw [Config.bePosition_succ, ← h.window]
  exact Position.after_cut (Config.budgets_pos k) (c.bePosition_valid k N) h.pos h.before.le short

theorem position_spent
    (exact : c.beTime k i.window =
      (c.bePosition k N).demand (c.processCount k) (c.budgets k) (d + 1)) :
    c.bePosition k (N + 1) = ⟨((c.bePosition k N).job + (d + 1)) % c.processCount k,
      c.budgets k (((c.bePosition k N).job + (d + 1)) % c.processCount k)⟩ := by
  have hvalid := c.bePosition_valid k N
  have hpos := h.pos
  rw [Config.bePosition_succ, ← h.window]
  by_cases hlast : d + 1 = c.processCount k
  · rw [Position.after_all (Config.budgets_pos k) hvalid (by rw [exact, hlast]), hlast,
      Nat.add_mod_right, Nat.mod_eq_of_lt hvalid.job]
  · have hneed : (c.bePosition k N).need (c.processCount k) (c.budgets k) (d + 1) =
        c.budgets k (((c.bePosition k N).job + (d + 1)) % c.processCount k) := rfl
    have hbudget := Config.budgets_pos (c := c) k
      (((c.bePosition k N).job + (d + 1)) % c.processCount k)
    have hsucc : (c.bePosition k N).demand (c.processCount k) (c.budgets k) (d + 1 + 1) =
        (c.bePosition k N).demand (c.processCount k) (c.budgets k) (d + 1) +
          (c.bePosition k N).need (c.processCount k) (c.budgets k) (d + 1) :=
      Position.demand_succ (d + 1)
    rw [Position.after_cut (Config.budgets_pos k) hvalid (show d + 1 < c.processCount k by omega)
      exact.ge (by omega), Position.nth, Position.mk.injEq]
    exact ⟨rfl, by omega⟩

end State.BeServing

end Serving

/-- In the BE phase every BE partition of the window has been taken over, or the phase
has begun at `t`. -/
def State.BeClock (c : Config) (w : Nat) (t : Int) (s : State) : Prop :=
  s.course.stage = .running w false → Action.beStarts s.history = [t] ∨
    ∀ i ∈ c.sliceIds w, ∀ k, c.role false i = some k → s.course.role i = some (k, false)

namespace State.BeClock

theorem congr (h : s.BeClock c w t)
    (stage : s'.course.stage = .running w false → s.course.stage = .running w false)
    (role : s'.course.role = s.course.role)
    (starts : Action.beStarts s'.history = Action.beStarts s.history) : s'.BeClock c w t := by
  intro hstage
  rw [starts, role]
  exact h (stage hstage)

theorem serve {l : SliceId} {m : Nat} (h : s.BeClock c w t) (member : l ∈ c.sliceIds w)
    (serve : Serve c w u t l m s s') : s'.BeClock c w t := by
  have hstarts : Action.beStarts s'.history = Action.beStarts s.history :=
    serve.grows.fixed fun a x ha => by
      cases a with
      | entered | started | stopped | drawn | shortened => rfl
      | _ => exact absurd ha id
  have hstage : s'.course.stage = s.course.stage :=
    serve.grows.fixed (f := fun x => (Action.course x).stage) fun _ x ha =>
      Action.course_ofSlice x ha
  cases serve with
  | begun first _ hrole stage fresh =>
    intro hrun
    rw [hstage, stage, Stage.running.injEq] at hrun
    obtain rfl := hrun.2
    refine .inl (hstarts.trans ((h stage).resolve_right fun hall => ?_))
    exact fresh (hall l member m hrole)
  | resumed => exact h.congr (fun hs => hstage ▸ hs) (by rw [State.picked_course]; rfl) hstarts
  | _ => exact h.congr (fun hs => hstage ▸ hs) rfl hstarts

theorem act (h : s.BeClock c w t) (be : s.BeTurn c)
    (inWindow : Action.current s.history = some (w, u)) (act : Act c w u t s s') :
    s'.BeClock c w t := by
  cases act with
  | noted a ha =>
    refine h.congr (fun hs => ?_) ?_ ?_
    all_goals rcases ha with rfl | rfl | rfl
    all_goals first | exact hs | rfl
  | beStarted idle stage =>
    refine fun _ => .inl ?_
    have hnone : Action.beStarts s.history = [] := by
      cases be with
      | before hcurrent => simp [inWindow] at hcurrent
      | sc _ _ _ _ starts => exact starts
      | be _ _ _ _ running => simp [stage] at running
      | ended _ _ _ closed => simp [stage] at closed
    change t :: Action.beStarts s.history = [t]
    rw [hnone]
  | closing =>
    intro hs
    simp [State.course, Action.course, Course.next] at hs
  | served member serve => exact h.serve member serve
  | _ => exact h.congr id rfl rfl

theorem begun {l : SliceId} {m : Nat} (h : s.BeClock c w t) (be : s.BeTurn c)
    (inWindow : Action.current s.history = some (w, u)) (member : l ∈ c.sliceIds w)
    (role : c.role false l = some m) (stage : s.course.stage = .running w false)
    (fresh : s.course.role l ≠ some (m, false)) :
    t = u + c.scEnd w * nsPerMs ∧ c.scEnd w < (c.window w).length := by
  have hbegan := (h stage).resolve_right fun hall => fresh (hall l member m role)
  cases be with
  | before hcurrent => simp [inWindow] at hcurrent
  | sc _ _ _ running => simp [stage] at running
  | ended _ _ _ closed => simp [stage] at closed
  | be v x E hcurrent _ latest lt starts =>
    obtain ⟨rfl, rfl⟩ := Action.current_unique inWindow hcurrent
    obtain rfl := latest.eq_scEnd
    rw [starts, List.cons.injEq] at hbegan
    exact ⟨hbegan.1.symm, lt⟩

end State.BeClock

namespace State.BeRound

theorem apart (h : s.BeRound c t₀ k) (apart : s.Apart k s')
    (count : Action.windowStarts s'.history = Action.windowStarts s.history)
    (stage : s'.course.stage = s.course.stage)
    (role : ∀ l, s'.course.role l = some (k, false) ↔ s.course.role l = some (k, false)) :
    s'.BeRound c t₀ k := by
  have hstarts : Action.startsOf k s'.history = Action.startsOf k s.history :=
    apart.grows.fixed fun _ l ha => Action.startsOf_foreign l (.inl ha)
  have hidle : (∀ i j, (s.slice i).runningProcess ≠ some ⟨k, j⟩) →
      ∀ i j, (s'.slice i).runningProcess ≠ some ⟨k, j⟩ :=
    fun idle i j hi => idle i j ((apart.running i j).mp hi)
  cases h with
  | resting N hcount idle queue starts closed =>
    exact .resting N (by rw [count, hcount]) (hidle idle) (queue.apart apart) (hstarts.trans starts)
      (stage.trans closed)
  | waiting N hcount idle queue starts running roles =>
    exact .waiting N (by rw [count, hcount]) (hidle idle) (queue.apart apart) (hstarts.trans starts)
      (by rwa [stage]) fun i hi => roles i ((role i).mp hi)
  | serving N hcount i d h =>
    have hruns : Action.runs k s'.history = Action.runs k s.history :=
      apart.grows.fixed fun _ l ha => Action.runs_foreign l ha
    have hcompletions : Action.completions k s'.history = Action.completions k s.history :=
      apart.grows.fixed fun _ l ha => Action.completions_foreign l ha
    have hrunning := (apart.running i _).mpr h.running
    exact .serving N (by rw [count, hcount]) i d
      { first := h.first
        pos := h.pos
        be := h.be
        running := hrunning
        only := fun l j hl => h.only l j ((apart.running l j).mp hl)
        runs := hruns.trans h.runs
        current := apart.current.trans h.current
        flags := fun e he => (apart.completed _).trans (h.flags e he)
        completions := by rw [hcompletions]; exact h.completions
        stage := by rw [stage]; exact h.stage
        role := fun l => (role l).trans (h.role l)
        window := h.window
        before := h.before
        timeout := (apart.timeout i _ hrunning).trans h.timeout
        stored := fun j => (apart.stored j).trans (h.stored j)
        starts := hstarts.trans h.starts }
  | finished N hcount i be idle queue starts hstage hrole =>
    exact .finished N (by rw [count, hcount]) i be (hidle idle) (queue.apart apart)
      (hstarts.trans starts) (stage.trans hstage) ((role i).mpr hrole)

theorem beStarted (h : s.BeRound c t₀ k) (stage : s.course.stage = .running w true) (t : Int) :
    (s.record (.beStarted w t)).BeRound c t₀ k := by
  cases h with
  | resting N count idle queue starts closed => simp [stage] at closed
  | waiting N count idle queue starts hstage roles =>
    exact .waiting N count idle ⟨queue.head, queue.left, queue.full⟩ starts (by
      simp [State.course, Action.course, Course.next]) roles
  | serving N count i d h => simpa [stage] using h.stage
  | finished N count i be idle queue starts hstage => simp [stage] at hstage

theorem closing (h : s.BeRound c t₀ k) (nth : s.InNth c t₀ N w u) (be : s.BeTurn c)
    (inWindow : Action.current s.history = some (w, u))
    (missed : s.course.stage = .running w true → c.sliceIds w ≠ [] → (c.window w).length ≤ c.scEnd w)
    (taken : s.course.stage = .running w false → ∀ i ∈ c.sliceIds w, ∀ m,
      c.role false i = some m → s.course.role i = some (m, false)) :
    (s.record (.onWindowEnd w)).BeRound c t₀ k := by
  cases h with
  | resting M count idle queue starts =>
    exact .resting M count idle ⟨queue.head, queue.left, queue.full⟩ starts rfl
  | waiting M count idle queue starts hstage roles =>
    obtain rfl : M = N := by
      have := nth.count
      omega
    have hnone : c.beTime k (M % c.windows.length) = 0 := by
      rw [← nth.window]
      refine Config.beTime_eq_zero ?_
      cases hslice : c.sliceOf false k w with
      | none => exact .inl rfl
      | some l =>
        obtain ⟨hl, hrole⟩ := Config.sliceOf_some hslice
        refine .inr ?_
        cases be with
        | before hcurrent => simp [inWindow] at hcurrent
        | ended _ _ _ closed => exact absurd closed hstage
        | sc v x hcurrent running =>
          obtain ⟨rfl, rfl⟩ := Action.current_unique inWindow hcurrent
          exact missed running (List.ne_nil_of_mem hl)
        | be v x E hcurrent running =>
          obtain ⟨rfl, rfl⟩ := Action.current_unique inWindow hcurrent
          exact absurd (taken running l hl k hrole) (roles l)
    obtain ⟨hwindow, hposition⟩ := Config.beWindow_empty hnone (c.windowStart t₀ M)
    refine .resting (M + 1) count idle ?_ ?_ rfl
    · rw [hposition]
      exact ⟨queue.head, queue.left, queue.full⟩
    · rw [Config.bePlan_succ, hwindow, List.append_nil]
      exact starts
  | serving M count i d h =>
    exact .serving M count i d ⟨⟨h.first, h.pos, h.be, h.running, h.only, h.runs, h.current, h.flags,
      h.completions, .inr rfl, h.role⟩, h.window, h.before, h.timeout, h.stored, h.starts⟩
  | finished M count i be idle queue starts =>
    exact .resting (M + 1) count idle ⟨queue.head, queue.left, queue.full⟩ starts rfl

theorem windowStarted (h : s.BeRound c t₀ k) (allIdle : s.AllIdle)
    (closed : s.course.stage = .closed) (w : Nat) (u : Int) (x : Window) :
    ((s.record (.windowStarted w u)).setWindow w x).BeRound c t₀ k := by
  cases h with
  | resting N count idle queue starts =>
    refine .waiting N ?_ idle ⟨queue.head, queue.left, queue.full⟩ starts ?_ fun i => ?_
    · change (Action.windowStarts s.history).length + 1 = N + 1
      rw [count]
    · simp [State.course, Action.course, Course.next]
    · simp [State.course, Action.course, Course.next]
  | waiting N count idle queue starts hstage => exact absurd closed hstage
  | serving N count i d h => simpa [allIdle i] using h.running
  | finished N count i be idle queue starts hstage => simp [closed] at hstage

theorem serving_of (h : s.BeRound c t₀ k) {j : Nat}
    (running : (s.slice i).runningProcess = some ⟨k, j⟩) :
    ∃ N d, (Action.windowStarts s.history).length = N + 1 ∧ s.BeServing c t₀ k N i d ∧
      j = ((c.bePosition k N).job + d) % c.processCount k := by
  cases h with
  | resting _ _ idle => exact absurd running (idle i j)
  | waiting _ _ idle => exact absurd running (idle i j)
  | finished _ _ _ _ idle => exact absurd running (idle i j)
  | serving N count l d h =>
    obtain rfl := h.only i j running
    have hrun := h.running
    rw [running, Option.some.injEq, ProcessId.mk.injEq] at hrun
    exact ⟨N, d, count, h, hrun.2⟩

end State.BeRound

end DemosSched
