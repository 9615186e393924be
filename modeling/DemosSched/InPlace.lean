import DemosSched.DefaultBudgets
import DemosSched.Overruns

/-! Documents that define every partition in the slice that uses it and leave budgets and
jitters out. Their partitions have one role of one slice each, so that the timetable
applies to them, and their budgets fit into their windows. -/

namespace DemosSched

open Yaml Fallible

variable {δ : Type} {y : Conversions δ} {maxCpus : Nat} {toHz : δ → Nat} {allowed : CpuSet}

variable (y) in
/-- Every partition is defined where it is used, and no process states a budget or jitter. -/
structure YamlConfig.Plain (c : YamlConfig) : Prop where
  listed : elementsAt c.config "partitions" = []
  inline : ∀ u ∈ uses y c.config, u.reference.isInline = true
  unstated : ∀ d ∈ definitionsOf (uses y c.config),
    ∀ p ∈ partitionProcesses d.node d.totalBudget, p.1.has "budget" = false ∧ p.1.has "jitter" = false

theorem normalizeProcess_unjittered (inv : y.Inverts) {proc np : Node} {t : Single}
    {o : ProcessObject} (normal : normalizeProcess y proc t = .ok np)
    (unstated : proc.has "jitter" = false) (run : createProcess y toHz np = .ok o) :
    o.budgetJitter = 0 := by
  simp only [normalizeProcess, bind_def, bind_eq_ok, pure_def, Except.ok.injEq] at normal
  obtain ⟨f₀, hread, f₁, hbudget, b, -, f₂, hjitter, rfl⟩ := normal
  have h₀ := readProcess_ok inv hread
  obtain ⟨h₁, hkeep₁, -⟩ := setDefaultBudget_ok inv h₀ hbudget
  have hnone : f₁.has "jitter" = false := by
    rw [Fields.has, hkeep₁ "jitter" (by decide)]
    exact (h₀.given "jitter" (by decide)).trans unstated
  rw [checkJitter, if_neg (by simp [hnone]), pure_def, Except.ok.injEq] at hjitter
  have hfind : (setDefaultInit y f₂).find "jitter" = some (y.int 0) := by
    rw [← hjitter]
    unfold setDefaultInit
    split
    · exact Fields.find_set_self
    · rw [Fields.find_set_ne (by decide)]
      exact Fields.find_set_self
  simp only [createProcess, get_toNode, bind_def, bind_ok, bind_eq_ok, pure_def,
    Except.ok.injEq] at run
  obtain ⟨-, -, j, hj, -, -, -, -, -, -, rfl⟩ := run
  rw [hfind, inv.asInt_int (by unfold IsInt; omega), Except.ok.injEq] at hj
  exact hj.symm

theorem uses_at_unique {us pre pre' post post' : List Use} {u v : Use} {d e : Definition}
    (hu : us = pre ++ u :: post) (hv : us = pre' ++ v :: post') (inlineU : u.reference = .inline d)
    (inlineV : v.reference = .inline e)
    (same : (definitionsOf pre).length = (definitionsOf pre').length) : u = v := by
  rcases List.append_eq_append_iff.mp (hu.symm.trans hv) with ⟨mid, hpre, hrest⟩ | ⟨mid, hpre, hrest⟩
  · cases mid with
    | nil => exact (List.cons.inj hrest).1
    | cons x mid =>
      obtain ⟨rfl, -⟩ := List.cons.inj hrest
      have hlt := definitionsOf_length_lt pre mid inlineU
      rw [← hpre] at hlt
      omega
  · cases mid with
    | nil => exact (List.cons.inj hrest).1.symm
    | cons x mid =>
      obtain ⟨rfl, -⟩ := List.cons.inj hrest
      have hlt := definitionsOf_length_lt pre' mid inlineV
      rw [← hpre] at hlt
      omega

section Document

variable {c c' : YamlConfig} {validate : List WindowObject → Except Failure Unit}
  {os : SchedulerObjects} (inv : y.Inverts) (accepted : c.normalize y maxCpus = .ok c')
  (distinct : c.NamesDistinct y) (kept : c.Kept y) (plain : c.Plain y)
  (created : createSchedulerObjects y maxCpus toHz validate allowed c' = .ok os)
  (runnable : os.Runnable)

include inv accepted distinct kept plain created

/-- A slice has no partition but those defined in it. -/
theorem role_use {sc : Bool} {i : SliceId} {k : Nat}
    (role : (os.toConfig runnable).role sc i = some k) :
    ∃ pre u post d, uses y c.config = pre ++ u :: post ∧ u.reference = .inline d ∧
      u.role = (i, sc) ∧ k = (definitionsOf pre).length := by
  obtain ⟨setCwd, demosCpu, nps, nws, h⟩ := normalize_ok inv accepted
  have hwins := (itemsAt_normalConfig (y.bool setCwd) demosCpu nps nws).2
  rw [← h.config] at hwins
  have hcreated := created_of inv accepted created
  obtain ⟨-, hindex⟩ := Config.mem_sliceIds _ |>.mp (Config.role_member role)
  obtain ⟨w, hw, o, ho, hne, hslice⟩ := SchedulerObjects.toConfig_slice runnable hindex
  rw [SchedulerObjects.toConfig_role runnable hw ho] at role
  obtain ⟨win, slice, hwin, hitem, hrun⟩ := hcreated.slice hw ho
  obtain ⟨part, -, hname⟩ := (createSlice_reads hrun).2 sc k (role ▸ rfl)
  rw [hwins] at hwin
  have hstored : storedNode nws (i, sc) = slice.find (roleKey sc) := by
    simp [storedNode, hwin, hitem]
  have hsome : (storedName (namedUses y (uses y c.config) (counterAtWindows y c)) (i, sc)).isSome =
      true := by
    rw [h.stored] at hstored
    cases hst : storedName (namedUses y (uses y c.config) (counterAtWindows y c)) (i, sc) with
    | some name => rfl
    | none =>
      rw [hst, Option.map_none] at hstored
      rw [← hstored] at hname
      cases hname
  obtain ⟨u, hu, hrole⟩ := storedName_isSome.mp hsome
  obtain ⟨pre, post, hsplit⟩ := List.append_of_mem hu
  cases href : u.reference with
  | name s =>
    have hinline := plain.inline u hu
    simp [Reference.isInline, href, Reference.definition?] at hinline
  | inline d =>
    obtain ⟨w', o', part', huse⟩ := h.useObjects inv distinct kept created hsplit href
    have hsc : u.sc = sc := congrArg Prod.snd hrole
    have hi : u.slice = i := congrArg Prod.fst hrole
    have hw' := huse.window
    have ho' := huse.slice
    have hk := huse.role
    rw [hi, hw, Option.some.injEq] at hw'
    subst hw'
    rw [hi, ho, Option.some.injEq] at ho'
    subst ho'
    rw [hsc, role, listedPartitions, plain.listed, List.map_nil, List.length_nil, Nat.zero_add,
      Option.some.injEq] at hk
    exact ⟨pre, u, post, d, hsplit, href, hrole, hk⟩

theorem role_unique {sc sc' : Bool} {i j : SliceId} {k : Nat}
    (hi : (os.toConfig runnable).role sc i = some k)
    (hj : (os.toConfig runnable).role sc' j = some k) : i = j ∧ sc = sc' := by
  obtain ⟨pre, u, post, d, hu, hud, huRole, hk⟩ :=
    role_use inv accepted distinct kept plain created runnable hi
  obtain ⟨pre', v, post', e, hv, hve, hvRole, hk'⟩ :=
    role_use inv accepted distinct kept plain created runnable hj
  obtain rfl := uses_at_unique hu hv hud hve (hk.symm.trans hk')
  exact Prod.mk.inj (huRole.symm.trans hvRole)

theorem plain_singleRole : (os.toConfig runnable).SingleRole := by
  intro v hv x hx w hw z hz hne heq
  obtain ⟨k, hk⟩ := Option.ne_none_iff_exists'.mp hne
  obtain ⟨i, rfl⟩ := Config.exists_slice hv hx
  obtain ⟨j, rfl⟩ := Config.exists_slice hw hz
  have hsc : (os.toConfig runnable).role true i = some k := hk
  have hbe : (os.toConfig runnable).role false j = some k := heq.trans hk
  exact absurd (role_unique inv accepted distinct kept plain created runnable hsc hbe).2 (by decide)

theorem plain_unshared : (os.toConfig runnable).Unshared := by
  intro w _ i _ j _ sc hne heq
  obtain ⟨k, hk⟩ := Option.ne_none_iff_exists'.mp hne
  exact (role_unique inv accepted distinct kept plain created runnable hk (heq.symm.trans hk)).1

omit distinct kept in
theorem plain_zeroJitter : (os.toConfig runnable).ZeroJitter := by
  obtain ⟨setCwd, demosCpu, nps, nws, h⟩ := normalize_ok inv accepted
  have hparts := (itemsAt_normalConfig (y.bool setCwd) demosCpu nps nws).1
  rw [← h.config] at hparts
  simp only [createSchedulerObjects, bind_def, bind_eq_ok, pure_def, Except.ok.injEq] at created
  obtain ⟨-, -, partitions, hcreate, -, -, -, -, windows, -, -, -, rfl⟩ := created
  rw [createPartitions, hparts, mapM_eq_ok] at hcreate
  intro x hx p hp
  obtain ⟨part, hpart, rfl⟩ := List.mem_pmap.mp hx
  obtain ⟨o, ho, rfl⟩ := List.mem_pmap.mp hp
  obtain ⟨np, hnp, hrun⟩ := forall₂_mem hcreate hpart
  obtain ⟨d, hd, procs, hprocs, rfl⟩ := forall₂_mem h.partitions hnp
  have hdef : d.1 ∈ definitionsOf (uses y c.config) := by
    have hmem := List.mem_map_of_mem (f := Prod.fst) hd
    rwa [map_fst_namedDefinitions, definitions, listedPartitions, plain.listed, List.map_nil,
      List.nil_append] at hmem
  simp only [createPartition, bind_def, bind_eq_ok, itemsAt_partitionNode, pure_def,
    Except.ok.injEq] at hrun
  obtain ⟨-, -, name, -, objects, hobjects, rfl⟩ := hrun
  obtain ⟨m, hm, hcreated⟩ := mapM_mem hobjects ho
  obtain ⟨q, hq, hnormal⟩ := forall₂_mem (mapM_eq_ok.mp hprocs) hm
  exact normalizeProcess_unjittered inv hnormal (plain.unstated d.1 hdef q hq).2 hcreated

theorem plain_fits (lengths : ∀ w ∈ os.windows, 0 < w.length ∧ w.length < 2 ^ 21) (i : SliceId)
    (member : i ∈ (os.toConfig runnable).sliceIds i.window) :
    (os.toConfig runnable).scTotal i ≤ ((os.toConfig runnable).window i.window).length := by
  obtain ⟨-, hindex⟩ := Config.mem_sliceIds _ |>.mp member
  obtain ⟨w, hw, o, ho, -, -⟩ := SchedulerObjects.toConfig_slice runnable hindex
  obtain ⟨hcpus, hwindow⟩ := SchedulerObjects.toConfig_window runnable hw
  obtain ⟨hpos, hsmall⟩ := lengths w (List.mem_of_getElem? hw)
  have hlength : ((os.toConfig runnable).window i.window).length = w.length := by
    rw [hwindow]
    rfl
  cases hrole : (os.toConfig runnable).role true i with
  | none =>
    have htotal : (os.toConfig runnable).scTotal i = 0 := by simp [Config.scTotal, hrole]
    omega
  | some k =>
    obtain ⟨setCwd, demosCpu, nps, nws, h⟩ := normalize_ok inv accepted
    obtain ⟨pre, u, post, d, hsplit, hinline, hu, -⟩ :=
      role_use inv accepted distinct kept plain created runnable hrole
    obtain ⟨w', o', part, huse⟩ := h.useObjects inv distinct kept created hsplit hinline
    have hsc : u.sc = true := congrArg Prod.snd hu
    have hi : u.slice = i := congrArg Prod.fst hu
    have hw' := huse.window
    rw [hi, hw, Option.some.injEq] at hw'
    subst hw'
    have hmem : u ∈ uses y c.config := by simp [hsplit]
    have hdef : d ∈ definitionsOf (uses y c.config) :=
      List.mem_filterMap.mpr ⟨u, hmem, by rw [hinline]; rfl⟩
    have hbudgeted := huse.budgeted hmem hinline runnable hsmall
    have hfits := hbudgeted.fits fun p hp => (plain.unstated d hdef p hp).1
    have hk := hbudgeted.role
    rw [hsc, hi, hrole, Option.some.injEq] at hk
    rw [hsc, hi, if_pos rfl, if_pos rfl, hlength, ← hk] at hfits
    rw [Config.scTotal_eq hrole, hlength]
    omega

end Document

/-- From the document to the schedule. A document that defines its partitions in place, and
leaves budgets and jitters to the scheduler, has a schedule in which nothing is late: in
every undisturbed run, all SC processes of a window have been run in full when it ends, and
the warning about unfinished SC partitions is never printed. -/
theorem plain_document_keeps_up (y : Conversions δ) (inv : y.Inverts) (maxCpus : Nat)
    (toHz : δ → Nat) (c c' : YamlConfig) (accepted : c.normalize y maxCpus = .ok c')
    (distinct : c.NamesDistinct y) (kept : c.Kept y) (plain : c.Plain y) (allowed : CpuSet)
    (nonempty : allowed.Nonempty) (validate : List WindowObject → Except Failure Unit)
    (os : SchedulerObjects)
    (created : createSchedulerObjects y maxCpus toHz validate allowed c' = .ok os)
    (windows_ne : os.windows ≠ [])
    (lengths : ∀ w ∈ os.windows, 0 < w.length ∧ w.length < 2 ^ 21) :
    ∃ runnable : os.Runnable, ∀ gen timeout es s s',
      Run (Event.UndisturbedStep (os.toConfig runnable))
        (State.initial (os.toConfig runnable) gen timeout) es s →
      Event.UndisturbedStep (os.toConfig runnable) s .windowTimer s' →
      ∃ u, Action.current s.history = some (s.frame.currentWin, u) ∧
        MajorFrame.overran (os.toConfig runnable)
          (s.setFrame { s.frame with armed := false }) = false ∧
        ∀ i ∈ (os.toConfig runnable).sliceIds s.frame.currentWin, ∀ k,
          (os.toConfig runnable).role true i = some k → Action.starts k s.history =
            ((List.range ((os.toConfig runnable).processCount k)).map
              ((os.toConfig runnable).scStart i k u)).reverse := by
  have runnable : os.Runnable := by
    obtain ⟨setCwd, demosCpu, nps, nws, h⟩ := normalize_ok inv accepted
    exact (created_of inv accepted created).runnable nonempty (validateConfig_ok h.valid) windows_ne
  have zero := plain_zeroJitter inv accepted plain created runnable
  have roles := plain_singleRole inv accepted distinct kept plain created runnable
  have unshared := plain_unshared inv accepted distinct kept plain created runnable
  have positive : (os.toConfig runnable).PositiveLengths := by
    intro v hv
    obtain ⟨w, hw, rfl⟩ := List.mem_pmap.mp hv
    exact (lengths w hw).1
  have hsingle : ∀ i k, (os.toConfig runnable).role true i = some k →
      (os.toConfig runnable).ScOnly k := fun _ _ hk => roles.scOnly unshared hk
  refine ⟨runnable, fun gen timeout es s s' run step => ?_⟩
  have hfits : ∀ i ∈ (os.toConfig runnable).sliceIds s.frame.currentWin,
      (os.toConfig runnable).scTotal i ≤
        ((os.toConfig runnable).window s.frame.currentWin).length := by
    intro i hi
    obtain ⟨hwindow, -⟩ := Config.mem_sliceIds _ |>.mp hi
    rw [← hwindow] at hi ⊢
    exact plain_fits inv accepted distinct kept plain created runnable lengths i hi
  have hcounted := State.Counted.undisturbed zero positive roles run step.2.1
  obtain ⟨t₀, u, m, htimetable, hunderway, hpunctual, hcurrent, hdue, hstop, hoverran⟩ :=
    Event.windowTimer_atEnd zero positive hsingle run step
  have hfinished := (Window.stop_finished htimetable hunderway hsingle hcurrent hdue hpunctual
    positive roles unshared hcounted hstop).mpr hfits
  refine ⟨u, hcurrent, by rw [hoverran, hfinished]; rfl, fun i hi k hk => ?_⟩
  exact State.starts_all htimetable hunderway hsingle hcurrent hdue hi hk (hfits i hi)

/-- The three commands that share a window of 100 ms are all run before it ends. -/
theorem plain_document_keeps_up_threeCommands : ∃ (os : SchedulerObjects)
    (runnable : os.Runnable) (s : State),
    (Action.starts 0 s.history).length = 3 ∧
    MajorFrame.overran (os.toConfig runnable)
      (s.setFrame { s.frame with armed := false }) = false := by
  have hrun : ((threeCommands.normalize Conversions.decimal 64).toOption.bind fun c' =>
      (createSchedulerObjects Conversions.decimal 64 Int.toNat (fun _ => .ok ()) {0}
        c').toOption.bind fun os =>
          if h : os.Runnable ∧ ∀ w ∈ os.windows, 0 < w.length ∧ w.length < 2 ^ 21 then
            (Event.play (os.toConfig h.1) (fun s e => e.Undisturbed (os.toConfig h.1) s)
              [.startup 0, .sliceTimer ⟨0, 0⟩, .sliceTimer ⟨0, 0⟩, .sliceTimer ⟨0, 0⟩]
              (State.initial (os.toConfig h.1) (fun _ => 0) none)).bind fun s =>
                (Event.play (os.toConfig h.1) (fun s e => e.Undisturbed (os.toConfig h.1) s)
                  [.windowTimer] s).map fun _ => (s.frame.currentWin,
                    (os.toConfig h.1).role true ⟨0, 0⟩, (os.toConfig h.1).processCount 0,
                    (os.toConfig h.1).sliceCount 0)
          else none) = some (0, some 0, 3, 1) := by
    decide +kernel
  have plain : threeCommands.Plain Conversions.decimal :=
    ⟨by decide, by decide, by decide⟩
  have hone : (uses Conversions.decimal threeCommands.config).length = 1 := by decide
  obtain ⟨u, hu⟩ := List.length_eq_one_iff.mp hone
  simp only [Option.bind_eq_some_iff, toOption_eq_some] at hrun
  obtain ⟨c', hc', os, hos, hplay⟩ := hrun
  by_cases h : os.Runnable ∧ ∀ w ∈ os.windows, 0 < w.length ∧ w.length < 2 ^ 21
  · rw [dif_pos h, Option.bind_eq_some_iff] at hplay
    obtain ⟨s, hs, hend⟩ := hplay
    obtain ⟨s', hs', hvalues⟩ := Option.map_eq_some_iff.mp hend
    simp only [Prod.mk.injEq] at hvalues
    obtain ⟨hwindow, hrole, hprocs, hslices⟩ := hvalues
    obtain ⟨runnable, hall⟩ := plain_document_keeps_up Conversions.decimal
      Conversions.decimal_inverts 64 Int.toNat threeCommands c' hc' ⟨by decide, by decide⟩
      (.single hu) plain {0} ⟨0, by decide⟩ (fun _ => .ok ()) os hos h.1.windows_ne h.2
    obtain ⟨t, -, hoverran, hstarts⟩ := hall (fun _ => 0) none _ s s'
      (Event.play_run _ hs) (Event.play_step _ hs')
    have hmem : (⟨0, 0⟩ : SliceId) ∈ (os.toConfig h.1).sliceIds s.frame.currentWin := by
      rw [hwindow, Config.mem_sliceIds, hslices]
      exact ⟨rfl, Nat.one_pos⟩
    refine ⟨os, h.1, s, ?_, hoverran⟩
    rw [hstarts ⟨0, 0⟩ hmem 0 hrole, hprocs]
    rfl
  · rw [dif_neg h] at hplay
    cases hplay

end DemosSched
