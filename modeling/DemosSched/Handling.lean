import DemosSched.Acts

/-! The handlers of the scheduling phase as sequences of acts, and where they leave
the roles of the slices. -/

namespace DemosSched

open Fallible Relation

namespace Slice

variable {c : Config} {scDone : SliceId → Int → State → Except Fault State}

theorem startPartition_picked (zero : c.ZeroJitter) {i : SliceId} {k : Nat} {t : Int} {first : Bool}
    {s s' : State} (regular : s.Regular c)
    (run : startPartition c scDone i k t first s = .ok s') :
    (s.slice i).runningProcess = none ∧
      s' = (s.assigned c i k first t).picked c i
        ⟨k, if first then 0 else (s.partition k).currentProc⟩ t := by
  obtain ⟨idle, run⟩ := startPartition_ok c _ run
  have hassigned := regular.assigned i k first t
  have hhead : ((s.assigned c i k first t).partition k).currentProc =
      if first then 0 else (s.partition k).currentProc := by simp
  have hlt := hassigned.queues k
  rw [hhead] at hlt
  have hpending : Process.isPending ⟨k, if first then 0 else (s.partition k).currentProc⟩
      (s.assigned c i k first t) = true := by
    rw [Process.isPending_iff]
    refine ⟨hassigned.spawned _, ?_⟩
    have hmem : (⟨k, if first then 0 else (s.partition k).currentProc⟩ : ProcessId) ∈
        c.processIds k := c.mem_processIds.mpr ⟨rfl, hlt⟩
    simp [hmem]
  refine ⟨idle, ?_⟩
  rcases startNext_steady zero hassigned.queues hassigned.budgeted run with
    ⟨j, hseek, rfl⟩ | ⟨hnone, -⟩
  · obtain ⟨n, hn⟩ : ∃ n, c.processCount k = n + 1 :=
      Nat.exists_eq_succ_of_ne_zero (c.processCount_pos k).ne'
    rw [hhead, hn, CyclicSearch.seek_pending hpending, Prod.mk.injEq, Option.some.injEq] at hseek
    rw [← hseek.1]
    rfl
  · rw [hnone _ hlt] at hpending
    simp at hpending

theorem scheduleNext_acts (zero : c.ZeroJitter) {i : SliceId} {k j : Nat} {t : Int} {s s' : State}
    (regular : s.Regular c) (running : (s.slice i).runningProcess = some ⟨k, j⟩)
    (owner : (s.slice i).runningPartition = some k)
    (run : scheduleNext c scDone i t s = .ok s') :
    (∃ j', CyclicSearch.seek (c.processCount k)
        (fun m => Process.isPending ⟨k, m⟩ (s.stopped i ⟨k, j⟩ t true)) (c.processCount k)
        (s.partition k).currentProc = (some j', j') ∧
      s' = (s.stopped i ⟨k, j⟩ t true).picked c i ⟨k, j'⟩ t) ∨
    ((∀ m < c.processCount k, Process.isPending ⟨k, m⟩ (s.stopped i ⟨k, j⟩ t true) = false) ∧
      (if (c.slice i).sc = some k then
        scDone i t ((s.stopped i ⟨k, j⟩ t true).sought k
          (CyclicSearch.next (c.processCount k) (s.partition k).currentProc))
      else .ok ((s.stopped i ⟨k, j⟩ t true).sought k
          (CyclicSearch.next (c.processCount k) (s.partition k).currentProc))) = .ok s') := by
  obtain ⟨p, m, hp, hm, run⟩ := scheduleNext_ok c _ run
  rw [running, Option.some.injEq] at hp
  rw [owner, Option.some.injEq] at hm
  subst hp hm
  have hstopped := regular.stopped i ⟨k, j⟩ t true
  rcases startNext_steady zero hstopped.queues hstopped.budgeted run with
    ⟨j', hseek, rfl⟩ | ⟨hnone, hend⟩
  · exact .inl ⟨j', hseek, rfl⟩
  · exact .inr ⟨hnone, hend⟩

end Slice

/-- The partitions the slices of window `w` have taken over: the SC partitions of
`done`, or all BE partitions. -/
inductive State.Roles (c : Config) (w : Nat) (done : List SliceId) (s : State) : Prop
  | sc (stage : s.course.stage = .running w true)
      (entered : ∀ i ∈ done, ∀ k, c.role true i = some k → s.course.role i = some (k, true))
      (fresh : ∀ i ∉ done, s.course.role i = none)
      (noBe : ∀ i k, s.course.role i ≠ some (k, false))
  | be (stage : s.course.stage = .running w false)
      (entered : ∀ i ∈ c.sliceIds w, ∀ k, c.role false i = some k →
        s.course.role i = some (k, false))

theorem State.Roles.congr {c : Config} {w : Nat} {done : List SliceId} {s s' : State}
    (h : s.Roles c w done) (stage : s'.course.stage = s.course.stage)
    (role : s'.course.role = s.course.role) : s'.Roles c w done := by
  cases h with
  | sc running entered fresh noBe =>
    exact .sc (stage.trans running) (by rw [role]; exact entered) (by rw [role]; exact fresh)
      (by rw [role]; exact noBe)
  | be running entered => exact .be (stage.trans running) (by rw [role]; exact entered)

theorem State.Roles.stage_ne {c : Config} {w : Nat} {done : List SliceId} {s : State}
    (h : s.Roles c w done) : s.course.stage ≠ .closed := by
  cases h with
  | sc stage => simp [stage]
  | be stage => simp [stage]

theorem State.course_begun (c : Config) (s : State) (i : SliceId) (k j : Nat) (first : Bool)
    (t : Int) : ((s.assigned c i k first t).picked c i ⟨k, j⟩ t).course =
      { s.course with role := Function.update s.course.role i (some (k, first)) } := by
  rw [State.picked_course]
  rfl

namespace Window

variable {c : Config} {w : Nat} {u t : Int} {s s' : State}

theorem startBes_acts {scDone : SliceId → Int → State → Except Fault State} (zero : c.ZeroJitter)
    (regular : s.Regular c) (stage : s.course.stage = .running w false)
    (noBe : ∀ i k, s.course.role i ≠ some (k, false)) (before : t < c.windowEnd w u)
    (run : (c.sliceIds w).foldlM (fun s j => Slice.startBe c scDone j t s) s = .ok s') :
    Acts c w u t s s' ∧ s'.course.stage = .running w false ∧
      ∀ i ∈ c.sliceIds w, ∀ k, c.role false i = some k → s'.course.role i = some (k, false) := by
  have hall : Acts c w u t s s' ∧ s'.course.stage = .running w false ∧
      (∀ i ∈ c.sliceIds w, ∀ k, c.role false i = some k → s'.course.role i = some (k, false)) ∧
      ∀ i ∉ c.sliceIds w, s'.course.role i = s.course.role i := by
    refine foldlM_induct (fun done m => Acts c w u t s m ∧ m.course.stage = .running w false ∧
      (∀ i ∈ done, ∀ k, c.role false i = some k → m.course.role i = some (k, false)) ∧
      ∀ i ∉ done, m.course.role i = s.course.role i) ?_ ⟨.refl, stage, by simp, by simp⟩ run
    rintro done i rest m m' hsplit ⟨hacts, hstage, hentered, hsame⟩ hi
    have hmember : i ∈ c.sliceIds w := by simp [hsplit]
    have hfresh : i ∉ done := Config.sliceIds_fresh hsplit
    unfold Slice.startBe at hi
    split at hi
    · next hnone =>
      rw [Except.ok.injEq] at hi
      subst hi
      refine ⟨hacts, hstage, fun l hl k hk => ?_, fun l hl => hsame l (by simp_all)⟩
      rcases List.mem_append.mp hl with hl | hl
      · exact hentered l hl k hk
      · rw [List.mem_singleton.mp hl, Config.role] at hk
        simp [hnone] at hk
    · next k hk =>
      have hrole : c.role false i = some k := by simpa [Config.role] using hk
      obtain ⟨hidle, rfl⟩ := Slice.startPartition_picked zero (regular.acts hacts) hi
      have hserve : Serve c w u t i k m _ := .begun false hidle hrole hstage
        (by rw [hsame i hfresh]; exact noBe i k) (by simp) before
      refine ⟨hacts.tail (.served hmember hserve), ?_, fun l hl k' hk' => ?_, fun l hl => ?_⟩
      · rw [State.course_begun]
        exact hstage
      · rw [State.course_begun]
        by_cases hli : l = i
        · subst hli
          rw [hrole, Option.some.injEq] at hk'
          simp [hk']
        · rcases List.mem_append.mp hl with hl | hl
          · simpa [hli] using hentered l hl k' hk'
          · exact absurd (List.mem_singleton.mp hl) hli
      · rw [List.mem_append, not_or, List.mem_singleton] at hl
        rw [State.course_begun]
        simpa [hl.2] using hsame l hl.1
  exact ⟨hall.1, hall.2.1, hall.2.2.1⟩

theorem scDone_acts (zero : c.ZeroJitter) {i : SliceId} {done rest : List SliceId}
    {calls : List Action} (split : c.sliceIds w = done ++ rest) (member : i ∈ c.sliceIds w)
    (regular : s.Regular c) (search : ScSearch c w done calls i s) (roles : s.Roles c w done)
    (latest : done = c.sliceIds w → Action.LatestScEnd c w s.history t)
    (before : t < c.windowEnd w u) (run : scDone c i t s = .ok s') :
    Acts c w u t s s' ∧ s'.Roles c w done ∧
      (s'.course.stage = .running w true → s'.history = s.history) := by
  obtain ⟨rfl, -⟩ := c.mem_sliceIds.mp member
  cases roles with
  | be stage => simp [search.stage] at stage
  | sc stage entered fresh noBe =>
    rw [scDone, sliceScEndCb_succ, if_neg (by simp [search.opened])] at run
    split at run
    · next hfull =>
      have hlength : done.length + rest.length = c.sliceCount i.window := by
        rw [← c.length_sliceIds, split, List.length_append]
      have hdone : done = c.sliceIds i.window := by
        have hle := List.countP_le_length (p := s.isIdle) (l := done)
        have hcount := search.count
        have hrest : rest = [] := List.eq_nil_of_length_eq_zero (by omega)
        rw [split, hrest, List.append_nil]
      subst hdone
      rw [map_eq_ok] at run
      obtain ⟨m, hfold, rfl⟩ := run
      have hbegin : Acts c i.window u t s ((s.counted i.window).record (.beStarted i.window t)) :=
        .tail (.single .counted)
          (.beStarted (search.allIdle hfull) stage entered (latest rfl) before)
      obtain ⟨hacts, hstage, hentered⟩ := startBes_acts (u := u) zero (regular.acts hbegin) rfl noBe
        before hfold
      have hstage' : (m.record (.onBeStart i.window)).course.stage = .running i.window false := hstage
      exact ⟨(hbegin.trans hacts).tail (.noted (.onBeStart i.window) (by simp)),
        .be hstage' hentered, fun hsc => by simp [hstage'] at hsc⟩
    · rw [Except.ok.injEq] at run
      exact run ▸ ⟨.single .counted, .sc stage entered fresh noBe, fun _ => rfl⟩

theorem startSc_acts (zero : c.ZeroJitter) {i : SliceId} {done rest : List SliceId}
    {calls : List Action} (split : c.sliceIds w = done ++ i :: rest) (regular : s.Regular c)
    (phase : ScPhase c w done calls s) (roles : s.Roles c w done)
    (ends : ∀ l, Action.scEnd l s.history = u) (before : u < c.windowEnd w u)
    (run : Slice.startSc c (scDone c) i u s = .ok s') :
    Acts c w u u s s' ∧ s'.Roles c w (done ++ [i]) ∧
      (s'.course.stage = .running w true → ∀ l, Action.scEnd l s'.history = u) := by
  have hmember : i ∈ c.sliceIds w := by simp [split]
  have hfresh : i ∉ done := Config.sliceIds_fresh split
  obtain ⟨hidle, hsearch⟩ := phase.next split
  cases roles with
  | be stage => simp [phase.stage] at stage
  | sc stage entered fresh noBe =>
    unfold Slice.startSc at run
    split at run
    · next hnone =>
      have hroles : s.Roles c w (done ++ [i]) := by
        refine .sc stage (fun l hl k hk => ?_) (fun l hl => fresh l (by simp_all)) noBe
        rcases List.mem_append.mp hl with hl | hl
        · exact entered l hl k hk
        · rw [List.mem_singleton.mp hl, Config.role] at hk
          simp [hnone] at hk
      have hsplit : c.sliceIds w = (done ++ [i]) ++ rest := by simpa using split
      obtain ⟨hacts, hroles', hsame⟩ := scDone_acts (u := u) zero hsplit
        hmember regular hsearch hroles
        (fun _ => ⟨⟨i, hmember, ends i⟩, by rintro x ⟨l, -, rfl⟩; exact (ends l).le⟩) before run
      exact ⟨hacts, hroles', fun hsc l => by rw [hsame hsc]; exact ends l⟩
    · next k hk =>
      have hrole : c.role true i = some k := by simpa [Config.role] using hk
      obtain ⟨-, rfl⟩ := Slice.startPartition_picked zero regular run
      have hserve : Serve c w u u i k s _ := .begun true hidle hrole stage
        (by rw [fresh i hfresh]; simp) (fun _ => rfl) before
      refine ⟨.single (.served hmember hserve), ?_, fun _ l => ?_⟩
      · refine .sc (by rw [State.course_begun]; exact stage) (fun l hl k' hk' => ?_) (fun l hl => ?_)
          (fun l k' => ?_)
        all_goals rw [State.course_begun]
        all_goals by_cases hli : l = i
        · subst hli
          rw [hrole, Option.some.injEq] at hk'
          simp [hk']
        · rcases List.mem_append.mp hl with hl | hl
          · simpa [hli] using entered l hl k' hk'
          · exact absurd (List.mem_singleton.mp hl) hli
        · simp [hli] at hl
        · simpa [hli] using fresh l (by simp_all)
        · subst hli
          simp
        · simpa [hli] using noBe l k'
      · rcases (s.assigned c i k true u).picked_history c i ⟨k, 0⟩ u with h | ⟨o, h⟩
        · simp only [if_true] at h ⊢
          rw [h]
          exact ends l
        · simp only [if_true] at h ⊢
          rw [h]
          exact ends l

theorem start_acts (zero : c.ZeroJitter) (startable : Startable c w s) (regular : s.Regular c)
    (before : u < c.windowEnd w u) (run : start c w u s = .ok s') :
    Acts c w u u ((s.record (.windowStarted w u)).setWindow w
      { s.window w with finishedScPartitions := 0 }) s' ∧ s'.Roles c w (c.sliceIds w) := by
  simp only [start, bind_def, bind_eq_ok, pure_def, Except.ok.injEq] at run
  obtain ⟨m, hfold, rfl⟩ := run
  set s₀ := (s.record (.windowStarted w u)).setWindow w
    { s.window w with finishedScPartitions := 0 } with hs₀
  have hregular : s₀.Regular c := ⟨regular.queues, regular.budgeted, regular.spawned⟩
  have hall : Acts c w u u s₀ m ∧ Starting c w (c.sliceIds w) [] m ∧ m.Roles c w (c.sliceIds w) ∧
      (m.course.stage = .running w true → ∀ l, Action.scEnd l m.history = u) := by
    refine foldlM_induct (fun done m => Acts c w u u s₀ m ∧ Starting c w done [] m ∧
      m.Roles c w done ∧ (m.course.stage = .running w true → ∀ l, Action.scEnd l m.history = u)) ?_
      ⟨.refl, .inl (begun_scPhase startable.idle startable.opened),
        .sc rfl (by simp) (fun _ _ => rfl) (fun _ _ => by simp [hs₀, State.course, Action.course,
          Course.next]), fun _ _ => rfl⟩ hfold
    rintro done i rest m m' hsplit ⟨hacts, hphase | ⟨-, hdone⟩, hroles, hends⟩ hi
    · have hm := hregular.acts hacts
      obtain ⟨hnext, hroles', hends'⟩ := startSc_acts zero hsplit hm hphase hroles
        (hends hphase.stage) before hi
      exact ⟨hacts.trans hnext, (hphase.startSc hsplit hm.queues hi).2, hroles', hends'⟩
    · -- the list ended with the slice that began the BE phase
      have hlength := congrArg List.length hsplit
      rw [hdone] at hlength
      simp at hlength
  obtain ⟨hacts, -, hroles, -⟩ := hall
  exact ⟨(hacts.tail (.noted (.onWindowStart w) (by simp))).tail (.noted (.onScStart w) (by simp)),
    hroles.congr rfl rfl⟩

end Window

theorem Slice.timer_acts {c : Config} {w : Nat} {u t : Int} {i : SliceId} {p : ProcessId}
    {s s' : State} (zero : c.ZeroJitter) (phase : Phase c w s) (regular : s.Regular c)
    (coherent : s.Coherent c w) (roles : s.Roles c w (c.sliceIds w))
    (running : (s.slice i).runningProcess = some p) (due : (s.slice i).timeout = t)
    (before : t < c.windowEnd w u) (latest : ∀ l, Action.scEnd l s.history ≤ t)
    (run : scheduleNext c (Window.scDone c) i t s = .ok s') :
    Acts c w u t s s' ∧ s'.Roles c w (c.sliceIds w) := by
  have hmember := coherent.running i p running
  obtain ⟨howner, -⟩ := coherent.owner i p running
  obtain ⟨k, j⟩ := p
  rcases scheduleNext_acts zero regular running howner run with ⟨j', hseek, rfl⟩ | ⟨hover, hend⟩
  · refine ⟨.single (.served hmember (.resumed running due before hseek)), roles.congr ?_ ?_⟩
    · rw [State.picked_course]
      rfl
    · rw [State.picked_course]
      rfl
  · have hdrained : Serve c w u t i k s _ := .drained running due before hover
    have hacts : Acts c w u t s _ := .single (.served hmember hdrained)
    split at hend
    · have hbe : ∀ calls, BePhase c w calls s → Acts c w u t s s' ∧ s'.Roles c w (c.sliceIds w) := by
        intro calls h
        obtain ⟨rfl, -⟩ := c.mem_sliceIds.mp hmember
        have hfinished : c.sliceCount i.window ≤ (((s.stopped i ⟨k, j⟩ t true).sought k
            (CyclicSearch.next (c.processCount k) (s.partition k).currentProc)).window
              i.window).finishedScPartitions := h.finished
        rw [Window.scDone, Window.sliceScEndCb_finished 1 hfinished, Except.ok.injEq] at hend
        exact hend ▸ ⟨hacts.tail .counted, roles.congr rfl rfl⟩
      rcases phase with (h | ⟨h, -⟩) | h
      · have hsearch := h.stopped hmember running t
        have hlatest : Action.LatestScEnd c w (.stopped i ⟨k, j⟩ t true :: s.history) t := by
          obtain ⟨rfl, -⟩ := c.mem_sliceIds.mp hmember
          exact (Action.latestScEnd_stopped hmember).mpr fun l _ _ => latest l
        obtain ⟨hdone, hroles, -⟩ := Window.scDone_acts (u := u) zero (List.append_nil _).symm hmember
          (regular.serve hdrained)
          ⟨hsearch.alike, hsearch.count, hsearch.opened, hsearch.stage, hsearch.calls,
            hsearch.entered, hsearch.exhausted⟩
          (roles.congr rfl rfl) (fun _ => hlatest) before hend
        exact ⟨hacts.trans hdone, hroles⟩
      · exact hbe _ h
      · exact hbe _ h
    · rw [Except.ok.injEq] at hend
      exact hend ▸ ⟨hacts, roles.congr rfl rfl⟩

theorem State.released_currentProc (c : Config) (s : State) (i : SliceId) (k : Nat) :
    ((s.released c i).partition k).currentProc = (s.partition k).currentProc := by
  rw [State.released_partition]
  split <;> rfl

theorem Slice.stop_acts {c : Config} {w : Nat} {u t : Int} {i : SliceId} {s s' : State}
    (member : i ∈ c.sliceIds w) (stopping : (s.window w).stopping = true)
    (closed : s.course.stage = .closed) (atEnd : t = c.windowEnd w u)
    (owner : ∀ p, (s.slice i).runningProcess = some p →
      (s.slice i).runningPartition = some p.part ∧ t ≤ (s.slice i).timeout)
    (run : stop c (Window.scDone c) i t s = .ok s') : Acts c w u t s s' := by
  obtain ⟨rfl, -⟩ := c.mem_sliceIds.mp member
  rcases stop_cases c stopping run with
    ⟨hidle, rfl⟩ | ⟨⟨k, j⟩, m, hrun, hm, hused, rfl⟩ |
      ⟨⟨k, j⟩, r, hrun, hr, -, ⟨hbe, hpos, hlt, rfl⟩ | ⟨hbe, rfl⟩⟩
  · exact .single (.released member hidle closed)
  · obtain ⟨howner, hlate⟩ := owner _ hrun
    obtain rfl : k = m := by simpa [howner] using hm
    have hspent := Act.served member (.spent hrun closed atEnd hlate hused)
    have hsought : (Partition.seekPendingProcess c k
        ((s.stopped i ⟨k, j⟩ t true).released c i)).2 =
        ((s.stopped i ⟨k, j⟩ t true).released c i).sought k
          (CyclicSearch.seek (c.processCount k)
            (fun m => Process.isPending ⟨k, m⟩ (s.stopped i ⟨k, j⟩ t true)) (c.processCount k)
            (s.partition k).currentProc).2 := by
      rw [Partition.seekPendingProcess_eq, State.released_currentProc]
      rfl
    unfold spent
    simp only [hsought]
    split
    · exact .tail (.single hspent) .counted
    · exact .single hspent
  · obtain ⟨howner, hlate⟩ := owner _ hrun
    have hrole : c.role false i = some k := by
      rw [howner] at hbe
      exact hbe.symm
    exact .single (.served member (.cut hrun closed atEnd hlate hrole hr hpos hlt))
  · obtain ⟨howner, hlate⟩ := owner _ hrun
    have hrole : c.role false i ≠ some k := by
      intro h
      rw [howner] at hbe
      exact hbe h.symm
    exact .single (.served member (.dropped hrun closed atEnd hlate hrole))

namespace Window

variable {c : Config} {w : Nat} {u t : Int} {s s' : State}

theorem phase_unfinished (phase : Phase c w s) (coherent : s.Coherent c w)
    (stage : s.course.stage = .running w true) (nonempty : c.sliceIds w ≠ []) :
    ∃ i ∈ c.sliceIds w, ∃ k j, c.role true i = some k ∧
      (s.slice i).runningProcess = some ⟨k, j⟩ := by
  rcases phase with (h | ⟨h, -⟩) | h
  · have hcount : c.sliceCount w ≠ 0 := by
      rw [← c.length_sliceIds]
      exact fun e => nonempty (List.eq_nil_of_length_eq_zero e)
    have hlt := h.unfinished hcount
    rw [h.count, ← c.length_sliceIds] at hlt
    obtain ⟨i, hi, hbusy⟩ : ∃ i ∈ c.sliceIds w, s.isIdle i ≠ true := by
      by_contra hall
      push Not at hall
      exact absurd (List.countP_eq_length.mpr hall) hlt.ne
    cases hrun : (s.slice i).runningProcess with
    | none => simp [State.isIdle, hrun] at hbusy
    | some p =>
      refine ⟨i, hi, p.part, p.index, ?_, hrun⟩
      rw [← (h.alike i p hrun).2, (coherent.owner i p hrun).1]
  · simp [h.stage] at stage
  · simp [h.stage] at stage

theorem stop_acts (phase : Phase c w s) (regular : s.Regular c) (coherent : s.Coherent c w)
    (atEnd : t = c.windowEnd w u)
    (late : ∀ i, (s.slice i).armed = true → t ≤ (s.slice i).timeout)
    (roles : s.Roles c w (c.sliceIds w)) (run : stop c w t s = .ok s') : Acts c w u t s s' := by
  simp only [stop, bind_def, bind_eq_ok, pure_def, Except.ok.injEq] at run
  obtain ⟨m, hfold, rfl⟩ := run
  have hrunning : ∀ i p, (s.slice i).runningProcess = some p →
      (s.slice i).runningPartition = some p.part ∧ t ≤ (s.slice i).timeout := by
    intro i p hp
    refine ⟨(coherent.owner i p hp).1, late i ?_⟩
    rw [coherent.armed_iff, hp]
    rfl
  have hbegin : Acts c w u t s ((s.record (.onWindowEnd w)).setWindow w
      { s.window w with stopping := true }) := by
    refine .tail (.single (.closing atEnd (fun hstage => ?_) fun hstage hsome => ?_)) (.stopping true)
    · cases roles with
      | sc stage entered => exact entered
      | be stage => simp [hstage] at stage
    · obtain ⟨i, hi, k, j, hrole, hrun⟩ := phase_unfinished phase coherent hstage hsome
      exact ⟨i, hi, k, j, hrole, hrun, (hrunning i _ hrun).2⟩
  have hall : Acts c w u t s m ∧ m.course.stage = .closed ∧ (m.window w).stopping = true ∧
      ∀ i ∉ c.sliceIds w, m.slice i = s.slice i := by
    refine foldlM_induct (fun done m => Acts c w u t s m ∧ m.course.stage = .closed ∧
      (m.window w).stopping = true ∧ ∀ i ∉ done, m.slice i = s.slice i) ?_
      ⟨hbegin, rfl, by simp, fun _ _ => rfl⟩ hfold
    rintro done i rest m m' hsplit ⟨hacts, hclosed, hstopping, hsame⟩ hi
    have hmember : i ∈ c.sliceIds w := by simp [hsplit]
    have hfresh : i ∉ done := Config.sliceIds_fresh hsplit
    have hact := Slice.stop_acts (u := u) hmember hstopping hclosed atEnd
      (by rw [hsame i hfresh]; exact hrunning i) hi
    obtain ⟨-, hleft⟩ := Slice.stop_left (regular.acts hacts).queues hmember hstopping hi
    refine ⟨hacts.trans hact, by rw [hleft.course]; exact hclosed,
      by rw [hleft.stopping]; exact hstopping, fun l hl => ?_⟩
    rw [List.mem_append, not_or, List.mem_singleton] at hl
    rw [hleft.slice, Function.update_of_ne hl.2]
    exact hsame l hl.1
  exact hall.1.tail (.stopping false)

end Window

end DemosSched
