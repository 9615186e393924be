import DemosSched.PerProcess
import DemosSched.Runs

/-! Power policies that only answer the start of a window, and the one of them that sets the
frequencies the slices of the window request, `PowerPolicy_Imx8_PerSlice`. -/

namespace DemosSched

open Fallible

/-- The only handler of a policy whose data is of type `σ`. -/
structure WindowPolicy (ε σ : Type) where
  onWindowStart : Nat → σ → Except ε σ

def WindowPolicy.replay {ε σ : Type} (P : WindowPolicy ε σ) (x : σ) : List Nat → Except ε σ
  | [] => .ok x
  | w :: ws => do
    let x ← P.replay x ws
    P.onWindowStart w x

def Action.announced : List Action → List Nat
  | [] => []
  | .onWindowStart w :: h => w :: announced h
  | _ :: h => announced h

inductive SliceFault
  | power (fault : PowerFault)
  | differentFrequencies (first second : Nat)
  deriving DecidableEq, Repr

namespace PerSlice

variable (c : Config) (debug : Bool)

/-- The body of the loop over the slices; `freq` is what those before have requested. -/
def request (x : CpufreqPolicy) (freq : Option Nat) (slice : SliceDef) :
    Except SliceFault (Option Nat) :=
  match slice.requestedFrequency with
  | none => .ok freq
  | some requested =>
    if x.Affects slice.cpus then
      match freq.filter (· ≠ requested) with
      | some other => .error (.differentFrequencies other requested)
      | none => .ok (some requested)
    else .ok freq

/-- The body of the loop over the policies. -/
def setFrequency (w : Nat) (x : CpufreqPolicy) : Except SliceFault CpufreqPolicy := do
  match ← (c.window w).slices.foldlM (request x) none with
  | some freq => (x.writeFrequency debug freq).mapError .power
  | none => return x

def onWindowStart (w : Nat) (policies : List CpufreqPolicy) :
    Except SliceFault (List CpufreqPolicy) :=
  policies.mapM (setFrequency c debug w)

def validate (policies : List CpufreqPolicy) : Except PowerFault PUnit :=
  c.windows.forM fun win => win.slices.forM fun slice =>
    match slice.requestedFrequency with
    | none => .ok ⟨⟩
    | some freq => policies.forM fun policy =>
      if policy.Affects slice.cpus then policy.validateFrequency freq else .ok ⟨⟩

end PerSlice

/-- The data are the policies of the two clusters. -/
def powerPolicyImx8PerSlice (c : Config) (debug : Bool) :
    WindowPolicy SliceFault (List CpufreqPolicy) where
  onWindowStart := PerSlice.onWindowStart c debug

namespace Action

theorem announced_course (h : List Action) : announced (course h).calls <+: announced h := by
  induction h with
  | nil => exact List.prefix_rfl
  | cons a h ih =>
    cases a with
    | windowStarted w t => exact List.nil_prefix
    | onWindowStart w => exact List.cons_prefix_cons.mpr ⟨rfl, ih⟩
    | _ => exact ih

end Action

theorem Phase.announced_calls {c : Config} {w : Nat} {s : State} (h : Phase c w s) :
    Action.announced s.course.calls = [w] := by
  rcases h with (hsc | ⟨hbe, -⟩) | hbe
  · rw [hsc.calls]
    rfl
  · rw [hbe.calls]
    rfl
  · rw [hbe.calls]
    rfl

theorem Phase.announced {c : Config} {w : Nat} {s : State} (h : Phase c w s) :
    ∃ older, Action.announced s.history = w :: older := by
  obtain ⟨older, holder⟩ := Action.announced_course s.history
  exact ⟨older, holder.symm.trans (congrArg (· ++ older) h.announced_calls)⟩

theorem State.Sound.announced {c : Config} {s : State} (h : s.Sound c) {i : SliceId} {p : ProcessId}
    (running : (s.slice i).runningProcess = some p) :
    ∃ older, Action.announced s.history = i.window :: older := by
  have hphase : Phase c s.frame.currentWin s := by
    refine h.phase.resolve_left fun hclosed => ?_
    rw [hclosed.1.idle i] at running
    cases running
  obtain ⟨older, holder⟩ := hphase.announced
  have hwindow : i.window = s.frame.currentWin :=
    ((c.mem_sliceIds).mp (h.coherent.running i p running)).1
  exact ⟨older, hwindow ▸ holder⟩

def CpufreqPolicy.requests (x : CpufreqPolicy) (slices : List SliceDef) : List Nat :=
  slices.filterMap fun slice => if x.Affects slice.cpus then slice.requestedFrequency else none

def CpufreqPolicy.Agreed (x : CpufreqPolicy) (slices : List SliceDef) : Prop :=
  ∀ f ∈ x.requests slices, ∀ g ∈ x.requests slices, f = g

instance (x : CpufreqPolicy) (slices : List SliceDef) : Decidable (x.Agreed slices) :=
  inferInstanceAs (Decidable (∀ _ ∈ _, _))

/-- The frequency that was requested last, by the slices of the windows `ws`. -/
def CpufreqPolicy.lastRequest (c : Config) (x : CpufreqPolicy) (ws : List Nat) : Option Nat :=
  ws.findSome? fun w => (x.requests (c.window w).slices).head?

def CpufreqPolicy.following (c : Config) (x : CpufreqPolicy) (ws : List Nat) : CpufreqPolicy :=
  { x with setspeed := ((x.lastRequest c ws).map (· / 1000)).or x.setspeed }

namespace CpufreqPolicy

variable {c : Config} {x : CpufreqPolicy} {slices : List SliceDef} {ws : List Nat}

theorem requests_following (ws : List Nat) :
    (x.following c ws).requests slices = x.requests slices := rfl

theorem mem_requests {freq : Nat} : freq ∈ x.requests slices ↔
    ∃ slice ∈ slices, x.Affects slice.cpus ∧ slice.requestedFrequency = some freq := by
  simp only [requests, List.mem_filterMap]
  refine exists_congr fun slice => and_congr_right fun _ => ?_
  by_cases h : x.Affects slice.cpus
  · simp [h]
  · simp [h]

theorem active_of_mem {freq : Nat} (h : freq ∈ x.requests slices) : x.active = true := by
  obtain ⟨slice, -, haffects, -⟩ := mem_requests.mp h
  have hle : (slice.cpus ∩ x.affectedCores).card ≤ x.affectedCores.card :=
    Finset.card_le_card Finset.inter_subset_right
  exact decide_eq_true (haffects.trans_le hle)

end CpufreqPolicy

namespace PerSlice

variable {c : Config} {debug : Bool} {x : CpufreqPolicy} {slices : List SliceDef}
  {freq r : Option Nat}

def Same (l : List Nat) : Prop := ∀ f ∈ l, ∀ g ∈ l, f = g

theorem same_cons_cons {f g : Nat} {l : List Nat} : Same (f :: g :: l) ↔ f = g ∧ Same (g :: l) := by
  constructor
  · intro h
    exact ⟨h f (by simp) g (by simp), fun a ha b hb =>
      h a (List.mem_cons_of_mem _ ha) b (List.mem_cons_of_mem _ hb)⟩
  · rintro ⟨rfl, h⟩ a ha b hb
    exact h a (by simpa using ha) b (by simpa using hb)

theorem request_none {slice : SliceDef} (h : x.requests [slice] = []) :
    request x freq slice = .ok freq := by
  unfold request
  cases hf : slice.requestedFrequency with
  | none => rfl
  | some f =>
    have hnot : ¬x.Affects slice.cpus := fun ha => by
      simp [CpufreqPolicy.requests, ha, hf] at h
    simp [hnot]

theorem request_some {slice : SliceDef} {f : Nat} (h : x.requests [slice] = [f]) :
    request x freq slice = match freq.filter (· ≠ f) with
      | some other => .error (.differentFrequencies other f)
      | none => .ok (some f) := by
  obtain ⟨s, hs, haffects, hf⟩ := CpufreqPolicy.mem_requests.mp (h ▸ List.mem_singleton_self f)
  obtain rfl := List.mem_singleton.mp hs
  simp [request, hf, haffects]

theorem requests_ok (slices : List SliceDef) :
    slices.foldlM (request x) freq = .ok r ↔
      Same (freq.toList ++ x.requests slices) ∧ r = (freq.toList ++ x.requests slices).head? := by
  induction slices generalizing freq with
  | nil =>
    cases freq with
    | none => simp [CpufreqPolicy.requests, Same, pure_def, eq_comm]
    | some f => simp [CpufreqPolicy.requests, Same, pure_def, eq_comm]
  | cons slice rest ih =>
    have hcons : x.requests (slice :: rest) = x.requests [slice] ++ x.requests rest :=
      List.filterMap_append (l := [slice])
    rw [List.foldlM_cons, bind_def, hcons]
    by_cases hnone : x.requests [slice] = []
    · rw [request_none hnone, bind_ok, hnone, List.nil_append]
      exact ih
    · obtain ⟨f, hf⟩ : ∃ f, x.requests [slice] = [f] := by
        unfold CpufreqPolicy.requests at hnone ⊢
        rw [List.filterMap_cons] at hnone ⊢
        split
        · next hs => simp [hs] at hnone
        · next f hs => exact ⟨f, rfl⟩
      rw [request_some hf, hf]
      cases freq with
      | none =>
        rw [Option.filter_none, bind_ok, ih]
        rfl
      | some g =>
        by_cases hg : g = f
        · subst hg
          rw [show (some g).filter (· ≠ g) = none by simp [Option.filter], bind_ok, ih]
          simp only [Option.toList_some, List.singleton_append, same_cons_cons, true_and,
            List.head?_cons]
        · rw [show (some g).filter (· ≠ f) = some g by simp [Option.filter, hg]]
          simp [same_cons_cons, hg, bind_error]

theorem setFrequency_agreed {w : Nat} (agreed : x.Agreed (c.window w).slices)
    (valid : ∀ f ∈ x.requests (c.window w).slices, x.validateFrequency f = .ok ()) :
    setFrequency c debug w x = .ok { x with setspeed :=
      ((x.requests (c.window w).slices).head?.map (· / 1000)).or x.setspeed } := by
  have hloop : (c.window w).slices.foldlM (request x) none =
      .ok (x.requests (c.window w).slices).head? := (requests_ok _).mpr ⟨agreed, rfl⟩
  rw [setFrequency, hloop, bind_def, bind_ok]
  cases hhead : (x.requests (c.window w).slices).head? with
  | none => rfl
  | some f =>
    have hmem := List.mem_of_mem_head? hhead
    simp [CpufreqPolicy.writeFrequency, CpufreqPolicy.active_of_mem hmem, runDebug, valid f hmem,
      Except.mapError]

theorem setFrequency_disagreed {w : Nat} (disagreed : ¬x.Agreed (c.window w).slices) :
    ∃ e, setFrequency c debug w x = .error e := by
  cases hloop : (c.window w).slices.foldlM (request x) none with
  | ok r => exact absurd ((requests_ok _).mp hloop).1 disagreed
  | error e => exact ⟨e, by rw [setFrequency, hloop]; rfl⟩

theorem setFrequency_following {ws : List Nat} {w : Nat} (agreed : x.Agreed (c.window w).slices)
    (valid : ∀ f ∈ x.requests (c.window w).slices, x.validateFrequency f = .ok ()) :
    setFrequency c debug w (x.following c ws) = .ok (x.following c (w :: ws)) := by
  have hset : setFrequency c debug w (x.following c ws) = _ := setFrequency_agreed agreed valid
  rw [hset, CpufreqPolicy.requests_following]
  unfold CpufreqPolicy.following CpufreqPolicy.lastRequest
  rw [List.findSome?_cons]
  cases (x.requests (c.window w).slices).head? with
  | none => rfl
  | some f => rfl

theorem validated_requests {pm : List CpufreqPolicy} (valid : validate c pm = .ok ⟨⟩)
    (hx : x ∈ pm) (w : Nat) :
    ∀ f ∈ x.requests (c.window w).slices, x.validateFrequency f = .ok () := by
  intro f hf
  obtain ⟨slice, hslice, haffects, hrequested⟩ := CpufreqPolicy.mem_requests.mp hf
  have hwindow : c.window w ∈ c.windows := (c.window_cases w).resolve_right fun hdefault => by
    rw [hdefault] at hslice
    exact absurd hslice List.not_mem_nil
  have hloop := forM_eq_ok.mp (forM_eq_ok.mp valid _ hwindow) _ hslice
  rw [hrequested] at hloop
  have hown := forM_eq_ok.mp hloop x hx
  rwa [if_pos haffects] at hown

variable {pm : List CpufreqPolicy} {ws : List Nat}

/-- Without a disagreement every policy has the frequency requested last. -/
theorem replay_agreed (valid : validate c pm = .ok ⟨⟩)
    (agreed : ∀ w ∈ ws, ∀ x ∈ pm, x.Agreed (c.window w).slices) :
    (powerPolicyImx8PerSlice c debug).replay pm ws = .ok (pm.map (·.following c ws)) := by
  induction ws with
  | nil =>
    have hsame : pm.map (·.following c []) = pm := List.map_id' pm
    rw [hsame]
    rfl
  | cons w ws ih =>
    rw [WindowPolicy.replay, ih fun v hv => agreed v (List.mem_cons_of_mem _ hv), bind_def, bind_ok]
    refine mapM_eq_ok.mpr (List.forall₂_map_left_iff.mpr (List.forall₂_map_right_iff.mpr ?_))
    exact List.forall₂_same.mpr fun x hx => setFrequency_following
      (agreed w List.mem_cons_self x hx) (validated_requests valid hx w)

theorem replay_disagreed (valid : validate c pm = .ok ⟨⟩)
    (disagreed : ∃ w ∈ ws, ∃ x ∈ pm, ¬x.Agreed (c.window w).slices) :
    ∃ e, (powerPolicyImx8PerSlice c debug).replay pm ws = .error e := by
  induction ws with
  | nil =>
    obtain ⟨w, hw, -⟩ := disagreed
    exact absurd hw List.not_mem_nil
  | cons w ws ih =>
    rw [WindowPolicy.replay]
    by_cases hbefore : ∃ v ∈ ws, ∃ x ∈ pm, ¬x.Agreed (c.window v).slices
    · obtain ⟨e, he⟩ := ih hbefore
      exact ⟨e, by rw [he]; rfl⟩
    · have hagreed : ∀ v ∈ ws, ∀ x ∈ pm, x.Agreed (c.window v).slices := by
        intro v hv x hx
        by_contra hnot
        exact hbefore ⟨v, hv, x, hx, hnot⟩
      obtain ⟨v, hv, x, hx, hnot⟩ := disagreed
      rcases List.mem_cons.mp hv with rfl | hv
      · rw [replay_agreed valid hagreed, bind_def, bind_ok]
        obtain ⟨e, he⟩ : ∃ e, setFrequency c debug v (x.following c ws) = .error e :=
          setFrequency_disagreed hnot
        exact mapM_error_iff.mpr ⟨_, List.mem_map_of_mem hx, e, he⟩
      · exact absurd (hagreed v hv x hx) hnot

end PerSlice

/-- What the policy does in a run. It throws exactly if two slices of a window that has been
started request different frequencies of one cluster. Until then each cluster has the
frequency requested last, and while a process runs that is what its slice requests. -/
structure PerSlice.Follows (c : Config) (debug : Bool) (pm : List CpufreqPolicy) (s : State) :
    Prop where
  throws_iff : (∃ e, (powerPolicyImx8PerSlice c debug).replay pm (Action.announced s.history) =
      .error e) ↔
    ∃ w ∈ Action.announced s.history, ∃ x ∈ pm, ¬x.Agreed (c.window w).slices
  written : ∀ policies, (powerPolicyImx8PerSlice c debug).replay pm (Action.announced s.history) =
      .ok policies → policies = pm.map (·.following c (Action.announced s.history))
  running : ∀ policies, (powerPolicyImx8PerSlice c debug).replay pm (Action.announced s.history) =
      .ok policies → ∀ i p freq, (s.slice i).runningProcess = some p →
        (c.slice i).requestedFrequency = some freq → ∀ x ∈ policies,
          x.Affects (c.slice i).cpus → x.setspeed = some (freq / 1000)

/-- In every state of a run, whatever the order of the events. -/
theorem per_slice_frequencies {c : Config} {debug : Bool} {pm : List CpufreqPolicy}
    (valid : PerSlice.validate c pm = .ok ⟨⟩) {gen : Nat → Nat} {timeout : Option Int}
    {es : List Event} {s : State} (reachable : Event.Reachable c gen timeout es s) :
    PerSlice.Follows c debug pm s := by
  have hagreed : ∀ policies,
      (powerPolicyImx8PerSlice c debug).replay pm (Action.announced s.history) = .ok policies →
      ∀ w ∈ Action.announced s.history, ∀ x ∈ pm, x.Agreed (c.window w).slices := by
    intro policies hreplay w hw x hx
    by_contra hnot
    obtain ⟨e, he⟩ : ∃ e, (powerPolicyImx8PerSlice c debug).replay pm
        (Action.announced s.history) = .error e :=
      PerSlice.replay_disagreed valid ⟨w, hw, x, hx, hnot⟩
    rw [hreplay] at he
    cases he
  have hwritten : ∀ policies,
      (powerPolicyImx8PerSlice c debug).replay pm (Action.announced s.history) = .ok policies →
      policies = pm.map (·.following c (Action.announced s.history)) := by
    intro policies hreplay
    exact Except.ok.inj (hreplay.symm.trans (PerSlice.replay_agreed valid (hagreed _ hreplay)))
  refine ⟨⟨fun ⟨e, he⟩ => ?_, PerSlice.replay_disagreed valid⟩, hwritten,
    fun policies hreplay i p freq hp hfreq x hx haffects => ?_⟩
  · by_contra hnone
    have hall : ∀ w ∈ Action.announced s.history, ∀ x ∈ pm, x.Agreed (c.window w).slices := by
      intro w hw x hx
      by_contra hnot
      exact hnone ⟨w, hw, x, hx, hnot⟩
    rw [PerSlice.replay_agreed valid hall] at he
    cases he
  · rw [hwritten policies hreplay] at hx
    obtain ⟨z, hz, rfl⟩ := List.mem_map.mp hx
    obtain ⟨older, holder⟩ := reachable.sound.announced hp
    have hslice : c.slice i ∈ (c.window i.window).slices :=
      (c.slice_cases i).resolve_right fun hdefault => by
        rw [hdefault] at hfreq
        cases hfreq
    have hmem : freq ∈ z.requests (c.window i.window).slices :=
      CpufreqPolicy.mem_requests.mpr ⟨_, hslice, haffects, hfreq⟩
    have hsame := hagreed policies hreplay i.window (holder ▸ List.mem_cons_self) z hz
    obtain ⟨f, rest, hrequests⟩ := List.exists_cons_of_ne_nil (List.ne_nil_of_mem hmem)
    have hhead : (z.requests (c.window i.window).slices).head? = some freq := by
      rw [hrequests, List.head?_cons,
        hsame f (hrequests ▸ List.mem_cons_self) freq hmem]
    unfold CpufreqPolicy.following CpufreqPolicy.lastRequest
    rw [holder, List.findSome?_cons, hhead]
    rfl

theorem per_slice_frequencies_twoClusters : ∃ s : State,
    (s.slice ⟨0, 1⟩).runningProcess = some ⟨1, 0⟩ ∧
      PerSlice.Follows .sliceFrequencies true [⟨600000000, 1200000000, none, {0}, none⟩,
        ⟨600000000, 1200000000, none, {1}, none⟩] s := by
  have hrun : ((Event.play .sliceFrequencies (fun _ _ => True) [.startup 0]
      (State.initial .sliceFrequencies (fun _ => 0) none)).map fun s =>
        (s.slice ⟨0, 1⟩).runningProcess) = some (some ⟨1, 0⟩) := by decide
  obtain ⟨s, hplay, hs⟩ := Option.map_eq_some_iff.mp hrun
  exact ⟨s, hs, per_slice_frequencies (by decide) (Event.play_reachable hplay)⟩

end DemosSched
