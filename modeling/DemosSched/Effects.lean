import DemosSched.SliceSteps
import DemosSched.Course
import Mathlib.Logic.Relation

/-! The handlers of the scheduling phase as sequences of elementary effects on
the current window. An invariant needs to be checked on the effects only. -/

namespace DemosSched

open Fallible Relation

def Action.OfWindow : Action → Prop
  | .windowStarted _ _ | .beStarted _ _ => True
  | .onWindowStart _ | .onScStart _ | .onBeStart _ | .onWindowEnd _ => True
  | _ => False

def State.QueuesValid (c : Config) (s : State) : Prop :=
  ∀ k, (s.partition k).currentProc < c.processCount k

structure Slice.Seeking (c : Config) (w : Nat) (i : SliceId) (k : Nat) (s : State) : Prop where
  member : i ∈ c.sliceIds w
  idle : (s.slice i).runningProcess = none
  owner : (s.slice i).runningPartition = some k

structure Slice.Selected (c : Config) (w : Nat) (i : SliceId) (p : ProcessId) (b : Int)
    (s s₁ : State) : Prop extends Slice.Seeking c w i p.part s where
  valid : p.index < c.processCount p.part
  head : (s.partition p.part).currentProc = p.index
  pending : Process.isPending p s = true
  granted : Process.getActualBudget c p s = .ok (b, s₁)

theorem Slice.Selected.drew_or_same {c : Config} {w : Nat} {i : SliceId} {p : ProcessId} {b : Int}
    {s s₁ : State} (h : Slice.Selected c w i p b s s₁) : s₁ = s ∨ s₁ = s.drew c p := by
  rcases (Process.getActualBudget_ok c _ _).mp h.granted with ⟨-, -, -, h⟩ | ⟨-, -, h⟩
  · exact .inl h
  · exact .inr h

/-- Partition `k` is in the CPU set of slice `i` and reports to it. This holds of a
slice and the partition it runs unless the configuration shares partitions. -/
def State.Held (c : Config) (i : SliceId) (k : Nat) (s : State) : Prop :=
  c.Unshared → (s.partition k).completionCb = .slice i ∧
    (s.partition k).currentCpus = (c.slice i).cpus

namespace State

@[simp] theorem assigned_role (c : Config) (s : State) (i : SliceId) (k : Nat) (first : Bool)
    (t : Int) : (s.assigned c i k first t).course.role =
      Function.update s.course.role i (some (k, first)) := rfl

def AllIdle (s : State) : Prop := ∀ i, (s.slice i).runningProcess = none

def Exhausted (c : Config) (k : Nat) (s : State) : Prop :=
  ∀ j < c.processCount k, Process.isPending ⟨k, j⟩ s = false

/-- When window `w` may write a record of its own. -/
def Opens (c : Config) (w : Nat) (s : State) : Action → Prop
  | .windowStarted v _ => v = w ∧ s.AllIdle ∧ s.course.stage = .closed
  | .beStarted v _ => v = w ∧ s.AllIdle ∧ (s.window w).stopping = false ∧
      s.course.stage = .running w true ∧
      ∀ i ∈ c.sliceIds w, ∀ k, c.role true i = some k → s.Exhausted c k
  | .onWindowEnd _ => False
  | _ => True

def InRole (w : Nat) (i : SliceId) (k : Nat) (s : State) : Prop :=
  ∃ sc, s.course.stage = .running w sc ∧ s.course.role i = some (k, sc)

end State

/-- What starting a window or rescheduling a slice at time `t` is made of. -/
inductive Effect (c : Config) (w : Nat) (t : Int) : State → State → Prop
  | noted {s : State} (a : Action) (h : a.OfWindow) (opens : s.Opens c w a) :
      Effect c w t s (s.record a)
  | windowSet {s : State} (x : Window) (h : x.stopping = (s.window w).stopping) :
      Effect c w t s (s.setWindow w x)
  | entered {s : State} {i : SliceId} {k : Nat} (first : Bool)
      (member : i ∈ c.sliceIds w) (idle : (s.slice i).runningProcess = none)
      (role : c.role first i = some k)
      (alike : ∀ j q, (s.slice j).runningProcess = some q →
        (s.slice j).runningPartition = c.role first j) :
      Effect c w t s (s.assigned c i k first t)
  | sought {s : State} {i : SliceId} {k j : Nat} (seeking : Slice.Seeking c w i k s)
      (valid : j < c.processCount k) : Effect c w t s (s.sought k j)
  | skipped {s s₁ : State} {i : SliceId} {p : ProcessId}
      (selected : Slice.Selected c w i p 0 s s₁) : Effect c w t s (s₁.skipped i p)
  | launched {s s₁ : State} {i : SliceId} {p : ProcessId} {b : Int}
      (selected : Slice.Selected c w i p b s s₁) (ne : b ≠ 0) (held : s.Held c i p.part)
      (role : s.InRole w i p.part) : Effect c w t s (s₁.launched c i p t b)
  | stopped {s : State} {i : SliceId} {p : ProcessId} (mark : Bool)
      (member : i ∈ c.sliceIds w) (running : (s.slice i).runningProcess = some p) :
      Effect c w t s (s.stopped i p t mark)

abbrev Effects (c : Config) (w : Nat) (t : Int) : State → State → Prop :=
  ReflTransGen (Effect c w t)

namespace Effects

variable {c : Config} {w : Nat} {t : Int} {s s' : State}

theorem invariant {I : State → Prop} (keeps : ∀ s s', I s → Effect c w t s s' → I s')
    (run : Effects c w t s s') (start : I s) : I s' := by
  induction run with
  | refl => exact start
  | tail _ last ih => exact keeps _ _ ih last

theorem outside (run : Effects c w t s s') :
    s'.frame = s.frame ∧ s'.manager = s.manager ∧ s'.scheduler = s.scheduler := by
  induction run with
  | refl => exact ⟨rfl, rfl, rfl⟩
  | tail _ last ih =>
    rw [← ih.1, ← ih.2.1, ← ih.2.2]
    cases last with
    | skipped selected | launched selected =>
      rcases selected.drew_or_same with rfl | rfl <;> exact ⟨rfl, rfl, rfl⟩
    | _ => exact ⟨rfl, rfl, rfl⟩

theorem window_stopping (run : Effects c w t s s') (v : Nat) :
    (s'.window v).stopping = (s.window v).stopping := by
  induction run with
  | refl => rfl
  | tail _ last ih =>
    rw [← ih]
    cases last with
    | windowSet x h =>
      by_cases hv : v = w
      · subst hv
        simpa using h
      · simp [hv]
    | skipped selected | launched selected =>
      rcases selected.drew_or_same with rfl | rfl <;> rfl
    | _ => rfl

theorem history (run : Effects c w t s s') : s.history <:+ s'.history := by
  induction run with
  | refl => exact List.suffix_rfl
  | tail _ last ih =>
    refine ih.trans ?_
    cases last with
    | skipped selected | launched selected =>
      rcases selected.drew_or_same with rfl | rfl
      · exact List.suffix_cons _ _
      · exact (List.suffix_cons _ _).trans (List.suffix_cons _ _)
    | windowSet | sought => exact List.suffix_rfl
    | _ => exact List.suffix_cons _ _

end Effects

theorem State.QueuesValid.setQueue {c : Config} {s : State} (h : s.QueuesValid c) {k : Nat}
    {x : Partition} (valid : x.currentProc < c.processCount k) (m : Nat) :
    (Function.update s.partition k x m).currentProc < c.processCount m := by
  have hall := Function.forall_update_iff s.partition (a := k) (b := x)
    fun m y => y.currentProc < c.processCount m
  exact hall.mpr ⟨valid, fun m _ => h m⟩ m

theorem State.QueuesValid.assigned {c : Config} {s : State} (h : s.QueuesValid c) (i : SliceId)
    (k : Nat) (first : Bool) (t : Int) : (s.assigned c i k first t).QueuesValid c := by
  refine h.setQueue ?_
  cases first
  · exact h k
  · exact c.processCount_pos k

theorem State.QueuesValid.effect {c : Config} {w : Nat} {t : Int} {s s' : State} (h : s.QueuesValid c)
    (effect : Effect c w t s s') : s'.QueuesValid c := by
  cases effect with
  | entered first => exact h.assigned _ _ first t
  | sought seeking valid => exact h.setQueue valid
  | skipped selected | launched selected =>
    rcases selected.drew_or_same with rfl | rfl <;> exact h
  | _ => exact h

theorem State.QueuesValid.effects {c : Config} {w : Nat} {t : Int} {s s' : State} (h : s.QueuesValid c)
    (run : Effects c w t s s') : s'.QueuesValid c :=
  run.invariant (fun _ _ h e => h.effect e) h

namespace Slice

variable {c : Config} {w : Nat} {scDone : SliceId → Int → State → Except Fault State}

structure Searched (c : Config) (w : Nat) (k : Nat) (s s' : State) : Prop where
  effects (t : Int) : Effects c w t s s'
  slice : s'.slice = s.slice
  window : s'.window = s.window
  process : ∀ p, p.part ≠ k → s'.process p = s.process p
  spawned : ∀ p, (s'.process p).spawned = (s.process p).spawned
  completed : ∀ p, (s.process p).completed = true → (s'.process p).completed = true
  partition : ∀ m, ∃ j, s'.partition m = { s.partition m with currentProc := j }
  others : ∀ m ≠ k, s'.partition m = s.partition m
  course : s'.course = s.course

theorem Searched.sought {i : SliceId} {k j : Nat} {s : State} (h : Seeking c w i k s)
    (hj : j < c.processCount k) : Searched c w k s (s.sought k j) where
  effects _ := .single (.sought h hj)
  slice := rfl
  window := rfl
  process _ _ := rfl
  spawned _ := rfl
  completed _ := id
  partition m := by
    by_cases hm : m = k
    · subst hm
      exact ⟨j, by simp⟩
    · exact ⟨(s.partition m).currentProc, by simp [hm]⟩
  others m hm := by simp [hm]
  course := rfl

theorem Searched.skipped {i : SliceId} {p : ProcessId} {s s₁ : State}
    (h : Selected c w i p 0 s s₁) : Searched c w p.part s (s₁.skipped i p) := by
  obtain ⟨hslice, hwindow, hprocess, hpartition, hcourse⟩ : s₁.slice = s.slice ∧
      s₁.window = s.window ∧ s₁.process = s.process ∧ s₁.partition = s.partition ∧
      s₁.course = s.course := by
    rcases h.drew_or_same with rfl | rfl <;> exact ⟨rfl, rfl, rfl, rfl, rfl⟩
  constructor
  · exact fun _ => .single (.skipped h)
  · exact hslice
  · exact hwindow
  · intro q hq
    have hne : q ≠ p := fun e => hq (by rw [e])
    simp [hne, hprocess]
  · intro q
    by_cases hq : q = p
    · subst hq
      simp [hprocess]
    · simp [hq, hprocess]
  · intro q hc
    by_cases hq : q = p
    · subst hq
      simp
    · simpa [hq, hprocess] using hc
  · exact fun m => ⟨(s.partition m).currentProc, by simp [hpartition]⟩
  · exact fun m _ => by simp [hpartition]
  · exact hcourse

theorem Searched.held {i : SliceId} {k : Nat} {s s' : State} (h : Searched c w k s s')
    (held : s.Held c i k) : s'.Held c i k := fun hshared => by
  obtain ⟨j, hj⟩ := h.partition k
  rw [hj]
  exact held hshared

theorem Searched.trans {k : Nat} {s s₁ s₂ : State} (h₁ : Searched c w k s s₁)
    (h₂ : Searched c w k s₁ s₂) : Searched c w k s s₂ where
  effects t := (h₁.effects t).trans (h₂.effects t)
  slice := h₂.slice.trans h₁.slice
  window := h₂.window.trans h₁.window
  process p hp := (h₂.process p hp).trans (h₁.process p hp)
  spawned p := (h₂.spawned p).trans (h₁.spawned p)
  completed p hp := h₂.completed p (h₁.completed p hp)
  partition m := by
    obtain ⟨j₁, hj₁⟩ := h₁.partition m
    obtain ⟨j₂, hj₂⟩ := h₂.partition m
    exact ⟨j₂, by rw [hj₂, hj₁]⟩
  others m hm := (h₂.others m hm).trans (h₁.others m hm)
  course := h₂.course.trans h₁.course

theorem Searched.exhausted {k m : Nat} {s s' : State} (h : Searched c w k s s') (hm : m ≠ k)
    (he : s.Exhausted c m) : s'.Exhausted c m := fun j hj => by
  have hsame := h.process ⟨m, j⟩ hm
  simpa only [Process.isPending, Process.isSpawned, hsame] using he j hj

/-- A search ends with a process to launch, or with nothing pending in the queue. -/
theorem selectNext_cases {i : SliceId} {k n : Nat} {s s₁ : State}
    {found : Option (ProcessId × Int)} (valid : s.QueuesValid c) (seeking : Seeking c w i k s)
    (h : selectNext c i k n s = .ok (found, s₁)) :
    (∃ p b s₂, found = some (p, b) ∧ p.part = k ∧ b ≠ 0 ∧ Searched c w k s s₂ ∧
      Selected c w i p b s₂ s₁) ∨
    (found = none ∧ Searched c w k s s₁ ∧
      ∀ j < c.processCount k, Process.isPending ⟨k, j⟩ s₁ = false) := by
  induction n generalizing s with
  | zero => simp [selectNext] at h
  | succ n ih =>
    unfold selectNext at h
    rcases Partition.seekPendingProcess_cases c k s (valid k) with
      ⟨j, hj, hp, hseek⟩ | ⟨hnone, hseek⟩
    · have hsought := Searched.sought seeking hj
      simp only [hseek, bind_def, bind_eq_ok, Prod.exists] at h
      obtain ⟨b, s₂, hb, h⟩ := h
      have hselected : Selected c w i ⟨k, j⟩ b (s.sought k j) s₂ :=
        { member := seeking.member
          idle := seeking.idle
          owner := seeking.owner
          valid := hj
          head := by simp
          pending := hp
          granted := hb }
      by_cases h0 : b = 0
      · subst h0
        have hskipped := hsought.trans (Searched.skipped hselected)
        rw [if_pos rfl] at h
        have seeking' : Seeking c w i k (s₂.skipped i ⟨k, j⟩) :=
          { member := seeking.member
            idle := by rw [hskipped.slice]; exact seeking.idle
            owner := by rw [hskipped.slice]; exact seeking.owner }
        rcases ih (valid.effects (hskipped.effects 0)) seeking' h with
          ⟨p, b, s₃, hfound, hpart, hb0, hs, hsel⟩ | ⟨hfound, hs, hpend⟩
        · exact .inl ⟨p, b, s₃, hfound, hpart, hb0, hskipped.trans hs, hsel⟩
        · exact .inr ⟨hfound, hskipped.trans hs, hpend⟩
      · rw [if_neg h0, Except.ok.injEq, Prod.mk.injEq] at h
        obtain ⟨rfl, rfl⟩ := h
        exact .inl ⟨⟨k, j⟩, b, s.sought k j, rfl, rfl, h0, hsought, hselected⟩
    · simp only [hseek, Except.ok.injEq, Prod.mk.injEq] at h
      obtain ⟨rfl, rfl⟩ := h
      exact .inr ⟨rfl, .sought seeking (CyclicSearch.next_lt (valid k)), hnone⟩

theorem startNext_cases {i : SliceId} {k n : Nat} {t : Int} {s s' : State}
    (valid : s.QueuesValid c) (seeking : Seeking c w i k s)
    (h : (selectNext c i k n s).bind (conclude c scDone i k t) = .ok s') :
    (∃ p b s₂ s₁, p.part = k ∧ b ≠ 0 ∧ Searched c w k s s₂ ∧ Selected c w i p b s₂ s₁ ∧
      s' = s₁.launched c i p t b) ∨
    (∃ s₁, Searched c w k s s₁ ∧ (∀ j < c.processCount k, Process.isPending ⟨k, j⟩ s₁ = false) ∧
      (if (c.slice i).sc = some k then scDone i t s₁ else .ok s₁) = .ok s') := by
  rw [bind_eq_ok] at h
  obtain ⟨⟨found, s₁⟩, hselect, h⟩ := h
  rcases selectNext_cases valid seeking hselect with
    ⟨p, b, s₂, rfl, hpart, hb, hs, hsel⟩ | ⟨rfl, hs, hpend⟩
  · exact .inl ⟨p, b, s₂, s₁, hpart, hb, hs, hsel, ((launch_ok c).mp h).2⟩
  · exact .inr ⟨s₁, hs, hpend, h⟩

end Slice

end DemosSched
