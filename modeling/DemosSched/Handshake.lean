import DemosSched.Runs

/-! The completion handshake. A process that uses the library of `demos-sch.c`
writes to its completion eventfd and blocks until a token comes; the scheduler
keeps the completion as a flag of its `Process` until it resumes the process.
Calls of the library and handlers of the scheduler interleave freely, a process
taking steps of its own while it is thawed. -/

namespace DemosSched

open Fallible Relation

/-- Outside of the library, before the write of `demos_completed`, or blocked in
its read. -/
inductive LibraryCall
  | outside
  | writing
  | reading
  deriving DecidableEq, Repr

/-- The static variables of `demos-sch.c` in a process, and the call it is in. -/
structure Library where
  demosInitRan : Bool := false
  initializationPending : Bool := false
  call : LibraryCall := .outside

namespace Library

/-- The parameters a process gets from `Process::exec` never fail to be read. -/
def demosInit (hasInitialization : Bool) (x : Library) : Library :=
  { x with demosInitRan := true, initializationPending := hasInitialization }

def ensureInit (hasInitialization : Bool) (x : Library) : Library :=
  if x.demosInitRan then x else demosInit hasInitialization x

def demosCompleted (hasInitialization : Bool) (x : Library) : Library :=
  let x := ensureInit hasInitialization x
  -- ignored during the initialization
  if x.initializationPending then x else { x with call := .writing }

def demosInitializationCompleted (hasInitialization : Bool) (x : Library) : Library :=
  let x := ensureInit hasInitialization x
  if !x.initializationPending then x
  else demosCompleted hasInitialization { x with initializationPending := false }

theorem demosCompleted_call (b : Bool) (x : Library) :
    (demosCompleted b x).call = x.call ∨ (demosCompleted b x).call = .writing := by
  unfold demosCompleted ensureInit demosInit
  dsimp only
  split <;> split <;> simp

theorem demosInitializationCompleted_call (b : Bool) (x : Library) :
    (demosInitializationCompleted b x).call = x.call ∨
      (demosInitializationCompleted b x).call = .writing := by
  unfold demosInitializationCompleted
  dsimp only
  split
  · unfold ensureInit demosInit
    split <;> simp
  · rcases demosCompleted_call b { ensureInit b x with initializationPending := false } with h | h
    · refine .inl (h.trans ?_)
      unfold ensureInit demosInit
      split <;> rfl
    · exact .inr h

end Library

structure System where
  state : State
  library : ProcessId → Library
  /-- Unread values of the completion eventfds. -/
  completion : ProcessId → Nat

inductive Operation
  | event (e : Event)
  | demosInit (p : ProcessId)
  | demosCompleted (p : ProcessId)
  | demosInitializationCompleted (p : ProcessId)
  | write (p : ProcessId)
  | read (p : ProcessId)
  deriving DecidableEq, Repr

namespace System

def initial (c : Config) (gen : Nat → Nat) (timeout : Option Int) : System where
  state := State.initial c gen timeout
  library _ := {}
  completion _ := 0

/-- The process is in code of its own and thawed. -/
def Thawed (y : System) (p : ProcessId) (call : LibraryCall) : Prop :=
  (y.state.process p).spawned = true ∧ (y.state.process p).frozen = false ∧
    (y.library p).call = call

instance (y : System) (p : ProcessId) (call : LibraryCall) : Decidable (y.Thawed p call) :=
  inferInstanceAs (Decidable (_ ∧ _ ∧ _))

def setLibrary (y : System) (p : ProcessId) (x : Library) : System :=
  { y with library := Function.update y.library p x }

/-- The eventfd counts what is written to it. -/
def write (y : System) (p : ProcessId) : System :=
  { y.setLibrary p { y.library p with call := .reading } with
    completion := Function.update y.completion p (y.completion p + 1) }

/-- The continuation eventfd is a semaphore: a read takes one token. -/
def read (y : System) (p : ProcessId) : System :=
  { y.setLibrary p { y.library p with call := .outside } with
    state := y.state.setProcess p { y.state.process p with
      continueTokens := (y.state.process p).continueTokens - 1 } }

inductive Step (c : Config) : System → Operation → System → Prop
  | event {y : System} {e : Event} {s' : State} (other : ∀ p now, e ≠ .completion p now)
      (step : Event.Step c y.state e s') : Step c y (.event e) { y with state := s' }
  | completion {y : System} {p : ProcessId} {now : Int} {s' : State}
      (readable : 0 < y.completion p) (step : Event.Step c y.state (.completion p now) s') :
      Step c y (.event (.completion p now))
        { y with state := s', completion := Function.update y.completion p 0 }
  | demosInit {y : System} {p : ProcessId} (thawed : y.Thawed p .outside) :
      Step c y (.demosInit p) (y.setLibrary p
        (Library.demosInit (c.process p).hasInitialization (y.library p)))
  | demosCompleted {y : System} {p : ProcessId} (thawed : y.Thawed p .outside) :
      Step c y (.demosCompleted p) (y.setLibrary p
        (Library.demosCompleted (c.process p).hasInitialization (y.library p)))
  | demosInitializationCompleted {y : System} {p : ProcessId} (thawed : y.Thawed p .outside) :
      Step c y (.demosInitializationCompleted p) (y.setLibrary p
        (Library.demosInitializationCompleted (c.process p).hasInitialization (y.library p)))
  | write {y : System} {p : ProcessId} (thawed : y.Thawed p .writing) :
      Step c y (.write p) (y.write p)
  | read {y : System} {p : ProcessId} (thawed : y.Thawed p .reading)
      (token : 0 < (y.state.process p).continueTokens) : Step c y (.read p) (y.read p)

end System

/-- What the scheduler owes `p`: a token for the completion it has read, and the
tokens not yet taken. -/
def State.credit (p : ProcessId) (s : State) : Nat :=
  (if (s.process p).demosCompleted then 1 else 0) + (s.process p).continueTokens

namespace State

variable {c : Config} {w : Nat} {t : Int} {s s' : State} {p : ProcessId}

theorem credit_congr (flag : (s'.process p).demosCompleted = (s.process p).demosCompleted)
    (tokens : (s'.process p).continueTokens = (s.process p).continueTokens) :
    s'.credit p = s.credit p := by
  rw [credit, credit, flag, tokens]

theorem credit_setProcess {q : ProcessId} {x : Process}
    (flag : x.demosCompleted = (s.process q).demosCompleted)
    (tokens : x.continueTokens = (s.process q).continueTokens) :
    (s.setProcess q x).credit p = s.credit p :=
  credit_congr (update_field Process.demosCompleted flag)
    (update_field Process.continueTokens tokens)

theorem credit_resumed {q : ProcessId} (flag : (s'.process q).demosCompleted = false)
    (tokens : (s'.process q).continueTokens = (s.process q).continueTokens +
      if (s.process q).demosCompleted then 1 else 0)
    (others : ∀ r ≠ q, s'.process r = s.process r) : s'.credit p = s.credit p := by
  by_cases hp : p = q
  · subst hp
    simp [credit, flag, tokens, Nat.add_comm]
  · rw [credit, credit, others p hp]

theorem credit_effect (effect : Effect c w t s s') : s'.credit p = s.credit p := by
  cases effect with
  | @skipped s₁ i q selected =>
    have hs : s₁.credit p = s.credit p := by
      rcases selected.drew_or_same with rfl | rfl <;> rfl
    refine Eq.trans ?_ hs
    exact credit_setProcess (x := { s₁.process q with completed := true }) rfl rfl
  | @launched s₁ i q b selected =>
    have hs : s₁.credit p = s.credit p := by
      rcases selected.drew_or_same with rfl | rfl <;> rfl
    refine Eq.trans ?_ hs
    exact credit_resumed (q := q) (by simp) (by simp) fun r hr => by simp [hr]
  | @stopped i q mark =>
    exact credit_setProcess (x := { s.process q with
      frozen := true, completed := (s.process q).completed || mark }) rfl rfl
  | _ => rfl

theorem credit_closing (closing : Closing c w t s s') : s'.credit p = s.credit p := by
  cases closing with
  | effect e => exact credit_effect e
  | @shortened i q r =>
    exact credit_setProcess (x := { s.process q with actualBudget := r }) rfl rfl
  | announced | stopping | released => rfl

theorem credit_turn {ok : Action → Prop} (silent : ∀ q, ¬ok (.signalled q))
    (turn : Turn c ok s s') : s'.credit p = s.credit p := by
  cases turn with
  | change e =>
    cases e with
    | effects run =>
      exact run.invariant (I := fun m => m.credit p = s.credit p)
        (fun _ _ h e => (credit_effect e).trans h) rfl
    | closed run =>
      exact run.invariant (I := fun m => m.credit p = s.credit p)
        (fun _ _ h e => (credit_closing e).trans h) rfl
    | signalled q h => exact absurd h (silent q)
    | ended q => exact credit_setProcess (x := { s.process q with spawned := false }) rfl rfl
    | _ => rfl
  | killed q =>
    exact credit_setProcess (x := { s.process q with frozen := false, killed := true }) rfl rfl
  | suspended halted q =>
    exact credit_setProcess (x := { s.process q with frozen := true }) rfl rfl
  | thawed halted q => exact credit_resumed (q := q) (by simp) (by simp) fun r hr => by simp [hr]
  | _ => rfl

theorem credit_turns {ok : Action → Prop} (silent : ∀ q, ¬ok (.signalled q))
    (run : Turns c ok s s') : s'.credit p = s.credit p :=
  run.invariant (I := fun m => m.credit p = s.credit p)
    (fun _ _ h e => (credit_turn silent e).trans h) rfl

theorem credit_signalled (h : s.credit p = 0) : (Process.signalled p s).credit p = 1 := by
  have htokens : (s.process p).continueTokens = 0 := by
    rw [credit] at h
    omega
  simp [credit, Process.signalled, htokens]

theorem credit_signalled_other {q : ProcessId} (h : p ≠ q) :
    (Process.signalled q s).credit p = s.credit p :=
  credit_congr (by simp [Process.signalled, h]) (by simp [Process.signalled, h])

end State

theorem Event.mayLeave_signalled (e : Event) (q : ProcessId) : ¬e.MayLeave (.signalled q) := by
  cases e <;> simp [MayLeave]

namespace System

variable {c : Config} {y y' : System} {op : Operation}

/-- Something is owed to the processes blocked in `demos_completed`, one thing to
each, and nothing to the others. -/
def Balanced (y : System) : Prop :=
  ∀ p, y.completion p + y.state.credit p = if (y.library p).call = .reading then 1 else 0

theorem Balanced.setLibrary (h : y.Balanced) {p : ProcessId} {x : Library}
    (hx : x.call = .reading ↔ (y.library p).call = .reading) : (y.setLibrary p x).Balanced := by
  intro q
  by_cases hq : q = p
  · subst hq
    simpa [System.setLibrary, hx] using h q
  · simpa [System.setLibrary, hq] using h q

theorem Balanced.write (h : y.Balanced) {p : ProcessId} (writing : (y.library p).call = .writing) :
    (y.write p).Balanced := by
  intro q
  by_cases hq : q = p
  · subst hq
    have hzero := h q
    simp only [writing, reduceCtorEq, if_false] at hzero
    simp only [System.write, System.setLibrary, Function.update_self, if_true]
    omega
  · simpa [System.write, System.setLibrary, hq] using h q

theorem Balanced.read (h : y.Balanced) {p : ProcessId} (reading : (y.library p).call = .reading)
    (token : 0 < (y.state.process p).continueTokens) : (y.read p).Balanced := by
  intro q
  by_cases hq : q = p
  · subst hq
    have hone := h q
    simp only [reading, if_true, State.credit] at hone
    simp only [System.read, System.setLibrary, Function.update_self, State.credit,
      State.setProcess_process, reduceCtorEq, if_false]
    omega
  · simpa [System.read, System.setLibrary, State.credit, hq] using h q

structure Invariant (c : Config) (y : System) : Prop where
  sound : y.state.Sound c
  balanced : y.Balanced

theorem Invariant.step (h : y.Invariant c) (step : Step c y op y') : y'.Invariant c := by
  cases step with
  | event other step =>
    obtain ⟨hturns, hsound⟩ := Event.step_turns h.sound step
    refine ⟨hsound, fun p => ?_⟩
    rename_i e s'
    have hreceived : (e.received c y.state).credit p = y.state.credit p := by
      cases e with
      | completion q now => exact absurd rfl (other q now)
      | exit q now =>
        exact State.credit_setProcess (x := { y.state.process q with spawned := false }) rfl rfl
      | _ => rfl
    simpa [State.credit_turns e.mayLeave_signalled hturns, hreceived] using h.balanced p
  | @completion q now s' readable step =>
    obtain ⟨hturns, hsound⟩ := Event.step_turns h.sound step
    refine ⟨hsound, fun p => ?_⟩
    have hp := h.balanced p
    have hcredit : s'.credit p = (Process.signalled q y.state).credit p :=
      State.credit_turns (fun _ => id) hturns
    by_cases hpq : p = q
    · -- an unread value is all that is owed
      subst hpq
      have hreading : (y.library p).call = .reading := by
        by_contra hne
        simp only [hne, if_false] at hp
        omega
      simp only [hreading, if_true] at hp ⊢
      simp [hcredit, State.credit_signalled (show y.state.credit p = 0 by omega)]
    · simpa [hpq, hcredit, State.credit_signalled_other hpq] using hp
  | demosInit thawed => exact ⟨h.sound, h.balanced.setLibrary Iff.rfl⟩
  | demosCompleted thawed =>
    refine ⟨h.sound, h.balanced.setLibrary ?_⟩
    rcases Library.demosCompleted_call _ _ with hcall | hcall <;> rw [hcall]
    simp [thawed.2.2]
  | demosInitializationCompleted thawed =>
    refine ⟨h.sound, h.balanced.setLibrary ?_⟩
    rcases Library.demosInitializationCompleted_call _ _ with hcall | hcall <;> rw [hcall]
    simp [thawed.2.2]
  | write thawed => exact ⟨h.sound, h.balanced.write thawed.2.2⟩
  | @read p thawed token =>
    have hsame : y.state.SameObjects (y.read p).state :=
      ⟨rfl, rfl, rfl, rfl, rfl, rfl, State.flags_setProcess ⟨rfl, rfl⟩, rfl⟩
    exact ⟨hsame.sound h.sound, h.balanced.read thawed.2.2 token⟩

theorem initial_invariant (c : Config) (gen : Nat → Nat) (timeout : Option Int) :
    (System.initial c gen timeout).Invariant c :=
  ⟨State.initial_sound c gen timeout, fun _ => rfl⟩

theorem invariant_run {gen : Nat → Nat} {timeout : Option Int} {ops : List Operation}
    (run : Run (Step c) (System.initial c gen timeout) ops y) : y.Invariant c :=
  run.invariant (I := Invariant c) (fun _ _ _ h step => h.step step) (initial_invariant c gen timeout)

end System

def Action.Resumes (p : ProcessId) : Action → Prop
  | .initResumed q | .started _ q _ _ => p = q
  | _ => False

def Action.Answered (p : ProcessId) (new : List Action) : Prop :=
  ∃ a newer older, new = newer ++ a :: older ∧ a.Resumes p ∧ .signalled p ∈ older

theorem Action.Answered.append {p : ProcessId} {new : List Action} (h : Answered p new)
    (newer : List Action) : Answered p (newer ++ new) := by
  obtain ⟨a, l, older, rfl, ha⟩ := h
  exact ⟨a, newer ++ l, older, by simp, ha⟩

/-- Since the records `base`, the flag of `p` stands for a signal that was read, and
its tokens for one that was read before `p` was resumed. -/
def State.Observes (p : ProcessId) (base : List Action) (s : State) : Prop :=
  ∃ new, s.history = new ++ base ∧ ((s.process p).demosCompleted = true → .signalled p ∈ new) ∧
    (0 < (s.process p).continueTokens → Action.Answered p new)

namespace State.Observes

variable {c : Config} {w : Nat} {t : Int} {s s' : State} {p : ProcessId} {base : List Action}

theorem grows (h : s.Observes p base) {l : List Action}
    (history : s'.history = l ++ s.history)
    (flag : (s'.process p).demosCompleted = true → (s.process p).demosCompleted = true)
    (tokens : 0 < (s'.process p).continueTokens → 0 < (s.process p).continueTokens) :
    s'.Observes p base := by
  obtain ⟨new, hnew, hflag, htokens⟩ := h
  exact ⟨l ++ new, by rw [history, hnew, List.append_assoc],
    fun h => List.mem_append_right _ (hflag (flag h)), fun h => (htokens (tokens h)).append l⟩

theorem update (h : s.Observes p base) {l : List Action} {q : ProcessId} {x : Process}
    (history : s'.history = l ++ s.history)
    (process : ∀ r, s'.process r = Function.update s.process q x r)
    (flag : x.demosCompleted = (s.process q).demosCompleted)
    (tokens : x.continueTokens = (s.process q).continueTokens) : s'.Observes p base := by
  have hsame : (s'.process p).demosCompleted = (s.process p).demosCompleted ∧
      (s'.process p).continueTokens = (s.process p).continueTokens := by
    rw [process]
    exact ⟨State.update_field Process.demosCompleted flag,
      State.update_field Process.continueTokens tokens⟩
  exact h.grows history (by rw [hsame.1]; exact id) (by rw [hsame.2]; exact id)

theorem resumed (h : s.Observes p base) {a : Action} {q : ProcessId} (ha : a.Resumes q)
    (history : s'.history = a :: s.history) (flag : (s'.process q).demosCompleted = false)
    (tokens : (s'.process q).continueTokens = (s.process q).continueTokens +
      if (s.process q).demosCompleted then 1 else 0)
    (others : ∀ r ≠ q, s'.process r = s.process r) : s'.Observes p base := by
  by_cases hp : p = q
  · subst hp
    obtain ⟨new, hnew, hflag, htokens⟩ := h
    refine ⟨a :: new, by rw [history, hnew, List.cons_append], by simp [flag], fun htoken => ?_⟩
    by_cases hset : (s.process p).demosCompleted = true
    · exact ⟨a, [], new, rfl, ha, hflag hset⟩
    · rw [tokens, if_neg hset] at htoken
      exact (htokens htoken).append [a]
  · exact h.grows (l := [a]) history (by rw [others p hp]; exact id)
      (by rw [others p hp]; exact id)

theorem signalled (h : s.Observes p base) (q : ProcessId) :
    (Process.signalled q s).Observes p base := by
  by_cases hp : p = q
  · subst hp
    obtain ⟨new, hnew, -, htokens⟩ := h
    refine ⟨.signalled p :: new, by simp [Process.signalled, hnew], fun _ => by simp, fun h => ?_⟩
    exact (htokens (by simpa [Process.signalled] using h)).append [.signalled p]
  · exact h.grows (l := [.signalled q]) rfl (by simp [Process.signalled, hp])
      (by simp [Process.signalled, hp])

theorem selected (h : s.Observes p base) {i : SliceId} {q : ProcessId} {b : Int} {s₁ : State}
    (selected : Slice.Selected c w i q b s s₁) : s₁.Observes p base := by
  rcases selected.drew_or_same with rfl | rfl
  · exact h
  · exact h.grows (l := [.drawn _ _]) rfl id id

theorem effect (h : s.Observes p base) (effect : Effect c w t s s') : s'.Observes p base := by
  cases effect with
  | noted a ha => exact h.grows (l := [a]) rfl id id
  | windowSet | sought => exact h.grows (l := []) rfl id id
  | entered => exact h.grows (l := [.entered _ _ _ _]) rfl id id
  | @skipped s₁ i q selected =>
    exact (h.selected selected).update (l := [.skipped i q]) rfl (fun _ => rfl) rfl rfl
  | @launched s₁ i q b selected =>
    exact (h.selected selected).resumed (a := .started i q t b) rfl rfl (by simp) (by simp)
      fun r hr => by simp [hr]
  | @stopped i q mark =>
    exact h.update (l := [.stopped i q t mark]) rfl (fun _ => rfl) rfl rfl

theorem closing (h : s.Observes p base) (closing : Closing c w t s s') : s'.Observes p base := by
  cases closing with
  | effect e => exact h.effect e
  | @shortened i q r => exact h.update (l := [.shortened q r]) rfl (fun _ => rfl) rfl rfl
  | announced => exact h.grows (l := [.onWindowEnd w]) rfl id id
  | stopping | released => exact h.grows (l := []) rfl id id

theorem turn {ok : Action → Prop} (h : s.Observes p base) (turn : Turn c ok s s') :
    s'.Observes p base := by
  cases turn with
  | change e =>
    cases e with
    | effects run => exact run.invariant (fun _ _ h e => h.effect e) h
    | closed run => exact run.invariant (fun _ _ h e => h.closing e) h
    | windowArmed t => exact h.grows (l := [.windowArmed t]) rfl id id
    | signalled q => exact h.signalled q
    | ended q => exact h.update (l := [.exited q]) rfl (fun _ => rfl) rfl rfl
    | loopBroken => exact h.grows (l := [.loopBroken]) rfl id id
    | _ => exact h.grows (l := []) rfl id id
  | noted a ha => exact h.grows (l := [a]) rfl id id
  | killed q => exact h.update (l := [.killed q]) rfl (fun _ => rfl) rfl rfl
  | suspended halted q => exact h.update (l := [.initSuspended q]) rfl (fun _ => rfl) rfl rfl
  | thawed halted q =>
    exact h.resumed (a := .initResumed q) rfl rfl (by simp) (by simp) fun r hr => by simp [hr]
  | _ => exact h.grows (l := []) rfl id id

theorem event (h : s.Observes p base) {e : Event} (sound : s.Sound c) (step : Event.Step c s e s') :
    s'.Observes p base := by
  have hturns : Turns c (fun _ => True) s s' :=
    (Event.received_changes e s).turns.trans ((Event.step_turns sound step).1.mono fun _ _ => trivial)
  exact hturns.invariant (fun _ _ h e => h.turn e) h

end State.Observes

namespace System

variable {c : Config} {y y' : System} {op : Operation} {p : ProcessId} {base : List Action}

theorem observes_step (h : y.state.Observes p base) (inv : y.Invariant c) (step : Step c y op y')
    (other : op ≠ .read p) : y'.state.Observes p base := by
  cases step with
  | event _ step => exact h.event inv.sound step
  | completion _ step => exact h.event inv.sound step
  | @read q thawed token =>
    have hq : p ≠ q := fun e => other (by rw [e])
    exact h.grows (l := []) rfl (by simp [System.read, hq]) (by simp [System.read, hq])
  | demosInit | demosCompleted | demosInitializationCompleted => exact h
  | write => exact h

/-- Until its read returns, a token comes to a process from a resumption that
follows the reading of its signal. -/
theorem observes_run {ops : List Operation} (h : y.state.Observes p base) (inv : y.Invariant c)
    (run : Run (Step c) y ops y') (other : ∀ op ∈ ops, op ≠ .read p) :
    y'.state.Observes p base := by
  have hboth : y'.state.Observes p base ∧ y'.Invariant c := by
    induction run with
    | nil => exact ⟨h, inv⟩
    | snoc _ last ih =>
      obtain ⟨hobserves, hinv⟩ := ih fun op hop => other op (by simp [hop])
      exact ⟨observes_step hobserves hinv last (other _ (by simp)), hinv.step last⟩
  exact hboth.1

end System

/-- Of the three places a completion can be in, it is in exactly one while its
process is blocked, and in none otherwise. The read returns only after the
scheduler has read the completion and resumed the process since, and a
completion that was read becomes a token with the next resumption. -/
theorem completion_handshake {c : Config} {gen : Nat → Nat} {timeout : Option Int}
    {ops : List Operation} {y : System}
    (run : Run (System.Step c) (System.initial c gen timeout) ops y) :
    (∀ p, y.completion p + (if (y.state.process p).demosCompleted then 1 else 0) +
        (y.state.process p).continueTokens = if (y.library p).call = .reading then 1 else 0) ∧
    (∀ p x mid z, System.Step c y (.write p) x → Run (System.Step c) x mid z →
      (∀ op ∈ mid, op ≠ .read p) → 0 < (z.state.process p).continueTokens →
        ∃ new, z.state.history = new ++ y.state.history ∧ Action.Answered p new) ∧
    (∀ p, (y.library p).call = .reading →
      0 < y.completion p ∨ 0 < (y.state.process p).continueTokens ∨
        (y.state.process p).demosCompleted = true ∧ ∀ s', Process.resume p y.state = .ok s' →
          0 < (s'.process p).continueTokens) := by
  have hinv := System.invariant_run run
  refine ⟨fun p => ?_, fun p x mid z hwrite hrest hmid htoken => ?_, fun p hreading => ?_⟩
  · have hp := hinv.balanced p
    rw [State.credit] at hp
    omega
  · have hstart : x.state.Observes p y.state.history := by
      cases hwrite with
      | write thawed =>
        have hp := hinv.balanced p
        simp only [thawed.2.2, reduceCtorEq, if_false, State.credit] at hp
        refine ⟨[], rfl, fun hflag => ?_, fun htokens => ?_⟩
        · have hset : (y.state.process p).demosCompleted = true := hflag
          simp [hset] at hp
        · have hpos : 0 < (y.state.process p).continueTokens := htokens
          omega
    obtain ⟨new, hnew, -, hanswered⟩ := System.observes_run hstart (hinv.step hwrite) hrest hmid
    exact ⟨new, hnew, hanswered htoken⟩
  · have hp := hinv.balanced p
    simp only [hreading, if_true, State.credit] at hp
    by_cases hcompletion : 0 < y.completion p
    · exact .inl hcompletion
    · by_cases htoken : 0 < (y.state.process p).continueTokens
      · exact .inr (.inl htoken)
      · have hflag : (y.state.process p).demosCompleted = true := by
          by_contra hunset
          simp only [hunset, if_false] at hp
          omega
        refine .inr (.inr ⟨hflag, fun s' hresume => ?_⟩)
        unfold Process.resume at hresume
        split at hresume
        · rw [Except.ok.injEq] at hresume
          simp [← hresume]
        · simp at hresume

/-- The first process has signalled its completion, which is still unread. -/
theorem completion_handshake_twoProcesses :
    ∃ y : System, (y.library ⟨0, 0⟩).call = .reading ∧ y.completion ⟨0, 0⟩ +
      (if (y.state.process ⟨0, 0⟩).demosCompleted then 1 else 0) +
        (y.state.process ⟨0, 0⟩).continueTokens =
          if (y.library ⟨0, 0⟩).call = .reading then 1 else 0 := by
  have hstartup : (((Event.startup 0).dispatch .twoProcesses
      (State.initial .twoProcesses (fun _ => 0) none)).toOption.map fun s =>
        ((s.process ⟨0, 0⟩).spawned, (s.process ⟨0, 0⟩).frozen)) = some (true, false) := by decide
  cases hs : (Event.startup 0).dispatch .twoProcesses (State.initial .twoProcesses (fun _ => 0) none)
    with
  | error f => simp [hs, Except.toOption] at hstartup
  | ok s =>
    simp only [hs, Except.toOption, Option.map_some, Option.some.injEq, Prod.mk.injEq] at hstartup
    let y : System := { System.initial .twoProcesses (fun _ => 0) none with state := s }
    have hstarted : System.Step .twoProcesses (System.initial .twoProcesses (fun _ => 0) none)
        (.event (.startup 0)) y := .event (by simp) ⟨rfl, hs⟩
    have hcalled : System.Step .twoProcesses y (.demosCompleted ⟨0, 0⟩)
        (y.setLibrary ⟨0, 0⟩ (Library.demosCompleted false {})) :=
      .demosCompleted ⟨hstartup.1, hstartup.2, rfl⟩
    have hwritten : System.Step .twoProcesses
        (y.setLibrary ⟨0, 0⟩ (Library.demosCompleted false {})) (.write ⟨0, 0⟩) _ :=
      .write ⟨hstartup.1, hstartup.2, rfl⟩
    have hrun : Run (System.Step .twoProcesses) _ _ _ :=
      Run.cons hstarted (Run.cons hcalled (Run.cons hwritten .nil))
    exact ⟨_, rfl, (completion_handshake hrun).1 ⟨0, 0⟩⟩

end DemosSched
