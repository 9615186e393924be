import DemosSched.ProcessLibrary

/-! A process from its start by `Process::exec`. The descriptors that are printed
into `DEMOS_PARAMETERS` are read back by the library, and what the process does in
a run of the handshake is what the code of `demos-sch.c` does with them. -/

namespace DemosSched

open Fallible DemosSch

/-- The text that `sprintf` leaves in `val`. -/
def Process.parameters (completedFd efdContinue : Int32) (hasInitialization : Bool) : String :=
  String.ofList (Scanning.decimal completedFd.toInt ++ ',' ::
    (Scanning.decimal efdContinue.toInt ++ ',' ::
      Scanning.decimal (if hasInitialization then 1 else 0)))

/-- The environment of the child, with descriptors that work. -/
def Process.exec (completedFd efdContinue : Int32) (hasInitialization : Bool) : Surroundings where
  parameters := some (Process.parameters completedFd efdContinue hasInitialization)

namespace DemosSch

variable {rest : List Char}

theorem length_decimal (n : Int32) : (Scanning.decimal n.toInt).length ≤ 11 := by
  have hlt := n.toInt_lt
  have hle := n.le_toInt
  cases hn : n.toInt with
  | ofNat m =>
    have hbound : (m : Int) < 2 ^ 31 := by rw [← Int.ofNat_eq_natCast, ← hn]; exact hlt
    have hm : (Nat.toDigits 10 m).length ≤ 10 :=
      (Nat.length_toDigits_le_iff (by decide) (by decide)).mpr (by omega)
    rw [Scanning.decimal]
    omega
  | negSucc m =>
    have hm : (Nat.toDigits 10 (m + 1)).length ≤ 10 :=
      (Nat.length_toDigits_le_iff (by decide) (by decide)).mpr (by omega)
    rw [Scanning.decimal, List.length_cons]
    omega

theorem length_parameters (a b : Int32) (hasInitialization : Bool) :
    (Process.parameters a b hasInitialization).length < 100 := by
  have ha := length_decimal a
  have hb := length_decimal b
  have hflag : (Scanning.decimal (if hasInitialization then 1 else 0)).length = 1 := by
    cases hasInitialization <;> decide
  simp only [Process.parameters, String.length_ofList, List.length_append, List.length_cons, hflag]
  omega

theorem scanInt_decimal (n : Int32) (stop : ∀ d ∈ rest.head?, d.isDigit = false) :
    scanInt (Scanning.decimal n.toInt ++ rest) = some (n.toInt, rest) := by
  have hlt := n.toInt_lt
  have hle := n.le_toInt
  have hclamped : max (-2 ^ 63) (min (2 ^ 63 - 1) n.toInt) = n.toInt := by omega
  have hstored : n.toInt.bmod (2 ^ 32) = n.toInt :=
    Int.bmod_eq_of_le (by omega) (by omega)
  simp only [scanInt, Scanning.integer_decimal _ stop, Option.map_some, hclamped, hstored]

theorem sscanf_parameters (a b : Int32) (hasInitialization : Bool) :
    sscanf 3 (Process.parameters a b hasInitialization).toList =
      [a.toInt, b.toInt, if hasInitialization then 1 else 0] := by
  have hcomma : ∀ rest : List Char, ∀ d ∈ (',' :: rest).head?, d.isDigit = false := by
    intro rest d hd
    obtain rfl : ',' = d := Option.some.inj hd
    decide
  have hflag : scanInt (Scanning.decimal (if hasInitialization then 1 else 0)) =
      some (if hasInitialization then 1 else 0, []) := by
    cases hasInitialization <;> decide
  simp only [Process.parameters, String.toList_ofList, sscanf, scanInt_decimal a (hcomma _),
    scanInt_decimal b (hcomma _), hflag]

theorem working_exec (a b : Int32) (hasInitialization : Bool) :
    Working a.toInt b.toInt (if hasInitialization then 1 else 0)
      (Process.exec a b hasInitialization) :=
  ⟨⟨_, rfl, sscanf_parameters a b hasInitialization⟩, rfl, rfl⟩

def outstanding (completed newPeriod : Int) : LibraryCall → List Transfer
  | .outside => []
  | .writing => [.write completed 1, .read newPeriod]
  | .reading => [.read newPeriod]

/-- The descriptors are those of the environment once they have been read. -/
def Statics.Bound (completed newPeriod : Int) (x : Statics) : Prop :=
  x.demosInitRan = true → x.fdCompleted = completed ∧ x.fdNewPeriod = newPeriod

def after (x : Statics) : List (Call × Surroundings) → Statics
  | [] => x
  | (k, e) :: calls => after (k.run e x).statics calls

theorem after_snoc (x : Statics) (calls : List (Call × Surroundings)) (k : Call)
    (e : Surroundings) :
    after x (calls ++ [(k, e)]) = (k.run e (after x calls)).statics := by
  induction calls generalizing x with
  | nil => rfl
  | cons k calls ih => exact ih _

theorem log_snoc (x : Statics) (calls : List (Call × Surroundings)) (k : Call)
    (e : Surroundings) :
    log x (calls ++ [(k, e)]) = log x calls ++ [(k, k.run e (after x calls))] := by
  induction calls generalizing x with
  | nil => rfl
  | cons k calls ih => exact congrArg (_ :: ·) (ih _)

section Calls

variable {e : Surroundings} {x : Statics} {a b f : Int}

theorem Statics.Bound.eq_ready (bound : x.Bound a b) (ran : x.demosInitRan = true) :
    x = .ready a b x.initializationPending := by
  obtain ⟨rfl, rfl⟩ := bound ran
  rw [Statics.ready, ← ran]

/-- Before the first call of `demos_init` the other statics do not matter. -/
theorem run_unread (working : Working a b f e) (ran : x.demosInitRan = false) (k : Call) :
    k.run e x = k.run e (.ready a b (decide (f ≠ 0))) := by
  have hfirst : ∀ body, ensureInit e body x = ensureInit e body (.ready a b (decide (f ≠ 0))) := by
    intro body
    rw [ensureInit_working working, ensureInit_working working, if_neg (by simp [ran])]
    rfl
  cases k with
  | init => rw [Call.run, demosInit_working working, demosInit_working working]
  | completed => exact hfirst _
  | initializationCompleted =>
    rw [Call.run, demosInitializationCompleted, demosInitializationCompleted, hfirst]

theorem handshake_unread (ran : x.demosInitRan = false) (k : Call) :
    (k.handshake (decide (f ≠ 0)) x.library).call =
      (k.handshake (decide (f ≠ 0)) (Statics.ready a b (decide (f ≠ 0))).library).call := by
  have hfirst : Library.ensureInit (decide (f ≠ 0)) x.library =
      Library.ensureInit (decide (f ≠ 0)) (Statics.ready a b (decide (f ≠ 0))).library := by
    rw [Library.ensureInit, if_neg (by simp [Statics.library, ran])]
    rfl
  cases k with
  | init => rfl
  | completed => simp only [Call.handshake, Library.demosCompleted, hfirst]
  | initializationCompleted =>
    simp only [Call.handshake, Library.demosInitializationCompleted, hfirst]

/-- With the descriptors of the environment a call transfers what the handshake has
it transfer. -/
structure Follows (a b : Int) (k : Call) (o : Outcome) (call : LibraryCall) : Prop where
  bound : o.statics.Bound a b
  transfers : o.transfers = outstanding a b call
  error : o.error ≠ none → k = .initializationCompleted ∧ o.error = some .ewouldblock

theorem follows_ready (working : Working a b f e) (k : Call) (pending : Bool) :
    Follows a b k (k.run e (.ready a b pending))
      (k.handshake (decide (f ≠ 0)) (Statics.ready a b pending).library).call := by
  have hbound : ∀ pending, (Statics.ready a b pending).Bound a b := fun _ _ => ⟨rfl, rfl⟩
  cases k with
  | init =>
    rw [Call.run, demosInit_working working]
    exact ⟨hbound _, rfl, fun h => absurd rfl h⟩
  | completed =>
    cases pending with
    | true =>
      rw [Call.run, demosCompleted_pending working]
      exact ⟨hbound _, rfl, fun h => absurd rfl h⟩
    | false =>
      rw [Call.run, demosCompleted_ready working]
      exact ⟨hbound _, rfl, fun h => absurd rfl h⟩
  | initializationCompleted =>
    cases pending with
    | true =>
      rw [Call.run, demosInitializationCompleted_pending working]
      exact ⟨hbound _, rfl, fun h => absurd rfl h⟩
    | false =>
      rw [Call.run, demosInitializationCompleted_ready working]
      exact ⟨hbound _, rfl, fun _ => ⟨rfl, rfl⟩⟩

theorem follows_run (working : Working a b f e) (bound : x.Bound a b) (k : Call) :
    Follows a b k (k.run e x) (k.handshake (decide (f ≠ 0)) x.library).call := by
  by_cases ran : x.demosInitRan = true
  · rw [bound.eq_ready ran]
    exact follows_ready working k _
  · rw [Bool.not_eq_true] at ran
    rw [run_unread working ran, handshake_unread (a := a) (b := b) ran]
    exact follows_ready working k _

end Calls

end DemosSch

namespace Operation

def call (p : ProcessId) : Operation → Option Call
  | .demosInit q => if q = p then some .init else none
  | .demosCompleted q => if q = p then some .completed else none
  | .demosInitializationCompleted q => if q = p then some .initializationCompleted else none
  | _ => none

def transfer (completed newPeriod : Int) (p : ProcessId) : Operation → Option Transfer
  | .write q => if q = p then some (.write completed 1) else none
  | .read q => if q = p then some (.read newPeriod) else none
  | _ => none

end Operation

def Operation.calls (e : Surroundings) (p : ProcessId) (ops : List Operation) :
    List (Call × Surroundings) := (ops.filterMap (Operation.call p)).map (·, e)

/-- The operations of `p` are those of the code of the library: it is between two
calls or in the middle of the last one. -/
structure Executes (a b : Int) (e : Surroundings) (p : ProcessId) (ops : List Operation)
    (x : Library) : Prop where
  bound : (after {} (Operation.calls e p ops)).Bound a b
  statics : x = { (after {} (Operation.calls e p ops)).library with call := x.call }
  transfers : (log {} (Operation.calls e p ops)).flatMap (·.2.transfers) =
    ops.filterMap (Operation.transfer a b p) ++ outstanding a b x.call
  errors : ∀ o ∈ log {} (Operation.calls e p ops), o.2.error ≠ none →
    o.1 = .initializationCompleted ∧ o.2.error = some .ewouldblock

namespace Executes

variable {a b f : Int} {e : Surroundings} {p : ProcessId} {ops : List Operation} {x : Library}

theorem other (h : Executes a b e p ops x) {op : Operation} (call : op.call p = none)
    (transfer : op.transfer a b p = none) : Executes a b e p (ops ++ [op]) x := by
  have hcalls : Operation.calls e p (ops ++ [op]) = Operation.calls e p ops := by
    simp [Operation.calls, List.filterMap_append, call]
  have htransfers : (ops ++ [op]).filterMap (Operation.transfer a b p) =
      ops.filterMap (Operation.transfer a b p) := by
    simp [List.filterMap_append, transfer]
  exact ⟨by rw [hcalls]; exact h.bound, by rw [hcalls]; exact h.statics,
    by rw [hcalls, htransfers]; exact h.transfers, by rw [hcalls]; exact h.errors⟩

theorem called (h : Executes a b e p ops x) (working : Working a b f e)
    (outside : x.call = .outside) {op : Operation} {k : Call} (call : op.call p = some k)
    (transfer : op.transfer a b p = none) :
    Executes a b e p (ops ++ [op]) (k.handshake (decide (f ≠ 0)) x) := by
  have hcalls : Operation.calls e p (ops ++ [op]) = Operation.calls e p ops ++ [(k, e)] := by
    simp [Operation.calls, List.filterMap_append, call]
  have htransfers : (ops ++ [op]).filterMap (Operation.transfer a b p) =
      ops.filterMap (Operation.transfer a b p) := by
    simp [List.filterMap_append, transfer]
  have hbefore := h.transfers
  rw [outside, outstanding, List.append_nil] at hbefore
  obtain ⟨y, hy⟩ : ∃ y, after {} (Operation.calls e p ops) = y := ⟨_, rfl⟩
  have hx : x = y.library := by
    have hstatics := h.statics
    rw [outside, hy] at hstatics
    exact hstatics
  have hfollows := follows_run working h.bound k
  have hlibrary := (run_library (x := y) working k).1
  rw [hy, ← hx] at hfollows
  rw [← hx] at hlibrary
  refine ⟨?_, ?_, ?_, ?_⟩
  · rw [hcalls, after_snoc, hy]
    exact hfollows.bound
  · rw [hcalls, after_snoc, hy, hlibrary]
  · rw [hcalls, htransfers, log_snoc, List.flatMap_append, hbefore, hy]
    simp [hfollows.transfers]
  · rw [hcalls, log_snoc, hy]
    intro o ho
    rcases List.mem_append.mp ho with ho | ho
    · exact h.errors o ho
    · obtain rfl := List.mem_singleton.mp ho
      exact hfollows.error

theorem transferred (h : Executes a b e p ops x) {op : Operation} {t : Transfer}
    (call : op.call p = none) (transfer : op.transfer a b p = some t) {next : LibraryCall}
    (first : outstanding a b x.call = t :: outstanding a b next) :
    Executes a b e p (ops ++ [op]) { x with call := next } := by
  have hcalls : Operation.calls e p (ops ++ [op]) = Operation.calls e p ops := by
    simp [Operation.calls, List.filterMap_append, call]
  have htransfers : (ops ++ [op]).filterMap (Operation.transfer a b p) =
      ops.filterMap (Operation.transfer a b p) ++ [t] := by
    simp [List.filterMap_append, transfer]
  have hstatics := h.statics
  refine ⟨by rw [hcalls]; exact h.bound, ?_, ?_, by rw [hcalls]; exact h.errors⟩
  · rw [hcalls, hstatics]
  · rw [hcalls, htransfers, h.transfers, first, List.append_assoc]
    rfl

end Executes

namespace System

variable {c : Config} {y y' : System} {op : Operation} {ops : List Operation} {p : ProcessId}
  {a b f : Int} {e : Surroundings}

theorem setLibrary_self (x : Library) : (y.setLibrary p x).library p = x := by
  simp [setLibrary]

theorem setLibrary_other {q : ProcessId} (h : q ≠ p) (x : Library) :
    (y.setLibrary q x).library p = y.library p := Function.update_of_ne (Ne.symm h) _ _

section Step

variable (working : Working a b f e)
  (flag : (c.process p).hasInitialization = decide (f ≠ 0))
  (h : Executes a b e p ops (y.library p))
include working flag h

theorem executes_call {q : ProcessId} {k : Call} (thawed : y.Thawed q .outside)
    (call : op.call p = if q = p then some k else none) (transfer : op.transfer a b p = none) :
    Executes a b e p (ops ++ [op])
      ((y.setLibrary q (k.handshake (c.process q).hasInitialization (y.library q))).library p) := by
  by_cases hq : q = p
  · subst hq
    rw [if_pos rfl] at call
    rw [setLibrary_self, flag]
    exact h.called working thawed.2.2 call transfer
  · rw [if_neg hq] at call
    rw [setLibrary_other hq]
    exact h.other call transfer

theorem executes_step (step : Step c y op y') :
    Executes a b e p (ops ++ [op]) (y'.library p) := by
  cases step with
  | event | completion => exact h.other rfl rfl
  | demosInit thawed => exact executes_call working flag h (k := .init) thawed rfl rfl
  | demosCompleted thawed =>
    exact executes_call working flag h (k := .completed) thawed rfl rfl
  | demosInitializationCompleted thawed =>
    exact executes_call working flag h (k := .initializationCompleted) thawed rfl rfl
  | @write q thawed =>
    by_cases hq : q = p
    · subst hq
      have hlibrary : (y.write q).library q = { y.library q with call := .reading } :=
        setLibrary_self _
      rw [hlibrary]
      exact h.transferred (t := .write a 1) rfl (by simp [Operation.transfer])
        (by rw [thawed.2.2]; rfl)
    · have hlibrary : (y.write q).library p = y.library p := setLibrary_other hq _
      rw [hlibrary]
      exact h.other rfl (if_neg hq)
  | @read q thawed token =>
    by_cases hq : q = p
    · subst hq
      have hlibrary : (y.read q).library q = { y.library q with call := .outside } :=
        setLibrary_self _
      rw [hlibrary]
      exact h.transferred (t := .read b) rfl (by simp [Operation.transfer])
        (by rw [thawed.2.2]; rfl)
    · have hlibrary : (y.read q).library p = y.library p := setLibrary_other hq _
      rw [hlibrary]
      exact h.other rfl (if_neg hq)

end Step

theorem executes_run {gen : Nat → Nat} {timeout : Option Int} (working : Working a b f e)
    (flag : (c.process p).hasInitialization = decide (f ≠ 0))
    (run : Run (Step c) (System.initial c gen timeout) ops y) :
    Executes a b e p ops (y.library p) := by
  induction run with
  | nil =>
    have hfresh : ({} : Statics).Bound a b := by
      intro hran
      cases hran
    exact ⟨hfresh, rfl, rfl, fun _ ho => absurd ho List.not_mem_nil⟩
  | snoc _ last ih => exact executes_step working flag ih last

end System

/-- The parameters of a process fit into their buffer and are read back as they
were printed. In every run of the handshake, whatever the scheduler and the other
processes do meanwhile, the transfers of the process are those of the code of the
library over the two descriptors, up to the ones that the call it is in has yet to
make, its static variables are those of the code, and no call fails but a
`demos_initialization_completed` that comes without an initialization pending. -/
theorem process_code {c : Config} {gen : Nat → Nat} {timeout : Option Int}
    {ops : List Operation} {y : System}
    (run : Run (System.Step c) (System.initial c gen timeout) ops y) (p : ProcessId)
    (completedFd efdContinue : Int32) :
    (Process.parameters completedFd efdContinue (c.process p).hasInitialization).length < 100 ∧
      Executes completedFd.toInt efdContinue.toInt
        (Process.exec completedFd efdContinue (c.process p).hasInitialization) p ops
        (y.library p) := by
  refine ⟨length_parameters _ _ _, System.executes_run (working_exec _ _ _) ?_ run⟩
  cases (c.process p).hasInitialization <;> rfl

/-- The first process has written its completion and has yet to read. -/
theorem process_code_twoProcesses :
    ∃ (ops : List Operation) (y : System),
      Run (System.Step .twoProcesses) (System.initial .twoProcesses (fun _ => 0) none) ops y ∧
      ops.filterMap (Operation.transfer 5 6 ⟨0, 0⟩) = [.write 5 1] ∧
      (Process.parameters 5 6 false).length < 100 ∧
      Executes 5 6 (Process.exec 5 6 false) ⟨0, 0⟩ ops (y.library ⟨0, 0⟩) := by
  have hstartup : (((Event.startup 0).dispatch .twoProcesses
      (State.initial .twoProcesses (fun _ => 0) none)).toOption.map fun s =>
        ((s.process ⟨0, 0⟩).spawned, (s.process ⟨0, 0⟩).frozen)) = some (true, false) := by decide
  obtain ⟨r, hs⟩ : ∃ r, (Event.startup 0).dispatch .twoProcesses
    (State.initial .twoProcesses (fun _ => 0) none) = r := ⟨_, rfl⟩
  rw [hs] at hstartup
  cases r with
  | error f => simp [Except.toOption] at hstartup
  | ok s =>
    simp only [Except.toOption, Option.map_some, Option.some.injEq, Prod.mk.injEq] at hstartup
    let y : System := { System.initial .twoProcesses (fun _ => 0) none with state := s }
    have hstarted : System.Step .twoProcesses (System.initial .twoProcesses (fun _ => 0) none)
        (.event (.startup 0)) y := .event (by simp) ⟨rfl, hs⟩
    have hcalled : System.Step .twoProcesses y (.demosCompleted ⟨0, 0⟩)
        (y.setLibrary ⟨0, 0⟩ (Library.demosCompleted false {})) :=
      .demosCompleted ⟨hstartup.1, hstartup.2, rfl⟩
    have hwritten : System.Step .twoProcesses
        (y.setLibrary ⟨0, 0⟩ (Library.demosCompleted false {})) (.write ⟨0, 0⟩) _ :=
      .write ⟨hstartup.1, hstartup.2, rfl⟩
    have hrun : Run (System.Step .twoProcesses) _ _ _ :=
      Run.cons hstarted (Run.cons hcalled (Run.cons hwritten .nil))
    obtain ⟨hlength, hexecutes⟩ := process_code hrun ⟨0, 0⟩ 5 6
    exact ⟨_, _, hrun, by decide, hlength, hexecutes⟩

end DemosSched
