import DemosSched.General.Scanning
import DemosSched.Handshake

/-! The library of `demos-sch.c` as a process links it: its static variables, the
reading of `DEMOS_PARAMETERS`, and what each call returns and does to the two
descriptors. -/

namespace DemosSched

namespace DemosSch

inductive Errno
  | enokey
  | ebadmsg
  | ewouldblock
  /-- Of `write` or `read`. -/
  | transfer (code : Int)
  deriving DecidableEq, Repr

/-- `%d`: the value saturates as a `long` and is stored as an `int`. -/
def scanInt (str : List Char) : Option (Int × List Char) :=
  (Scanning.integer str).map fun (n, rest) =>
    ((max (-2 ^ 63) (min (2 ^ 63 - 1) n)).bmod (2 ^ 32), rest)

/-- `sscanf` with `count` conversions `%d` between commas: what it has assigned
when it returns. -/
def sscanf : Nat → List Char → List Int
  | 0, _ => []
  | count + 1, str =>
    match scanInt str with
    | none => []
    | some (value, ',' :: rest) => value :: sscanf count rest
    | some (value, _) => [value]

structure Statics where
  fdCompleted : Int := 0
  fdNewPeriod : Int := 0
  demosInitRan : Bool := false
  initializationPending : Bool := false
  deriving DecidableEq, Repr

/-- What a call meets: the value of `DEMOS_PARAMETERS`, and whether the calls of
`write` and `read` fail. -/
structure Surroundings where
  parameters : Option String
  writeError : Option Int := none
  readError : Option Int := none

inductive Transfer
  | write (fd : Int) (buf : Nat)
  | read (fd : Int)
  deriving DecidableEq, Repr

/-- The end of a call: `none` is the return value 0, an `errno` comes with -1. -/
structure Outcome where
  statics : Statics
  error : Option Errno := none
  transfers : List Transfer := []
  deriving DecidableEq, Repr

def demosInit (e : Surroundings) (x : Statics) : Outcome :=
  -- saved before the parameters have been looked at
  let x := { x with demosInitRan := true }
  match e.parameters with
  | none => { statics := x, error := some .enokey }
  | some str =>
    match sscanf 3 str.toList with
    | [completed, newPeriod, flag] =>
      { statics := { x with
          fdCompleted := completed, fdNewPeriod := newPeriod,
          initializationPending := decide (flag ≠ 0) } }
    -- the descriptors read so far stay assigned
    | assigned =>
      { statics := { x with
          fdCompleted := assigned.getD 0 x.fdCompleted
          fdNewPeriod := assigned.getD 1 x.fdNewPeriod }
        error := some .ebadmsg }

/-- `if (!demos_init_ran) { int s = demos_init(); if (s != 0) return s; }`
before `body`. -/
def ensureInit (e : Surroundings) (body : Statics → Outcome) (x : Statics) : Outcome :=
  if x.demosInitRan then body x
  else
    match (demosInit e x).error with
    | none => body (demosInit e x).statics
    | some _ => demosInit e x

/-- The rest of `demos_completed`. -/
def signalCompletion (e : Surroundings) (x : Statics) : Outcome :=
  if x.initializationPending then { statics := x }
  else
    match e.writeError, e.readError with
    | some code, _ =>
      { statics := x, error := some (.transfer code), transfers := [.write x.fdCompleted 1] }
    | none, readError =>
      { statics := x, error := readError.map .transfer
        transfers := [.write x.fdCompleted 1, .read x.fdNewPeriod] }

def demosCompleted (e : Surroundings) (x : Statics) : Outcome :=
  ensureInit e (signalCompletion e) x

def demosInitializationCompleted (e : Surroundings) (x : Statics) : Outcome :=
  ensureInit e (fun x =>
    if !x.initializationPending then { statics := x, error := some .ewouldblock }
    else demosCompleted e { x with initializationPending := false }) x

inductive Call
  | init
  | completed
  | initializationCompleted
  deriving DecidableEq, Repr

def Call.run (e : Surroundings) : Call → Statics → Outcome
  | .init => demosInit e
  | .completed => demosCompleted e
  | .initializationCompleted => demosInitializationCompleted e

def log (x : Statics) : List (Call × Surroundings) → List (Call × Outcome)
  | [] => []
  | (k, e) :: calls => (k, k.run e x) :: log (k.run e x).statics calls

/-- `DEMOS_PARAMETERS` is missing or is not three integers. -/
def Unreadable (e : Surroundings) : Prop :=
  ∀ str ∈ e.parameters, (sscanf 3 str.toList).length ≠ 3

instance (e : Surroundings) : Decidable (Unreadable e) :=
  inferInstanceAs (Decidable (∀ str ∈ e.parameters, _))

/-- The first call of the library leaves the statics like this when it cannot
read the parameters. -/
def InitFailed (x : Statics) : Prop :=
  x.demosInitRan = true ∧ x.initializationPending = false

variable {e : Surroundings} {x : Statics}

theorem demosInit_unreadable (bad : Unreadable e) :
    (demosInit e x).error ≠ none ∧ (demosInit e x).transfers = [] ∧
      (demosInit e x).statics.demosInitRan = true ∧
      (demosInit e x).statics.initializationPending = x.initializationPending := by
  unfold demosInit
  dsimp only
  split
  case h_1 => simp
  case h_2 str heq =>
    split
    case h_1 hscan => exact absurd (congrArg List.length hscan) (bad str heq)
    case h_2 => simp

theorem ensureInit_unreadable {body : Statics → Outcome} (bad : Unreadable e)
    (fresh : x.demosInitRan = false) : ensureInit e body x = demosInit e x := by
  unfold ensureInit
  rw [if_neg (by simp [fresh])]
  split
  case h_1 hnone => exact absurd hnone (demosInit_unreadable bad).1
  case h_2 => rfl

theorem run_first (bad : Unreadable e) (k : Call) : k.run e {} = demosInit e {} := by
  cases k with
  | init => rfl
  | completed => exact ensureInit_unreadable (x := {}) bad rfl
  | initializationCompleted =>
    rw [Call.run, demosInitializationCompleted, ensureInit_unreadable bad rfl]

theorem run_initFailed (bad : Unreadable e) (failed : InitFailed x) (k : Call) :
    InitFailed (k.run e x).statics ∧
      ((k.run e x).error ≠ none ∧ (k.run e x).transfers = [] ↔ k ≠ .completed) := by
  obtain ⟨ran, pending⟩ := failed
  cases k with
  | init =>
    obtain ⟨herror, htransfers, hran, hpending⟩ := demosInit_unreadable (x := x) bad
    exact ⟨⟨hran, hpending.trans pending⟩, by simp [Call.run, herror, htransfers]⟩
  | completed =>
    simp only [Call.run, demosCompleted, ensureInit, ran, if_true, signalCompletion, pending,
      Bool.false_eq_true, if_false]
    split <;> exact ⟨⟨ran, pending⟩, by simp⟩
  | initializationCompleted =>
    simp only [Call.run, demosInitializationCompleted, ensureInit, ran, if_true, pending,
      Bool.not_false]
    exact ⟨⟨ran, pending⟩, by simp⟩

def StaysFailed (calls : List (Call × Outcome)) : Prop :=
  ∀ o ∈ calls, o.2.error ≠ none ∧ o.2.transfers = []

theorem staysFailed_initFailed {calls : List (Call × Surroundings)}
    (bad : ∀ k ∈ calls, Unreadable k.2) (failed : InitFailed x) :
    StaysFailed (log x calls) ↔ ∀ k ∈ calls, k.1 ≠ .completed := by
  induction calls generalizing x with
  | nil => simp [StaysFailed, log]
  | cons k calls ih =>
    obtain ⟨next, hfails⟩ := run_initFailed (bad k List.mem_cons_self) failed k.1
    have hrest := ih (fun k hk => bad k (List.mem_cons_of_mem _ hk)) next
    unfold StaysFailed at *
    rw [log, List.forall_mem_cons, List.forall_mem_cons, hrest, hfails]

theorem stays_failed_iff (calls : List (Call × Surroundings))
    (bad : ∀ k ∈ calls, Unreadable k.2) :
    StaysFailed (log {} calls) ↔ ∀ k ∈ calls.tail, k.1 ≠ .completed := by
  cases calls with
  | nil => simp [StaysFailed, log]
  | cons k calls =>
    have hbad := bad k List.mem_cons_self
    obtain ⟨herror, htransfers, hran, hpending⟩ := demosInit_unreadable (x := {}) hbad
    have hrest := staysFailed_initFailed (fun k hk => bad k (List.mem_cons_of_mem _ hk))
      (show InitFailed (demosInit k.2 {}).statics from ⟨hran, hpending⟩)
    unfold StaysFailed at *
    rw [log, run_first hbad, List.forall_mem_cons, hrest, List.tail_cons]
    exact and_iff_right ⟨herror, htransfers⟩

def missing : Surroundings := { parameters := none }

theorem stays_failed_missing :
    (∀ k ∈ [(Call.init, missing), (.initializationCompleted, missing)], Unreadable k.2) ∧
      StaysFailed (log {} [(.init, missing), (.initializationCompleted, missing)]) :=
  ⟨by decide, (stays_failed_iff _ (by decide)).mpr (by decide)⟩

/-- The second `demos_completed` writes to the descriptor 0. -/
theorem stays_failed_retried : ¬ ∀ calls : List (Call × Surroundings),
    (∀ k ∈ calls, Unreadable k.2) → StaysFailed (log {} calls) := by
  intro h
  have hlast := h [(.completed, missing), (.completed, missing)] (by decide)
    (.completed, { statics := { demosInitRan := true }, transfers := [.write 0 1, .read 0] })
    (by decide)
  exact hlast.1 rfl

/-- Parameters with the three values, and transfers that succeed. -/
structure Working (completed newPeriod flag : Int) (e : Surroundings) : Prop where
  scanned : ∃ str ∈ e.parameters, sscanf 3 str.toList = [completed, newPeriod, flag]
  write : e.writeError = none
  read : e.readError = none

def Statics.library (x : Statics) : Library where
  demosInitRan := x.demosInitRan
  initializationPending := x.initializationPending

def Call.handshake : Call → Bool → Library → Library
  | .init => Library.demosInit
  | .completed => Library.demosCompleted
  | .initializationCompleted => Library.demosInitializationCompleted

def Statics.ready (completed newPeriod : Int) (pending : Bool) : Statics :=
  ⟨completed, newPeriod, true, pending⟩

variable {a b f : Int}

theorem demosInit_working (working : Working a b f e) :
    demosInit e x = { statics := .ready a b (decide (f ≠ 0)) } := by
  obtain ⟨str, hstr, hscan⟩ := working.scanned
  unfold demosInit
  simp only [Option.mem_def.mp hstr, hscan]
  rfl

theorem ensureInit_working {body : Statics → Outcome} (working : Working a b f e) :
    ensureInit e body x =
      body (if x.demosInitRan then x else .ready a b (decide (f ≠ 0))) := by
  unfold ensureInit
  split
  case isTrue => rfl
  case isFalse => simp only [demosInit_working working]

theorem signalCompletion_working (working : Working a b f e) :
    signalCompletion e x =
      if x.initializationPending then { statics := x }
      else { statics := x, transfers := [.write x.fdCompleted 1, .read x.fdNewPeriod] } := by
  unfold signalCompletion
  simp only [working.write, working.read, Option.map_none]

theorem run_library (working : Working a b f e) (k : Call) :
    (k.run e x).statics.library =
        { k.handshake (decide (f ≠ 0)) x.library with call := .outside } ∧
      ((k.run e x).transfers = [] ↔
        (k.handshake (decide (f ≠ 0)) x.library).call = .outside) := by
  obtain ⟨completed, newPeriod, ran, pending⟩ := x
  cases k with
  | init =>
    rw [Call.run, demosInit_working working]
    exact ⟨rfl, by simp [Call.handshake, Library.demosInit, Statics.library]⟩
  | completed =>
    simp only [Call.run, demosCompleted, ensureInit_working working,
      signalCompletion_working working, Call.handshake, Library.demosCompleted,
      Library.ensureInit, Library.demosInit, Statics.library, Statics.ready]
    cases ran <;> cases pending <;> by_cases hf : f = 0 <;> simp [hf]
  | initializationCompleted =>
    simp only [Call.run, demosInitializationCompleted, demosCompleted,
      ensureInit_working working, signalCompletion_working working, Call.handshake,
      Library.demosInitializationCompleted, Library.demosCompleted,
      Library.ensureInit, Library.demosInit, Statics.library, Statics.ready]
    cases ran <;> cases pending <;> by_cases hf : f = 0 <;> simp [hf]

section Ready

variable (working : Working a b f e)
include working

theorem run_fresh (k : Call) : k.run e {} = k.run e (.ready a b (decide (f ≠ 0))) := by
  cases k with
  | init => rw [Call.run, demosInit_working working, demosInit_working working]
  | completed =>
    rw [Call.run, demosCompleted, demosCompleted, ensureInit_working working,
      ensureInit_working working]
    rfl
  | initializationCompleted =>
    rw [Call.run, demosInitializationCompleted, demosInitializationCompleted,
      ensureInit_working working, ensureInit_working working]
    rfl

theorem demosCompleted_pending :
    demosCompleted e (.ready a b true) = { statics := .ready a b true } := by
  rw [demosCompleted, ensureInit_working working, signalCompletion_working working]
  rfl

theorem demosCompleted_ready :
    demosCompleted e (.ready a b false) =
      { statics := .ready a b false, transfers := [.write a 1, .read b] } := by
  rw [demosCompleted, ensureInit_working working, signalCompletion_working working]
  rfl

theorem demosInitializationCompleted_pending :
    demosInitializationCompleted e (.ready a b true) =
      { statics := .ready a b false, transfers := [.write a 1, .read b] } := by
  rw [demosInitializationCompleted, ensureInit_working working]
  exact demosCompleted_ready working

theorem demosInitializationCompleted_ready :
    demosInitializationCompleted e (.ready a b false) =
      { statics := .ready a b false, error := some .ewouldblock } := by
  rw [demosInitializationCompleted, ensureInit_working working]
  rfl

end Ready

def Ends (o : Call × Outcome) : Prop := o.1 = .initializationCompleted ∧ o.2.error = none

instance (o : Call × Outcome) : Decidable (Ends o) := inferInstanceAs (Decidable (_ ∧ _))

def Settled (completed newPeriod : Int) (o : Call × Outcome) : Prop :=
  (o.1 = .initializationCompleted → o.2.error = some .ewouldblock ∧ o.2.transfers = []) ∧
    (o.1 = .completed → o.2.transfers = [.write completed 1, .read newPeriod])

structure EndsOnce (completed newPeriod flag : Int) (calls : List (Call × Outcome)) :
    Prop where
  once : calls.countP (Ends ·) ≤ 1
  after : calls.Pairwise fun o o' => Ends o → Settled completed newPeriod o'
  before : flag ≠ 0 → ∀ o ∈ calls.takeWhile (¬ Ends ·), o.1 = .completed → o.2.transfers = []

/-- Once a `demos_init` has come after a `demos_initialization_completed`, no call
but `demos_init` comes. -/
def NotInitializedAgain (calls : List (Call × Surroundings)) : Prop :=
  ∀ k ∈ (calls.dropWhile (·.1 ≠ .initializationCompleted)).dropWhile (·.1 ≠ .init),
    k.1 = .init

theorem Settled.not_ends {o : Call × Outcome} (settled : Settled a b o) : ¬ Ends o := by
  intro ends
  have herror := (settled.1 ends.1).1
  rw [ends.2] at herror
  cases herror

theorem pairwise_of_settled {calls : List (Call × Outcome)}
    (settled : ∀ o ∈ calls, Settled a b o) :
    calls.Pairwise fun o o' => Ends o → Settled a b o' :=
  List.pairwise_of_forall_mem_list fun _ ho _ _ ends => absurd ends (settled _ ho).not_ends

theorem countP_ends {calls : List (Call × Outcome)}
    (after : calls.Pairwise fun o o' => Ends o → Settled a b o') :
    calls.countP (Ends ·) ≤ 1 := by
  induction calls with
  | nil => simp
  | cons o calls ih =>
    rw [List.pairwise_cons] at after
    by_cases ends : Ends o
    · have hnone : calls.countP (Ends ·) = 0 := by
        rw [List.countP_eq_zero]
        intro o' ho'
        simpa using (after.1 o' ho' ends).not_ends
      simp [hnone, ends]
    · simpa [List.countP_cons, ends] using ih after.2

theorem endsOnce_cons_ends {o : Call × Outcome} {calls : List (Call × Outcome)} (ends : Ends o) :
    EndsOnce a b f (o :: calls) ↔ ∀ o' ∈ calls, Settled a b o' := by
  constructor
  · intro h o' ho'
    exact (List.pairwise_cons.mp h.after).1 o' ho' ends
  · intro settled
    have hafter : (o :: calls).Pairwise fun o o' => Ends o → Settled a b o' :=
      List.pairwise_cons.mpr ⟨fun o' ho' _ => settled o' ho', pairwise_of_settled settled⟩
    refine ⟨countP_ends hafter, hafter, ?_⟩
    simp [ends]

theorem endsOnce_cons_not {o : Call × Outcome} {calls : List (Call × Outcome)}
    (ends : ¬ Ends o) (quiet : o.1 = .completed → o.2.transfers = []) :
    EndsOnce a b f (o :: calls) ↔ EndsOnce a b f calls := by
  have htake : (o :: calls).takeWhile (¬ Ends ·) = o :: calls.takeWhile (¬ Ends ·) :=
    List.takeWhile_cons_of_pos (by simpa using ends)
  constructor
  · intro h
    have hafter := (List.pairwise_cons.mp h.after).2
    refine ⟨countP_ends hafter, hafter, fun flag o' ho' => ?_⟩
    exact h.before flag o' (htake ▸ List.mem_cons_of_mem o ho')
  · intro h
    have hafter : (o :: calls).Pairwise fun o o' => Ends o → Settled a b o' :=
      List.pairwise_cons.mpr ⟨fun _ _ h => absurd h ends, h.after⟩
    refine ⟨countP_ends hafter, hafter, fun flag o' ho' => ?_⟩
    rw [htake, List.mem_cons] at ho'
    rcases ho' with rfl | ho'
    · exact quiet
    · exact h.before flag o' ho'

section Phases

variable {calls : List (Call × Surroundings)} (working : ∀ k ∈ calls, Working a b f k.2)
include working

theorem settled_pending (flag : f ≠ 0) :
    (∀ o ∈ log (.ready a b true) calls, Settled a b o) ↔ ∀ k ∈ calls, k.1 = .init := by
  induction calls with
  | nil => simp [log]
  | cons k calls ih =>
    obtain ⟨hk, hcalls⟩ := List.forall_mem_cons.mp working
    obtain ⟨k, e⟩ := k
    rw [log, List.forall_mem_cons, List.forall_mem_cons]
    cases k with
    | init =>
      have hrun := demosInit_working (x := .ready a b true) hk
      simp only [Call.run, hrun, decide_eq_true flag, ih hcalls]
      simp [Settled]
    | completed => simp [Call.run, demosCompleted_pending hk, Settled]
    | initializationCompleted =>
      simp [Call.run, demosInitializationCompleted_pending hk, Settled]

theorem settled_ready (flag : f ≠ 0) :
    (∀ o ∈ log (.ready a b false) calls, Settled a b o) ↔
      ∀ k ∈ calls.dropWhile (·.1 ≠ .init), k.1 = .init := by
  induction calls with
  | nil => simp [log]
  | cons k calls ih =>
    obtain ⟨hk, hcalls⟩ := List.forall_mem_cons.mp working
    obtain ⟨k, e⟩ := k
    rw [log, List.forall_mem_cons]
    cases k with
    | init =>
      have hrun := demosInit_working (x := .ready a b false) hk
      simp only [Call.run, hrun, decide_eq_true flag, settled_pending hcalls flag]
      simp [Settled]
    | completed =>
      simp only [Call.run, demosCompleted_ready hk, ih hcalls]
      simp [Settled]
    | initializationCompleted =>
      simp only [Call.run, demosInitializationCompleted_ready hk, ih hcalls]
      simp [Settled]

theorem endsOnce_pending (flag : f ≠ 0) :
    EndsOnce a b f (log (.ready a b true) calls) ↔ NotInitializedAgain calls := by
  induction calls with
  | nil =>
    exact iff_of_true ⟨by simp [log], by simp [log], by simp [log]⟩ (by simp [NotInitializedAgain])
  | cons k calls ih =>
    obtain ⟨hk, hcalls⟩ := List.forall_mem_cons.mp working
    obtain ⟨k, e⟩ := k
    rw [log]
    cases k with
    | init =>
      have hrun := demosInit_working (x := .ready a b true) hk
      rw [endsOnce_cons_not (by simp [Ends]) (by simp)]
      simp only [Call.run, hrun, decide_eq_true flag, ih hcalls]
      simp [NotInitializedAgain]
    | completed =>
      simp only [Call.run, demosCompleted_pending hk]
      rw [endsOnce_cons_not (by simp [Ends]) (by simp), ih hcalls]
      simp [NotInitializedAgain]
    | initializationCompleted =>
      simp only [Call.run, demosInitializationCompleted_pending hk]
      rw [endsOnce_cons_ends (by simp [Ends]), settled_ready hcalls flag]
      simp [NotInitializedAgain]

theorem not_ends_flagless (flag : f = 0) :
    ∀ o ∈ log (.ready a b false) calls, ¬ Ends o := by
  induction calls with
  | nil => simp [log]
  | cons k calls ih =>
    obtain ⟨hk, hcalls⟩ := List.forall_mem_cons.mp working
    obtain ⟨k, e⟩ := k
    rw [log, List.forall_mem_cons]
    cases k with
    | init =>
      have hrun := demosInit_working (x := .ready a b false) hk
      simp only [Call.run, hrun, flag]
      exact ⟨by simp [Ends], ih hcalls⟩
    | completed =>
      simp only [Call.run, demosCompleted_ready hk]
      exact ⟨by simp [Ends], ih hcalls⟩
    | initializationCompleted =>
      simp only [Call.run, demosInitializationCompleted_ready hk]
      exact ⟨by simp [Ends], ih hcalls⟩

theorem log_fresh : log {} calls = log (.ready a b (decide (f ≠ 0))) calls := by
  cases calls with
  | nil => rfl
  | cons k calls => rw [log, log, run_fresh (working k List.mem_cons_self)]

end Phases

theorem ends_once_iff (calls : List (Call × Surroundings))
    (working : ∀ k ∈ calls, Working a b f k.2) :
    EndsOnce a b f (log {} calls) ↔ f = 0 ∨ NotInitializedAgain calls := by
  rw [log_fresh working]
  by_cases flag : f = 0
  · have hnone := not_ends_flagless working flag
    rw [decide_eq_false (not_not.mpr flag)]
    refine iff_of_true ⟨?_, ?_, fun h => absurd flag h⟩ (.inl flag)
    · rw [List.countP_eq_zero.mpr (by simpa using hnone)]
      exact Nat.zero_le 1
    · exact List.pairwise_of_forall_mem_list fun o ho _ _ ends => absurd ends (hnone o ho)
  · rw [decide_eq_true flag, endsOnce_pending working flag]
    simp [flag]

def linked : Surroundings := { parameters := some "5,6,1" }

theorem linked_working : Working 5 6 1 linked :=
  ⟨⟨"5,6,1", rfl, by decide⟩, rfl, rfl⟩

theorem ends_once_apiInit :
    (∀ k ∈ [(Call.init, linked), (.completed, linked), (.initializationCompleted, linked),
        (.completed, linked)], Working 5 6 1 k.2) ∧
      EndsOnce 5 6 1 (log {} [(.init, linked), (.completed, linked),
        (.initializationCompleted, linked), (.completed, linked)]) := by
  have hworking : ∀ k ∈ [(Call.init, linked), (.completed, linked),
      (.initializationCompleted, linked), (.completed, linked)], Working 5 6 1 k.2 := by
    simp [linked_working]
  refine ⟨hworking, (ends_once_iff _ hworking).mpr (.inr ?_)⟩
  unfold NotInitializedAgain
  decide

/-- A `demos_init` after the end of the initialization has it pending again. -/
theorem ends_once_reinitialized : ¬ ∀ (a b f : Int) (calls : List (Call × Surroundings)),
    (∀ k ∈ calls, Working a b f k.2) → EndsOnce a b f (log {} calls) := by
  intro h
  have honce := (h 5 6 1 [(.init, linked), (.initializationCompleted, linked), (.init, linked),
    (.initializationCompleted, linked)] (by simp [linked_working])).once
  revert honce
  decide

end DemosSch

end DemosSched
