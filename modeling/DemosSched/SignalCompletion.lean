import DemosSched.ProcessStart

/-! `demos-signal-completion`, which scripts call in place of the library. -/

namespace DemosSched

open DemosSch

namespace SignalCompletion

/-- The exit status, and what was transferred. -/
def main (e : Surroundings) : Nat × List Transfer :=
  match e.parameters with
  | none => (100, [])
  | some str =>
    match sscanf 2 str.toList with
    | [fdCompleted, fdNewPeriod] =>
      match e.writeError, e.readError with
      | some _, _ => (1, [.write fdCompleted 1])
      | none, some _ => (2, [.write fdCompleted 1, .read fdNewPeriod])
      | none, none => (0, [.write fdCompleted 1, .read fdNewPeriod])
    | _ => (101, [])

def firstCall (hasInitialization : Bool) : Call :=
  if hasInitialization then .initializationCompleted else .completed

def calls (hasInitialization : Bool) : List Surroundings → List (Call × Surroundings)
  | [] => []
  | e :: es => (firstCall hasInitialization, e) :: es.map (Call.completed, ·)

structure Matches (e : Surroundings) (o : Outcome) : Prop where
  transfers : (main e).2 = o.transfers
  succeeds : (main e).1 = 0 ↔ o.error = none

variable {a b : Int32} {hasInitialization : Bool} {e : Surroundings}

theorem sscanf_take (n : Nat) (str : List Char) : sscanf n str = (sscanf (n + 1) str).take n := by
  induction n generalizing str with
  | zero => rfl
  | succ n ih =>
    rw [sscanf, sscanf.eq_def (n + 1 + 1)]
    dsimp only
    split
    · rfl
    · exact congrArg (_ :: ·) (ih _)
    · exact (List.take_of_length_le (Nat.le_add_left 1 n)).symm

theorem demosInit_parameters
    (started : e.parameters = some (Process.parameters a b hasInitialization)) (x : Statics) :
    demosInit e x = { statics := .ready a.toInt b.toInt hasInitialization } := by
  simp only [demosInit, started, sscanf_parameters]
  cases hasInitialization <;> rfl

theorem first_run (started : e.parameters = some (Process.parameters a b hasInitialization)) :
    (firstCall hasInitialization).run e {} = signalCompletion e (.ready a.toInt b.toInt false) := by
  have hinit := demosInit_parameters started {}
  cases hasInitialization with
  | false =>
    change demosCompleted e {} = _
    simp only [demosCompleted, ensureInit, hinit]
    rfl
  | true =>
    change demosInitializationCompleted e {} = _
    simp only [demosInitializationCompleted, ensureInit, hinit]
    rfl

theorem matches_signal (started : e.parameters = some (Process.parameters a b hasInitialization)) :
    Matches e (signalCompletion e (.ready a.toInt b.toInt false)) := by
  have hread : sscanf 2 (Process.parameters a b hasInitialization).toList = [a.toInt, b.toInt] := by
    rw [sscanf_take, sscanf_parameters]
    rfl
  cases hwrite : e.writeError with
  | some code =>
    constructor <;> simp [main, started, hread, hwrite, signalCompletion, Statics.ready]
  | none =>
    cases hreadError : e.readError with
    | some code =>
      constructor <;>
        simp [main, started, hread, hwrite, hreadError, signalCompletion, Statics.ready]
    | none =>
      constructor <;>
        simp [main, started, hread, hwrite, hreadError, signalCompletion, Statics.ready]

theorem signalCompletion_statics (x : Statics) : (signalCompletion e x).statics = x := by
  unfold signalCompletion
  split
  · rfl
  · split <;> rfl

theorem matches_completed {es : List Surroundings}
    (started : ∀ e ∈ es, e.parameters = some (Process.parameters a b hasInitialization)) :
    List.Forall₂ (fun e o => Matches e o.2) es
      (log (.ready a.toInt b.toInt false) (es.map (Call.completed, ·))) := by
  induction es with
  | nil => exact .nil
  | cons e es ih =>
    have hrun : Call.completed.run e (.ready a.toInt b.toInt false) =
        signalCompletion e (.ready a.toInt b.toInt false) := rfl
    rw [List.map_cons, log, hrun, signalCompletion_statics]
    exact .cons (matches_signal (started e List.mem_cons_self))
      (ih fun e he => started e (List.mem_cons_of_mem _ he))

end SignalCompletion

/-- A script that runs the program after its initialization, if it has one, and then whenever
it completes its work, transfers what a process does that calls the library there, and its
runs fail where these calls do, whatever happens to the transfers. -/
theorem signal_completion (a b : Int32) (hasInitialization : Bool) (es : List Surroundings)
    (started : ∀ e ∈ es, e.parameters = some (Process.parameters a b hasInitialization)) :
    List.Forall₂ (fun e o => SignalCompletion.Matches e o.2) es
      (log {} (SignalCompletion.calls hasInitialization es)) := by
  cases es with
  | nil => exact .nil
  | cons e es =>
    have hfirst := started e List.mem_cons_self
    rw [SignalCompletion.calls, log, SignalCompletion.first_run hfirst,
      SignalCompletion.signalCompletion_statics]
    exact .cons (SignalCompletion.matches_signal hfirst)
      (SignalCompletion.matches_completed fun e he => started e (List.mem_cons_of_mem _ he))

/-- The second run cannot write. -/
theorem signal_completion_badWrite : List.Forall₂ (fun e o => SignalCompletion.Matches e o.2)
    [Process.exec 5 6 true, { Process.exec 5 6 true with writeError := some 9 }]
    (log {} (SignalCompletion.calls true
      [Process.exec 5 6 true, { Process.exec 5 6 true with writeError := some 9 }])) :=
  signal_completion 5 6 true _ (by simp [Process.exec])

end DemosSched
