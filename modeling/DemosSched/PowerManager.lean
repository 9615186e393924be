import DemosSched.PowerPolicy

/-! `PowerManager`: what its constructor changes in sysfs and what is undone when the
constructor throws or the manager is destroyed. The files are the state; which of the
calls on them fail is part of the input. An exception is represented by the files as
they were left when it was thrown. -/

namespace DemosSched

open Fallible

/-- The calls on the files of one policy. A file is read where it is opened, and the
two calls fail alike unless they are listed apart. What is put into an `ofstream` is
written when it is closed; that this failed goes unnoticed. -/
inductive PolicyCall
  | readEntry
  | readGovernor
  | readMinFreq
  | readMaxFreq
  | readScalingMaxFreq
  | openAvailableFrequencies
  | readAvailableFrequencies
  | openAffectedCpus
  | readAffectedCpus
  | openGovernor
  | writeGovernor
  | openScalingMaxFreq
  | writeScalingMaxFreq
  | openSetspeed
  | reopenGovernor
  | rewriteGovernor
  | reopenScalingMaxFreq
  | rewriteScalingMaxFreq
  deriving DecidableEq, Repr

/-- The directory of a policy; frequencies are in kHz, as in the files. `affectedCpus` is
the `cpu_set` as it is read, in which numbers beyond its capacity have been dropped. -/
structure PolicyDir where
  name : String
  scalingGovernor : String
  cpuinfoMinFreq : Nat
  cpuinfoMaxFreq : Nat
  scalingMaxFreq : Nat
  scalingAvailableFrequencies : List Nat
  affectedCpus : CpuSet
  fails : PolicyCall → Bool

/-- The members of a `CpufreqPolicy` that its destructor needs. -/
structure ManagedPolicy extends CpufreqPolicy where
  currentGovernor : String
  originalGovernor : String
  originalScalingMaxFrequency : Nat

namespace PolicyDir

def isPolicy (d : PolicyDir) : Bool := "policy".toList.isPrefixOf d.name.toList

def check (call : PolicyCall) (d : PolicyDir) : Except PolicyDir Unit :=
  if d.fails call then .error d else .ok ()

/-- An unreadable list is an empty one, unless assertions are compiled in. -/
def readAvailableFrequencies (debug : Bool) (d : PolicyDir) :
    Except PolicyDir (Option (List Nat)) :=
  if d.fails .openAvailableFrequencies then .ok none
  else if d.fails .readAvailableFrequencies then if debug then .error d else .ok (some [])
  else .ok (some (d.scalingAvailableFrequencies.map (· * 1000)))

def readAffectedCpus (debug : Bool) (d : PolicyDir) : Except PolicyDir CpuSet := do
  d.check .openAffectedCpus
  if d.fails .readAffectedCpus then (if debug then .error d else .ok ∅) else .ok d.affectedCpus

end PolicyDir

namespace ManagedPolicy

/-- `openCall` and `writeCall` are the calls it makes. -/
def writeGovernor (openCall writeCall : PolicyCall) (governor : String) (p : ManagedPolicy)
    (d : PolicyDir) : Except PolicyDir (ManagedPolicy × PolicyDir) :=
  if !p.active then .ok (p, d)
  else if governor = p.currentGovernor then .ok (p, d)
  else do
    d.check openCall
    let d := if d.fails writeCall then d else { d with scalingGovernor := governor }
    return ({ p with currentGovernor := governor }, d)

def writeScalingMaxFreq (openCall writeCall : PolicyCall) (freq : Nat) (d : PolicyDir) :
    Except PolicyDir PolicyDir := do
  d.check openCall
  d.check writeCall
  return { d with scalingMaxFreq := freq / 1000 }

/-- The member initializers of `CpufreqPolicy`. -/
def readFiles (debug : Bool) (d : PolicyDir) : Except PolicyDir ManagedPolicy := do
  d.check .readGovernor
  d.check .readMinFreq
  d.check .readMaxFreq
  d.check .readScalingMaxFreq
  let available ← d.readAvailableFrequencies debug
  let affected ← d.readAffectedCpus debug
  return {
    minFrequency := d.cpuinfoMinFreq * 1000
    maxFrequency := d.cpuinfoMaxFreq * 1000
    availableFrequencies := available
    affectedCores := affected
    currentGovernor := d.scalingGovernor
    originalGovernor := d.scalingGovernor
    originalScalingMaxFrequency := d.scalingMaxFreq * 1000 }

def construct (debug : Bool) (d : PolicyDir) : Except PolicyDir (ManagedPolicy × PolicyDir) := do
  let p ← readFiles debug d
  let (p, d) ← p.writeGovernor .openGovernor .writeGovernor "userspace" d
  let d ← if p.originalScalingMaxFrequency ≠ p.maxFrequency then
    writeScalingMaxFreq .openScalingMaxFreq .writeScalingMaxFreq p.maxFrequency d else .ok d
  d.check .openSetspeed
  return (p, d)

/-- The destructor of `CpufreqPolicy`; an exception that leaves it ends the program. -/
def destroy (p : ManagedPolicy) (d : PolicyDir) : Except PolicyDir PolicyDir := do
  let d ← if p.originalScalingMaxFrequency ≠ p.maxFrequency then
    writeScalingMaxFreq .reopenScalingMaxFreq .rewriteScalingMaxFreq
      p.originalScalingMaxFrequency d else .ok d
  let (_, d) ← p.writeGovernor .reopenGovernor .rewriteGovernor p.originalGovernor d
  return d

end ManagedPolicy

inductive SysfsCall
  | openSupport
  | findIntelPstate
  | openStatus
  | readStatus
  | writeStatus
  | openCpufreq
  | readEnd
  | reopenStatus
  | rewriteStatus
  deriving DecidableEq, Repr

/-- The files the manager uses: `intel_pstate/status`, on a system that has it, and the
directories in `cpufreq` in the order in which they are read. -/
@[ext] structure Sysfs where
  status : Option String
  cpufreq : List PolicyDir
  fails : SysfsCall → Bool

namespace PowerManager

def check (call : SysfsCall) (s : Sysfs) : Except Sysfs Unit :=
  if s.fails call then .error s else .ok ()

def checkSupport (s : Sysfs) : Except Sysfs Unit := do
  if s.cpufreq.all (·.name ≠ "policy0") then .error s else .ok ()
  check .openSupport s

/-- Returns the original status. -/
def setupIntelPstateDriver (status : String) (s : Sysfs) : Except Sysfs (String × Sysfs) := do
  check .openStatus s
  check .readStatus s
  if status = "off" then .error s else .ok ()
  if status = "active" then
    return (status, if s.fails .writeStatus then s else { s with status := some "passive" })
  return (status, s)

def resetIntelPstateDriver (original : String) (s : Sysfs) : Except Sysfs Sysfs :=
  if original = "passive" then .ok s
  else do
    check .reopenStatus s
    return if s.fails .rewriteStatus then s else { s with status := some original }

/-- The constructor up to the policies: the original status, empty if there is none. -/
def setupDriver (s : Sysfs) : Except Sysfs (String × Sysfs) := do
  checkSupport s
  check .findIntelPstate s
  match s.status with
  | some status => setupIntelPstateDriver status s
  | none => return ("", s)

/-- The body of the loop over the directories, which skips those of other names. -/
def visit (debug : Bool) (d : PolicyDir) : Except PolicyDir (Option ManagedPolicy × PolicyDir) :=
  if d.fails .readEntry then .error d
  else if d.isPolicy then (ManagedPolicy.construct debug d).map fun (p, d) => (some p, d)
  else .ok (none, d)

/-- The directories with the policies constructed for them, and whether the loop ran to
its end; `readEnd` tells whether it fails there. -/
def setupPolicyObjects (debug readEnd : Bool) :
    List PolicyDir → List (PolicyDir × Option ManagedPolicy) × Bool
  | [] => ([], !readEnd)
  | d :: dirs =>
    match visit debug d with
    | .error d => ((d, none) :: dirs.map (·, none), false)
    | .ok (p, d) =>
      let (rest, finished) := setupPolicyObjects debug readEnd dirs
      ((d, p) :: rest, finished)

def destroyPolicies : List (PolicyDir × Option ManagedPolicy) → List PolicyDir
  | [] => []
  | (d, none) :: rest => d :: destroyPolicies rest
  | (d, some p) :: rest =>
    match p.destroy d with
    | .error d => d :: rest.map Prod.fst
    | .ok d => d :: destroyPolicies rest

/-- `~PowerManager` and the destructors of its members. -/
def destroy (original : String) (dirs : List (PolicyDir × Option ManagedPolicy)) (s : Sysfs) :
    Sysfs :=
  if original = "" then { s with cpufreq := destroyPolicies dirs }
  else match resetIntelPstateDriver original s with
    | .error s => { s with cpufreq := dirs.map Prod.fst }
    | .ok s => { s with cpufreq := destroyPolicies dirs }

/-- The files after the manager has been constructed and destroyed, or after the
constructor has thrown and what it had constructed is destroyed. -/
def lifetime (debug : Bool) (s : Sysfs) : Sysfs :=
  match setupDriver s with
  | .error s => s
  | .ok (original, s) =>
    if s.fails .openCpufreq then s
    else
      let (dirs, finished) := setupPolicyObjects debug (s.fails .readEnd) s.cpufreq
      if finished then destroy original dirs s
      else { s with cpufreq := destroyPolicies dirs }

end PowerManager

namespace PolicyDir

variable (debug : Bool) (d : PolicyDir)

def failsToRead : Bool :=
  d.fails .readGovernor || d.fails .readMinFreq || d.fails .readMaxFreq ||
    d.fails .readScalingMaxFreq ||
    (debug && !d.fails .openAvailableFrequencies && d.fails .readAvailableFrequencies) ||
    d.fails .openAffectedCpus || (debug && d.fails .readAffectedCpus)

def setsGovernor : Bool :=
  decide (0 < d.affectedCpus.card) && !d.fails .readAffectedCpus &&
    decide (d.scalingGovernor ≠ "userspace")

def setsMaxFreq : Bool := decide (d.scalingMaxFreq ≠ d.cpuinfoMaxFreq)

/-- The directory with the new governor, unless its write went wrong. -/
def governed : PolicyDir :=
  if d.setsGovernor && !d.fails .writeGovernor then { d with scalingGovernor := "userspace" } else d

def taken : PolicyDir :=
  if d.setsMaxFreq then { d.governed with scalingMaxFreq := d.cpuinfoMaxFreq } else d.governed

end PolicyDir

namespace ManagedPolicy

open PolicyDir

def ofDir (debug : Bool) (d : PolicyDir) : ManagedPolicy :=
  { minFrequency := d.cpuinfoMinFreq * 1000
    maxFrequency := d.cpuinfoMaxFreq * 1000
    availableFrequencies := (d.readAvailableFrequencies debug).toOption.join
    affectedCores := if d.fails .readAffectedCpus then ∅ else d.affectedCpus
    currentGovernor := d.scalingGovernor
    originalGovernor := d.scalingGovernor
    originalScalingMaxFrequency := d.scalingMaxFreq * 1000 }

def constructed (debug : Bool) (d : PolicyDir) : ManagedPolicy :=
  { ofDir debug d with
    currentGovernor := if d.setsGovernor then "userspace" else d.scalingGovernor }

theorem readFiles_eq (debug : Bool) (d : PolicyDir) : readFiles debug d =
    if d.failsToRead debug then .error d else .ok (ofDir debug d) := by
  unfold readFiles failsToRead ofDir readAvailableFrequencies readAffectedCpus check
  cases d.fails .readGovernor <;> cases d.fails .readMinFreq <;> cases d.fails .readMaxFreq <;>
    cases d.fails .readScalingMaxFreq <;> try rfl
  cases debug <;> cases d.fails .openAvailableFrequencies <;>
    cases d.fails .readAvailableFrequencies <;> cases d.fails .openAffectedCpus <;>
    cases d.fails .readAffectedCpus <;> rfl

theorem ofDir_active (debug : Bool) (d : PolicyDir) :
    ((ofDir debug d).active && decide ("userspace" ≠ (ofDir debug d).currentGovernor)) =
      d.setsGovernor := by
  unfold CpufreqPolicy.active ofDir setsGovernor
  cases d.fails .readAffectedCpus <;> simp [eq_comm]

theorem writeGovernor_eq {p : ManagedPolicy} {d : PolicyDir} (openCall writeCall : PolicyCall)
    (governor : String) : p.writeGovernor openCall writeCall governor d =
      if p.active && decide (governor ≠ p.currentGovernor) then
        if d.fails openCall then .error d
        else .ok ({ p with currentGovernor := governor },
          if d.fails writeCall then d else { d with scalingGovernor := governor })
      else .ok (p, d) := by
  unfold writeGovernor check
  cases p.active
  · rfl
  · by_cases h : governor = p.currentGovernor
    · simp [h]
    · cases d.fails openCall <;> simp [h, bind, Except.bind, pure, Except.pure]

theorem writeScalingMaxFreq_eq {d : PolicyDir} (openCall writeCall : PolicyCall) (freq : Nat) :
    writeScalingMaxFreq openCall writeCall freq d =
      if d.fails openCall || d.fails writeCall then .error d
      else .ok { d with scalingMaxFreq := freq / 1000 } := by
  unfold writeScalingMaxFreq check
  cases hopen : d.fails openCall <;> cases hwrite : d.fails writeCall <;> simp

theorem construct_eq (debug : Bool) (d : PolicyDir) :
    construct debug d =
      if d.failsToRead debug then .error d
      else if d.setsGovernor && d.fails .openGovernor then .error d
      else if d.setsMaxFreq && (d.fails .openScalingMaxFreq || d.fails .writeScalingMaxFreq) then
        .error d.governed
      else if d.fails .openSetspeed then .error d.taken
      else .ok (constructed debug d, d.taken) := by
  rw [construct, readFiles_eq]
  cases d.failsToRead debug
  case true => rfl
  have hmax : ∀ x : Nat, x * 1000 / 1000 = x := fun x => Nat.mul_div_cancel x (by omega)
  have hsets : d.setsMaxFreq = decide (d.scalingMaxFreq * 1000 ≠ d.cpuinfoMaxFreq * 1000) := by
    rw [setsMaxFreq, decide_eq_decide]
    omega
  simp only [Bool.false_eq_true, if_false, bind_def, bind_ok, writeGovernor_eq, ofDir_active,
    writeScalingMaxFreq_eq]
  unfold constructed taken governed check
  rw [hsets]
  simp only [ofDir]
  cases d.setsGovernor <;> cases d.fails .openGovernor <;> cases d.fails .writeGovernor <;>
    by_cases hne : d.scalingMaxFreq * 1000 = d.cpuinfoMaxFreq * 1000 <;>
    cases hopen : d.fails .openScalingMaxFreq <;> cases hwrite : d.fails .writeScalingMaxFreq <;>
    cases hspeed : d.fails .openSetspeed <;> simp [hne, hmax, hopen, hwrite, hspeed]

theorem destroy_eq (debug : Bool) (d : PolicyDir) : (constructed debug d).destroy d.taken =
    if d.setsMaxFreq && (d.fails .reopenScalingMaxFreq || d.fails .rewriteScalingMaxFreq) then
      .error d.taken
    else if d.setsGovernor && d.fails .reopenGovernor then .error d.governed
    else .ok (if d.setsGovernor && d.fails .rewriteGovernor then d.governed else d) := by
  have hmax : ∀ x : Nat, x * 1000 / 1000 = x := fun x => Nat.mul_div_cancel x (by omega)
  have hsets : d.setsMaxFreq = decide (d.scalingMaxFreq * 1000 ≠ d.cpuinfoMaxFreq * 1000) := by
    rw [setsMaxFreq, decide_eq_decide]
    omega
  have hactive : ((constructed debug d).active &&
      decide ((constructed debug d).originalGovernor ≠ (constructed debug d).currentGovernor)) =
      d.setsGovernor := by
    have hown := ofDir_active debug d
    unfold constructed
    cases hset : d.setsGovernor
    · simp [ofDir]
    · rw [hset, Bool.and_eq_true, decide_eq_true_iff] at hown
      rw [if_pos rfl, Bool.and_eq_true, decide_eq_true_iff]
      exact ⟨hown.1, fun heq => hown.2 heq.symm⟩
  have hgovernor : d.setsGovernor = false → d.governed = d := fun h => by simp [governed, h]
  unfold destroy
  simp only [writeScalingMaxFreq_eq, writeGovernor_eq, hactive]
  rw [hsets]
  unfold constructed taken governed
  rw [hsets]
  simp only [ofDir]
  cases d.setsGovernor <;> cases hreopen : d.fails .reopenGovernor <;>
    cases hrewrite : d.fails .rewriteGovernor <;> cases d.fails .writeGovernor <;>
    by_cases hne : d.scalingMaxFreq * 1000 = d.cpuinfoMaxFreq * 1000 <;>
    cases hopen : d.fails .reopenScalingMaxFreq <;>
    cases hwrite : d.fails .rewriteScalingMaxFreq <;>
    simp [hne, hmax, hopen, hwrite, hreopen, hrewrite]

end ManagedPolicy

namespace PolicyDir

variable (debug : Bool) (d : PolicyDir)

def governorSet : Bool := d.setsGovernor && !d.fails .writeGovernor

def throwsEarly : Bool := d.failsToRead debug || (d.setsGovernor && d.fails .openGovernor)

def throwsLate : Bool :=
  (d.setsMaxFreq && (d.fails .openScalingMaxFreq || d.fails .writeScalingMaxFreq)) ||
    d.fails .openSetspeed

def throws : Bool :=
  d.fails .readEntry || (d.isPolicy && (d.throwsEarly debug || d.throwsLate))

/-- What has been written when it throws. -/
def leaves : Bool :=
  !d.fails .readEntry && d.isPolicy && !d.throwsEarly debug &&
    (d.governorSet ||
      (d.setsMaxFreq && !d.fails .openScalingMaxFreq && !d.fails .writeScalingMaxFreq))

def changes : Bool := d.isPolicy && (d.governorSet || d.setsMaxFreq)

/-- Neither of the writes with which the destructor undoes the changes fails. -/
def restores : Bool :=
  !(d.setsMaxFreq && (d.fails .reopenScalingMaxFreq || d.fails .rewriteScalingMaxFreq)) &&
    !(d.governorSet && (d.fails .reopenGovernor || d.fails .rewriteGovernor))

/-- The destructor throws, which ends the program. -/
def aborts : Bool :=
  d.isPolicy &&
    ((d.setsMaxFreq && (d.fails .reopenScalingMaxFreq || d.fails .rewriteScalingMaxFreq)) ||
      (d.setsGovernor && d.fails .reopenGovernor))

theorem governed_eq_self : d.governed = d ↔ d.governorSet = false := by
  unfold governed governorSet
  constructor
  · intro h
    by_contra hset
    rw [Bool.not_eq_false] at hset
    rw [if_pos hset] at h
    have hgovernor := congrArg scalingGovernor h
    simp only [Bool.and_eq_true, setsGovernor, decide_eq_true_eq] at hset
    exact hset.1.2 hgovernor.symm
  · intro h
    rw [h]
    rfl

theorem taken_eq_self : d.taken = d ↔ d.governorSet = false ∧ d.setsMaxFreq = false := by
  unfold taken
  constructor
  · intro h
    have hmax : d.setsMaxFreq = false := by
      by_contra hset
      rw [Bool.not_eq_false] at hset
      rw [if_pos hset] at h
      have hfreq := congrArg scalingMaxFreq h
      simp only [setsMaxFreq, decide_eq_true_eq] at hset
      exact hset hfreq.symm
    rw [hmax] at h
    exact ⟨d.governed_eq_self.mp h, hmax⟩
  · rintro ⟨hgovernor, hmax⟩
    rw [hmax]
    exact d.governed_eq_self.mpr hgovernor

end PolicyDir

namespace PowerManager

variable (debug : Bool)

def Untouched : List PolicyDir → Prop
  | [] => True
  | d :: dirs =>
    if d.throws debug then d.leaves debug = false else d.changes = false ∧ Untouched dirs

/-- Everything that is changed in the directories is undone: what the policy that throws
has written is not, what one that is constructed has written is if its destructor gets
through and none before it has ended the program. -/
def Undone : List PolicyDir → Prop
  | [] => True
  | d :: dirs =>
    if d.throws debug then d.leaves debug = false
    else (d.changes = true → d.restores = true) ∧
      if d.aborts then Untouched debug dirs else Undone dirs

variable {debug} {readEnd : Bool}

theorem visit_cases (debug : Bool) (d : PolicyDir) :
    (d.throws debug = true ∧ ∃ d', visit debug d = .error d' ∧ (d' = d ↔ d.leaves debug = false)) ∨
    (d.throws debug = false ∧ d.isPolicy = false ∧ visit debug d = .ok (none, d)) ∨
    (d.throws debug = false ∧ d.isPolicy = true ∧
      visit debug d = .ok (some (.constructed debug d), d.taken)) := by
  unfold visit PolicyDir.throws PolicyDir.leaves
  cases d.fails .readEntry
  case true => exact .inl ⟨rfl, d, rfl, by simp⟩
  cases d.isPolicy
  case false => exact .inr (.inl ⟨rfl, rfl, rfl⟩)
  rw [if_neg (by simp), if_pos rfl, ManagedPolicy.construct_eq]
  unfold PolicyDir.throwsEarly PolicyDir.throwsLate
  cases d.failsToRead debug
  case true => exact .inl ⟨rfl, d, rfl, by simp⟩
  cases hgovernor : d.setsGovernor && d.fails .openGovernor
  case true => exact .inl ⟨rfl, d, rfl, by simp⟩
  cases hmax : d.setsMaxFreq && (d.fails .openScalingMaxFreq || d.fails .writeScalingMaxFreq)
  case true =>
    refine .inl ⟨rfl, d.governed, rfl, ?_⟩
    simp only [Bool.and_eq_true, Bool.or_eq_true] at hmax
    rw [d.governed_eq_self]
    rcases hmax.2 with hfail | hfail <;> simp [hfail]
  cases hspeed : d.fails .openSetspeed
  case true =>
    refine .inl ⟨rfl, d.taken, rfl, ?_⟩
    rw [d.taken_eq_self]
    cases hset : d.setsMaxFreq
    · simp
    · simp only [hset, Bool.true_and, Bool.or_eq_false_iff] at hmax
      simp [hmax.1, hmax.2]
  exact .inr (.inr ⟨rfl, rfl, rfl⟩)

theorem map_fst_unconstructed (dirs : List PolicyDir) :
    (dirs.map (·, (none : Option ManagedPolicy))).map Prod.fst = dirs := by
  rw [List.map_map]
  exact List.map_id dirs

theorem destroyPolicies_unconstructed (dirs : List PolicyDir) :
    destroyPolicies (dirs.map (·, none)) = dirs := by
  induction dirs with
  | nil => rfl
  | cons d dirs ih => rw [List.map_cons, destroyPolicies, ih]

theorem untouched_iff (dirs : List PolicyDir) :
    (setupPolicyObjects debug readEnd dirs).1.map Prod.fst = dirs ↔ Untouched debug dirs := by
  induction dirs with
  | nil => simp [setupPolicyObjects, Untouched]
  | cons d dirs ih =>
    rw [setupPolicyObjects, Untouched]
    rcases visit_cases debug d with
      ⟨hthrows, d', hvisit, hleft⟩ | ⟨hthrows, hpolicy, hvisit⟩ | ⟨hthrows, hpolicy, hvisit⟩
    · rw [hvisit, if_pos hthrows, ← hleft]
      simp only [List.map_cons, map_fst_unconstructed, List.cons.injEq, and_true]
    · rw [hvisit, hthrows, if_neg (by simp), ← ih]
      simp [PolicyDir.changes, hpolicy]
    · rw [hvisit, hthrows, if_neg (by simp), ← ih]
      simp [PolicyDir.changes, hpolicy, d.taken_eq_self]

theorem undone_iff (dirs : List PolicyDir) :
    destroyPolicies (setupPolicyObjects debug readEnd dirs).1 = dirs ↔ Undone debug dirs := by
  induction dirs with
  | nil => simp [setupPolicyObjects, destroyPolicies, Undone]
  | cons d dirs ih =>
    have huntouched : (setupPolicyObjects debug readEnd dirs).1.map Prod.fst = dirs ↔
        Untouched debug dirs := untouched_iff dirs
    rw [setupPolicyObjects, Undone]
    rcases visit_cases debug d with
      ⟨hthrows, d', hvisit, hleft⟩ | ⟨hthrows, hpolicy, hvisit⟩ | ⟨hthrows, hpolicy, hvisit⟩
    · rw [hvisit, if_pos hthrows, ← hleft]
      simp only [destroyPolicies, destroyPolicies_unconstructed, List.cons.injEq, and_true]
    · rw [hvisit, hthrows, if_neg (by simp)]
      simp [PolicyDir.changes, PolicyDir.aborts, hpolicy, destroyPolicies, ih]
    · rw [hvisit, hthrows, if_neg (by simp)]
      simp only [destroyPolicies, ManagedPolicy.destroy_eq]
      unfold PolicyDir.changes PolicyDir.aborts PolicyDir.restores
      rw [hpolicy]
      cases hmax : d.setsMaxFreq &&
        (d.fails .reopenScalingMaxFreq || d.fails .rewriteScalingMaxFreq)
      case true =>
        have hset : d.setsMaxFreq = true := (Bool.and_eq_true_iff.mp hmax).1
        simp [d.taken_eq_self, hset]
      cases hopen : d.setsGovernor && d.fails .reopenGovernor
      case true =>
        simp only [Bool.and_eq_true] at hopen
        cases hset : d.governorSet <;> simp [d.governed_eq_self, huntouched, hopen.2, hset]
      cases hset : d.governorSet
      · have hsame : d.governed = d := d.governed_eq_self.mpr hset
        simp [hsame, ih]
      · have hown : d.setsGovernor = true := (Bool.and_eq_true_iff.mp hset).1
        simp only [hown, Bool.true_and] at hopen
        cases d.fails .rewriteGovernor <;> simp [hown, hopen, ih, d.governed_eq_self, hset]

end PowerManager

namespace Sysfs

variable (debug : Bool) (s : Sysfs)

def refuses : Bool :=
  s.cpufreq.all (·.name ≠ "policy0") || s.fails .openSupport || s.fails .findIntelPstate ||
    (s.status.isSome &&
      (s.fails .openStatus || s.fails .readStatus || decide (s.status = some "off")))

/-- The driver is switched to passive mode. -/
def switches : Bool := decide (s.status = some "active") && !s.fails .writeStatus

def completes : Bool :=
  !s.fails .openCpufreq && !s.fails .readEnd && s.cpufreq.all (!·.throws debug)

def aborts : Bool :=
  s.fails .reopenStatus && decide (s.status ≠ none ∧ s.status ≠ some "" ∧ s.status ≠ some "passive")

def Restored : Prop :=
  s.refuses = true ∨
  if s.completes debug then
    (s.switches = true → s.fails .reopenStatus = false ∧ s.fails .rewriteStatus = false) ∧
      if s.aborts then PowerManager.Untouched debug s.cpufreq
      else PowerManager.Undone debug s.cpufreq
  else s.switches = false ∧
    (s.fails .openCpufreq = true ∨ PowerManager.Undone debug s.cpufreq)

end Sysfs

namespace PowerManager

def switched (s : Sysfs) : Sysfs := if s.switches then { s with status := some "passive" } else s

theorem setupDriver_eq (s : Sysfs) : setupDriver s =
    if s.refuses then .error s else .ok (s.status.getD "", switched s) := by
  unfold setupDriver checkSupport check Sysfs.refuses
  cases s.cpufreq.all (·.name ≠ "policy0")
  case true => rfl
  cases s.fails .openSupport
  case true => rfl
  cases s.fails .findIntelPstate
  case true => rfl
  cases hstatus : s.status with
  | none => simp [switched, Sysfs.switches, hstatus]
  | some status =>
    unfold setupIntelPstateDriver check switched Sysfs.switches
    cases s.fails .openStatus
    case true => rfl
    cases s.fails .readStatus
    case true => rfl
    by_cases hoff : status = "off"
    · simp [hoff]
    · by_cases hactive : status = "active"
      · cases s.fails .writeStatus <;> simp [hactive, hstatus]
      · simp [hoff, hactive, hstatus]

theorem setupPolicyObjects_finished (dirs : List PolicyDir) :
    (setupPolicyObjects debug readEnd dirs).2 = (!readEnd && dirs.all (!·.throws debug)) := by
  induction dirs with
  | nil => simp [setupPolicyObjects]
  | cons d dirs ih =>
    rw [setupPolicyObjects]
    rcases visit_cases debug d with ⟨hthrows, d', hvisit, -⟩ | ⟨hthrows, -, hvisit⟩ | ⟨hthrows, -, hvisit⟩
    · simp [hvisit, hthrows]
    · simp [hvisit, hthrows, ih]
    · simp [hvisit, hthrows, ih]

theorem switched_fields (s : Sysfs) :
    (switched s).cpufreq = s.cpufreq ∧ (switched s).fails = s.fails ∧
      ((switched s).status = s.status ↔ s.switches = false) := by
  unfold switched
  cases hswitches : s.switches
  · simp
  · simp only [Sysfs.switches, Bool.and_eq_true, decide_eq_true_eq] at hswitches
    simp [hswitches.1]

theorem destroy_eq_iff (s : Sysfs) (dirs : List (PolicyDir × Option ManagedPolicy)) :
    destroy (s.status.getD "") dirs (switched s) = s ↔
      (s.switches = true → s.fails .reopenStatus = false ∧ s.fails .rewriteStatus = false) ∧
        if s.aborts then dirs.map Prod.fst = s.cpufreq else destroyPolicies dirs = s.cpufreq := by
  obtain ⟨hcpufreq, hfails, hstatus⟩ := switched_fields s
  have hplain : s.switches = false → s.aborts = false →
      (⟨(switched s).status, destroyPolicies dirs, s.fails⟩ = s ↔
        (s.switches = true → s.fails .reopenStatus = false ∧ s.fails .rewriteStatus = false) ∧
          if s.aborts then dirs.map Prod.fst = s.cpufreq else destroyPolicies dirs = s.cpufreq) := by
    intro hswitches haborts
    rw [Sysfs.ext_iff]
    simp [hstatus, hswitches, haborts]
  cases hs : s.status with
  | none =>
    rw [Option.getD_none, destroy, if_pos rfl, hfails]
    exact hplain (by simp [Sysfs.switches, hs]) (by simp [Sysfs.aborts, hs])
  | some status =>
    rw [Option.getD_some, destroy, resetIntelPstateDriver, check, hfails]
    by_cases hempty : status = ""
    · rw [if_pos hempty]
      exact hplain (by simp [Sysfs.switches, hs, hempty]) (by simp [Sysfs.aborts, hs, hempty])
    rw [if_neg hempty]
    by_cases hpassive : status = "passive"
    · rw [if_pos hpassive]
      change (⟨(switched s).status, destroyPolicies dirs, (switched s).fails⟩ : Sysfs) = s ↔ _
      rw [hfails]
      exact hplain (by simp [Sysfs.switches, hs, hpassive]) (by simp [Sysfs.aborts, hs, hpassive])
    rw [if_neg hpassive]
    cases hreopen : s.fails .reopenStatus
    case true =>
      have haborts : s.aborts = true := by simp [Sysfs.aborts, hreopen, hs, hempty, hpassive]
      change (⟨(switched s).status, dirs.map Prod.fst, (switched s).fails⟩ : Sysfs) = s ↔ _
      rw [hfails, Sysfs.ext_iff]
      simp [hstatus, haborts]
    have haborts : s.aborts = false := by simp [Sysfs.aborts, hreopen]
    cases hrewrite : s.fails .rewriteStatus
    · change (⟨some status, destroyPolicies dirs, s.fails⟩ : Sysfs) = s ↔ _
      rw [Sysfs.ext_iff]
      simp [hs, haborts]
    · change (⟨(switched s).status, destroyPolicies dirs, (switched s).fails⟩ : Sysfs) = s ↔ _
      rw [hfails, Sysfs.ext_iff]
      simp [hstatus, haborts]

/-- The manager leaves the files as it found them. -/
theorem lifetime_restores_iff (debug : Bool) (s : Sysfs) :
    lifetime debug s = s ↔ s.Restored debug := by
  obtain ⟨hcpufreq, hfails, hstatus⟩ := switched_fields s
  unfold lifetime Sysfs.Restored
  rw [setupDriver_eq]
  cases s.refuses
  case true => simp
  simp only [Bool.false_eq_true, if_false, false_or, hfails, hcpufreq]
  cases hopen : s.fails .openCpufreq
  case true =>
    rw [if_pos rfl, if_neg (by simp [Sysfs.completes, hopen]), Sysfs.ext_iff]
    simp [hstatus, hcpufreq, hfails]
  have hfinished : (setupPolicyObjects debug (s.fails .readEnd) s.cpufreq).2 =
      (!s.fails .readEnd && s.cpufreq.all (!·.throws debug)) := setupPolicyObjects_finished s.cpufreq
  have hcompletes : s.completes debug =
      (setupPolicyObjects debug (s.fails .readEnd) s.cpufreq).2 := by
    rw [hfinished]
    simp [Sysfs.completes, hopen]
  rw [hcompletes, if_neg (by simp)]
  cases (setupPolicyObjects debug (s.fails .readEnd) s.cpufreq).2
  · rw [if_neg (by simp), if_neg (by simp), Sysfs.ext_iff]
    simp [hstatus, undone_iff]
  · rw [if_pos rfl, if_pos rfl, destroy_eq_iff, undone_iff, untouched_iff]

/-- One failed call is enough: the file for the frequency of the only policy cannot be
opened, and neither its governor nor the driver's mode is restored. -/
theorem lifetime_setspeed_unavailable :
    (lifetime false ⟨some "active", [⟨"policy0", "performance", 600000, 1200000, 1200000, [], {0},
      fun call => decide (call = .openSetspeed)⟩], fun _ => false⟩).status = some "passive" ∧
    (lifetime false ⟨some "active", [⟨"policy0", "performance", 600000, 1200000, 1200000, [], {0},
      fun call => decide (call = .openSetspeed)⟩], fun _ => false⟩).cpufreq.map
        PolicyDir.scalingGovernor = ["userspace"] := by
  constructor <;> decide

end PowerManager

end DemosSched
