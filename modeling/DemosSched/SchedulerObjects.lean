import DemosSched.Normalization

/-! `Config::create_scheduler_objects`: the objects that are built from a normal
form. Control groups, event loop and working directory are left out; creating a
group is taken to succeed. -/

namespace DemosSched

open Yaml

structure ProcessObject where
  argv : String
  budget : Int
  budgetJitter : Int
  requestedFrequency : Option Nat
  hasInitialization : Bool

structure PartitionObject where
  name : String
  processes : List ProcessObject

/-- Partitions are referred to by position. -/
structure SliceObject where
  sc : Option Nat
  be : Option Nat
  cpus : CpuSet
  requestedFrequency : Option Nat

structure WindowObject where
  length : Int
  slices : List SliceObject

structure SchedulerObjects where
  demosCpuset : CpuSet
  partitions : List PartitionObject
  windows : List WindowObject

variable {δ : Type} (y : Conversions δ) (maxCpus : Nat)
-- `static_cast<uint64_t>(1000 * 1000 * x)` for a `double` x
variable (toHz : δ → Nat)

def readFrequency (n : Node) : Except Failure (Option Nat) := do
  match ← n.get "frequency" with
  | some v => return some (toHz (← y.asDouble (some v)))
  | none => return none

def createProcess (yprocess : Node) : Except Failure ProcessObject := do
  let budget ← y.asInt (← yprocess.get "budget")
  let budgetJitter ← y.asInt (← yprocess.get "jitter")
  let requestedFrequency ← readFrequency y toHz yprocess
  let argv ← y.asString (← yprocess.get "cmd")
  let hasInitialization ← y.asBool (← yprocess.get "init")
  return { argv, budget, budgetJitter, requestedFrequency, hasInitialization }

def createPartition (ypart : Node) : Except Failure PartitionObject := do
  let name ← y.asString (← ypart.get "name")
  let processes ← (itemsAt ypart "processes").mapM (createProcess y toHz)
  return { name, processes }

def findPartition (name : String) (partitions : List PartitionObject) : Except Failure Nat :=
  match partitions.findIdx? (·.name = name) with
  | some k => return k
  | none => throw (.runtimeError "not reachable")

def readPartition? (partitions : List PartitionObject) (yslice : Node) (key : String) :
    Except Failure (Option Nat) := do
  match ← yslice.get key with
  | some v => return some (← findPartition (← y.asString (some v)) partitions)
  | none => return none

/-- The CPUs of a slice, of those the program may run on. -/
def sliceCpus (allowedCpus : CpuSet) (cpulist : String) : Except Failure CpuSet := do
  let cpus ← parseCpuSet maxCpus cpulist allowedCpus
  if cpus ∩ allowedCpus = ∅ then return {← CpuSet.lowest maxCpus allowedCpus}
  else if cpus ∩ allowedCpus ≠ cpus then return cpus ∩ allowedCpus
  else return cpus

def createSlice (allowedCpus : CpuSet) (partitions : List PartitionObject) (yslice : Node) :
    Except Failure SliceObject := do
  let sc ← readPartition? y partitions yslice "sc_partition"
  let be ← readPartition? y partitions yslice "be_partition"
  let cpus ← sliceCpus maxCpus allowedCpus (← y.asString (← yslice.get "cpu"))
  let requestedFrequency ← readFrequency y toHz yslice
  return { sc, be, cpus, requestedFrequency }

def createWindow (allowedCpus : CpuSet) (partitions : List PartitionObject) (ywindow : Node) :
    Except Failure WindowObject := do
  let length ← y.asInt (← ywindow.get "length")
  let slices ← (itemsAt ywindow "slices").mapM (createSlice y maxCpus toHz allowedCpus partitions)
  return { length, slices }

def createPartitions (config : Node) : Except Failure (List PartitionObject) :=
  (itemsAt config "partitions").mapM (createPartition y toHz)

def createWindows (allowedCpus : CpuSet) (partitions : List PartitionObject) (config : Node) :
    Except Failure (List WindowObject) :=
  (itemsAt config "windows").mapM (createWindow y maxCpus toHz allowedCpus partitions)

/-- A working directory is only set for a configuration that has a path. -/
def checkCwd (c : YamlConfig) : Except Failure Unit := do
  if (← y.asBool (c.config.find "set_cwd")) && c.configFilePath.isNone then
    throw (.runtimeError "Assertion failed (see above)")
  else return ()

def createSchedulerObjects (validate : List WindowObject → Except Failure Unit)
    (allowedCpus : CpuSet) (c : YamlConfig) : Except Failure SchedulerObjects := do
  checkCwd y c
  let partitions ← createPartitions y toHz c.config
  let demosCpuset ← parseCpuSet maxCpus (← y.asString (c.config.find "demos_cpu")) allowedCpus
  let windows ← createWindows y maxCpus toHz allowedCpus partitions c.config
  validate windows
  return { demosCpuset, partitions, windows }

end DemosSched
