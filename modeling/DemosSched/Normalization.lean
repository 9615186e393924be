import DemosSched.CpuList
import DemosSched.General.Single

/-! `config.cpp`: the conversion of a loaded document to the normal form. The
sequence `partitions`, which the functions of the source share as an output, and
the counter of anonymous partitions are passed along. -/

namespace DemosSched

open Yaml

/-- The members of the class `Config`; `Config` itself is the name of the
objects that are created from them. -/
@[ext] structure YamlConfig where
  config : Node
  configIsRegularFile : Bool
  configFilePath : Option String
  anonymousPartitionCounter : Nat

structure Defined where
  partitions : List Node
  counter : Nat

/-- The product of two `int`s, of which only the low 32 bits are kept. -/
def intMul (m n : Int) : Int := (m * n).bmod (2 ^ 32)

/-- `0.6f`. -/
def scShare : Single := ⟨some (10066330 / 2 ^ 24)⟩

/-- `1.0f`. -/
def beShare : Single := ⟨some 1⟩

variable {δ : Type} (y : Conversions δ) (maxCpus : Nat)

def normalizeProcessKey (proc : Node) (normProc : Fields) (key : Option Node) :
    Except Failure Fields := do
  let k ← y.asString key
  if k = "cmd" then
    return normProc.set k (.scalar (← y.asString (proc.find k)))
  else if k = "budget" ∨ k = "jitter" then
    return normProc.set k (y.int (← y.asInt (proc.find k)))
  else if k = "init" then
    return normProc.set k (y.bool (← y.asBool (proc.find k)))
  else if k = "frequency" then
    return normProc.set k (y.double (← y.asDouble (proc.find k)))
  else
    throw (.runtimeError ("Unexpected config key: " ++ k))

def setDefaultBudget (defaultBudget : Single) (normProc : Fields) : Except Failure Fields :=
  if normProc.has "budget" then return normProc
  else if defaultBudget.isNan then
    throw (.runtimeError "Missing budget in process definition")
  else return normProc.set "budget" (y.int defaultBudget.toInt)

def checkBudget (normProc : Fields) : Except Failure Int := do
  let budget ← y.asInt (normProc.find "budget")
  if budget ≤ 0 then
    throw (.runtimeError ("Process budget must be a positive time duration in milliseconds, got '" ++
      toString budget ++ "'"))
  else return budget

/-- The check `jitter > 2 * budget` is made in the arithmetic of `int`. -/
def checkJitter (budget : Int) (normProc : Fields) : Except Failure Fields :=
  if normProc.has "jitter" then do
    let jitter ← y.asInt (normProc.find "jitter")
    if jitter < 0 then
      throw (.runtimeError ("Jitter must be a non-negative time duration in milliseconds, got '" ++
        toString jitter ++ "'"))
    else if intMul 2 budget < jitter then
      throw (.runtimeError ("`budget - jitter / 2` must be >= 0, otherwise jitter " ++
        "could result in a negative budget, got budget: '" ++ toString budget ++
        " ms', jitter: '" ++ toString jitter ++ " ms'"))
    else return normProc
  else return normProc.set "jitter" (y.int 0)

def setDefaultInit (normProc : Fields) : Fields :=
  if normProc.has "init" then normProc else normProc.set "init" (y.bool false)

def readProcess (proc : Node) : Except Failure Fields := do
  if proc.isScalar then return [("cmd", .scalar (← y.asString (some proc)))]
  else proc.keys.foldlM (normalizeProcessKey y proc) []

def normalizeProcess (proc : Node) (defaultBudget : Single) : Except Failure Node := do
  let normProc ← readProcess y proc
  let normProc ← setDefaultBudget y defaultBudget normProc
  let budget ← checkBudget y normProc
  let normProc ← checkJitter y budget normProc
  return (setDefaultInit y normProc).toNode

def normalizeProcesses (processes : Node) (totalBudget : Single) : Except Failure Node :=
  match processes with
  | .seq procs => do
    let normProcesses ← procs.mapM fun proc =>
      normalizeProcess y proc (totalBudget.div (.ofInt processes.size))
    return Node.sequence normProcesses
  | _ => do return Node.sequence [← normalizeProcess y processes totalBudget]

def normalizePartitionKey (part : Node) (totalBudget : Single) (st : Fields × Node)
    (key : Option Node) : Except Failure (Fields × Node) := do
  let k ← y.asString key
  if k = "name" then
    return (st.1.set k (.scalar (← y.asString (part.find k))), st.2)
  else if k = "processes" then
    return (st.1, ← normalizeProcesses y (← Node.valid (part.find k)) totalBudget)
  else if k ∈ ["cmd", "budget", "jitter", "init", "_a53_freq", "_a72_freq"] then
    return st
  else
    throw (.runtimeError ("Unexpected config key: " ++ k))

def copyKeys (n : Node) (keys : List String) (f : Fields) : Except Failure Fields :=
  keys.foldlM (fun f key => do
    match ← n.get key with
    | some v => return f.set key v
    | none => return f) f

def readPartition (part : Node) (totalBudget : Single) : Except Failure (Fields × Node) :=
  match part with
  | .seq _ => do return ([], ← normalizeProcesses y part totalBudget)
  | .map _ => part.keys.foldlM (normalizePartitionKey y part totalBudget) ([], .null)
  | _ => return ([], .null)

def setDefaultName (counter : Nat) (normPart : Fields) : Fields × Nat :=
  if normPart.has "name" then (normPart, counter)
  else (normPart.set "name" (.scalar ("anonymous_" ++ toString counter)), counter + 1)

/-- A single process in place of a partition definition. -/
def inlineProcess (part : Node) (totalBudget : Single) (processes : Node) : Except Failure Node := do
  if processes.isNull then
    let process ← copyKeys part ["cmd", "budget", "jitter", "init", "_a53_freq", "_a72_freq"] []
    return Node.sequence [← normalizeProcess y process.toNode totalBudget]
  else return processes

def normalizePartition (part : Node) (totalBudget : Single) (counter : Nat) :
    Except Failure (Node × Nat) := do
  let (normPart, processes) ← readPartition y part totalBudget
  let (normPart, counter) := setDefaultName counter normPart
  if normPart.has "processes" then return (normPart.toNode, counter)
  else
    let processes ← inlineProcess y part totalBudget processes
    return ((normPart.set "processes" processes).toNode, counter)

/-- Appends the normal form of the partition defined here and gives its name. -/
def definePartition (part : Node) (totalBudget : Single) (st : Defined) :
    Except Failure (String × Defined) := do
  let (normPart, counter) ← normalizePartition y part totalBudget st.counter
  let name ← y.asString (normPart.find "name")
  return (name, ⟨st.partitions ++ [normPart], counter⟩)

def processXxPartitionAndGetName (part : Node) (totalBudget : Single) (st : Defined) :
    Except Failure (String × Defined) :=
  if part.isScalar then return (← y.asString (some part), st)
  else definePartition y part totalBudget st

def processXxProcessesAndGetName (processes : Node) (totalBudget : Single) (st : Defined) :
    Except Failure (String × Defined) :=
  definePartition y (Fields.toNode [("processes", processes)]) totalBudget st

def normalizeSliceKey (slice : Node) (winLength : Single) (st : Fields × Defined)
    (key : Option Node) : Except Failure (Fields × Defined) := do
  let k ← y.asString key
  if k = "cpu" then
    return (st.1.set k (.scalar (← y.asString (slice.find k))), st.2)
  else if k = "frequency" then
    return (st.1.set k (y.double (← y.asDouble (slice.find k))), st.2)
  else if k = "sc_partition" then
    let (name, defined) ←
      processXxPartitionAndGetName y (← Node.valid (slice.find k)) (winLength.mul scShare) st.2
    return (st.1.set k (.scalar name), defined)
  else if k = "be_partition" then
    let (name, defined) ←
      processXxPartitionAndGetName y (← Node.valid (slice.find k)) (winLength.mul beShare) st.2
    return (st.1.set k (.scalar name), defined)
  else if k = "sc_processes" then
    let (name, defined) ←
      processXxProcessesAndGetName y (← Node.valid (slice.find k)) (winLength.mul scShare) st.2
    return (st.1.set "sc_partition" (.scalar name), defined)
  else if k = "be_processes" then
    let (name, defined) ←
      processXxProcessesAndGetName y (← Node.valid (slice.find k)) (winLength.mul beShare) st.2
    return (st.1.set "be_partition" (.scalar name), defined)
  else
    throw (.runtimeError ("Unexpected config key in slice definition: " ++ k))

def normalizeSlice (slice : Node) (winLength : Single) (st : Defined) :
    Except Failure (Node × Defined) := do
  let (normSlice, defined) ← slice.keys.foldlM (normalizeSliceKey y slice winLength) ([], st)
  if normSlice.has "cpu" then
    -- validate that the cpulist is in correct format
    let _ ← parseCpuSet maxCpus (← y.asString (normSlice.find "cpu")) ∅
    return (normSlice.toNode, defined)
  else throw (.runtimeError "Missing cpu set in slice definition (`cpu` property)")

/-- A pair of a mapping has no keys of its own. -/
def normalizeSlices (slices : List (Option Node)) (winLength : Single) (st : Defined) :
    Except Failure (List Node × Defined) :=
  slices.foldlM (fun st slice => do
    let (normSlice, defined) ← normalizeSlice y maxCpus (slice.getD .null) winLength st.2
    return (st.1 ++ [normSlice], defined)) ([], st)

def normalizeWindowKey (win : Node) (winLength : Int) (st : Fields × Defined)
    (key : Option Node) : Except Failure (Fields × Defined) := do
  let k ← y.asString key
  if k = "length" then
    return (st.1.set k (y.int winLength), st.2)
  else if k = "slices" then
    let (slices, defined) ←
      normalizeSlices y maxCpus ((win.find k).getD .null).elements (.ofInt winLength) st.2
    return (st.1.set k (.sequence slices), defined)
  else if k ∈ ["cpu", "sc_partition", "be_partition", "sc_processes", "be_processes"] then
    return st
  else
    throw (.runtimeError ("Unexpected config key in window definition: " ++ k))

def checkWindow (win : Node) : Except Failure Unit :=
  if win.has "slices" && (win.has "sc_partition" || win.has "be_partition") then
    throw (.runtimeError "Cannot have both 'slices' and '*_partition' in window definition")
  else if win.has "slices" && win.has "cpu" then
    throw (.runtimeError "Cannot have both 'slices' and 'cpu' in window definition")
  else if win.has "slices" && (win.has "sc_processes" || win.has "be_processes") then
    throw (.runtimeError "Cannot have both 'slices' and '*_processes' in window definition")
  else if win.has "sc_partition" && win.has "sc_processes" ||
      win.has "be_partition" && win.has "be_processes" then
    throw (.runtimeError "Cannot have both '*_partition' and '*_processes' in the same window")
  else return ()

def normalizeWindow (win : Node) (st : Defined) : Except Failure (Node × Defined) := do
  let winLength ← y.asInt (← win.get "length")
  checkWindow win
  let (normWin, defined) ← win.keys.foldlM (normalizeWindowKey y maxCpus win winLength) ([], st)
  -- a window with only `length` is kept empty
  if win.size = 1 ∧ win.has "length" then return (normWin.toNode, defined)
  else if normWin.has "slices" then return (normWin.toNode, defined)
  else
    -- inline slice definition
    let slice ← copyKeys win ["cpu", "sc_partition", "be_partition", "sc_processes", "be_processes"]
      (if win.has "cpu" then [] else [("cpu", .scalar "all")])
    let (normSlice, defined) ← normalizeSlice y maxCpus slice.toNode (.ofInt winLength) defined
    return ((normWin.set "slices" (.sequence [normSlice])).toNode, defined)

def itemsAt (n : Node) (k : String) : List Node :=
  ((n.find k).getD .null).elements.map (·.getD .null)

def checkReference (partitions : List Node) (windowI sliceI : Nat) (slice : Node) (partKey : String) :
    Except Failure Unit :=
  match slice.find partKey with
  | none => return ()
  | some reference => do
    let searchedName ← y.asString (some reference)
    let found ← partitions.foldlM (fun found part =>
      if found then return true
      else return decide (searchedName = (← y.asString (part.find "name")))) false
    if found then return ()
    else throw (.runtimeError ("Reference to unknown partition '" ++ searchedName ++
      "' in window #" ++ toString windowI ++ ", slice #" ++ toString sliceI))

def checkOverlap (windowI sliceCount : Nat) (acc : CpuSet) (slice : Node) :
    Except Failure CpuSet := do
  let cpuStr ← y.asString (slice.find "cpu")
  let sliceCpu ← parseCpuSet maxCpus cpuStr ∅
  if cpuStr = "all" ∧ 1 < sliceCount ∨ acc ∩ sliceCpu ≠ ∅ then
    throw (.runtimeError ("Slices in window #" ++ toString windowI ++ " have overlapping CPU sets"))
  else return acc ∪ sliceCpu

def validateConfig (config : Node) : Except Failure Unit := do
  (itemsAt config "windows").zipIdx.forM fun (win, windowI) =>
    (itemsAt win "slices").zipIdx.forM fun (slice, sliceI) =>
      ["sc_partition", "be_partition"].forM
        (checkReference y (itemsAt config "partitions") windowI sliceI slice)
  (itemsAt config "windows").zipIdx.forM fun (win, windowI) => do
    let _ ← (itemsAt win "slices").foldlM
      (checkOverlap y maxCpus windowI (itemsAt win "slices").length) ∅

namespace YamlConfig

def readSetCwd (c : YamlConfig) : Except Failure Bool :=
  match c.config.find "set_cwd" with
  | some v =>
    if c.configFilePath.isSome then y.asBool (some v)
    else throw (.runtimeError "'set_cwd' cannot be used in inline config string")
  | none => return c.configFilePath.isSome

def normalizePartitions (parts : List (Option Node)) (counter : Nat) : Except Failure Defined :=
  parts.foldlM (fun st part => do
    let (normPart, counter) ← normalizePartition y (← Node.valid part) .nan st.counter
    return ⟨st.partitions ++ [normPart], counter⟩) ⟨[], counter⟩

def normalizeWindows (wins : List (Option Node)) (st : Defined) :
    Except Failure (List Node × Defined) :=
  wins.foldlM (fun st win => do
    let (normWin, defined) ← normalizeWindow y maxCpus (← Node.valid win) st.2
    return (st.1 ++ [normWin], defined)) ([], st)

def checkMap (c : YamlConfig) : Except Failure Unit :=
  if c.config.isMap then return ()
  else throw (.runtimeError "Config must be YAML mapping node")

def checkRegularFile (c : YamlConfig) (setCwd : Bool) : Except Failure Unit :=
  if setCwd && c.configFilePath.isSome && !c.configIsRegularFile then
    throw (.runtimeError ("When config is passed through a FIFO or other special file type, " ++
      "'set_cwd' must be set to 'false'"))
  else return ()

def readDemosCpu (config : Node) : Except Failure String :=
  match config.find "demos_cpu" with
  | some v => y.asString (some v)
  | none => return "all"

def checkNoKeys (config : Node) : Except Failure Unit :=
  match config.keys with
  | key :: _ => do throw (.runtimeError ("Unexpected config key: " ++ (← y.asString key)))
  | [] => return ()

def normalize (c : YamlConfig) : Except Failure YamlConfig := do
  c.checkMap
  let setCwd ← c.readSetCwd y
  let config := c.config.remove "set_cwd"
  c.checkRegularFile setCwd
  let demosCpu ← readDemosCpu y config
  -- validate that the cpulist is in correct format
  let _ ← parseCpuSet maxCpus demosCpu ∅
  let config := config.remove "demos_cpu"
  let partitions := ((config.find "partitions").getD .null).elements
  let defined ← normalizePartitions y partitions c.anonymousPartitionCounter
  let config := config.remove "partitions"
  let (normWindows, defined) ←
    normalizeWindows y maxCpus ((config.find "windows").getD .null).elements defined
  let config := config.remove "windows"
  checkNoKeys y config
  let normConfig := Fields.toNode [("set_cwd", y.bool setCwd), ("demos_cpu", .scalar demosCpu),
    ("partitions", .sequence defined.partitions), ("windows", .sequence normWindows)]
  validateConfig y maxCpus normConfig
  return { c with config := normConfig, anonymousPartitionCounter := defined.counter }

end YamlConfig

end DemosSched
