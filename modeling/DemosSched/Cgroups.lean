import DemosSched.General.Directories
import DemosSched.General.Raising

/-! Control groups: the directories the objects of `cgroup.cpp` make and remove, from the
top-level groups to the end of `main`. The directories and the tasks in them are the state;
which calls fail is part of the input. An exception carries the groups that are destroyed
while the stack is unwound, in this order. -/

namespace DemosSched

open Directories

/-- The directories on the way that a path names. -/
def components (path : String) : List (List Char) :=
  (path.toList.splitOn '/').filter (!·.isEmpty)

inductive Errno
  | eacces
  | eperm
  | erofs
  | enoent
  | eexist
  | other (code : Nat)
  deriving DecidableEq, Repr

inductive SetupError
  | ioError (e : Errno)
  | runtimeError (message : String)
  | outOfRange
  | other
  deriving DecidableEq, Repr

inductive GroupCall
  | openFreezerState
  | writeFreezerState
  | openCpus
  | openEvents
  | openProcs
  | writeProcs
  deriving DecidableEq, Repr

structure Kernel where
  tree : DirTree (List Char)
  tasks : Finset (Nat × List (List Char))

namespace Kernel

/-- A task is in one group of each hierarchy. -/
def attach (pid : Nat) (group : List (List Char)) (k : Kernel) : Kernel :=
  let others := k.tasks.filter fun x => x.1 ≠ pid ∨ x.2.take 4 ≠ group.take 4
  { k with tasks := insert (pid, group) others }

def exited (pid : Nat) (k : Kernel) : Kernel := { k with tasks := k.tasks.filter (·.1 ≠ pid) }

def occupied (k : Kernel) (group : List (List Char)) : Bool := decide (∃ x ∈ k.tasks, x.2 = group)

end Kernel

structure Host where
  /-- The lines of `/proc/self/cgroup`: the number and what follows it. -/
  selfCgroup : List (Int × String)
  uid : Nat
  ppid : Nat
  /-- Why nothing is made or removed in a directory. -/
  refuses : List (List Char) → Option Errno
  /-- Why a group is not made although it could be. -/
  mkdirFails : String → Option Errno
  fails : GroupCall → String → Option Errno
  eventfd : String → Option Errno
  /-- The process identifiers `fork` returns, by the path of the group they are for. -/
  fork : String → Except Errno Nat
  /-- The dummy child is still there when the top-level groups are removed. -/
  lingers : Bool
  beforePartitions : Option SetupError
  afterPartitions : Option SetupError
  /-- What becomes of the groups and the tasks in them while the event loop runs. -/
  loop : Kernel → Option SetupError × Kernel

structure Cgroup where
  path : String := ""
  remove : Bool := true
  deriving DecidableEq, Repr

/-- What its destructor removes. -/
def Cgroup.removed (g : Cgroup) : List (List (List Char)) :=
  if g.path = "" ∨ !g.remove then [] else [components g.path]

/-- An exception on its way, with the groups whose destructors are to run. -/
structure Thrown where
  error : SetupError
  pending : List Cgroup

abbrev Setup := Raising Thrown Kernel

namespace Setup

variable {α : Type}

def check (e : Option Errno) : Setup Unit :=
  match e with
  | none => return
  | some e => throw ⟨.ioError e, []⟩

def require (e : Option SetupError) : Setup Unit :=
  match e with
  | none => return
  | some e => throw ⟨e, []⟩

/-- `gs` are alive while `body` runs, and destroyed when it throws. -/
def owning (gs : List Cgroup) (body : Setup α) : Setup α :=
  tryCatch body fun x => throw { x with pending := x.pending ++ gs }

end Setup

open Setup

variable (m : Host)

namespace Host

def mkdir (path : String) (k : Kernel) : Except Errno Kernel :=
  match m.mkdirFails path with
  | some e => .error e
  | none =>
    match k.tree.mkdir (components path) with
    | .error .present => .error .eexist
    | .error _ => .error .enoent
    | .ok tree =>
      match m.refuses (components path).dropLast with
      | some e => .error e
      | none => .ok { k with tree }

/-- A group that cannot be removed although it is empty. -/
def held (k : Kernel) (group : List (List Char)) : Bool :=
  k.occupied group || (m.refuses group.dropLast).isSome

def call (f : GroupCall) (path : String) : Setup Unit := do
  let k ← get
  if components path ∈ k.tree.dirs then check (m.fails f path) else check (some .enoent)

def destroy (gs : List Cgroup) (k : Kernel) : Kernel :=
  { k with tree := k.tree.clear (m.held k) (gs.flatMap Cgroup.removed) }

end Host

namespace Cgroup

def create (path : String) (mayExist : Bool) : Setup Cgroup := do
  match m.mkdir path (← get) with
  | .ok k =>
    set k
    return { path }
  | .error .eexist => return { path, remove := !mayExist }
  | .error e => throw ⟨.ioError e, []⟩

def createIn (parent : Cgroup) (name : String) : Setup Cgroup :=
  create m (parent.path ++ "/" ++ name) false

def addProcess (pid : Nat) (g : Cgroup) : Setup Unit := do
  m.call .openProcs g.path
  m.call .writeProcs g.path
  set ((← get).attach pid (components g.path))

/-- A group with a file that is kept open. -/
def createWith (f : GroupCall) (parent : Cgroup) (name : String) : Setup Cgroup := do
  let g ← createIn m parent name
  owning [g] (m.call f g.path)
  return g

end Cgroup

def CgroupFreezer.create : Cgroup → String → Setup Cgroup := Cgroup.createWith m .openFreezerState

def CgroupCpuset.create : Cgroup → String → Setup Cgroup := Cgroup.createWith m .openCpus

def CgroupUnified.create : Cgroup → String → Setup Cgroup := Cgroup.createWith m .openEvents

def CgroupEvents.create : Cgroup → String → Setup Cgroup := CgroupUnified.create m

structure ProcessGroups where
  cge : Cgroup
  cgf : Cgroup

structure PartitionGroups where
  cgc : Cgroup
  cgf : Cgroup
  cge : Cgroup
  processes : List ProcessGroups := []

structure RootGroups where
  unified : Cgroup := {}
  freezer : Cgroup := {}
  cpuset : Cgroup := {}

-- members are destroyed in the reverse order of their declaration, the elements of a list
-- from the first one on
def ProcessGroups.teardown (x : ProcessGroups) : List Cgroup := [x.cgf, x.cge]

def PartitionGroups.teardown (x : PartitionGroups) : List Cgroup :=
  x.processes.flatMap ProcessGroups.teardown ++ [x.cge, x.cgf, x.cgc]

def RootGroups.teardown (x : RootGroups) : List Cgroup := [x.cpuset, x.freezer, x.unified]

namespace ProcessGroups

def create (partition : PartitionGroups) (name : String) : Setup ProcessGroups := do
  check (m.eventfd (partition.cge.path ++ "/" ++ name))
  let cge ← CgroupEvents.create m partition.cge name
  owning [cge] do
    let cgf ← CgroupFreezer.create m partition.cgf name
    owning [cgf] (m.call .writeFreezerState cgf.path)
    return { cge, cgf }

def exec (x : ProcessGroups) : Setup Nat := do
  match m.fork x.cge.path with
  | .error e => throw ⟨.ioError e, []⟩
  | .ok pid =>
    x.cge.addProcess m pid
    x.cgf.addProcess m pid
    return pid

end ProcessGroups

namespace PartitionGroups

def create (roots : RootGroups) (name : String) : Setup PartitionGroups := do
  let cgc ← CgroupCpuset.create m roots.cpuset name
  owning [cgc] do
    let cgf ← Cgroup.createIn m roots.freezer name
    owning [cgf] do
      let cge ← Cgroup.createIn m roots.unified name
      return { cgc, cgf, cge }

def addProcess (x : PartitionGroups) : Setup PartitionGroups := do
  let p ← ProcessGroups.create m x ("proc" ++ toString x.processes.length)
  return { x with processes := x.processes ++ [p] }

def createProcesses (x : PartitionGroups) : Setup Unit :=
  x.processes.forM fun p => do
    let pid ← p.exec m
    x.cgc.addProcess m pid

end PartitionGroups

namespace SchedulerGroups

def teardown (partitions : List PartitionGroups) : List Cgroup :=
  partitions.flatMap PartitionGroups.teardown

def addProcesses (done : List PartitionGroups) : Nat → PartitionGroups → Setup PartitionGroups
  | 0, x => return x
  | n + 1, x => do
    let x ← owning (teardown (done ++ [x])) (x.addProcess m)
    addProcesses done n x

/-- The partitions of `create_scheduler_objects`, of which the names and the numbers of
processes are given. -/
def createPartitions (roots : RootGroups) :
    List (String × Nat) → List PartitionGroups → Setup (List PartitionGroups)
  | [], done => return done
  | (name, n) :: rest, done => do
    let x ← owning (teardown done) (PartitionGroups.create m roots name)
    let x ← addProcesses m done n x
    createPartitions roots rest (done ++ [x])

end SchedulerGroups

namespace CgroupSetup

/-- The paths of the top-level groups; empty while they are not known. -/
structure RootPaths where
  unified : String := ""
  freezer : String := ""
  cpuset : String := ""

structure Advice where
  commands : List String := []
  mountCmds : List String := []

def startsWith (beginning text : String) : Bool := beginning.toList.isPrefixOf text.toList

/-- A line of `/proc/self/cgroup`. -/
def readLine (name : String) (x : RootPaths) (line : Int × String) : Except SetupError RootPaths :=
  let rest := fun n => String.ofList (line.2.toList.drop n) ++ "/" ++ name
  if line.1 = 0 ∧ line.2.length < 2 then .error .outOfRange
  else .ok {
    unified := if line.1 = 0 then "/sys/fs/cgroup/unified" ++ rest 2 else x.unified
    freezer := if startsWith ":freezer:" line.2 then "/sys/fs/cgroup/freezer" ++ rest 9
      else x.freezer
    cpuset := if startsWith ":cpuset:" line.2 then "/sys/fs/cgroup/cpuset" ++ rest 8 else x.cpuset }

def readRootPaths (name : String) : Except SetupError RootPaths := do
  let x ← m.selfCgroup.foldlM (readLine name) {}
  if x.unified = "" then throw (.runtimeError "unified cgroup not found")
  if x.freezer = "" then throw (.runtimeError "freezer cgroup not found")
  if x.cpuset = "" then throw (.runtimeError "cpuset cgroup not found")
  return x

def handleCgroupExc (e : Errno) (sysFsCgPath : String) (a : Advice) : Except SetupError Advice :=
  let mentions := fun controller : String =>
    (sysFsCgPath.toList.drop 15).tails.any (controller.toList.isPrefixOf ·)
  let mount := fun cmd => { a with mountCmds := a.mountCmds ++ [cmd] }
  match e with
  | .eacces | .eperm => .ok { a with commands := a.commands ++ ["sudo mkdir " ++ sysFsCgPath] }
  | .erofs | .enoent =>
    if !startsWith "/sys/fs/cgroup/" sysFsCgPath then
      .error (.runtimeError ("Unexpected cgroup path " ++ sysFsCgPath))
    else if mentions "freezer/" then
      .ok (mount "mount -t cgroup -o freezer none /sys/fs/cgroup/freezer")
    else if mentions "cpuset/" then
      .ok (mount "mount -t cgroup -o cpuset none /sys/fs/cgroup/cpuset")
    else if mentions "unified/" then .ok (mount "mount -t cgroup2 none /sys/fs/cgroup/unified")
    else .error (.runtimeError ("Unexpected cgroup controller path" ++ sysFsCgPath))
  | e => .error (.ioError e)

/-- A top-level group, which may exist. -/
def makeRoot (path : String) (a : Advice) : Setup (Cgroup × Advice) :=
  tryCatch (do return (← Cgroup.create m path true, a)) fun x =>
    match x.error with
    | .ioError e =>
      match handleCgroupExc e path a with
      | .ok a => return ({}, a)
      | .error e => throw { x with error := e }
    | _ => throw x

def joinRoot (g : Cgroup) (pid : Nat) (commands : List String) (a : Advice) : Setup Advice :=
  tryCatch (do g.addProcess m pid; return a) fun _ =>
    return { a with commands := a.commands ++ commands }

def chown (path : String) : String := "sudo chown -R " ++ toString m.uid ++ " " ++ path

def killChild (pid : Nat) : Setup Unit := do
  if !m.lingers then set ((← get).exited pid)

/-- The dummy child is killed when `body` is left. -/
def withChild {α : Type} (pid : Nat) (body : Setup α) : Setup α := do
  let a ← tryCatch body fun x => do
    killChild m pid
    throw x
  killChild m pid
  return a

def makeRoots (paths : RootPaths) (pid : Nat) : Setup (Bool × RootGroups) := do
  let roots : RootGroups := {}
  let (unified, a) ← owning roots.teardown (makeRoot m paths.unified {})
  let roots := { roots with unified }
  let a ← joinRoot m unified pid [chown m paths.unified,
    "sudo echo " ++ toString m.ppid ++ " > " ++ paths.unified ++ "/cgroup.procs"] a
  let (freezer, a) ← owning roots.teardown (makeRoot m paths.freezer a)
  let roots := { roots with freezer }
  let a ← joinRoot m freezer pid [chown m paths.freezer] a
  let (cpuset, a) ← owning roots.teardown (makeRoot m paths.cpuset a)
  let roots := { roots with cpuset }
  let a ← joinRoot m cpuset pid [chown m paths.cpuset] a
  return (a.mountCmds.isEmpty && a.commands.isEmpty, roots)

def createToplevelCgroups (name : String) : Setup (Bool × RootGroups) := do
  match readRootPaths m name with
  | .error e => throw ⟨e, ({} : RootGroups).teardown⟩
  | .ok paths =>
    match m.fork "" with
    | .error e => throw ⟨.ioError e, ({} : RootGroups).teardown⟩
    | .ok pid => withChild m pid (makeRoots m paths pid)

end CgroupSetup

namespace SchedulerGroups

open CgroupSetup

def runLoop : Setup Unit := do
  let k ← get
  set (m.loop k).2
  require (m.loop k).1

/-- `main` from the top-level groups on: the groups that are alive at its end. -/
def main (name : String) (shape : List (String × Nat)) : Setup (List Cgroup) := do
  let (ok, roots) ← createToplevelCgroups m name
  if ok then owning roots.teardown do
    require m.beforePartitions
    let partitions ← createPartitions m roots shape []
    owning (teardown partitions) do
      require m.afterPartitions
      partitions.forM (PartitionGroups.createProcesses m)
      runLoop m
    return teardown partitions ++ roots.teardown
  else return roots.teardown

def ended (name : String) (shape : List (String × Nat)) (k : Kernel) : Kernel :=
  match (main m name shape).run k with
  | (.ok gs, k') => Host.destroy m gs k'
  | (.error x, k') => Host.destroy m x.pending k'

end SchedulerGroups

end DemosSched
