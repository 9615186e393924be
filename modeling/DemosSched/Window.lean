import DemosSched.Slice

/-! `Window` and `MajorFrame`: the slices of the current window run their SC
partitions, the last of them to finish starts the BE partitions of all, and
the timer of the frame moves on to the next window. -/

namespace DemosSched

namespace Window

variable (c : Config)

def hasScFinished (w : Nat) (s : State) : Bool :=
  (s.window w).finishedScPartitions == c.sliceCount w

/-- `slice_sc_end_cb`. The argument bounds how deep the calls nest: starting the
BE partitions may end an SC partition once more, which starts nothing. -/
def sliceScEndCb : Nat → SliceId → Int → State → Except Fault State
  | 0, _, _, _ => .error .outOfFuel
  | n + 1, i, t, s => do
    let w := i.window
    let s := s.setWindow w { s.window w with
      finishedScPartitions := (s.window w).finishedScPartitions + 1 }
    if (s.window w).stopping then return s
    if hasScFinished c w s then
      let s ← (c.sliceIds w).foldlM (fun s j => Slice.startBe c (sliceScEndCb n) j t s)
        (s.record (.beStarted w t))
      return s.record (.onBeStart w)
    return s

/-- The callback the window gives its slices. -/
def scDone : SliceId → Int → State → Except Fault State := sliceScEndCb c 2

def start (w : Nat) (t : Int) (s : State) : Except Fault State := do
  let s := (s.record (.windowStarted w t)).setWindow w { s.window w with finishedScPartitions := 0 }
  let s ← (c.sliceIds w).foldlM (fun s i => Slice.startSc c (scDone c) i t s) s
  return (s.record (.onWindowStart w)).record (.onScStart w)

def stop (w : Nat) (t : Int) (s : State) : Except Fault State := do
  let s := s.record (.onWindowEnd w)
  let s := s.setWindow w { s.window w with stopping := true }
  let s ← (c.sliceIds w).foldlM (fun s i => Slice.stop c (scDone c) i t s) s
  return s.setWindow w { s.window w with stopping := false }

end Window

namespace MajorFrame

variable (c : Config)

def moveToNextWindow (s : State) : State :=
  s.setFrame { s.frame with
    currentWin := CyclicSearch.next c.windows.length s.frame.currentWin }

def start (t : Int) (s : State) : Except Fault State := do
  let s ← Window.start c s.frame.currentWin t s
  let timeout := t + (c.window s.frame.currentWin).length * nsPerMs
  return (s.setFrame { s.frame with timeout := timeout, armed := true }).record
    (.windowArmed timeout)

def stop (t : Int) (s : State) : Except Fault State :=
  let s := s.setFrame { s.frame with armed := false }
  Window.stop c s.frame.currentWin t s

def timeoutCb (s : State) : Except Fault State := do
  let s ← Window.stop c s.frame.currentWin s.frame.timeout s
  start c s.frame.timeout (moveToNextWindow c s)

/-- The largest CPU set of the slices that contain the partition. -/
def findWidestCpuSet (k : Nat) : Option CpuSet :=
  (c.windows.flatMap WindowDef.slices).foldl
    (fun best x =>
      if k ∉ x.partitions then best
      else match best with
        | none => some x.cpus
        | some b => if b.card < x.cpus.card then some x.cpus else some b)
    none

end MajorFrame

end DemosSched
