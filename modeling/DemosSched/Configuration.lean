import Mathlib.Data.Finset.Card
import Mathlib.Data.Finset.Range
import Mathlib.Data.List.GetD

/-! The objects `Config::create_scheduler_objects` builds, less their run-time
state: partitions with their processes, and windows with their slices. A
configuration the program would reject cannot be written down: every process
carries its budget and jitter bounds, every partition has a process, every
slice a CPU, and every reference is the position of a partition. -/

namespace DemosSched

/-- Nanoseconds in a millisecond: durations of the configuration are whole
milliseconds, `steady_clock` time points count nanoseconds. -/
def nsPerMs : Int := 1000000

/-- A `cpu_set`, as the set of the CPUs whose bit is set. -/
abbrev CpuSet := Finset Nat

structure ProcessId where
  part : Nat
  index : Nat
  deriving DecidableEq, Repr

structure SliceId where
  window : Nat
  index : Nat
  deriving DecidableEq, Repr

structure ProcessDef where
  argv : String
  budget : Int
  jitter : Int
  requestedFrequency : Option Nat
  hasInitialization : Bool
  budget_pos : 0 < budget
  jitter_nonneg : 0 ≤ jitter
  jitter_le : jitter ≤ 2 * budget

instance : Inhabited ProcessDef :=
  ⟨⟨"", 1, 0, none, false, by decide, by decide, by decide⟩⟩

structure PartitionDef where
  name : String
  processes : List ProcessDef
  processes_ne : processes ≠ []

instance : Inhabited PartitionDef := ⟨⟨"", [default], by simp⟩⟩

/-- The constant members of `Slice`; partitions are referred to by position. -/
structure SliceDef where
  sc : Option Nat
  be : Option Nat
  cpus : CpuSet
  requestedFrequency : Option Nat
  cpus_nonempty : cpus.Nonempty

instance : Inhabited SliceDef := ⟨⟨none, none, {0}, none, by simp⟩⟩

def SliceDef.partitions (x : SliceDef) : List Nat := x.sc.toList ++ x.be.toList

structure WindowDef where
  length : Int
  slices : List SliceDef
  deriving Inhabited

structure Config where
  partitions : List PartitionDef
  windows : List WindowDef
  windows_ne : windows ≠ []
  references : ∀ w ∈ windows, ∀ x ∈ w.slices, ∀ k ∈ x.partitions, k < partitions.length

namespace Config

variable (c : Config)

def partition (k : Nat) : PartitionDef := c.partitions.getD k default

def processCount (k : Nat) : Nat := (c.partition k).processes.length

def process (p : ProcessId) : ProcessDef := (c.partition p.part).processes.getD p.index default

def window (w : Nat) : WindowDef := c.windows.getD w default

def sliceCount (w : Nat) : Nat := (c.window w).slices.length

def slice (i : SliceId) : SliceDef := (c.window i.window).slices.getD i.index default

/-- The partition a slice runs in the SC phase, or in the BE phase of its window. -/
def role (sc : Bool) (i : SliceId) : Option Nat := if sc then (c.slice i).sc else (c.slice i).be

def sliceIds (w : Nat) : List SliceId := (List.range (c.sliceCount w)).map (SliceId.mk w)

def processIds (k : Nat) : List ProcessId := (List.range (c.processCount k)).map (ProcessId.mk k)

def allProcessIds : List ProcessId := (List.range c.partitions.length).flatMap c.processIds

def ValidProcess (p : ProcessId) : Prop :=
  p.part < c.partitions.length ∧ p.index < c.processCount p.part

instance (p : ProcessId) : Decidable (c.ValidProcess p) := inferInstanceAs (Decidable (_ ∧ _))

theorem processCount_pos (k : Nat) : 0 < c.processCount k :=
  List.length_pos_iff.mpr (c.partition k).processes_ne

theorem windows_length_pos : 0 < c.windows.length := List.length_pos_iff.mpr c.windows_ne

theorem mem_sliceIds {w : Nat} {i : SliceId} :
    i ∈ c.sliceIds w ↔ i.window = w ∧ i.index < c.sliceCount w := by
  constructor
  · intro h
    obtain ⟨j, hj, rfl⟩ := List.mem_map.mp h
    exact ⟨rfl, List.mem_range.mp hj⟩
  · rintro ⟨rfl, h⟩
    exact List.mem_map.mpr ⟨i.index, List.mem_range.mpr h, rfl⟩

theorem mem_processIds {k : Nat} {p : ProcessId} :
    p ∈ c.processIds k ↔ p.part = k ∧ p.index < c.processCount k := by
  constructor
  · intro h
    obtain ⟨j, hj, rfl⟩ := List.mem_map.mp h
    exact ⟨rfl, List.mem_range.mp hj⟩
  · rintro ⟨rfl, h⟩
    exact List.mem_map.mpr ⟨p.index, List.mem_range.mpr h, rfl⟩

theorem mem_allProcessIds {p : ProcessId} : p ∈ c.allProcessIds ↔ c.ValidProcess p := by
  simp only [allProcessIds, List.mem_flatMap, List.mem_range, mem_processIds, ValidProcess]
  constructor
  · rintro ⟨k, hk, rfl, hp⟩
    exact ⟨hk, hp⟩
  · rintro ⟨hk, hp⟩
    exact ⟨p.part, hk, rfl, hp⟩

theorem window_cases (w : Nat) : c.window w ∈ c.windows ∨ c.window w = default := by
  unfold window
  by_cases hw : w < c.windows.length
  · rw [List.getD_eq_getElem _ _ hw]
    exact .inl (List.getElem_mem hw)
  · exact .inr (List.getD_eq_default _ _ (by omega))

theorem slice_cases (i : SliceId) :
    c.slice i ∈ (c.window i.window).slices ∨ c.slice i = default := by
  unfold slice
  by_cases hi : i.index < (c.window i.window).slices.length
  · rw [List.getD_eq_getElem _ _ hi]
    exact .inl (List.getElem_mem hi)
  · exact .inr (List.getD_eq_default _ _ (by omega))

theorem process_mem {p : ProcessId} (h : p.index < c.processCount p.part) :
    c.process p ∈ (c.partition p.part).processes := by
  rw [process, List.getD_eq_getElem _ _ h]
  exact List.getElem_mem h

theorem process_mem_or (p : ProcessId) :
    (∃ x ∈ c.partitions, c.process p ∈ x.processes) ∨ c.process p = default := by
  by_cases hj : p.index < c.processCount p.part
  · have hmem := c.process_mem hj
    by_cases hk : p.part < c.partitions.length
    · refine .inl ⟨c.partition p.part, ?_, hmem⟩
      rw [partition, List.getD_eq_getElem _ _ hk]
      exact List.getElem_mem hk
    · right
      have hdefault : c.partition p.part = default := List.getD_eq_default _ _ (by omega)
      rw [hdefault] at hmem
      exact List.mem_singleton.mp hmem
  · exact .inr (List.getD_eq_default _ _ (Nat.not_lt.mp hj))

theorem slice_mem_or (i : SliceId) :
    (∃ w ∈ c.windows, c.slice i ∈ w.slices) ∨ c.slice i = default := by
  rcases c.slice_cases i with hi | hi
  · rcases c.window_cases i.window with hw | hw
    · exact .inl ⟨_, hw, hi⟩
    · rw [hw] at hi
      exact absurd hi List.not_mem_nil
  · exact .inr hi

theorem exists_slice {c : Config} {w : WindowDef} {x : SliceDef} (hw : w ∈ c.windows)
    (hx : x ∈ w.slices) : ∃ i, c.slice i = x := by
  obtain ⟨n, hn, rfl⟩ := List.getElem_of_mem hw
  obtain ⟨j, hj, rfl⟩ := List.getElem_of_mem hx
  refine ⟨⟨n, j⟩, ?_⟩
  have hwindow : c.window n = c.windows[n] := List.getD_eq_getElem _ _ hn
  rw [slice, hwindow, List.getD_eq_getElem _ _ hj]

/-- No partition is run in the SC phase by one slice and in the BE phase by one. -/
def SingleRole : Prop :=
  ∀ v ∈ c.windows, ∀ x ∈ v.slices, ∀ w ∈ c.windows, ∀ y ∈ w.slices, x.sc ≠ none → y.be ≠ x.sc

instance : Decidable c.SingleRole := inferInstanceAs (Decidable (∀ _ ∈ _, _))

theorem SingleRole.ne {c : Config} (h : c.SingleRole) {i j : SliceId} {k : Nat}
    (hi : (c.slice i).sc = some k) : (c.slice j).be ≠ some k := by
  rcases c.slice_mem_or i with ⟨v, hv, hx⟩ | hdefault
  · rcases c.slice_mem_or j with ⟨w, hw, hy⟩ | hdefault
    · exact hi ▸ h v hv _ hx w hw _ hy (by simp [hi])
    · simp [hdefault, default]
  · simp [hdefault, default] at hi

theorem window_lt {c : Config} {w : Nat} {i : SliceId} (hi : i ∈ c.sliceIds w) :
    w < c.windows.length := by
  by_contra hle
  have hcount : c.sliceCount w = 0 := by
    rw [sliceCount, window, List.getD_eq_default _ _ (by omega)]
    rfl
  rw [mem_sliceIds, hcount] at hi
  omega

theorem role_member {c : Config} {sc : Bool} {i : SliceId} {k : Nat}
    (h : c.role sc i = some k) : i ∈ c.sliceIds i.window := by
  rw [mem_sliceIds]
  refine ⟨rfl, ?_⟩
  by_contra hle
  have hdefault : c.slice i = default := List.getD_eq_default _ _ (Nat.le_of_not_lt hle)
  cases sc <;> simp [role, hdefault, default] at h

/-- No two slices of a window have the same SC partition, or the same BE partition. -/
def Unshared : Prop :=
  ∀ w < c.windows.length, ∀ i ∈ c.sliceIds w, ∀ j ∈ c.sliceIds w, ∀ sc : Bool,
    c.role sc i ≠ none → c.role sc i = c.role sc j → i = j

instance : Decidable c.Unshared := inferInstanceAs (Decidable (∀ _ < _, _))

theorem Unshared.eq {c : Config} (h : c.Unshared) {w : Nat} {i j : SliceId}
    (hi : i ∈ c.sliceIds w) (hj : j ∈ c.sliceIds w) {sc : Bool} {k : Nat}
    (hik : c.role sc i = some k) (hjk : c.role sc j = some k) : i = j :=
  h w (window_lt hi) i hi j hj sc (by simp [hik]) (hik.trans hjk.symm)

/-- Partition `k` is a BE partition only, of at most one slice in each window. -/
def BeOnly (k : Nat) : Prop :=
  ∀ w < c.windows.length, ∀ i ∈ c.sliceIds w, c.role true i ≠ some k ∧
    ∀ j ∈ c.sliceIds w, c.role false i = some k → c.role false j = some k → i = j

instance (k : Nat) : Decidable (c.BeOnly k) := inferInstanceAs (Decidable (∀ _ < _, _))

theorem BeOnly.notSc {c : Config} {k : Nat} (h : c.BeOnly k) (i : SliceId) :
    c.role true i ≠ some k := fun hi =>
  (h i.window (window_lt (role_member hi)) i (role_member hi)).1 hi

theorem BeOnly.single {c : Config} {k : Nat} (h : c.BeOnly k) {i j : SliceId}
    (hi : c.role false i = some k) (hj : c.role false j = some k) (hw : i.window = j.window) :
    i = j :=
  (h i.window (window_lt (role_member hi)) i (role_member hi)).2 j (hw ▸ role_member hj) hi hj

/-- Partition `k` is no BE partition, and the SC partition of at most one slice in each window. -/
def ScOnly (k : Nat) : Prop :=
  ∀ w < c.windows.length, ∀ i ∈ c.sliceIds w, c.role false i ≠ some k ∧
    ∀ j ∈ c.sliceIds w, c.role true i = some k → c.role true j = some k → i = j

theorem ScOnly.notBe {c : Config} {k : Nat} (h : c.ScOnly k) (i : SliceId) :
    c.role false i ≠ some k := fun hi =>
  (h i.window (window_lt (role_member hi)) i (role_member hi)).1 hi

theorem ScOnly.single {c : Config} {k : Nat} (h : c.ScOnly k) {i j : SliceId}
    (hi : c.role true i = some k) (hj : c.role true j = some k) (hw : i.window = j.window) :
    i = j :=
  (h i.window (window_lt (role_member hi)) i (role_member hi)).2 j (hw ▸ role_member hj) hi hj

theorem SingleRole.scOnly {c : Config} (h : c.SingleRole) (unshared : c.Unshared) {i : SliceId}
    {k : Nat} (hi : c.role true i = some k) : c.ScOnly k := fun _ _ _ hj =>
  ⟨h.ne hi, fun _ hl hjk hlk => unshared.eq hj hl hjk hlk⟩

def ZeroJitter : Prop := ∀ x ∈ c.partitions, ∀ p ∈ x.processes, p.jitter = 0

instance : Decidable c.ZeroJitter := inferInstanceAs (Decidable (∀ _ ∈ _, _))

def twoProcesses : Config where
  partitions := [⟨"SC", [
    ⟨"dummy 1", 2, 0, none, false, by decide, by decide, by decide⟩,
    ⟨"dummy 2", 3, 0, none, false, by decide, by decide, by decide⟩], by simp⟩]
  windows := [⟨10, [⟨some 0, none, {0}, none, by simp⟩]⟩]
  windows_ne := by simp
  references := by decide

def twoInits : Config where
  partitions := [⟨"SC", [
    ⟨"dummy 1", 2, 0, none, true, by decide, by decide, by decide⟩,
    ⟨"dummy 2", 3, 0, none, true, by decide, by decide, by decide⟩], by simp⟩]
  windows := [⟨10, [⟨some 0, none, {0}, none, by simp⟩]⟩]
  windows_ne := by simp
  references := by decide

/-- One process, whose partition is both the SC and the BE partition of a slice. -/
def sharedRole : Config where
  partitions := [⟨"P", [⟨"dummy", 15, 0, none, false, by decide, by decide, by decide⟩], by simp⟩]
  windows := [⟨10, [⟨some 0, some 0, {0}, none, by simp⟩]⟩]
  windows_ne := by simp
  references := by decide

def sharedPartition : Config where
  partitions := [⟨"P", [⟨"dummy", 5, 0, none, false, by decide, by decide, by decide⟩], by simp⟩]
  windows := [⟨10, [⟨some 0, none, {0}, none, by simp⟩, ⟨some 0, none, {1}, none, by simp⟩]⟩]
  windows_ne := by simp
  references := by decide

def onlyBe : Config where
  partitions := [⟨"BE", [⟨"dummy BE", 2, 0, none, false, by decide, by decide, by decide⟩], by simp⟩]
  windows := [⟨10, [⟨none, some 0, {0}, none, by simp⟩]⟩]
  windows_ne := by simp
  references := by decide

def twoSlices : Config where
  partitions := [
    ⟨"SC1", [⟨"dummy SC1", 5, 0, none, false, by decide, by decide, by decide⟩], by simp⟩,
    ⟨"SC2", [⟨"dummy SC2", 3, 0, none, false, by decide, by decide, by decide⟩], by simp⟩,
    ⟨"BE", [⟨"dummy BE", 2, 0, none, false, by decide, by decide, by decide⟩], by simp⟩]
  windows := [⟨10, [⟨some 0, none, {0}, none, by simp⟩, ⟨some 1, some 2, {1}, none, by simp⟩]⟩]
  windows_ne := by simp
  references := by decide

/-- A BE process whose budget may be drawn twice as long as configured. -/
def jittered : Config where
  partitions := [⟨"BE", [⟨"dummy", 10, 20, none, false, by decide, by decide, by decide⟩], by simp⟩]
  windows := [⟨5, [⟨none, some 0, {0}, none, by simp⟩]⟩]
  windows_ne := by simp
  references := by decide

/-- SC and BE processes whose budgets may all be drawn as zero. -/
def jitteredAll : Config where
  partitions := [
    ⟨"SC", [⟨"dummy 1", 3, 6, none, false, by decide, by decide, by decide⟩,
      ⟨"dummy 2", 2, 4, none, false, by decide, by decide, by decide⟩], by simp⟩,
    ⟨"BE", [⟨"dummy 3", 5, 10, none, false, by decide, by decide, by decide⟩], by simp⟩]
  windows := [⟨10, [⟨some 0, some 1, {0}, none, by simp⟩]⟩]
  windows_ne := by simp
  references := by decide

def twoFrequencies : Config where
  partitions := [⟨"SC", [
    ⟨"dummy 1", 2, 0, some 600000000, false, by decide, by decide, by decide⟩,
    ⟨"dummy 2", 3, 0, some 1200000000, false, by decide, by decide, by decide⟩], by simp⟩]
  windows := [⟨10, [⟨some 0, none, {0}, none, by simp⟩]⟩]
  windows_ne := by simp
  references := by decide

def twoBes : Config where
  partitions := [⟨"BE", [
    ⟨"dummy 1", 4, 0, none, false, by decide, by decide, by decide⟩,
    ⟨"dummy 2", 3, 0, none, false, by decide, by decide, by decide⟩], by simp⟩]
  windows := [⟨5, [⟨none, some 0, {0}, none, by simp⟩]⟩]
  windows_ne := by simp
  references := by decide

def sliceFrequencies : Config where
  partitions := [⟨"A", [⟨"a", 5, 0, none, false, by decide, by decide, by decide⟩], by simp⟩,
    ⟨"B", [⟨"b", 5, 0, none, false, by decide, by decide, by decide⟩], by simp⟩]
  windows := [⟨10, [⟨some 0, none, {0}, some 600000000, by simp⟩,
    ⟨some 1, none, {1}, some 1200000000, by simp⟩]⟩]
  windows_ne := by simp
  references := by decide

/-- A process that needs initialization, whose partition has one CPU in the first window and
two in the second. -/
def narrowFirst : Config where
  partitions := [⟨"SC", [⟨"dummy", 2, 0, none, true, by decide, by decide, by decide⟩], by simp⟩]
  windows := [⟨10, [⟨some 0, none, {0}, none, by simp⟩]⟩,
    ⟨10, [⟨some 0, none, {0, 1}, none, by simp⟩]⟩]
  windows_ne := by simp
  references := by decide

/-- The second process needs one millisecond more than the window has. -/
def shortWindow : Config where
  partitions := [⟨"SC", [
    ⟨"dummy 1", 2, 0, none, false, by decide, by decide, by decide⟩,
    ⟨"dummy 2", 3, 0, none, false, by decide, by decide, by decide⟩], by simp⟩]
  windows := [⟨4, [⟨some 0, none, {0}, none, by simp⟩]⟩]
  windows_ne := by simp
  references := by decide

end Config

end DemosSched
