import Mathlib.Algebra.Group.Nat.Defs
import Mathlib.Data.Finset.Basic
import DemosSched.Configuration
import DemosSched.General.Yaml

/-! `lib/cpuset.c` and `lib/cpu_set.hpp`: the reading of a list of CPU ranges.
A pointer into the list is the rest of the text from there on. -/

namespace DemosSched

open Yaml

namespace CpuList

/-- The rest after the next `sep`. -/
def nexttoken (q : List Char) (sep : Char) : Option (List Char) :=
  match q.dropWhile (· != sep) with
  | [] => none
  | _ :: rest => some rest

def strtoul (str : List Char) : Nat × List Char :=
  ((str.takeWhile Char.isDigit).foldl (fun n d => 10 * n + (d.toNat - 48)) 0,
    str.dropWhile Char.isDigit)

/-- The number at the front of `str`, as an `unsigned int`, and what follows it. -/
def nextnumber (str : List Char) : Option (Nat × List Char) :=
  match str with
  | [] => none
  | d :: _ =>
    if d.isDigit && decide ((strtoul str).1 < 2 ^ 64) then
      some ((strtoul str).1 % 2 ^ 32, (strtoul str).2)
    else none

/-- `c1 != NULL && (c2 == NULL || c1 < c2)`, and then `c1`. -/
def before (c1 c2 : Option (List Char)) : Option (List Char) :=
  c1.filter fun rest => c2.all (·.length < rest.length)

/-- `:` with a stride after the upper bound that ends at `stop`. -/
def stride (stop : List Char) (c2 : Option (List Char)) : Option (Nat × List Char) :=
  match before (nexttoken stop ':') c2 with
  | none => some (1, stop)
  | some c1 => (nextnumber c1).filter (·.1 ≠ 0)

structure Range where
  first : Nat
  last : Nat
  stride : Nat

/-- One pass of the loop over the ranges, less the setting of the bits: the
range at `p` and what follows the last number read. -/
def range (p : List Char) : Option (Range × List Char) := do
  let (a, stop) ← nextnumber p
  let c2 := nexttoken stop ','
  match before (nexttoken stop '-') c2 with
  | none => some (⟨a, a, 1⟩, stop)
  | some c1 =>
    let (b, stop) ← nextnumber c1
    let (s, stop) ← stride stop c2
    if a ≤ b then some (⟨a, b, s⟩, stop) else none

/-- `while (a <= b) { CPU_SET_S(a, setsize, set); a += s; }` for the CPUs below
`capacity`, in the arithmetic of `unsigned int`: a loop with more steps than that
has values meets one of them again and never ends. -/
def setBits (capacity b s : Nat) : Nat → Nat → CpuSet → Option CpuSet
  | 0, _, _ => none
  | fuel + 1, a, set =>
    if a ≤ b then
      setBits capacity b s fuel ((a + s) % 2 ^ 32) (if a < capacity then insert a set else set)
    else some set

def tokens : List Char → List (List Char)
  | [] => []
  | d :: rest => if d = ',' then rest :: tokens rest else tokens rest

def setRange (capacity : Nat) (st : CpuSet × List Char) (p : List Char) :
    Except (Option Failure) (CpuSet × List Char) :=
  match range p with
  | none => .error none
  | some (r, stop) =>
    match setBits capacity r.last r.stride (2 ^ 32 + 1) r.first st.1 with
    | none => .error (some .diverges)
    | some set => .ok (set, stop)

/-- `cpulist_parse` without `fail`; `none` is an error in the list. -/
def cpulistParse (capacity : Nat) (str : List Char) : Except (Option Failure) CpuSet := do
  let (set, stop) ← (str :: tokens str).foldlM (setRange capacity) (∅, [])
  if stop = [] then .ok set else .error none

end CpuList

namespace CpuSet

/-- `8 * CPU_ALLOC_SIZE(max_cpus)`: the CPUs are kept in words of 64 bits. -/
def capacity (maxCpus : Nat) : Nat := (maxCpus + 63) / 64 * 64

/-- `cpu_set(cpulist)`: the text ends at its first NUL. -/
def ofList (maxCpus : Nat) (cpulist : String) : Except Failure CpuSet :=
  match CpuList.cpulistParse (capacity maxCpus) (cpulist.toList.takeWhile (· != '\x00')) with
  | .ok set => .ok set
  | .error none => .error (.runtimeError ("Could not parse cpulist: " ++ cpulist))
  | .error (some failure) => .error failure

/-- `lowest()`: the CPUs from `max_cpus` on are not looked at. -/
def lowest (maxCpus : Nat) (set : CpuSet) : Except Failure Nat :=
  match (List.range maxCpus).find? (· ∈ set) with
  | some i => .ok i
  | none => .error (.runtimeError "empty cpu_set")

end CpuSet

/-- `parse_cpu_set`: `all` is the given set. -/
def parseCpuSet (maxCpus : Nat) (cpulist : String) (allCpus : CpuSet) : Except Failure CpuSet :=
  if cpulist = "all" then .ok allCpus else CpuSet.ofList maxCpus cpulist

variable {maxCpus : Nat}

theorem CpuSet.lowest_ok {set : CpuSet} {i : Nat} (h : lowest maxCpus set = .ok i) :
    i ∈ set ∧ i < maxCpus := by
  unfold lowest at h
  split at h
  case h_2 => cases h
  case h_1 hfind =>
    cases h
    have hmem := List.find?_some hfind
    exact ⟨by simpa using hmem, List.mem_range.mp (List.mem_of_find?_eq_some hfind)⟩

theorem CpuSet.lowest_total {set : CpuSet} (h : ∃ i ∈ set, i < maxCpus) :
    ∃ i, lowest maxCpus set = .ok i := by
  obtain ⟨i, hi, hlt⟩ := h
  unfold lowest
  cases hfind : (List.range maxCpus).find? (· ∈ set) with
  | some j => exact ⟨j, rfl⟩
  | none =>
    rw [List.find?_eq_none] at hfind
    simpa [hi] using hfind i (List.mem_range.mpr hlt)

theorem parseCpuSet_total {s : String} {set : CpuSet} (allowed : CpuSet)
    (h : parseCpuSet maxCpus s ∅ = .ok set) :
    ∃ cpus, parseCpuSet maxCpus s allowed = .ok cpus ∧ (s ≠ "all" → cpus = set) := by
  unfold parseCpuSet at *
  split at h
  case isTrue hall => exact ⟨allowed, by simp [hall], fun hne => absurd hall hne⟩
  case isFalse hne => exact ⟨set, by simp [hne, h], fun _ => rfl⟩

end DemosSched
