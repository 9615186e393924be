import DemosSched.Runs

/-! Exclusive ownership. A partition runs on one slice at a time, on its CPUs and
reporting to it, as long as no window gives one partition to two of its slices
in the same phase. -/

namespace DemosSched

open Fallible

/-- Every running process belongs to one slice, which is also the one its
partition is placed on and reports to. -/
structure State.Owned (c : Config) (s : State) : Prop where
  process : ∀ i j p, (s.slice i).runningProcess = some p → (s.slice j).runningProcess = some p →
    i = j
  partition : ∀ i j, (s.slice i).runningProcess ≠ none → (s.slice j).runningProcess ≠ none →
    (s.slice i).runningPartition = (s.slice j).runningPartition → i = j
  cpus : ∀ i p, (s.slice i).runningProcess = some p →
    (s.partition p.part).currentCpus = (c.slice i).cpus
  completionCb : ∀ i p, (s.slice i).runningProcess = some p →
    (s.partition p.part).completionCb = .slice i

theorem State.Coherent.partition_eq {c : Config} {w : Nat} {s : State} (h : s.Coherent c w)
    (unshared : c.Unshared) {i j : SliceId} {p q : ProcessId}
    (hp : (s.slice i).runningProcess = some p) (hq : (s.slice j).runningProcess = some q)
    (same : p.part = q.part) : i = j := by
  have hi := (h.held i p hp unshared).1
  have hj := (h.held j q hq unshared).1
  rw [same, hj] at hi
  exact (CompletionCb.slice.inj hi).symm

/-- No state of a run breaks ownership when the windows share no partition. -/
theorem exclusive_ownership {c : Config} (unshared : c.Unshared) {gen : Nat → Nat}
    {timeout : Option Int} {es : List Event} {s : State}
    (reachable : Event.Reachable c gen timeout es s) : s.Owned c := by
  have hcoherent := reachable.sound.coherent
  refine ⟨fun i j p hi hj => hcoherent.partition_eq unshared hi hj rfl, fun i j hi hj hsame => ?_,
    fun i p hp => (hcoherent.held i p hp unshared).2,
    fun i p hp => (hcoherent.held i p hp unshared).1⟩
  obtain ⟨p, hp⟩ := Option.ne_none_iff_exists'.mp hi
  obtain ⟨q, hq⟩ := Option.ne_none_iff_exists'.mp hj
  refine hcoherent.partition_eq unshared hp hq ?_
  rw [(hcoherent.owner i p hp).1, (hcoherent.owner j q hq).1] at hsame
  exact Option.some.inj hsame

/-- Both slices of the window run the only process of their common partition. -/
theorem shared_partition_not_owned :
    ¬∀ (c : Config) (gen : Nat → Nat) (timeout : Option Int) (es : List Event) (s : State),
      Event.Reachable c gen timeout es s → s.Owned c := by
  intro hclaim
  have hrun : ((Event.play .sharedPartition (fun _ _ => True) [.startup 0]
      (State.initial .sharedPartition (fun _ => 0) none)).map fun s =>
        ((s.slice ⟨0, 0⟩).runningProcess, (s.slice ⟨0, 1⟩).runningProcess)) =
      some (some ⟨0, 0⟩, some ⟨0, 0⟩) := by decide
  obtain ⟨s, hplay, hs⟩ := Option.map_eq_some_iff.mp hrun
  obtain ⟨hfirst, hsecond⟩ := Prod.mk.inj hs
  have howned := hclaim _ _ _ _ s (Event.play_reachable hplay)
  exact absurd (howned.process _ _ _ hfirst hsecond) (by decide)

/-- The BE phase, with a process of the BE partition running. -/
theorem exclusive_ownership_twoSlices :
    ∃ s : State, (s.slice ⟨0, 1⟩).runningProcess = some ⟨2, 0⟩ ∧ s.Owned .twoSlices := by
  have hrun : ((Event.play .twoSlices (fun _ _ => True)
      [.startup 0, .sliceTimer ⟨0, 1⟩, .sliceTimer ⟨0, 0⟩]
      (State.initial .twoSlices (fun _ => 0) none)).map fun s =>
        (s.slice ⟨0, 1⟩).runningProcess) = some (some ⟨2, 0⟩) := by decide
  obtain ⟨s, hplay, hs⟩ := Option.map_eq_some_iff.mp hrun
  exact ⟨s, hs, exclusive_ownership (by decide) (Event.play_reachable hplay)⟩

end DemosSched
