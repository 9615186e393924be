import Mathlib.Data.Finset.Sort
import Mathlib.Data.List.Chain
import Mathlib.Data.List.Pairwise
import DemosSched.CpuList
import DemosSched.General.Loop

/-! The iteration over the CPUs of a `cpu_set` with `lowest` and `next_set`. The loop
of `next_set` is left where it comes back to the CPU after the given one; after the
last CPU of all there is none it could come back to. -/

namespace DemosSched.CpuSet

open Yaml

/-- One pass of the loop of `next_set(j)`, at `i`. An `int` holds `max_cpus + 1`. -/
def nextSetPass (maxCpus : Nat) (set : CpuSet) (j i : Nat) : Except Failure Nat ⊕ Nat :=
  if i ∈ set then .inl (.ok i)
  else if (i + 1) % maxCpus ≠ j + 1 then .inr ((i + 1) % maxCpus)
  else .inl (.error (.runtimeError "empty cpu_set"))

/-- `next_set(j)`, given up after `fuel` passes. -/
def nextSet (maxCpus : Nat) (set : CpuSet) (j fuel : Nat) : Option (Except Failure Nat) :=
  Loop.run (nextSetPass maxCpus set j) fuel (j + 1)

abbrev NextSet (maxCpus : Nat) (set : CpuSet) (j : Nat) (r : Except Failure Nat) : Prop :=
  Loop.Returns (nextSetPass maxCpus set j) (j + 1) r

theorem nextSet_iff {maxCpus : Nat} {set : CpuSet} {j : Nat} {r : Except Failure Nat} :
    NextSet maxCpus set j r ↔ ∃ fuel, nextSet maxCpus set j fuel = some r := .rfl

/-- `i` is the first member met on the way up from `j + 1`, round to `j` itself. -/
def FirstAfter (maxCpus : Nat) (set : CpuSet) (j i : Nat) : Prop :=
  ∃ d, 0 < d ∧ d ≤ maxCpus ∧ i = (j + d) % maxCpus ∧ i ∈ set ∧
    ∀ e, 0 < e → e < d → (j + e) % maxCpus ∉ set

/-- `next_set(j)` comes to an end, with the next member or, when the set is empty,
with an exception. -/
def NextSetExact (maxCpus : Nat) (set : CpuSet) (j : Nat) : Prop :=
  (∃ r, NextSet maxCpus set j r) ∧
    (∀ i, NextSet maxCpus set j (.ok i) → FirstAfter maxCpus set j i) ∧
    ∀ e, NextSet maxCpus set j (.error e) → e = .runtimeError "empty cpu_set" ∧ set = ∅

/-- From the lowest member, `next_set` leads through all members in increasing order
and back. -/
def VisitsInOrder (maxCpus : Nat) (set : CpuSet) : Prop :=
  ∀ l, lowest maxCpus set = .ok l → ∃ rest, (l :: rest).Pairwise (· < ·) ∧
    (∀ i, i ∈ l :: rest ↔ i ∈ set) ∧
    (l :: rest ++ [l]).IsChain fun i k => NextSet maxCpus set i (.ok k)

variable {maxCpus j : Nat} {set : CpuSet}

section Search

theorem FirstAfter.unique {i k : Nat} (hi : FirstAfter maxCpus set j i)
    (hk : FirstAfter maxCpus set j k) : i = k := by
  obtain ⟨d, dpos, -, rfl, hd, hbefore⟩ := hi
  obtain ⟨e, epos, -, rfl, he, hbefore'⟩ := hk
  rcases Nat.lt_trichotomy d e with h | rfl | h
  · exact absurd hd (hbefore' d dpos h)
  · rfl
  · exact absurd he (hbefore e epos h)

theorem exists_firstAfter (hj : j < maxCpus) (below : ∀ i ∈ set, i < maxCpus)
    (nonempty : set.Nonempty) : ∃ i, FirstAfter maxCpus set j i := by
  obtain ⟨m, hm⟩ := nonempty
  have hlt := below m hm
  have hsome : ∃ d, 0 < d ∧ d ≤ maxCpus ∧ (j + d) % maxCpus ∈ set := by
    by_cases hjm : j < m
    · exact ⟨m - j, by omega, by omega, by
        rwa [show j + (m - j) = m by omega, Nat.mod_eq_of_lt hlt]⟩
    · exact ⟨m + maxCpus - j, by omega, by omega, by
        rwa [show j + (m + maxCpus - j) = m + maxCpus by omega, Nat.add_mod_right,
          Nat.mod_eq_of_lt hlt]⟩
  classical
  obtain ⟨hpos, hle, hmem⟩ := Nat.find_spec hsome
  refine ⟨_, Nat.find hsome, hpos, hle, rfl, hmem, fun e epos he hset => ?_⟩
  exact Nat.find_min hsome he ⟨epos, by omega, hset⟩

theorem firstAfter_up {i : Nat} (hi : i < maxCpus) (member : i ∈ set) (after : j < i)
    (least : ∀ m ∈ set, ¬(j < m ∧ m < i)) : FirstAfter maxCpus set j i := by
  refine ⟨i - j, by omega, by omega, ?_, member, fun e epos he hset => ?_⟩
  · rw [show j + (i - j) = i by omega, Nat.mod_eq_of_lt hi]
  · rw [Nat.mod_eq_of_lt (by omega)] at hset
    exact least _ hset ⟨by omega, by omega⟩

theorem firstAfter_round {i : Nat} (hj : j < maxCpus) (member : i ∈ set) (upTo : i ≤ j)
    (below : ∀ m ∈ set, m ≤ j) (least : ∀ m ∈ set, i ≤ m) : FirstAfter maxCpus set j i := by
  refine ⟨i + maxCpus - j, by omega, by omega, ?_, member, fun e epos he hset => ?_⟩
  · rw [show j + (i + maxCpus - j) = i + maxCpus by omega, Nat.add_mod_right,
      Nat.mod_eq_of_lt (by omega)]
  · by_cases hwrap : j + e < maxCpus
    · rw [Nat.mod_eq_of_lt hwrap] at hset
      have := below _ hset
      omega
    · have hmod : (j + e) % maxCpus = j + e - maxCpus := by
        rw [Nat.mod_eq_sub_mod (by omega), Nat.mod_eq_of_lt (by omega)]
      rw [hmod] at hset
      have := least _ hset
      omega

end Search

section Early

-- below the last CPU the loop meets every CPU once
variable (early : j + 1 < maxCpus)

include early

theorem pass_early {e : Nat} (he : e + 1 < maxCpus) (free : (j + 1 + e) % maxCpus ∉ set) :
    nextSetPass maxCpus set j ((j + 1 + e) % maxCpus) = .inr ((j + 1 + (e + 1)) % maxCpus) := by
  have hnext : ((j + 1 + e) % maxCpus + 1) % maxCpus = (j + 1 + (e + 1)) % maxCpus := by
    rw [Nat.mod_add_mod]
    rfl
  have hgoes : (j + 1 + (e + 1)) % maxCpus ≠ j + 1 := by
    by_cases hwrap : j + 1 + (e + 1) < maxCpus
    · rw [Nat.mod_eq_of_lt hwrap]
      omega
    · rw [Nat.mod_eq_sub_mod (by omega), Nat.mod_eq_of_lt (by omega)]
      omega
  rw [nextSetPass, if_neg free, hnext, if_pos hgoes]

theorem nextSet_early {i : Nat} (first : FirstAfter maxCpus set j i) :
    NextSet maxCpus set j (.ok i) := by
  obtain ⟨d, dpos, hd, rfl, hmem, hbefore⟩ := first
  have hstart : (j + 1 + 0) % maxCpus = j + 1 := Nat.mod_eq_of_lt early
  unfold NextSet
  rw [show j + d = j + 1 + (d - 1) by omega] at hmem ⊢
  nth_rewrite 1 [← hstart]
  refine Loop.returns_along (f := fun e => (j + 1 + e) % maxCpus) (d := d - 1)
    (fun e he => pass_early early (by omega) ?_) ?_
  · have := hbefore (e + 1) (by omega) (by omega)
    rwa [show j + (e + 1) = j + 1 + e by omega] at this
  · simp only [nextSetPass, if_pos hmem]

theorem nextSet_early_empty :
    NextSet maxCpus ∅ j (.error (.runtimeError "empty cpu_set")) := by
  have hstart : (j + 1 + 0) % maxCpus = j + 1 := Nat.mod_eq_of_lt early
  unfold NextSet
  nth_rewrite 1 [← hstart]
  refine Loop.returns_along (f := fun e => (j + 1 + e) % maxCpus) (d := maxCpus - 1)
    (fun e he => pass_early early (by omega) (Finset.notMem_empty _)) ?_
  have hback : ((j + 1 + (maxCpus - 1)) % maxCpus + 1) % maxCpus = j + 1 := by
    rw [Nat.mod_add_mod, show j + 1 + (maxCpus - 1) + 1 = j + 1 + maxCpus by omega,
      Nat.add_mod_right, Nat.mod_eq_of_lt early]
  simp [nextSetPass, hback]

theorem nextSetExact_early (below : ∀ i ∈ set, i < maxCpus) : NextSetExact maxCpus set j := by
  rcases set.eq_empty_or_nonempty with rfl | hnonempty
  · have hthrows := nextSet_early_empty early
    exact ⟨⟨_, hthrows⟩, fun i hi => by simpa using hi.unique hthrows,
      fun e he => by simpa using he.unique hthrows⟩
  · obtain ⟨i, hfirst⟩ := exists_firstAfter (by omega : j < maxCpus) below hnonempty
    have hreturns := nextSet_early early hfirst
    refine ⟨⟨_, hreturns⟩, fun k hk => ?_, fun e he => by simpa using he.unique hreturns⟩
    obtain rfl : k = i := by simpa using hk.unique hreturns
    exact hfirst

end Early

section Last

-- from the last CPU the loop misses the first one on its way up, and never ends
-- unless it meets a member
variable (last : j + 1 = maxCpus)

include last

theorem pass_last {i : Nat} (free : i ∉ set) :
    nextSetPass maxCpus set j i = .inr ((i + 1) % maxCpus) := by
  have hgoes : (i + 1) % maxCpus ≠ j + 1 := by
    rw [last]
    exact (Nat.mod_lt _ (by omega)).ne
  rw [nextSetPass, if_neg free, if_pos hgoes]

theorem nextSet_last (below : ∀ i ∈ set, i < maxCpus) {d : Nat} (pos : 0 < d)
    (met : d % maxCpus ∈ set) (first : ∀ e, 0 < e → e < d → e % maxCpus ∉ set) :
    NextSet maxCpus set j (.ok (d % maxCpus)) := by
  have hfree : j + 1 ∉ set := fun h => absurd (below _ h) (by omega)
  have hfirst : (j + 1 + 1) % maxCpus = 1 % maxCpus := by
    rw [last, Nat.add_mod_left]
  unfold NextSet
  rw [Loop.returns_inr (pass_last last hfree), hfirst]
  refine Loop.returns_along (f := fun e => (1 + e) % maxCpus) (d := d - 1) (fun e he => ?_) ?_
  · rw [pass_last last (first (1 + e) (by omega) (by omega)), Nat.mod_add_mod]
    rfl
  · have hd : 1 + (d - 1) = d := by omega
    simp only [hd, nextSetPass, if_pos met]

theorem nextSet_last_empty (r : Except Failure Nat) : ¬NextSet maxCpus ∅ j r :=
  Loop.Returns.not_of_forever (I := fun _ => True)
    (fun _ _ => ⟨_, pass_last last (Finset.notMem_empty _), trivial⟩) trivial

theorem exists_nextSet_last (below : ∀ i ∈ set, i < maxCpus) (nonempty : set.Nonempty) :
    ∃ d, 0 < d ∧ d ≤ maxCpus ∧ d % maxCpus ∈ set ∧
      (∀ e, 0 < e → e < d → e % maxCpus ∉ set) ∧ NextSet maxCpus set j (.ok (d % maxCpus)) := by
  obtain ⟨m, hm⟩ := nonempty
  have hlt := below m hm
  have hsome : ∃ d, 0 < d ∧ d ≤ maxCpus ∧ d % maxCpus ∈ set := by
    by_cases hzero : m = 0
    · exact ⟨maxCpus, by omega, le_rfl, by rwa [Nat.mod_self, ← hzero]⟩
    · exact ⟨m, by omega, hlt.le, by rwa [Nat.mod_eq_of_lt hlt]⟩
  classical
  obtain ⟨hpos, hle, hmem⟩ := Nat.find_spec hsome
  have hfirst : ∀ e, 0 < e → e < Nat.find hsome → e % maxCpus ∉ set := fun e epos he hset =>
    Nat.find_min hsome he ⟨epos, by omega, hset⟩
  exact ⟨_, hpos, hle, hmem, hfirst, nextSet_last last below hpos hmem hfirst⟩

theorem nextSetExact_last_iff (below : ∀ i ∈ set, i < maxCpus) :
    NextSetExact maxCpus set j ↔ set.Nonempty ∧ (0 ∈ set → set = {0}) := by
  constructor
  · rintro ⟨⟨r, hr⟩, hok, -⟩
    have hnonempty : set.Nonempty := by
      by_contra hempty
      rw [Finset.not_nonempty_iff_eq_empty] at hempty
      subst hempty
      exact nextSet_last_empty last r hr
    refine ⟨hnonempty, fun hzero => ?_⟩
    obtain ⟨d, dpos, hd, -, hbefore, hreturns⟩ := exists_nextSet_last last below hnonempty
    have hwrap : FirstAfter maxCpus set j 0 :=
      ⟨1, by omega, by omega, by rw [last, Nat.mod_self], hzero, fun e _ _ => by omega⟩
    have hmod : d % maxCpus = 0 := (hok _ hreturns).unique hwrap
    obtain rfl : d = maxCpus := by
      by_contra hne
      rw [Nat.mod_eq_of_lt (by omega)] at hmod
      omega
    ext m
    rw [Finset.mem_singleton]
    refine ⟨fun hm => ?_, fun hm => by rwa [hm]⟩
    by_contra hpos
    have hlt := below m hm
    exact hbefore m (by omega) hlt (by rwa [Nat.mod_eq_of_lt hlt])
  · rintro ⟨hnonempty, hzero⟩
    obtain ⟨d, dpos, hd, hmem, hbefore, hreturns⟩ := exists_nextSet_last last below hnonempty
    refine ⟨⟨_, hreturns⟩, fun i hi => ?_, fun e he => by simpa using he.unique hreturns⟩
    obtain rfl : i = d % maxCpus := by simpa using hi.unique hreturns
    rcases hd.eq_or_lt with rfl | hlt
    · rw [Nat.mod_self] at hmem ⊢
      exact ⟨1, by omega, by omega, by rw [last, Nat.mod_self], hmem, fun e _ _ => by omega⟩
    · have hno : 0 ∉ set := by
        intro h
        rw [hzero h, Finset.mem_singleton, Nat.mod_eq_of_lt hlt] at hmem
        omega
      rw [Nat.mod_eq_of_lt hlt] at hmem ⊢
      refine ⟨d + 1, by omega, by omega, ?_, hmem, fun e epos he hset => ?_⟩
      · rw [show j + (d + 1) = d + maxCpus by omega, Nat.add_mod_right, Nat.mod_eq_of_lt hlt]
      · rw [show j + e = e - 1 + maxCpus by omega, Nat.add_mod_right] at hset
        by_cases hone : e = 1
        · subst hone
          exact hno (by simpa using hset)
        · exact hbefore (e - 1) (by omega) (by omega) hset

end Last

theorem nextSetExact_iff (below : ∀ i ∈ set, i < maxCpus) (hj : j < maxCpus) :
    NextSetExact maxCpus set j ↔
      j + 1 < maxCpus ∨ set.Nonempty ∧ (0 ∈ set → set = {0}) := by
  rcases (show j + 1 ≤ maxCpus from hj).lt_or_eq with early | last
  · simp only [nextSetExact_early early below, early, true_or]
  · rw [nextSetExact_last_iff last below, or_iff_right (by omega)]

theorem lowest_le {l i : Nat} (h : lowest maxCpus set = .ok l) (hi : i ∈ set) : l ≤ i := by
  unfold lowest at h
  split at h
  case h_2 => cases h
  case h_1 hfind =>
    cases h
    by_contra hlt
    obtain ⟨hlow, as, bs, hsplit, hbefore⟩ := List.find?_eq_some_iff_append.mp hfind
    have hmem : i ∈ List.range maxCpus := by
      have hl : l ∈ List.range maxCpus := by simp [hsplit]
      rw [List.mem_range] at hl ⊢
      omega
    rw [hsplit, List.mem_append, List.mem_cons] at hmem
    have hsorted := hsplit ▸ List.pairwise_lt_range (n := maxCpus)
    rw [List.pairwise_append, List.pairwise_cons] at hsorted
    rcases hmem with hmem | rfl | hmem
    · simpa [hi] using hbefore i hmem
    · exact hlt le_rfl
    · exact hlt (hsorted.2.1.1 i hmem).le

theorem isChain_sorted {l : Nat} {rest : List Nat} (below : ∀ i ∈ set, i < maxCpus)
    (sorted : (l :: rest).Pairwise (· < ·)) (members : ∀ i ∈ l :: rest, i ∈ set)
    (all : ∀ i ∈ set, l ≤ i → i ∈ l :: rest) :
    (l :: rest).IsChain fun i k => NextSet maxCpus set i (.ok k) := by
  induction rest generalizing l with
  | nil => exact .singleton l
  | cons k rest ih =>
    obtain ⟨hlt, htail⟩ := List.pairwise_cons.mp sorted
    have hlk : l < k := hlt k List.mem_cons_self
    have hk : k ∈ set := members k (by simp)
    have hleast : ∀ m ∈ set, ¬(l < m ∧ m < k) := by
      rintro m hm ⟨hlm, hmk⟩
      rcases List.mem_cons.mp (all m hm hlm.le) with rfl | hmem
      · exact absurd hlm (lt_irrefl m)
      rcases List.mem_cons.mp hmem with rfl | hmem
      · exact absurd hmk (lt_irrefl m)
      · exact absurd hmk ((List.pairwise_cons.mp htail).1 m hmem).asymm
    have hnext : NextSet maxCpus set l (.ok k) :=
      nextSet_early (by have := below k hk; omega) (firstAfter_up (below k hk) hk hlk hleast)
    refine .cons_cons hnext (ih htail (fun i hi => members i (List.mem_cons_of_mem _ hi))
      fun i hi hki => ?_)
    rcases List.mem_cons.mp (all i hi (by omega)) with rfl | hmem
    · omega
    · exact hmem

theorem le_of_mem_getLast? {xs : List Nat} {z i : Nat} (sorted : xs.Pairwise (· < ·))
    (hz : z ∈ xs.getLast?) (hi : i ∈ xs) : i ≤ z := by
  have hle : xs.Pairwise (· ≤ ·) := sorted.imp le_of_lt
  obtain ⟨hne, rfl⟩ := List.mem_getLast?_eq_getLast hz
  exact hle.rel_getLast hi

theorem visitsInOrder_iff (below : ∀ i ∈ set, i < maxCpus) :
    VisitsInOrder maxCpus set ↔ ∀ l z, l ∈ set → z ∈ set → (∀ i ∈ set, l ≤ i ∧ i ≤ z) →
      NextSet maxCpus set z (.ok l) := by
  constructor
  · intro visits l z hl hz hall
    obtain ⟨m, hm⟩ := lowest_total ⟨l, hl, below l hl⟩
    obtain rfl : m = l := by
      have hle := lowest_le hm hl
      have hge := (hall m (lowest_ok hm).1).1
      omega
    obtain ⟨rest, hsorted, hlists, hchain⟩ := visits m hm
    obtain ⟨y, hy⟩ : ∃ y, y ∈ (m :: rest).getLast? := ⟨_, List.getLast?_cons⟩
    have hyz : y = z := by
      have hle := le_of_mem_getLast? hsorted hy ((hlists z).mpr hz)
      have hge := (hall y ((hlists y).mp (List.mem_of_getLast? hy))).2
      omega
    subst hyz
    exact (List.isChain_append.mp hchain).2.2 y hy m rfl
  · intro closes l hlow
    have hl := (lowest_ok hlow).1
    have hlists : ∀ i, i ∈ l :: (set.erase l).sort ↔ i ∈ set := by
      intro i
      rw [List.mem_cons, Finset.mem_sort, Finset.mem_erase]
      by_cases h : i = l
      · simp [h, hl]
      · simp [h]
    have hsorted : (l :: (set.erase l).sort).Pairwise (· < ·) := by
      refine List.pairwise_cons.mpr ⟨fun i hi => ?_, (Finset.sortedLT_sort _).pairwise⟩
      rw [Finset.mem_sort, Finset.mem_erase] at hi
      exact (lowest_le hlow hi.2).lt_of_ne (Ne.symm hi.1)
    have hchain := isChain_sorted below hsorted (fun i hi => (hlists i).mp hi)
      fun i hi _ => (hlists i).mpr hi
    refine ⟨_, hsorted, hlists, hchain.append (.singleton l) fun z hz k hk => ?_⟩
    obtain rfl : k = l := by simpa using hk.symm
    refine closes k z hl ((hlists z).mp (List.mem_of_getLast? hz)) fun i hi => ?_
    exact ⟨lowest_le hlow hi, le_of_mem_getLast? hsorted hz ((hlists i).mpr hi)⟩

theorem visitsInOrder_iff_zero (below : ∀ i ∈ set, i < maxCpus) :
    VisitsInOrder maxCpus set ↔ (0 ∈ set → maxCpus - 1 ∈ set → set = {0}) := by
  rw [visitsInOrder_iff below]
  constructor
  · intro closes hzero hlast
    have hpos := below 0 hzero
    have hback : NextSet maxCpus set (maxCpus - 1) (.ok 0) :=
      closes 0 (maxCpus - 1) hzero hlast fun i hi => ⟨i.zero_le, by have := below i hi; omega⟩
    obtain ⟨d, dpos, hd, -, hbefore, hreturns⟩ :=
      exists_nextSet_last (by omega : maxCpus - 1 + 1 = maxCpus) below ⟨0, hzero⟩
    have hmod : d % maxCpus = 0 := by simpa using hreturns.unique hback
    have hround : d = maxCpus := by
      by_contra hne
      rw [Nat.mod_eq_of_lt (by omega)] at hmod
      omega
    have hone : maxCpus = 1 := by
      by_contra hne
      exact hbefore (maxCpus - 1) (by omega) (by omega) (by rwa [Nat.mod_eq_of_lt (by omega)])
    ext m
    rw [Finset.mem_singleton]
    refine ⟨fun hm => ?_, fun hm => by rwa [hm]⟩
    have := below m hm
    omega
  · intro hends l z hl hz hall
    have hlz := hall z hz
    have hlt := below z hz
    have hexact : NextSetExact maxCpus set z := by
      rw [nextSetExact_iff below hlt]
      by_cases early : z + 1 < maxCpus
      · exact .inl early
      · exact .inr ⟨⟨z, hz⟩, fun hzero => hends hzero (by rwa [show maxCpus - 1 = z by omega])⟩
    have hround : FirstAfter maxCpus set z l :=
      firstAfter_round hlt hl hlz.1 (fun m hm => (hall m hm).2) fun m hm => (hall m hm).1
    obtain ⟨⟨r, hr⟩, hok, herror⟩ := hexact
    cases r with
    | ok i => rwa [← (hok i hr).unique hround]
    | error e => simp [(herror e hr).2] at hl

/-- `next_set` is exact, apart from the last CPU: there the set must have a member, and
0 may be a member only alone. The members are visited in order unless the first and
the last CPU are both members. -/
theorem next_set_exact_iff (maxCpus : Nat) (set : CpuSet) (below : ∀ i ∈ set, i < maxCpus) :
    (∀ j < maxCpus, NextSetExact maxCpus set j ↔
      j + 1 < maxCpus ∨ set.Nonempty ∧ (0 ∈ set → set = {0})) ∧
    (VisitsInOrder maxCpus set ↔ (0 ∈ set → maxCpus - 1 ∈ set → set = {0})) :=
  ⟨fun _ hj => nextSetExact_iff below hj, visitsInOrder_iff_zero below⟩

theorem next_set_exact_single :
    NextSetExact 64 {0} 63 ∧ NextSetExact 64 {0, 5, 63} 62 ∧ VisitsInOrder 64 {0, 5} := by
  refine ⟨?_, ?_, ?_⟩
  · exact ((next_set_exact_iff 64 {0} (by decide)).1 63 (by decide)).mpr
      (.inr ⟨⟨0, by decide⟩, fun _ => rfl⟩)
  · exact ((next_set_exact_iff 64 {0, 5, 63} (by decide)).1 62 (by decide)).mpr (.inl (by decide))
  · exact (next_set_exact_iff 64 {0, 5} (by decide)).2.mpr fun _ h => absurd h (by decide)

/-- From the last CPU of all, an empty set is searched for ever, and CPU 0 is passed over. -/
theorem next_set_passes_over :
    ¬∀ maxCpus : Nat, 1 ≤ maxCpus → ∀ set : CpuSet, (∀ i ∈ set, i < maxCpus) →
      (∀ j < maxCpus, NextSetExact maxCpus set j) ∧ VisitsInOrder maxCpus set := by
  intro claim
  have hexact := (claim 64 (by decide) {0, 1} (by decide)).1 63 (by decide)
  have hone : NextSet 64 {0, 1} 63 (.ok 1) := ⟨2, by decide⟩
  have hzero : FirstAfter 64 {0, 1} 63 0 := ⟨1, by decide, by decide, by decide, by decide,
    fun e _ _ => by omega⟩
  exact absurd ((hexact.2.1 1 hone).unique hzero) (by decide)

end DemosSched.CpuSet
