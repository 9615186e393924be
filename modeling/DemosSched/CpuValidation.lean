import DemosSched.CpuItems

/-! When `cpulist_parse`, as the configuration uses it to check a list of CPUs, comes to
an end and takes the list for what it says. The condition is on the text and its numbers. -/

namespace DemosSched

namespace CpuList

/-- The text up to a comma is this item, with numbers that can be read. -/
structure Reads (seg : List Char) (i : Loose) : Prop where
  spaced : i.Spaced
  text : i.text = seg
  legible : i.item.Legible

/-- A list is refused for an item that cannot be read, or for what follows the last
number, if no item before that is endless. -/
inductive Refused : List (List Char) → Prop
  | unreadable {seg : List Char} {segs : List (List Char)} (none : ∀ i, ¬ Reads seg i) :
      Refused (seg :: segs)
  | stray {seg : List Char} {i : Loose} (reads : Reads seg i)
      (finite : ¬ i.item.bounds.Endless) (tail : i.tail ≠ []) : Refused [seg]
  | next {seg : List Char} {segs : List (List Char)} {i : Loose} (reads : Reads seg i)
      (finite : ¬ i.item.bounds.Endless) (rest : Refused segs) : Refused (seg :: segs)

theorem Reads.range_eq {seg rest : List Char} {i : Loose} (h : Reads seg i) (atEnd : AtEnd rest) :
    range (seg ++ rest) = some (i.item.bounds.wrapped, i.tail ++ rest) := by
  rw [← h.text, range_loose h.spaced atEnd, if_pos h.legible]

theorem exists_reads {seg rest : List Char} (noComma : ',' ∉ seg) (atEnd : AtEnd rest)
    (read : range (seg ++ rest) ≠ none) : ∃ i, Reads seg i := by
  obtain ⟨i, hspaced, rfl⟩ := exists_loose noComma atEnd read
  refine ⟨i, hspaced, rfl, ?_⟩
  by_contra hillegible
  exact read (by rw [range_loose hspaced atEnd, if_neg hillegible])

theorem comma_induction {motive : List Char → Prop}
    (last : ∀ seg, ',' ∉ seg → motive seg)
    (more : ∀ seg rest, ',' ∉ seg → motive rest → motive (seg ++ ',' :: rest))
    (str : List Char) : motive str := by
  induction hn : str.length using Nat.strong_induction_on generalizing str with
  | _ n ih =>
    by_cases hcomma : ',' ∈ str
    · obtain ⟨seg, rest, rfl, hseg⟩ := List.eq_append_cons_of_mem hcomma
      refine more seg rest hseg (ih rest.length ?_ rest rfl)
      rw [← hn, List.length_append, List.length_cons]
      omega
    · exact last str hcomma

theorem tokens_comma {seg : List Char} (noComma : ',' ∉ seg) (rest : List Char) :
    tokens (seg ++ ',' :: rest) = rest :: tokens rest := by
  rw [tokens_skip noComma, tokens, if_pos rfl]

theorem refused_cons {seg : List Char} {segs : List (List Char)} (noComma : ',' ∉ seg)
    (rest : List Char) (atEnd : AtEnd rest) : Refused (seg :: segs) ↔ range (seg ++ rest) = none ∨
      ∃ r tail, range (seg ++ rest) = some (r, tail ++ rest) ∧ r.Ends ∧
        (segs = [] ∧ tail ≠ [] ∨ Refused segs) := by
  constructor
  · intro h
    cases h with
    | unreadable none =>
      left
      by_contra hread
      obtain ⟨i, hi⟩ := exists_reads noComma atEnd hread
      exact none i hi
    | stray reads finite tail =>
      exact .inr ⟨_, _, reads.range_eq atEnd, (Range.ends_wrapped_iff _).mpr finite,
        .inl ⟨rfl, tail⟩⟩
    | next reads finite more =>
      exact .inr ⟨_, _, reads.range_eq atEnd, (Range.ends_wrapped_iff _).mpr finite, .inr more⟩
  · rintro (hnone | ⟨r, tail, hread, hends, hmore⟩)
    · refine .unreadable fun i hi => ?_
      rw [hi.range_eq atEnd] at hnone
      cases hnone
    · obtain ⟨i, hi⟩ := exists_reads noComma atEnd (by simp [hread])
      rw [hi.range_eq atEnd, Option.some.injEq, Prod.mk.injEq, List.append_left_inj] at hread
      obtain ⟨rfl, rfl⟩ := hread
      have hfinite := (Range.ends_wrapped_iff _).mp hends
      obtain ⟨rfl, htail⟩ | hrefused := hmore
      · exact .stray hi hfinite htail
      · exact .next hi hfinite hrefused

theorem rejected_cons {p : List Char} {ps : List (List Char)} (more : ps ≠ []) :
    Rejected (p :: ps) ↔ range p = none ∨ Rejected ps := by
  obtain ⟨q, qs, rfl⟩ := List.exists_cons_of_ne_nil more
  rw [Rejected, Rejected, List.exists_mem_cons_iff, List.getLast?_cons_cons, or_assoc]

theorem rangesEnd_cons {p stop : List Char} {ps : List (List Char)} {r : Range}
    (read : range p = some (r, stop)) : RangesEnd (p :: ps) ↔ r.Ends ∧ RangesEnd ps := by
  simp [RangesEnd, read]

theorem refused_iff (str : List Char) : Refused (str.splitOn ',') ↔
    RangesEnd (str :: tokens str) ∧ Rejected (str :: tokens str) := by
  induction str using comma_induction with
  | last seg noComma =>
    have htokens : tokens seg = [] := by simpa [tokens] using tokens_skip noComma []
    have hnil : ¬ Refused [] := by rintro ⟨⟩
    rw [List.splitOn_eq_singleton noComma, htokens,
      refused_cons noComma [] (by simp [AtEnd])]
    cases hread : range seg with
    | none => simp [hread, RangesEnd, Rejected]
    | some read =>
      obtain ⟨r, stop⟩ := read
      simp [hread, RangesEnd, Rejected, hnil]
  | more seg rest noComma ih =>
    rw [List.splitOn_append_cons_self_of_not_mem noComma, tokens_comma noComma,
      refused_cons noComma (',' :: rest) (by simp [AtEnd]), ih,
      rejected_cons (List.cons_ne_nil _ _)]
    have hne : rest.splitOn ',' ≠ [] := List.splitOn_ne_nil _ _
    by_cases hread : range (seg ++ ',' :: rest) = none
    · simp [hread, RangesEnd]
    · obtain ⟨i, hi⟩ := exists_reads noComma (by simp [AtEnd]) hread
      have hrange := hi.range_eq (show AtEnd (',' :: rest) by simp [AtEnd])
      rw [rangesEnd_cons hrange, hrange]
      simp only [hne, false_and, false_or, Option.some.injEq, Prod.mk.injEq, reduceCtorEq, and_assoc]
      constructor
      · rintro ⟨r, tail, rfl, -, hends, hrest⟩
        exact ⟨hends, hrest⟩
      · rintro ⟨hends, hrest⟩
        exact ⟨_, i.tail, rfl, rfl, hends, hrest⟩

theorem RangesEnd.ends {ps : List (List Char)} (h : RangesEnd ps)
    (readable : ∀ p ∈ ps, range p ≠ none) {p stop : List Char} {r : Range} (mem : p ∈ ps)
    (read : range p = some (r, stop)) : r.Ends := by
  induction ps with
  | nil => cases mem
  | cons q qs ih =>
    obtain ⟨⟨r', stop'⟩, hq⟩ := Option.ne_none_iff_exists'.mp (readable q List.mem_cons_self)
    obtain ⟨hends, hrest⟩ := h r' stop' hq
    rcases List.mem_cons.mp mem with rfl | mem
    · rw [read] at hq
      cases hq
      exact hends
    · exact ih hrest (fun p hp => readable p (List.mem_cons_of_mem _ hp)) mem

theorem mem_suffixes {items : List Item} {i : Item} (mem : i ∈ items) :
    ∃ is, text (i :: is) ∈ suffixes items := by
  induction items with
  | nil => cases mem
  | cons j items ih =>
    rcases List.mem_cons.mp mem with rfl | mem
    · exact ⟨items, List.mem_cons_self⟩
    · obtain ⟨is, his⟩ := ih mem
      exact ⟨is, List.mem_cons_of_mem _ his⟩

theorem splitOn_text {items : List Item} (nonempty : items ≠ []) :
    (text items).splitOn ',' = items.map Item.text := by
  have hcomma : ∀ i : Item, ',' ∉ i.text := fun i => i.notMem_text rfl (by decide) (by decide)
  induction items with
  | nil => exact absurd rfl nonempty
  | cons i items ih =>
    cases items with
    | nil => exact List.splitOn_eq_singleton (hcomma i)
    | cons j items =>
      have htext : text (i :: j :: items) = i.text ++ ',' :: text (j :: items) := rfl
      rw [htext, List.splitOn_append_cons_self_of_not_mem (hcomma i), ih (List.cons_ne_nil _ _)]
      rfl

end CpuList

open CpuList

/-- The parts of the list between commas, up to its first NUL. -/
def CpuSet.segments (cpulist : String) : List (List Char) :=
  (cpulist.toList.takeWhile (· != '\x00')).splitOn ','

/-- The reading of the list ends, and it is accepted only as a list of well
formed items, with the CPUs they list below the capacity. -/
structure ParsedExactly (maxCpus : Nat) (cpulist : String) (allCpus : CpuSet) : Prop where
  ends : parseCpuSet maxCpus cpulist allCpus ≠ .error .diverges
  exact : ∀ set, parseCpuSet maxCpus cpulist allCpus = .ok set →
    cpulist = "all" ∧ set = allCpus ∨
      ∃ items ≠ [], cpulist.toList = text items ∧ (∀ i ∈ items, i.bounds.WellFormed) ∧
        ∀ x, x ∈ set ↔ x < CpuSet.capacity maxCpus ∧ ∃ i ∈ items, i.bounds.Lists x

/-- The list is `all`, or refused, or it is written with well formed items whose count
goes past the last CPU before it wraps. -/
def Sound (cpulist : String) : Prop :=
  cpulist = "all" ∨ Refused (CpuSet.segments cpulist) ∨
    ∃ items ≠ [], cpulist.toList = text items ∧ ∀ i ∈ items, i.bounds.WellFormed ∧ i.bounds.Fits

/-- No item that can be read wraps and still comes to an end. -/
def Unwrapped (cpulist : String) : Prop :=
  ∀ seg ∈ CpuSet.segments cpulist, ∀ i, Reads seg i → i.item.bounds.Fits ∨ i.item.bounds.Endless

theorem CpuSet.refused_segments {cpulist : String} : Refused (segments cpulist) ↔
    RangesEnd (starts cpulist) ∧ Rejected (starts cpulist) := refused_iff _

theorem CpuSet.ofList_text (maxCpus : Nat) {cpulist : String} {items : List Item}
    (nonempty : items ≠ []) (written : cpulist.toList = text items)
    (ends : RangesEnd (starts cpulist)) (accepted : ¬ Rejected (starts cpulist)) :
    ∃ set, ofList maxCpus cpulist = .ok set ∧ ∀ x, x ∈ set ↔
      x < capacity maxCpus ∧ ∃ i ∈ items, i.bounds.wrapped.Reaches x := by
  obtain ⟨set, hok, hset⟩ := ofList_ok maxCpus ends accepted
  have hreadable : ∀ p ∈ suffixes items, range p ≠ none := by
    rw [← starts_text nonempty written]
    exact fun p hp hnone => accepted (.inl ⟨p, hp, hnone⟩)
  refine ⟨set, hok, fun x => ?_⟩
  rw [hset, starts_text nonempty written, reached_suffixes hreadable]

theorem parsedExactly_of_sound (maxCpus : Nat) {cpulist : String} (allCpus : CpuSet)
    (sound : Sound cpulist) : ParsedExactly maxCpus cpulist allCpus := by
  by_cases hall : cpulist = "all"
  · have hparse : parseCpuSet maxCpus cpulist allCpus = .ok allCpus := if_pos hall
    refine ⟨by simp [hparse], fun set hset => .inl ⟨hall, ?_⟩⟩
    rw [hparse, Except.ok.injEq] at hset
    exact hset.symm
  have hparse : parseCpuSet maxCpus cpulist allCpus = CpuSet.ofList maxCpus cpulist := if_neg hall
  rcases sound with habs | hrefused | ⟨items, hne, hwritten, hfit⟩
  · exact absurd habs hall
  · obtain ⟨hends, hrejected⟩ := CpuSet.refused_segments.mp hrefused
    have herror := CpuSet.ofList_error maxCpus hends hrejected
    exact ⟨by simp [hparse, herror], by simp [hparse, herror]⟩
  · obtain ⟨hends, haccepted⟩ := suffixes_read hfit
    rw [← CpuSet.starts_text hne hwritten] at hends haccepted
    obtain ⟨set, hok, hset⟩ := CpuSet.ofList_text maxCpus hne hwritten hends haccepted
    refine ⟨by simp [hparse, hok], fun set' hset' => .inr ⟨items, hne, hwritten,
      fun i hi => (hfit i hi).1, fun x => ?_⟩⟩
    rw [hparse, hok, Except.ok.injEq] at hset'
    subst hset'
    rw [hset]
    refine and_congr_right fun _ => exists_congr fun i => and_congr_right fun hi => ?_
    obtain ⟨hwell, hfits⟩ := hfit i hi
    rw [hfits.wrapped hwell, hfits.reaches_iff hwell]

theorem CpuSet.segments_text {cpulist : String} {items : List Item} (nonempty : items ≠ [])
    (written : cpulist.toList = text items) : segments cpulist = items.map Item.text := by
  have hnone : '\x00' ∉ text items := notMem_text rfl (by decide) (by decide) (by decide) _
  rw [segments, written, takeWhile_nul hnone, splitOn_text nonempty]

theorem sound_of_parsedExactly {maxCpus : Nat} {cpulist : String} {allCpus : CpuSet}
    (unwrapped : Unwrapped cpulist) (h : ParsedExactly maxCpus cpulist allCpus) :
    Sound cpulist := by
  by_cases hall : cpulist = "all"
  · exact .inl hall
  have hparse : parseCpuSet maxCpus cpulist allCpus = CpuSet.ofList maxCpus cpulist := if_neg hall
  have hends : RangesEnd (CpuSet.starts cpulist) := by
    by_contra hendless
    exact h.ends (by rw [hparse, CpuSet.ofList_diverges hendless])
  by_cases hrejected : Rejected (CpuSet.starts cpulist)
  · exact .inr (.inl (CpuSet.refused_segments.mpr ⟨hends, hrejected⟩))
  obtain ⟨set, hok, -⟩ := CpuSet.ofList_ok maxCpus hends hrejected
  obtain ⟨habs, -⟩ | ⟨items, hne, hwritten, hwell, -⟩ := h.exact set (hparse ▸ hok)
  · exact absurd habs hall
  refine .inr (.inr ⟨items, hne, hwritten, fun i hi => ⟨hwell i hi, ?_⟩⟩)
  have hreadable : ∀ p ∈ suffixes items, range p ≠ none := by
    rw [← CpuSet.starts_text hne hwritten]
    exact fun p hp hnone => hrejected (.inl ⟨p, hp, hnone⟩)
  rw [CpuSet.starts_text hne hwritten] at hends
  obtain ⟨is, hmem⟩ := mem_suffixes hi
  have hread := range_suffix i is
  have hlegible : i.Legible := by
    by_contra hnot
    exact hreadable _ hmem (by rw [hread, if_neg hnot])
  rw [if_pos hlegible] at hread
  have hfinite := (Range.ends_wrapped_iff _).mp (hends.ends hreadable hmem hread)
  have hreads : Reads i.text i.loose := ⟨i.loose_spaced, i.loose_text, by rwa [i.loose_item]⟩
  have hseg : i.text ∈ CpuSet.segments cpulist := by
    rw [CpuSet.segments_text hne hwritten]
    exact List.mem_map_of_mem hi
  have hunwrapped := unwrapped _ hseg _ hreads
  rw [i.loose_item] at hunwrapped
  exact hunwrapped.resolve_right hfinite

/-- A list that is sound is parsed exactly, and of those without an item that wraps and
ends no others are. -/
theorem parsed_exactly_iff (maxCpus : Nat) (cpulist : String) (allCpus : CpuSet) :
    (Sound cpulist → ParsedExactly maxCpus cpulist allCpus) ∧
      (ParsedExactly maxCpus cpulist allCpus → Unwrapped cpulist → Sound cpulist) :=
  ⟨parsedExactly_of_sound maxCpus allCpus, fun h unwrapped => sound_of_parsedExactly unwrapped h⟩

def digit (d : Char) (h : d.isDigit = true) : Numeral := ⟨[d], by simp, by simpa using h⟩

/-- `0-2,3-9:4` -/
theorem parsed_exactly_strided : ParsedExactly 64 "0-2,3-9:4" ∅ :=
  (parsed_exactly_iff 64 "0-2,3-9:4" ∅).1 (.inr (.inr
    ⟨[.range (digit '0' rfl) (digit '2' rfl),
      .strided (digit '3' rfl) (digit '9' rfl) (digit '4' rfl)], by simp, rfl, by decide⟩))

/-- The CPUs up to the largest `unsigned int` are never passed. -/
theorem parsed_exactly_endless :
    ¬ ∀ maxCpus cpulist allCpus, ParsedExactly maxCpus cpulist allCpus := by
  intro h
  have hread : range "0-4294967295".toList = some (⟨0, 4294967295, 1⟩, []) := rfl
  have hendless : ¬ RangesEnd (CpuSet.starts "0-4294967295") := by
    intro hends
    obtain ⟨k, hk⟩ := (hends _ _ hread).1
    have hlt : Range.count ⟨0, 4294967295, 1⟩ k < 2 ^ 32 := Nat.mod_lt _ (by decide)
    exact absurd (Nat.lt_of_lt_of_le hk (Nat.le_of_lt_succ hlt)) (Nat.lt_irrefl _)
  refine (h 64 "0-4294967295" ∅).ends ?_
  rw [parseCpuSet, if_neg (by decide), CpuSet.ofList_diverges hendless]

end DemosSched
