import Mathlib.Data.List.TakeWhile
import DemosSched.CpuCount

/-! What `cpulist_parse` makes of a list of CPU ranges. An item is read up to the next
sign that goes on with it: text between a number and that sign is passed over. -/

namespace DemosSched

namespace CpuList

variable {capacity : Nat}

theorem nextnumber_small {p stop : List Char} {n : Nat} (h : nextnumber p = some (n, stop)) :
    n < 2 ^ 32 := by
  unfold nextnumber at h
  split at h
  · cases h
  · split at h
    · cases h
      exact Nat.mod_lt _ (by decide)
    · cases h

theorem range_small {p stop : List Char} {r : Range} (h : range p = some (r, stop)) :
    r.first < 2 ^ 32 := by
  simp only [range, Option.bind_eq_bind, Option.bind_eq_some_iff] at h
  obtain ⟨⟨a, rest⟩, ha, h⟩ := h
  have hsmall := nextnumber_small ha
  split at h
  · cases h
    exact hsmall
  · simp only [Option.bind_eq_some_iff] at h
    obtain ⟨⟨b, rest'⟩, -, ⟨s, stop'⟩, -, h⟩ := h
    split at h
    · cases h
      exact hsmall
    · cases h

def RangesEnd : List (List Char) → Prop
  | [] => True
  | p :: ps => ∀ r stop, range p = some (r, stop) → r.Ends ∧ RangesEnd ps

/-- An item cannot be read, or something follows the numbers of the last one. -/
def Rejected (ps : List (List Char)) : Prop :=
  (∃ p ∈ ps, range p = none) ∨
    ∃ p ∈ ps.getLast?, ∃ r stop, range p = some (r, stop) ∧ stop ≠ []

theorem setRange_some (st : CpuSet × List Char) {p stop : List Char} {r : Range}
    (read : range p = some (r, stop)) (ends : r.Ends) :
    ∃ set', setRange capacity st p = .ok (set', stop) ∧
      ∀ x, x ∈ set' ↔ x ∈ st.1 ∨ x < capacity ∧ r.Reaches x := by
  have hsmall := range_small read
  obtain ⟨k, hk, hlast⟩ := ends.bounded
  obtain ⟨set', hset⟩ :=
    setBits_total capacity st.1 hsmall hlast (Nat.lt_succ_of_lt hk)
  refine ⟨set', ?_, (setBits_some hsmall hset).2⟩
  simp only [setRange, read, hset]

theorem setRange_diverges (st : CpuSet × List Char) {p stop : List Char} {r : Range}
    (read : range p = some (r, stop)) (endless : ¬ r.Ends) :
    setRange capacity st p = .error (some .diverges) := by
  cases hset : setBits capacity r.last r.stride (2 ^ 32 + 1) r.first st.1 with
  | some set' => exact absurd (setBits_some (range_small read) hset).1 endless
  | none => simp only [setRange, read, hset]

def Reached (ps : List (List Char)) (x : Nat) : Prop :=
  ∃ p ∈ ps, ∃ r stop, range p = some (r, stop) ∧ r.Reaches x

theorem reached_cons {p stop : List Char} {r : Range} (read : range p = some (r, stop))
    (ps : List (List Char)) (x : Nat) : Reached (p :: ps) x ↔ r.Reaches x ∨ Reached ps x := by
  simp [Reached, read]

theorem loop_diverges {ps : List (List Char)} (endless : ¬ RangesEnd ps)
    (st : CpuSet × List Char) : ps.foldlM (setRange capacity) st = .error (some .diverges) := by
  induction ps generalizing st with
  | nil => exact absurd trivial endless
  | cons p ps ih =>
    rw [RangesEnd] at endless
    push Not at endless
    obtain ⟨r, stop, read, hrest⟩ := endless
    rw [List.foldlM_cons]
    by_cases ends : r.Ends
    · obtain ⟨set', hstep, -⟩ := setRange_some st read ends
      rw [hstep]
      exact ih (hrest ends) _
    · rw [setRange_diverges st read ends]
      rfl

theorem loop_error {ps : List (List Char)} (ends : RangesEnd ps)
    (unreadable : ∃ p ∈ ps, range p = none) (st : CpuSet × List Char) :
    ps.foldlM (setRange capacity) st = .error none := by
  induction ps generalizing st with
  | nil => simp at unreadable
  | cons p ps ih =>
    rw [List.foldlM_cons]
    cases read : range p with
    | none =>
      simp only [setRange, read]
      rfl
    | some range =>
      obtain ⟨hends, hrest⟩ := ends _ _ read
      obtain ⟨set', hstep, -⟩ := setRange_some st read hends
      rw [hstep]
      refine ih hrest ?_ _
      rcases List.exists_mem_cons_iff .. |>.mp unreadable with hnone | h
      · rw [read] at hnone
        cases hnone
      · exact h

theorem loop_ok (capacity : Nat) {ps : List (List Char)} (ends : RangesEnd ps)
    (readable : ∀ p ∈ ps, range p ≠ none) (st : CpuSet × List Char) :
    ∃ set stop, ps.foldlM (setRange capacity) st = .ok (set, stop) ∧
      (∀ x, x ∈ set ↔ x ∈ st.1 ∨ x < capacity ∧ Reached ps x) ∧
      ∀ p ∈ ps.getLast?, ∃ r, range p = some (r, stop) := by
  induction ps generalizing st with
  | nil => exact ⟨st.1, st.2, rfl, by simp [Reached], by simp⟩
  | cons p ps ih =>
    obtain ⟨⟨r, stop⟩, read⟩ := Option.ne_none_iff_exists'.mp (readable p List.mem_cons_self)
    obtain ⟨hends, hrest⟩ := ends r stop read
    obtain ⟨set₁, hstep, hset₁⟩ := setRange_some st read hends
    obtain ⟨set₂, stop₂, hrun, hset₂, hlast⟩ :=
      ih hrest (fun p hp => readable p (List.mem_cons_of_mem _ hp)) (set₁, stop)
    refine ⟨set₂, stop₂, ?_, fun x => ?_, ?_⟩
    · rw [List.foldlM_cons, hstep]
      exact hrun
    · rw [hset₂, hset₁, reached_cons read]
      tauto
    · cases ps with
      | nil =>
        cases hrun
        simp [read]
      | cons q ps => simpa using hlast

theorem cpulistParse_diverges {str : List Char} (endless : ¬ RangesEnd (str :: tokens str)) :
    cpulistParse capacity str = .error (some .diverges) := by
  rw [cpulistParse, loop_diverges endless]
  rfl

theorem cpulistParse_error {str : List Char} (ends : RangesEnd (str :: tokens str))
    (rejected : Rejected (str :: tokens str)) : cpulistParse capacity str = .error none := by
  by_cases unreadable : ∃ p ∈ str :: tokens str, range p = none
  · rw [cpulistParse, loop_error ends unreadable]
    rfl
  · push Not at unreadable
    obtain ⟨set, stop, hrun, -, hlast⟩ := loop_ok capacity ends unreadable (∅, [])
    obtain hnone | ⟨p, hp, r, rest, read, hne⟩ := rejected
    · obtain ⟨p, hp, hnone⟩ := hnone
      exact absurd hnone (unreadable p hp)
    · obtain ⟨r', hread⟩ := hlast p hp
      rw [read] at hread
      cases hread
      rw [cpulistParse, hrun]
      exact if_neg hne

theorem cpulistParse_ok (capacity : Nat) {str : List Char} (ends : RangesEnd (str :: tokens str))
    (accepted : ¬ Rejected (str :: tokens str)) :
    ∃ set, cpulistParse capacity str = .ok set ∧
      ∀ x, x ∈ set ↔ x < capacity ∧ Reached (str :: tokens str) x := by
  rw [Rejected, not_or] at accepted
  obtain ⟨hreadable, hstop⟩ := accepted
  push Not at hreadable hstop
  obtain ⟨set, stop, hrun, hset, hlast⟩ := loop_ok capacity ends hreadable (∅, [])
  refine ⟨set, ?_, by simpa using hset⟩
  obtain ⟨p, hp⟩ : ∃ p, (str :: tokens str).getLast? = some p := ⟨_, List.getLast?_cons⟩
  obtain ⟨r, read⟩ := hlast p hp
  rw [cpulistParse, hrun]
  exact if_pos (hstop p hp r stop read)

structure Numeral where
  digits : List Char
  nonempty : digits ≠ []
  isDigit : ∀ d ∈ digits, d.isDigit = true

def Numeral.value (n : Numeral) : Nat := n.digits.foldl (fun n d => 10 * n + (d.toNat - 48)) 0

/-- `N`, `N-M` or `N-M:S`. -/
inductive Item
  | single (n : Numeral)
  | range (n m : Numeral)
  | strided (n m s : Numeral)

namespace Item

def text : Item → List Char
  | single n => n.digits
  | range n m => n.digits ++ '-' :: m.digits
  | strided n m s => n.digits ++ '-' :: (m.digits ++ ':' :: s.digits)

def numerals : Item → List Numeral
  | single n => [n]
  | range n m => [n, m]
  | strided n m s => [n, m, s]

def bounds : Item → Range
  | single n => ⟨n.value, n.value, 1⟩
  | range n m => ⟨n.value, m.value, 1⟩
  | strided n m s => ⟨n.value, m.value, s.value⟩

end Item

def text : List Item → List Char
  | [] => []
  | [i] => i.text
  | i :: items => i.text ++ ',' :: text items

def suffixes : List Item → List (List Char)
  | [] => []
  | i :: items => text (i :: items) :: suffixes items

theorem Numeral.notMem {n : Numeral} {d : Char} (h : d.isDigit = false) : d ∉ n.digits :=
  fun hmem => by simp [n.isDigit d hmem] at h

theorem strtoul_numeral (n : Numeral) {rest : List Char}
    (stop : ∀ d ∈ rest.head?, d.isDigit = false) :
    strtoul (n.digits ++ rest) = (n.value, rest) := by
  have hrest : rest.takeWhile Char.isDigit = [] ∧ rest.dropWhile Char.isDigit = rest := by
    cases rest with
    | nil => simp
    | cons d rest =>
      have hd : d.isDigit = false := stop d rfl
      simp [hd]
  rw [strtoul, List.takeWhile_append_of_pos n.isDigit, List.dropWhile_append_of_pos n.isDigit,
    hrest.1, hrest.2, List.append_nil]
  rfl

theorem nextnumber_numeral (n : Numeral) {rest : List Char}
    (stop : ∀ d ∈ rest.head?, d.isDigit = false) :
    nextnumber (n.digits ++ rest) =
      if n.value < 2 ^ 64 then some (n.value % 2 ^ 32, rest) else none := by
  obtain ⟨d, ds, hds⟩ := List.exists_cons_of_ne_nil n.nonempty
  have hread := strtoul_numeral n stop
  have hd : d.isDigit = true := n.isDigit d (by simp [hds])
  rw [hds, List.cons_append] at hread ⊢
  simp only [nextnumber, hread, hd, Bool.true_and, decide_eq_true_eq]

theorem nexttoken_skip {u : List Char} {sep : Char} (notMem : sep ∉ u) (v : List Char) :
    nexttoken (u ++ v) sep = nexttoken v sep := by
  rw [nexttoken, List.dropWhile_append_of_pos, nexttoken]
  intro d hd
  rw [bne_iff_ne]
  rintro rfl
  exact notMem hd

theorem nexttoken_cons (sep : Char) (v : List Char) : nexttoken (sep :: v) sep = some v := by
  simp [nexttoken]

theorem nexttoken_length {q v : List Char} {sep : Char} (h : nexttoken q sep = some v) :
    v.length < q.length := by
  unfold nexttoken at h
  split at h
  case h_1 => cases h
  case h_2 d rest hdrop =>
    cases h
    have hle := (List.dropWhile_suffix (· != sep) (l := q)).length_le
    rw [hdrop] at hle
    exact hle

/-- The end of an item: that of the list or a comma. -/
def AtEnd (rest : List Char) : Prop := ∀ d ∈ rest.head?, d = ','

/-- Text between a number and the sign that the scanner looks for next. -/
structure Gap (sep : Char) (u : List Char) : Prop where
  notDigit : ∀ d ∈ u.head?, d.isDigit = false
  noComma : ',' ∉ u
  noSign : sep ∉ u

theorem AtEnd.notDigit {rest : List Char} (h : AtEnd rest) :
    ∀ d ∈ rest.head?, d.isDigit = false := by
  intro d hd
  rw [h d hd]
  rfl

theorem notDigit_append {u v : List Char} (left : ∀ d ∈ u.head?, d.isDigit = false)
    (right : ∀ d ∈ v.head?, d.isDigit = false) : ∀ d ∈ (u ++ v).head?, d.isDigit = false := by
  cases u with
  | nil => exact right
  | cons d u => exact left

theorem Gap.of_append {sep : Char} {gap u : List Char}
    (notDigit : ∀ d ∈ (gap ++ u).head?, d.isDigit = false) (noComma : ',' ∉ gap)
    (noSign : sep ∉ gap) : Gap sep gap := by
  refine ⟨fun d hd => notDigit d ?_, noComma, noSign⟩
  cases gap with
  | nil => cases hd
  | cons d gap => exact hd

theorem before_found {u v rest : List Char} {sep : Char} (noSign : sep ∉ u) :
    before (nexttoken (u ++ sep :: (v ++ rest)) sep) (nexttoken rest ',') = some (v ++ rest) := by
  rw [nexttoken_skip noSign, nexttoken_cons, before, Option.filter_some, if_pos]
  cases h : nexttoken rest ',' with
  | none => rfl
  | some w =>
    have hlt := nexttoken_length h
    simp only [Option.all_some, List.length_append, decide_eq_true_eq]
    omega

theorem before_missing {u rest : List Char} (atEnd : AtEnd rest) {sep : Char} (noSign : sep ∉ u)
    (ne : sep ≠ ',') : before (nexttoken (u ++ rest) sep) (nexttoken rest ',') = none := by
  rw [nexttoken_skip noSign]
  cases rest with
  | nil => rfl
  | cons d rest =>
    cases (show d = ',' from atEnd d rfl)
    have hskip : nexttoken (',' :: rest) sep = nexttoken rest sep :=
      nexttoken_skip (u := [',']) (by simpa using ne) rest
    rw [hskip, nexttoken_cons, before]
    cases h : nexttoken rest sep with
    | none => rfl
    | some v =>
      have hlt := nexttoken_length h
      rw [Option.filter_some, if_neg]
      simp only [Option.all_some, decide_eq_true_eq]
      omega

/-- An item as the scanner takes it: the last number may be followed by anything, and
the others by anything in front of the sign. -/
inductive Loose
  | single (n : Numeral) (tail : List Char)
  | range (n : Numeral) (gap : List Char) (m : Numeral) (tail : List Char)
  | strided (n : Numeral) (gap : List Char) (m : Numeral) (gap' : List Char) (s : Numeral)
      (tail : List Char)

namespace Loose

def item : Loose → Item
  | single n _ => .single n
  | range n _ m _ => .range n m
  | strided n _ m _ s _ => .strided n m s

def tail : Loose → List Char
  | single _ tail | range _ _ _ tail | strided _ _ _ _ _ tail => tail

def text : Loose → List Char
  | single n tail => n.digits ++ tail
  | range n gap m tail => n.digits ++ (gap ++ '-' :: (m.digits ++ tail))
  | strided n gap m gap' s tail =>
    n.digits ++ (gap ++ '-' :: (m.digits ++ (gap' ++ ':' :: (s.digits ++ tail))))

def Spaced : Loose → Prop
  | single _ tail => Gap '-' tail
  | range _ gap _ tail => Gap '-' gap ∧ Gap ':' tail
  | strided _ gap _ gap' _ tail => Gap '-' gap ∧ Gap ':' gap' ∧ Gap ',' tail

end Loose

/-- The numbers of the item fit in an `unsigned long`, and as `unsigned int` they
are a range. -/
def Item.Legible (i : Item) : Prop :=
  (∀ n ∈ i.numerals, n.value < 2 ^ 64) ∧ i.bounds.wrapped.WellFormed

instance (i : Item) : Decidable i.Legible :=
  inferInstanceAs (Decidable (_ ∧ _ ∧ _))

theorem range_single (n : Numeral) {tail rest : List Char} (gap : Gap '-' tail)
    (atEnd : AtEnd rest) : range (n.digits ++ (tail ++ rest)) =
      if n.value < 2 ^ 64 then some (⟨n.value % 2 ^ 32, n.value % 2 ^ 32, 1⟩, tail ++ rest)
      else none := by
  rw [range, nextnumber_numeral n (notDigit_append gap.notDigit atEnd.notDigit)]
  split
  case isTrue =>
    simp only [Option.bind_eq_bind, Option.bind_some, nexttoken_skip gap.noComma rest,
      before_missing atEnd gap.noSign (by decide)]
  case isFalse => rfl

theorem range_dash (n : Numeral) {gap u rest : List Char} (isGap : Gap '-' gap) (noComma : ',' ∉ u) :
    range (n.digits ++ (gap ++ '-' :: (u ++ rest))) =
      if n.value < 2 ^ 64 then
        (nextnumber (u ++ rest)).bind fun (b, stop) =>
          (stride stop (nexttoken rest ',')).bind fun (s, stop) =>
            if n.value % 2 ^ 32 ≤ b then some (⟨n.value % 2 ^ 32, b, s⟩, stop) else none
      else none := by
  rw [range, nextnumber_numeral n (notDigit_append isGap.notDigit (by simp))]
  split
  case isTrue =>
    have hcomma : nexttoken (gap ++ '-' :: (u ++ rest)) ',' = nexttoken rest ',' := by
      have hskip : ',' ∉ gap ++ '-' :: u := by simp [isGap.noComma, noComma]
      rw [← nexttoken_skip hskip rest, List.append_assoc, List.cons_append]
    simp only [Option.bind_eq_bind, Option.bind_some, hcomma, before_found isGap.noSign]
  case isFalse => rfl

theorem stride_none {tail rest : List Char} (gap : Gap ':' tail) (atEnd : AtEnd rest) :
    stride (tail ++ rest) (nexttoken rest ',') = some (1, tail ++ rest) := by
  rw [stride, before_missing atEnd gap.noSign (by decide)]

theorem stride_colon {gap : List Char} (isGap : Gap ':' gap) (u rest : List Char) :
    stride (gap ++ ':' :: (u ++ rest)) (nexttoken rest ',') =
      (nextnumber (u ++ rest)).filter (·.1 ≠ 0) := by
  rw [stride, before_found isGap.noSign]

theorem filter_positive (p : Prop) [Decidable p] (v : Nat) (rest : List Char) :
    (if p then some (v, rest) else none).filter (·.1 ≠ 0) =
      if p ∧ 0 < v then some (v, rest) else none := by
  by_cases hp : p <;> cases v <;> simp [hp, Option.filter_some]

theorem stride_some (n : Numeral) {gap tail rest : List Char} (isGap : Gap ':' gap)
    (gapTail : Gap ',' tail) (atEnd : AtEnd rest) :
    stride (gap ++ ':' :: (n.digits ++ (tail ++ rest))) (nexttoken rest ',') =
      if n.value < 2 ^ 64 ∧ 0 < n.value % 2 ^ 32 then some (n.value % 2 ^ 32, tail ++ rest)
      else none := by
  rw [← filter_positive, ← List.append_assoc, stride_colon isGap, List.append_assoc,
    nextnumber_numeral n (notDigit_append gapTail.notDigit atEnd.notDigit)]

theorem legible_range (n m : Numeral) : (Item.range n m).Legible ↔
    n.value < 2 ^ 64 ∧ m.value < 2 ^ 64 ∧ n.value % 2 ^ 32 ≤ m.value % 2 ^ 32 := by
  simp [Item.Legible, Item.numerals, Item.bounds, Range.WellFormed, Range.wrapped, and_assoc]

theorem legible_strided (n m s : Numeral) : (Item.strided n m s).Legible ↔
    n.value < 2 ^ 64 ∧ m.value < 2 ^ 64 ∧ (s.value < 2 ^ 64 ∧ 0 < s.value % 2 ^ 32) ∧
      n.value % 2 ^ 32 ≤ m.value % 2 ^ 32 := by
  simp [Item.Legible, Item.numerals, Item.bounds, Range.WellFormed, Range.wrapped, and_assoc,
    and_comm, and_left_comm]

theorem range_loose {i : Loose} (spaced : i.Spaced) {rest : List Char} (atEnd : AtEnd rest) :
    range (i.text ++ rest) =
      if i.item.Legible then some (i.item.bounds.wrapped, i.tail ++ rest) else none := by
  have hcomma : ∀ n : Numeral, ',' ∉ n.digits := fun n => n.notMem rfl
  cases i with
  | single n tail =>
    rw [Loose.text, List.append_assoc, range_single n spaced atEnd]
    refine if_congr ?_ rfl rfl
    simp [Loose.item, Item.Legible, Item.numerals, Item.bounds, Range.WellFormed, Range.wrapped]
  | range n gap m tail =>
    obtain ⟨hgap, htail⟩ := spaced
    have hlegible := legible_range n m
    have hwrapped : (Item.range n m).bounds.wrapped =
      ⟨n.value % 2 ^ 32, m.value % 2 ^ 32, 1⟩ := rfl
    have hnone : ',' ∉ m.digits ++ tail := by simp [hcomma m, htail.noComma]
    have htext : (Loose.range n gap m tail).text ++ rest =
        n.digits ++ (gap ++ '-' :: (m.digits ++ tail ++ rest)) := by simp [Loose.text]
    rw [htext, range_dash n hgap hnone, List.append_assoc,
      nextnumber_numeral m (notDigit_append htail.notDigit atEnd.notDigit), Loose.item, hwrapped]
    generalize 2 ^ 64 = bound, 2 ^ 32 = size at hlegible ⊢
    by_cases hn : n.value < bound <;> by_cases hm : m.value < bound
    · simp [hn, hm, hlegible, stride_none htail atEnd, Loose.tail]
    all_goals simp [hn, hm, hlegible]
  | strided n gap m gap' s tail =>
    obtain ⟨hgap, hgap', htail⟩ := spaced
    have hlegible := legible_strided n m s
    have hstride := stride_some s hgap' htail atEnd
    have hwrapped : (Item.strided n m s).bounds.wrapped =
      ⟨n.value % 2 ^ 32, m.value % 2 ^ 32, s.value % 2 ^ 32⟩ := rfl
    have hnone : ',' ∉ m.digits ++ (gap' ++ ':' :: (s.digits ++ tail)) := by
      simp [hcomma m, hcomma s, hgap'.noComma, htail.noComma]
    have htext : (Loose.strided n gap m gap' s tail).text ++ rest = n.digits ++ (gap ++ '-' ::
        (m.digits ++ (gap' ++ ':' :: (s.digits ++ tail)) ++ rest)) := by simp [Loose.text]
    have hmiddle : m.digits ++ (gap' ++ ':' :: (s.digits ++ tail)) ++ rest =
        m.digits ++ (gap' ++ ':' :: (s.digits ++ (tail ++ rest))) := by simp
    rw [htext, range_dash n hgap hnone, hmiddle,
      nextnumber_numeral m (notDigit_append hgap'.notDigit (by simp)), Loose.item, hwrapped]
    generalize 2 ^ 64 = bound, 2 ^ 32 = size at hlegible hstride ⊢
    by_cases hn : n.value < bound <;> by_cases hm : m.value < bound
    · by_cases hs : s.value < bound ∧ 0 < s.value % size
      · simp [hn, hm, hs, hlegible, hstride, Loose.tail]
      · simp only [hn, hm, hs, hlegible, hstride, if_true, if_false, Option.bind_some,
          Option.bind_none, false_and, and_false]
    all_goals simp [hn, hm, hlegible]

def Item.loose : Item → Loose
  | .single n => .single n []
  | .range n m => .range n [] m []
  | .strided n m s => .strided n [] m [] s []

theorem gap_nil (sep : Char) : Gap sep [] := ⟨by simp, by simp, by simp⟩

theorem Item.loose_spaced (i : Item) : i.loose.Spaced := by
  cases i <;> simp [Item.loose, Loose.Spaced, gap_nil]

theorem Item.loose_text (i : Item) : i.loose.text = i.text := by
  cases i <;> simp [Item.loose, Loose.text, Item.text]

theorem Item.loose_item (i : Item) : i.loose.item = i := by
  cases i <;> rfl

theorem Item.loose_tail (i : Item) : i.loose.tail = [] := by
  cases i <;> rfl

theorem range_text (i : Item) {rest : List Char} (atEnd : AtEnd rest) :
    range (i.text ++ rest) = if i.Legible then some (i.bounds.wrapped, rest) else none := by
  have hread := range_loose i.loose_spaced atEnd
  rwa [i.loose_text, i.loose_item, i.loose_tail, List.nil_append] at hread

theorem nextnumber_split {u rest : List Char} (atEnd : AtEnd rest) {a : Nat} {stop : List Char}
    (read : nextnumber (u ++ rest) = some (a, stop)) :
    ∃ (n : Numeral) (v : List Char), u = n.digits ++ v ∧ (∀ d ∈ v.head?, d.isDigit = false) ∧
      stop = v ++ rest := by
  have hsplit : u.takeWhile Char.isDigit ++ u.dropWhile Char.isDigit = u :=
    List.takeWhile_append_dropWhile
  have hnotDigit : ∀ d ∈ (u.dropWhile Char.isDigit).head?, d.isDigit = false := by
    intro d hd
    have hhead := List.head?_dropWhile_not Char.isDigit u
    rw [Option.mem_def.mp hd] at hhead
    simpa using hhead
  have hne : u.takeWhile Char.isDigit ≠ [] := by
    intro hnil
    have hdrop : u.dropWhile Char.isDigit = u := by simpa [hnil] using hsplit
    rw [hdrop] at hnotDigit
    have hhead := notDigit_append hnotDigit atEnd.notDigit
    cases hp : u ++ rest with
    | nil => simp [hp, nextnumber] at read
    | cons d p =>
      rw [hp] at hhead read
      simp [nextnumber, hhead d rfl] at read
  let n : Numeral := ⟨u.takeWhile Char.isDigit, hne, fun d hd => List.mem_takeWhile_imp hd⟩
  have hread := nextnumber_numeral n (notDigit_append hnotDigit atEnd.notDigit)
  rw [← List.append_assoc, hsplit, read] at hread
  refine ⟨n, u.dropWhile Char.isDigit, hsplit.symm, hnotDigit, ?_⟩
  split at hread
  · cases hread
    rfl
  · cases hread

theorem exists_loose {seg rest : List Char} (noComma : ',' ∉ seg) (atEnd : AtEnd rest)
    (read : range (seg ++ rest) ≠ none) : ∃ i : Loose, i.Spaced ∧ i.text = seg := by
  obtain ⟨r, hread⟩ := Option.ne_none_iff_exists'.mp read
  have hfirst := hread
  simp only [range, Option.bind_eq_bind, Option.bind_eq_some_iff] at hfirst
  obtain ⟨⟨a, stop⟩, hnumber, -⟩ := hfirst
  obtain ⟨n, v, rfl, hv, -⟩ := nextnumber_split atEnd hnumber
  rw [List.mem_append, not_or] at noComma
  by_cases hdash : '-' ∈ v
  case neg => exact ⟨.single n v, ⟨hv, noComma.2, hdash⟩, rfl⟩
  obtain ⟨gap, u, rfl, hsign⟩ := List.eq_append_cons_of_mem hdash
  simp only [List.mem_append, List.mem_cons, not_or] at noComma
  obtain ⟨-, hgapComma, -, huComma⟩ := noComma
  have hgap : Gap '-' gap := .of_append hv hgapComma hsign
  rw [List.append_assoc, List.append_assoc, List.cons_append, range_dash n hgap huComma] at hread
  split at hread
  case isFalse => cases hread
  obtain ⟨⟨b, stop'⟩, hnumber', hread⟩ := Option.bind_eq_some_iff.mp hread
  obtain ⟨m, w, rfl, hw, rfl⟩ := nextnumber_split atEnd hnumber'
  rw [List.mem_append, not_or] at huComma
  by_cases hcolon : ':' ∈ w
  case neg => exact ⟨.range n gap m w, ⟨hgap, hw, huComma.2, hcolon⟩, rfl⟩
  obtain ⟨gap', u, rfl, hsign'⟩ := List.eq_append_cons_of_mem hcolon
  simp only [List.mem_append, List.mem_cons, not_or] at huComma
  obtain ⟨-, hgapComma', -, huComma'⟩ := huComma
  have hgap' : Gap ':' gap' := .of_append hw hgapComma' hsign'
  obtain ⟨⟨s, stop''⟩, hstride, -⟩ := Option.bind_eq_some_iff.mp hread
  rw [List.append_assoc, List.cons_append, stride_colon hgap'] at hstride
  obtain ⟨hnumber'', -⟩ := Option.filter_eq_some_iff.mp hstride
  obtain ⟨l, tail, rfl, htail, -⟩ := nextnumber_split atEnd hnumber''
  rw [List.mem_append, not_or] at huComma'
  exact ⟨.strided n gap m gap' l tail, ⟨hgap, hgap', htail, huComma'.2, huComma'.2⟩, rfl⟩

theorem tokens_skip {u : List Char} (noComma : ',' ∉ u) (v : List Char) :
    tokens (u ++ v) = tokens v := by
  induction u with
  | nil => rfl
  | cons d u ih =>
    rw [List.mem_cons, not_or] at noComma
    rw [List.cons_append, tokens, if_neg (Ne.symm noComma.1), ih noComma.2]

theorem Item.notMem_text {d : Char} (hd : d.isDigit = false) (dash : d ≠ '-') (colon : d ≠ ':')
    (i : Item) : d ∉ i.text := by
  have hnumeral : ∀ n : Numeral, d ∉ n.digits := fun n => n.notMem hd
  cases i <;> simp [Item.text, hnumeral, dash, colon]

def following : List Item → List Char
  | [] => []
  | items => ',' :: text items

theorem text_cons (i : Item) (items : List Item) :
    text (i :: items) = i.text ++ following items := by
  cases items with
  | nil => simp [text, following]
  | cons j items => rfl

theorem atEnd_following (items : List Item) : AtEnd (following items) := by
  cases items <;> simp [AtEnd, following]

theorem tokens_text (i : Item) (items : List Item) :
    text (i :: items) :: tokens (text (i :: items)) = suffixes (i :: items) := by
  induction items generalizing i with
  | nil =>
    rw [text_cons, tokens_skip (i.notMem_text rfl (by decide) (by decide))]
    simp [following, tokens, suffixes, text]
  | cons j items ih =>
    have htokens : tokens (text (i :: j :: items)) =
        text (j :: items) :: tokens (text (j :: items)) := by
      rw [text_cons, tokens_skip (i.notMem_text rfl (by decide) (by decide)), following, tokens,
        if_pos rfl]
      simp
    rw [htokens, ih]
    rfl

theorem range_suffix (i : Item) (items : List Item) :
    range (text (i :: items)) =
      if i.Legible then some (i.bounds.wrapped, following items) else none := by
  rw [text_cons, range_text i (atEnd_following items)]

theorem reached_suffixes {items : List Item}
    (readable : ∀ p ∈ suffixes items, range p ≠ none) (x : Nat) :
    Reached (suffixes items) x ↔ ∃ i ∈ items, i.bounds.wrapped.Reaches x := by
  induction items with
  | nil => simp [Reached, suffixes]
  | cons i items ih =>
    rw [suffixes, List.forall_mem_cons] at readable
    have hread : range (text (i :: items)) = some (i.bounds.wrapped, following items) := by
      rw [range_suffix, if_pos]
      by_contra hnot
      exact readable.1 (by rw [range_suffix, if_neg hnot])
    rw [suffixes, reached_cons hread, ih readable.2, List.exists_mem_cons_iff]

theorem notMem_text {d : Char} (hd : d.isDigit = false) (dash : d ≠ '-') (colon : d ≠ ':')
    (comma : d ≠ ',') (items : List Item) : d ∉ text items := by
  induction items with
  | nil => simp [text]
  | cons i items ih =>
    rw [text_cons, List.mem_append, not_or]
    refine ⟨i.notMem_text hd dash colon, ?_⟩
    cases items with
    | nil => simp [following]
    | cons j items => simp [following, comma, ih]

theorem Item.legible_of_fits {i : Item} (fits : i.bounds.Fits)
    (wellFormed : i.bounds.WellFormed) : i.Legible := by
  refine ⟨?_, by rwa [fits.wrapped wellFormed]⟩
  obtain ⟨hfirst, hlast, hstride⟩ := fits.small wellFormed
  cases i <;>
    simp only [Item.bounds, Item.numerals, List.mem_cons, List.not_mem_nil, or_false,
      forall_eq_or_imp, forall_eq] at * <;>
    omega

theorem suffixes_read {items : List Item}
    (fit : ∀ i ∈ items, i.bounds.WellFormed ∧ i.bounds.Fits) :
    RangesEnd (suffixes items) ∧ ¬ Rejected (suffixes items) := by
  have hread : ∀ i is, i ∈ items → range (text (i :: is)) = some (i.bounds, following is) := by
    intro i is hi
    obtain ⟨hwell, hfits⟩ := fit i hi
    rw [range_suffix, if_pos (Item.legible_of_fits hfits hwell), hfits.wrapped hwell]
  induction items with
  | nil => simp [suffixes, RangesEnd, Rejected]
  | cons i items ih =>
    obtain ⟨hends, haccepted⟩ := ih (fun j hj => fit j (List.mem_cons_of_mem _ hj))
      fun j is hj => hread j is (List.mem_cons_of_mem _ hj)
    obtain ⟨hwell, hfits⟩ := fit i List.mem_cons_self
    have hfirst := hread i items List.mem_cons_self
    constructor
    · intro r stop read
      rw [hfirst, Option.some.injEq, Prod.mk.injEq] at read
      exact ⟨read.1 ▸ hfits.ends hwell, hends⟩
    · rintro (⟨p, hp, hnone⟩ | ⟨p, hp, r, stop, read, hstop⟩)
      · rcases List.mem_cons.mp hp with rfl | hp
        · rw [hfirst] at hnone
          cases hnone
        · exact haccepted (.inl ⟨p, hp, hnone⟩)
      · cases items with
        | nil =>
          rw [suffixes, suffixes, List.getLast?_singleton, Option.mem_some_iff] at hp
          rw [← hp, hfirst] at read
          cases read
          exact hstop rfl
        | cons j items => exact haccepted (.inr ⟨p, hp, r, stop, read, hstop⟩)

end CpuList

open CpuList

/-- The text of a list up to its end, and from each comma on. -/
def CpuSet.starts (cpulist : String) : List (List Char) :=
  let str := cpulist.toList.takeWhile (· != '\x00')
  str :: tokens str

theorem takeWhile_nul {str : List Char} (notMem : '\x00' ∉ str) :
    str.takeWhile (· != '\x00') = str := by
  rw [List.takeWhile_eq_self_iff]
  intro d hd
  rw [bne_iff_ne]
  rintro rfl
  exact notMem hd

theorem CpuSet.starts_eq {cpulist : String} (notMem : '\x00' ∉ cpulist.toList) :
    CpuSet.starts cpulist = cpulist.toList :: tokens cpulist.toList := by
  rw [starts, takeWhile_nul notMem]

theorem CpuSet.starts_text {cpulist : String} {items : List Item} (nonempty : items ≠ [])
    (written : cpulist.toList = text items) : CpuSet.starts cpulist = suffixes items := by
  obtain ⟨i, items, rfl⟩ := List.exists_cons_of_ne_nil nonempty
  have hnone : '\x00' ∉ text (i :: items) :=
    notMem_text rfl (by decide) (by decide) (by decide) _
  rw [starts_eq (written ▸ hnone), written, tokens_text]

theorem CpuSet.ofList_diverges {maxCpus : Nat} {cpulist : String}
    (endless : ¬ RangesEnd (starts cpulist)) : ofList maxCpus cpulist = .error .diverges := by
  rw [ofList, cpulistParse_diverges endless]

theorem CpuSet.ofList_error (maxCpus : Nat) {cpulist : String}
    (ends : RangesEnd (starts cpulist)) (rejected : Rejected (starts cpulist)) :
    ofList maxCpus cpulist = .error (.runtimeError ("Could not parse cpulist: " ++ cpulist)) := by
  rw [ofList, cpulistParse_error ends rejected]

theorem CpuSet.ofList_ok (maxCpus : Nat) {cpulist : String}
    (ends : RangesEnd (starts cpulist)) (accepted : ¬ Rejected (starts cpulist)) :
    ∃ set, ofList maxCpus cpulist = .ok set ∧
      ∀ x, x ∈ set ↔ x < capacity maxCpus ∧ Reached (starts cpulist) x := by
  obtain ⟨set, hparse, hset⟩ := cpulistParse_ok (capacity maxCpus) ends accepted
  exact ⟨set, by rw [ofList, hparse], hset⟩

end DemosSched
