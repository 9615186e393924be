import Mathlib.Data.Finset.Max
import Mathlib.Data.List.Infix
import DemosSched.CpuItems

/-! `cpulist_create` prints the runs of a set into a buffer of fixed size, and
`as_list` takes what is in the buffer whether it was enough or not. -/

namespace DemosSched

namespace CpuList

def runLength (max : Nat) (set : CpuSet) : Nat → Nat → Nat
  | 0, _ => 0
  | fuel + 1, j => if j < max ∧ j ∈ set then runLength max set fuel (j + 1) + 1 else 0

/-- `"%zu,"`, `"%zu,%zu,"` or `"%zu-%zu,"`. -/
def entry (i run : Nat) : List Char :=
  if run = 0 then Nat.toDigits 10 i ++ [',']
  else if run = 1 then Nat.toDigits 10 i ++ ',' :: (Nat.toDigits 10 (i + 1) ++ [','])
  else Nat.toDigits 10 i ++ '-' :: (Nat.toDigits 10 (i + run) ++ [','])

/-- The loop of `cpulist_create` from `i` on, with `str` in front of `ptr` and `len`
bytes after it: what is in the buffer in the end. -/
def createLoop (max : Nat) (set : CpuSet) : Nat → Nat → List Char → Nat → List Char
  | 0, _, str, _ => str.dropLast
  | fuel + 1, i, str, len =>
    if i < max then
      if i ∈ set then
        let run := runLength max set max (i + 1)
        let text := entry i run
        -- `snprintf` leaves room for the NUL, and NULL is returned
        if len ≤ text.length then str ++ text.take (len - 1)
        else createLoop max set fuel (i + run + 1) (str ++ text) (len - text.length)
      else createLoop max set fuel (i + 1) str len
    else str.dropLast

end CpuList

namespace CpuSet

/-- `char list[100]; cpulist_create(list, sizeof(list), s, size()); return list;` -/
def asList (maxCpus : Nat) (set : CpuSet) : String :=
  String.ofList (CpuList.createLoop (capacity maxCpus) set (capacity maxCpus) 0 [] 100)

end CpuSet

/-- `CgroupCpuset`: the text last written to `cpuset.cpus`, and the CPUs recorded. -/
structure CgroupCpuset where
  fdCpus : Option String := none
  currentCpus : CpuSet := ∅

/-- A failed assertion is `none`. -/
def CgroupCpuset.setCpus (maxCpus : Nat) (cpus : CpuSet) (g : CgroupCpuset) :
    Option CgroupCpuset :=
  if cpus = g.currentCpus then some g
  else if cpus.card = 0 then none
  else some { fdCpus := some (CpuSet.asList maxCpus cpus), currentCpus := cpus }

namespace CpuList

def Numeral.ofNat (n : Nat) : Numeral where
  digits := Nat.toDigits 10 n
  nonempty := Nat.toDigits_ne_nil
  isDigit _ h := Nat.isDigit_of_mem_toDigits (by decide) (by decide) h

@[simp] theorem Numeral.value_ofNat (n : Nat) : (Numeral.ofNat n).value = n :=
  Nat.ofDigitChars_ten_toDigits

def entryItems (i run : Nat) : List Item :=
  if run = 0 then [.single (.ofNat i)]
  else if run = 1 then [.single (.ofNat i), .single (.ofNat (i + 1))]
  else [.range (.ofNat i) (.ofNat (i + run))]

def printedItems (max : Nat) (set : CpuSet) : Nat → Nat → List Item
  | 0, _ => []
  | fuel + 1, i =>
    if i < max then
      if i ∈ set then
        let run := runLength max set max (i + 1)
        entryItems i run ++ printedItems max set fuel (i + run + 1)
      else printedItems max set fuel (i + 1)
    else []

def terminated (items : List Item) : List Char := items.flatMap fun i => i.text ++ [',']

theorem terminated_append (l₁ l₂ : List Item) :
    terminated (l₁ ++ l₂) = terminated l₁ ++ terminated l₂ := List.flatMap_append

theorem entry_eq (i run : Nat) : entry i run = terminated (entryItems i run) := by
  unfold entry entryItems
  split
  · simp [terminated, Item.text, Numeral.ofNat]
  · split <;> simp [terminated, Item.text, Numeral.ofNat]

theorem dropLast_terminated (items : List Item) : (terminated items).dropLast = text items := by
  induction items with
  | nil => rfl
  | cons i items ih =>
    have hcons : terminated (i :: items) = i.text ++ [','] ++ terminated items := by
      simp [terminated]
    rw [hcons]
    cases items with
    | nil => simp [terminated, text]
    | cons j items =>
      have hne : terminated (j :: items) ≠ [] := by simp [terminated]
      rw [List.dropLast_append_of_ne_nil hne, ih, text_cons i, List.append_assoc]
      rfl

theorem buffer_done (str : List Char) {len : Nat} (room : 0 < len) :
    str.dropLast = (str ++ terminated []).dropLast.take (str.length + len - 1) := by
  rw [terminated, List.flatMap_nil, List.append_nil, List.take_of_length_le]
  rw [List.length_dropLast]
  omega

theorem buffer_full (str : List Char) {text : List Char} (rest : List Char) {len : Nat}
    (room : 0 < len) (full : len ≤ text.length) :
    str ++ text.take (len - 1) =
      (str ++ (text ++ rest)).dropLast.take (str.length + len - 1) := by
  have hlen : str.length + len - 1 = str.length + (len - 1) := by omega
  have hshort : str.length + (len - 1) ≤ (str ++ (text ++ rest)).length - 1 := by
    simp only [List.length_append]
    omega
  rw [hlen, List.dropLast_eq_take, List.take_take, Nat.min_eq_left hshort,
    List.take_length_add_append, List.take_append_of_le_length (by omega)]

theorem createLoop_eq {max : Nat} {set : CpuSet} (fuel i : Nat) (str : List Char) {len : Nat}
    (room : 0 < len) :
    createLoop max set fuel i str len =
      (str ++ terminated (printedItems max set fuel i)).dropLast.take (str.length + len - 1) := by
  induction fuel generalizing i str len with
  | zero => exact buffer_done str room
  | succ fuel ih =>
    rw [createLoop, printedItems]
    split
    case isFalse => exact buffer_done str room
    split
    case isFalse => exact ih (i + 1) str room
    case isTrue =>
      simp only [terminated_append, ← entry_eq]
      generalize entry i (runLength max set max (i + 1)) = text
      generalize i + runLength max set max (i + 1) + 1 = j
      split
      case isTrue hfull => exact buffer_full str _ room hfull
      case isFalse hroom =>
        have hlen : (str ++ text).length + (len - text.length) - 1 = str.length + len - 1 := by
          rw [List.length_append]
          omega
        rw [ih j (str ++ text) (by omega), hlen, List.append_assoc]

theorem runLength_run {max : Nat} {set : CpuSet} (fuel j : Nat) {x : Nat} (le : j ≤ x)
    (lt : x < j + runLength max set fuel j) : x < max ∧ x ∈ set := by
  induction fuel generalizing j with
  | zero =>
    rw [runLength] at lt
    omega
  | succ fuel ih =>
    rw [runLength] at lt
    split at lt
    case isTrue hj =>
      by_cases hx : x = j
      · rwa [hx]
      · exact ih (j + 1) (by omega) (by omega)
    case isFalse => omega

theorem lists_of_stride_one {n m x : Nat} :
    Range.Lists ⟨n, m, 1⟩ x ↔ n ≤ x ∧ x ≤ m := by
  simp only [Range.Lists, Nat.mul_one]
  constructor
  · rintro ⟨k, rfl, hle⟩
    exact ⟨by omega, hle⟩
  · rintro ⟨hn, hm⟩
    exact ⟨x - n, by omega, hm⟩

def Item.Printed : Item → Prop
  | .single _ => True
  | .range n m => n.value < m.value
  | .strided _ _ _ => False

theorem Item.Printed.stride {i : Item} (h : i.Printed) : i.bounds.stride = 1 := by
  cases i with
  | single n => rfl
  | range n m => rfl
  | strided n m s => exact h.elim

theorem Item.Printed.wellFormed {i : Item} (h : i.Printed) : i.bounds.WellFormed := by
  cases i with
  | single n => exact ⟨le_rfl, Nat.one_pos⟩
  | range n m => exact ⟨Nat.le_of_lt h, Nat.one_pos⟩
  | strided n m s => exact h.elim

theorem entryItems_lists (i run x : Nat) :
    (∃ it ∈ entryItems i run, it.bounds.Lists x) ↔ i ≤ x ∧ x ≤ i + run := by
  unfold entryItems
  split
  · simp only [List.mem_singleton, exists_eq_left, Item.bounds, lists_of_stride_one,
      Numeral.value_ofNat]
    omega
  · split
    · simp only [List.mem_cons, List.not_mem_nil, or_false, exists_eq_or_imp, exists_eq_left,
        Item.bounds, lists_of_stride_one, Numeral.value_ofNat]
      omega
    · simp only [List.mem_singleton, exists_eq_left, Item.bounds, lists_of_stride_one,
        Numeral.value_ofNat]

theorem entryItems_printed (i run : Nat) :
    (∀ it ∈ entryItems i run, it.Printed ∧ i ≤ it.bounds.last ∧ it.bounds.last ≤ i + run) ∧
      (entryItems i run).Pairwise fun it it' => it.bounds.last < it'.bounds.last := by
  unfold entryItems
  split
  case isTrue h => simp [Item.Printed, Item.bounds]
  case isFalse h =>
    split
    case isTrue h1 => simp [Item.Printed, Item.bounds, h1]
    case isFalse h1 =>
      simp only [List.mem_singleton, forall_eq, Item.Printed, Item.bounds, Numeral.value_ofNat,
        List.pairwise_singleton, and_true]
      omega

theorem printedItems_printed {max : Nat} {set : CpuSet} (fuel i : Nat) :
    (∀ it ∈ printedItems max set fuel i,
        it.Printed ∧ i ≤ it.bounds.last ∧ it.bounds.last < max) ∧
      (printedItems max set fuel i).Pairwise fun it it' => it.bounds.last < it'.bounds.last := by
  induction fuel generalizing i with
  | zero => simp [printedItems]
  | succ fuel ih =>
    rw [printedItems]
    split
    case isFalse => simp
    case isTrue hi =>
      split
      case isFalse =>
        obtain ⟨hall, hrising⟩ := ih (i + 1)
        refine ⟨fun it hit => ?_, hrising⟩
        obtain ⟨hprinted, hle, hlt⟩ := hall it hit
        exact ⟨hprinted, by omega, hlt⟩
      case isTrue =>
        dsimp only
        have hrun : ∀ x, i + 1 ≤ x → x < i + 1 + runLength max set max (i + 1) → x < max :=
          fun x hle hlt => (runLength_run max (i + 1) hle hlt).1
        generalize runLength max set max (i + 1) = run at *
        obtain ⟨hentry, hentries⟩ := entryItems_printed i run
        obtain ⟨hall, hrising⟩ := ih (i + run + 1)
        have hend : i + run < max := by
          by_cases hzero : run = 0
          · omega
          · exact hrun (i + run) (by omega) (by omega)
        constructor
        · intro it hit
          rcases List.mem_append.mp hit with hit | hit
          · obtain ⟨hprinted, hle, hlast⟩ := hentry it hit
            exact ⟨hprinted, hle, by omega⟩
          · obtain ⟨hprinted, hle, hlt⟩ := hall it hit
            exact ⟨hprinted, by omega, hlt⟩
        · refine List.pairwise_append.mpr ⟨hentries, hrising, fun it hit it' hit' => ?_⟩
          have hlast := (hentry it hit).2.2
          have hnext := (hall it' hit').2.1
          omega

theorem printedItems_lists {max : Nat} {set : CpuSet} (fuel i : Nat) (enough : max ≤ fuel + i)
    (x : Nat) :
    (∃ it ∈ printedItems max set fuel i, it.bounds.Lists x) ↔ i ≤ x ∧ x < max ∧ x ∈ set := by
  induction fuel generalizing i with
  | zero =>
    simp only [printedItems, List.not_mem_nil, false_and, exists_false, false_iff]
    omega
  | succ fuel ih =>
    rw [printedItems]
    split
    case isFalse =>
      simp only [List.not_mem_nil, false_and, exists_false, false_iff]
      omega
    case isTrue hi =>
      split
      case isFalse hmem =>
        rw [ih (i + 1) (by omega)]
        constructor
        · rintro ⟨hle, hx⟩
          exact ⟨by omega, hx⟩
        · rintro ⟨hle, hlt, hx⟩
          refine ⟨?_, hlt, hx⟩
          have hne : i ≠ x := fun h => hmem (h ▸ hx)
          omega
      case isTrue hmem =>
        dsimp only
        have hrun : ∀ x, i + 1 ≤ x → x < i + 1 + runLength max set max (i + 1) →
            x < max ∧ x ∈ set := fun x hle hlt => runLength_run max (i + 1) hle hlt
        generalize runLength max set max (i + 1) = run at *
        have hsplit : (∃ it ∈ entryItems i run ++ printedItems max set fuel (i + run + 1),
            it.bounds.Lists x) ↔ (∃ it ∈ entryItems i run, it.bounds.Lists x) ∨
              ∃ it ∈ printedItems max set fuel (i + run + 1), it.bounds.Lists x := by
          simp only [List.mem_append, or_and_right, exists_or]
        rw [hsplit, entryItems_lists, ih (i + run + 1) (by omega)]
        constructor
        · rintro (⟨hle, hlast⟩ | ⟨hle, hx⟩)
          · by_cases hxi : x = i
            · exact ⟨hle, hxi ▸ hi, hxi ▸ hmem⟩
            · exact ⟨hle, hrun x (by omega) (by omega)⟩
          · exact ⟨by omega, hx⟩
        · rintro ⟨hle, hlt, hx⟩
          by_cases hlast : x ≤ i + run
          · exact .inl ⟨hle, hlast⟩
          · exact .inr ⟨by omega, hlt, hx⟩

theorem numeral_leading {n : Numeral} {p rest : List Char} (split : n.digits = p ++ rest)
    (cut : rest ≠ []) : 10 * Nat.ofDigitChars 10 p 0 ≤ n.value := by
  have hvalue : n.value = Nat.ofDigitChars 10 n.digits 0 := rfl
  have hpow : 10 ^ 1 ≤ 10 ^ rest.length :=
    Nat.pow_le_pow_right (by decide) (List.length_pos_iff.mpr cut)
  have hmul := Nat.mul_le_mul_right (Nat.ofDigitChars 10 p 0) hpow
  rw [hvalue, split, Nat.ofDigitChars_append, Nat.ofDigitChars_eq_ofDigitChars_zero (l := rest)]
  omega

theorem nextnumber_leading {n : Numeral} {p rest : List Char} (split : n.digits = p ++ rest)
    {a : Nat} {stop : List Char} (read : nextnumber p = some (a, stop)) :
    stop = [] ∧ a ≤ Nat.ofDigitChars 10 p 0 := by
  have hdigits : ∀ d ∈ p, d.isDigit = true := fun d hd => n.isDigit d (by simp [split, hd])
  have hne : p ≠ [] := by
    rintro rfl
    cases read
  have hread : nextnumber (p ++ []) = _ := nextnumber_numeral ⟨p, hne, hdigits⟩ (by simp)
  rw [List.append_nil, read] at hread
  split at hread
  · cases hread
    exact ⟨rfl, Nat.mod_le _ _⟩
  · cases hread

theorem range_of_leading {n : Numeral} {p rest : List Char} (split : n.digits = p ++ rest)
    {r : Range} {stop : List Char} (read : range p = some (r, stop)) :
    r.last ≤ Nat.ofDigitChars 10 p 0 := by
  simp only [range, Option.bind_eq_bind, Option.bind_eq_some_iff] at read
  obtain ⟨⟨a, stop'⟩, hread, hrest⟩ := read
  obtain ⟨rfl, ha⟩ := nextnumber_leading split hread
  cases hrest
  exact ha

theorem range_of_dash {n m : Numeral} {p rest : List Char} (split : m.digits = p ++ rest)
    {r : Range} {stop : List Char} (read : range (n.digits ++ '-' :: p) = some (r, stop)) :
    r.last ≤ Nat.ofDigitChars 10 p 0 := by
  have hcomma : ',' ∉ p := fun h => m.notMem rfl (show ',' ∈ m.digits by simp [split, h])
  have hdash : range (n.digits ++ ([] ++ '-' :: (p ++ []))) = _ := range_dash n (gap_nil '-') hcomma
  rw [List.append_nil, List.nil_append, read] at hdash
  split_ifs at hdash
  obtain ⟨⟨b, stop'⟩, hread, hrest⟩ := Option.bind_eq_some_iff.mp hdash.symm
  obtain ⟨rfl, hb⟩ := nextnumber_leading split hread
  have hstride : stride [] (nexttoken [] ',') = some (1, []) :=
    stride_none (gap_nil ':') (by simp [AtEnd])
  dsimp only at hrest
  rw [hstride, Option.bind_some] at hrest
  split_ifs at hrest
  cases hrest
  exact hb

/-- An item that is cut off ends before its last CPU. -/
theorem range_cut {i : Item} (printed : i.Printed) {p : List Char} (cut : p <+: i.text)
    (ne : p ≠ i.text) {r : Range} {stop : List Char} (read : range p = some (r, stop)) :
    r.last = 0 ∨ r.last < i.bounds.last := by
  have hstrict : ∀ {n : Numeral} {q rest : List Char}, n.digits = q ++ rest → rest ≠ [] →
      r.last ≤ Nat.ofDigitChars 10 q 0 → r.last = 0 ∨ r.last < n.value := by
    intro n q rest hsplit hrest hle
    have hten := numeral_leading hsplit hrest
    omega
  obtain ⟨rest, hsplit⟩ := cut
  have hrest : rest ≠ [] := by
    rintro rfl
    exact ne (by simpa using hsplit)
  cases i with
  | strided n m s => exact printed.elim
  | single n =>
    exact hstrict hsplit.symm hrest (range_of_leading hsplit.symm read)
  | range n m =>
    have hlt : n.value < m.value := printed
    obtain ⟨v, hv, -⟩ | ⟨v, hv, hdash⟩ := List.append_eq_append_iff.mp hsplit
    · -- within the first number
      have hle := range_of_leading hv read
      refine .inr (Nat.lt_of_le_of_lt hle (Nat.lt_of_le_of_lt ?_ hlt))
      by_cases hnil : v = []
      · subst hnil
        rw [List.append_nil] at hv
        exact le_of_eq (congrArg (Nat.ofDigitChars 10 · 0) hv.symm)
      · have hten := numeral_leading hv hnil
        omega
    · cases v with
      | nil =>
        rw [List.append_nil] at hv
        subst hv
        exact .inr (Nat.lt_of_le_of_lt
          (range_of_leading (List.append_nil n.digits).symm read) hlt)
      | cons d v =>
        rw [List.cons_append, List.cons.injEq] at hdash
        obtain ⟨rfl, hdigits⟩ := hdash
        subst hv
        exact hstrict hdigits hrest (range_of_dash hdigits read)

theorem text_cut {m : Nat} (pos : 0 < m) {items : List Item}
    (printed : ∀ i ∈ items, i.Printed ∧ i.bounds.last ≤ m)
    (rising : items.Pairwise fun i j => i.bounds.last < j.bounds.last) {str : List Char}
    (cut : str <+: text items) (ne : str ≠ text items) {p stop : List Char} {r : Range}
    (start : p ∈ str :: tokens str) (read : range p = some (r, stop)) : r.last < m := by
  induction items generalizing str with
  | nil => exact absurd (List.prefix_nil.mp cut) ne
  | cons i items ih =>
    obtain ⟨⟨hprinted, hlast⟩, hitems⟩ := List.forall_mem_cons.mp printed
    obtain ⟨hfirst, hrising⟩ := List.pairwise_cons.mp rising
    have hcomma := i.notMem_text (d := ',') rfl (by decide) (by decide)
    rw [text_cons] at cut ne
    by_cases hwithin : str <+: i.text ∧ str ≠ i.text
    · -- the cut is in this item
      obtain ⟨hcut, hstrict⟩ := hwithin
      have htokens : tokens str = [] := by
        have hnone : ',' ∉ str := fun h => hcomma (hcut.subset h)
        simpa [tokens] using tokens_skip hnone []
      rw [htokens, List.mem_singleton] at start
      subst start
      rcases range_cut hprinted hcut hstrict read with hzero | hlt <;> omega
    · obtain ⟨q, rfl⟩ : i.text <+: str := by
        rcases List.prefix_or_prefix_of_prefix cut (List.prefix_append _ _) with h | h
        · have heq : str = i.text := by
            by_contra hstrict
            exact hwithin ⟨h, hstrict⟩
          rw [heq]
        · exact h
      rw [List.prefix_append_right_inj] at cut
      rw [Ne, List.append_cancel_left_eq] at ne
      cases items with
      | nil => exact absurd (List.prefix_nil.mp cut) ne
      | cons j items =>
        have hbelow : i.bounds.last < m :=
          Nat.lt_of_lt_of_le (hfirst j List.mem_cons_self) (hitems j List.mem_cons_self).2
        have hend : AtEnd q := by
          intro d hd
          cases q with
          | nil => cases hd
          | cons d' q =>
            cases hd
            exact (List.cons_prefix_cons.mp cut).1
        rcases List.mem_cons.mp start with rfl | hstart
        · rw [range_text i hend] at read
          split_ifs at read
          cases read
          exact Nat.lt_of_le_of_lt (Nat.mod_le _ _) hbelow
        · rw [tokens_skip hcomma] at hstart
          cases q with
          | nil => cases hstart
          | cons d q =>
            obtain ⟨rfl, hq⟩ := List.cons_prefix_cons.mp cut
            rw [tokens, if_pos rfl] at hstart
            exact ih hitems hrising hq (fun h => ne (h ▸ rfl)) hstart

end CpuList

open CpuList

namespace CpuSet

variable {maxCpus : Nat} {set : CpuSet}

def items (maxCpus : Nat) (set : CpuSet) : List Item :=
  printedItems (capacity maxCpus) set (capacity maxCpus) 0

/-- The runs of the set in full: `i` or `i,i+1` or `i-j`, with commas between. -/
def fullList (maxCpus : Nat) (set : CpuSet) : List Char := text (items maxCpus set)

theorem asList_toList (maxCpus : Nat) (set : CpuSet) :
    (asList maxCpus set).toList = (fullList maxCpus set).take 99 := by
  rw [asList, String.toList_ofList, createLoop_eq _ _ _ (by decide), List.nil_append,
    dropLast_terminated]
  rfl

theorem le_capacity (maxCpus : Nat) : maxCpus ≤ capacity maxCpus := by
  unfold capacity
  omega

theorem items_lists (below : ∀ x ∈ set, x < maxCpus) (x : Nat) :
    (∃ i ∈ items maxCpus set, i.bounds.Lists x) ↔ x ∈ set := by
  have hcapacity := le_capacity maxCpus
  rw [items, printedItems_lists _ _ (by omega)]
  refine ⟨fun h => h.2.2, fun hx => ⟨Nat.zero_le x, ?_, hx⟩⟩
  have hlt := below x hx
  omega

theorem items_ne_nil (below : ∀ x ∈ set, x < maxCpus) (nonempty : set.Nonempty) :
    items maxCpus set ≠ [] := by
  obtain ⟨x, hx⟩ := nonempty
  obtain ⟨i, hi, -⟩ := (items_lists below x).mpr hx
  exact List.ne_nil_of_mem hi

theorem last_mem (below : ∀ x ∈ set, x < maxCpus) {i : Item} (hi : i ∈ items maxCpus set) :
    i.bounds.last ∈ set := by
  have hprinted := ((printedItems_printed _ 0).1 i hi).1
  refine (items_lists below _).mp ⟨i, hi, i.bounds.last - i.bounds.first, ?_, le_rfl⟩
  have hle := hprinted.wellFormed.1
  rw [hprinted.stride]
  omega

theorem ofList_asList (size : maxCpus < 2 ^ 31) (below : ∀ x ∈ set, x < maxCpus)
    (nonempty : set.Nonempty) (short : (fullList maxCpus set).length ≤ 99) :
    ofList maxCpus (asList maxCpus set) = .ok set := by
  have hwritten : (asList maxCpus set).toList = text (items maxCpus set) := by
    rw [asList_toList, List.take_of_length_le short, fullList]
  have hfit : ∀ i ∈ items maxCpus set, i.bounds.WellFormed ∧ i.bounds.Fits := by
    intro i hi
    have hprinted := ((printedItems_printed _ 0).1 i hi).1
    have hlt := below _ (last_mem below hi)
    have hle := hprinted.wellFormed.1
    refine ⟨hprinted.wellFormed, ?_⟩
    rw [Range.Fits, hprinted.stride, Nat.div_one, Nat.mul_one]
    omega
  obtain ⟨hends, haccepted⟩ := suffixes_read hfit
  have hstarts := starts_text (items_ne_nil below nonempty) hwritten
  obtain ⟨set', hok, hset⟩ := ofList_ok maxCpus (hstarts ▸ hends) (hstarts ▸ haccepted)
  have hreadable : ∀ p ∈ suffixes (items maxCpus set), range p ≠ none :=
    fun p hp hnone => haccepted (.inl ⟨p, hp, hnone⟩)
  rw [hok]
  congr 1
  ext x
  rw [hset, hstarts, reached_suffixes hreadable, ← items_lists below x]
  have hreach : (∃ i ∈ items maxCpus set, i.bounds.wrapped.Reaches x) ↔
      ∃ i ∈ items maxCpus set, i.bounds.Lists x := by
    refine exists_congr fun i => and_congr_right fun hi => ?_
    obtain ⟨hwell, hfits⟩ := hfit i hi
    rw [hfits.wrapped hwell, hfits.reaches_iff hwell]
  rw [hreach, and_iff_right_iff_imp, items_lists below x]
  intro hx
  exact Nat.lt_of_lt_of_le (below x hx) (le_capacity maxCpus)

theorem length_fullList_zero (below : ∀ x ∈ set, x < maxCpus) (mem : 0 ∈ set)
    (greatest : ∀ x ∈ set, x = 0) : (fullList maxCpus set).length ≤ 99 := by
  obtain ⟨c, hc⟩ := Nat.exists_eq_add_one.mpr
    (Nat.lt_of_lt_of_le (below 0 mem) (le_capacity maxCpus))
  have hrun : runLength (c + 1) set (c + 1) 1 = 0 := by
    rw [runLength, if_neg]
    rintro ⟨-, h⟩
    exact absurd (greatest 1 h) (by decide)
  have hitems : items maxCpus set = [.single (.ofNat 0)] ++ printedItems (c + 1) set c 1 := by
    rw [items, hc, printedItems, if_pos (Nat.succ_pos c), if_pos mem]
    simp only [Nat.zero_add, hrun]
    rfl
  have hrest : printedItems (c + 1) set c 1 = [] := by
    rw [List.eq_nil_iff_forall_not_mem]
    intro i hi
    have hlast := last_mem below (hitems ▸ List.mem_append_right _ hi)
    have hpos := ((printedItems_printed c 1).1 i hi).2.1
    rw [greatest _ hlast] at hpos
    omega
  rw [fullList, hitems, hrest]
  decide

theorem ofList_asList_cut (below : ∀ x ∈ set, x < maxCpus) (nonempty : set.Nonempty)
    (long : 99 < (fullList maxCpus set).length) :
    ofList maxCpus (asList maxCpus set) ≠ .ok set := by
  intro hok
  obtain ⟨m, hmem, hgreatest⟩ : ∃ m ∈ set, ∀ x ∈ set, x ≤ m :=
    ⟨_, set.max'_mem nonempty, fun x hx => set.le_max' x hx⟩
  have hpos : 0 < m := by
    by_contra hzero
    have hshort := length_fullList_zero below (by rwa [Nat.eq_zero_of_not_pos hzero] at hmem)
      fun x hx => by
        have hle := hgreatest x hx
        omega
    omega
  have hwritten := asList_toList maxCpus set
  have hcut : (asList maxCpus set).toList <+: text (items maxCpus set) :=
    hwritten ▸ List.take_prefix _ _
  have hne : (asList maxCpus set).toList ≠ text (items maxCpus set) := by
    intro heq
    have hlen := congrArg List.length hwritten
    rw [heq, List.length_take, fullList] at hlen
    rw [fullList] at long
    omega
  have hnone : '\x00' ∉ (asList maxCpus set).toList := fun h =>
    notMem_text rfl (by decide) (by decide) (by decide) _ (hcut.subset h)
  have hstarts := starts_eq hnone
  by_cases hends : RangesEnd (starts (asList maxCpus set))
  case neg => simp [ofList_diverges hends] at hok
  by_cases hrejected : Rejected (starts (asList maxCpus set))
  case pos => simp [ofList_error maxCpus hends hrejected] at hok
  obtain ⟨set', hok', hset⟩ := ofList_ok maxCpus hends hrejected
  rw [hok', Except.ok.injEq] at hok
  subst hok
  obtain ⟨p, hp, r, stop, read, hreaches⟩ := ((hset m).mp hmem).2
  have hprinted : ∀ i ∈ items maxCpus set', i.Printed ∧ i.bounds.last ≤ m := fun i hi =>
    ⟨((printedItems_printed _ 0).1 i hi).1, hgreatest _ (last_mem below hi)⟩
  have hlost := text_cut hpos hprinted (printedItems_printed _ 0).2 hcut hne (hstarts ▸ hp) read
  obtain ⟨k, hk, hlast⟩ := hreaches
  have hle := hlast k le_rfl
  omega

end CpuSet

/-- What `as_list` prints is read as the set, and what `set_cpus` writes as the
CPUs that it records. -/
structure RoundTrips (maxCpus : Nat) (set : CpuSet) : Prop where
  list : CpuSet.ofList maxCpus (CpuSet.asList maxCpus set) = .ok set
  written : ∀ g g' : CgroupCpuset, g.currentCpus ≠ set → g.setCpus maxCpus set = some g' →
    ∃ text ∈ g'.fdCpus, CpuSet.ofList maxCpus text = .ok g'.currentCpus

theorem roundTrips_iff {maxCpus : Nat} {set : CpuSet} :
    RoundTrips maxCpus set ↔ CpuSet.ofList maxCpus (CpuSet.asList maxCpus set) = .ok set := by
  refine ⟨fun h => h.list, fun h => ⟨h, fun g g' hne hset => ?_⟩⟩
  rw [CgroupCpuset.setCpus, if_neg (Ne.symm hne)] at hset
  split_ifs at hset
  cases hset
  exact ⟨_, rfl, h⟩

theorem round_trip_iff {maxCpus : Nat} (size : maxCpus < 2 ^ 31) {set : CpuSet}
    (nonempty : set.Nonempty) (below : ∀ x ∈ set, x < maxCpus) :
    RoundTrips maxCpus set ↔ (CpuSet.fullList maxCpus set).length ≤ 99 := by
  rw [roundTrips_iff]
  constructor
  · intro h
    by_contra hlong
    exact CpuSet.ofList_asList_cut below nonempty (Nat.lt_of_not_le hlong) h
  · exact CpuSet.ofList_asList size below nonempty

theorem round_trip_lowest : RoundTrips 64 {0, 1, 2, 4} :=
  (round_trip_iff (by decide) (by decide) (by decide)).mpr (by decide +kernel)

/-- Two CPUs out of three. -/
theorem round_trip_pairs :
    ¬ ∀ set : CpuSet, set.Nonempty → (∀ x ∈ set, x < 64) → RoundTrips 64 set := by
  intro h
  let pairs : CpuSet := (Finset.range 64).filter (· % 3 ≠ 2)
  have hbelow : ∀ x ∈ pairs, x < 64 := by decide
  have hnonempty : pairs.Nonempty := ⟨0, by decide⟩
  exact CpuSet.ofList_asList_cut hbelow hnonempty (by decide +kernel) (h pairs hnonempty hbelow).list

end DemosSched
