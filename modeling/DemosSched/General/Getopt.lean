import Mathlib.Data.List.Basic

/-! `getopt` for short options, as POSIX has it: flags may stand together in one
word, an option takes the rest of its word or the next word as its argument, and
the options end at the first other word. -/

namespace DemosSched

namespace Getopt

/-- What one call returns: an option with its argument, or `?`. -/
inductive Item
  | option (c : Char) (arg : Option String)
  | invalid (c : Char)
  deriving DecidableEq, Repr

def optionChars (w : String) : Option (List Char) :=
  match w.toList with
  | '-' :: c :: cs => if c = '-' ∧ cs = [] then none else some (c :: cs)
  | _ => none

/-- The options of a word, and the one at its end that wants the next word. -/
def cluster (optstring : Char → Option Bool) : List Char → List Item × Option Char
  | [] => ([], none)
  | c :: cs =>
    match optstring c with
    | none => (.invalid c :: (cluster optstring cs).1, (cluster optstring cs).2)
    | some false => (.option c none :: (cluster optstring cs).1, (cluster optstring cs).2)
    | some true => if cs = [] then ([], some c) else ([.option c (some (String.ofList cs))], none)

structure Segment where
  chars : List Char
  argument : Option String
  deriving DecidableEq, Repr

def Segment.items (optstring : Char → Option Bool) (g : Segment) : List Item :=
  (cluster optstring g.chars).1 ++
    match (cluster optstring g.chars).2, g.argument with
    | none, _ => []
    | some c, some arg => [.option c (some arg)]
    | some c, none => [.invalid c]

/-- The words up to the end of the options. `optstring` says of each option whether
it takes an argument. -/
def segments (optstring : Char → Option Bool) : List String → List Segment
  | [] => []
  | w :: ws =>
    match optionChars w with
    | none => []
    | some cs =>
      if (cluster optstring cs).2.isSome then
        match ws with
        | [] => [⟨cs, none⟩]
        | arg :: ws => ⟨cs, some arg⟩ :: segments optstring ws
      else ⟨cs, none⟩ :: segments optstring ws

def getopt (optstring : Char → Option Bool) (ws : List String) : List Item :=
  (segments optstring ws).flatMap (Segment.items optstring)

def flagWord (c : Char) : String := String.ofList ['-', c]

variable {optstring : Char → Option Bool} {c : Char}

theorem optionChars_flagWord (h : c ≠ '-') : optionChars (flagWord c) = some [c] := by
  simp [optionChars, flagWord, h]

theorem eq_flagWord {w : String} (h : optionChars w = some [c]) : w = flagWord c := by
  unfold optionChars at h
  split at h
  case h_2 => cases h
  case h_1 d ds hw =>
    split_ifs at h
    cases h
    rw [flagWord, ← hw, String.ofList_toList]

theorem cluster_flag (flag : optstring c = some false) :
    cluster optstring [c] = ([.option c none], none) := by
  simp [cluster, flag]

theorem items_flag (flag : optstring c = some false) (argument : Option String) :
    Segment.items optstring ⟨[c], argument⟩ = [.option c none] := by
  simp [Segment.items, cluster_flag flag]

/-- Without the words of a flag the segments are the other ones, unless an argument
goes with them. -/
theorem segments_filter (flag : optstring c = some false) (dash : c ≠ '-') (ws : List String)
    (kept : ∀ g ∈ segments optstring ws, g.argument ≠ some (flagWord c)) :
    segments optstring (ws.filter (· ≠ flagWord c)) =
      (segments optstring ws).filter (·.chars ≠ [c]) := by
  fun_induction segments optstring ws with
  | case1 => simp [segments]
  | case2 w ws hend =>
    have hne : w ≠ flagWord c := by
      rintro rfl
      rw [optionChars_flagWord dash] at hend
      cases hend
    simp [hne, segments, hend]
  | case3 w cs hchars hwants =>
    have hne : w ≠ flagWord c := by
      rintro rfl
      rw [optionChars_flagWord dash, Option.some.injEq] at hchars
      simp [← hchars, cluster_flag flag] at hwants
    have hcs : cs ≠ [c] := by
      rintro rfl
      exact hne (eq_flagWord hchars)
    simp [hne, segments, hchars, hwants, hcs]
  | case4 w cs hchars hwants arg ws ih =>
    have hne : w ≠ flagWord c := by
      rintro rfl
      rw [optionChars_flagWord dash, Option.some.injEq] at hchars
      simp [← hchars, cluster_flag flag] at hwants
    have hcs : cs ≠ [c] := by
      rintro rfl
      exact hne (eq_flagWord hchars)
    obtain ⟨harg, hrest⟩ := List.forall_mem_cons.mp kept
    have harg' : arg ≠ flagWord c := fun h => harg (congrArg some h)
    simpa [hne, harg', segments, hchars, hwants, hcs] using ih hrest
  | case5 w ws cs hchars hwants ih =>
    obtain ⟨-, hrest⟩ := List.forall_mem_cons.mp kept
    by_cases hw : w = flagWord c
    · subst hw
      rw [optionChars_flagWord dash, Option.some.injEq] at hchars
      simpa [← hchars] using ih hrest
    · have hcs : cs ≠ [c] := by
        rintro rfl
        exact hw (eq_flagWord hchars)
      simpa [hw, segments, hchars, hwants, hcs] using ih hrest

theorem getopt_filter (flag : optstring c = some false) (dash : c ≠ '-') {ws : List String}
    (kept : ∀ g ∈ segments optstring ws, g.argument ≠ some (flagWord c))
    (alone : ∀ g ∈ segments optstring ws, g.chars ≠ [c] → .option c none ∉ g.items optstring) :
    getopt optstring (ws.filter (· ≠ flagWord c)) =
      (getopt optstring ws).filter (· ≠ .option c none) := by
  rw [getopt, segments_filter flag dash ws kept, getopt]
  generalize segments optstring ws = l at alone
  induction l with
  | nil => rfl
  | cons g l ih =>
    obtain ⟨hg, hl⟩ := List.forall_mem_cons.mp alone
    rw [List.flatMap_cons, List.filter_append, ← ih hl]
    by_cases hchars : g.chars = [c]
    · obtain ⟨chars, argument⟩ := g
      cases hchars
      simp [items_flag flag]
    · have hsame : (g.items optstring).filter (· ≠ .option c none) = g.items optstring := by
        refine List.filter_eq_self.mpr fun i hi => ?_
        simpa using fun h : i = .option c none => hg hchars (h ▸ hi)
      rw [hsame, List.filter_cons_of_pos (by simpa using hchars), List.flatMap_cons]

theorem mem_getopt_filter (flag : optstring c = some false) (dash : c ≠ '-') {ws : List String}
    (kept : ∀ g ∈ segments optstring ws, g.argument ≠ some (flagWord c)) {g : Segment}
    (mem : g ∈ segments optstring ws) (other : g.chars ≠ [c]) {i : Item}
    (item : i ∈ g.items optstring) : i ∈ getopt optstring (ws.filter (· ≠ flagWord c)) := by
  rw [getopt, segments_filter flag dash ws kept, List.mem_flatMap]
  exact ⟨g, List.mem_filter.mpr ⟨mem, by simpa using other⟩, item⟩

end Getopt

end DemosSched
