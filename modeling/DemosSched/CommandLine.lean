import DemosSched.General.Fallible
import DemosSched.General.Getopt
import DemosSched.General.Scanning

/-! The command line of `demos-sched`, and the one it gives to `systemd-run` to
run itself again. -/

namespace DemosSched

open Getopt

namespace Getopt

/-- An option string: each option, with `:` after it when it takes an argument. -/
def ofChars : List Char → Char → Option Bool
  | [], _ => none
  | d :: rest, c => if c = d ∧ c ≠ ':' then some (rest.head? == some ':') else ofChars rest c

end Getopt

structure Options where
  configFile : String := ""
  configStr : String := ""
  windowSyncMessage : String := ""
  mfSyncMessage : String := ""
  powerPolicyName : String := ""
  optDemosCgName : String := "demos"
  schedulerTimeout : Option Int := none
  dumpConfig : Bool := false
  systemdRun : Bool := false
  deriving DecidableEq, Repr

inductive Exit
  | code (n : Int)
  | exception
  deriving DecidableEq, Repr

def optstring : Char → Option Bool := Getopt.ofChars "c:C:p:g:m:M:t:sdhV".toList

def stoll (str : String) : Option Int :=
  ((Scanning.integer str.toList).map Prod.fst).filter (Scanning.inRange 64)

def Options.set (o : Options) : Getopt.Item → Except Exit Options
  | .option 'c' (some optarg) => .ok { o with configFile := optarg }
  | .option 'C' (some optarg) => .ok { o with configStr := optarg }
  | .option 'p' (some optarg) => .ok { o with powerPolicyName := optarg }
  | .option 'g' (some optarg) => .ok { o with optDemosCgName := optarg }
  | .option 'm' (some optarg) => .ok { o with windowSyncMessage := optarg }
  | .option 'M' (some optarg) => .ok { o with mfSyncMessage := optarg }
  | .option 't' (some optarg) =>
    match stoll optarg with
    | some ms => .ok { o with schedulerTimeout := some ms }
    | none => .error .exception
  | .option 's' none => .ok { o with systemdRun := true }
  | .option 'd' none => .ok { o with dumpConfig := true }
  -- the version and the help are printed
  | .option 'V' none => .error (.code 0)
  | .option 'h' none => .error (.code 0)
  | _ => .error (.code 1)

def parseArguments (argv : List String) : Except Exit Options :=
  (getopt optstring argv.tail).foldlM Options.set {}

/-- The words of the command that is executed instead. -/
def reexecViaSystemdRun (argv : List String) : List String :=
  ["systemd-run", "--scope", "-p", "Delegate=yes", "--user"] ++ argv.take 1 ++
    (argv.drop 1).filter (· ≠ "-s")

/-- What `systemd-run` runs: the words after its own options. -/
def rerunArguments (argv : List String) : List String := (reexecViaSystemdRun argv).drop 5

def argOf (c : Char) : Getopt.Item → Option String
  | .option d arg => if d = c then arg else none
  | .invalid _ => none

/-- The loop goes on after this item. -/
def Settable (i : Getopt.Item) : Prop := ∃ o, Options.set {} i = .ok o

def lastArg (c : Char) (items : List Getopt.Item) : Option String :=
  items.reverse.findSome? (argOf c)

def settings (o : Options) (items : List Getopt.Item) : Options where
  configFile := (lastArg 'c' items).getD o.configFile
  configStr := (lastArg 'C' items).getD o.configStr
  windowSyncMessage := (lastArg 'm' items).getD o.windowSyncMessage
  mfSyncMessage := (lastArg 'M' items).getD o.mfSyncMessage
  powerPolicyName := (lastArg 'p' items).getD o.powerPolicyName
  optDemosCgName := (lastArg 'g' items).getD o.optDemosCgName
  schedulerTimeout := ((lastArg 't' items).bind stoll).or o.schedulerTimeout
  dumpConfig := o.dumpConfig || items.contains (.option 'd' none)
  systemdRun := o.systemdRun || items.contains (.option 's' none)

theorem set_error {o o' : Options} {i : Getopt.Item} {e : Exit} (h : o.set i = .error e) :
    o'.set i = .error e := by
  unfold Options.set at h
  split at h
  case h_7 =>
    split at h
    · cases h
    · cases h
      simp only [Options.set, *]
  case h_12 => grind [Options.set]
  all_goals cases h
  all_goals rfl

theorem set_ok {o o' : Options} {i : Getopt.Item} (h : o.set i = .ok o') :
    o' = settings o [i] := by
  unfold Options.set at h
  split at h
  case h_7 =>
    split at h
    · cases h
      simp [settings, lastArg, argOf, *]
    · cases h
  all_goals cases h
  all_goals simp [settings, lastArg, argOf]

theorem set_eq {i : Getopt.Item} (settable : Settable i) (o : Options) :
    o.set i = .ok (settings o [i]) := by
  obtain ⟨o₀, hset⟩ := settable
  cases h : o.set i with
  | error e =>
    rw [set_error h] at hset
    cases hset
  | ok o' => rw [set_ok h]

theorem settable_of_set {o o' : Options} {i : Getopt.Item} (h : o.set i = .ok o') :
    Settable i := by
  cases h₀ : Options.set {} i with
  | error e =>
    rw [set_error h₀] at h
    cases h
  | ok o₀ => exact ⟨o₀, h₀⟩

theorem lastArg_cons (c : Char) (i : Getopt.Item) (items : List Getopt.Item) :
    lastArg c (i :: items) = (lastArg c items).or (lastArg c [i]) := by
  simp [lastArg, List.findSome?_append]

theorem Settable.timeout {i : Getopt.Item} (settable : Settable i) {arg : String}
    (h : lastArg 't' [i] = some arg) : (stoll arg).isSome = true := by
  obtain ⟨o, hset⟩ := settable
  cases i with
  | invalid c => simp [lastArg, argOf] at h
  | option c a =>
    have harg : c = 't' ∧ a = some arg := by simpa [lastArg, argOf] using h
    obtain ⟨rfl, rfl⟩ := harg
    rw [Options.set] at hset
    split at hset
    · simp [*]
    · cases hset

theorem lastArg_timeout {items : List Getopt.Item} (settable : ∀ i ∈ items, Settable i)
    {arg : String} (h : lastArg 't' items = some arg) : (stoll arg).isSome = true := by
  induction items with
  | nil => simp [lastArg] at h
  | cons i items ih =>
    obtain ⟨hi, hitems⟩ := List.forall_mem_cons.mp settable
    rw [lastArg_cons] at h
    cases hrest : lastArg 't' items with
    | none => exact hi.timeout (by simpa [hrest] using h)
    | some a =>
      rw [hrest, Option.some_or, Option.some.injEq] at h
      subst h
      exact ih hitems hrest

theorem settings_cons {i : Getopt.Item} {items : List Getopt.Item} (o : Options)
    (settable : ∀ i ∈ items, Settable i) :
    settings o (i :: items) = settings (settings o [i]) items := by
  have htimeout : ((lastArg 't' items).or (lastArg 't' [i])).bind stoll =
      ((lastArg 't' items).bind stoll).or ((lastArg 't' [i]).bind stoll) := by
    cases h : lastArg 't' items with
    | none => simp
    | some arg =>
      obtain ⟨ms, hms⟩ := Option.isSome_iff_exists.mp (lastArg_timeout settable h)
      simp [hms]
  simp only [settings, lastArg_cons _ i items, htimeout, Option.or_assoc, Option.getD_or]
  simp [Bool.or_assoc]

theorem foldlM_set {items : List Getopt.Item} {o o' : Options} :
    items.foldlM Options.set o = .ok o' ↔
      (∀ i ∈ items, Settable i) ∧ o' = settings o items := by
  induction items generalizing o with
  | nil =>
    have hnil : settings o [] = o := by simp [settings, lastArg]
    simp only [List.foldlM_nil, Fallible.pure_def, Except.ok.injEq, List.not_mem_nil,
      false_implies, implies_true, true_and, hnil, eq_comm]
  | cons i items ih =>
    rw [List.foldlM_cons, List.forall_mem_cons]
    by_cases hi : Settable i
    · rw [set_eq hi, Fallible.bind_def, Fallible.bind_ok, ih]
      constructor
      · rintro ⟨hitems, rfl⟩
        exact ⟨⟨hi, hitems⟩, (settings_cons o hitems).symm⟩
      · rintro ⟨⟨-, hitems⟩, rfl⟩
        exact ⟨hitems, settings_cons o hitems⟩
    · refine iff_of_false ?_ fun h => hi h.1.1
      intro h
      obtain ⟨o₁, hset, -⟩ := Fallible.bind_eq_ok.mp h
      exact hi (settable_of_set hset)

def optionWords (argv : List String) : List Segment := segments optstring argv.tail

/-- No option has the word `-s` for its argument. -/
def ArgumentsKept (argv : List String) : Prop :=
  ∀ g ∈ optionWords argv, g.argument ≠ some "-s"

/-- The flag `s` stands in no other word than `-s`. -/
def FlagsAlone (argv : List String) : Prop :=
  ∀ g ∈ optionWords argv, g.chars ≠ ['s'] → .option 's' none ∉ g.items optstring

instance (argv : List String) : Decidable (ArgumentsKept argv) :=
  inferInstanceAs (Decidable (∀ g ∈ optionWords argv, _))

instance (argv : List String) : Decidable (FlagsAlone argv) :=
  inferInstanceAs (Decidable (∀ g ∈ optionWords argv, _))

theorem rerunArguments_tail (argv : List String) :
    (rerunArguments argv).tail = argv.tail.filter (· ≠ "-s") := by
  cases argv <;> rfl

theorem lastArg_filter (c : Char) (items : List Getopt.Item) :
    lastArg c (items.filter (· ≠ .option 's' none)) = lastArg c items := by
  induction items with
  | nil => rfl
  | cons i items ih =>
    by_cases hi : i = .option 's' none
    · have hnone : lastArg c [i] = none := by simp [lastArg, argOf, hi]
      rw [List.filter_cons_of_neg (by simpa using hi), ih, lastArg_cons, hnone, Option.or_none]
    · rw [List.filter_cons_of_pos (by simpa using hi), lastArg_cons, ih, ← lastArg_cons]

theorem settings_filter (items : List Getopt.Item) :
    settings {} (items.filter (· ≠ .option 's' none)) =
      { settings {} items with systemdRun := false } := by
  simp only [settings, lastArg_filter, Options.mk.injEq, true_and]
  constructor
  · rw [Bool.eq_iff_iff]
    simp
  · simp

theorem getopt_rerun {argv : List String} (kept : ArgumentsKept argv)
    (alone : FlagsAlone argv) :
    getopt optstring (argv.tail.filter (· ≠ "-s")) =
      (getopt optstring argv.tail).filter (· ≠ .option 's' none) :=
  getopt_filter (c := 's') rfl (by decide) kept alone

theorem systemdRun_rerun {argv : List String} (kept : ArgumentsKept argv)
    (notAlone : ¬ FlagsAlone argv) (o : Options) :
    (settings o (getopt optstring (argv.tail.filter (· ≠ "-s")))).systemdRun = true := by
  unfold FlagsAlone at notAlone
  push Not at notAlone
  obtain ⟨g, hg, hother, hitem⟩ := notAlone
  have hmem : Getopt.Item.option 's' none ∈ getopt optstring (argv.tail.filter (· ≠ "-s")) :=
    mem_getopt_filter (c := 's') rfl (by decide) kept hg hother hitem
  rw [settings, Bool.or_eq_true]
  exact .inr (List.contains_iff_mem.mpr hmem)

/-- If no argument is `-s`, the command line is preserved exactly when the flag stands
alone: an option that loses such an argument takes the next word, which may by chance leave
the settings as they were. -/
theorem reexecution_iff {argv : List String} {o : Options} (parsed : parseArguments argv = .ok o)
    (systemdRun : o.systemdRun = true) :
    (ArgumentsKept argv ∧ FlagsAlone argv →
        parseArguments (rerunArguments argv) = .ok { o with systemdRun := false }) ∧
      (parseArguments (rerunArguments argv) = .ok { o with systemdRun := false } →
        ArgumentsKept argv → FlagsAlone argv) := by
  obtain ⟨hsettable, rfl⟩ := foldlM_set.mp parsed
  rw [parseArguments, rerunArguments_tail, foldlM_set]
  constructor
  · rintro ⟨kept, alone⟩
    rw [getopt_rerun kept alone]
    refine ⟨fun i hi => hsettable i (List.mem_of_mem_filter hi), ?_⟩
    exact (settings_filter _).symm
  · rintro ⟨-, hsame⟩ kept
    by_contra notAlone
    have hrun := systemdRun_rerun kept notAlone {}
    rw [← hsame] at hrun
    cases hrun

theorem reexecution_flag :
    parseArguments ["demos-sched", "-s", "-c", "conf.yaml"] =
        .ok { configFile := "conf.yaml", systemdRun := true } ∧
      parseArguments (rerunArguments ["demos-sched", "-s", "-c", "conf.yaml"]) =
        .ok { configFile := "conf.yaml" } :=
  ⟨rfl, (reexecution_iff (o := { configFile := "conf.yaml", systemdRun := true }) rfl rfl).1
    ⟨by decide, by decide⟩⟩

/-- The flag is still there in a word like `-sc`. -/
theorem reexecution_clustered : ¬ ∀ (argv : List String) (o : Options),
    parseArguments argv = .ok o → o.systemdRun = true →
      parseArguments (rerunArguments argv) = .ok { o with systemdRun := false } := by
  intro h
  have hrerun := h ["demos-sched", "-sc", "conf.yaml"]
    { configFile := "conf.yaml", systemdRun := true } rfl rfl
  cases (show parseArguments (rerunArguments ["demos-sched", "-sc", "conf.yaml"]) =
    .ok { configFile := "conf.yaml", systemdRun := true } from rfl).symm.trans hrerun

end DemosSched
