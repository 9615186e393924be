import DemosSched.General.Fallible

/-! `PowerPolicy::setup_power_policy`: the text given on the command line, which names a
power policy and its arguments. -/

namespace DemosSched

open Fallible

/-- The classes that are instantiated. -/
inductive PolicyClass
  | none
  | minBE
  | fixedLow
  | fixedHigh
  | perProcess
  | imx8Alternating
  | imx8Fixed
  | imx8PerProcess
  | imx8PerSlice
  deriving DecidableEq, Repr

namespace PolicySetup

/-- `std::string::find`. -/
def find (ch : Char) (s : List Char) : Option Nat := s.findIdx? (· = ch)

/-- The loop over the separators, which cuts `arg_str` at the first one. -/
def parseArgs (argStr : List Char) : List (List Char) :=
  match h : find ',' argStr with
  | some pos => argStr.take pos :: parseArgs (argStr.drop (pos + 1))
  | none => [argStr]
termination_by argStr.length
decreasing_by
  obtain ⟨hlt, -⟩ := List.findIdx?_eq_some_iff_findIdx_eq.mp h
  rw [List.length_drop]
  omega

def parse (policyStr : List Char) : List Char × List (List Char) :=
  match find ':' policyStr with
  | none => (policyStr, [])
  | some ppNameLength =>
    (policyStr.take ppNameLength, parseArgs (policyStr.drop (ppNameLength + 1)))

/-- The entries of the map, in the order of their keys, with the numbers of arguments. -/
def powerPolicies : List (String × PolicyClass × Nat) :=
  [("high", .fixedHigh, 0), ("imx8_alternating", .imx8Alternating, 4),
    ("imx8_fixed", .imx8Fixed, 2), ("imx8_per_process", .imx8PerProcess, 0),
    ("imx8_per_slice", .imx8PerSlice, 0), ("low", .fixedLow, 0), ("minbe", .minBE, 0),
    ("per_process", .perProcess, 0)]

variable (construct : PolicyClass → List (List Char) → Except String Unit)

/-- The function of an entry; `construct` is what the constructor of the class does. -/
def create (name : String) (cls : PolicyClass) (argCount : Nat) (policyArgs : List (List Char)) :
    Except String Unit :=
  if argCount ≠ policyArgs.length then
    .error ("Incorrect number of parameters for the '" ++ name ++ "' power policy; got " ++
      toString policyArgs.length ++ ", expected " ++ toString argCount)
  else construct cls policyArgs

def instantiatePowerPolicy (policyName : String) (policyArgs : List (List Char)) :
    Except String PolicyClass :=
  if policyName = "" then .ok .none
  else if policyName = "none" then .ok .none
  else
    match powerPolicies.find? (·.1 = policyName) with
    | Option.none => .error ("Unknown power policy selected: " ++ policyName ++
        "; available policies: " ++ ", ".intercalate (powerPolicies.map (·.1)))
    | some (name, cls, argCount) =>
      ((create construct name cls argCount policyArgs).map fun _ => cls).mapError fun what =>
        "Failed to initialize power policy " ++ policyName ++ ": " ++ what

def setupPowerPolicy (policyStr : String) : Except String PolicyClass :=
  let (policyName, args) := parse policyStr.toList
  instantiatePowerPolicy construct (String.ofList (policyName.map Char.toLower)) args

def render (name : List Char) (args : List (List Char)) : List Char :=
  if args = [] then name else name ++ ':' :: [','].intercalate args

theorem find_some {ch : Char} {s : List Char} {n : Nat} (h : find ch s = some n) :
    s = s.take n ++ ch :: s.drop (n + 1) ∧ ch ∉ s.take n := by
  obtain ⟨hlt, hch, hbefore⟩ := List.findIdx?_eq_some_iff_getElem.mp h
  constructor
  · have hget : s[n] = ch := of_decide_eq_true hch
    rw [← hget, List.getElem_cons_drop, List.take_append_drop]
  · intro hmem
    obtain ⟨j, hj, hget⟩ := List.mem_take_iff_getElem.mp hmem
    exact hbefore j (by omega) (decide_eq_true hget)

theorem find_none {ch : Char} {s : List Char} : find ch s = none ↔ ch ∉ s := by
  unfold find
  rw [List.findIdx?_eq_none_iff]
  constructor
  · intro h hmem
    simpa using h ch hmem
  · intro h x hx
    exact decide_eq_false fun he => h (he ▸ hx)

theorem find_append {ch : Char} {s rest : List Char} (h : ch ∉ s) :
    find ch (s ++ ch :: rest) = some s.length := by
  refine List.findIdx?_eq_some_iff_getElem.mpr ⟨by simp, by simp, fun j hj => ?_⟩
  rw [List.getElem_append_left hj, decide_eq_true_eq]
  exact fun he => h (he ▸ List.getElem_mem hj)

theorem parseArgs_cut {argStr : List Char} {pos : Nat} (h : find ',' argStr = some pos) :
    parseArgs argStr = argStr.take pos :: parseArgs (argStr.drop (pos + 1)) := by
  rw [parseArgs]
  split
  · next n hn =>
    obtain rfl := Option.some.inj (h.symm.trans hn)
    rfl
  · next hn => simp [h] at hn

theorem parseArgs_rest {argStr : List Char} (h : find ',' argStr = none) :
    parseArgs argStr = [argStr] := by
  rw [parseArgs]
  split
  · next n hn => simp [h] at hn
  · rfl

/-- The loop cuts the text at every separator. -/
theorem parseArgs_eq (argStr : List Char) : parseArgs argStr = argStr.splitOn ',' := by
  induction argStr using parseArgs.induct with
  | case1 argStr pos h ih =>
    obtain ⟨hcut, hnone⟩ := find_some h
    rw [parseArgs_cut h, ih]
    conv_rhs => rw [hcut, List.splitOn_append_cons_self_of_not_mem hnone]
  | case2 argStr h =>
    rw [parseArgs_rest h, List.splitOn_eq_singleton (find_none.mp h)]

theorem parseArgs_notMem (argStr : List Char) : ∀ a ∈ parseArgs argStr, ',' ∉ a := by
  induction argStr using parseArgs.induct with
  | case1 argStr pos h ih =>
    rw [parseArgs_cut h]
    intro a ha
    rcases List.mem_cons.mp ha with rfl | ha
    · exact (find_some h).2
    · exact ih a ha
  | case2 argStr h =>
    rw [parseArgs_rest h]
    intro a ha
    obtain rfl := List.mem_singleton.mp ha
    exact find_none.mp h

/-- What is rendered is read back. -/
theorem parse_render {name : List Char} {args : List (List Char)} (hname : ':' ∉ name)
    (hargs : ∀ a ∈ args, ',' ∉ a) : parse (render name args) = (name, args) := by
  unfold render
  split
  case isTrue hnil => rw [parse, find_none.mpr hname, hnil]
  case isFalse hne =>
    rw [parse, find_append hname]
    simp only [List.take_left, List.drop_append, Nat.add_sub_cancel_left, Prod.mk.injEq,
      true_and]
    rw [List.drop_eq_nil_of_le (by omega), List.nil_append, List.drop_one, List.tail_cons,
      parseArgs_eq, List.splitOn_intercalate ',' hargs hne]

/-- Every text is the rendering of what is read from it. -/
theorem render_parse (policyStr : List Char) : ':' ∉ (parse policyStr).1 ∧
    (∀ a ∈ (parse policyStr).2, ',' ∉ a) ∧
      render (parse policyStr).1 (parse policyStr).2 = policyStr := by
  cases h : find ':' policyStr with
  | none =>
    have hparse : parse policyStr = (policyStr, []) := by rw [parse, h]
    rw [hparse]
    exact ⟨find_none.mp h, by simp, if_pos rfl⟩
  | some n =>
    have hparse : parse policyStr =
        (policyStr.take n, parseArgs (policyStr.drop (n + 1))) := by rw [parse, h]
    obtain ⟨hcut, hnone⟩ := find_some h
    rw [hparse]
    refine ⟨hnone, parseArgs_notMem _, ?_⟩
    have hne : parseArgs (policyStr.drop (n + 1)) ≠ [] := by
      rw [parseArgs_eq]
      exact List.splitOn_ne_nil _ _
    rw [render, if_neg hne, parseArgs_eq, List.intercalate_splitOn, ← hcut]

theorem find?_powerPolicies {key : String} {entry : String × PolicyClass × Nat} :
    powerPolicies.find? (·.1 = key) = some entry ↔ entry ∈ powerPolicies ∧ entry.1 = key := by
  constructor
  · intro h
    exact ⟨List.mem_of_find?_eq_some h, by simpa using List.find?_some h⟩
  · rintro ⟨hmem, rfl⟩
    have hall : ∀ e ∈ powerPolicies, powerPolicies.find? (·.1 = e.1) = some e := by decide
    exact hall entry hmem

variable {construct}

theorem create_ok {name : String} {cls : PolicyClass} {argCount : Nat}
    {policyArgs : List (List Char)} {u : Unit} :
    create construct name cls argCount policyArgs = .ok u ↔
      policyArgs.length = argCount ∧ construct cls policyArgs = .ok u := by
  unfold create
  by_cases h : argCount = policyArgs.length
  · simp [h]
  · simp [h, eq_comm]

theorem instantiate_reserved {name : String} {args : List (List Char)}
    (h : name = "" ∨ name = "none") : instantiatePowerPolicy construct name args = .ok .none := by
  unfold instantiatePowerPolicy
  by_cases hempty : name = ""
  · rw [if_pos hempty]
  · rw [if_neg hempty, if_pos (h.resolve_left hempty)]

theorem instantiate_ok {name : String} {args : List (List Char)} {cls : PolicyClass} :
    instantiatePowerPolicy construct name args = .ok cls ↔
      cls = .none ∧ (name = "" ∨ name = "none") ∨
        (name, cls, args.length) ∈ powerPolicies ∧ construct cls args = .ok () := by
  have hreserved : ∀ e ∈ powerPolicies, e.1 ≠ "" ∧ e.1 ≠ "none" := by decide
  by_cases hempty : name = "" ∨ name = "none"
  · have hfree : (name, cls, args.length) ∉ powerPolicies := fun h =>
      hempty.elim (hreserved _ h).1 (hreserved _ h).2
    rw [instantiate_reserved hempty, Except.ok.injEq]
    simp [hfree, hempty, eq_comm]
  · obtain ⟨hne, hne'⟩ := not_or.mp hempty
    rw [instantiatePowerPolicy, if_neg hne, if_neg hne']
    simp only [hne, hne', or_self, and_false, false_or]
    cases hfind : powerPolicies.find? (·.1 = name) with
    | none =>
      have hfree : (name, cls, args.length) ∉ powerPolicies := fun h => by
        simp [find?_powerPolicies.mpr ⟨h, rfl⟩] at hfind
      simp [hfree]
    | some entry =>
      obtain ⟨key, cls', argCount⟩ := entry
      obtain ⟨hmem, hkey⟩ := find?_powerPolicies.mp hfind
      have hkey : key = name := hkey
      subst hkey
      have honly : (key, cls, args.length) ∈ powerPolicies ↔
          cls' = cls ∧ args.length = argCount := by
        constructor
        · intro h
          rw [find?_powerPolicies.mpr ⟨h, rfl⟩, Option.some.injEq, Prod.mk.injEq,
            Prod.mk.injEq] at hfind
          exact ⟨hfind.2.1.symm, hfind.2.2⟩
        · rintro ⟨rfl, rfl⟩
          exact hmem
      rw [honly]
      simp only [mapError_eq_ok, map_eq_ok, create_ok]
      constructor
      · rintro ⟨⟨⟩, ⟨hlength, hconstruct⟩, rfl⟩
        exact ⟨⟨rfl, hlength⟩, hconstruct⟩
      · rintro ⟨⟨rfl, hlength⟩, hconstruct⟩
        exact ⟨(), ⟨hlength, hconstruct⟩, rfl⟩

/-- The texts for which a policy is instantiated: a name of the map in any case, followed by
as many arguments as the policy takes. No policy is used if there is no name or it is
`none`, whatever the arguments. -/
theorem setup_power_policy_iff (construct : PolicyClass → List (List Char) → Except String Unit)
    (policyStr : String) (cls : PolicyClass) :
    setupPowerPolicy construct policyStr = .ok cls ↔
      ∃ name args, policyStr.toList = render name args ∧ ':' ∉ name ∧ (∀ a ∈ args, ',' ∉ a) ∧
        (cls = .none ∧ String.ofList (name.map Char.toLower) ∈ ["", "none"] ∨
          (String.ofList (name.map Char.toLower), cls, args.length) ∈ powerPolicies ∧
            construct cls args = .ok ()) := by
  have hsetup : setupPowerPolicy construct policyStr = instantiatePowerPolicy construct
      (String.ofList ((parse policyStr.toList).1.map Char.toLower)) (parse policyStr.toList).2 := rfl
  rw [hsetup, instantiate_ok]
  obtain ⟨hname, hargs, hrender⟩ := render_parse policyStr.toList
  constructor
  · intro h
    exact ⟨_, _, hrender.symm, hname, hargs, by simpa using h⟩
  · rintro ⟨name, args, htext, hname', hargs', h⟩
    rw [htext, parse_render hname' hargs']
    simpa using h

end PolicySetup

end DemosSched
