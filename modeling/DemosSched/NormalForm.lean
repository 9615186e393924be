import DemosSched.Normalization

/-! What a configuration that is accepted is made of: the partitions it defines,
with the processes of each and their default budgets, read off the document; and
the normal form of each of them. -/

namespace DemosSched

open Yaml Fallible

theorem Single.isInt_toInt (x : Single) : IsInt x.toInt := by
  unfold Single.toInt IsInt
  split
  case h_1 => decide
  case h_2 =>
    split
    case isTrue h => exact h
    case isFalse => decide

theorem intMul_two {budget jitter : Int} (isInt : IsInt budget) (pos : 0 < budget)
    (nonneg : 0 ≤ jitter) :
    jitter ≤ intMul 2 budget ↔ budget < 2 ^ 30 ∧ jitter ≤ 2 * budget := by
  unfold intMul IsInt at *
  rw [Int.bmod_def]
  split <;> omega

variable {δ : Type} {y : Conversions δ}

namespace Yaml.Conversions

variable (inv : y.Inverts)

include inv

theorem Inverts.asInt_int {n : Int} (h : IsInt n) : y.asInt (some (y.int n)) = .ok n := by
  simp [asInt, Conversions.int, convert, inv.int n h]

theorem Inverts.asBool_bool (b : Bool) : y.asBool (some (y.bool b)) = .ok b := by
  simp [asBool, Conversions.bool, convert, inv.bool b]

theorem Inverts.asDouble_double (x : δ) : y.asDouble (some (y.double x)) = .ok x := by
  simp [asDouble, Conversions.double, convert, inv.double x]

theorem Inverts.isInt_of_asInt {n : Option Node} {b : Int} (h : y.asInt n = .ok b) :
    IsInt b := by
  match n with
  | some (.scalar text) =>
    simp only [asInt, convert] at h
    cases ht : y.intOf text with
    | none => simp [ht] at h
    | some m =>
      simp only [ht, Option.elim_some, Except.ok.injEq] at h
      exact h ▸ inv.isInt text m ht
  | some .null | some (.seq _) | some (.map _) | none => simp [asInt, convert] at h

end Yaml.Conversions

variable (y) in
def processField (k : String) (v : Option Node) : Except Failure Node :=
  if k = "cmd" then (y.asString v).map .scalar
  else if k = "budget" ∨ k = "jitter" then (y.asInt v).map y.int
  else if k = "init" then (y.asBool v).map y.bool
  else if k = "frequency" then (y.asDouble v).map y.double
  else .error (.runtimeError ("Unexpected config key: " ++ k))

theorem normalizeProcessKey_eq (proc : Node) :
    normalizeProcessKey y proc = fun f key => do
      let k ← y.asString key
      return f.set k (← processField y k (proc.find k)) := by
  funext f key
  unfold normalizeProcessKey processField
  cases y.asString key with
  | error e => rfl
  | ok k =>
    simp only [bind_def, bind_ok, pure_def]
    split
    · cases y.asString (proc.find k) <;> rfl
    split
    · cases y.asInt (proc.find k) <;> rfl
    split
    · cases y.asBool (proc.find k) <;> rfl
    split
    · cases y.asDouble (proc.find k) <;> rfl
    · rfl

theorem processField_defined {k : String} {v : Option Node} {w : Node}
    (h : processField y k v = .ok w) : v.isSome = true := by
  cases v with
  | some v => rfl
  | none =>
    unfold processField at h
    split at h
    · cases h
    split at h
    · cases h
    split at h
    · cases h
    split at h
    · cases h
    · cases h

theorem processField_fixed (inv : y.Inverts) {k : String} {v : Option Node} {w : Node}
    (h : processField y k v = .ok w) : processField y k (some w) = .ok w := by
  unfold processField at *
  split at h
  case isTrue hk =>
    obtain ⟨s, -, rfl⟩ := map_eq_ok.mp h
    rw [if_pos hk]
    rfl
  rename_i hcmd
  rw [if_neg hcmd]
  split at h
  case isTrue hk =>
    obtain ⟨n, hn, rfl⟩ := map_eq_ok.mp h
    rw [if_pos hk, inv.asInt_int (inv.isInt_of_asInt hn)]
    rfl
  rename_i hint
  rw [if_neg hint]
  split at h
  case isTrue hk =>
    obtain ⟨b, -, rfl⟩ := map_eq_ok.mp h
    rw [if_pos hk, inv.asBool_bool]
    rfl
  rename_i hbool
  rw [if_neg hbool]
  split at h
  case isTrue hk =>
    obtain ⟨x, -, rfl⟩ := map_eq_ok.mp h
    rw [if_pos hk, inv.asDouble_double]
    rfl
  case isFalse => cases h

theorem processField_budget {v : Option Node} {w : Node} (h : processField y "budget" v = .ok w) :
    ∃ n, y.asInt v = .ok n ∧ w = y.int n := by
  obtain ⟨n, hn, rfl⟩ := map_eq_ok.mp (show (y.asInt v).map y.int = .ok w from h)
  exact ⟨n, hn, rfl⟩

theorem processField_jitter {v : Option Node} {w : Node} (h : processField y "jitter" v = .ok w) :
    ∃ n, y.asInt v = .ok n ∧ w = y.int n := by
  obtain ⟨n, hn, rfl⟩ := map_eq_ok.mp (show (y.asInt v).map y.int = .ok w from h)
  exact ⟨n, hn, rfl⟩

theorem processField_init {v : Option Node} {w : Node} (h : processField y "init" v = .ok w) :
    ∃ b, w = y.bool b := by
  obtain ⟨b, -, rfl⟩ := map_eq_ok.mp (show (y.asBool v).map y.bool = .ok w from h)
  exact ⟨b, rfl⟩

def HasCmd (proc : Node) : Prop := proc.isScalar = true ∨ proc.has "cmd" = true

instance (proc : Node) : Decidable (HasCmd proc) := inferInstanceAs (Decidable (_ ∨ _))

variable (y) in
structure ProcessFixed (f : Fields) : Prop where
  nodup : f.keys.Nodup
  fixed : ∀ e ∈ f, processField y e.1 (some e.2) = .ok e.2

theorem ProcessFixed.set {f : Fields} (h : ProcessFixed y f) {k : String} {v : Node}
    (fixed : processField y k (some v) = .ok v) : ProcessFixed y (f.set k v) := by
  refine ⟨Fields.nodup_set h.nodup, fun e he => ?_⟩
  rcases Fields.mem_set he with rfl | he
  · exact fixed
  · exact h.fixed e he

theorem ProcessFixed.read {f : Fields} (h : ProcessFixed y f) :
    readProcess y f.toNode = .ok f := by
  rw [readProcess, Fields.isScalar_toNode, if_neg (by simp), normalizeProcessKey_eq]
  refine Fields.foldlM_set id h.nodup ?_
  intro g e he
  have hfind : f.toNode.find e.1 = some e.2 := by
    rw [Fields.find_toNode, Fields.find_of_mem h.nodup he]
  simp only [Conversions.asString, bind_def, bind_ok, hfind, h.fixed e he, pure_def, id_eq]

variable (y) in
/-- The keys read from a process definition, before the defaults are set. -/
structure ReadProcess (proc : Node) (f : Fields) : Prop extends ProcessFixed y f where
  cmd : f.has "cmd" = true ↔ HasCmd proc
  given : ∀ k, k ≠ "cmd" → f.has k = proc.has k
  value : ∀ k v, k ≠ "cmd" → f.find k = some v → processField y k (proc.find k) = .ok v

theorem keys_of_has {n : Node} {k : String} (h : n.has k = true) :
    some (.scalar k) ∈ n.keys := by
  cases n with
  | map entries =>
    simp only [Node.has, Node.find, Option.isSome_map, List.find?_isSome] at h
    obtain ⟨⟨key, v⟩, hmem, hkey⟩ := h
    simp only [Node.keys, List.mem_map]
    refine ⟨(key, v), hmem, ?_⟩
    cases key with
    | scalar text =>
      simp only [Node.isKey, decide_eq_true_eq] at hkey
      rw [hkey]
    | null | seq | map => simp [Node.isKey] at hkey
  | null | scalar | seq => simp [Node.has, Node.find] at h

theorem readProcess_ok (inv : y.Inverts) {proc : Node} {f : Fields}
    (run : readProcess y proc = .ok f) : ReadProcess y proc f := by
  unfold readProcess at run
  split at run
  case isTrue hscalar =>
    match proc with
    | .scalar text =>
      simp only [bind_def, bind_eq_ok, pure_def, Except.ok.injEq] at run
      obtain ⟨s, hs, rfl⟩ := run
      simp only [Conversions.asString, Except.ok.injEq] at hs
      subst hs
      refine ⟨⟨by simp [Fields.keys], ?_⟩, ?_, ?_, ?_⟩
      · intro e he
        rw [List.mem_singleton.mp he]
        rfl
      · simp [Fields.has, HasCmd, Node.isScalar]
      · intro k hk
        simp [Fields.has, Node.has, Node.find, Ne.symm hk]
      · intro k v hk hv
        simp [Ne.symm hk] at hv
    | .null | .seq _ | .map _ => simp [Node.isScalar] at hscalar
  case isFalse hscalar =>
    rw [normalizeProcessKey_eq] at run
    obtain ⟨hnodup, hread, hhas⟩ :=
      Fields.foldlM_read (fun k => processField y k (proc.find k)) run
    have hgiven : ∀ k, f.has k = proc.has k := by
      intro k
      rw [Bool.eq_iff_iff]
      constructor
      · intro hk
        obtain ⟨v, hv⟩ := Option.isSome_iff_exists.mp hk
        exact processField_defined (hread _ (Fields.mem_of_find hv))
      · intro hk
        exact (hhas k).mpr ⟨_, keys_of_has hk, rfl⟩
    refine ⟨⟨hnodup, fun e he => processField_fixed inv (hread e he)⟩, ?_, fun k _ => hgiven k, ?_⟩
    · simp [hgiven, HasCmd, hscalar]
    · intro k v _ hv
      exact hread _ (Fields.mem_of_find hv)

variable (y) in
def budgetOf (proc : Node) (defaultBudget : Single) : Option Int :=
  if proc.has "budget" then (y.asInt (proc.find "budget")).toOption else some defaultBudget.toInt

variable (y) in
structure NormalProcess (f : Fields) (budget jitter : Int) : Prop extends ProcessFixed y f where
  budget_isInt : IsInt budget
  budget_pos : 0 < budget
  jitter_isInt : IsInt jitter
  jitter_nonneg : 0 ≤ jitter
  jitter_le : jitter ≤ 2 * budget
  find_budget : f.find "budget" = some (y.int budget)
  find_jitter : f.find "jitter" = some (y.int jitter)
  find_init : ∃ b, f.find "init" = some (y.bool b)

theorem setDefaultBudget_ok {proc : Node} {d : Single} {f f' : Fields} (inv : y.Inverts)
    (h : ReadProcess y proc f) (run : setDefaultBudget y d f = .ok f') :
    ProcessFixed y f' ∧ (∀ k, k ≠ "budget" → f'.find k = f.find k) ∧
      ∃ n, IsInt n ∧ f'.find "budget" = some (y.int n) ∧ budgetOf y proc d = some n := by
  unfold setDefaultBudget at run
  split at run
  case isTrue hhas =>
    cases run
    obtain ⟨v, hv⟩ := Option.isSome_iff_exists.mp hhas
    obtain ⟨n, hn, rfl⟩ := processField_budget (h.value "budget" v (by decide) hv)
    refine ⟨h.toProcessFixed, fun _ _ => rfl, n, inv.isInt_of_asInt hn, hv, ?_⟩
    rw [budgetOf, if_pos ((h.given "budget" (by decide)).symm.trans hhas), hn]
    rfl
  case isFalse hhas =>
    split at run
    case isTrue => cases run
    case isFalse =>
      cases run
      have hint := d.isInt_toInt
      refine ⟨h.toProcessFixed.set ?_, fun k hk => Fields.find_set_ne (Ne.symm hk), d.toInt, hint,
        Fields.find_set_self, ?_⟩
      · simp [processField, inv.asInt_int hint, Except.map]
      · rw [budgetOf, if_neg (by rwa [← h.given "budget" (by decide)])]

theorem checkBudget_ok {f : Fields} {n b : Int} (inv : y.Inverts) (isInt : IsInt n)
    (find : f.find "budget" = some (y.int n)) : checkBudget y f = .ok b ↔ n = b ∧ 0 < b := by
  rw [checkBudget, find, inv.asInt_int isInt, bind_def, bind_ok]
  split
  case isTrue hle =>
    simp only [throw_def, reduceCtorEq, false_iff]
    omega
  case isFalse hlt =>
    simp only [pure_def, Except.ok.injEq]
    omega

theorem checkJitter_ok {f f' : Fields} {b : Int} (inv : y.Inverts) (h : ProcessFixed y f)
    (isInt : IsInt b) (pos : 0 < b) (run : checkJitter y b f = .ok f') :
    ProcessFixed y f' ∧ (∀ k, k ≠ "jitter" → f'.find k = f.find k) ∧
      ∃ j, IsInt j ∧ 0 ≤ j ∧ j ≤ 2 * b ∧ f'.find "jitter" = some (y.int j) ∧
        (f.has "jitter" = true → b < 2 ^ 30) := by
  unfold checkJitter at run
  split at run
  case isFalse hhas =>
    cases run
    have hzero : IsInt 0 := by unfold IsInt; omega
    refine ⟨h.set ?_, fun k hk => Fields.find_set_ne (Ne.symm hk), 0, hzero, le_refl 0, by omega,
      Fields.find_set_self, fun hk => absurd hk hhas⟩
    simp [processField, inv.asInt_int hzero, Except.map]
  case isTrue hhas =>
    obtain ⟨v, hv⟩ := Option.isSome_iff_exists.mp hhas
    obtain ⟨j, hj, hval⟩ := processField_jitter (h.fixed _ (Fields.mem_of_find hv))
    have hjint := inv.isInt_of_asInt hj
    simp only [bind_def, hv, hj, bind_ok] at run
    split at run
    case isTrue => cases run
    rename_i hneg
    split at run
    case isTrue => cases run
    rename_i hle
    cases run
    obtain ⟨hlt, hle⟩ := (intMul_two isInt pos (by omega)).mp (by omega : j ≤ intMul 2 b)
    exact ⟨h, fun _ _ => rfl, j, hjint, by omega, hle, hv.trans (congrArg some hval),
      fun _ => hlt⟩

theorem setDefaultInit_fixed {f : Fields} (inv : y.Inverts) (h : ProcessFixed y f) :
    ProcessFixed y (setDefaultInit y f) ∧ (∀ k, k ≠ "init" → (setDefaultInit y f).find k = f.find k) ∧
      ∃ b, (setDefaultInit y f).find "init" = some (y.bool b) := by
  unfold setDefaultInit
  split
  case isTrue hhas =>
    obtain ⟨v, hv⟩ := Option.isSome_iff_exists.mp hhas
    obtain ⟨b, hb⟩ := processField_init (h.fixed _ (Fields.mem_of_find hv))
    exact ⟨h, fun _ _ => rfl, b, hv.trans (congrArg some hb)⟩
  case isFalse =>
    refine ⟨h.set ?_, fun k hk => Fields.find_set_ne (Ne.symm hk), false, Fields.find_set_self⟩
    simp [processField, inv.asBool_bool, Except.map]

theorem normalizeProcess_ok (inv : y.Inverts) {proc np : Node} {d : Single}
    (run : normalizeProcess y proc d = .ok np) :
    ∃ f b j, np = f.toNode ∧ NormalProcess y f b j ∧ (f.has "cmd" = true ↔ HasCmd proc) ∧
      budgetOf y proc d = some b ∧ (proc.has "jitter" = true → b < 2 ^ 30) := by
  simp only [normalizeProcess, bind_def, bind_eq_ok, pure_def, Except.ok.injEq] at run
  obtain ⟨f₀, hread, f₁, hbudget, b, hcheck, f₂, hjitter, rfl⟩ := run
  have h₀ := readProcess_ok inv hread
  obtain ⟨h₁, hkeep₁, n, hint, hfind, hof⟩ := setDefaultBudget_ok inv h₀ hbudget
  obtain ⟨rfl, hpos⟩ := (checkBudget_ok inv hint hfind).mp hcheck
  obtain ⟨h₂, hkeep₂, j, hjint, hnonneg, hle, hfindj, hsmall⟩ :=
    checkJitter_ok inv h₁ hint hpos hjitter
  obtain ⟨h₃, hkeep₃, hinit⟩ := setDefaultInit_fixed inv h₂
  have hkeep : ∀ k, k ≠ "budget" → k ≠ "jitter" → k ≠ "init" →
      (setDefaultInit y f₂).find k = f₀.find k := by
    intro k hb hj hi
    rw [hkeep₃ k hi, hkeep₂ k hj, hkeep₁ k hb]
  refine ⟨setDefaultInit y f₂, n, j, rfl,
    ⟨h₃, hint, hpos, hjint, hnonneg, hle, ?_, ?_, hinit⟩, ?_, hof, ?_⟩
  · rw [hkeep₃ _ (by decide), hkeep₂ _ (by decide), hfind]
  · rw [hkeep₃ _ (by decide), hfindj]
  · rw [Fields.has, hkeep "cmd" (by decide) (by decide) (by decide)]
    exact h₀.cmd
  · intro hgiven
    refine hsmall ?_
    rw [Fields.has, hkeep₁ "jitter" (by decide)]
    exact (h₀.given "jitter" (by decide)).trans hgiven

/-- A process in normal form is accepted again, as it is, unless the bound on its
jitter overflows. -/
theorem NormalProcess.normalize_iff (inv : y.Inverts) {f : Fields} {b j : Int} {d : Single}
    {np : Node} (h : NormalProcess y f b j) :
    normalizeProcess y f.toNode d = .ok np ↔ b < 2 ^ 30 ∧ f.toNode = np := by
  have hbudget : f.has "budget" = true := by rw [Fields.has, h.find_budget]; rfl
  have hjitter : f.has "jitter" = true := by rw [Fields.has, h.find_jitter]; rfl
  have hinit : f.has "init" = true := by
    obtain ⟨b, hb⟩ := h.find_init
    rw [Fields.has, hb]
    rfl
  have hle := intMul_two h.budget_isInt h.budget_pos h.jitter_nonneg
  have hcheck : checkBudget y f = .ok b :=
    (checkBudget_ok inv h.budget_isInt h.find_budget).mpr ⟨rfl, h.budget_pos⟩
  simp only [normalizeProcess, h.toProcessFixed.read, bind_def, bind_ok, setDefaultBudget,
    if_pos hbudget, pure_def, hcheck, checkJitter, if_pos hjitter, h.find_jitter,
    inv.asInt_int h.jitter_isInt, if_neg (not_lt.mpr h.jitter_nonneg), setDefaultInit]
  split
  case isTrue hlt =>
    simp only [throw_def, bind_error, reduceCtorEq, false_iff, not_and]
    intro hb
    exact absurd (hle.mpr ⟨hb, h.jitter_le⟩) (by omega)
  case isFalse hlt =>
    simp only [bind_ok, Except.ok.injEq, if_pos hinit, iff_and_self]
    intro _
    exact (hle.mp (by omega)).1

/-- The process definitions of a list, each with its default budget; what is no
sequence is one process. -/
def listedProcesses (processes : Node) (totalBudget : Single) : List (Node × Single) :=
  match processes with
  | .seq procs => procs.map (·, totalBudget.div (.ofInt procs.length))
  | _ => [(processes, totalBudget)]

def ownProcess (part : Node) : Node :=
  Fields.toNode (["cmd", "budget", "jitter", "init", "_a53_freq", "_a72_freq"].filterMap fun k =>
    (part.find k).map (k, ·))

def givenProcesses (part : Node) (totalBudget : Single) : List (Node × Single) :=
  match part with
  | .seq _ => listedProcesses part totalBudget
  | .map _ => ((part.find "processes").map (listedProcesses · totalBudget)).getD []
  | _ => []

def partitionProcesses (part : Node) (totalBudget : Single) : List (Node × Single) :=
  if (givenProcesses part totalBudget).isEmpty then [(ownProcess part, totalBudget)]
  else givenProcesses part totalBudget

variable (y) in
def givenName (part : Node) : Option String :=
  if part.has "name" then (y.asString (part.find "name")).toOption else none

/-- The name of a partition definition when so many names have been generated. -/
def nameOf (given : Option String) (counter : Nat) : String :=
  given.getD ("anonymous_" ++ toString counter)

def counterAfter (given : Option String) (counter : Nat) : Nat :=
  if given.isSome then counter else counter + 1

def partitionNode (name : String) (processes : List Node) : Node :=
  Fields.toNode [("name", .scalar name), ("processes", .sequence processes)]

variable (y) in
def normalizeAll (procs : List (Node × Single)) : Except Failure (List Node) :=
  procs.mapM fun p => normalizeProcess y p.1 p.2

theorem partitionProcesses_ne_nil (part : Node) (t : Single) : partitionProcesses part t ≠ [] := by
  unfold partitionProcesses
  split
  case isTrue => exact List.cons_ne_nil _ _
  case isFalse h => exact fun hnil => h (List.isEmpty_iff.mpr hnil)

theorem normalizeProcesses_eq (processes : Node) (t : Single) :
    normalizeProcesses y processes t =
      (normalizeAll y (listedProcesses processes t)).map .sequence := by
  match processes with
  | .seq procs =>
    simp only [normalizeProcesses, listedProcesses, normalizeAll, Node.size, List.mapM_map]
    cases h : procs.mapM fun p => normalizeProcess y p (t.div (.ofInt procs.length)) <;>
      simp only [Function.comp_def, h] <;> rfl
  | .null | .scalar _ | .map _ =>
    simp only [normalizeProcesses, listedProcesses, normalizeAll, List.mapM_cons, List.mapM_nil]
    cases normalizeProcess y _ t <;> rfl

theorem copyKeys_eq {n : Node} (notScalar : n.isScalar = false) (keys : List String) {f : Fields}
    (nodup : keys.Nodup) (fresh : ∀ k ∈ keys, k ∉ f.keys) :
    copyKeys n keys f = .ok (f ++ keys.filterMap fun k => (n.find k).map (k, ·)) := by
  induction keys generalizing f with
  | nil => simp [copyKeys]
  | cons k keys ih =>
    have hget : n.get k = .ok (n.find k) := by simp [Node.get, notScalar]
    have hkeys := List.nodup_cons.mp nodup
    simp only [copyKeys, List.foldlM_cons, hget, bind_def, bind_ok]
    cases hfind : n.find k with
    | none =>
      simp only [pure_def, bind_ok, List.filterMap_cons, hfind, Option.map_none]
      exact ih hkeys.2 fun l hl => fresh l (List.mem_cons_of_mem _ hl)
    | some v =>
      simp only [pure_def, bind_ok, List.filterMap_cons, hfind, Option.map_some]
      rw [Fields.set_of_notMem (fresh k List.mem_cons_self)]
      refine (ih hkeys.2 ?_).trans (by simp)
      intro l hl
      simp only [Fields.keys, List.map_append, List.map_cons, List.map_nil, List.mem_append,
        List.mem_singleton, not_or]
      exact ⟨fresh l (List.mem_cons_of_mem _ hl), fun heq => hkeys.1 (heq ▸ hl)⟩

theorem normalizeAll_length {procs : List (Node × Single)} {nps : List Node}
    (h : normalizeAll y procs = .ok nps) : procs.length = nps.length :=
  (mapM_eq_ok.mp h).length_eq

theorem readPartition_map {entries : List (Node × Node)} {t : Single} {f : Fields} {ps : Node}
    (run : (Node.map entries).keys.foldlM (normalizePartitionKey y (.map entries) t) ([], .null) =
      .ok (f, ps)) :
    f = ((givenName y (.map entries)).map fun name => ("name", .scalar name)).toList ∧
      ∃ nps, normalizeAll y (givenProcesses (.map entries) t) = .ok nps ∧ ps = .sequence nps := by
  have hloop := foldlM_induct (fun pre (st : Fields × Node) =>
    ((st.1 = [] ∧ some (.scalar "name") ∉ pre) ∨
      ∃ s, st.1 = [("name", .scalar s)] ∧ y.asString ((Node.map entries).find "name") = .ok s) ∧
    ((st.2 = .null ∧ some (.scalar "processes") ∉ pre) ∨
      ∃ v nps, (Node.map entries).find "processes" = some v ∧
        normalizeAll y (listedProcesses v t) = .ok nps ∧ st.2 = .sequence nps))
    ?step (by simp) run
  case step =>
    intro pre key post st st' _ ⟨hname, hprocs⟩ hstep
    simp only [normalizePartitionKey, bind_def, bind_eq_ok] at hstep
    obtain ⟨k, hk, hstep⟩ := hstep
    have hother : ∀ l, k ≠ l → key ≠ some (.scalar l) := by
      rintro l hne rfl
      exact hne (Except.ok.inj hk).symm
    split at hstep
    case isTrue hkey =>
      simp only [bind_eq_ok, pure_def, Except.ok.injEq] at hstep
      obtain ⟨s, hs, rfl⟩ := hstep
      subst hkey
      refine ⟨.inr ⟨s, ?_, hs⟩, ?_⟩
      · rcases hname with ⟨hnil, -⟩ | ⟨s', hs', -⟩
        · simp [hnil, Fields.set]
        · simp [hs', Fields.set]
      · have hne := hother "processes" (by decide)
        simpa [hne, Ne.symm hne] using hprocs
    rename_i hkname
    have hnename := hother "name" hkname
    have hname' : (st.1 = [] ∧ some (.scalar "name") ∉ pre ++ [key]) ∨
        ∃ s, st.1 = [("name", .scalar s)] ∧
          y.asString ((Node.map entries).find "name") = .ok s := by
      simpa [hnename, Ne.symm hnename] using hname
    split at hstep
    case isTrue hkey =>
      subst hkey
      cases hv : (Node.map entries).find "processes" with
      | none => simp [hv, Node.valid] at hstep
      | some v =>
        simp only [hv, Node.valid, bind_ok, normalizeProcesses_eq, bind_eq_ok, map_eq_ok, pure_def,
          Except.ok.injEq] at hstep
        obtain ⟨-, ⟨nps, hnps, rfl⟩, rfl⟩ := hstep
        exact ⟨hname', .inr ⟨v, nps, rfl, hnps, rfl⟩⟩
    rename_i hkprocs
    have hneprocs := hother "processes" hkprocs
    split at hstep
    case isTrue =>
      cases hstep
      exact ⟨hname', by simpa [hneprocs, Ne.symm hneprocs] using hprocs⟩
    case isFalse => cases hstep
  obtain ⟨hname, hprocs⟩ := hloop
  constructor
  · rcases hname with ⟨hnil, hno⟩ | ⟨s, hs, has⟩
    · have hhas : (Node.map entries).has "name" ≠ true := fun h => hno (keys_of_has h)
      simpa [givenName, hhas] using hnil
    · have hhas : (Node.map entries).has "name" = true := by
        cases hv : (Node.map entries).find "name" with
        | none => simp [hv, Conversions.asString] at has
        | some v => simp [Node.has, hv]
      simpa [givenName, hhas, has, Except.toOption] using hs
  · rcases hprocs with ⟨hnull, hno⟩ | ⟨v, nps, hv, hnps, hps⟩
    · have hhas : (Node.map entries).find "processes" = none := by
        rw [← Option.not_isSome_iff_eq_none]
        exact fun h => hno (keys_of_has h)
      refine ⟨[], ?_, hnull⟩
      simp [givenProcesses, hhas, normalizeAll]
    · refine ⟨nps, ?_, hps⟩
      simpa [givenProcesses, hv] using hnps

theorem readPartition_ok {part : Node} {t : Single} {f : Fields} {ps : Node}
    (run : readPartition y part t = .ok (f, ps)) :
    f = ((givenName y part).map fun name => ("name", .scalar name)).toList ∧
      ∃ nps, normalizeAll y (givenProcesses part t) = .ok nps ∧ ps = .sequence nps := by
  match part with
  | .seq l =>
    simp only [readPartition, normalizeProcesses_eq, bind_def, bind_eq_ok, map_eq_ok, pure_def,
      Except.ok.injEq, Prod.mk.injEq] at run
    obtain ⟨-, ⟨nps, hnps, rfl⟩, rfl, rfl⟩ := run
    exact ⟨rfl, nps, hnps, rfl⟩
  | .map entries => exact readPartition_map run
  | .null | .scalar _ =>
    cases run
    exact ⟨rfl, [], rfl, rfl⟩

theorem setDefaultName_eq (given : Option String) (counter : Nat) :
    setDefaultName counter (given.map fun name => ("name", .scalar name)).toList =
      ([("name", .scalar (nameOf given counter))], counterAfter given counter) := by
  cases given <;> rfl

theorem inlineProcess_ok {part ps : Node} {t : Single} {nps : List Node}
    (listed : normalizeAll y (givenProcesses part t) = .ok nps)
    (run : inlineProcess y part t (.sequence nps) = .ok ps) :
    ∃ nps', normalizeAll y (partitionProcesses part t) = .ok nps' ∧ ps = .sequence nps' := by
  have hlength := normalizeAll_length listed
  unfold inlineProcess at run
  cases nps with
  | cons a l =>
    have hne : (givenProcesses part t).isEmpty = false := by
      cases hg : givenProcesses part t with
      | nil => simp [hg] at hlength
      | cons => rfl
    rw [partitionProcesses, if_neg (by simp [hne])]
    cases run
    exact ⟨a :: l, listed, rfl⟩
  | nil =>
    have hempty : (givenProcesses part t).isEmpty = true := by
      rw [List.isEmpty_iff, ← List.length_eq_zero_iff, hlength, List.length_nil]
    rw [if_pos (show (Node.sequence []).isNull = true from rfl)] at run
    simp only [bind_def, bind_eq_ok, pure_def, Except.ok.injEq] at run
    obtain ⟨f, hf, np, hnp, rfl⟩ := run
    have hscalar : part.isScalar = false := by
      by_contra hs
      rw [Bool.not_eq_false] at hs
      simp [copyKeys, Node.get, hs] at hf
    rw [copyKeys_eq hscalar _ (by decide) (by simp [Fields.keys]), Except.ok.injEq,
      List.nil_append] at hf
    subst hf
    refine ⟨[np], ?_, rfl⟩
    rw [partitionProcesses, if_pos hempty]
    exact mapM_eq_ok.mpr (.cons hnp .nil)

theorem normalizePartition_ok {part np : Node} {t : Single} {n n' : Nat}
    (run : normalizePartition y part t n = .ok (np, n')) :
    ∃ nps, normalizeAll y (partitionProcesses part t) = .ok nps ∧
      np = partitionNode (nameOf (givenName y part) n) nps ∧
      n' = counterAfter (givenName y part) n := by
  simp only [normalizePartition, bind_def, bind_eq_ok] at run
  obtain ⟨⟨f, ps⟩, hread, run⟩ := run
  obtain ⟨rfl, nps, hnps, rfl⟩ := readPartition_ok hread
  simp only [setDefaultName_eq] at run
  rw [if_neg (by simp [Fields.has])] at run
  simp only [bind_eq_ok, pure_def, Except.ok.injEq, Prod.mk.injEq] at run
  obtain ⟨ps, hps, rfl, rfl⟩ := run
  obtain ⟨nps', hnps', rfl⟩ := inlineProcess_ok hnps hps
  exact ⟨nps', hnps', by simp [Fields.set, partitionNode], rfl⟩

theorem normalizePartition_partitionNode {name : String} {nps : List Node} (ne : nps ≠ [])
    (t : Single) (n : Nat) :
    normalizePartition y (partitionNode name nps) t n =
      (normalizeAll y (nps.map (·, t.div (.ofInt nps.length)))).map fun nps' =>
        (partitionNode name nps', n) := by
  obtain ⟨a, l, rfl⟩ := List.exists_cons_of_ne_nil ne
  have hnode : partitionNode name (a :: l) =
      .map [(.scalar "name", .scalar name), (.scalar "processes", .seq (a :: l))] := rfl
  have hread : readPartition y (partitionNode name (a :: l)) t =
      (normalizeAll y ((a :: l).map (·, t.div (.ofInt (a :: l).length)))).map fun nps' =>
        ([("name", .scalar name)], Node.sequence nps') := by
    rw [hnode]
    simp only [readPartition, Node.keys, List.map_cons, List.map_nil, List.foldlM_cons,
      List.foldlM_nil, normalizePartitionKey, Conversions.asString, bind_def, bind_ok, pure_def,
      Node.find, List.find?_cons, Node.isKey, decide_true, decide_false, Option.map_some,
      Node.valid, normalizeProcesses_eq, listedProcesses, Fields.set, String.reduceEq, if_true,
      if_false]
    cases normalizeAll y _ <;> rfl
  rw [normalizePartition, hread]
  cases hall : normalizeAll y ((a :: l).map (·, t.div (.ofInt (a :: l).length))) with
  | error e => rfl
  | ok nps' =>
    have hlength := normalizeAll_length hall
    cases nps' with
    | nil => simp at hlength
    | cons b l' => rfl

end DemosSched
