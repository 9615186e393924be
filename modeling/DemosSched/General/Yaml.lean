import Mathlib.Algebra.Group.Int.Defs
import Mathlib.Data.List.Basic
import Mathlib.Data.List.Nodup
import DemosSched.General.Fallible

/-! Documents as a YAML library presents them: nodes, conversions of scalars,
lookups by the first equal key, and mappings and sequences built key by key. A
mapping is a list of pairs in document order: keys may repeat and need not be
scalars. Nothing here mentions a particular program. -/

namespace DemosSched.Yaml

open Fallible

/-- Why a call does not return: an exception of the library, one of the program,
or a loop without end. -/
inductive Failure
  | library
  | runtimeError (what : String)
  | diverges
  deriving DecidableEq, Repr

inductive Node
  | null
  | scalar (text : String)
  | seq (elements : List Node)
  | map (entries : List (Node × Node))
  deriving Repr

namespace Node

def isNull : Node → Bool
  | null => true
  | _ => false

def isScalar : Node → Bool
  | scalar _ => true
  | _ => false

def isMap : Node → Bool
  | map _ => true
  | _ => false

/-- A key compares equal to a string only as a scalar. -/
def isKey (k : String) : Node → Bool
  | scalar text => decide (text = k)
  | _ => false

/-- The value of the first equal key. -/
def find (n : Node) (k : String) : Option Node :=
  match n with
  | map entries => (entries.find? (isKey k ·.1)).map Prod.snd
  | _ => none

def has (n : Node) (k : String) : Bool := (n.find k).isSome

/-- `node[k]` of a constant node, `none` being an undefined node. -/
def get (n : Node) (k : String) : Except Failure (Option Node) :=
  if n.isScalar then .error .library else .ok (n.find k)

/-- The keys a loop over the pairs of a node meets; the elements of a sequence
have none. -/
def keys : Node → List (Option Node)
  | seq elements => elements.map fun _ => none
  | map entries => entries.map fun e => some e.1
  | _ => []

/-- The nodes a loop over a node meets; the pairs of a mapping are none. -/
def elements : Node → List (Option Node)
  | seq elements => elements.map some
  | map entries => entries.map fun _ => none
  | _ => []

def size : Node → Nat
  | seq elements => elements.length
  | map entries => entries.length
  | _ => 0

/-- Erases the first pair with this key. -/
def remove (n : Node) (k : String) : Node :=
  match n with
  | map entries => map (entries.eraseP (isKey k ·.1))
  | n => n

/-- Using an element that is not a node throws. -/
def valid : Option Node → Except Failure Node
  | some n => .ok n
  | none => .error .library

/-- A node grown by appending: it is null before the first element. -/
def sequence : List Node → Node
  | [] => null
  | elements => seq elements

end Node

/-- How the library converts scalars to and from the types of the language. -/
structure Conversions (δ : Type) where
  intOf : String → Option Int
  ofInt : Int → String
  boolOf : String → Option Bool
  ofBool : Bool → String
  doubleOf : String → Option δ
  ofDouble : δ → String
  /-- A null node as a string, if it converts at all. -/
  nullText : Option String

def IsInt (n : Int) : Prop := -2 ^ 31 ≤ n ∧ n < 2 ^ 31

namespace Conversions

variable {δ : Type} (y : Conversions δ)

/-- Converting a node to a type inverts the assignment of a value of the type. -/
structure Inverts : Prop where
  int : ∀ n, IsInt n → y.intOf (y.ofInt n) = some n
  isInt : ∀ s n, y.intOf s = some n → IsInt n
  bool : ∀ b, y.boolOf (y.ofBool b) = some b
  double : ∀ x, y.doubleOf (y.ofDouble x) = some x

/-- The conversion of a scalar; any other node is a bad conversion. -/
def convert {τ : Type} (decode : String → Option τ) : Option Node → Except Failure τ
  | some (.scalar text) => (decode text).elim (.error .library) .ok
  | _ => .error .library

def asInt : Option Node → Except Failure Int := convert y.intOf

def asBool : Option Node → Except Failure Bool := convert y.boolOf

def asDouble : Option Node → Except Failure δ := convert y.doubleOf

def asString : Option Node → Except Failure String
  | some (.scalar text) => .ok text
  | some .null => y.nullText.elim (.error .library) .ok
  | _ => .error .library

def int (n : Int) : Node := .scalar (y.ofInt n)

def bool (b : Bool) : Node := .scalar (y.ofBool b)

def double (x : δ) : Node := .scalar (y.ofDouble x)

end Conversions

/-- A mapping under construction, with the keys in the order of their first
assignment. -/
abbrev Fields := List (String × Node)

namespace Fields

def find (f : Fields) (k : String) : Option Node := (f.find? (decide <| ·.1 = k)).map Prod.snd

def has (f : Fields) (k : String) : Bool := (f.find k).isSome

/-- `node[k] = v`. -/
def set (f : Fields) (k : String) (v : Node) : Fields :=
  match f with
  | [] => [(k, v)]
  | e :: f => if e.1 = k then (k, v) :: f else e :: set f k v

/-- The node: it is null before the first assignment. -/
def toNode (f : Fields) : Node :=
  if f = [] then .null else .map (f.map fun e => (.scalar e.1, e.2))

def keys (f : Fields) : List String := f.map Prod.fst

variable {f : Fields} {k l : String} {v w : Node}

@[simp] theorem find_nil (k : String) : find [] k = none := rfl

@[simp] theorem find_cons (e : String × Node) (f : Fields) (k : String) :
    find (e :: f) k = if e.1 = k then some e.2 else f.find k := by
  by_cases h : e.1 = k <;> simp [find, h]

theorem find_set : (f.set k v).find l = if k = l then some v else f.find l := by
  induction f with
  | nil => simp [set]
  | cons e f ih =>
    by_cases hk : e.1 = k
    · by_cases hl : k = l <;> simp [set, hk, hl]
    · by_cases hl : e.1 = l
      · have hne : ¬ k = l := fun h => hk (hl.trans h.symm)
        simp [set, if_neg hk, if_pos hl, if_neg hne]
      · simp [set, hk, hl, ih]

@[simp] theorem find_set_self : (f.set k v).find k = some v := by simp [find_set]

theorem find_set_ne (h : k ≠ l) : (f.set k v).find l = f.find l := by simp [find_set, h]

theorem mem_set {e : String × Node} (h : e ∈ f.set k v) : e = (k, v) ∨ e ∈ f := by
  induction f with
  | nil => exact .inl (List.mem_singleton.mp h)
  | cons a f ih =>
    rw [set] at h
    split at h
    · exact (List.mem_cons.mp h).imp_right (List.mem_cons_of_mem a)
    · rcases List.mem_cons.mp h with rfl | h
      · exact .inr List.mem_cons_self
      · exact (ih h).imp_right (List.mem_cons_of_mem a)

theorem has_set : (f.set k v).has l = (decide (k = l) || f.has l) := by
  by_cases h : k = l <;> simp [has, find_set, h]

theorem has_iff_mem_keys : f.has k = true ↔ k ∈ f.keys := by
  induction f with
  | nil => simp [has, keys]
  | cons e f ih =>
    by_cases h : e.1 = k
    · simp [has, keys, h]
    · have hne : k ≠ e.1 := fun heq => h heq.symm
      simpa [has, keys, h, hne] using ih

theorem keys_set : (f.set k v).keys = if k ∈ f.keys then f.keys else f.keys ++ [k] := by
  induction f with
  | nil => rfl
  | cons e f ih =>
    by_cases hk : e.1 = k
    · simp [set, keys, hk]
    · have hne : k ≠ e.1 := fun h => hk h.symm
      have ih' : keys (set f k v) = if k ∈ keys f then keys f else keys f ++ [k] := ih
      simp only [set, if_neg hk, keys, List.map_cons, List.mem_cons, hne, false_or]
      rw [show (set f k v).map Prod.fst = keys (set f k v) from rfl, ih']
      split <;> simp_all [keys]

theorem nodup_set (h : f.keys.Nodup) : (f.set k v).keys.Nodup := by
  rw [keys_set]
  split
  case isTrue => exact h
  case isFalse hk =>
    refine List.nodup_append.mpr ⟨h, List.nodup_singleton k, ?_⟩
    intro a ha b hb hab
    rw [List.mem_singleton] at hb
    exact hk (hb ▸ hab ▸ ha)

theorem set_of_notMem (h : k ∉ f.keys) : f.set k v = f ++ [(k, v)] := by
  induction f with
  | nil => rfl
  | cons e f ih =>
    simp only [keys, List.map_cons, List.mem_cons, not_or] at h
    have hne : e.1 ≠ k := fun heq => h.1 heq.symm
    simp only [set, if_neg hne, List.cons_append, ih h.2]

theorem find_of_mem (nodup : f.keys.Nodup) {e : String × Node} (h : e ∈ f) :
    f.find e.1 = some e.2 := by
  induction f with
  | nil => simp at h
  | cons d f ih =>
    simp only [keys, List.map_cons, List.nodup_cons] at nodup
    rcases List.mem_cons.mp h with rfl | hf
    · simp
    · have hne : d.1 ≠ e.1 := fun heq => nodup.1 (heq ▸ List.mem_map_of_mem hf)
      simpa [hne] using ih nodup.2 hf

theorem mem_of_find (h : f.find k = some v) : (k, v) ∈ f := by
  unfold find at h
  obtain ⟨e, he, rfl⟩ := Option.map_eq_some_iff.mp h
  have hk : e.1 = k := by simpa using List.find?_some he
  exact hk ▸ List.mem_of_find?_eq_some he

@[simp] theorem find_toNode : f.toNode.find k = f.find k := by
  unfold toNode
  split
  case isTrue h => simp [h, Node.find]
  case isFalse =>
    have hmap : (f.map fun e => (Node.scalar e.1, e.2)).find? (Node.isKey k ·.1) =
        (f.find? (decide <| ·.1 = k)).map fun e => (Node.scalar e.1, e.2) := by
      rw [List.find?_map]
      rfl
    simp only [Node.find, hmap, find, Option.map_map]
    rfl

@[simp] theorem has_toNode : f.toNode.has k = f.has k := by rw [Node.has, find_toNode, has]

@[simp] theorem isScalar_toNode : f.toNode.isScalar = false := by
  unfold toNode
  split <;> rfl

theorem keys_toNode : f.toNode.keys = f.keys.map fun k => some (.scalar k) := by
  unfold toNode keys
  split
  case isTrue h => simp [h, Node.keys]
  case isFalse => simp [Node.keys]

theorem find_copy {n : Node} {keys : List String} :
    find (keys.filterMap fun l => (n.find l).map (l, ·)) k =
      if k ∈ keys then n.find k else none := by
  induction keys with
  | nil => rfl
  | cons l keys ih =>
    rw [List.filterMap_cons]
    cases hl : n.find l with
    | none =>
      simp only [Option.map_none, ih, List.mem_cons]
      by_cases hk : k = l
      · subst hk
        simp [hl]
      · simp [hk]
    | some v =>
      simp only [Option.map_some, find_cons, ih, List.mem_cons]
      by_cases hk : l = k
      · subst hk
        simp [hl]
      · simp [hk, Ne.symm hk]

theorem keys_copy (n : Node) (keys : List String) :
    Fields.keys (keys.filterMap fun l => (n.find l).map (l, ·)) = keys.filter n.has := by
  induction keys with
  | nil => rfl
  | cons l keys ih =>
    rw [List.filterMap_cons, List.filter_cons, ← ih, Node.has]
    cases n.find l <;> rfl

theorem foldlM_set {τ : Type*} (build : Fields → τ) {step : τ → Option Node → Except Failure τ}
    (nodup : f.keys.Nodup)
    (assigns : ∀ g e, e ∈ f → step (build g) (some (.scalar e.1)) = .ok (build (g.set e.1 e.2))) :
    f.toNode.keys.foldlM step (build []) = .ok (build f) := by
  suffices h : ∀ pre post : Fields, f = pre ++ post →
      (post.map fun e => some (Node.scalar e.1)).foldlM step (build pre) = .ok (build f) by
    rw [keys_toNode, keys, List.map_map]
    exact h [] f rfl
  intro pre post
  induction post generalizing pre with
  | nil =>
    intro hf
    simp [hf]
  | cons e post ih =>
    intro hf
    have hmem : e ∈ f := by simp [hf]
    have hnew : e.1 ∉ pre.keys := by
      intro hpre
      rw [hf, keys, List.map_append, List.nodup_append] at nodup
      exact nodup.2.2 _ hpre _ (by simp) rfl
    rw [List.map_cons, List.foldlM_cons, assigns pre e hmem, bind_def, bind_ok,
      set_of_notMem hnew]
    exact ih _ (by simp [hf])

theorem foldlM_read {name : Option Node → Except Failure String}
    (read : String → Except Failure Node) {keys : List (Option Node)}
    (run : keys.foldlM (fun f key => do
      let k ← name key
      return set f k (← read k)) [] = .ok f) :
    f.keys.Nodup ∧ (∀ e ∈ f, read e.1 = .ok e.2) ∧
      ∀ k, f.has k = true ↔ ∃ key ∈ keys, name key = .ok k := by
  refine foldlM_induct (fun pre (f : Fields) => f.keys.Nodup ∧ (∀ e ∈ f, read e.1 = .ok e.2) ∧
    ∀ k, f.has k = true ↔ ∃ key ∈ pre, name key = .ok k) ?_ (by simp [Fields.keys, has]) run
  intro pre key post f f' _ ⟨hnodup, hread, hhas⟩ hstep
  simp only [bind_def, bind_eq_ok, pure_def, Except.ok.injEq] at hstep
  obtain ⟨k, hk, v, hv, rfl⟩ := hstep
  refine ⟨nodup_set hnodup, ?_, ?_⟩
  · intro e he
    have hfind := find_of_mem (nodup_set hnodup) he
    rw [find_set] at hfind
    split at hfind
    case isTrue heq =>
      rw [← heq, ← Option.some.inj hfind]
      exact hv
    case isFalse => exact hread e (mem_of_find hfind)
  · intro l
    rw [has_set, Bool.or_eq_true, decide_eq_true_eq, hhas l]
    constructor
    · rintro (rfl | ⟨key', hmem, hname⟩)
      · exact ⟨key, by simp, hk⟩
      · exact ⟨key', by simp [hmem], hname⟩
    · rintro ⟨key', hmem, hname⟩
      rcases List.mem_append.mp hmem with hpre | hlast
      · exact .inr ⟨key', hpre, hname⟩
      · rw [List.mem_singleton] at hlast
        subst hlast
        exact .inl (Except.ok.inj (hk.symm.trans hname))

end Fields

namespace Node

@[simp] theorem elements_sequence (l : List Node) : (sequence l).elements = l.map some := by
  cases l <;> rfl

@[simp] theorem isScalar_sequence (l : List Node) : (sequence l).isScalar = false := by
  cases l <;> rfl

theorem isKey_unique {k l : String} {key : Node} (hk : isKey k key = true)
    (hl : isKey l key = true) : k = l := by
  cases key <;> simp_all [isKey]

theorem find_remove {n : Node} {k l : String} (ne : k ≠ l) : (n.remove k).find l = n.find l := by
  cases n with
  | map entries =>
    have hfind : (entries.eraseP (isKey k ·.1)).find? (isKey l ·.1) =
        entries.find? (isKey l ·.1) := by
      induction entries with
      | nil => rfl
      | cons e entries ih =>
        by_cases hk : isKey k e.1 = true
        · have hl : isKey l e.1 = false := by
            by_contra hl
            exact ne (isKey_unique hk (by simpa using hl))
          simp [hk, hl]
        · by_cases hl : isKey l e.1 = true
          · simp [hk, hl]
          · simp [hk, hl, ih]
    simp only [remove, find, hfind]
  | null | scalar | seq => rfl

end Node

namespace Conversions

def intText : Int → String
  | .ofNat n => String.ofList (Nat.toDigits 10 n)
  | .negSucc n => String.ofList ('-' :: Nat.toDigits 10 (n + 1))

def readNat (digits : List Char) : Option Nat :=
  if digits ≠ [] ∧ digits.all Char.isDigit then some (Nat.ofDigitChars 10 digits 0) else none

def readInt (text : String) : Option Int :=
  match text.toList with
  | '-' :: digits => (readNat digits).map fun n => -n
  | digits => (readNat digits).map fun n => n

def readBool (text : String) : Option Bool :=
  if text = "true" then some true else if text = "false" then some false else none

instance (n : Int) : Decidable (IsInt n) := inferInstanceAs (Decidable (_ ∧ _))

/-- Integers in decimal notation, also where the program reads a `double`. -/
def decimal : Conversions Int where
  intOf text := (readInt text).filter fun n => decide (IsInt n)
  ofInt := intText
  boolOf := readBool
  ofBool b := if b then "true" else "false"
  doubleOf := readInt
  ofDouble := intText
  nullText := some "null"

theorem readNat_toDigits (n : Nat) : readNat (Nat.toDigits 10 n) = some n := by
  have hdigits : (Nat.toDigits 10 n).all Char.isDigit = true :=
    List.all_eq_true.mpr fun _ hc => Nat.isDigit_of_mem_toDigits (by decide) (by decide) hc
  rw [readNat, if_pos ⟨Nat.toDigits_ne_nil, hdigits⟩, Nat.ofDigitChars_ten_toDigits]

theorem readInt_intText (n : Int) : readInt (intText n) = some n := by
  cases n with
  | negSucc n => simp [readInt, intText, readNat_toDigits, Int.negSucc_eq]
  | ofNat n =>
    have hdigits : ∀ d ∈ Nat.toDigits 10 n, d.isDigit = true :=
      fun _ hc => Nat.isDigit_of_mem_toDigits (by decide) (by decide) hc
    have hread := readNat_toDigits n
    unfold readInt intText
    rw [String.toList_ofList]
    split
    case h_1 ds hcons =>
      have hminus := hdigits '-' (hcons ▸ List.mem_cons_self)
      exact absurd hminus (by decide)
    case h_2 => simp [hread]

theorem decimal_inverts : decimal.Inverts where
  int n h := by simp [decimal, readInt_intText, h]
  isInt text n h := by simpa using (Option.filter_eq_some_iff.mp h).2
  bool b := by cases b <;> decide
  double x := readInt_intText x

end Conversions

end DemosSched.Yaml
