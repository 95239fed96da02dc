import EngineMigrate.Decimal.Binary64

/-!
JSON values.  The members of an object are a list of names and values that `Members.insert` keeps in
strictly ascending order of names, so that equal objects are equal lists.
-/
namespace EngineMigrate.Json

inductive Value where
  | null
  | bool (b : Bool)
  | integer (i : Int)
  | double (x : Binary64)
  | string (s : String)
  | array (items : List Value)
  | object (members : List (String × Value))
deriving Repr, Inhabited

abbrev Members := List (String × Value)

namespace Members

def insert (name : String) (v : Value) : Members → Members
  | [] => [(name, v)]
  | (n, w) :: rest =>
    if name < n then (name, v) :: (n, w) :: rest
    else if name = n then (name, v) :: rest
    else (n, w) :: insert name v rest

def get? (name : String) : Members → Option Value
  | [] => none
  | (n, w) :: rest => if n = name then some w else get? name rest

def erase (name : String) (ms : Members) : Members := ms.filter fun m => m.1 != name

/-- The later of two members of one name wins. -/
def ofList (ms : List (String × Value)) : Members :=
  ms.foldl (fun acc m => insert m.1 m.2 acc) []

def insertAll (ms added : Members) : Members := added.foldl (fun acc m => insert m.1 m.2 acc) ms

/-- Names in strictly ascending order. -/
def Sorted (ms : Members) : Prop := ms.Pairwise fun a b => a.1 < b.1

@[simp] theorem get?_nil (name : String) : get? name [] = none := rfl

@[simp] theorem get?_insert_self (name : String) (v : Value) (ms : Members) :
    get? name (insert name v ms) = some v := by
  induction ms with
  | nil => simp [insert, get?]
  | cons m ms ih =>
    obtain ⟨n, w⟩ := m
    simp only [insert]
    split
    · simp [get?]
    · split
      · simp [get?]
      · rename_i h
        simp [get?, Ne.symm h, ih]

theorem get?_insert_of_ne {name other : String} (h : other ≠ name) (v : Value) (ms : Members) :
    get? other (insert name v ms) = get? other ms := by
  induction ms with
  | nil => simp [insert, get?, Ne.symm h]
  | cons m ms ih =>
    obtain ⟨n, w⟩ := m
    simp only [insert]
    split
    · simp [get?, Ne.symm h]
    · split
      · rename_i hn
        subst hn
        simp [get?, Ne.symm h]
      · simp [get?, ih]

end Members

namespace Value

def ofMembers (ms : List (String × Value)) : Value := .object (Members.ofList ms)

def nat (n : Nat) : Value := .integer n

def ofOption {α : Type} (f : α → Value) : Option α → Value
  | none => .null
  | some a => f a

def string? : Value → Option String
  | .string s => some s
  | _ => none

def bool? : Value → Option Bool
  | .bool b => some b
  | _ => none

def array? : Value → Option (List Value)
  | .array items => some items
  | _ => none

def nat? : Value → Option Nat
  | .integer i => if 0 ≤ i then some i.toNat else none
  | _ => none

/-- A value that may be left out: null counts as left out. -/
def optional {α : Type} (read : Value → Option α) : Option Value → Option (Option α)
  | none => some none
  | some .null => some none
  | some v => (read v).map some

/-- A value with a default, which null does not stand for. -/
def orDefault {α : Type} (default : α) (read : Value → Option α) : Option Value → Option α
  | none => some default
  | some v => read v

def get? (name : String) : Value → Option Value
  | .object ms => Members.get? name ms
  | _ => none

def at? (i : Nat) : Value → Option Value
  | .array items => items[i]?
  | _ => none

@[simp] theorem nat?_nat (n : Nat) : (nat n).nat? = some n := by
  simp [nat, nat?]

mutual

def decEq : (v w : Value) → Decidable (v = w)
  | .null, w => match w with
    | .null => isTrue rfl
    | .bool _ | .integer _ | .double _ | .string _ | .array _ | .object _ => isFalse (by simp)
  | .bool a, w => match w with
    | .bool b => decidable_of_iff (a = b) (by simp)
    | .null | .integer _ | .double _ | .string _ | .array _ | .object _ => isFalse (by simp)
  | .integer a, w => match w with
    | .integer b => decidable_of_iff (a = b) (by simp)
    | .null | .bool _ | .double _ | .string _ | .array _ | .object _ => isFalse (by simp)
  | .double a, w => match w with
    | .double b => decidable_of_iff (a = b) (by simp)
    | .null | .bool _ | .integer _ | .string _ | .array _ | .object _ => isFalse (by simp)
  | .string a, w => match w with
    | .string b => decidable_of_iff (a = b) (by simp)
    | .null | .bool _ | .integer _ | .double _ | .array _ | .object _ => isFalse (by simp)
  | .array a, w => match w with
    | .array b => match decEqItems a b with
      | isTrue h => isTrue (by simp [h])
      | isFalse h => isFalse (by simp [h])
    | .null | .bool _ | .integer _ | .double _ | .string _ | .object _ => isFalse (by simp)
  | .object a, w => match w with
    | .object b => match decEqMembers a b with
      | isTrue h => isTrue (by simp [h])
      | isFalse h => isFalse (by simp [h])
    | .null | .bool _ | .integer _ | .double _ | .string _ | .array _ => isFalse (by simp)

def decEqItems : (vs ws : List Value) → Decidable (vs = ws)
  | [], [] => isTrue rfl
  | [], _ :: _ => isFalse (by simp)
  | _ :: _, [] => isFalse (by simp)
  | v :: vs, w :: ws => match decEq v w, decEqItems vs ws with
    | isTrue h, isTrue hs => isTrue (by simp [h, hs])
    | isFalse h, _ => isFalse (by simp [h])
    | _, isFalse hs => isFalse (by simp [hs])

def decEqMembers : (vs ws : List (String × Value)) → Decidable (vs = ws)
  | [], [] => isTrue rfl
  | [], _ :: _ => isFalse (by simp)
  | _ :: _, [] => isFalse (by simp)
  | (n, v) :: vs, (m, w) :: ws => match decEq v w, decEqMembers vs ws with
    | isTrue h, isTrue hs => decidable_of_iff (n = m) (by simp [h, hs])
    | isFalse h, _ => isFalse (by simp [h])
    | _, isFalse hs => isFalse (by simp [hs])

end

instance : DecidableEq Value := decEq

end Value

end EngineMigrate.Json
