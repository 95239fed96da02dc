import EngineMigrate.Server.Operation
import EngineMigrate.Yaml.Value

/-!
Metadata migrations: YAML lists of operations.  Main statement: reading a list gives one operation for
each of its items, in order, or names the first item that is none.
-/
namespace EngineMigrate.OperationFile

open Json (Members)

def jsonDouble (x : Binary64) : Json.Value := if x.isFinite then .double x else .null

mutual

/-- The JSON value of a YAML value: no tags on values, and texts as keys.  Tags on keys are passed over
if `looseKeys` says so. -/
def json? (looseKeys : Bool) : Yaml.Value → Option Json.Value
  | .null => some .null
  | .bool b => some (.bool b)
  | .integer i => some (.integer i)
  | .double x => some (jsonDouble x)
  | .string s => some (.string s)
  | .sequence items => (jsonItems? looseKeys items).map .array
  | .mapping entries => (jsonMembers? looseKeys entries).map fun ms => .object (Members.ofList ms)
  | .tagged _ _ => none

def jsonItems? (looseKeys : Bool) : List Yaml.Value → Option (List Json.Value)
  | [] => some []
  | v :: vs => match json? looseKeys v, jsonItems? looseKeys vs with
    | some j, some js => some (j :: js)
    | _, _ => none

def jsonMembers? (looseKeys : Bool) : List (Yaml.Value × Yaml.Value) →
    Option (List (String × Json.Value))
  | [] => some []
  | (k, v) :: es =>
    match (if looseKeys then k.untagged else k), json? looseKeys v, jsonMembers? looseKeys es with
    | .string name, some j, some js => some ((name, j) :: js)
    | _, _, _ => none

end

def text? (v : Yaml.Value) : Option String :=
  match v.untagged with
  | .string s => some s
  | _ => none

def named? (entries : List (Yaml.Value × Yaml.Value)) : Option (List (String × Yaml.Value)) :=
  entries.mapM fun e => (text? e.1).map (·, e.2)

/-- The value under a field's name, which must not stand twice. -/
def field? (name : String) (entries : List (String × Yaml.Value)) : Option (Option Yaml.Value) :=
  match entries.filter fun e => e.1 == name with
  | [] => some none
  | [e] => some (some e.2)
  | _ => none

def source? : Option Yaml.Value → Option (Option String)
  | none => some none
  | some .null => some none
  | some v => (text? v).map some

def extra? (entries : List (String × Yaml.Value)) : Option Members := do
  let others := entries.filter fun e => !Operation.fieldNames.contains e.1
  let ms ← others.mapM fun e => (json? false e.2).map (e.1, ·)
  return Members.ofList ms

def operation? (v : Yaml.Value) : Option Operation :=
  match v.untagged with
  | .mapping entries => do
    let entries ← named? entries
    let kind ← (← field? "type" entries) >>= text?
    let args ← match ← field? "args" entries with
      | some v => json? true v
      | none => some .null
    let source ← source? (← field? "source" entries)
    return ⟨kind, args, source, ← extra? entries⟩
  | _ => none

/-- Why a text is no list of operations. -/
inductive Fault where
  | malformed
  | notList
  /-- The item at this position, counted from 0, is no operation. -/
  | item (index : Nat)
deriving DecidableEq, Repr

/-- The operations of a list whose first item stands at `index`. -/
def operations (index : Nat) : List Yaml.Value → Except Fault (List Operation)
  | [] => .ok []
  | v :: vs => match operation? v with
    | some o => (operations (index + 1) vs).map (o :: ·)
    | none => .error (.item index)

theorem operations_eq_ok_iff {i : Nat} {vs : List Yaml.Value} {os : List Operation} :
    operations i vs = .ok os ↔ vs.map operation? = os.map some := by
  induction vs generalizing i os with
  | nil => cases os <;> simp [operations]
  | cons v vs ih =>
    simp only [operations, List.map_cons]
    cases hv : operation? v with
    | none => cases os <;> simp
    | some o =>
      cases hr : operations (i + 1) vs with
      | error f =>
        have hno : ∀ os : List Operation, vs.map operation? ≠ os.map some := fun os h => by
          rw [ih.2 h] at hr
          cases hr
        cases os <;> simp [Except.map, hno]
      | ok rest =>
        have hrest := ih.1 hr
        cases os with
        | nil => simp [Except.map]
        | cons p ps =>
          simp [Except.map, hrest, List.map_inj_right]

theorem operations_eq_error_iff {i : Nat} {vs : List Yaml.Value} {f : Fault} :
    operations i vs = .error f ↔
      ∃ n, vs.findIdx? (fun v => (operation? v).isNone) = some n ∧ f = .item (i + n) := by
  induction vs generalizing i with
  | nil => simp [operations]
  | cons v vs ih =>
    simp only [operations, List.findIdx?_cons]
    cases hv : operation? v with
    | none => simp [eq_comm]
    | some o =>
      have hm : ∀ x : Except Fault (List Operation),
          x.map (o :: ·) = .error f ↔ x = .error f := by
        intro x
        cases x <;> simp [Except.map]
      simp only [hm, ih, Option.isNone_some, Bool.false_eq_true, if_false, Option.map_eq_some_iff]
      constructor
      · rintro ⟨n, hn, rfl⟩
        exact ⟨n + 1, ⟨n, hn, rfl⟩, by congr 1; omega⟩
      · rintro ⟨_, ⟨n, hn, rfl⟩, rfl⟩
        exact ⟨n, hn, by congr 1; omega⟩

/-- The operations of a file; a file that holds nothing holds no operations. -/
def parse (text : String) : Except Fault (List Operation) :=
  match Yaml.Value.parse? text with
  | none => .error .malformed
  | some .null => .ok []
  | some (.sequence items) => operations 0 items
  | some _ => .error .notList

end EngineMigrate.OperationFile
