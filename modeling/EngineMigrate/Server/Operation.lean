import EngineMigrate.Json.Members
import EngineMigrate.Json.Reader

/-!
Operations of the server's API, the unit of a request and of a bulk.  Main statement: an operation that
is written and read again is the same, as long as its further members are sorted and none of them
carries a field's name.
-/
namespace EngineMigrate

open Json (Value Members)

structure Operation where
  kind : String
  args : Value
  source : Option String
  /-- Members of any other name, kept as they are. -/
  extra : Members
deriving DecidableEq, Repr

namespace Operation

def fieldNames : List String := ["type", "args", "source"]

def plain (kind : String) (args : Value) : Operation := ⟨kind, args, none, []⟩

/-- An action on one source; the empty name stands for the server's default source. -/
def onSource (kind : String) (args : Value) (source : String) : Operation :=
  ⟨kind, args, some source, []⟩

/-- The members that carry the fields; an operation that is tied to no source has none for it. -/
def fields (o : Operation) : Members :=
  .ofList ([("type", .string o.kind), ("args", o.args)] ++
    (o.source.map fun s => ("source", .string s)).toList)

/-- The written form; a further member overrides a field of its name. -/
def toJson (o : Operation) : Value := .object (o.fields.insertAll o.extra)

/-- Reads an object with a text as its type, anything or nothing as arguments, and a text, null or
nothing as source. -/
def ofJson? : Value → Option Operation
  | .object ms => do
    let kind ← Members.get? "type" ms >>= Value.string?
    let source ← Value.optional Value.string? (Members.get? "source" ms)
    return ⟨kind, (Members.get? "args" ms).getD .null, source,
      ms.filter fun m => !fieldNames.contains m.1⟩
  | _ => none

theorem get?_fields (o : Operation) (n : String) :
    Members.get? n o.fields =
      if n = "source" then o.source.map .string
      else if n = "args" then some o.args
      else if n = "type" then some (.string o.kind)
      else none := by
  obtain ⟨kind, args, source, extra⟩ := o
  have hplain : Members.get? n (.ofList [("type", .string kind), ("args", args)]) =
      if n = "args" then some args else if n = "type" then some (.string kind) else none := by
    simp only [Members.ofList, List.foldl, Members.get?_insert, Members.get?_nil]
  cases source with
  | none =>
    show Members.get? n (.ofList [("type", .string kind), ("args", args)]) = _
    rw [hplain]
    split
    · rename_i h
      subst h
      rfl
    · split
      · rename_i h
        subst h
        rfl
      · simp
  | some s =>
    show Members.get? n (.insert "source" (.string s)
      (.ofList [("type", .string kind), ("args", args)])) = _
    rw [Members.get?_insert, hplain]
    rfl

theorem ofJson?_toJson {o : Operation} (hs : o.extra.Sorted)
    (hf : ∀ n ∈ fieldNames, Members.get? n o.extra = none) : ofJson? o.toJson = some o := by
  have hget : ∀ n ∈ fieldNames,
      Members.get? n (o.fields.insertAll o.extra) = Members.get? n o.fields := fun n hn => by
    rw [Members.get?_insertAll hs, hf n hn, Option.none_or]
  have hextra : (o.fields.insertAll o.extra).filter (fun m => !fieldNames.contains m.1) =
      o.extra := by
    refine Members.ext (Members.sorted_filter
      (Members.sorted_insertAll (Members.sorted_ofList _)) _) hs fun n => ?_
    rw [Members.get?_filter (fun n => !fieldNames.contains n)]
    by_cases hn : n ∈ fieldNames
    · simp [hn, hf n hn]
    · have hne : n ≠ "type" ∧ n ≠ "args" ∧ n ≠ "source" := by simpa [fieldNames] using hn
      simp [hn, Members.get?_insertAll hs, get?_fields, hne]
  simp only [toJson, ofJson?, hget _ (show "type" ∈ fieldNames by decide),
    hget _ (show "args" ∈ fieldNames by decide), hget _ (show "source" ∈ fieldNames by decide),
    hextra, get?_fields]
  obtain ⟨kind, args, source, extra⟩ := o
  cases source <;> simp [Value.string?, Value.optional]

/-- Whether the operation is SQL, which only query endpoints take. -/
def isSql (o : Operation) : Bool := o.kind.endsWith "run_sql"

end Operation

inductive Database where
  | postgres
  | mysql
deriving DecidableEq, Repr

namespace Database

/-- What the metadata actions of a source of this kind begin with. -/
def actionPrefix : Database → String
  | .postgres => "pg_"
  | .mysql => "mysql_"

def name : Database → String
  | .postgres => "postgres"
  | .mysql => "mysql"

def parse? (s : String) : Option Database :=
  if s = "postgres" then some .postgres else if s = "mysql" then some .mysql else none

end Database

/-- A metadata action on a source; the default source, named by the empty text, is left out. -/
def Operation.metadata (database : Database) (action : String) (args : Value) (source : String) :
    Operation :=
  let kind := database.actionPrefix ++ action
  if source.isEmpty then .plain kind args else .onSource kind args source

structure SqlArgs where
  sql : String
  source : Option String
  cascade : Option Bool
  readOnly : Option Bool
  checkConsistency : Option Bool
deriving DecidableEq, Repr

namespace SqlArgs

def ofSql (sql : String) : SqlArgs := ⟨sql, none, none, none, none⟩

def fieldNames : List String :=
  ["sql", "source", "cascade", "read_only", "check_metadata_consistency"]

def ofJson? (v : Value) : Option SqlArgs := do
  match ← v.fields? fieldNames with
  | [sql, source, cascade, readOnly, check] =>
    let sql ← sql >>= Value.string?
    let source ← Value.optional Value.string? source
    let cascade ← Value.optional Value.bool? cascade
    let readOnly ← Value.optional Value.bool? readOnly
    let check ← Value.optional Value.bool? check
    return ⟨sql, source, cascade, readOnly, check⟩
  | _ => none

/-- A member that is left out when it has no value. -/
def member {α : Type} (name : String) (f : α → Value) : Option α → List (String × Value)
  | some a => [(name, f a)]
  | none => []

/-- The written form, in which absent arguments are left out. -/
def toJson (a : SqlArgs) : Value :=
  Value.ofMembers ([("sql", .string a.sql)] ++ member "source" .string a.source ++
    member "cascade" .bool a.cascade ++ member "read_only" .bool a.readOnly ++
    member "check_metadata_consistency" .bool a.checkConsistency)

end SqlArgs

/-- How SQL is put to a query endpoint. -/
inductive SqlRoute where
  /-- The query endpoint of a server with one database. -/
  | query
  /-- The query endpoint of a server with data sources, scoped to one of them. -/
  | source (name : String)
deriving DecidableEq, Repr

namespace SqlRoute

/-- The name of a source, where the empty name means the default one. -/
def named (source : String) : String := if source.isEmpty then "default" else source

def operation (route : SqlRoute) (args : SqlArgs) : Operation :=
  match route with
  | .query => .plain "run_sql" args.toJson
  | .source name => .onSource "run_sql" args.toJson (named name)

def bulkSource : SqlRoute → Option String
  | .query => none
  | .source name => some (named name)

end SqlRoute

end EngineMigrate
