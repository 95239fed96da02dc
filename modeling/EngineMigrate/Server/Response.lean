import EngineMigrate.Server.Exchange
import EngineMigrate.Json.Reader

/-!
What a response means.  Only status 200 is a success; of any other response the server's own error is
read if the body holds one, and the body's text is kept if it does not.
-/
namespace EngineMigrate

open Json (Value)

/-- An error as the server reports it; `path` points into the request that failed. -/
structure ServerFault where
  path : String
  error : String
  code : String
  internal : Option Value
deriving DecidableEq, Repr

namespace ServerFault

def fieldNames : List String := ["path", "error", "code", "internal"]

def ofFields? : Json.Fields → Option ServerFault
  | [path, error, code, internal] => do
    let path ← Value.orDefault "" Value.string? path
    let error ← error >>= Value.string?
    let code ← Value.orDefault "" Value.string? code
    let internal ← Value.optional some internal
    return ⟨path, error, code, internal⟩
  | _ => none

def ofBytes? (body : ByteArray) : Option ServerFault :=
  Json.fieldsOfBytes? fieldNames body >>= ofFields?

def message (f : ServerFault) : String :=
  "[" ++ f.code ++ "] " ++ f.error ++ (if f.path.isEmpty then "" else " (" ++ f.path ++ ")")

end ServerFault

/-- Ways in which an answered request did not succeed. -/
inductive ApiFault where
  | server (fault : ServerFault)
  | unexpected (status : Nat) (body : String)
  /-- A body that is not what the action answers. -/
  | undecodable
  | resultType (name : String)
deriving DecidableEq, Repr

namespace ApiFault

def message : ApiFault → String
  | .server fault => fault.message
  | .unexpected status body => "Unexpected response (" ++ toString status ++ "): " ++ body
  | .undecodable => "Invalid response body"
  | .resultType name => "Unexpected result type " ++ name

/-- The fault that the body of an unsuccessful response stands for. -/
def ofResponse (r : Response) : ApiFault :=
  match ServerFault.ofBytes? r.body with
  | some fault => .server fault
  | none => .unexpected r.status (Text.lossy r.body)

def serverFault? : ApiFault → Option ServerFault
  | .server fault => some fault
  | _ => none

end ApiFault

namespace Response

def isSuccess (r : Response) : Bool := r.status == 200

/-- The response itself if it is a success, else its fault. -/
def checked (r : Response) : Except ApiFault Response :=
  if r.isSuccess then .ok r else .error (.ofResponse r)

def decode {α : Type} (read : ByteArray → Option α) (r : Response) : Except ApiFault α := do
  let r ← r.checked
  match read r.body with
  | some a => .ok a
  | none => .error .undecodable

def json (r : Response) : Except ApiFault Value := r.decode Value.ofBytes?

def text (r : Response) : String := Text.lossy r.body

end Response

/-- The answer to a `run_sql` action: rows of optional texts, the first row naming the columns. -/
structure SqlResult where
  resultType : String
  table : Option (List (List (Option String)))
deriving DecidableEq, Repr

namespace SqlResult

def fieldNames : List String := ["result_type", "result"]

def cell? : Value → Option (Option String)
  | .null => some none
  | .string s => some (some s)
  | _ => none

def row? (v : Value) : Option (List (Option String)) := v.array? >>= List.mapM cell?

def table? (v : Value) : Option (List (List (Option String))) := v.array? >>= List.mapM row?

def ofFields? : Json.Fields → Option SqlResult
  | [resultType, table] => do
    let resultType ← resultType >>= Value.string?
    let table ← Value.optional table? table
    return ⟨resultType, table⟩
  | _ => none

def ofBytes? (body : ByteArray) : Option SqlResult :=
  Json.fieldsOfBytes? fieldNames body >>= ofFields?

def rows (r : SqlResult) : List (List (Option String)) := (r.table.getD []).drop 1

def isTuples (r : SqlResult) : Bool := r.resultType == "TuplesOk"

def isCommand (r : SqlResult) : Bool := r.resultType == "CommandOk"

end SqlResult

structure Consistency where
  isConsistent : Bool
  objects : List Value
deriving DecidableEq, Repr

namespace Consistency

def fieldNames : List String := ["is_consistent", "inconsistent_objects"]

def ofFields? : Json.Fields → Option Consistency
  | [consistent, objects] => do
    let consistent ← consistent >>= Value.bool?
    let objects ← Value.orDefault [] Value.array? objects
    return ⟨consistent, objects⟩
  | _ => none

def ofJson? (v : Value) : Option Consistency := v.fields? fieldNames >>= ofFields?

end Consistency

end EngineMigrate
