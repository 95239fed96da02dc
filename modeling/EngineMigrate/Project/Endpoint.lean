import EngineMigrate.Project.Config
import EngineMigrate.Server.Exchange
import EngineMigrate.Url.Parser

/-!
The server's endpoint: its URL as a directory that API paths are joined to, and the headers of every
request.  A secret is sent under one name only, and the newer one wins.
-/
namespace EngineMigrate

structure Endpoint where
  base : Url
  /-- Names in lower case, each once. -/
  headers : List (String × String)
deriving DecidableEq, Repr

namespace Endpoint

def adminSecretHeader : String := "x-hasura-admin-secret"

def accessKeyHeader : String := "x-hasura-access-key"

def isNameChar (c : Char) : Bool := c.isAlphanum || "!#$%&'*+-.^_\x60|~".toList.contains c

/-- Controls cannot stand in a header's value, the tab apart. -/
def isValueChar (c : Char) : Bool := c == '\t' || (32 ≤ c.toNat && c.toNat ≠ 127)

def isHeaderName (name : String) : Bool := !name.isEmpty && name.toList.all isNameChar

def isHeaderValue (value : String) : Bool := value.toList.all isValueChar

def lowerName (name : String) : String := String.ofList (name.toList.map Char.toLower)

/-- Sets a header, in place of an earlier one of its name. -/
def setHeader (name value : String) (headers : List (String × String)) :
    Except SendFault (List (String × String)) :=
  if isHeaderName name && isHeaderValue value then
    .ok (headers.filter (fun h => h.1 != lowerName name) ++ [(lowerName name, value)])
  else .error (.invalidHeader name)

def secret? (c : Config) : Option (String × String) :=
  match c.adminSecret.filter (· ≠ ""), c.accessKey.filter (· ≠ "") with
  | some s, _ => some (adminSecretHeader, s)
  | none, some k => some (accessKeyHeader, k)
  | none, none => none

def headersOf (c : Config) : Except SendFault (List (String × String)) :=
  (c.headers ++ (secret? c).toList).foldlM (fun headers h => setHeader h.1 h.2 headers) []

def create (endpoint : String) (headers : List (String × String)) : Except SendFault Endpoint :=
  match Url.parse endpoint with
  | .ok u => .ok ⟨u.asDirectory, headers⟩
  | .error f => .error (.invalidUrl endpoint f)

def ofConfig (c : Config) : Except SendFault Endpoint := do
  create c.endpoint (← headersOf c)

/-- The URL of an API path; slashes in front of the path do not count. -/
def urlFor (e : Endpoint) (path : String) : Except SendFault Url :=
  (e.base.join (String.ofList (path.toList.dropWhile (· == '/')))).mapError (.invalidUrl path)

/-- The URL to send a request to, if there is one that can be reached at all. -/
def target (e : Endpoint) (path : String) : Except SendFault Url := do
  let u ← e.urlFor path
  if u.scheme = "http".toList || u.scheme = "https".toList then return u else throw .connection

end Endpoint

end EngineMigrate
