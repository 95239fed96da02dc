import EngineMigrate.Server.Release
import EngineMigrate.Server.Response

/-!
Asking the server for its version, and from that for its capability.  A capability that is given makes
the question unnecessary.
-/
namespace EngineMigrate

open Json (Value)

inductive VersionFault where
  | invalidFormat (text : String)
  | send (fault : SendFault)
  | api (fault : ApiFault)
  | unknownCapability (name : String)
deriving DecidableEq, Repr

def VersionFault.message : VersionFault → String
  | .invalidFormat text => "Invalid version format: " ++ text
  | .send fault => "Transport error: " ++ fault.message
  | .api fault => "API error: " ++ fault.message
  | .unknownCapability name =>
    "Unknown server capability " ++ name ++ ", expected legacy or datasources"

def Release.parse (s : String) : Except VersionFault Release :=
  match Release.parse? s with
  | some r => .ok r
  | none => .error (.invalidFormat s)

def Capability.parse (s : String) : Except VersionFault Capability :=
  match Capability.parse? s with
  | some c => .ok c
  | none => .error (.unknownCapability s)

structure ServerInfo where
  version : String
  serverType : Option String
deriving DecidableEq, Repr

namespace ServerInfo

def fieldNames : List String := ["version", "server_type"]

def ofFields? : Json.Fields → Option ServerInfo
  | [version, serverType] => do
    let version ← version >>= Value.string?
    let serverType ← Value.optional Value.string? serverType
    return ⟨version, serverType⟩
  | _ => none

def ofBytes? (body : ByteArray) : Option ServerInfo :=
  Json.fieldsOfBytes? fieldNames body >>= ofFields?

def release? (i : ServerInfo) : Option Release := Release.parse? i.version

def capability (i : ServerInfo) : Capability := Capability.ofVersion i.version

def probe (path : String) : Attempt VersionFault ServerInfo := do
  let response ← (Attempt.get path).within .send
  Attempt.ofExcept .api (response.decode ofBytes?)

end ServerInfo

/-- The given capability, or what the server reports. -/
def Capability.detect (path : String) : Option Capability → Attempt VersionFault Capability
  | some c => pure c
  | none => do return (← ServerInfo.probe path).capability

end EngineMigrate
