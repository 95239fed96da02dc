import EngineMigrate.Json.Number
import EngineMigrate.Json.Printer

/-!
JSON values from their written form, and records from either.  A record is an object, or an array of
its fields in declared order; of an object members nobody declared are skipped unread, and a declared
one may not stand twice.
-/
namespace EngineMigrate.Json

open Text (Glyph)

def hexValue (g : Glyph) : Nat := match g with
  | some c => if c.isDigit then c.toNat - 48 else if 'a' ≤ c then c.toNat - 87 else c.toNat - 55
  | none => 0

def hex4 (a b c d : Glyph) : Nat :=
  ((hexValue a * 16 + hexValue b) * 16 + hexValue c) * 16 + hexValue d

def unescape (e : Char) : Char :=
  match e with
  | 'b' => '\x08'
  | 'f' => '\x0c'
  | 'n' => '\n'
  | 'r' => '\r'
  | 't' => '\t'
  | c => c

/-- The characters of a string body.  Surrogates must come in pairs, and every byte must be text. -/
def decodeString : List Glyph → Option (List Char)
  | [] => some []
  | some '\\' :: some 'u' :: a :: b :: c :: d :: rest =>
    let high := hex4 a b c d
    if 0xDC00 ≤ high && high ≤ 0xDFFF then none
    else if 0xD800 ≤ high && high ≤ 0xDBFF then
      match rest with
      | some '\\' :: some 'u' :: e :: f :: g :: h :: rest =>
        let low := hex4 e f g h
        if 0xDC00 ≤ low && low ≤ 0xDFFF then
          (decodeString rest).map
            (Char.ofNat (0x10000 + (high - 0xD800) * 0x400 + (low - 0xDC00)) :: ·)
        else none
      | _ => none
    else (decodeString rest).map (Char.ofNat high :: ·)
  | some '\\' :: some e :: rest => (decodeString rest).map (unescape e :: ·)
  | some c :: rest => (decodeString rest).map (c :: ·)
  | none :: _ => none

/-- The nesting that is read: one level for every array and object around a value. -/
def depthLimit : Nat := 127

namespace Document

mutual

/-- The value of a document of at most `depth` levels. -/
def value? (depth : Nat) : Document → Option Value
  | .null => some .null
  | .bool b => some (.bool b)
  | .number n => n.value?
  | .string raw => (decodeString raw).map fun cs => .string (String.ofList cs)
  | .array items =>
    if depth = 0 then none else (values? (depth - 1) items).map .array
  | .object members =>
    if depth = 0 then none
    else (memberValues? (depth - 1) members).map fun ms => .object (Members.ofList ms)

def values? (depth : Nat) : List Document → Option (List Value)
  | [] => some []
  | d :: ds => match value? depth d, values? depth ds with
    | some v, some vs => some (v :: vs)
    | _, _ => none

def memberValues? (depth : Nat) : List (List Glyph × Document) → Option (List (String × Value))
  | [] => some []
  | (name, d) :: ms => match decodeString name, value? depth d, memberValues? depth ms with
    | some n, some v, some vs => some ((String.ofList n, v) :: vs)
    | _, _, _ => none

end

end Document

/-- The fields of a record as found: a value for each declared name, or none. -/
abbrev Fields := List (Option Value)

/-- Puts a value into the field of a name; a second value for a name is refused, and a name that is
not declared leaves the fields alone. -/
def fill (name : String) (v : Unit → Option Value) : List String → Fields → Option Fields
  | n :: ns, f :: fs =>
    if n = name then
      if f.isSome then none else (v ()).map fun v => some v :: fs
    else (fill name v ns fs).map (f :: ·)
  | _, fs => some fs

namespace Document

def fields? (names : List String) : Document → Option Fields
  | .object members => members.foldlM (fun fs m => do
      let name ← decodeString m.1
      fill (String.ofList name) (fun _ => m.2.value? (depthLimit - 1)) names fs)
      (names.map fun _ => none)
  | .array items => do
    if names.length < items.length then none
    else
      let vs ← values? (depthLimit - 1) items
      return vs.map some ++ List.replicate (names.length - vs.length) none
  | _ => none

end Document

namespace Value

def fields? (names : List String) : Value → Option Fields
  | .object ms => some (names.map fun n => Members.get? n ms)
  | .array items =>
    if names.length < items.length then none
    else some (items.map some ++ List.replicate (names.length - items.length) none)
  | _ => none

def ofGlyphs? (gs : List Glyph) : Option Value := Document.parse gs >>= Document.value? depthLimit

def parse? (s : String) : Option Value := ofGlyphs? (Text.ofText s)

def ofBytes? (bytes : ByteArray) : Option Value := ofGlyphs? (Text.ofBytes bytes)

end Value

def fieldsOfBytes? (names : List String) (bytes : ByteArray) : Option Fields :=
  Document.parse (Text.ofBytes bytes) >>= Document.fields? names

end EngineMigrate.Json
