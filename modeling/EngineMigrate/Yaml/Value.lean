import EngineMigrate.Json.Value
import EngineMigrate.Yaml.Node
import EngineMigrate.Yaml.Scalar

/-!
YAML values: the trees of a document with its aliases followed and its scalars understood.  How deep a
value is nested and how often aliases are followed is bounded.
-/
namespace EngineMigrate.Yaml

inductive Value where
  | null
  | bool (b : Bool)
  | integer (i : Int)
  | double (x : Binary64)
  | string (s : String)
  | sequence (items : List Value)
  | mapping (entries : List (Value × Value))
  | tagged (tag : String) (v : Value)
deriving Repr, Inhabited

namespace Value

/-- Equal as numbers are: the two zeros are one, and not-a-number is itself. -/
def sameDouble (x y : Binary64) : Bool :=
  x.bits == y.bits || (x.isZero && y.isZero) || (x.isNaN && y.isNaN)

mutual

/-- Equality of keys: the order of a mapping's entries does not count. -/
def same : Value → Value → Bool
  | .null, .null => true
  | .bool a, .bool b => a == b
  | .integer a, .integer b => a == b
  | .double a, .double b => sameDouble a b
  | .string a, .string b => a == b
  | .sequence a, .sequence b => sameItems a b
  | .mapping a, .mapping b => a.length == b.length && sameEntries a b
  | .tagged t a, .tagged u b => t == u && same a b
  | _, _ => false

def sameItems : List Value → List Value → Bool
  | [], [] => true
  | a :: as, b :: bs => same a b && sameItems as bs
  | _, _ => false

/-- Whether every entry of the first mapping is one of the second. -/
def sameEntries : List (Value × Value) → List (Value × Value) → Bool
  | [], _ => true
  | (k, v) :: es, b => hasEntry k v b && sameEntries es b

def hasEntry (k v : Value) : List (Value × Value) → Bool
  | [] => false
  | (k', v') :: es => (same k k' && same v v') || hasEntry k v es

end

def untagged : Value → Value
  | .tagged _ v => v
  | v => v

end Value

def boolTag : String := "tag:yaml.org,2002:bool"

def integerTag : String := "tag:yaml.org,2002:int"

def doubleTag : String := "tag:yaml.org,2002:float"

def nullTag : String := "tag:yaml.org,2002:null"

def localTag? (tag : Option String) : Option String :=
  match tag.map String.toList with
  | some ('!' :: name) => some (String.ofList name)
  | _ => none

def Scalar.Meaning.value? (text : String) : Scalar.Meaning → Option Value
  | .null => some .null
  | .bool b => some (.bool b)
  | .integer i => some (.integer i)
  | .outOfRange => none
  | .double x => some (.double x)
  | .text => some (.string text)

def scalarValue? (tag : Option String) (style : Style) (text : String) : Option Value :=
  if tag = some boolTag then (Scalar.bool? text).map .bool
  else if tag = some integerTag then (Scalar.integer? text).bind (·.value? text)
  else if tag = some doubleTag then (Scalar.double? text).map .double
  else if tag = some nullTag then if Scalar.isNull text then some .null else none
  else if style = .plain && (tag.isNone || (localTag? tag).isSome) then
    (Scalar.meaning text).value? text
  else some (.string text)

/-- Puts the local tag of a node on its value; a tag has a name. -/
def putTag (tag : Option String) (v : Value) : Option Value :=
  match localTag? tag with
  | some name => if name.isEmpty then none else some (.tagged name v)
  | none => some v

namespace Document

def depthLimit : Nat := 128

/-- How often aliases are followed, for each unit of the document's weight. -/
def aliasFactor : Nat := 100

/-- Reading values, with the number of aliases that may still be followed. -/
abbrev Read (α : Type) := StateT Nat Option α

def follow (d : Document) : Node → Read Node
  | .alias a => do
    match ← get with
    | 0 => failure
    | left + 1 =>
      set left
      d.find? a
  | n => return n

def readEntries (read : Node → Read Value) (seen : List (Value × Value)) :
    List (Node × Node) → Read (List (Value × Value))
  | [] => return seen
  | (k, v) :: es => do
    let key ← read k
    if seen.any fun e => key.same e.1 then failure
    let value ← read v
    readEntries read (seen ++ [(key, value)]) es

def readValue (d : Document) : Nat → Node → Read Value
  | depth, n => do
    match depth, ← d.follow n with
    | _, .scalar _ tag style text => do putTag tag (← scalarValue? tag style text)
    | depth + 1, .sequence _ tag items => do
      putTag tag (.sequence (← items.mapM (readValue d depth)))
    | depth + 1, .mapping _ tag entries => do
      putTag tag (.mapping (← readEntries (readValue d depth) [] entries))
    | _, _ => failure

def value? (d : Document) : Option Value :=
  match d.root with
  | none => some .null
  | some n => ((readValue d depthLimit n).run (aliasFactor * d.weight)).map Prod.fst

end Document

def Value.parse? (text : String) : Option Value := Document.parse? text >>= Document.value?

end EngineMigrate.Yaml
