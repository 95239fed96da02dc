import EngineMigrate.Yaml.Token

/-!
YAML documents as trees.  Aliases stay in the tree and refer to numbered anchors, so that a tree is as
large as its text; `Document.find?` looks an anchor up.
-/
namespace EngineMigrate.Yaml

inductive Node where
  | scalar (anchor : Option Nat) (tag : Option String) (style : Style) (text : String)
  | sequence (anchor : Option Nat) (tag : Option String) (items : List Node)
  | mapping (anchor : Option Nat) (tag : Option String) (entries : List (Node × Node))
  | alias (anchor : Nat)
deriving Repr, Inhabited

namespace Node

/-- A value that is not written. -/
def blank : Node := .scalar none none .plain ""

mutual

/-- The nodes of a tree that carry an anchor, from the top down. -/
def anchored : Node → List (Nat × Node)
  | .scalar anchor tag style text => (anchor.map (·, .scalar anchor tag style text)).toList
  | .sequence anchor tag items =>
    (anchor.map (·, .sequence anchor tag items)).toList ++ anchoredItems items
  | .mapping anchor tag entries =>
    (anchor.map (·, .mapping anchor tag entries)).toList ++ anchoredEntries entries
  | .alias _ => []

def anchoredItems : List Node → List (Nat × Node)
  | [] => []
  | n :: ns => n.anchored ++ anchoredItems ns

def anchoredEntries : List (Node × Node) → List (Nat × Node)
  | [] => []
  | (k, v) :: es => k.anchored ++ v.anchored ++ anchoredEntries es

end

mutual

/-- One for every scalar and alias, two for every collection. -/
def weight : Node → Nat
  | .scalar _ _ _ _ => 1
  | .sequence _ _ items => weightItems items + 2
  | .mapping _ _ entries => weightEntries entries + 2
  | .alias _ => 1

def weightItems : List Node → Nat
  | [] => 0
  | n :: ns => n.weight + weightItems ns

def weightEntries : List (Node × Node) → Nat
  | [] => 0
  | (k, v) :: es => k.weight + v.weight + weightEntries es

end

end Node

/-- What has been declared so far: the prefixes of tag handles, and the anchors with their numbers. -/
structure Declared where
  handles : List (List Char × List Char)
  anchors : List (List Char × Nat)

namespace Declared

def none : Declared := ⟨[(['!'], ['!']), (['!', '!'], "tag:yaml.org,2002:".toList)], []⟩

/-- An anchor's number is the count of the names declared before it; a name that is declared again moves. -/
def declare (d : Declared) (name : List Char) : Nat × Declared :=
  let n := d.anchors.length
  (n, { d with anchors := (d.anchors.filter fun a => a.1 != name) ++ [(name, n)] })

def anchor? (d : Declared) (name : List Char) : Option Nat :=
  (d.anchors.find? fun a => a.1 == name).map Prod.snd

def tag? (d : Declared) (handle suffix : List Char) : Option String :=
  if handle.isEmpty then some (String.ofList suffix)
  else (d.handles.find? fun h => h.1 == handle).map fun h => String.ofList (h.2 ++ suffix)

end Declared

structure NodeReader where
  tokens : List Token
  declared : Declared

namespace NodeReader

abbrev Read (α : Type) := StateT NodeReader Option α

def peek : Read (Option Token) := return (← get).tokens.head?

def skip : Read Unit := modify fun r => { r with tokens := r.tokens.tail }

def accept (t : Token) : Read Bool := do
  if (← peek) == some t then
    skip
    return true
  else return false

def isNext (ts : List Token) : Read Bool := return (← peek).any ts.contains

def anchor : Read (Option Nat) := do
  match ← peek with
  | some (.anchor name) =>
    skip
    let r ← get
    let (n, declared) := r.declared.declare name
    set { r with declared := declared }
    return some n
  | _ => return none

def tag : Read (Option String) := do
  match ← peek with
  | some (.tag handle suffix) =>
    skip
    let t ← (← get).declared.tag? handle suffix
    return some t
  | _ => return none

def properties : Read (Option Nat × Option String) := do
  match ← anchor with
  | some a => return (some a, ← tag)
  | none =>
    let t ← tag
    if t.isSome then return (← anchor, t) else return (none, none)

/-- The tag of a scalar; the bare exclamation mark says nothing about it. -/
def scalarTag (t : Option String) : Option String := t.filter (· ≠ "!")

mutual

/-- A node; `block` allows block collections, `indentless` a sequence at its key's own column.  The
fuel bounds the calls. -/
def node (block indentless : Bool) : Nat → Read Node
  | 0 => failure
  | fuel + 1 => do
    match ← peek with
    | some (.alias name) =>
      skip
      let n ← (← get).declared.anchor? name
      return .alias n
    | _ =>
      let (a, t) ← properties
      match ← peek with
      | some .blockEntry =>
        if indentless then return .sequence a t (← indentlessItems fuel)
        else if a.isSome || t.isSome then return .scalar a t .plain ""
        else failure
      | some (.scalar style text) =>
        skip
        return .scalar a (scalarTag t) style (String.ofList text)
      | some .flowSequence =>
        skip
        return .sequence a t (← flowItems true fuel)
      | some .flowMapping =>
        skip
        return .mapping a t (← flowEntries true fuel)
      | other =>
        if block && other == some .blockSequence then
          skip
          return .sequence a t (← blockItems fuel)
        else if block && other == some .blockMapping then
          skip
          return .mapping a t (← blockEntries fuel)
        else if a.isSome || t.isSome then return .scalar a t .plain ""
        else failure

/-- A node, or nothing before one of the given tokens. -/
def nodeUnless (ends : List Token) (block indentless : Bool) : Nat → Read Node
  | 0 => failure
  | fuel + 1 => do
    if ← isNext ends then return .blank
    node block indentless fuel

def blockItems : Nat → Read (List Node)
  | 0 => failure
  | fuel + 1 => do
    if ← accept .blockEntry then
      let item ← nodeUnless [.blockEntry, .blockEnd] true false fuel
      return item :: (← blockItems fuel)
    else if ← accept .blockEnd then return []
    else failure

def indentlessItems : Nat → Read (List Node)
  | 0 => failure
  | fuel + 1 => do
    if ← accept .blockEntry then
      let item ← nodeUnless [.blockEntry, .key, .value, .blockEnd] true false fuel
      return item :: (← indentlessItems fuel)
    else return []

def blockEntries : Nat → Read (List (Node × Node))
  | 0 => failure
  | fuel + 1 => do
    if ← accept .key then
      let key ← nodeUnless [.key, .value, .blockEnd] true true fuel
      let value ← if ← accept .value then nodeUnless [.key, .value, .blockEnd] true true fuel
        else pure .blank
      return (key, value) :: (← blockEntries fuel)
    else if ← accept .blockEnd then return []
    else failure

def flowValue (ends : Token) : Nat → Read Node
  | 0 => failure
  | fuel + 1 => do
    if ← accept .value then nodeUnless [.flowEntry, ends] false false fuel
    else return .blank

/-- Items of a flow sequence; a pair is a mapping of its own.  The token that stands in place of a
missing key is passed over. -/
def flowItems (first : Bool) : Nat → Read (List Node)
  | 0 => failure
  | fuel + 1 => do
    if ← accept .flowSequenceEnd then return []
    if !first then
      if !(← accept .flowEntry) then failure
    if ← accept .key then
      let missing ← isNext [.value, .flowEntry, .flowSequenceEnd]
      let key ← nodeUnless [.value, .flowEntry, .flowSequenceEnd] false false fuel
      if missing then skip
      let value ← flowValue .flowSequenceEnd fuel
      return .mapping none none [(key, value)] :: (← flowItems false fuel)
    else if ← accept .flowSequenceEnd then return []
    else
      let item ← node false false fuel
      return item :: (← flowItems false fuel)

def flowEntries (first : Bool) : Nat → Read (List (Node × Node))
  | 0 => failure
  | fuel + 1 => do
    if ← accept .flowMappingEnd then return []
    if !first then
      if !(← accept .flowEntry) then failure
    if ← accept .key then
      let key ← nodeUnless [.value, .flowEntry, .flowMappingEnd] false false fuel
      let value ← flowValue .flowMappingEnd fuel
      return (key, value) :: (← flowEntries false fuel)
    else if ← accept .flowMappingEnd then return []
    else
      let key ← node false false fuel
      return (key, .blank) :: (← flowEntries false fuel)

end

/-- The directives before a document: at most one version, 1.1 or 1.2, and no handle twice. -/
def directives (versioned : Bool) (seen : List (List Char × List Char)) :
    List Token → Option (List (List Char × List Char) × List Token)
  | .yamlDirective major minor :: ts =>
    if versioned || major ≠ 1 || (minor ≠ 1 && minor ≠ 2) then none else directives true seen ts
  | .tagDirective handle start :: ts =>
    if seen.any fun h => h.1 == handle then none else directives versioned (seen ++ [(handle, start)]) ts
  | ts => some (seen, ts)

def content (fuel : Nat) : Read Node := do
  match ← peek with
  | none | some .documentStart | some .documentEnd | some (.yamlDirective _ _)
  | some (.tagDirective _ _) => return .blank
  | some _ => node true false fuel

/-- The only document of a text; nothing if there is none. -/
def onlyDocument (fuel : Nat) : Read (Option Node) := do
  let r ← get
  match r.tokens with
  | [] => return none
  | t :: _ =>
    let (handles, rest) ← directives false [] r.tokens
    let explicit := t == .documentStart || rest.length < r.tokens.length
    set { r with tokens := rest, declared := { r.declared with handles := handles ++ r.declared.handles } }
    let root ← if explicit then
        if ← accept .documentStart then content fuel else failure
      else node true false fuel
    modify fun r => { r with tokens := r.tokens.dropWhile (· == .documentEnd) }
    if (← get).tokens.isEmpty then return some root else failure

end NodeReader

structure Document where
  root : Option Node
deriving Repr

namespace Document

def parse? (text : String) : Option Document := do
  let ts ← tokens? text.toList
  let (root, _) ← (NodeReader.onlyDocument (4 * ts.length + 8)).run ⟨ts, .none⟩
  return ⟨root⟩

/-- The node an anchor stands for: of nodes with one number the last. -/
def find? (d : Document) (anchor : Nat) : Option Node :=
  (((d.root.map Node.anchored).getD []).reverse.find? fun a => a.1 == anchor).map Prod.snd

def weight (d : Document) : Nat := (d.root.map Node.weight).getD 1

end Document

end EngineMigrate.Yaml
