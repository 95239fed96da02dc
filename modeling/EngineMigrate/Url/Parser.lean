import EngineMigrate.Url.Host
import EngineMigrate.Url.Path

/-!
URLs: reading them, alone or against a base, and writing them.  Well-known schemes have a host and a
path; of other schemes some have a path that is one opaque text, and those serve no relative reference.
-/
namespace EngineMigrate

namespace Url

inductive Path where
  | opaqueText (text : List Char)
  | segments (list : List (List Char))
deriving DecidableEq, Repr

end Url

structure Url where
  scheme : List Char
  /-- User name and password as written, with the at sign behind them. -/
  credentials : List Char
  host : Option (List Char)
  port : Option Nat
  path : Url.Path
  query : Option (List Char)
  fragment : Option (List Char)
deriving DecidableEq, Repr

namespace Url

/-- The well-known schemes, `file` apart, with their ports. -/
def defaultPorts : List (List Char × Nat) :=
  [("http".toList, 80), ("https".toList, 443), ("ws".toList, 80), ("wss".toList, 443),
    ("ftp".toList, 21)]

def isFile (scheme : List Char) : Bool := scheme == "file".toList

def isSpecial (scheme : List Char) : Bool :=
  isFile scheme || defaultPorts.any fun p => p.1 == scheme

def defaultPort? (scheme : List Char) : Option Nat :=
  (defaultPorts.find? fun p => p.1 == scheme).map Prod.snd

def Path.text : Path → List Char
  | .opaqueText text => text
  | .segments list => list.flatMap ('/' :: ·)

def authority (u : Url) : List Char :=
  match u.host with
  | some host =>
    '/' :: '/' :: u.credentials ++ host ++ (u.port.map fun p => ':' :: Nat.toDigits 10 p).getD []
  | none => match u.path with
    | .segments ([] :: _ :: _) => ['/', '.']
    | _ => []

def chars (u : Url) : List Char :=
  u.scheme ++ ':' :: u.authority ++ u.path.text ++ (u.query.map ('?' :: ·)).getD [] ++
    (u.fragment.map ('#' :: ·)).getD []

def text (u : Url) : String := String.ofList u.chars

/-- Characters that are passed over wherever they stand. -/
def isSkipped (c : Char) : Bool := c == '\t' || c == '\n' || c == '\r'

def isOuterBlank (c : Char) : Bool := c.toNat ≤ 32

/-- The characters that count: no blanks and controls at the ends, no tabs and line ends. -/
def significant (s : String) : List Char :=
  let front := s.toList.dropWhile isOuterBlank
  ((front.reverse.dropWhile isOuterBlank).reverse).filter (!isSkipped ·)

/-- The scheme in front of a text in lower case, and what follows its colon. -/
def splitScheme (cs : List Char) : Option (List Char × List Char) :=
  let inScheme (c : Char) := c.isAlphanum || c == '+' || c == '-' || c == '.'
  if cs.head?.any Char.isAlpha then
    match cs.dropWhile inScheme with
    | ':' :: rest => some ((cs.takeWhile inScheme).map Char.toLower, rest)
    | _ => none
  else none

def isSlash (c : Char) : Bool := c == '/' || c == '\\'

def endsAuthority (special : Bool) (c : Char) : Bool :=
  c == '/' || c == '?' || c == '#' || (special && c == '\\')

/-- Query and fragment of a text that starts with one of them or is empty. -/
def queryAndFragment (special : Bool) (cs : List Char) : Option (List Char) × Option (List Char) :=
  let fragment? : List Char → Option (List Char)
    | _ :: f => some (encode isFragmentEscaped f)
    | [] => none
  match cs with
  | '?' :: rest =>
    (some (encode (isQueryEscaped special) (rest.takeWhile (· != '#'))),
      fragment? (rest.dropWhile (· != '#')))
  | rest => (none, fragment? rest)

def endsPath (c : Char) : Bool := c == '?' || c == '#'

/-- The URL with path, query and fragment read from a text, its path starting at finished segments. -/
def withPath (u : Url) (done : List (List Char)) (cs : List Char) : Url :=
  let special := isSpecial u.scheme
  let (query, fragment) := queryAndFragment special (cs.dropWhile (!endsPath ·))
  { u with
    path := .segments (resolve special (isFile u.scheme) done (cs.takeWhile (!endsPath ·)))
    query := query
    fragment := fragment }

/-- The same where the path may be missing, which only well-known schemes make a slash of. -/
def withPathStart (u : Url) (cs : List Char) : Url :=
  let special := isSpecial u.scheme
  match cs with
  | c :: rest =>
    if c = '/' || (special && c = '\\') then u.withPath [] rest
    else if special || !endsPath c then u.withPath [] cs
    else
      let (query, fragment) := queryAndFragment special cs
      { u with path := .segments [], query := query, fragment := fragment }
  | [] =>
    if special then u.withPath [] [] else { u with path := .segments [], query := none, fragment := none }

def splitCredentials (cs : List Char) : Option (List Char) × List Char :=
  if cs.contains '@' then
    let after := (cs.reverse.takeWhile (· != '@')).reverse
    (some (cs.take (cs.length - after.length - 1)), after)
  else (none, cs)

/-- Credentials as written: an empty password has no colon, and without any there is no at sign. -/
def credentialsText (cs : List Char) : List Char :=
  let user := encode isUserEscaped (cs.takeWhile (· != ':'))
  let password := encode isUserEscaped ((cs.dropWhile (· != ':')).drop 1)
  if user.isEmpty && password.isEmpty then []
  else user ++ (if password.isEmpty then [] else ':' :: password) ++ ['@']

/-- The host of an authority and what follows it: up to a colon outside brackets. -/
def splitHost (inBrackets : Bool) : List Char → List Char × List Char
  | [] => ([], [])
  | c :: cs =>
    if c = ':' && !inBrackets then ([], c :: cs)
    else
      let out := splitHost (if c = '[' then true else if c = ']' then false else inBrackets) cs
      (c :: out.1, out.2)

/-- A port; the empty one and the scheme's own are left out. -/
def parsePort (scheme cs : List Char) : Except UrlFault (Option Nat) :=
  if !cs.all Char.isDigit then .error .port
  else
    let n := cs.foldl (fun n c => 10 * n + (c.toNat - 48)) 0
    if 65535 < n then .error .port
    else .ok (if cs.isEmpty || defaultPort? scheme = some n then none else some n)

def blank (scheme : List Char) : Url := ⟨scheme, [], none, none, .segments [], none, none⟩

def parseAuthority (scheme cs : List Char) : Except UrlFault Url := do
  let special := isSpecial scheme
  let rest := cs.dropWhile (!endsAuthority special ·)
  let (user, hostPort) := splitCredentials (cs.takeWhile (!endsAuthority special ·))
  if user = some [] && hostPort.isEmpty && !rest.isEmpty then throw .emptyHost
  let credentials := (user.map credentialsText).getD []
  let (hostText, portText) := splitHost false hostPort
  if special && hostText.isEmpty then throw .emptyHost
  let host ← if special then parseHost hostText else parseOpaqueHost hostText
  if host.isEmpty && !portText.isEmpty then throw .emptyHost
  -- a backslash ends a port in every scheme
  let port ← parsePort scheme ((portText.drop 1).takeWhile (· != '\\'))
  let rest := (portText.drop 1).dropWhile (· != '\\') ++ rest
  if host.isEmpty && !credentials.isEmpty then throw .emptyHost
  return { blank scheme with credentials := credentials, host := some host, port := port }
    |>.withPathStart rest

def parseOther (scheme cs : List Char) : Except UrlFault Url :=
  match cs with
  | '/' :: '/' :: rest => parseAuthority scheme rest
  | '/' :: rest => .ok ((blank scheme).withPath [] rest)
  | _ =>
    let (query, fragment) := queryAndFragment false (cs.dropWhile (!endsPath ·))
    .ok { blank scheme with
      path := .opaqueText (encode isControl (cs.takeWhile (!endsPath ·)))
      query := query
      fragment := fragment }

/-- Whether a text starts with a segment that names a drive. -/
def startsWithDrive (cs : List Char) : Bool :=
  isDrive (cs.takeWhile fun c => !isSlash c && !endsPath c)

def fileBlank (host : List Char) : Url := { blank "file".toList with host := some host }

/-- The URL of a file, behind the scheme and two slashes: a host that may be missing, and a path. -/
def parseFileHost (cs : List Char) : Except UrlFault Url := do
  let hostText := cs.takeWhile fun c => !isSlash c && !endsPath c
  let rest := cs.dropWhile fun c => !isSlash c && !endsPath c
  if isDrive hostText then return (fileBlank []).withPath [] cs
  if hostText.isEmpty then return (fileBlank []).withPath [] rest
  let host ← parseHost hostText
  if host = "localhost".toList then return (fileBlank []).withPath [] rest
  let u := (fileBlank host).withPathStart rest
  -- a drive belongs to no host
  match u.path with
  | .segments list => return if list.any isDrive then { u with host := some [] } else u
  | .opaqueText _ => return u

def directory (u : Url) : List (List Char) :=
  match u.path with
  | .segments list => (dropSegmentOf list.reverse).reverse
  | .opaqueText _ => []
where
  dropSegmentOf (reversed : List (List Char)) : List (List Char) :=
    if isFile u.scheme then dropSegment reversed else reversed.drop 1

/-- The base without its query and with another fragment. -/
def withFragment (u : Url) (cs : List Char) : Url :=
  { u with fragment := some (encode isFragmentEscaped cs) }

/-- The URL of a file, behind the scheme, against a base that is a file too. -/
def parseFile (base : Option Url) (cs : List Char) : Except UrlFault Url :=
  match cs with
  | c :: rest =>
    if isSlash c then
      match rest with
      | d :: rest' =>
        if isSlash d then parseFileHost rest' else .ok (fromRoot rest)
      | [] => .ok (fromRoot rest)
    else match base with
      | none => .ok ((fileBlank []).withPath [] cs)
      | some b =>
        if c = '?' then
          let (query, fragment) := queryAndFragment true cs
          .ok { b with query := query, fragment := fragment }
        else if c = '#' then .ok (b.withFragment rest)
        else if startsWithDrive cs then .ok ((fileBlank []).withPath [] cs)
        else .ok (b.withPath b.directory cs)
  | [] => match base with
    | none => .ok ((fileBlank []).withPath [] [])
    | some b => .ok { b with fragment := none }
where
  /-- A path from the root keeps the drive or else the host of the base. -/
  fromRoot (rest : List Char) : Url :=
    match base with
    | none => (fileBlank []).withPath [] rest
    | some b =>
      if startsWithDrive rest then (fileBlank []).withPath [] rest
      else match b.path with
        | .segments (s :: _) =>
          if isDrive s then (fileBlank []).withPath [s] rest
          else (fileBlank (b.host.getD [])).withPath [] rest
        | _ => (fileBlank (b.host.getD [])).withPath [] rest

/-- A reference without a scheme, or with the base's own and no authority. -/
def parseRelative (base : Url) (cs : List Char) : Except UrlFault Url :=
  match cs with
  | [] => .ok { base with fragment := none }
  | c :: rest =>
    if c = '?' then
      let (query, fragment) := queryAndFragment (isSpecial base.scheme) cs
      .ok { base with query := query, fragment := fragment }
    else if c = '#' then .ok (base.withFragment rest)
    else if isSlash c then
      match rest with
      | d :: rest' =>
        if isSlash d then
          parseAuthority base.scheme
            (if c = '/' && d = '/' then rest' else rest'.dropWhile isSlash)
        else .ok (base.withPath [] rest)
      | [] => .ok (base.withPath [] rest)
    else .ok (base.withPath base.directory cs)

def parseWithScheme (base : Option Url) (scheme cs : List Char) : Except UrlFault Url :=
  if isFile scheme then parseFile (base.filter fun b => isFile b.scheme) cs
  else if isSpecial scheme then
    match base with
    | some b =>
      if (cs.takeWhile isSlash).length < 2 && b.scheme = scheme then parseRelative b cs
      else parseAuthority scheme (cs.dropWhile isSlash)
    | none => parseAuthority scheme (cs.dropWhile isSlash)
  else parseOther scheme cs

/-- Reads a reference, relative to a base if there is one. -/
def parseAgainst (base : Option Url) (s : String) : Except UrlFault Url :=
  let cs := significant s
  match splitScheme cs with
  | some (scheme, rest) => parseWithScheme base scheme rest
  | none =>
    match base with
    | none => .error .relativeWithoutBase
    | some b =>
      match cs, b.path with
      | '#' :: rest, _ => .ok (b.withFragment rest)
      | _, .opaqueText _ => .error .relativeWithOpaqueBase
      | _, .segments _ => if isFile b.scheme then parseFile (some b) cs else parseRelative b cs

def parse (s : String) : Except UrlFault Url := parseAgainst none s

def join (u : Url) (s : String) : Except UrlFault Url := parseAgainst (some u) s

def asDirectory (u : Url) : Url :=
  match u.path with
  | .segments list => if list.getLast? = some [] then u else { u with path := .segments (list ++ [[]]) }
  | .opaqueText text =>
    if text.getLast? = some '/' then u
    else if text.isEmpty then { u with path := .opaqueText "%2F".toList }
    else { u with path := .opaqueText (text ++ ['/']) }

end Url

end EngineMigrate
