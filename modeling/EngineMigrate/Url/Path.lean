import EngineMigrate.Url.Encoding

/-!
Paths as lists of segments.  Dot segments are resolved as they are read, so that none remains.
-/
namespace EngineMigrate.Url

/-- One or two dots, each of which may be written as `%2e`. -/
def dotCount? : List Char → Option Nat
  | ['.'] => some 1
  | ['%', '2', e] => if e = 'e' || e = 'E' then some 1 else none
  | ['.', '.'] => some 2
  | ['.', '%', '2', e] => if e = 'e' || e = 'E' then some 2 else none
  | ['%', '2', e, '.'] => if e = 'e' || e = 'E' then some 2 else none
  | ['%', '2', e, '%', '2', f] =>
    if (e = 'e' || e = 'E') && (f = 'e' || f = 'E') then some 2 else none
  | _ => none

/-- A letter and a colon or a bar, which names a drive in a file path. -/
def isDrive : List Char → Bool
  | [c, d] => c.isAlpha && (d == ':' || d == '|')
  | _ => false

/-- A drive in its written form, any other segment as it is. -/
def normalizeDrive (file : Bool) (segment : List Char) : List Char :=
  match segment with
  | [c, _] => if file && isDrive segment then [c, ':'] else segment
  | _ => segment

/-- Without the last segment, which stands first; a drive stays. -/
def dropSegment : List (List Char) → List (List Char)
  | [] => []
  | s :: done => if isDrive s then s :: done else done

/-- One more segment, behind the finished ones in reverse.  A dot segment at the end leaves an empty one. -/
def addSegment (file last : Bool) (done : List (List Char)) (segment : List Char) : List (List Char) :=
  let end_ (done : List (List Char)) := if last then [] :: done else done
  match dotCount? segment with
  | some 1 => end_ done
  | some _ => end_ (dropSegment done)
  | none => normalizeDrive file segment :: done

def addSegments (file : Bool) (done : List (List Char)) : List (List Char) → List (List Char)
  | [] => done.reverse
  | [s] => (addSegment file true done s).reverse
  | s :: t :: more => addSegments file (addSegment file false done s) (t :: more)

def splitPath (special : Bool) (cs : List Char) : List (List Char) :=
  (cs.map fun c => if special && c == '\\' then '/' else c).splitOn '/'

/-- A file path has no empty segments in front of others. -/
def dropEmptySegments : List (List Char) → List (List Char)
  | [] :: s :: more => dropEmptySegments (s :: more)
  | segments => segments

/-- The path that a text leads to from the finished segments. -/
def resolve (special file : Bool) (done : List (List Char)) (cs : List Char) : List (List Char) :=
  let segments := addSegments file done.reverse ((splitPath special cs).map (encode isPathEscaped))
  if file then dropEmptySegments segments else segments

end EngineMigrate.Url
