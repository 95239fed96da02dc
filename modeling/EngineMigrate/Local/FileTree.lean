/-!
Path texts, and files and directories as a value.  Joining two paths is textual: a relative one is put
behind a slash and nothing is normalised, an absolute one replaces what stood before it.  An entry of the
tree stands at its location, the list of names from the top; an operation that cannot be done leaves the
tree as it was, or says how far it came.
-/
namespace EngineMigrate

namespace FilePath

def isAbsolute (path : String) : Bool := path.toList.head? == some '/'

def join (base path : String) : String :=
  if isAbsolute path then path
  else if base.isEmpty || base.toList.getLast? == some '/' then base ++ path
  else base ++ "/" ++ path

def parts (path : String) : List String := (path.toList.splitOn '/').map String.ofList

/-- The parts that name something: no empty ones, no single dots behind the first part. -/
def names (path : String) : List String :=
  match parts path with
  | [] => []
  | first :: rest => [first].filter (· ≠ "") ++ rest.filter fun p => p ≠ "" && p ≠ "."

/-- Whether a text is the name of something directly inside a directory. -/
def isPlainName (path : String) : Bool :=
  !isAbsolute path &&
  match names path with
  | [name] => name ≠ "." && name ≠ ".."
  | _ => false

/-- Without its last part; nothing if there is no part to drop. -/
def parent? (path : String) : Option String :=
  match (names path).reverse with
  | [] => none
  | _ :: rest =>
    let text := "/".intercalate rest.reverse
    some (if isAbsolute path then "/" ++ text else text)

end FilePath

/-- The names from the top down to an entry. -/
abbrev Location := List String

inductive FileEntry where
  | file (content : ByteArray)
  | directory

instance : DecidableEq FileEntry
  | .file a, .file b =>
    have : Decidable (a = b) := ByteArray.instDecidableEq a b
    decidable_of_iff (a = b) (by simp)
  | .directory, .directory => isTrue rfl
  | .file _, .directory => isFalse nofun
  | .directory, .file _ => isFalse nofun

/-- Why an operation on files failed. -/
inductive FileFault where
  | absent
  /-- A file where a directory is needed, a directory where a file is, or something in the way. -/
  | obstructed
  /-- A name that no file can have. -/
  | unnameable
  /-- Content that is not text. -/
  | notText
  /-- A directory whose names may not be listed. -/
  | unlisted
deriving DecidableEq, Repr

theorem bind_eq_ok_iff {α β ε : Type} {x : Except ε α} {f : α → Except ε β} {b : β} :
    x >>= f = .ok b ↔ ∃ a, x = .ok a ∧ f a = .ok b := by
  cases x <;> simp [bind, Except.bind]

/-- The entries below the top, which is a directory; relative paths start at `current`. -/
structure FileTree where
  current : Location
  entries : List (Location × FileEntry)

namespace FileTree

def empty : FileTree := ⟨[], []⟩

def find? (t : FileTree) (l : Location) : Option FileEntry :=
  if l.isEmpty then some .directory else (t.entries.find? fun e => e.1 == l).map Prod.snd

def isDirectory (t : FileTree) (l : Location) : Bool := t.find? l == some .directory

/-- Puts an entry at a location, in place of an earlier one. -/
def set (t : FileTree) (l : Location) (e : FileEntry) : FileTree :=
  { t with entries := t.entries.filter (fun x => x.1 != l) ++ [(l, e)] }

def erase (t : FileTree) (l : Location) : FileTree :=
  { t with entries := t.entries.filter fun x => !(l.isPrefixOf x.1) }

/-- The entries that an earlier tree does not hold as they are, those above others first if they were
set first. -/
def since (t earlier : FileTree) : List (Location × FileEntry) :=
  t.entries.filter fun e => earlier.find? e.1 != some e.2

/-- The names directly inside a directory, in byte order. -/
def children (t : FileTree) (l : Location) : List String :=
  (t.entries.filterMap fun e =>
    match e.1.reverse with
    | name :: above => if above.reverse == l then some name else none
    | [] => none).mergeSort fun a b => !decide (b < a)

/-- The longest name of a file, and the longest path, in bytes. -/
def nameLimit : Nat := 255

def pathLimit : Nat := 4096

/-- Follows the parts of a path from a location.  Every part needs a directory to be looked up in, also
an empty one and a dot; the last name need not exist. -/
def follow (t : FileTree) : Location → List String → Except FileFault Location
  | l, [] => .ok l
  | l, p :: rest =>
    match t.find? l with
    | none => .error .absent
    | some (.file _) => .error .obstructed
    | some .directory =>
      if p = "" || p = "." then t.follow l rest
      else if p = ".." then t.follow l.dropLast rest
      else if nameLimit < p.utf8ByteSize then .error .unnameable
      else t.follow (l ++ [p]) rest

/-- The location a path leads to, whether or not there is anything. -/
def locate (t : FileTree) (path : String) : Except FileFault Location :=
  if path.isEmpty then .error .absent
  else if path.toList.contains '\x00' || pathLimit ≤ path.utf8ByteSize then .error .unnameable
  else t.follow (if FilePath.isAbsolute path then [] else t.current) (FilePath.parts path)

def entry (t : FileTree) (path : String) : Except FileFault FileEntry := do
  match t.find? (← t.locate path) with
  | some e => .ok e
  | none => .error .absent

/-- Whether there is an entry; any fault but absence stands. -/
def exists? (t : FileTree) (path : String) : Except FileFault Bool :=
  match t.entry path with
  | .ok _ => .ok true
  | .error .absent => .ok false
  | .error f => .error f

def readBytes (t : FileTree) (path : String) : Except FileFault ByteArray := do
  match ← t.entry path with
  | .file content => .ok content
  | .directory => .error .obstructed

def readText (t : FileTree) (path : String) : Except FileFault String := do
  match String.fromUTF8? (← t.readBytes path) with
  | some s => .ok s
  | none => .error .notText

/-- Writes a file, creating it in a directory that exists. -/
def writeBytes (t : FileTree) (path : String) (content : ByteArray) : Except FileFault FileTree := do
  let l ← t.locate path
  match t.find? l with
  | some .directory => .error .obstructed
  | _ => .ok (t.set l (.file content))

def writeText (t : FileTree) (path text : String) : Except FileFault FileTree :=
  t.writeBytes path text.toUTF8

/-- The path without slashes at its end, the top apart. -/
def withoutFinalSlashes (path : String) : String :=
  let kept := (path.toList.reverse.dropWhile (· == '/')).reverse
  if kept.isEmpty && !path.isEmpty then "/" else String.ofList kept

def makeDirectory (t : FileTree) (path : String) : Except FileFault FileTree := do
  let l ← t.locate (withoutFinalSlashes path)
  match t.find? l with
  | some _ => .error .obstructed
  | none => .ok (t.set l .directory)

def isDirectoryAt (t : FileTree) (path : String) : Bool :=
  match t.entry path with
  | .ok .directory => true
  | _ => false

/-- Creates a directory and those above it, at most `fuel` of them.  The tree that is given back also
after a fault holds the directories made until then. -/
def ensureDirectoryUpTo : Nat → FileTree → String → Except FileFault Unit × FileTree
  | 0, t, _ => (.error .absent, t)
  | fuel + 1, t, path =>
    if path.isEmpty then (.ok (), t)
    else match t.makeDirectory path with
      | .ok made => (.ok (), made)
      | .error .absent =>
        match FilePath.parent? path with
        | none => (.error .absent, t)
        | some above =>
          match ensureDirectoryUpTo fuel t above with
          | (.error f, t) => (.error f, t)
          | (.ok (), t) => match t.makeDirectory path with
            | .ok made => (.ok (), made)
            | .error f => if t.isDirectoryAt path then (.ok (), t) else (.error f, t)
      | .error f => if t.isDirectoryAt path then (.ok (), t) else (.error f, t)

/-- Creates a directory and those above it, as far as they are missing. -/
def ensureDirectory (t : FileTree) (path : String) : Except FileFault Unit × FileTree :=
  ensureDirectoryUpTo ((FilePath.parts path).length + 1) t path

@[simp] theorem find?_set_self (t : FileTree) {l : Location} (h : l ≠ []) (e : FileEntry) :
    (t.set l e).find? l = some e := by
  have hl : l.isEmpty = false := by simpa using h
  have hn : (t.entries.filter fun x => x.1 != l).find? (fun x => x.1 == l) = none := by
    rw [List.find?_eq_none]
    intro x hx
    simpa using (List.mem_filter.1 hx).2
  simp only [find?, set, hl, List.find?_append, hn]
  simp

theorem find?_set_of_ne (t : FileTree) {l m : Location} (h : m ≠ l) (e : FileEntry) :
    (t.set l e).find? m = t.find? m := by
  have hf : (t.entries.filter fun x => x.1 != l).find? (fun x => x.1 == m) =
      t.entries.find? fun x => x.1 == m := by
    induction t.entries with
    | nil => rfl
    | cons x xs ih =>
      by_cases hx : x.1 = l
      · rw [List.filter_cons_of_neg (by simp [hx]), ih,
          List.find?_cons_of_neg (by simpa [hx] using Ne.symm h)]
      · rw [List.filter_cons_of_pos (by simpa using hx), List.find?_cons, List.find?_cons, ih]
  have hm : (l == m) = false := by simpa using Ne.symm h
  simp only [find?, set, List.find?_append, hf]
  simp [hm]

end FileTree

/-- A tree with directories in it whose names may not be listed. -/
structure Disk where
  tree : FileTree
  unlisted : List Location

namespace Disk

/-- A tree by itself is one in which everything may be listed. -/
instance : Coe FileTree Disk := ⟨fun t => ⟨t, []⟩⟩

/-- What the names in a directory lead to, one name after the other, or the fault in their place.  There are
no names in a file. -/
def below (d : Disk) (l : Location) (f : String → List (Except FileFault Location)) :
    List (Except FileFault Location) :=
  if !d.tree.isDirectory l then []
  else if d.unlisted.contains l then [.error .unlisted]
  else (d.tree.children l).flatMap f

end Disk

end EngineMigrate
