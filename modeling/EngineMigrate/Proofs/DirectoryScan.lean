import EngineMigrate.Proofs.DirectoryTree
import EngineMigrate.Proofs.PlanStaging

/-!
What a scan makes of the migrations directory.  The walk comes to every file at one and two names once, in
byte order, up to a directory that may not be listed, and what is gathered side by side on the way is what the
source tells.  Main statement: a scan that succeeds reflects its directory exactly, whatever was scanned
before, and one that fails, also in the middle of its walk, changes nothing.
-/
namespace EngineMigrate

/-- The name of a location that stands directly inside another one. -/
def nameIn (l m : Location) : Option String :=
  match m.reverse with
  | name :: above => if above.reverse == l then some name else none
  | [] => none

theorem nameIn_eq_some_iff {l m : Location} {name : String} : nameIn l m = some name ↔ m = l ++ [name] := by
  have hreverse : m = l ++ [name] ↔ m.reverse = (l ++ [name]).reverse := List.reverse_inj.symm
  rw [hreverse]
  simp only [nameIn, List.reverse_append, List.reverse_cons, List.reverse_nil, List.nil_append,
    List.singleton_append]
  cases m.reverse with
  | nil => simp
  | cons n above =>
    by_cases h : above.reverse = l
    · subst h
      simp
    · have hne : above ≠ l.reverse := fun he => h (by simp [he])
      simp [h, hne]

namespace FileTree

variable {t : FileTree}

theorem children_eq (t : FileTree) (l : Location) :
    t.children l = ((t.entries.map Prod.fst).filterMap (nameIn l)).mergeSort fun a b => !decide (b < a) := by
  rw [List.filterMap_map]
  rfl

theorem mem_children {l : Location} {name : String} :
    name ∈ t.children l ↔ t.find? (l ++ [name]) ≠ none := by
  rw [ne_eq, find?_eq_none (by simp), children_eq]
  simp only [List.mem_mergeSort, List.mem_filterMap, nameIn_eq_some_iff]
  simp

theorem Rooted.children_ascending (ht : t.Rooted) (l : Location) : (t.children l).Pairwise (· < ·) := by
  have hle : ∀ a b : String, (!decide (b < a)) = true ↔ ¬ b < a := fun a b => by
    rw [Bool.not_eq_true', decide_eq_false_iff_not]
  have hsorted : (t.children l).Pairwise fun a b => (!decide (b < a)) = true := by
    refine List.pairwise_mergeSort (fun a b c hab hbc => ?_) (fun a b => ?_) _
    · exact (hle a c).2 (String.le_trans ((hle a b).1 hab) ((hle b c).1 hbc))
    · rw [Bool.or_eq_true, hle, hle]
      exact String.le_total a b
  have hnodup : (t.children l).Nodup := by
    rw [children_eq, (List.mergeSort_perm _ _).nodup_iff]
    refine ht.distinct.filterMap fun m m' name hm hm' => ?_
    rw [nameIn_eq_some_iff.1 hm, nameIn_eq_some_iff.1 hm']
  refine (hsorted.and hnodup).imp fun {a b} ⟨hab, hne⟩ => ?_
  exact Json.Members.lt_of_not_lt ((hle a b).1 hab) (Ne.symm hne)

end FileTree

namespace Source

variable {t : FileTree}

/-- The files at one and two names below a directory, each directory in byte order of its names. -/
def walk (t : FileTree) (top : Location) : List Location :=
  (t.children top).flatMap fun name =>
    match t.find? (top ++ [name]) with
    | some (.file _) => [[name]]
    | some .directory => (t.children (top ++ [name])).filterMap fun inner =>
      match t.find? (top ++ [name, inner]) with
      | some (.file _) => some [name, inner]
      | _ => none
    | none => []

def walkAt (t : FileTree) (top : Location) (name : String) : List Location :=
  match t.find? (top ++ [name]) with
  | some (.file _) => [[name]]
  | some .directory => (t.children (top ++ [name])).filterMap fun inner =>
    match t.find? (top ++ [name, inner]) with
    | some (.file _) => some [name, inner]
    | _ => none
  | none => []

theorem walk_eq (t : FileTree) (top : Location) : walk t top = (t.children top).flatMap (walkAt t top) := rfl

theorem mem_walkAt {top l : Location} {name : String} :
    l ∈ walkAt t top name ↔ l = [name] ∧ t.HasFile (top ++ [name]) ∨
      ∃ inner, l = [name, inner] ∧ t.find? (top ++ [name]) = some .directory ∧
        t.HasFile (top ++ [name, inner]) := by
  simp only [walkAt, FileTree.HasFile]
  split
  · rename_i content hfile
    simp [hfile]
  · rename_i hdir
    have hinner : ∀ inner, inner ∈ t.children (top ++ [name]) ↔ t.find? (top ++ [name, inner]) ≠ none := by
      intro inner
      rw [FileTree.mem_children, List.append_assoc]
      rfl
    simp only [hdir, List.mem_filterMap, hinner]
    constructor
    · rintro ⟨inner, -, hl⟩
      split at hl
      · rename_i content hfile
        cases hl
        exact .inr ⟨inner, rfl, trivial, content, hfile⟩
      · cases hl
    · rintro (⟨-, content, hfile⟩ | ⟨inner, rfl, -, content, hfile⟩)
      · cases hfile
      · exact ⟨inner, by simp [hfile], by simp [hfile]⟩
  · rename_i hnone
    simp [hnone]

/-- The walk comes to the files at one and two names, and to nothing else. -/
theorem mem_walk (ht : t.Rooted) {top l : Location} :
    l ∈ walk t top ↔ (l.length = 1 ∨ l.length = 2) ∧ t.HasFile (top ++ l) := by
  simp only [walk_eq, List.mem_flatMap, mem_walkAt, FileTree.mem_children]
  constructor
  · rintro ⟨name, -, ⟨rfl, hfile⟩ | ⟨inner, rfl, -, hfile⟩⟩
    · exact ⟨.inl rfl, hfile⟩
    · exact ⟨.inr rfl, hfile⟩
  · rintro ⟨hlen | hlen, hfile⟩
    · obtain ⟨name, rfl⟩ := List.length_eq_one_iff.1 hlen
      obtain ⟨content, hcontent⟩ := hfile
      exact ⟨name, by simp [hcontent], .inl ⟨rfl, content, hcontent⟩⟩
    · obtain ⟨name, inner, rfl⟩ := List.length_eq_two.1 hlen
      obtain ⟨content, hcontent⟩ := hfile
      have hfound : t.find? (top ++ [name] ++ [inner]) ≠ none := by simp [hcontent]
      have hdir := ht.find?_above hfound
      exact ⟨name, by simp [hdir], .inr ⟨inner, rfl, hdir, content, hcontent⟩⟩

/-- The walk comes to a file once, in byte order of the names on the way to it. -/
theorem walk_ascending (ht : t.Rooted) (top : Location) : (walk t top).Pairwise (· < ·) := by
  rw [walk_eq, List.pairwise_flatMap]
  constructor
  · intro name _
    simp only [walkAt]
    split
    · exact List.pairwise_singleton _ _
    · refine (ht.children_ascending _).filterMap _ fun a b hab l hl m hm => ?_
      split at hl <;> cases hl
      split at hm <;> cases hm
      simpa [List.cons_lt_cons_iff] using hab
    · exact List.Pairwise.nil
  · refine (ht.children_ascending top).imp fun {a b} hab l hl m hm => ?_
    have hhead : ∀ {name : String} {l : Location}, l ∈ walkAt t top name → ∃ rest, l = name :: rest := by
      intro name l hl
      rcases mem_walkAt.1 hl with ⟨rfl, -⟩ | ⟨inner, rfl, -⟩
      · exact ⟨[], rfl⟩
      · exact ⟨[inner], rfl⟩
    obtain ⟨rest, rfl⟩ := hhead hl
    obtain ⟨rest', rfl⟩ := hhead hm
    exact List.cons_lt_cons_iff.2 (.inl hab)

variable {d : Disk}

/-- The directory may be listed, and so may each one directly inside it. -/
def Listed (d : Disk) (top : Location) : Prop :=
  ∀ l : Location, l.length ≤ 1 → d.tree.find? (top ++ l) = some .directory → top ++ l ∉ d.unlisted

theorem listed_tree (t : FileTree) (top : Location) : Listed t top := fun _ _ _ => List.not_mem_nil

theorem below_of_file {l : Location} (h : d.tree.find? l ≠ some .directory)
    (f : String → List (Except FileFault Location)) : d.below l f = [] :=
  if_pos (by simpa [FileTree.isDirectory] using h)

theorem below_of_listed {l : Location} (hdir : d.tree.find? l = some .directory) (h : l ∉ d.unlisted)
    (f : String → List (Except FileFault Location)) : d.below l f = (d.tree.children l).flatMap f := by
  simp [Disk.below, FileTree.isDirectory, hdir, h]

theorem below_of_unlisted {l : Location} (hdir : d.tree.find? l = some .directory) (h : l ∈ d.unlisted)
    (f : String → List (Except FileFault Location)) : d.below l f = [.error .unlisted] := by
  simp [Disk.below, FileTree.isDirectory, hdir, h]

theorem children_of_file (ht : t.Rooted) {top : Location} (h : t.find? top ≠ some .directory) :
    t.children top = [] := by
  refine List.eq_nil_iff_forall_not_mem.2 fun name hname => h ?_
  exact ht.find?_above (FileTree.mem_children.1 hname)

theorem visits_of_listed (hd : d.tree.Rooted) {top : Location} (h : Listed d top) :
    visits d top = (walk d.tree top).map .ok := by
  by_cases htop : d.tree.find? top = some .directory
  · have hroot : top ∉ d.unlisted := by simpa using h [] (by simp) (by simpa using htop)
    rw [visits, below_of_listed htop hroot, walk, List.map_flatMap]
    refine congrArg (fun f => List.flatMap f _) (funext fun name => ?_)
    cases hname : d.tree.find? (top ++ [name]) with
    | none => rfl
    | some e =>
      cases e with
      | file content => rfl
      | directory =>
        simp only [below_of_listed hname (h [name] (by simp) hname), List.filterMap_eq_flatMap_toList,
          List.map_flatMap]
        refine congrArg (fun f => List.flatMap f _) (funext fun inner => ?_)
        cases d.tree.find? (top ++ [name, inner]) with
        | none => rfl
        | some e => cases e <;> rfl
  · rw [visits, below_of_file htop, walk_eq, children_of_file hd htop]
    rfl

theorem error_mem_below {l : Location} {f : FileFault} {g : String → List (Except FileFault Location)} :
    .error f ∈ d.below l g ↔ d.tree.find? l = some .directory ∧ (l ∈ d.unlisted ∧ f = .unlisted ∨
      l ∉ d.unlisted ∧ ∃ name ∈ d.tree.children l, .error f ∈ g name) := by
  by_cases hdir : d.tree.find? l = some .directory
  · by_cases hl : l ∈ d.unlisted
    · simp [below_of_unlisted hdir hl, hdir, hl]
    · simp [below_of_listed hdir hl, hdir, hl]
  · simp [below_of_file hdir, hdir]

/-- A directory that may not be listed is a fault of the walk, and there is no other one. -/
theorem error_mem_visits_iff (hd : d.tree.Rooted) {top : Location} {f : FileFault} :
    .error f ∈ visits d top ↔ f = .unlisted ∧ ¬ Listed d top := by
  rw [visits, error_mem_below]
  constructor
  · rintro ⟨hdir, ⟨htop, rfl⟩ | ⟨-, name, -, hname⟩⟩
    · exact ⟨rfl, fun h => h [] (by simp) (by simpa using hdir) (by simpa using htop)⟩
    · split at hname
      · simp at hname
      · obtain ⟨hdir, ⟨hl, rfl⟩ | ⟨-, inner, -, hinner⟩⟩ := error_mem_below.1 hname
        · exact ⟨rfl, fun h => h [name] (by simp) hdir hl⟩
        · split at hinner <;> simp at hinner
      · cases hname
  · rintro ⟨rfl, h⟩
    simp only [Listed, not_forall, not_not] at h
    obtain ⟨l, hlen, hdir, hl⟩ := h
    match l, hlen with
    | [], _ =>
      rw [List.append_nil] at hdir hl
      exact ⟨hdir, .inl ⟨hl, rfl⟩⟩
    | [name], _ =>
      have hfound : d.tree.find? (top ++ [name]) ≠ none := by simp [hdir]
      refine ⟨hd.find?_above hfound, ?_⟩
      by_cases htop : top ∈ d.unlisted
      · exact .inl ⟨htop, rfl⟩
      · refine .inr ⟨htop, name, FileTree.mem_children.2 hfound, ?_⟩
        simpa only [hdir] using error_mem_below.2 ⟨hdir, .inl ⟨hl, rfl⟩⟩

theorem gather_map_ok (ls : List Location) (s : Scan) : gather (ls.map .ok) s =
    (.ok (), { s with found := s.found ++ ls.filterMap MigrationFile.ofLocation? }) := by
  induction ls generalizing s with
  | nil => simp [gather]
  | cons l ls ih =>
    refine (ih _).trans ?_
    cases h : MigrationFile.ofLocation? l <;> simp [h]

/-- What is gathered does not depend on the source, and does not touch it. -/
theorem exists_gather (walk : List (Except FileFault Location)) (found : List MigrationFile) :
    ∃ r found', ∀ s : Source, gather walk ⟨s, found⟩ = (r, ⟨s, found'⟩) := by
  induction walk generalizing found with
  | nil => exact ⟨.ok (), found, fun s => rfl⟩
  | cons v walk ih =>
    cases v with
    | error f => exact ⟨.error (.files f), found, fun s => rfl⟩
    | ok l => exact ih (found ++ (MigrationFile.ofLocation? l).toList)

theorem gather_of_error {walk : List (Except FileFault Location)} {f : FileFault} (h : .error f ∈ walk)
    (s : Scan) : ∃ g s', .error g ∈ walk ∧ gather walk s = (.error (.files g), s') := by
  induction walk generalizing s with
  | nil => cases h
  | cons v walk ih =>
    cases v with
    | error g => exact ⟨g, s, List.mem_cons_self, rfl⟩
    | ok l =>
      obtain ⟨g, s', hg, hgather⟩ := ih (by simpa using h) _
      exact ⟨g, s', List.mem_cons_of_mem _ hg, hgather⟩

/-- A scan that succeeds leaves nothing of the source but its root, and one that fails leaves all of it. -/
theorem rescan_eq (d : Disk) (s : Source) : rescan d s =
    match scan d s.root with
    | .ok fresh => (.ok (), fresh)
    | .error f => (.error f, s) := by
  simp only [scan, rescan, replace, unread]
  cases walkFrom d s.root with
  | error f => rfl
  | ok walk =>
    obtain ⟨r, found, hgather⟩ := exists_gather walk []
    simp only [hgather]
    cases r <;> rfl

theorem root_of_scan {root : String} {s : Source} (h : scan d root = .ok s) : s.root = root := by
  simp only [scan, rescan, replace, unread] at h
  cases hwalk : walkFrom d root with
  | error f => simp [hwalk] at h
  | ok walk =>
    obtain ⟨r, found, hgather⟩ := exists_gather walk []
    simp only [hwalk, hgather] at h
    cases r <;> cases h
    rfl

theorem rescan_of_ok {s fresh : Source} (h : scan d s.root = .ok fresh) :
    rescan d s = (.ok (), fresh) := by
  rw [rescan_eq, h]

theorem rescan_of_error {s : Source} {f : MigrationFault} (h : scan d s.root = .error f) :
    rescan d s = (.error f, s) := by
  rw [rescan_eq, h]

/-- The source that a walk of a directory makes. -/
def ofWalk (t : FileTree) (root : String) (top : Location) : Source :=
  ⟨root, (walk t top).filterMap MigrationFile.ofLocation?⟩

theorem scan_of_listed (hd : d.tree.Rooted) {root : String} {top : Location}
    (htop : d.tree.locate root = .ok top) (hsome : d.tree.find? top ≠ none) (hl : Listed d top) :
    scan d root = .ok (ofWalk d.tree root top) := by
  simp [scan, rescan, replace, walkFrom, unread, htop, Option.isSome_iff_ne_none.2 hsome,
    visits_of_listed hd hl, gather_map_ok, ofWalk]

theorem scan_of_unlisted (hd : d.tree.Rooted) {root : String} {top : Location}
    (htop : d.tree.locate root = .ok top) (hl : ¬ Listed d top) :
    scan d root = .error .unwalked := by
  have hfault : .error .unlisted ∈ visits d top := (error_mem_visits_iff hd).2 ⟨rfl, hl⟩
  have hdir : d.tree.find? top = some .directory := (error_mem_below.1 hfault).1
  obtain ⟨g, s', hg, hgather⟩ := gather_of_error hfault ⟨unread root, []⟩
  obtain ⟨rfl, -⟩ := (error_mem_visits_iff hd).1 hg
  simp only [unread] at hgather
  simp [scan, rescan, replace, walkFrom, unread, htop, hdir, hgather, MigrationFault.unwalked]

theorem scan_eq_ok (hd : d.tree.Rooted) {root : String} {s : Source} (h : scan d root = .ok s) :
    ∃ top, d.tree.locate root = .ok top ∧ d.tree.find? top ≠ none ∧ Listed d top ∧
      s = ofWalk d.tree root top := by
  cases htop : d.tree.locate root with
  | error f => cases f <;> simp [scan, rescan, replace, walkFrom, unread, htop] at h
  | ok top =>
    have hsome : d.tree.find? top ≠ none := by
      intro hnone
      simp [scan, rescan, replace, walkFrom, unread, htop, hnone] at h
    refine ⟨top, rfl, hsome, ?_⟩
    by_cases hl : Listed d top
    · rw [scan_of_listed hd htop hsome hl] at h
      exact ⟨hl, (Except.ok.inj h).symm⟩
    · rw [scan_of_unlisted hd htop hl] at h
      cases h

/-- The order in which kinds are sorted, SQL first on the way up and last on the way down. -/
def kindRank : Kind → Nat
  | .sql => 0
  | .metadata => 1

def goesBefore : Direction → Kind → Kind → Bool
  | .up, k, k' => kindRank k ≤ kindRank k'
  | .down, k, k' => kindRank k' ≤ kindRank k

theorem goesBefore_iff {d : Direction} {k k' : Kind} : goesBefore d k k' = true ↔ MayPrecede d k k' := by
  cases d <;> cases k <;> cases k' <;> simp [goesBefore, MayPrecede, kindRank]

theorem executionOrder_of_pairwise {d : Direction} {fs : List MigrationFile}
    (h : fs.Pairwise fun f g => MayPrecede d f.kind g.kind) : executionOrder d fs = fs := by
  induction fs with
  | nil => cases d <;> rfl
  | cons f fs ih =>
    obtain ⟨hf, hfs⟩ := List.pairwise_cons.1 h
    have hrest := ih hfs
    have hlater : ∀ k k', (∀ g ∈ fs, g.kind = k) → k ≠ k' → ofKind k fs = fs ∧ ofKind k' fs = [] := by
      intro k k' hall hne
      refine ⟨List.filter_eq_self.2 fun g hg => by simp [hall g hg], List.filter_eq_nil_iff.2 fun g hg => ?_⟩
      simpa [hall g hg] using hne
    cases hk : f.kind <;> cases d
    · simpa [executionOrder, ofKind, hk] using hrest
    · obtain ⟨hsame, hother⟩ := hlater .sql .metadata (fun g hg => hf g hg hk) (by decide)
      simp only [ofKind] at hsame hother
      simp [executionOrder, ofKind, hk, hsame, hother]
    · obtain ⟨hsame, hother⟩ := hlater .metadata .sql (fun g hg => hf g hg hk) (by decide)
      simp only [ofKind] at hsame hother
      simp [executionOrder, ofKind, hk, hsame, hother]
    · simpa [executionOrder, ofKind, hk] using hrest

/-- Sorting files by their kind, with those of one kind left in order, is the order of execution. -/
theorem mergeSort_kind (d : Direction) (fs : List MigrationFile) :
    fs.mergeSort (fun f g => goesBefore d f.kind g.kind) = executionOrder d fs := by
  have htrans : ∀ f g h : MigrationFile, goesBefore d f.kind g.kind = true →
      goesBefore d g.kind h.kind = true → goesBefore d f.kind h.kind = true := by
    intro f g h
    cases d <;> simp only [goesBefore, decide_eq_true_eq] <;> omega
  have htotal : ∀ f g : MigrationFile,
      (goesBefore d f.kind g.kind || goesBefore d g.kind f.kind) = true := by
    intro f g
    cases d <;> simp only [goesBefore, Bool.or_eq_true, decide_eq_true_eq] <;> omega
  have hsorted := List.pairwise_mergeSort htrans htotal fs
  have hkinds : ∀ k, ofKind k (fs.mergeSort fun f g => goesBefore d f.kind g.kind) = ofKind k fs := by
    intro k
    have hsame : (ofKind k fs).Pairwise fun f g => goesBefore d f.kind g.kind = true := by
      refine List.pairwise_of_forall_mem_list fun f hf g hg => ?_
      rw [kind_of_mem_ofKind hf, kind_of_mem_ofKind hg, goesBefore_iff]
      cases d <;> exact id
    exact filter_mergeSort htrans htotal hsame
  rw [← executionOrder_of_pairwise (hsorted.imp fun h => goesBefore_iff.1 h)]
  cases d <;> simp only [executionOrder, hkinds]

end Source

/-- What is gathered side by side while a directory is walked. -/
structure Index where
  up : VersionSet
  down : VersionSet
  groups : Nat → Direction → List MigrationFile
  names : Nat → Option String

namespace Index

def empty : Index := ⟨.empty, .empty, fun _ _ => [], fun _ => none⟩

/-- Enters a file in the versions of its direction and at the end of its group; a version keeps its first
name. -/
def add (x : Index) (f : MigrationFile) : Index where
  up := if f.direction = .up then x.up.insert f.version else x.up
  down := if f.direction = .down then x.down.insert f.version else x.down
  groups v d := if f.version = v ∧ f.direction = d then x.groups v d ++ [f] else x.groups v d
  names v := if f.version = v then (x.names v).or (some f.name) else x.names v

/-- Takes in a file that the walk comes to; one that is not named as a migration is passed over. -/
def visit (x : Index) (l : Location) : Index :=
  match MigrationFile.ofLocation? l with
  | some f => x.add f
  | none => x

def arranged (x : Index) : Index :=
  { x with groups := fun v d => (x.groups v d).mergeSort fun f g => Source.goesBefore d f.kind g.kind }

/-- All that the walk comes to, up to the first fault. -/
def ofWalk (walk : List (Except FileFault Location)) : Except FileFault Index :=
  (walk.foldlM (fun x (v : Except FileFault Location) => v.map x.visit) empty).map arranged

theorem ofWalk_map_ok (ls : List Location) :
    ofWalk (ls.map .ok) = .ok (ls.foldl visit empty).arranged := by
  have hfold : ∀ x : Index, (ls.map .ok).foldlM (fun x (v : Except FileFault Location) => v.map x.visit) x =
      .ok (ls.foldl visit x) := by
    induction ls with
    | nil => exact fun x => rfl
    | cons l ls ih => exact fun x => ih (x.visit l)
  rw [ofWalk, hfold]
  rfl

end Index

namespace Source

def index (s : Source) : Index := ⟨s.up, s.down, s.filesOf, s.name?⟩

theorem versionsOf_concat (root : String) (fs : List MigrationFile) (f : MigrationFile) (d : Direction) :
    (Source.mk root (fs ++ [f])).versionsOf d =
      if f.direction = d then ((Source.mk root fs).versionsOf d).insert f.version
      else (Source.mk root fs).versionsOf d := by
  by_cases h : f.direction = d <;>
    simp [versionsOf, VersionSet.ofList, List.filter_append, List.foldl_append, h]

theorem name?_concat (root : String) (fs : List MigrationFile) (f : MigrationFile) (v : Nat) :
    (Source.mk root (fs ++ [f])).name? v =
      if f.version = v then ((Source.mk root fs).name? v).or (some f.name)
      else (Source.mk root fs).name? v := by
  by_cases h : f.version = v
  · simp [name?, List.find?_append, h]
  · simp [name?, List.find?_append, h]

/-- Gathering file by file gives the versions, the groups and the names of all of them. -/
theorem foldl_add (root : String) (fs : List MigrationFile) :
    fs.foldl Index.add Index.empty = ⟨(Source.mk root fs).up, (Source.mk root fs).down,
      fun v d => fs.filter (has v d), (Source.mk root fs).name?⟩ := by
  induction fs using List.reverseRecOn with
  | nil => rfl
  | append_singleton fs f ih =>
    rw [List.foldl_append, ih]
    simp only [List.foldl_cons, List.foldl_nil, Index.add, up, down, versionsOf_concat, Index.mk.injEq,
      true_and]
    refine ⟨?_, ?_⟩
    · funext v d
      by_cases h : f.version = v ∧ f.direction = d
      · simp [List.filter_append, has, h]
      · have hhas : has v d f = false := by simpa [has] using h
        simp [List.filter_append, h, hhas]
    · funext v
      exact (name?_concat root fs f v).symm

theorem ofWalk_eq (root : String) (ls : List Location) :
    Index.ofWalk (ls.map .ok) = .ok (Source.mk root (ls.filterMap MigrationFile.ofLocation?)).index := by
  have hvisit : ls.foldl Index.visit Index.empty =
      (ls.filterMap MigrationFile.ofLocation?).foldl Index.add Index.empty := by
    rw [List.foldl_filterMap]
    congr 1
    funext x l
    simp only [Index.visit]
    cases MigrationFile.ofLocation? l <;> rfl
  rw [Index.ofWalk_map_ok, hvisit, foldl_add root]
  simp only [Index.arranged, mergeSort_kind]
  rfl

/-- What the source tells is what the directory holds. -/
structure Reflects (d : Disk) (top : Location) (s : Source) : Prop where
  up : ∀ v, v ∈ s.up ↔ s.filesOf v .up ≠ []
  down : ∀ v, v ∈ s.down ↔ s.filesOf v .down ≠ []
  contains : ∀ v, s.contains v = true ↔ v ∈ s.up ∨ v ∈ s.down
  versions : ∀ v, v ∈ s.versions ↔ v ∈ s.up ∨ v ∈ s.down
  named : ∀ v, (s.name? v).isSome = true ↔ v ∈ s.up ∨ v ∈ s.down
  /-- The name of a version is that of its first file in the walk. -/
  firstName : ∀ v n, s.name? v = some n → ∃ f ∈ s.filesOf v f.direction, f.name = n ∧
    ∀ dir, ∀ g ∈ s.filesOf v dir, g = f ∨ f.location < g.location
  /-- Every file that is named as a migration is in the group of its version and direction, once. -/
  placed : ∀ l f, (l.length = 1 ∨ l.length = 2) → d.tree.HasFile (top ++ l) →
    MigrationFile.ofLocation? l = some f →
    ∀ v dir, (s.filesOf v dir).count f = if v = f.version ∧ dir = f.direction then 1 else 0
  only : ∀ v dir, ∀ f ∈ s.filesOf v dir, d.tree.HasFile (top ++ f.location) ∧
    (f.location.length = 1 ∨ f.location.length = 2) ∧ MigrationFile.ofLocation? f.location = some f
  kinds : ∀ v dir, (s.filesOf v dir).Pairwise fun f g => MayPrecede dir f.kind g.kind
  walked : ∀ v dir k, (ofKind k (s.filesOf v dir)).Pairwise fun f g => f.location < g.location
  /-- One pass over the walk, which fills everything side by side, comes to the same. -/
  gathered : Index.ofWalk (visits d top) = .ok s.index

theorem location_of_ofLocation? {l : Location} {f : MigrationFile}
    (h : MigrationFile.ofLocation? l = some f) : f.location = l ∧ (l.length = 1 ∨ l.length = 2) := by
  unfold MigrationFile.ofLocation? at h
  split at h
  · obtain ⟨parts, -, rfl⟩ := Option.map_eq_some_iff.1 h
    exact ⟨rfl, .inl rfl⟩
  · simp only [Option.bind_eq_bind, Option.bind_eq_some_iff] at h
    obtain ⟨_, -, _, -, h⟩ := h
    cases h
    exact ⟨rfl, .inr rfl⟩
  · cases h

theorem mem_files_ofWalk (ht : t.Rooted) {root : String} {top : Location} {f : MigrationFile} :
    f ∈ (ofWalk t root top).files ↔
      t.HasFile (top ++ f.location) ∧ MigrationFile.ofLocation? f.location = some f := by
  simp only [ofWalk, List.mem_filterMap, mem_walk ht]
  constructor
  · rintro ⟨l, ⟨-, hfile⟩, hl⟩
    rw [(location_of_ofLocation? hl).1]
    exact ⟨hfile, hl⟩
  · rintro ⟨hfile, hl⟩
    exact ⟨f.location, ⟨(location_of_ofLocation? hl).2, hfile⟩, hl⟩

theorem files_ascending (ht : t.Rooted) (root : String) (top : Location) :
    (ofWalk t root top).files.Pairwise fun f g => f.location < g.location := by
  refine (walk_ascending ht top).filterMap _ fun l m hlm f hf g hg => ?_
  rwa [(location_of_ofLocation? hf).1, (location_of_ofLocation? hg).1]

theorem location_lt_irrefl (l : Location) : ¬ l < l := by
  induction l with
  | nil => exact List.not_lt_nil _
  | cons n l ih =>
    rw [List.cons_lt_cons_iff]
    rintro (h | ⟨-, h⟩)
    · exact String.lt_irrefl n h
    · exact ih h

theorem exists_file_iff {s : Source} {v : Nat} :
    (∃ f ∈ s.files, f.version = v) ↔ v ∈ s.up ∨ v ∈ s.down := by
  simp only [up, down, versionsOf, VersionSet.mem_ofList, List.mem_map, List.mem_filter, beq_iff_eq]
  constructor
  · rintro ⟨f, hf, hv⟩
    cases hd : f.direction with
    | up => exact .inl ⟨f, ⟨hf, hd⟩, hv⟩
    | down => exact .inr ⟨f, ⟨hf, hd⟩, hv⟩
  · rintro (⟨f, ⟨hf, -⟩, hv⟩ | ⟨f, ⟨hf, -⟩, hv⟩) <;> exact ⟨f, hf, hv⟩

theorem find?_first {fs : List MigrationFile} (h : fs.Pairwise fun f g => f.location < g.location)
    {p : MigrationFile → Bool} {f : MigrationFile} (hf : fs.find? p = some f) {g : MigrationFile}
    (hg : g ∈ fs) (hp : p g = true) : g = f ∨ f.location < g.location := by
  obtain ⟨-, before, after, rfl, hbefore⟩ := List.find?_eq_some_iff_append.1 hf
  rcases List.mem_append.1 hg with hg | hg
  · have hnot := hbefore g hg
    simp [hp] at hnot
  · rcases List.mem_cons.1 hg with rfl | hg
    · exact .inl rfl
    · exact .inr ((List.pairwise_cons.1 (List.pairwise_append.1 h).2.1).1 g hg)

theorem nodup_filesOf {s : Source} (h : s.files.Pairwise fun f g => f.location < g.location) (v : Nat)
    (d : Direction) : (s.filesOf v d).Nodup := by
  have hfiles : s.files.Nodup :=
    h.imp fun {f g} (hlt : f.location < g.location) (heq : f = g) =>
      location_lt_irrefl f.location (by rwa [← heq] at hlt)
  have hperm : (s.filesOf v d).Perm (s.files.filter (has v d)) := by
    rw [filesOf, ← mergeSort_kind]
    exact List.mergeSort_perm _ _
  exact hperm.nodup_iff.2 (hfiles.sublist List.filter_sublist)

theorem reflects_ofWalk (hd : d.tree.Rooted) (root : String) {top : Location} (hl : Listed d top) :
    (ofWalk d.tree root top).Reflects d top := by
  have hascending := files_ascending hd root top
  constructor
  case up => exact fun v => mem_versionsOf
  case down => exact fun v => mem_versionsOf
  case contains =>
    intro v
    rw [← exists_file_iff]
    simp [contains]
  case versions =>
    intro v
    rw [← exists_file_iff]
    simp [versions]
  case named =>
    intro v
    rw [← exists_file_iff]
    simp [name?]
  case firstName =>
    intro v n hn
    obtain ⟨f, hf, rfl⟩ := Option.map_eq_some_iff.1 hn
    have hv : f.version = v := by simpa using List.find?_some hf
    refine ⟨f, mem_filesOf.2 ⟨List.mem_of_find?_eq_some hf, hv, rfl⟩, rfl, fun dir g hg => ?_⟩
    obtain ⟨hg, hgv, -⟩ := mem_filesOf.1 hg
    exact find?_first hascending hf hg (by simpa using hgv)
  case placed =>
    intro l f _ hfile hname v dir
    have hnodup := nodup_filesOf hascending v dir
    have hmem : f ∈ (ofWalk d.tree root top).filesOf v dir ↔ v = f.version ∧ dir = f.direction := by
      obtain ⟨hloc, -⟩ := location_of_ofLocation? hname
      subst hloc
      rw [mem_filesOf, mem_files_ofWalk hd]
      constructor
      · rintro ⟨-, rfl, rfl⟩
        exact ⟨rfl, rfl⟩
      · rintro ⟨rfl, rfl⟩
        exact ⟨⟨hfile, hname⟩, rfl, rfl⟩
    split
    · rename_i hgroup
      exact List.count_eq_one_of_mem hnodup (hmem.2 hgroup)
    · rename_i hgroup
      exact List.count_eq_zero.2 fun hf => hgroup (hmem.1 hf)
  case only =>
    intro v dir f hf
    obtain ⟨hfile, hname⟩ := (mem_files_ofWalk hd).1 (mem_filesOf.1 hf).1
    exact ⟨hfile, (location_of_ofLocation? hname).2, hname⟩
  case kinds => exact fun v dir => pairwise_executionOrder dir _
  case walked =>
    intro v dir k
    rw [filesOf, ofKind_executionOrder]
    exact hascending.sublist (List.filter_sublist.trans List.filter_sublist)
  case gathered =>
    rw [visits_of_listed hd hl]
    exact ofWalk_eq root _

/-- What is left of a source after it scanned these, one after the other. -/
def rescanAll (s : Source) (ds : List Disk) : Source := ds.foldl (fun s d => (rescan d s).2) s

theorem root_rescanAll (s : Source) (ds : List Disk) : (s.rescanAll ds).root = s.root := by
  induction ds generalizing s with
  | nil => rfl
  | cons d ds ih =>
    refine (ih (rescan d s).2).trans ?_
    cases h : scan d s.root with
    | error f => rw [rescan_of_error h]
    | ok fresh =>
      rw [rescan_of_ok h]
      exact root_of_scan h

/-- A source is what the last scan that succeeded made of its directory; scans that fail leave nothing
behind. -/
theorem rescanAll_cases (s : Source) (ds : List Disk) :
    (s.rescanAll ds = s ∧ ∀ d ∈ ds, ∃ f, scan d s.root = .error f) ∨
    ∃ before d after, ds = before ++ d :: after ∧ scan d s.root = .ok (s.rescanAll ds) ∧
      ∀ u ∈ after, ∃ f, scan u s.root = .error f := by
  induction ds using List.reverseRecOn with
  | nil => exact .inl ⟨rfl, nofun⟩
  | append_singleton ds d ih =>
    have hlast : s.rescanAll (ds ++ [d]) = (rescan d (s.rescanAll ds)).2 := by
      simp [rescanAll, List.foldl_append]
    have hroot := s.root_rescanAll ds
    cases h : scan d s.root with
    | ok fresh =>
      rw [hlast, rescan_of_ok (hroot ▸ h)]
      exact .inr ⟨ds, d, [], rfl, h, nofun⟩
    | error f =>
      rw [hlast, rescan_of_error (hroot ▸ h)]
      have hfails : ∀ us : List Disk, (∀ u ∈ us, ∃ f, scan u s.root = .error f) →
          ∀ u ∈ us ++ [d], ∃ f, scan u s.root = .error f := by
        intro us hus u hu
        rcases List.mem_append.1 hu with hu | hu
        · exact hus u hu
        · exact ⟨f, List.mem_singleton.1 hu ▸ h⟩
      rcases ih with ⟨hsame, hus⟩ | ⟨before, u, after, rfl, hu, hus⟩
      · exact .inl ⟨hsame, hfails ds hus⟩
      · exact .inr ⟨before, u, after ++ [d], by simp, hu, hfails after hus⟩

theorem scan_succeeds_iff (hd : d.tree.Rooted) {root : String} : (∃ s, scan d root = .ok s) ↔
    ∃ top, d.tree.locate root = .ok top ∧ d.tree.find? top ≠ none ∧ Listed d top := by
  constructor
  · rintro ⟨s, h⟩
    obtain ⟨top, htop, hsome, hl, -⟩ := scan_eq_ok hd h
    exact ⟨top, htop, hsome, hl⟩
  · rintro ⟨top, htop, hsome, hl⟩
    exact ⟨_, scan_of_listed hd htop hsome hl⟩

/-- A source that scans one directory after the other is, at any time, what its last scan that succeeded makes
of that directory alone, and reflects it; a scan that fails leaves it as it was.  A scan succeeds if there is
something to scan and the directories in it may be listed. -/
theorem rescans_reflect (root : String) (ds : List Disk) (hds : ∀ u ∈ ds, u.tree.Rooted)
    (hd : d.tree.Rooted) :
    ((∃ fresh, scan d root = .ok fresh) ↔
      ∃ top, d.tree.locate root = .ok top ∧ d.tree.find? top ≠ none ∧ Listed d top) ∧
    (∀ fresh, scan d root = .ok fresh →
      rescan d ((unread root).rescanAll ds) = (.ok (), fresh) ∧
      rescan d (unread root) = (.ok (), fresh) ∧
      ∃ top, d.tree.locate root = .ok top ∧ fresh.Reflects d top) ∧
    (∀ f, scan d root = .error f →
      rescan d ((unread root).rescanAll ds) = (.error f, (unread root).rescanAll ds)) ∧
    (((unread root).rescanAll ds = unread root ∧ ∀ u ∈ ds, ∃ f, scan u root = .error f) ∨
      ∃ before u after top, ds = before ++ u :: after ∧ u.tree.locate root = .ok top ∧
        scan u root = .ok ((unread root).rescanAll ds) ∧ ((unread root).rescanAll ds).Reflects u top ∧
        ∀ w ∈ after, ∃ f, scan w root = .error f) := by
  have hroot : ((unread root).rescanAll ds).root = root := root_rescanAll _ ds
  have hreflects : ∀ {u : Disk} {s : Source}, u.tree.Rooted → scan u root = .ok s →
      ∃ top, u.tree.locate root = .ok top ∧ s.Reflects u top := by
    intro u s hu hs
    obtain ⟨top, htop, -, hl, rfl⟩ := scan_eq_ok hu hs
    exact ⟨top, htop, reflects_ofWalk hu root hl⟩
  refine ⟨scan_succeeds_iff hd, fun fresh h => ?_, fun f h => ?_, ?_⟩
  · exact ⟨rescan_of_ok (by rw [hroot, h]), rescan_of_ok h, hreflects hd h⟩
  · exact rescan_of_error (by rw [hroot, h])
  · rcases (unread root).rescanAll_cases ds with hnone | ⟨before, u, after, hsplit, hscan, hafter⟩
    · exact .inl hnone
    · obtain ⟨top, htop, hreflect⟩ := hreflects (hds u (by simp [hsplit])) hscan
      exact .inr ⟨before, u, after, top, hsplit, htop, hscan, hreflect, hafter⟩

/-- A directory with both layouts for one version. -/
def mixed : FileTree :=
  FileTree.empty.changeAll [.makeDirectories "m/7_b", .write "m/7_b/up.yaml" ⟨#[]⟩,
    .write "m/7_b/up.sql" ⟨#[]⟩, .write "m/7_a.down.sql" ⟨#[]⟩, .write "m/notes.txt" ⟨#[]⟩]

/-- The same later: one file went and another one came. -/
def mixedLater : FileTree :=
  mixed.changeAll [.remove ["m", "7_b", "up.sql"], .write "m/8_c.up.sql" ⟨#[]⟩]

/-- The same with a directory that may not be listed.  The walk comes to a file before it comes there. -/
def mixedLocked : Disk := ⟨mixed, [["m", "7_b"]]⟩

theorem rooted_mixed : mixed.Rooted := FileTree.rooted_empty.changeAll _

theorem rooted_mixedLater : mixedLater.Rooted := rooted_mixed.changeAll _

theorem rescans_reflect_mixed :
    rescan mixedLocked ((unread "m").rescanAll [mixed]) =
      (.error .unwalked, (unread "m").rescanAll [mixed]) ∧
    rescan mixedLater ((unread "m").rescanAll [mixed, mixedLocked]) =
      (.ok (), ofWalk mixedLater "m" ["m"]) ∧
    ((ofWalk mixedLater "m" ["m"]).filesOf 8 .up).count ⟨8, "c", .up, .sql, ["8_c.up.sql"]⟩ = 1 ∧
    ⟨7, "b", .up, .sql, ["7_b", "up.sql"]⟩ ∉ (ofWalk mixedLater "m" ["m"]).filesOf 7 .up := by
  have hscans : ∀ u ∈ [(mixed : Disk), mixedLocked], u.tree.Rooted := by
    intro u hu
    simp only [List.mem_cons, List.not_mem_nil, or_false] at hu
    rcases hu with rfl | rfl <;> exact rooted_mixed
  have hlocked : ¬ Listed mixedLocked ["m"] := fun h =>
    h ["7_b"] (by simp) (by decide +kernel) List.mem_cons_self
  have hfail : scan mixedLocked "m" = .error .unwalked :=
    scan_of_unlisted rooted_mixed rfl hlocked
  have hscan : scan mixedLater "m" = .ok (ofWalk mixedLater "m" ["m"]) :=
    scan_of_listed rooted_mixedLater rfl (by decide +kernel) (listed_tree _ _)
  obtain ⟨-, -, hfails, -⟩ := rescans_reflect "m" [mixed] (fun u hu => hscans u (by simp_all))
    (d := mixedLocked) rooted_mixed
  obtain ⟨-, hrescan, -⟩ := rescans_reflect "m" [mixed, mixedLocked] hscans
    (d := mixedLater) rooted_mixedLater
  obtain ⟨hfresh, -, top, htop, hreflects⟩ := hrescan _ hscan
  obtain rfl : ["m"] = top := Except.ok.inj (htop.symm.trans (by rfl)).symm
  refine ⟨hfails _ hfail, hfresh, ?_, fun hgone => ?_⟩
  · exact hreflects.placed ["8_c.up.sql"] _ (.inl rfl) ⟨⟨#[]⟩, by decide +kernel⟩ (by decide) 8 .up
  · obtain ⟨⟨content, hcontent⟩, -⟩ := hreflects.only 7 .up _ hgone
    have hnone : mixedLater.find? ["m", "7_b", "up.sql"] = none := by decide +kernel
    exact absurd (hcontent.symm.trans hnone) (by simp)

end Source

end EngineMigrate
