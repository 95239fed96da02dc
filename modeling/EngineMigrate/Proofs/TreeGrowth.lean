import EngineMigrate.Proofs.DirectoryScan
import EngineMigrate.Proofs.PathLocation

/-!
Trees that grow.  Directories that are made for a path leave every entry as it was and add no file; a file
that is written leaves every other entry as it was.  Main statements: a scan reports the same while only
directories are made, and what a scan reports of a version stays while files of other versions are written.
-/
namespace EngineMigrate

namespace FileTree

open FilePath

variable {t u t' : FileTree}

/-- The second tree has what the first one has, and besides only directories. -/
structure Extends (t t' : FileTree) : Prop where
  current : t'.current = t.current
  kept : ∀ l e, t.find? l = some e → t'.find? l = some e
  files : ∀ l content, t'.find? l = some (.file content) → t.find? l = some (.file content)

/-- The second tree is the first one with a file at a location where no directory was. -/
structure Gains (t : FileTree) (l : Location) (text : String) (t' : FileTree) : Prop where
  current : t'.current = t.current
  place : t.find? l ≠ some .directory
  written : t'.find? l = some (.file text.toUTF8)
  other : ∀ m, m ≠ l → t'.find? m = t.find? m

namespace Extends

theorem refl (t : FileTree) : t.Extends t := ⟨rfl, fun _ _ h => h, fun _ _ h => h⟩

theorem trans (h : t.Extends u) (h' : u.Extends t') : t.Extends t' where
  current := h'.current.trans h.current
  kept l e hl := h'.kept l e (h.kept l e hl)
  files l content hl := h.files l content (h'.files l content hl)

theorem set {l : Location} (hl : t.find? l = none) : t.Extends (t.set l .directory) := by
  refine ⟨rfl, fun m e hm => ?_, fun m content hm => ?_⟩
  · have hml : m ≠ l := by
      rintro rfl
      simp [hl] at hm
    rwa [find?_set_of_ne t hml]
  · have hml : m ≠ l := by
      rintro rfl
      simp [find?_set_self t (ne_nil_of_free hl)] at hm
    rwa [find?_set_of_ne t hml] at hm

theorem hasFile (h : t.Extends t') {l : Location} : t'.HasFile l ↔ t.HasFile l :=
  ⟨fun ⟨content, hl⟩ => ⟨content, h.files l content hl⟩, fun ⟨content, hl⟩ => ⟨content, h.kept l _ hl⟩⟩

theorem locate (h : t.Extends t') {path : String} {l : Location} (hl : t.locate path = .ok l) :
    t'.locate path = .ok l :=
  locate_mono h.current (fun m hm => h.kept m _ hm) hl

end Extends

namespace Gains

variable {l : Location} {text : String}

theorem hasFile (h : t.Gains l text t') {m : Location} : t'.HasFile m ↔ m = l ∨ t.HasFile m := by
  by_cases hm : m = l
  · subst hm
    simp [HasFile, h.written]
  · simp [HasFile, h.other m hm, hm]

theorem directory (h : t.Gains l text t') {m : Location} (hm : t.find? m = some .directory) :
    t'.find? m = some .directory := by
  have hml : m ≠ l := by
    rintro rfl
    exact h.place hm
  rwa [h.other m hml]

theorem locate (h : t.Gains l text t') {path : String} {m : Location} (hm : t.locate path = .ok m) :
    t'.locate path = .ok m :=
  locate_mono h.current (fun _ hdir => h.directory hdir) hm

theorem directory_iff (h : t.Gains l text t') {m : Location} :
    t'.find? m = some .directory ↔ t.find? m = some .directory := by
  refine ⟨fun hm => ?_, h.directory⟩
  have hml : m ≠ l := by
    rintro rfl
    simp [h.written] at hm
  rwa [← h.other m hml]

theorem locate_iff (h : t.Gains l text t') {path : String} {m : Location} :
    t'.locate path = .ok m ↔ t.locate path = .ok m :=
  ⟨locate_mono h.current.symm fun _ => h.directory_iff.1, h.locate⟩

end Gains

theorem extends_ensureDirectory (t : FileTree) (path : String) : t.Extends (t.ensureDirectory path).2 :=
  ensureDirectoryUpTo_keeps (P := t.Extends) (fun _ _ _ hext _ hfree => hext.trans (.set hfree)) _ path
    (.refl t)

/-- What is made of a tree on the way to a directory is a tree of the same kind that extends it. -/
theorem ensureDirectory_extends (ht : t.Rooted) (hn : t.Named) (path : String) :
    (t.ensureDirectory path).2.Rooted ∧ (t.ensureDirectory path).2.Named ∧
      t.Extends (t.ensureDirectory path).2 := by
  rw [← and_assoc]
  refine ⟨ensureDirectoryUpTo_keeps (P := fun u => u.Rooted ∧ u.Named) ?_ _ path ⟨ht, hn⟩,
    extends_ensureDirectory t path⟩
  rintro u path l ⟨hu, hun⟩ hl hfree
  have hplace : u.find? l ≠ some .directory := by simp [hfree]
  exact ⟨hu.set (ne_nil_of_free hfree) (hu.locate hl) hplace _, hun.set hu hl hplace _⟩

theorem exists_writeText_iff {path text : String} :
    (∃ t', t.writeText path text = .ok t') ↔ ∃ l, t.locate path = .ok l ∧ t.find? l ≠ some .directory := by
  constructor
  · rintro ⟨t', h⟩
    obtain ⟨l, hl, hplace, -⟩ := eq_set_of_writeBytes h
    exact ⟨l, hl, hplace⟩
  · rintro ⟨l, hl, hplace⟩
    refine ⟨t.set l (.file text.toUTF8), ?_⟩
    simp only [writeText, writeBytes, hl, bind, Except.bind]

theorem gains_of_writeText {path text : String} (h : t.writeText path text = .ok t') :
    ∃ l, t.locate path = .ok l ∧ t.Gains l text t' := by
  obtain ⟨l, hl, hplace, rfl⟩ := eq_set_of_writeBytes h
  have hne : l ≠ [] := fun hnil => hplace (hnil ▸ rfl)
  exact ⟨l, hl, rfl, hplace, find?_set_self t hne _, fun m hm => find?_set_of_ne t hm _⟩

theorem writeText_gains (ht : t.Rooted) (hn : t.Named) {path text : String}
    (h : t.writeText path text = .ok t') :
    ∃ l, t.locate path = .ok l ∧ t.Gains l text t' ∧ t'.Rooted ∧ t'.Named := by
  obtain ⟨l, hl, hgains⟩ := gains_of_writeText h
  obtain ⟨_, hl', hplace, rfl⟩ := eq_set_of_writeBytes h
  exact ⟨l, hl, hgains, ht.writeBytes h, hn.set ht hl' hplace _⟩

theorem named_empty : empty.Named := nofun

theorem Named.changeAll (ht : t.Rooted) (hn : t.Named) (changes : List Change) :
    (t.changeAll changes).Named := by
  induction changes generalizing t with
  | nil => exact hn
  | cons c changes ih =>
    refine ih (ht.change c) ?_
    cases c with
    | write path content =>
      simp only [Change.applyTo]
      split
      · obtain ⟨l, hl, hplace, rfl⟩ := eq_set_of_writeBytes ‹_›
        exact hn.set ht hl hplace _
      · exact hn
    | makeDirectories path => exact (ensureDirectory_extends ht hn path).2.1
    | remove l => exact fun e he => hn e (List.mem_of_mem_filter he)

/-- A text for a name in a directory is written into that directory under that name. -/
theorem writeText_join (ht : t.Rooted) (hn : t.Named) {base name text : String} (hbase : base ≠ "")
    (hname : IsStep name) (h : t.writeText (join base name) text = .ok t') :
    ∃ top, t.locate base = .ok top ∧ t.find? top = some .directory ∧
      t.locate (join base name) = .ok (top ++ [name]) ∧ t.Gains (top ++ [name]) text t' ∧
      t'.Rooted ∧ t'.Named := by
  obtain ⟨_, hl, hgains, hrooted, hnamed⟩ := writeText_gains ht hn h
  obtain ⟨-, -, top, htop, hdir, rfl⟩ := (locate_join hbase hname).1 hl
  exact ⟨top, htop, hdir, hl, hgains, hrooted, hnamed⟩

theorem find?_of_not_exists {path : String} {l : Location} (hl : t.locate path = .ok l)
    (h : t.exists? path = .ok false) : t.find? l = none := by
  cases hfound : t.find? l with
  | none => rfl
  | some e => simp [exists?, entry, hl, hfound, bind, Except.bind] at h

theorem fromUTF8?_eq_some_iff {content : ByteArray} {text : String} :
    String.fromUTF8? content = some text ↔ content = text.toUTF8 := by
  constructor
  · intro h
    rw [String.fromUTF8?] at h
    split at h
    · cases h
      rfl
    · cases h
  · rintro rfl
    have hvalid : text.toUTF8.IsValidUTF8 := text.isValidUTF8
    rw [String.fromUTF8?, dif_pos hvalid]
    rfl

theorem readText_of_error {path : String} {f : FileFault} (hl : t.locate path = .error f) :
    t.readText path = .error f := by
  simp [readText, readBytes, entry, hl, bind, Except.bind]

theorem readText_eq_ok_iff {path text : String} : t.readText path = .ok text ↔
    ∃ l, t.locate path = .ok l ∧ t.find? l = some (.file text.toUTF8) := by
  cases hl : t.locate path with
  | error f => simp [readText_of_error hl]
  | ok l =>
    simp only [readText, readBytes, entry, hl, bind, Except.bind, Except.ok.injEq, exists_eq_left']
    cases t.find? l with
    | none => simp
    | some e =>
      cases e with
      | directory => simp
      | file content =>
        dsimp only
        rw [Option.some.injEq, FileEntry.file.injEq, ← fromUTF8?_eq_some_iff]
        cases String.fromUTF8? content <;> simp

theorem readText_congr {path : String} {l : Location} (hl : t.locate path = .ok l)
    (hl' : t'.locate path = .ok l) (h : t'.find? l = t.find? l) : t'.readText path = t.readText path := by
  have hentry : t'.entry path = t.entry path := by
    simp only [entry, hl, hl', h, bind, Except.bind]
  rw [readText, readText, readBytes, readBytes, hentry]

end FileTree

namespace Source

open FileTree FilePath

variable {t t' : FileTree} {s s' : Source} {v : Nat}

/-- What two scans report of a version is the same, and so are the contents of its files. -/
structure SameVersion (t : FileTree) (s : Source) (t' : FileTree) (s' : Source) (v : Nat) : Prop where
  contains : s'.contains v = s.contains v
  name : s'.name? v = s.name? v
  files : ∀ d, s'.filesOf v d = s.filesOf v d
  contents : ∀ d, ∀ f ∈ s.filesOf v d, read t' s' f = read t s f

/-- What is reported of a version follows from its own files. -/
theorem reports_congr
    (h : (s'.files.filter fun f => f.version == v) = s.files.filter fun f => f.version == v) :
    s'.contains v = s.contains v ∧ s'.name? v = s.name? v ∧ ∀ d, s'.filesOf v d = s.filesOf v d := by
  have hcontains : ∀ s : Source,
      s.contains v = (s.files.filter fun f => f.version == v).any fun f => f.version == v := by
    simp [contains, List.any_filter]
  have hname : ∀ s : Source,
      s.name? v = (s.files.filter fun f => f.version == v).head?.map MigrationFile.name := by
    simp [name?, List.head?_filter]
  have hfiles : ∀ (s : Source) (d : Direction), s.filesOf v d =
      executionOrder d ((s.files.filter fun f => f.version == v).filter fun f => f.direction == d) := by
    intro s d
    rw [List.filter_filter, filesOf]
    congr 2
    funext f
    exact Bool.and_comm _ _
  exact ⟨by rw [hcontains, hcontains, h], by rw [hname, hname, h], fun d => by rw [hfiles, hfiles, h]⟩

theorem ascending_ext {fs gs : List MigrationFile} (hfs : fs.Pairwise fun f g => f.location < g.location)
    (hgs : gs.Pairwise fun f g => f.location < g.location) (h : ∀ f, f ∈ fs ↔ f ∈ gs) : fs = gs := by
  have : Std.Irrefl fun f g : MigrationFile => f.location < g.location :=
    ⟨fun f => location_lt_irrefl f.location⟩
  have : Std.Antisymm fun f g : MigrationFile => f.location < g.location :=
    ⟨fun f g hfg hgf => absurd hgf (List.lt_asymm hfg)⟩
  exact hfs.eq_of_mem_iff hgs h

/-- A scan succeeds exactly if there is something where its path leads. -/
theorem scan_eq_ok_iff (ht : t.Rooted) {root : String} :
    scan t root = .ok s ↔
      ∃ top, t.locate root = .ok top ∧ t.find? top ≠ none ∧ s = ofWalk t root top := by
  constructor
  · intro h
    obtain ⟨top, htop, hsome, -, rfl⟩ := scan_eq_ok ht h
    exact ⟨top, htop, hsome, rfl⟩
  · rintro ⟨top, htop, hsome, rfl⟩
    exact scan_of_listed ht htop hsome (listed_tree t top)

theorem ascending_of_scan (ht : t.Rooted) {root : String} (hs : scan t root = .ok s) :
    s.files.Pairwise fun f g => f.location < g.location := by
  obtain ⟨top, -, -, rfl⟩ := (scan_eq_ok_iff ht).1 hs
  exact files_ascending ht root top

/-- A version that keeps its files and their contents is reported as before, whatever else there is. -/
theorem sameVersion_of_files (ht : t.Rooted) (ht' : t'.Rooted) {root : String} (hs : scan t root = .ok s)
    (hs' : scan t' root = .ok s')
    (hfiles : ∀ f : MigrationFile, f.version = v → (f ∈ s'.files ↔ f ∈ s.files))
    (hread : ∀ f ∈ s.files, f.version = v → read t' s' f = read t s f) : SameVersion t s t' s' v := by
  have hfilter : (s'.files.filter fun f => f.version == v) = s.files.filter fun f => f.version == v := by
    refine ascending_ext ((ascending_of_scan ht' hs').sublist List.filter_sublist)
      ((ascending_of_scan ht hs).sublist List.filter_sublist) fun f => ?_
    simp only [List.mem_filter, beq_iff_eq]
    exact and_congr_left (hfiles f)
  obtain ⟨hcontains, hname, hgroups⟩ := reports_congr hfilter
  refine ⟨hcontains, hname, hgroups, fun d f hf => ?_⟩
  obtain ⟨hf, hv, -⟩ := mem_filesOf.1 hf
  exact hread f hf hv

theorem read_of_kept (ht : t.Rooted) (hn : t.Named) {root : String} {top : Location}
    (htop : t.locate root = .ok top) (hkept : ∀ path l, t.locate path = .ok l → t'.locate path = .ok l)
    {f : MigrationFile} (hf : f ∈ (ofWalk t root top).files)
    (hsame : t'.find? (top ++ f.location) = t.find? (top ++ f.location)) :
    read t' (ofWalk t' root top) f = read t (ofWalk t root top) f := by
  obtain ⟨⟨content, hcontent⟩, -⟩ := (mem_files_ofWalk ht).1 hf
  have hroot : root ≠ "" := ne_empty_of_locate htop
  have htext : t'.readText (f.path root) = t.readText (f.path root) := by
    by_cases hpath : Nameable (f.path root)
    · have hlocate := ht.locate_below hn hroot htop (by simp [hcontent]) hpath
      exact readText_congr hlocate (hkept _ _ hlocate) hsame
    · have hne : f.path root ≠ "" := foldl_join_ne_empty hroot fun name hname =>
        (hn.of_find? (l := top ++ f.location) (by simp [hcontent]) (by simp [hname])).1.single
      rw [readText_of_error (locate_unnameable hne hpath), readText_of_error (locate_unnameable hne hpath)]
  exact congrArg (Except.mapError MigrationFault.files) htext

/-- A scan reports the same while only directories are made. -/
theorem scan_of_extends (ht : t.Rooted) (hn : t.Named) (ht' : t'.Rooted) (h : t.Extends t') {root : String}
    (hs : scan t root = .ok s) : scan t' root = .ok s ∧ ∀ f ∈ s.files, read t' s f = read t s f := by
  obtain ⟨top, htop, hfound, rfl⟩ := (scan_eq_ok_iff ht).1 hs
  have hsource : ofWalk t' root top = ofWalk t root top := by
    have hfiles : (ofWalk t' root top).files = (ofWalk t root top).files :=
      ascending_ext (files_ascending ht' root top) (files_ascending ht root top) fun f => by
        rw [mem_files_ofWalk ht', mem_files_ofWalk ht, h.hasFile]
    exact congrArg (Source.mk root) hfiles
  have hfound' : t'.find? top ≠ none := by
    obtain ⟨e, he⟩ := Option.ne_none_iff_exists'.1 hfound
    simp [h.kept top e he]
  refine ⟨(scan_eq_ok_iff ht').2 ⟨top, h.locate htop, hfound', hsource.symm⟩, fun f hf => ?_⟩
  obtain ⟨⟨content, hcontent⟩, -⟩ := (mem_files_ofWalk ht).1 hf
  have hread := read_of_kept ht hn htop (fun _ _ => h.locate) hf (by rw [hcontent, h.kept _ _ hcontent])
  rwa [hsource] at hread

/-- A file that is written into the directory is reported from then on, and the other files are read as
before. -/
theorem scan_of_gains (ht : t.Rooted) (hn : t.Named) (ht' : t'.Rooted) {root name text : String}
    {top : Location} (htop : t.locate root = .ok top) (hs : scan t root = .ok s)
    (h : t.Gains (top ++ [name]) text t') {f : MigrationFile}
    (hf : MigrationFile.ofLocation? [name] = some f) :
    ∃ s', scan t' root = .ok s' ∧ (∀ g, g ∈ s'.files ↔ g = f ∨ g ∈ s.files) ∧
      ∀ g ∈ s.files, g ≠ f → read t' s' g = read t s g := by
  obtain ⟨_, hl, hfound, rfl⟩ := (scan_eq_ok_iff ht).1 hs
  obtain rfl := Except.ok.inj (htop.symm.trans hl)
  have hfound' : t'.find? top ≠ none := by
    have hne : top ≠ top ++ [name] := by simp
    rwa [h.other top hne]
  have hloc : f.location = [name] := (location_of_ofLocation? hf).1
  refine ⟨_, (scan_eq_ok_iff ht').2 ⟨top, h.locate htop, hfound', rfl⟩, fun g => ?_, fun g hg hne => ?_⟩
  · rw [mem_files_ofWalk ht', mem_files_ofWalk ht, h.hasFile, List.append_cancel_left_eq]
    constructor
    · rintro ⟨hg | hg, hparsed⟩
      · rw [hg, hf] at hparsed
        exact .inl (Option.some.inj hparsed).symm
      · exact .inr ⟨hg, hparsed⟩
    · rintro (rfl | ⟨hg, hparsed⟩)
      · exact ⟨.inl hloc, by rwa [hloc]⟩
      · exact ⟨.inr hg, hparsed⟩
  · refine read_of_kept ht hn htop (fun _ _ => h.locate) hg (h.other _ fun heq => hne ?_)
    have hgloc : g.location = [name] := by simpa using heq
    obtain ⟨-, hparsed⟩ := (mem_files_ofWalk ht).1 hg
    rw [hgloc, hf] at hparsed
    exact (Option.some.inj hparsed).symm

end Source

end EngineMigrate
