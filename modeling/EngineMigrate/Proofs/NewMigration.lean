import EngineMigrate.Local.Creation
import EngineMigrate.Proofs.NameGrammar
import EngineMigrate.Proofs.Statement

/-!
New migrations among the existing ones.  The name of a file that is written for a migration reads back as
the version, name and direction it was made from, whatever dots, digits and underscores the name has.  Main
statements: a new version is found by the next scan exactly as it was given, and what a scan reported before
stays exactly if the version was new.
-/
namespace EngineMigrate

namespace Draft

open FileTree FilePath

variable {t t' : FileTree} {d : Draft} {v : Nat} {directory : String} {c : Created}

def fileName (version : Nat) (name : String) (direction : Direction) : String :=
  toString version ++ "_" ++ name ++ "." ++ direction.name ++ ".sql"

def file (d : Draft) (version : Nat) (direction : Direction) : MigrationFile :=
  ⟨version, d.name, direction, .sql, [fileName version d.name direction]⟩

def files (d : Draft) (version : Nat) : List MigrationFile :=
  d.file version .up :: (d.downSql.map fun _ => d.file version .down).toList

theorem path_eq (directory : String) (v : Nat) (name : String) (dir : Direction) :
    path directory v name dir = join directory (fileName v name dir) := rfl

theorem path_file (d : Draft) (directory : String) (v : Nat) (dir : Direction) :
    (d.file v dir).path directory = path directory v d.name dir := by
  rw [path_eq, MigrationFile.path, file, List.foldl_cons, List.foldl_nil]

theorem toList_fileName (v : Nat) (name : String) (dir : Direction) : (fileName v name dir).toList =
    Text.decimal v ++ '_' :: name.toList ++ '.' :: (dir.name ++ ".sql").toList := by
  simp [fileName, Text.decimal]

theorem not_mem_of_isWritableName {name : String} (h : isWritableName name = true) :
    name ≠ "" ∧ '/' ∉ name.toList ∧ '\n' ∉ name.toList := by
  simp only [isWritableName, Bool.and_eq_true, Bool.not_eq_true', List.all_eq_true, bne_iff_ne, ne_eq] at h
  obtain ⟨hne, hall⟩ := h
  refine ⟨fun hnil => ?_, fun hslash => (hall _ hslash).1.1 rfl, fun hline => ?_⟩
  · simp [hnil] at hne
  · have hblank := (hall _ hline).2
    exact absurd hblank (by decide)

theorem isDigits_decimal (n : Nat) : FaultPath.IsDigits (Text.decimal n) :=
  ⟨Text.decimal_ne_nil n, fun _ => Text.isDigit_of_mem_decimal⟩

theorem isStep_fileName {name : String} (h : isWritableName name = true) (v : Nat) (dir : Direction) :
    IsStep (fileName v name dir) := by
  have hunderscore : '_' ∈ (fileName v name dir).toList := by
    simp [toList_fileName]
  refine ⟨?_, ?_, ?_, ?_⟩
  · intro heq
    simp [heq] at hunderscore
  · intro heq
    simp [heq] at hunderscore
  · intro heq
    simp [heq] at hunderscore
  · have hdigits : '/' ∉ Text.decimal v := fun hslash =>
      absurd ((isDigits_decimal v).2 _ hslash) (by decide)
    have hdir : '/' ∉ (dir.name ++ ".sql").toList := by cases dir <;> decide
    simp only [toList_fileName, List.mem_append, List.mem_cons, hdigits, hdir,
      (not_mem_of_isWritableName h).2.1]
    decide

def nameParts (v : Nat) (name : String) (dir : Direction) : NameParts :=
  ⟨Text.decimal v, name.toList, dir, "sql"⟩

theorem wellFormed_nameParts {name : String} (h : isWritableName name = true) (hv : v < Text.wordLimit)
    (dir : Direction) : (nameParts v name dir).WellFormed where
  stem := by
    obtain ⟨hne, -, hline⟩ := not_mem_of_isWritableName h
    have hfits : Text.digitsValue (Text.decimal v) < Text.wordLimit := by rwa [Text.digitsValue_decimal]
    exact ⟨isDigits_decimal v, hfits, fun hnil => hne (String.toList_injective hnil), hline⟩
  extension := List.mem_cons_self

theorem location_nameParts (v : Nat) (name : String) (dir : Direction) :
    [fileName v name dir] = (nameParts v name dir).location .flat := by
  rw [NameParts.eq_flat_iff, toList_fileName]
  simp [NameParts.stem, NameParts.ending, nameParts]

theorem ofLocation?_fileName (h : isWritableName d.name = true) (hv : v < Text.wordLimit) (dir : Direction) :
    MigrationFile.ofLocation? [fileName v d.name dir] = some (d.file v dir) := by
  rw [MigrationFile.ofLocation?_eq_some_iff]
  refine ⟨nameParts v d.name dir, .flat, wellFormed_nameParts h hv dir, location_nameParts v d.name dir, ?_⟩
  rw [NameParts.file, ← location_nameParts]
  simp [NameParts.version, NameParts.kind, Kind.ofKnown, file, nameParts, Text.digitsValue_decimal]

/-- What was done to a tree in which the directory was made: the up file was put where nothing was, and then
the down file, if there is SQL for it, where no directory was. -/
structure Wrote (d : Draft) (v : Nat) (directory : String) (top : Location)
    (made between t' : FileTree) : Prop where
  located : made.locate directory = .ok top
  isDirectory : made.find? top = some .directory
  upLocated : made.locate (join directory (fileName v d.name .up)) = .ok (top ++ [fileName v d.name .up])
  fresh : made.find? (top ++ [fileName v d.name .up]) = none
  up : made.Gains (top ++ [fileName v d.name .up]) d.upSql between
  down : match d.downSql with
    | none => t' = between
    | some sql =>
      between.locate (join directory (fileName v d.name .down)) =
        .ok (top ++ [fileName v d.name .down]) ∧
      between.Gains (top ++ [fileName v d.name .down]) sql t'

/-- What a creation that succeeds has done, one thing after the other. -/
theorem create_eq_ok (hc : d.create v directory t = (.ok c, t')) :
    isWritableName d.name = true ∧
    c = ⟨v, path directory v d.name .up, d.downSql.map fun _ => path directory v d.name .down⟩ ∧
    ∃ made between, t.ensureDirectory directory = (.ok (), made) ∧
      made.exists? (path directory v d.name .up) = .ok false ∧
      made.writeText (path directory v d.name .up) d.upSql = .ok between ∧
      match d.downSql with
      | none => t' = between
      | some sql => between.writeText (path directory v d.name .down) sql = .ok t' := by
  unfold create at hc
  split at hc
  · cases hc
  · rename_i hname
    refine ⟨by simpa using hname, ?_⟩
    split at hc
    · cases hc
    · rename_i made hmade
      dsimp only at hc
      split at hc
      · cases hc
      · cases hc
      · rename_i hfree
        split at hc
        · cases hc
        · rename_i between hup
          cases hsql : d.downSql with
          | none =>
            simp only [hsql] at hc
            cases hc
            exact ⟨rfl, made, _, hmade, hfree, hup, rfl⟩
          | some sql =>
            simp only [hsql] at hc
            split at hc
            · cases hc
            · rename_i hdown
              cases hc
              exact ⟨rfl, made, between, hmade, hfree, hup, hdown⟩

theorem wrote_of_create (ht : t.Rooted) (hn : t.Named) (hdir : directory ≠ "")
    (hc : d.create v directory t = (.ok c, t')) :
    isWritableName d.name = true ∧
    c = ⟨v, path directory v d.name .up, d.downSql.map fun _ => path directory v d.name .down⟩ ∧
    ∃ top between, d.Wrote v directory top (t.ensureDirectory directory).2 between t' ∧
      (between.Rooted ∧ between.Named) ∧ t'.Rooted := by
  obtain ⟨hmade, hmadeNamed, -⟩ := ensureDirectory_extends ht hn directory
  obtain ⟨hname, hcreated, made, between, hensured, hfree, hup, hdown⟩ := create_eq_ok hc
  rw [hensured] at hmade hmadeNamed ⊢
  rw [path_eq] at hfree hup
  obtain ⟨top, htop, htopDir, hl, hgains, hbetween, hbetweenNamed⟩ :=
    writeText_join hmade hmadeNamed hdir (isStep_fileName hname v .up) hup
  have hfresh := find?_of_not_exists hl hfree
  refine ⟨hname, hcreated, top, between, ?_⟩
  cases hsql : d.downSql with
  | none =>
    obtain rfl : t' = between := by simpa only [hsql] using hdown
    exact ⟨⟨htop, htopDir, hl, hfresh, hgains, by rw [hsql]⟩, ⟨hbetween, hbetweenNamed⟩, hbetween⟩
  | some sql =>
    simp only [hsql, path_eq] at hdown
    obtain ⟨top', htop', -, hl', hgains', hlast, -⟩ :=
      writeText_join hbetween hbetweenNamed hdir (isStep_fileName hname v .down) hdown
    obtain rfl := Except.ok.inj ((hgains.locate htop).symm.trans htop')
    exact ⟨⟨htop, htopDir, hl, hfresh, hgains, by rw [hsql]; exact ⟨hl', hgains'⟩⟩,
      ⟨hbetween, hbetweenNamed⟩, hlast⟩

theorem read_of_located {u : FileTree} {s : Source} (hs : Source.scan u directory = .ok s) {dir : Direction}
    {l : Location} {text : String} (hl : u.locate (join directory (fileName v d.name dir)) = .ok l)
    (hfile : u.find? l = some (.file text.toUTF8)) : Source.read u s (d.file v dir) = .ok text := by
  rw [Source.read, Source.root_of_scan hs, path_file, path_eq, readText_eq_ok_iff.2 ⟨_, hl, hfile⟩]
  rfl

theorem location_up_ne_down (top : Location) (h : isWritableName d.name = true) (hv : v < Text.wordLimit) :
    top ++ [fileName v d.name .up] ≠ top ++ [fileName v d.name .down] := by
  intro heq
  have hnames : [fileName v d.name .up] = [fileName v d.name .down] := List.append_cancel_left heq
  have hup := ofLocation?_fileName h hv .up
  rw [hnames, ofLocation?_fileName h hv .down] at hup
  simp [file] at hup

variable {made between : FileTree} {top : Location}

/-- What the scans before and after the writing report. -/
theorem scan_of_wrote (hmade : made.Rooted ∧ made.Named) (hbetween : between.Rooted ∧ between.Named)
    (ht' : t'.Rooted) (hname : isWritableName d.name = true) (hv : v < Text.wordLimit)
    (h : d.Wrote v directory top made between t') :
    ∃ before after, Source.scan made directory = .ok before ∧ Source.scan t' directory = .ok after ∧
      (∀ f, f ∈ after.files ↔ f ∈ d.files v ∨ f ∈ before.files) ∧ d.file v .up ∉ before.files ∧
      (∀ f ∈ before.files, f ≠ d.file v .down → Source.read t' after f = Source.read made before f) ∧
      Source.read t' after (d.file v .up) = .ok d.upSql ∧
      ∀ sql, d.downSql = some sql → Source.read t' after (d.file v .down) = .ok sql := by
  have hparsed := fun dir => ofLocation?_fileName hname hv dir
  have hbefore := (Source.scan_eq_ok_iff hmade.1).2 ⟨top, h.located, by simp [h.isDirectory], rfl⟩
  obtain ⟨middle, hmiddle, hmiddleFiles, hmiddleRead⟩ := Source.scan_of_gains hmade.1 hmade.2 hbetween.1
    h.located hbefore h.up (hparsed .up)
  have hfresh : d.file v .up ∉ (Source.ofWalk made directory top).files := by
    intro hmem
    obtain ⟨⟨content, hcontent⟩, -⟩ := (Source.mem_files_ofWalk hmade.1).1 hmem
    exact absurd (hcontent.symm.trans h.fresh) (by simp)
  have hold : ∀ f ∈ (Source.ofWalk made directory top).files,
      Source.read between middle f = Source.read made (Source.ofWalk made directory top) f :=
    fun f hf => hmiddleRead f hf fun heq => hfresh (heq ▸ hf)
  cases hsql : d.downSql with
  | none =>
    obtain rfl : t' = between := by simpa [hsql] using h.down
    refine ⟨_, middle, hbefore, hmiddle, fun f => ?_, hfresh, fun f hf _ => hold f hf, ?_, nofun⟩
    · rw [hmiddleFiles f]
      simp [files, hsql]
    · exact read_of_located hmiddle (h.up.locate h.upLocated) h.up.written
  | some sql =>
    obtain ⟨hl, hdown⟩ :
        between.locate (join directory (fileName v d.name .down)) =
          .ok (top ++ [fileName v d.name .down]) ∧
        between.Gains (top ++ [fileName v d.name .down]) sql t' := by simpa [hsql] using h.down
    obtain ⟨after, hafter, hafterFiles, hafterRead⟩ := Source.scan_of_gains hbetween.1 hbetween.2 ht'
      (h.up.locate h.located) hmiddle hdown (hparsed .down)
    refine ⟨_, after, hbefore, hafter, fun f => ?_, hfresh, fun f hf hne => ?_, ?_, fun sql' hsql' => ?_⟩
    · rw [hafterFiles f, hmiddleFiles f]
      simp [files, hsql, or_assoc, or_left_comm]
    · exact (hafterRead f ((hmiddleFiles f).2 (.inr hf)) hne).trans (hold f hf)
    · refine read_of_located hafter (hdown.locate (h.up.locate h.upLocated)) ?_
      rw [hdown.other _ (location_up_ne_down top hname hv)]
      exact h.up.written
    · obtain rfl := Option.some.inj hsql'
      exact read_of_located hafter (hdown.locate hl) hdown.written

theorem mem_files {f : MigrationFile} :
    f ∈ d.files v ↔ f = d.file v .up ∨ d.downSql.isSome = true ∧ f = d.file v .down := by
  cases hsql : d.downSql <;> simp [files, hsql]

theorem version_of_mem_files {f : MigrationFile} (h : f ∈ d.files v) : f.version = v ∧ f.name = d.name := by
  rcases mem_files.1 h with rfl | ⟨-, rfl⟩ <;> exact ⟨rfl, rfl⟩

theorem mem_files_up {f : MigrationFile} : f ∈ d.files v ∧ f.direction = .up ↔ f = d.file v .up := by
  rw [mem_files]
  constructor
  · rintro ⟨rfl | ⟨-, rfl⟩, hdir⟩
    · rfl
    · cases hdir
  · rintro rfl
    exact ⟨.inl rfl, rfl⟩

theorem mem_files_down {f : MigrationFile} :
    f ∈ d.files v ∧ f.direction = .down ↔ d.downSql.isSome = true ∧ f = d.file v .down := by
  rw [mem_files]
  constructor
  · rintro ⟨rfl | hdown, hdir⟩
    · cases hdir
    · exact hdown
  · rintro ⟨hsql, rfl⟩
    exact ⟨.inr ⟨hsql, rfl⟩, rfl⟩

theorem sameVersion_of_created {s s' : Source} (ht : t.Rooted) (ht' : t'.Rooted)
    (hs : Source.scan t directory = .ok s) (hs' : Source.scan t' directory = .ok s')
    (hfiles : ∀ f, f ∈ s'.files ↔ f ∈ d.files v ∨ f ∈ s.files)
    (hread : ∀ f ∈ s.files, f ≠ d.file v .down → Source.read t' s' f = Source.read t s f) {w : Nat}
    (hw : w ≠ v) : Source.SameVersion t s t' s' w := by
  refine Source.sameVersion_of_files ht ht' hs hs' (fun f hf => ?_) fun f hmem hf => hread f hmem ?_
  · rw [hfiles f, or_iff_right fun hnew => hw (hf.symm.trans (version_of_mem_files hnew).1)]
  · rintro rfl
    exact hw hf.symm

/-- What was reported before a migration is created stays, names, files and contents, exactly if its version
was not reported yet.  Only the files of the draft are added, and the only file that can lose what it held is
the down file, at whose path nothing is looked for. -/
theorem create_keeps_reported_iff (ht : t.Rooted) (hn : t.Named) (hv : v < Text.wordLimit) {s : Source}
    (hs : Source.scan t directory = .ok s) (hc : d.create v directory t = (.ok c, t')) :
    ∃ s', Source.scan t' directory = .ok s' ∧
      (∀ f, f ∈ s'.files ↔ f ∈ d.files v ∨ f ∈ s.files) ∧
      (∀ f ∈ s.files, f ≠ d.file v .down → Source.read t' s' f = Source.read t s f) ∧
      (∀ w, w ≠ v → Source.SameVersion t s t' s' w) ∧
      ((∀ w, s.contains w = true → Source.SameVersion t s t' s' w) ↔ s.contains v = false) := by
  obtain ⟨_, hlocated, -⟩ := (Source.scan_eq_ok_iff ht).1 hs
  have hdir : directory ≠ "" := FileTree.ne_empty_of_locate hlocated
  obtain ⟨hmade, hmadeNamed, hext⟩ := ensureDirectory_extends ht hn directory
  obtain ⟨hname, -, top, between, hwrote, hbetween, ht'⟩ := wrote_of_create ht hn hdir hc
  obtain ⟨hscan, hmadeRead⟩ := Source.scan_of_extends ht hn hmade hext hs
  obtain ⟨before, s', hbefore, hs', hfiles, hfresh, hread, -⟩ :=
    scan_of_wrote ⟨hmade, hmadeNamed⟩ hbetween ht' hname hv hwrote
  obtain rfl := Except.ok.inj (hscan.symm.trans hbefore)
  have hkept : ∀ f ∈ s.files, f ≠ d.file v .down → Source.read t' s' f = Source.read t s f :=
    fun f hf hne => (hread f hf hne).trans (hmadeRead f hf)
  have hothers : ∀ w, w ≠ v → Source.SameVersion t s t' s' w :=
    fun w hw => sameVersion_of_created ht ht' hs hs' hfiles hkept hw
  refine ⟨s', hs', hfiles, hkept, hothers, fun hall => ?_, fun hnew w hw => hothers w ?_⟩
  · by_contra hold
    have hup : d.file v .up ∈ s'.filesOf v .up :=
      Source.mem_filesOf.2 ⟨(hfiles _).2 (.inl (by simp [files])), rfl, rfl⟩
    rw [(hall v (by simpa using hold)).files .up] at hup
    exact hfresh (Source.mem_filesOf.1 hup).1
  · rintro rfl
    rw [hnew] at hw
    cases hw

/-- A directory with the down file of a migration whose up file is missing. -/
def orphaned : FileTree :=
  FileTree.empty.changeAll [.makeDirectories "m", .write "m/1000_a.down.sql" "DROP TABLE a".toUTF8]

def orphan : MigrationFile := ⟨1000, "a", .down, .sql, ["1000_a.down.sql"]⟩

def both : Draft := ⟨"a", "CREATE TABLE a ()", some "DROP TABLE IF EXISTS a"⟩

theorem rooted_orphaned : orphaned.Rooted := FileTree.rooted_empty.changeAll _

theorem named_orphaned : orphaned.Named := FileTree.named_empty.changeAll FileTree.rooted_empty _

theorem scan_orphaned : Source.scan orphaned "m" = .ok ⟨"m", [orphan]⟩ := by decide +kernel

/-- The down file that was there before is replaced, and the version reported with it changes. -/
theorem create_replaces_down_file :
    Source.scan orphaned "m" = .ok ⟨"m", [orphan]⟩ ∧
    Source.read orphaned ⟨"m", [orphan]⟩ orphan = .ok "DROP TABLE a" ∧
    (both.create 1000 "m" orphaned).1 = .ok ⟨1000, "m/1000_a.up.sql", some "m/1000_a.down.sql"⟩ ∧
    ∃ s', Source.scan (both.create 1000 "m" orphaned).2 "m" = .ok s' ∧
      Source.read (both.create 1000 "m" orphaned).2 s' orphan = .ok "DROP TABLE IF EXISTS a" ∧
      ¬ Source.SameVersion orphaned ⟨"m", [orphan]⟩ (both.create 1000 "m" orphaned).2 s' 1000 := by
  have hold : Source.read orphaned ⟨"m", [orphan]⟩ orphan = .ok "DROP TABLE a" := by decide +kernel
  have hcreated : (both.create 1000 "m" orphaned).1 =
      .ok ⟨1000, "m/1000_a.up.sql", some "m/1000_a.down.sql"⟩ := by decide +kernel
  have hnew : Source.read (both.create 1000 "m" orphaned).2
      (Source.ofWalk (both.create 1000 "m" orphaned).2 "m" ["m"]) orphan =
      .ok "DROP TABLE IF EXISTS a" := by decide +kernel
  have hc : both.create 1000 "m" orphaned =
      (.ok ⟨1000, "m/1000_a.up.sql", some "m/1000_a.down.sql"⟩, (both.create 1000 "m" orphaned).2) :=
    Prod.ext hcreated rfl
  obtain ⟨-, -, _, _, -, -, hrooted⟩ := wrote_of_create rooted_orphaned named_orphaned (by decide) hc
  have hscan : Source.scan (both.create 1000 "m" orphaned).2 "m" =
      .ok (Source.ofWalk (both.create 1000 "m" orphaned).2 "m" ["m"]) :=
    (Source.scan_eq_ok_iff hrooted).2 ⟨["m"], by decide +kernel, by decide +kernel, rfl⟩
  refine ⟨scan_orphaned, hold, hcreated, _, hscan, hnew, fun h => ?_⟩
  have hsame := h.contents .down orphan (by decide)
  rw [hold, hnew] at hsame
  exact absurd hsame (by simp)

/-- A migration with a version of its own leaves the down file alone. -/
theorem create_keeps_orphan : ∃ s', Source.scan (both.create 2000 "m" orphaned).2 "m" = .ok s' ∧
    Source.SameVersion orphaned ⟨"m", [orphan]⟩ (both.create 2000 "m" orphaned).2 s' 1000 := by
  have hc : both.create 2000 "m" orphaned =
      (.ok ⟨2000, "m/2000_a.up.sql", some "m/2000_a.down.sql"⟩, (both.create 2000 "m" orphaned).2) :=
    Prod.ext (by decide +kernel) rfl
  obtain ⟨s', hs', -, -, -, hiff⟩ :=
    create_keeps_reported_iff rooted_orphaned named_orphaned (by decide) scan_orphaned hc
  exact ⟨s', hs', hiff.2 (by decide) 1000 (by decide)⟩

theorem filesOf_eq_singleton {s : Source} (ht : t.Rooted) (hs : Source.scan t directory = .ok s)
    {dir : Direction} {f : MigrationFile} (h : ∀ g, g ∈ s.filesOf v dir ↔ g = f) : s.filesOf v dir = [f] := by
  have hnodup := Source.nodup_filesOf (Source.ascending_of_scan ht hs) v dir
  refine List.perm_singleton.1 ((List.perm_ext_iff_of_nodup hnodup (List.nodup_singleton f)).2 fun g => ?_)
  rw [h g, List.mem_singleton]

theorem reports_created {s : Source} (ht : t.Rooted) (hs : Source.scan t directory = .ok s)
    (hown : ∀ f, f ∈ s.files ∧ f.version = v ↔ f ∈ d.files v) :
    s.contains v = true ∧ s.name? v = some d.name ∧ s.filesOf v .up = [d.file v .up] ∧
    s.filesOf v .down = (d.downSql.map fun _ => d.file v .down).toList := by
  have hmem : ∀ dir f, f ∈ s.filesOf v dir ↔ f ∈ d.files v ∧ f.direction = dir := fun dir f => by
    rw [Source.mem_filesOf, ← hown, and_assoc]
  have hup : d.file v .up ∈ s.files := ((hown _).2 (mem_files.2 (.inl rfl))).1
  refine ⟨List.any_eq_true.2 ⟨_, hup, by simp [file]⟩, ?_, ?_, ?_⟩
  · cases hfound : s.files.find? fun f => f.version == v with
    | none =>
      have hnot := List.find?_eq_none.1 hfound _ hup
      simp [file] at hnot
    | some f =>
      have hversion : f.version = v := by simpa using List.find?_some hfound
      have hf := (hown f).1 ⟨List.mem_of_find?_eq_some hfound, hversion⟩
      simp [Source.name?, hfound, (version_of_mem_files hf).2]
  · exact filesOf_eq_singleton ht hs fun f => by rw [hmem, mem_files_up]
  · have hdown : ∀ f, f ∈ s.filesOf v .down ↔ d.downSql.isSome = true ∧ f = d.file v .down :=
      fun f => by rw [hmem, mem_files_down]
    cases hsql : d.downSql with
    | none => exact List.eq_nil_iff_forall_not_mem.2 fun f => by simp [hdown, hsql]
    | some sql => exact filesOf_eq_singleton ht hs fun f => by simp [hdown, hsql]

/-- A migration that is created is found by the next scan with its name, with one SQL file for the way up,
one for the way down if there is SQL for it, and with what was to be in them; other versions stay as they
were.  The directory is looked at once it has been made, for making what is missing of a path with dots in
it can bring files to light; an empty path is no directory. -/
theorem create_found_again (ht : t.Rooted) (hn : t.Named) (hdir : directory ≠ "") (hv : v < Text.wordLimit)
    (hnew : ∀ s, Source.scan (t.ensureDirectory directory).2 directory = .ok s → s.contains v = false)
    (hc : d.create v directory t = (.ok c, t')) :
    ∃ before after, Source.scan (t.ensureDirectory directory).2 directory = .ok before ∧
      Source.scan t' directory = .ok after ∧
      c.version = v ∧ after.contains v = true ∧ after.name? v = some d.name ∧
      (∃ f, after.filesOf v .up = [f] ∧ f.kind = .sql ∧ f.path directory = c.upPath ∧
        Source.read t' after f = .ok d.upSql) ∧
      (match d.downSql with
        | none => after.filesOf v .down = [] ∧ c.downPath = none
        | some sql => ∃ f, after.filesOf v .down = [f] ∧ f.kind = .sql ∧
          c.downPath = some (f.path directory) ∧ Source.read t' after f = .ok sql) ∧
      (∀ w, w ≠ v → Source.SameVersion (t.ensureDirectory directory).2 before t' after w) ∧
      ∀ s, Source.scan t directory = .ok s → s = before ∧ ∀ w, w ≠ v → Source.SameVersion t s t' after w := by
  obtain ⟨hmade, hmadeNamed, hext⟩ := ensureDirectory_extends ht hn directory
  obtain ⟨hname, rfl, top, between, hwrote, hbetween, ht'⟩ := wrote_of_create ht hn hdir hc
  obtain ⟨before, after, hbefore, hafter, hfiles, -, hread, hup, hdown⟩ :=
    scan_of_wrote ⟨hmade, hmadeNamed⟩ hbetween ht' hname hv hwrote
  have hown : ∀ f, f ∈ after.files ∧ f.version = v ↔ f ∈ d.files v := by
    refine fun f => ⟨fun ⟨hf, hfv⟩ => ((hfiles f).1 hf).resolve_right fun hold => ?_, fun hf =>
      ⟨(hfiles f).2 (.inl hf), (version_of_mem_files hf).1⟩⟩
    have hcontains : before.contains v = true := List.any_eq_true.2 ⟨f, hold, by simpa using hfv⟩
    rw [hnew before hbefore] at hcontains
    cases hcontains
  obtain ⟨hcontains, hfound, hupFiles, hdownFiles⟩ := reports_created ht' hafter hown
  refine ⟨before, after, hbefore, hafter, rfl, hcontains, hfound,
    ⟨_, hupFiles, rfl, path_file .., hup⟩, ?_, fun w hw => ?_, fun s hs => ?_⟩
  · cases hsql : d.downSql with
    | none => exact ⟨by rw [hdownFiles, hsql]; rfl, rfl⟩
    | some sql =>
      refine ⟨d.file v .down, by rw [hdownFiles, hsql]; rfl, rfl, ?_, hdown sql hsql⟩
      rw [path_file, Option.map_some]
  · exact sameVersion_of_created hmade ht' hbefore hafter hfiles hread hw
  · obtain ⟨hscan, hmadeRead⟩ := Source.scan_of_extends ht hn hmade hext hs
    obtain rfl := Except.ok.inj (hscan.symm.trans hbefore)
    have hkept : ∀ f ∈ s.files, f ≠ d.file v .down → Source.read t' after f = Source.read t s f :=
      fun f hf hne => (hread f hf hne).trans (hmadeRead f hf)
    exact ⟨rfl, fun w hw => sameVersion_of_created ht ht' hs hafter hfiles hkept hw⟩

def dotted : Draft := ⟨"2_b.up.sql.down", "CREATE TABLE b ()", none⟩

theorem create_found_again_dotted : ∃ after f,
    Source.scan (dotted.create 18446744073709551615 "m" orphaned).2 "m" = .ok after ∧
    after.name? 18446744073709551615 = some "2_b.up.sql.down" ∧
    after.filesOf 18446744073709551615 .up = [f] ∧ after.filesOf 18446744073709551615 .down = [] ∧
    f.path "m" = "m/18446744073709551615_2_b.up.sql.down.up.sql" ∧
    Source.read (dotted.create 18446744073709551615 "m" orphaned).2 after f = .ok "CREATE TABLE b ()" := by
  have hc : dotted.create 18446744073709551615 "m" orphaned =
      (.ok ⟨18446744073709551615, "m/18446744073709551615_2_b.up.sql.down.up.sql", none⟩,
        (dotted.create 18446744073709551615 "m" orphaned).2) := Prod.ext (by decide +kernel) rfl
  have hnew : ∀ s, Source.scan (orphaned.ensureDirectory "m").2 "m" = .ok s →
      s.contains 18446744073709551615 = false := by
    have hscan : Source.scan (orphaned.ensureDirectory "m").2 "m" = .ok ⟨"m", [orphan]⟩ := by
      decide +kernel
    rintro s hs
    obtain rfl := Except.ok.inj (hscan.symm.trans hs)
    decide
  obtain ⟨-, after, -, hafter, -, -, hname, ⟨f, hup, -, hpath, hread⟩, ⟨hdown, -⟩, -, -⟩ :=
    create_found_again rooted_orphaned named_orphaned (by decide) (by decide) hnew hc
  exact ⟨after, f, hafter, hname, hup, hdown, hpath, hread⟩

end Draft

end EngineMigrate
