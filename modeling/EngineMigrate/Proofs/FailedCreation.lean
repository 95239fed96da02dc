import EngineMigrate.Proofs.NewMigration

/-!
Migrations that cannot be created.  The file for the way up is looked for before anything is written, and
the one for the way down is not.  Main statement: a creation that fails leaves the files as they were exactly
if the second of the two files is not what it failed at; otherwise the first one stays.
-/
namespace EngineMigrate

namespace FileTree

variable {t made t' : FileTree}

/-- The same files with the same contents, whatever directories there are. -/
def SameFiles (t t' : FileTree) : Prop :=
  ∀ l content, t'.find? l = some (.file content) ↔ t.find? l = some (.file content)

theorem Extends.sameFiles (h : t.Extends t') : t.SameFiles t' := fun l content =>
  ⟨h.files l content, h.kept l _⟩

theorem Extends.not_sameFiles (h : t.Extends made) {l : Location} {text : String}
    (hfree : made.find? l = none) (hgains : made.Gains l text t') : ¬ t.SameFiles t' := by
  intro hsame
  have hold := h.kept l _ ((hsame l text.toUTF8).1 hgains.written)
  rw [hfree] at hold
  cases hold

theorem Gains.kept {l : Location} {text : String} (h : t.Gains l text t') (hfree : t.find? l = none)
    {m : Location} {e : FileEntry} (hm : t.find? m = some e) : t'.find? m = some e := by
  have hml : m ≠ l := by
    rintro rfl
    rw [hfree] at hm
    cases hm
  rwa [h.other m hml]

end FileTree

namespace Draft

open FileTree FilePath

variable {t t' made : FileTree} {d : Draft} {v : Nat} {directory : String} {top : Location}
  {f : MigrationFault}

/-- No file can be written for the way down: a directory stands in its place, or its name or its path is too
long. -/
def DownBlocked (d : Draft) (v : Nat) (directory : String) (made : FileTree) (top : Location) : Prop :=
  made.find? (top ++ [fileName v d.name .down]) = some .directory ∨
    nameLimit < (fileName v d.name .down).utf8ByteSize ∨
    pathLimit ≤ (path directory v d.name .down).utf8ByteSize

/-- In a tree with the directory, a file can be written for the way up and then none for the way down. -/
structure UpOnly (d : Draft) (v : Nat) (directory : String) (made : FileTree) (top : Location) : Prop where
  writable : isWritableName d.name = true
  located : made.locate (path directory v d.name .up) = .ok (top ++ [fileName v d.name .up])
  free : made.find? (top ++ [fileName v d.name .up]) = none
  wanted : d.downSql ≠ none
  blocked : d.DownBlocked v directory made top

/-- What a creation that fails has done: at most made directories, or written the file for the way up and
then failed to write the other one. -/
theorem create_eq_error (hc : d.create v directory t = (.error f, t')) :
    t' = t ∨ t' = (t.ensureDirectory directory).2 ∨
    isWritableName d.name = true ∧ ∃ made sql g, t.ensureDirectory directory = (.ok (), made) ∧
      made.exists? (path directory v d.name .up) = .ok false ∧
      made.writeText (path directory v d.name .up) d.upSql = .ok t' ∧
      d.downSql = some sql ∧ t'.writeText (path directory v d.name .down) sql = .error g := by
  unfold create at hc
  split at hc
  · cases hc
    exact .inl rfl
  · rename_i hname
    split at hc
    · rename_i hmade
      cases hc
      exact .inr (.inl (by rw [hmade]))
    · rename_i made hmade
      dsimp only at hc
      split at hc
      · cases hc
        exact .inr (.inl (by rw [hmade]))
      · cases hc
        exact .inr (.inl (by rw [hmade]))
      · rename_i hfree
        split at hc
        · cases hc
          exact .inr (.inl (by rw [hmade]))
        · rename_i between hup
          split at hc
          · cases hc
          · rename_i sql hsql
            split at hc
            · rename_i g hdown
              cases hc
              exact .inr (.inr ⟨by simpa using hname, made, sql, g, hmade, hfree, hup, hsql, hdown⟩)
            · cases hc

theorem nul_mem_fileName {name : String} {dir : Direction} :
    '\x00' ∈ (fileName v name dir).toList ↔ '\x00' ∈ name.toList := by
  have hdigits : '\x00' ∉ Text.decimal v := fun hnul =>
    absurd (Text.isDigit_of_mem_decimal hnul) (by decide)
  have hdir : '\x00' ∉ (dir.name ++ ".sql").toList := by cases dir <;> decide
  simp only [toList_fileName, List.mem_append, List.mem_cons, hdigits, hdir]
  simp

theorem locate_down (hname : isWritableName d.name = true)
    (hup : made.locate (path directory v d.name .up) = .ok (top ++ [fileName v d.name .up])) {m : Location} :
    made.locate (path directory v d.name .down) = .ok m ↔
      (path directory v d.name .down).utf8ByteSize < pathLimit ∧
      (fileName v d.name .down).utf8ByteSize ≤ nameLimit ∧ m = top ++ [fileName v d.name .down] := by
  have hstep := fun dir => isStep_fileName hname v dir
  rw [path_eq] at hup ⊢
  obtain ⟨⟨hnul, -⟩, -, _, horigin, hdir, heq⟩ := (locate_join_iff (hstep .up)).1 hup
  obtain rfl := List.append_cancel_right heq
  have hnul' : '\x00' ∉ (join directory (fileName v d.name .down)).toList := by
    rw [mem_join (hstep _).single (by decide), nul_mem_fileName] at hnul ⊢
    exact hnul
  rw [locate_join_iff (hstep .down), Nameable, horigin]
  simp [hnul', hdir]

theorem exists_writeText_down_iff (hname : isWritableName d.name = true)
    (hup : made.locate (path directory v d.name .up) = .ok (top ++ [fileName v d.name .up]))
    (hgains : made.Gains (top ++ [fileName v d.name .up]) d.upSql t') {sql : String} :
    (∃ after, t'.writeText (path directory v d.name .down) sql = .ok after) ↔
      ¬ d.DownBlocked v directory made top := by
  simp only [exists_writeText_iff, hgains.locate_iff, ne_eq, hgains.directory_iff, locate_down hname hup,
    DownBlocked, not_or, Nat.not_lt, Nat.not_le]
  constructor
  · rintro ⟨_, ⟨hpath, hsize, rfl⟩, hplace⟩
    exact ⟨hplace, hsize, hpath⟩
  · rintro ⟨hplace, hsize, hpath⟩
    exact ⟨_, ⟨hpath, hsize, rfl⟩, hplace⟩

theorem upOnly_of_writes (hname : isWritableName d.name = true)
    (hfree : made.exists? (path directory v d.name .up) = .ok false)
    (hup : made.writeText (path directory v d.name .up) d.upSql = .ok t') {sql : String} {g : FileFault}
    (hsql : d.downSql = some sql) (hdown : t'.writeText (path directory v d.name .down) sql = .error g) :
    ∃ top, d.UpOnly v directory made top ∧ made.Gains (top ++ [fileName v d.name .up]) d.upSql t' := by
  obtain ⟨l, hl, hgains⟩ := gains_of_writeText hup
  obtain ⟨-, -, top, -, -, rfl⟩ := (locate_join_iff (isStep_fileName hname v .up)).1 hl
  refine ⟨top, ⟨hname, hl, find?_of_not_exists hl hfree, by simp [hsql], ?_⟩, hgains⟩
  by_contra hopen
  obtain ⟨after, hafter⟩ := (exists_writeText_down_iff hname hl hgains).2 hopen
  rw [hdown] at hafter
  cases hafter

/-- A creation that fails has added directories at most, or the file for the way up. -/
theorem extends_or_upOnly (hc : d.create v directory t = (.error f, t')) :
    t.Extends t' ∨ ∃ made top, t.ensureDirectory directory = (.ok (), made) ∧
      d.UpOnly v directory made top ∧ made.Gains (top ++ [fileName v d.name .up]) d.upSql t' := by
  obtain rfl | rfl | ⟨hname, made, sql, g, hmade, hfree, hup, hsql, hdown⟩ := create_eq_error hc
  · exact .inl (.refl t')
  · exact .inl (extends_ensureDirectory t directory)
  · obtain ⟨top, hstuck, hgains⟩ := upOnly_of_writes hname hfree hup hsql hdown
    exact .inr ⟨made, top, hmade, hstuck, hgains⟩

theorem UpOnly.not_exists (h : d.UpOnly v directory made top) :
    made.exists? (path directory v d.name .up) = .ok false := by
  simp [exists?, entry, h.located, h.free, bind, Except.bind]

theorem UpOnly.create (h : d.UpOnly v directory made top)
    (hmade : t.ensureDirectory directory = (.ok (), made)) :
    ∃ g t', d.create v directory t = (.error (.files g), t') ∧
      made.Gains (top ++ [fileName v d.name .up]) d.upSql t' := by
  obtain ⟨sql, hsql⟩ := Option.ne_none_iff_exists'.1 h.wanted
  have hwrite : ∃ t', made.writeText (path directory v d.name .up) d.upSql = .ok t' :=
    exists_writeText_iff.2 ⟨_, h.located, by simp [h.free]⟩
  obtain ⟨t', hup⟩ := hwrite
  obtain ⟨l, hl, hgains⟩ := gains_of_writeText hup
  obtain rfl := Except.ok.inj (h.located.symm.trans hl)
  cases hdown : t'.writeText (path directory v d.name .down) sql with
  | ok after =>
    exact absurd h.blocked ((exists_writeText_down_iff h.writable h.located hgains).1 ⟨after, hdown⟩)
  | error g =>
    refine ⟨g, t', ?_, hgains⟩
    simp [Draft.create, h.writable, hmade, h.not_exists, hup, hsql, hdown]

/-- A creation that fails leaves the files as they were exactly if it did not fail at the second of its two
files.  Then the first one stays; nothing that was there is lost or changed in either case. -/
theorem create_fails_without_trace_iff (hc : d.create v directory t = (.error f, t')) :
    (t.SameFiles t' ↔ ¬ ∃ made top, t.ensureDirectory directory = (.ok (), made) ∧
      d.UpOnly v directory made top) ∧
    (∀ made top, t.ensureDirectory directory = (.ok (), made) → d.UpOnly v directory made top →
      made.Gains (top ++ [fileName v d.name .up]) d.upSql t' ∧ ∃ g, f = .files g) ∧
    ∀ l e, t.find? l = some e → t'.find? l = some e := by
  have hext : ∀ {made}, t.ensureDirectory directory = (.ok (), made) → t.Extends made := by
    intro made hmade
    simpa only [hmade] using extends_ensureDirectory t directory
  have hwrites : ∀ made top, t.ensureDirectory directory = (.ok (), made) →
      d.UpOnly v directory made top →
      made.Gains (top ++ [fileName v d.name .up]) d.upSql t' ∧ ∃ g, f = .files g := by
    intro made top hmade hstuck
    obtain ⟨g, _, hcreate, hgains⟩ := hstuck.create hmade
    cases hc.symm.trans hcreate
    exact ⟨hgains, g, rfl⟩
  refine ⟨⟨?_, fun hclear => ?_⟩, hwrites, ?_⟩
  · rintro hsame ⟨made, top, hmade, hstuck⟩
    exact (hext hmade).not_sameFiles hstuck.free (hwrites made top hmade hstuck).1 hsame
  · obtain hkept | ⟨made, top, hmade, hstuck, -⟩ := extends_or_upOnly hc
    · exact hkept.sameFiles
    · exact absurd ⟨made, top, hmade, hstuck⟩ hclear
  · obtain hkept | ⟨made, top, hmade, hstuck, hgains⟩ := extends_or_upOnly hc
    · exact hkept.kept
    · exact fun l e hl => hgains.kept hstuck.free ((hext hmade).kept l e hl)

/-- A directory with a directory in the place of a down file. -/
def occupied : FileTree := FileTree.empty.changeAll [.makeDirectories "m/1000_a.down.sql"]

/-- The next attempt finds the file that this one has left. -/
theorem create_again_without_trace :
    (both.create 1000 "m" (both.create 1000 "m" occupied).2).1 =
      .error (.alreadyExists "m/1000_a.up.sql") ∧
    (both.create 1000 "m" occupied).2.SameFiles
      (both.create 1000 "m" (both.create 1000 "m" occupied).2).2 := by
  have hfails : (both.create 1000 "m" (both.create 1000 "m" occupied).2).1 =
      .error (.alreadyExists "m/1000_a.up.sql") := by decide +kernel
  refine ⟨hfails, (create_fails_without_trace_iff (Prod.ext hfails rfl)).1.2 ?_⟩
  rintro ⟨made, top, hmade, hstuck⟩
  have hthere : ((both.create 1000 "m" occupied).2.ensureDirectory "m").2.exists?
      (path "m" 1000 both.name .up) = .ok true := by decide +kernel
  rw [hmade, hstuck.not_exists] at hthere
  cases hthere

/-- The creation fails at the down file, and the up file stays. -/
theorem create_leaves_up_file :
    (both.create 1000 "m" occupied).1 = .error (.files .obstructed) ∧
    (both.create 1000 "m" occupied).2.readText "m/1000_a.up.sql" = .ok "CREATE TABLE a ()" ∧
    ¬ occupied.SameFiles (both.create 1000 "m" occupied).2 := by
  refine ⟨by decide +kernel, by decide +kernel, fun hsame => ?_⟩
  have hold := (hsame ["m", "1000_a.up.sql"] "CREATE TABLE a ()".toUTF8).1 (by decide +kernel)
  exact absurd hold (by decide +kernel)

end Draft

end EngineMigrate
