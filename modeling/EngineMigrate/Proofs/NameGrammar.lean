import EngineMigrate.Proofs.TreeGrowth

/-!
The grammar of migration names.  A name is written from its parts: digits, an underscore, the name proper,
and an ending of direction and extension, in one text or as a directory and a file in it.  However many
underscores, directions and extensions the name proper repeats, it is read in one way at most.  Main
statement: a scan accepts exactly the files whose names are written so, and reports their parts.
-/
namespace EngineMigrate

open FaultPath (IsDigits)

/-- The digits and the name of a migration, as they may stand in a file name. -/
structure IsStem (digits name : List Char) : Prop where
  numbered : IsDigits digits
  fits : Text.digitsValue digits < Text.wordLimit
  named : name ≠ []
  oneLine : '\n' ∉ name

/-- The parts from which the name of a migration file is written. -/
structure NameParts where
  digits : List Char
  name : List Char
  direction : Direction
  extension : String

/-- A migration is one file in the directory, or a directory of its own with a file in it. -/
inductive Layout where
  | flat
  | nested

namespace Kind

def ofKnown (extension : String) : Kind := if extension = "sql" then .sql else .metadata

end Kind

namespace NameParts

def version (p : NameParts) : Nat := Text.digitsValue p.digits

def kind (p : NameParts) : Kind := .ofKnown p.extension

def stem (p : NameParts) : List Char := p.digits ++ '_' :: p.name

/-- `<up|down>.<extension>` -/
def ending (p : NameParts) : List Char := p.direction.name.toList ++ '.' :: p.extension.toList

structure WellFormed (p : NameParts) : Prop where
  stem : IsStem p.digits p.name
  extension : p.extension ∈ FileName.extensions

def location (p : NameParts) : Layout → Location
  | .flat => [String.ofList (p.stem ++ '.' :: p.ending)]
  | .nested => [String.ofList p.stem, String.ofList p.ending]

def file (p : NameParts) (layout : Layout) : MigrationFile :=
  ⟨p.version, String.ofList p.name, p.direction, p.kind, p.location layout⟩

end NameParts

theorem IsStem.underscore_not_mem {digits name : List Char} (h : IsStem digits name) : '_' ∉ digits :=
  fun hc => absurd (h.numbered.2 _ hc) (by decide)

namespace FileName

theorem dot_not_mem_direction (d : Direction) : '.' ∉ d.name.toList := by
  cases d <;> decide

theorem dot_not_mem_extension {x : String} (h : x ∈ extensions) : '.' ∉ x.toList := by
  simp only [extensions, List.mem_cons, List.not_mem_nil, or_false] at h
  rcases h with rfl | rfl | rfl <;> decide

theorem mem_endings {e : List Char × Direction × Kind} : e ∈ endings ↔
    ∃ (d : Direction) (x : String), x ∈ extensions ∧
      e = (d.name.toList ++ '.' :: x.toList, d, Kind.ofKnown x) := by
  have hkind : ∀ x ∈ extensions, Kind.ofExtension? x = some (Kind.ofKnown x) := by decide
  simp only [endings, List.mem_flatMap, List.mem_filterMap, Option.map_eq_some_iff]
  constructor
  · rintro ⟨d, -, x, hx, k, hk, rfl⟩
    rw [hkind x hx] at hk
    exact ⟨d, x, hx, by rw [Option.some.inj hk]⟩
  · rintro ⟨d, x, hx, rfl⟩
    exact ⟨d, by cases d <;> simp, x, hx, _, hkind x hx, rfl⟩

theorem dropEnding?_eq_some_iff {ending cs rest : List Char} :
    dropEnding? ending cs = some rest ↔ cs = rest ++ ending := by
  simp only [dropEnding?, List.isSuffixOf_iff_suffix]
  constructor
  · intro h
    split at h
    · rename_i hsuffix
      obtain ⟨front, rfl⟩ := hsuffix
      have hfront : front = rest := by simpa using h
      rw [hfront]
    · cases h
  · rintro rfl
    simp

theorem stem?_eq_some_iff {cs : List Char} {r : Nat × String} :
    stem? cs = some r ↔ ∃ digits name, IsStem digits name ∧ cs = digits ++ '_' :: name ∧
      r = (Text.digitsValue digits, String.ofList name) := by
  constructor
  · intro h
    simp only [stem?] at h
    split at h
    · rename_i name hname
      split at h
      · cases h
      · rename_i hgood
        obtain ⟨v, hv, rfl⟩ := Option.map_eq_some_iff.1 h
        have hdigits : IsDigits (cs.takeWhile Char.isDigit) := by
          refine ⟨fun hnil => ?_, fun c hc => List.mem_takeWhile_imp hc⟩
          rw [hnil] at hv
          cases hv
        rw [FaultPath.digits?_eq hdigits] at hv
        split at hv
        · rename_i hfits
          obtain rfl := Option.some.inj hv
          simp only [Bool.or_eq_true, List.isEmpty_iff, List.contains_iff_mem, not_or] at hgood
          refine ⟨_, name, ⟨hdigits, hfits, hgood.1, hgood.2⟩, ?_, rfl⟩
          rw [← hname, List.takeWhile_append_dropWhile]
        · cases hv
    · cases h
  · rintro ⟨digits, name, hstem, rfl, rfl⟩
    have hstop : Char.isDigit '_' = false := by decide
    have hdrop : (digits ++ '_' :: name).dropWhile Char.isDigit = '_' :: name := by
      rw [List.dropWhile_append_of_pos hstem.numbered.2]
      simp [hstop]
    have htake : (digits ++ '_' :: name).takeWhile Char.isDigit = digits := by
      rw [List.takeWhile_append_of_pos hstem.numbered.2]
      simp [hstop]
    simp [stem?, hdrop, htake, hstem.named, hstem.oneLine, FaultPath.digits?_eq hstem.numbered]
    exact hstem.fits

end FileName

namespace NameParts

variable {p q : NameParts}

open FileName

/-- The two dots of an ending are those in front of the direction and of the extension. -/
theorem count_dots (h : p.WellFormed) : ('.' :: p.ending).count '.' = 2 := by
  have hdirection := List.count_eq_zero.2 (dot_not_mem_direction p.direction)
  have hextension := List.count_eq_zero.2 (dot_not_mem_extension h.extension)
  simp [ending, hdirection, hextension]

theorem eq_nil_of_dots (h : p.WellFormed) {front rest : List Char} (hrest : 2 ≤ rest.count '.')
    (heq : '.' :: p.ending = front ++ rest) : front = [] := by
  cases front with
  | nil => rfl
  | cons c front =>
    have hcount := count_dots h
    rw [heq] at hcount
    obtain ⟨rfl, -⟩ := List.cons.inj heq
    simp at hcount
    omega

theorem ending_injective (h : p.ending = q.ending) :
    p.direction = q.direction ∧ p.extension = q.extension := by
  obtain ⟨hdirection, hextension⟩ :=
    Text.eq_of_cut_at_first (dot_not_mem_direction _) (dot_not_mem_direction _) h
  refine ⟨?_, String.toList_injective hextension⟩
  cases hd : p.direction <;> cases hd' : q.direction <;> simp_all [Direction.name]

theorem stem_injective (hp : p.WellFormed) (hq : q.WellFormed) (h : p.stem = q.stem) :
    p.digits = q.digits ∧ p.name = q.name :=
  Text.eq_of_cut_at_first hp.stem.underscore_not_mem hq.stem.underscore_not_mem h

theorem split_flat (hp : p.WellFormed) (hq : q.WellFormed)
    (h : p.stem ++ '.' :: p.ending = q.stem ++ '.' :: q.ending) : p.stem = q.stem ∧ p.ending = q.ending := by
  rcases List.append_eq_append_iff.1 h with ⟨front, hstem, heq⟩ | ⟨front, hstem, heq⟩
  · obtain rfl := eq_nil_of_dots hp (count_dots hq).ge heq
    exact ⟨by simpa using hstem.symm, by simpa using heq⟩
  · obtain rfl := eq_nil_of_dots hq (count_dots hp).ge heq
    exact ⟨by simpa using hstem, by simpa using heq.symm⟩

/-- No direction part of a text begins behind its first `n` characters. -/
def LastDirectionAt (cs : List Char) (n : Nat) : Prop :=
  ∀ (before : List Char) (d : Direction) (after : List Char),
    cs = before ++ '.' :: (d.name.toList ++ '.' :: after) → before.length ≤ n

/-- The direction of a flat name is the last direction part in it. -/
theorem lastDirectionAt_stem (hp : p.WellFormed) :
    LastDirectionAt (p.stem ++ '.' :: p.ending) p.stem.length := by
  intro before d after h
  rcases List.append_eq_append_iff.1 h with ⟨front, rfl, heq⟩ | ⟨front, hstem, -⟩
  · obtain rfl := eq_nil_of_dots hp (by simp; omega) heq
    simp
  · simp [hstem]

theorem location_injective (hp : p.WellFormed) (hq : q.WellFormed) {a b : Layout}
    (h : p.location a = q.location b) : p = q ∧ a = b := by
  have hparts : (p.stem = q.stem ∧ p.ending = q.ending) ∧ a = b := by
    cases a <;> cases b <;> simp only [location, List.cons.injEq, String.ofList_inj, and_true] at h
    · exact ⟨split_flat hp hq h, rfl⟩
    · simp at h
    · simp at h
    · exact ⟨h, rfl⟩
  obtain ⟨⟨hstem, hending⟩, rfl⟩ := hparts
  obtain ⟨hdigits, hname⟩ := stem_injective hp hq hstem
  obtain ⟨hdirection, hextension⟩ := ending_injective hending
  cases p
  cases q
  simp_all

end NameParts

namespace FileName

theorem flat?_eq_some_iff {cs : List Char} {r : Nat × String × Direction × Kind} :
    flat? cs = some r ↔ ∃ p : NameParts, p.WellFormed ∧ cs = p.stem ++ '.' :: p.ending ∧
      r = (p.version, String.ofList p.name, p.direction, p.kind) := by
  have hsound : ∀ r, flat? cs = some r → ∃ p : NameParts, p.WellFormed ∧
      cs = p.stem ++ '.' :: p.ending ∧ r = (p.version, String.ofList p.name, p.direction, p.kind) := by
    intro r h
    obtain ⟨e, he, h⟩ := List.exists_of_findSome?_eq_some h
    obtain ⟨d, x, hx, rfl⟩ := mem_endings.1 he
    simp only [Option.bind_eq_bind, Option.bind_eq_some_iff, dropEnding?_eq_some_iff,
      stem?_eq_some_iff] at h
    obtain ⟨_, rfl, _, ⟨digits, name, hstem, rfl, rfl⟩, h⟩ := h
    exact ⟨⟨digits, name, d, x⟩, ⟨hstem, hx⟩, rfl, (Option.some.inj h).symm⟩
  refine ⟨hsound r, ?_⟩
  rintro ⟨p, hp, hcs, rfl⟩
  -- Some ending is found, and whichever it is, the parts are those of the text.
  cases hr : flat? cs with
  | none =>
    have hmissed := List.findSome?_eq_none_iff.1 hr _
      (mem_endings.2 ⟨p.direction, p.extension, hp.extension, rfl⟩)
    have hdrop : dropEnding? ('.' :: p.ending) cs = some p.stem := dropEnding?_eq_some_iff.2 hcs
    have hstem : stem? p.stem = some (p.version, String.ofList p.name) :=
      stem?_eq_some_iff.2 ⟨p.digits, p.name, hp.stem, rfl, rfl⟩
    rw [NameParts.ending] at hdrop
    simp [hdrop, hstem] at hmissed
  | some r =>
    obtain ⟨q, hq, hcs', rfl⟩ := hsound r hr
    have hsame : p.location .flat = q.location .flat := by
      simp only [NameParts.location, ← hcs, ← hcs']
    rw [(NameParts.location_injective hp hq hsame).1]

theorem nested?_eq_some_iff {cs : List Char} {d : Direction} {k : Kind} :
    nested? cs = some (d, k) ↔
      ∃ x ∈ extensions, cs = d.name.toList ++ '.' :: x.toList ∧ k = Kind.ofKnown x := by
  have hsound : ∀ r, nested? cs = some r →
      ∃ x ∈ extensions, cs = r.1.name.toList ++ '.' :: x.toList ∧ r.2 = Kind.ofKnown x := by
    intro r h
    obtain ⟨e, he, h⟩ := List.exists_of_findSome?_eq_some h
    obtain ⟨d, x, hx, rfl⟩ := mem_endings.1 he
    dsimp only at h
    split at h
    · rename_i hcs
      obtain rfl := Option.some.inj h
      exact ⟨x, hx, hcs, rfl⟩
    · cases h
  refine ⟨hsound (d, k), ?_⟩
  rintro ⟨x, hx, hcs, rfl⟩
  simp only [extensions, List.mem_cons, List.not_mem_nil, or_false] at hx
  subst hcs
  cases d <;> rcases hx with rfl | rfl | rfl <;> decide

end FileName

/-- A location is taken for a migration file exactly if it is written from parts, and then the file has
those parts. -/
theorem MigrationFile.ofLocation?_eq_some_iff {l : Location} {f : MigrationFile} :
    ofLocation? l = some f ↔
      ∃ (p : NameParts) (layout : Layout), p.WellFormed ∧ l = p.location layout ∧ f = p.file layout := by
  constructor
  · intro h
    unfold ofLocation? at h
    split at h
    · rename_i file
      obtain ⟨r, hr, rfl⟩ := Option.map_eq_some_iff.1 h
      obtain ⟨p, hp, hfile, rfl⟩ := FileName.flat?_eq_some_iff.1 hr
      have hlocation : [file] = p.location .flat := by rw [NameParts.location, ← hfile, String.ofList_toList]
      exact ⟨p, .flat, hp, hlocation, by rw [NameParts.file, ← hlocation]⟩
    · simp only [Option.bind_eq_bind, Option.bind_eq_some_iff] at h
      obtain ⟨_, hstem, ⟨d, k⟩, hnested, h⟩ := h
      obtain ⟨digits, name, hname, hdirectory, rfl⟩ := FileName.stem?_eq_some_iff.1 hstem
      obtain ⟨x, hx, hfile, rfl⟩ := FileName.nested?_eq_some_iff.1 hnested
      refine ⟨⟨digits, name, d, x⟩, .nested, ⟨hname, hx⟩, ?_, ?_⟩
      · simp [NameParts.location, NameParts.stem, NameParts.ending, ← hdirectory, ← hfile]
      · rw [← Option.some.inj h]
        simp [NameParts.file, NameParts.location, NameParts.stem, NameParts.ending, ← hdirectory,
          ← hfile, NameParts.version, NameParts.kind]
    · cases h
  · rintro ⟨p, layout, hp, rfl, rfl⟩
    cases layout with
    | flat =>
      have hflat : FileName.flat? (String.ofList (p.stem ++ '.' :: p.ending)).toList =
          some (p.version, String.ofList p.name, p.direction, p.kind) :=
        FileName.flat?_eq_some_iff.2 ⟨p, hp, String.toList_ofList, rfl⟩
      simp only [NameParts.location, NameParts.file, ofLocation?, hflat, Option.map_some]
    | nested =>
      have hstem : FileName.stem? (String.ofList p.stem).toList = some (p.version, String.ofList p.name) :=
        FileName.stem?_eq_some_iff.2 ⟨p.digits, p.name, hp.stem, String.toList_ofList, rfl⟩
      have hnested : FileName.nested? (String.ofList p.ending).toList = some (p.direction, p.kind) :=
        FileName.nested?_eq_some_iff.2 ⟨p.extension, hp.extension, String.toList_ofList, rfl⟩
      simp only [NameParts.location, NameParts.file, ofLocation?, hstem, hnested]
      rfl

namespace NameParts

variable {p : NameParts} {file directory : String}

theorem eq_flat_iff : [file] = p.location .flat ↔ file.toList = p.stem ++ '.' :: p.ending := by
  rw [location, List.cons.injEq, eq_self, and_true, ← String.toList_inj, String.toList_ofList]

theorem eq_nested_iff : [directory, file] = p.location .nested ↔
    directory.toList = p.stem ∧ file.toList = p.ending := by
  rw [location, List.cons.injEq, List.cons.injEq, eq_self, and_true, ← String.toList_inj,
    ← String.toList_inj, String.toList_ofList, String.toList_ofList]

end NameParts

namespace Source

variable {t : FileTree} {root : String} {top l : Location}

theorem exists_accepted_iff (ht : t.Rooted) (hfile : t.HasFile (top ++ l)) :
    (∃ f ∈ (ofWalk t root top).files, f.location = l) ↔
      ∃ (p : NameParts) (layout : Layout), p.WellFormed ∧ l = p.location layout := by
  constructor
  · rintro ⟨f, hf, rfl⟩
    obtain ⟨p, layout, hp, hl, -⟩ :=
      MigrationFile.ofLocation?_eq_some_iff.1 ((mem_files_ofWalk ht).1 hf).2
    exact ⟨p, layout, hp, hl⟩
  · rintro ⟨p, layout, hp, rfl⟩
    have hread := MigrationFile.ofLocation?_eq_some_iff.2 ⟨p, layout, hp, rfl, rfl⟩
    exact ⟨p.file layout, (mem_files_ofWalk ht).2 ⟨hfile, hread⟩, rfl⟩

/-- A directory is scanned whatever the names in it are.  A file at one name is accepted exactly if its name
is `<digits>_<name>.<up|down>.<extension>`, one at two names exactly if it is `<up|down>.<extension>` in a
directory `<digits>_<name>`, and all others are passed over.  An accepted file has been read in the only way
in which its location can be written: the digits end at the first underscore, and the name of a flat file
ends at the last direction part. -/
theorem scan_accepts_grammar (ht : t.Rooted) (htop : t.locate root = .ok top)
    (hdir : t.find? top = some .directory) :
    ∃ s, scan t root = .ok s ∧
      (∀ file, t.HasFile (top ++ [file]) → ((∃ f ∈ s.files, f.location = [file]) ↔
        ∃ p : NameParts, p.WellFormed ∧ file.toList = p.stem ++ '.' :: p.ending)) ∧
      (∀ directory file, t.HasFile (top ++ [directory, file]) →
        ((∃ f ∈ s.files, f.location = [directory, file]) ↔
          ∃ p : NameParts, p.WellFormed ∧ directory.toList = p.stem ∧ file.toList = p.ending)) ∧
      ∀ f ∈ s.files, ∃ (p : NameParts) (layout : Layout), p.WellFormed ∧ f = p.file layout ∧
        t.HasFile (top ++ p.location layout) ∧
        (∀ (q : NameParts) (other : Layout), q.WellFormed → q.location other = f.location →
          q = p ∧ other = layout) ∧
        '_' ∉ p.digits ∧ NameParts.LastDirectionAt (p.stem ++ '.' :: p.ending) p.stem.length := by
  refine ⟨_, (scan_eq_ok_iff ht).2 ⟨top, htop, by simp [hdir], rfl⟩, fun file hfile => ?_,
    fun directory file hfile => ?_, fun f hf => ?_⟩
  · rw [exists_accepted_iff ht hfile]
    constructor
    · rintro ⟨p, layout, hp, hl⟩
      cases layout with
      | flat => exact ⟨p, hp, NameParts.eq_flat_iff.1 hl⟩
      | nested => simp [NameParts.location] at hl
    · rintro ⟨p, hp, htext⟩
      exact ⟨p, .flat, hp, NameParts.eq_flat_iff.2 htext⟩
  · rw [exists_accepted_iff ht hfile]
    constructor
    · rintro ⟨p, layout, hp, hl⟩
      cases layout with
      | flat => simp [NameParts.location] at hl
      | nested => exact ⟨p, hp, NameParts.eq_nested_iff.1 hl⟩
    · rintro ⟨p, hp, htexts⟩
      exact ⟨p, .nested, hp, NameParts.eq_nested_iff.2 htexts⟩
  · obtain ⟨hfile, hread⟩ := (mem_files_ofWalk ht).1 hf
    obtain ⟨p, layout, hp, hl, rfl⟩ := MigrationFile.ofLocation?_eq_some_iff.1 hread
    exact ⟨p, layout, hp, rfl, hfile,
      fun q other hq hlocation => NameParts.location_injective hq hp hlocation,
      hp.stem.underscore_not_mem, NameParts.lastDirectionAt_stem hp⟩

/-- A name that has a direction in it as well as behind it, and a number that is just too large. -/
def contested : FileTree :=
  FileTree.empty.changeAll [.makeDirectories "m", .write "m/007_a_b.up.sql.down.yml" .empty,
    .write "m/18446744073709551616_c.up.sql" .empty]

def contestedParts : NameParts := ⟨"007".toList, "a_b.up.sql".toList, .down, "yml"⟩

theorem wellFormed_contestedParts : contestedParts.WellFormed where
  stem := ⟨⟨by decide, by simp [contestedParts]⟩, by decide, by decide, by decide⟩
  extension := by decide

theorem scan_accepts_grammar_contested : ∃ s, scan contested "m" = .ok s ∧
    ⟨7, "a_b.up.sql", .down, .metadata, ["007_a_b.up.sql.down.yml"]⟩ ∈ s.files ∧
    ∀ f ∈ s.files, f.location ≠ ["18446744073709551616_c.up.sql"] := by
  have hrooted : contested.Rooted := FileTree.rooted_empty.changeAll _
  have htop : contested.locate "m" = .ok ["m"] := by rfl
  have hdir : contested.find? ["m"] = some .directory := by decide +kernel
  obtain ⟨s, hs, hflat, -, hread⟩ := scan_accepts_grammar hrooted htop hdir
  have htext : "007_a_b.up.sql.down.yml".toList = contestedParts.stem ++ '.' :: contestedParts.ending := by
    decide
  refine ⟨s, hs, ?_, fun f hf hlocation => ?_⟩
  · obtain ⟨f, hf, hlocation⟩ := (hflat "007_a_b.up.sql.down.yml" ⟨.empty, by decide +kernel⟩).2
      ⟨contestedParts, wellFormed_contestedParts, htext⟩
    obtain ⟨p, layout, -, rfl, -, hunique, -⟩ := hread f hf
    obtain ⟨rfl, rfl⟩ := hunique contestedParts .flat wellFormed_contestedParts
      ((NameParts.eq_flat_iff.2 htext).symm.trans hlocation.symm)
    exact hf
  · obtain ⟨p, hp, htext⟩ := (hflat "18446744073709551616_c.up.sql" ⟨.empty, by decide +kernel⟩).1
      ⟨f, hf, hlocation⟩
    have hnone : FileName.flat? "18446744073709551616_c.up.sql".toList = none := by decide +kernel
    cases hnone.symm.trans (FileName.flat?_eq_some_iff.2 ⟨p, hp, htext, rfl⟩)

end Source

end EngineMigrate
