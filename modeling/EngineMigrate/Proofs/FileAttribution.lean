import EngineMigrate.Proofs.LocalFailure
import EngineMigrate.Proofs.NameGrammar
import EngineMigrate.Proofs.PathNames

/-!
The names by which errors refer to migration files.  Such a name is told from the last part of a path alone,
without the grammar by which the file was found, and yet it is the path from the migrations directory in both
layouts.  Main statement: the names of scanned files are distinct, and an application that fails with a name
points at one of them.
-/
namespace EngineMigrate

open FaultPath (IsDigits)

namespace FilePath

variable {base : String}

theorem names_foldl_join {names : List String} (h : ∀ name ∈ names, IsStep name) :
    FilePath.names (names.foldl join base) = FilePath.names base ++ names := by
  induction names generalizing base with
  | nil => simp
  | cons name names ih =>
    rw [List.foldl_cons, ih fun n hn => h n (List.mem_cons_of_mem _ hn),
      names_join (h name List.mem_cons_self), List.append_assoc, List.singleton_append]

theorem join_two {outer inner : String} (ho : IsStep outer) (hi : IsStep inner) :
    join base (outer ++ "/" ++ inner) = join (join base outer) inner := by
  have hrelative : isAbsolute (outer ++ "/" ++ inner) = false := by
    rw [String.append_assoc, isAbsolute_append ho.nonempty, isAbsolute_of_single ho.single]
  have hlast : outer.toList.getLast? ≠ some '/' := fun heq => ho.single (List.mem_of_getLast? heq)
  have hempty : (join base outer).isEmpty = false := by simpa using ho.join_ne_empty
  have hend : (join base outer).toList.getLast? ≠ some '/' := by
    rw [join_eq ho.single]
    have hne : outer.toList ≠ [] := fun hnil => ho.nonempty (String.toList_injective hnil)
    split <;> rwa [String.toList_append, List.getLast?_append_of_ne_nil _ hne]
  have hinner : join (join base outer) inner = join base outer ++ "/" ++ inner := by
    rw [join_eq hi.single, hempty, beq_eq_false_iff_ne.2 hend]
    rfl
  rw [hinner, join, hrelative, join_eq ho.single]
  simp only [Bool.false_eq_true, if_false]
  split <;> simp only [String.append_assoc]

end FilePath

namespace MigrationFile

/-- The name for errors, as the names of a path tell it: the last one, or the last two if the last one begins
as a direction. -/
def attributedName (names : List String) : String :=
  match names.reverse with
  | file :: directory :: _ =>
    if file.startsWith "up." || file.startsWith "down." then directory ++ "/" ++ file else file
  | [file] => file
  | [] => ""

theorem fileName_eq (f : MigrationFile) : f.fileName = attributedName f.location := rfl

end MigrationFile

namespace NameParts

variable {p q : NameParts}

theorem slash_not_mem_ending (h : p.WellFormed) : '/' ∉ p.ending := by
  have hextension : '/' ∉ p.extension.toList := by
    have hmem := h.extension
    simp only [FileName.extensions, List.mem_cons, List.not_mem_nil, or_false] at hmem
    rcases hmem with hx | hx | hx <;> rw [hx] <;> decide
  have hdirection : '/' ∉ p.direction.name.toList := by cases p.direction <;> decide
  simp [ending, hextension, hdirection]

theorem startsWith_ending (p : NameParts) : (String.ofList p.ending).startsWith "up." = true ∨
    (String.ofList p.ending).startsWith "down." = true := by
  simp only [String.startsWith_string_iff, String.toList_ofList, ending]
  cases p.direction
  · exact .inl ⟨p.extension.toList, rfl⟩
  · exact .inr ⟨p.extension.toList, rfl⟩

theorem not_startsWith_flat (h : p.WellFormed) (pattern : String) {c : Char}
    (hpattern : pattern.toList.head? = some c) (hc : c.isDigit = false) :
    (String.ofList (p.stem ++ '.' :: p.ending)).startsWith pattern = false := by
  obtain ⟨digit, digits, hdigits⟩ := List.exists_cons_of_ne_nil h.stem.numbered.1
  have hdigit : digit.isDigit = true := h.stem.numbered.2 digit (by simp [hdigits])
  obtain ⟨cs, hcs⟩ := List.head?_eq_some_iff.1 hpattern
  rw [Bool.eq_false_iff, ne_eq, String.startsWith_string_iff, String.toList_ofList, hcs, stem, hdigits]
  intro hprefix
  obtain rfl : c = digit := (List.cons_prefix_cons.1 hprefix).1
  simp [hc] at hdigit

/-- The names of a path tell the layout right, whatever they begin with: a flat file does not begin as a
direction, and a nested one does. -/
theorem attributedName_location (h : p.WellFormed) (above : List String) (layout : Layout) :
    MigrationFile.attributedName (above ++ p.location layout) = "/".intercalate (p.location layout) := by
  cases layout with
  | flat =>
    have hup := not_startsWith_flat h "up." rfl (by decide)
    have hdown := not_startsWith_flat h "down." rfl (by decide)
    simp only [MigrationFile.attributedName, location, List.reverse_append, List.reverse_cons,
      List.reverse_nil, List.nil_append, List.singleton_append]
    cases above.reverse with
    | nil => rfl
    | cons directory rest => simp only [hup, hdown, Bool.or_self, Bool.false_eq_true, if_false]; rfl
  | nested =>
    have hbegins := Bool.or_eq_true_iff.2 p.startsWith_ending
    simp only [MigrationFile.attributedName, location, List.reverse_append, List.reverse_cons,
      List.reverse_nil, List.nil_append, List.cons_append, hbegins, if_true]
    rfl

theorem fileName_file (h : p.WellFormed) (layout : Layout) :
    (p.file layout).fileName = "/".intercalate (p.location layout) := by
  rw [MigrationFile.fileName_eq]
  exact attributedName_location h [] layout

theorem flat_ne_nested (hp : p.WellFormed) (hq : q.WellFormed) :
    p.stem ++ '.' :: p.ending ≠ q.stem ++ '/' :: q.ending := by
  intro h
  rcases List.append_eq_append_iff.1 h with ⟨front, -, heq⟩ | ⟨front, -, heq⟩
  · have hslash : '/' ∈ '.' :: p.ending := by simp [heq]
    have hnone := slash_not_mem_ending hp
    simp [hnone] at hslash
  · have hcount : ('/' :: q.ending).count '.' = 1 := by simpa using count_dots hq
    have htwo := count_dots hp
    rw [heq, List.count_append] at hcount
    omega

theorem fileName_injective (hp : p.WellFormed) (hq : q.WellFormed) {a b : Layout}
    (h : (p.file a).fileName = (q.file b).fileName) : p.file a = q.file b := by
  have hlocation : p.location a = q.location b := by
    rw [fileName_file hp, fileName_file hq, ← String.toList_inj] at h
    cases a <;> cases b <;> simp [location] at h
    · simp [location, h]
    · exact absurd h (flat_ne_nested hp hq)
    · exact absurd h.symm (flat_ne_nested hq hp)
    · obtain ⟨hstem, hending⟩ := Text.eq_of_cut_at_last (slash_not_mem_ending hp) (slash_not_mem_ending hq) h
      simp [location, hstem, hending]
  obtain ⟨rfl, rfl⟩ := location_injective hp hq hlocation
  rfl

end NameParts

def DriverFault.file? : DriverFault → Option String
  | .unreadable file _ => some file
  | .migration blame => blame.file
  | .locked | .send _ | .api _ | .tracking _ | .version _ | .files _ | .plan _ => none

theorem Bulk.exists_of_blame? {b : Bulk} {request : Json.Value} {fault : ApiFault} {blame : Blame}
    {name : String} (h : b.blame? request fault = some blame) (hname : blame.file = some name) :
    ∃ x ∈ b.items, x.file = some name := by
  obtain ⟨f, -, rfl⟩ := Option.map_eq_some_iff.1 h
  obtain ⟨i, -, hfile⟩ := Option.bind_eq_some_iff.1 hname
  obtain ⟨x, hx, hfile⟩ := Option.bind_eq_some_iff.1 hfile
  exact ⟨x, List.mem_of_getElem? hx, hfile⟩

namespace Session

theorem file_of_fileItems {t : FileTree} {source : Source} {s : Session} {f : MigrationFile}
    {items : List Staged} (h : s.fileItems t source f = some items) {x : Staged} (hx : x ∈ items) :
    x.file = some f.fileName := by
  simp only [fileItems] at h
  split at h
  · cases h
  · split at h
    · cases h
    · cases h
      obtain ⟨o, -, rfl⟩ := List.mem_map.1 hx
      rfl

end Session

namespace Driver

variable {t : FileTree} {source : Source} {target : Target} {options : ApplyOptions} {d d' : Driver}

theorem file_of_unlock {plan : Plan} {s : Session} (hplan : Plan.build source d.applied target = .ok plan)
    {skip : Bool} (hstage : (Session.start d.tracker.route d.skipConsistencyCheck).stagePlan t source
      skip plan = .ok s) {d₁ : Driver} {log : List Turn} {f : DriverFault}
    (h : (unlock s d₁).Runs log (.error f, d')) {name : String} (hname : f.file? = some name) :
    ∃ g ∈ source.files, g.fileName = name := by
  cases ofServer_of_unlock h with
  | @migration b e blame hb hblame =>
    obtain ⟨x, hx, hfile⟩ := Bulk.exists_of_blame? hblame hname
    have hsent : x ∈ s.bulk.items ++ d₁.tracker.records s.changes := by
      rw [← items_commitBatches]
      exact List.mem_flatMap.2 ⟨b, hb, hx⟩
    rcases List.mem_append.1 hsent with hx | hrecord
    · obtain ⟨parts, hparts, hitems⟩ := Session.items_stagePlan hstage
      rw [hitems] at hx
      obtain ⟨items, hmem, hx⟩ := List.mem_flatten.1 hx
      obtain ⟨g, hg, hstaged⟩ := exists_of_mem_mapM hparts hmem
      have hg : g ∈ plan.flatMap Step.files := by
        split at hg
        · cases hg
        · exact hg
      obtain ⟨step, hstep, hg⟩ := List.mem_flatMap.1 hg
      refine ⟨g, Plan.mem_files_of_build hplan step hstep g hg, ?_⟩
      rw [Session.file_of_fileItems hstaged hx] at hfile
      exact Option.some.inj hfile
    · rw [Tracker.file_of_mem_records hrecord] at hfile
      cases hfile
  | tracking e => cases hname
  | send e => cases hname
  | api e => cases hname

/-- An application that fails with the name of a file names one of its source. -/
theorem file_of_apply {log : List Turn} {f : DriverFault}
    (h : (apply t source target options d).Runs log (.error f, d')) {name : String}
    (hname : f.file? = some name) : ∃ g ∈ source.files, g.fileName = name := by
  rw [apply_eq, Action.bind_apply] at h
  obtain ⟨⟨r, d₁⟩, look, rest, rfl, hscan, hrest⟩ := Exchange.runs_bind.1 h
  cases r with
  | error e =>
    cases hrest.2
    cases (runs_scan hscan).2.2 f rfl with
    | migration hb => cases hb
    | tracking e => cases hname
    | send e => cases hname
    | api e => cases hname
  | ok u =>
    cases ends_applyScanned t source target options d₁ with
    | unplanned hplan hend =>
      rw [hend] at hrest
      cases hrest.2
      cases hname
    | idle hplan hnone hend =>
      rw [hend] at hrest
      cases hrest.2
    | refused hplan hne hdry hlocked hend =>
      rw [hend] at hrest
      cases hrest.2
      cases hname
    | unstaged hplan hne hdry hfree hstage hend =>
      rw [hend] at hrest
      cases hrest.2
      obtain ⟨step, hstep, g, hg, ⟨fault, rfl⟩ | ⟨cause, rfl⟩⟩ := Session.stagePlan_eq_error hstage
      · cases hname
      · exact ⟨g, Plan.mem_files_of_build hplan step hstep g hg, Option.some.inj hname⟩
    | committed hplan hne hdry hfree hstage hend =>
      rw [hend] at hrest
      obtain ⟨⟨outcome, d₂⟩, first, more, rfl, hunlock, -, hr⟩ := Exchange.runs_bind.1 hrest
      cases outcome with
      | ok u => cases hr
      | error e =>
        cases hr
        exact file_of_unlock hplan hstage hunlock hname

end Driver

namespace Source

variable {t : FileTree} {root : String} {s : Source}

theorem exists_parts_of_mem (ht : t.Rooted) (hn : t.Named) {top : Location} {f : MigrationFile}
    (hf : f ∈ (ofWalk t root top).files) :
    t.HasFile (top ++ f.location) ∧ (∀ name ∈ f.location, FilePath.IsStep name) ∧
      ∃ (p : NameParts) (layout : Layout), p.WellFormed ∧ f = p.file layout := by
  obtain ⟨hfile, hread⟩ := (mem_files_ofWalk ht).1 hf
  obtain ⟨p, layout, hp, -, heq⟩ := MigrationFile.ofLocation?_eq_some_iff.1 hread
  have hfound : t.find? (top ++ f.location) ≠ none := by
    obtain ⟨content, hcontent⟩ := hfile
    simp [hcontent]
  exact ⟨hfile, fun name hname => (hn.of_find? hfound (List.mem_append_right _ hname)).1, p, layout, hp, heq⟩

/-- The path of a file is its name for errors behind the path of the directory. -/
theorem path_eq_join {p : NameParts} (hp : p.WellFormed) (layout : Layout)
    (hstep : ∀ name ∈ p.location layout, FilePath.IsStep name) :
    (p.file layout).path root = FilePath.join root (p.file layout).fileName := by
  rw [NameParts.fileName_file hp]
  cases layout with
  | flat => rfl
  | nested =>
    exact (FilePath.join_two (hstep _ List.mem_cons_self)
      (hstep _ (List.mem_cons_of_mem _ List.mem_cons_self))).symm

theorem nodup_fileNames (ht : t.Rooted) (hn : t.Named) (root : String) (top : Location) :
    ((ofWalk t root top).files.map MigrationFile.fileName).Nodup := by
  have hfiles : (ofWalk t root top).files.Nodup :=
    (files_ascending ht root top).imp fun {f g} (hlt : f.location < g.location) (heq : f = g) =>
      location_lt_irrefl f.location (by rwa [← heq] at hlt)
  refine hfiles.map_on fun f hf g hg hname => ?_
  obtain ⟨-, -, p, a, hp, rfl⟩ := exists_parts_of_mem ht hn hf
  obtain ⟨-, -, q, b, hq, rfl⟩ := exists_parts_of_mem ht hn hg
  exact NameParts.fileName_injective hp hq hname

/-- The name that errors have for a scanned file is told from its path alone, and it is the path from the
migrations directory to the file.  So no two files have one name, and where an application fails with the name
of a file, there is one file that it can mean. -/
theorem fileName_identifies (ht : t.Rooted) (hn : t.Named) (hs : scan t root = .ok s) :
    ∃ top, t.locate root = .ok top ∧
      (∀ f ∈ s.files, t.HasFile (top ++ f.location) ∧ f.fileName = "/".intercalate f.location ∧
        f.fileName = MigrationFile.attributedName (FilePath.names (f.path root)) ∧
        f.path root = FilePath.join root f.fileName ∧
        (FilePath.Nameable (f.path root) → t.locate (f.path root) = .ok (top ++ f.location))) ∧
      (s.files.map MigrationFile.fileName).Nodup ∧
      ∀ u target options d log fault d' name,
        (Driver.apply u s target options d).Runs log (.error fault, d') →
          fault.file? = some name → ∃! f, f ∈ s.files ∧ f.fileName = name := by
  obtain ⟨top, htop, -, rfl⟩ := (scan_eq_ok_iff ht).1 hs
  have hnodup := nodup_fileNames ht hn root top
  have hroot : root ≠ "" := FileTree.ne_empty_of_locate htop
  refine ⟨top, htop, fun f hf => ?_, hnodup, ?_⟩
  · obtain ⟨hfile, hstep, p, layout, hp, rfl⟩ := exists_parts_of_mem ht hn hf
    refine ⟨hfile, NameParts.fileName_file hp layout, ?_, path_eq_join hp layout hstep, fun hpath => ?_⟩
    · rw [NameParts.fileName_file hp, MigrationFile.path, FilePath.names_foldl_join hstep]
      exact (NameParts.attributedName_location hp _ layout).symm
    · obtain ⟨content, hcontent⟩ := hfile
      exact ht.locate_below hn hroot htop (by simp [hcontent]) hpath
  · intro u target options d log fault d' name hrun hname
    obtain ⟨f, hf, rfl⟩ := Driver.file_of_apply hrun hname
    refine ⟨f, ⟨hf, rfl⟩, ?_⟩
    rintro g ⟨hg, heq⟩
    exact List.inj_on_of_nodup_map hnodup hg hf heq

/-- One version in both layouts, of which the metadata is no list of operations. -/
def bothLayouts : FileTree :=
  FileTree.empty.changeAll [.makeDirectories "m/7_b", .write "m/7_b/up.yaml" "- x".toUTF8,
    .write "m/7_b.up.sql" "X".toUTF8]

def bothSource : Source :=
  ⟨"m", [⟨7, "b", .up, .metadata, ["7_b", "up.yaml"]⟩, ⟨7, "b", .up, .sql, ["7_b.up.sql"]⟩]⟩

theorem rooted_bothLayouts : bothLayouts.Rooted := FileTree.rooted_empty.changeAll _

theorem scan_bothLayouts : scan bothLayouts "m" = .ok bothSource := by
  have hchildren : bothLayouts.children ["m"] = ["7_b", "7_b.up.sql"] := by
    have hnames : (bothLayouts.entries.map Prod.fst).filterMap (nameIn ["m"]) = ["7_b", "7_b.up.sql"] := by
      decide +kernel
    rw [FileTree.children_eq, hnames]
    exact List.mergeSort_of_pairwise (by decide)
  have hinner : bothLayouts.children ["m", "7_b"] = ["up.yaml"] := by
    have hnames : (bothLayouts.entries.map Prod.fst).filterMap (nameIn ["m", "7_b"]) = ["up.yaml"] := by
      decide +kernel
    rw [FileTree.children_eq, hnames]
    exact List.mergeSort_singleton _
  have hdirectory : bothLayouts.find? ["m", "7_b"] = some .directory := by decide +kernel
  have hmetadata : bothLayouts.find? ["m", "7_b", "up.yaml"] = some (.file "- x".toUTF8) := by
    decide +kernel
  have hsql : bothLayouts.find? ["m", "7_b.up.sql"] = some (.file "X".toUTF8) := by decide +kernel
  have hwalk : walk bothLayouts ["m"] = [["7_b", "up.yaml"], ["7_b.up.sql"]] := by
    simp [walk, hchildren, hinner, hdirectory, hmetadata, hsql]
  refine (scan_eq_ok_iff rooted_bothLayouts).2 ⟨["m"], by rfl, by decide +kernel, ?_⟩
  rw [ofWalk, hwalk]
  decide +kernel

/-- The application names the file whose content is at fault, and not the one beside it. -/
theorem fileName_identifies_bothLayouts :
    (bothSource.files.map MigrationFile.fileName).Nodup ∧
    ∃ fault log d', (Driver.apply bothLayouts bothSource (.up none) ⟨false, false⟩
      Driver.onNoLedger).Runs log (.error fault, d') ∧ fault.file? = some "7_b/up.yaml" ∧
      ∃! f, f ∈ bothSource.files ∧ f.fileName = "7_b/up.yaml" := by
  have hnamed : bothLayouts.Named := FileTree.Named.changeAll FileTree.rooted_empty FileTree.named_empty _
  obtain ⟨top, -, -, hnodup, hfault⟩ := fileName_identifies rooted_bothLayouts hnamed scan_bothLayouts
  have hplan : Plan.build bothSource Driver.onNoLedger.applied (.up none) =
      .ok [⟨7, some "b", .up, bothSource.filesOf 7 .up⟩] := by decide +kernel
  have hstage : (Session.start Driver.onNoLedger.tracker.route
      Driver.onNoLedger.skipConsistencyCheck).stagePlan bothLayouts bothSource false
        [⟨7, some "b", .up, bothSource.filesOf 7 .up⟩] =
          .error (.unreadable "7_b/up.yaml" (.item 0)) := by decide +kernel
  have hfree : Driver.onNoLedger.locked = false := rfl
  have hrest : Driver.applyScanned bothLayouts bothSource (.up none) ⟨false, false⟩ Driver.onNoLedger =
      .done (.error (.unreadable "7_b/up.yaml" (.item 0)), Driver.onNoLedger) := by
    simp [Driver.applyScanned, hplan, hfree, hstage]
  have hrun : (Driver.apply bothLayouts bothSource (.up none) ⟨false, false⟩ Driver.onNoLedger).Runs (_ ++ [])
      (.error (.unreadable "7_b/up.yaml" (.item 0)), Driver.onNoLedger) :=
    (Driver.runs_apply_of_scan Driver.runs_scan_onNoLedger).2 (by rw [hrest]; exact ⟨rfl, rfl⟩)
  exact ⟨hnodup, _, _, _, hrun, rfl, hfault _ _ _ _ _ _ _ _ hrun rfl⟩

end Source

end EngineMigrate
