import EngineMigrate.Proofs.FaultTrace
import EngineMigrate.Proofs.PathNames
import EngineMigrate.Proofs.SentSeeds
import EngineMigrate.Proofs.TreeGrowth

/-!
The directory that seeds come from.  Without a name all SQL files in it are sent, and positions in the bulk
are positions among those that are not blank.  With a name nothing is read that is not directly in it.  Main
statements: what is sent is what the directory holds, an error is put down to the file that it is about, and a
name either stays inside of the directory or is refused before anything is read.
-/
namespace EngineMigrate.Seeds

open FilePath (IsStep Nameable StaysInside)
open Json (Value)

variable {t : FileTree} {directory name : String} {names : List String} {target : SeedTarget}
  {seeds sent : List Seed}

def IsSeed (t : FileTree) (directory name : String) : Prop :=
  (∃ stem, stem ≠ "" ∧ name = stem ++ ".sql") ∧
    ∃ top, t.locate directory = .ok top ∧ t.HasFile (top ++ [name])

/-- What keeps a directory from being sent: its path leads to a file or cannot be followed, a file in it has
no path that can be followed, or its content is no text. -/
inductive Obstructed (t : FileTree) (directory : String) : Prop where
  | path {f : FileFault} (h : t.locate directory = .error f) (hf : f ≠ .absent)
  | occupied {top : Location} (htop : t.locate directory = .ok top) (h : t.HasFile top)
  | unnameable {name : String} (h : IsSeed t directory name)
    (hpath : ¬ Nameable (FilePath.join directory name))
  | notText {name : String} {top : Location} {content : ByteArray} (h : IsSeed t directory name)
    (htop : t.locate directory = .ok top) (hfile : t.find? (top ++ [name]) = some (.file content))
    (htext : String.fromUTF8? content = none)

/-- The SQL files of a directory in byte order of their names, each with its content. -/
structure Gathers (t : FileTree) (directory : String) (seeds : List Seed) : Prop where
  ascending : (seeds.map Seed.name).Pairwise (· < ·)
  complete : ∀ name, name ∈ seeds.map Seed.name ↔ IsSeed t directory name
  contents : ∀ s ∈ seeds, ∀ top, t.locate directory = .ok top →
    t.find? (top ++ [s.name]) = some (.file s.sql.toUTF8)

theorem isSqlName_iff : isSqlName name = true ↔ ∃ stem, stem ≠ "" ∧ name = stem ++ ".sql" := by
  simp only [isSqlName, Bool.and_eq_true, List.isSuffixOf_iff_suffix, decide_eq_true_eq]
  constructor
  · rintro ⟨⟨stem, hstem⟩, hne⟩
    have hname : name = String.ofList stem ++ ".sql" := String.toList_injective (by simp [← hstem])
    refine ⟨String.ofList stem, fun hempty => hne ?_, hname⟩
    rw [hname, hempty, String.empty_append]
  · rintro ⟨stem, hne, rfl⟩
    refine ⟨⟨stem.toList, by simp⟩, fun heq => hne ?_⟩
    have hlength := congrArg (fun s => s.toList.length) heq
    simpa using hlength

def isListed (t : FileTree) (top : Location) (name : String) : Bool :=
  isSqlName name && match t.find? (top ++ [name]) with
    | some (.file _) => true
    | _ => false

theorem isListed_iff {top : Location} : isListed t top name = true ↔
    (∃ stem, stem ≠ "" ∧ name = stem ++ ".sql") ∧ t.HasFile (top ++ [name]) := by
  rw [isListed, Bool.and_eq_true, isSqlName_iff, FileTree.HasFile]
  refine and_congr_right' ?_
  cases t.find? (top ++ [name]) with
  | none => simp
  | some e => cases e <;> simp

theorem list_eq (t : FileTree) (directory : String) : list t directory =
    match t.locate directory with
    | .error .absent => .ok []
    | .error f => .error f
    | .ok top => match t.find? top with
      | none => .ok []
      | some (.file _) => .error .obstructed
      | some .directory => .ok ((t.children top).filter (isListed t top)) := by
  rw [list, FileTree.exists?, FileTree.entry]
  cases hl : t.locate directory with
  | error f => cases f <;> rfl
  | ok top =>
    cases hfound : t.find? top with
    | none => simp [hfound, bind, Except.bind, pure, Except.pure]
    | some e =>
      cases e with
      | file content => simp [hfound, bind, Except.bind, throw, throwThe, MonadExceptOf.throw]
      | directory =>
        simp only [hfound, bind, Except.bind]
        rfl

theorem list_eq_ok (ht : t.Rooted) (h : list t directory = .ok names) :
    names.Pairwise (· < ·) ∧ ∀ name, name ∈ names ↔ IsSeed t directory name := by
  have hdirectory : ∀ name, IsSeed t directory name → ∃ top, t.locate directory = .ok top ∧
      t.find? top = some .directory := by
    rintro name ⟨-, top, htop, content, hcontent⟩
    have hfound : t.find? (top ++ [name]) ≠ none := by simp [hcontent]
    exact ⟨top, htop, ht.find?_above hfound⟩
  rw [list_eq] at h
  cases hl : t.locate directory with
  | error f =>
    simp only [hl, reduceCtorEq, false_and, exists_false, imp_false] at h hdirectory
    cases f <;> cases h
    exact ⟨.nil, fun name => iff_of_false List.not_mem_nil (hdirectory name)⟩
  | ok top =>
    simp only [hl, Except.ok.injEq, exists_eq_left'] at h hdirectory
    cases hfound : t.find? top with
    | none =>
      simp only [hfound, reduceCtorEq, imp_false] at h hdirectory
      cases h
      exact ⟨.nil, fun name => iff_of_false List.not_mem_nil (hdirectory name)⟩
    | some e =>
      cases e with
      | file content => simp [hfound] at h
      | directory =>
        simp only [hfound, Except.ok.injEq] at h
        subst h
        refine ⟨(ht.children_ascending top).sublist List.filter_sublist, fun name => ?_⟩
        rw [List.mem_filter, FileTree.mem_children, isListed_iff, IsSeed]
        simp only [hl, Except.ok.injEq, exists_eq_left']
        refine and_iff_right_of_imp ?_
        rintro ⟨-, content, hcontent⟩
        simp [hcontent]

/-- A directory is not listed if its path cannot be followed or leads to a file. -/
theorem list_fails_iff : (∃ f, list t directory = .error f) ↔
    (∃ f, t.locate directory = .error f ∧ f ≠ .absent) ∨
      ∃ top, t.locate directory = .ok top ∧ t.HasFile top := by
  rw [list_eq]
  cases hl : t.locate directory with
  | error f => cases f <;> simp
  | ok top =>
    cases hfound : t.find? top with
    | none => simp [FileTree.HasFile, hfound]
    | some e => cases e <;> simp [FileTree.HasFile, hfound]

theorem exists_load_iff {files : List String} : (∃ seeds, load t directory files = .ok seeds) ↔
    ∀ name ∈ files, ∃ sql, t.readText (FilePath.join directory name) = .ok sql := by
  induction files with
  | nil => exact ⟨fun _ => nofun, fun _ => ⟨[], rfl⟩⟩
  | cons name files ih =>
    rw [List.forall_mem_cons, ← ih]
    simp only [load_cons, bind_eq_ok_iff]
    constructor
    · rintro ⟨-, sql, hread, rest, hrest, -⟩
      exact ⟨⟨sql, hread⟩, rest, hrest⟩
    · rintro ⟨⟨sql, hread⟩, rest, hrest⟩
      exact ⟨_, sql, hread, rest, hrest, rfl⟩

theorem readText_seed (ht : t.Rooted) (hn : t.Named) (h : IsSeed t directory name) {sql : String} :
    t.readText (FilePath.join directory name) = .ok sql ↔ Nameable (FilePath.join directory name) ∧
      ∀ top, t.locate directory = .ok top → t.find? (top ++ [name]) = some (.file sql.toUTF8) := by
  obtain ⟨-, top, htop, content, hcontent⟩ := h
  have hne : directory ≠ "" := FileTree.ne_empty_of_locate htop
  have hfound : t.find? (top ++ [name]) ≠ none := by simp [hcontent]
  have hdir := ht.find?_above hfound
  have hname : name ∈ top ++ [name] := by simp
  obtain ⟨hstep, hsize⟩ := hn.of_find? hfound hname
  rw [FileTree.readText_eq_ok_iff]
  simp only [FileTree.locate_join hne hstep, htop, Except.ok.injEq, exists_eq_left', hdir, hsize, true_and,
    forall_eq']
  constructor
  · rintro ⟨_, ⟨hpath, rfl⟩, hfile⟩
    exact ⟨hpath, hfile⟩
  · rintro ⟨hpath, hfile⟩
    exact ⟨_, ⟨hpath, rfl⟩, hfile⟩

theorem gathers_of_load (ht : t.Rooted) (hn : t.Named) (hlist : list t directory = .ok names)
    (hload : load t directory names = .ok seeds) : Gathers t directory seeds := by
  obtain ⟨rfl, htexts⟩ := load_eq_ok_iff.1 hload
  obtain ⟨hascending, hcomplete⟩ := list_eq_ok ht hlist
  refine ⟨hascending, hcomplete, fun s hs => ?_⟩
  exact ((readText_seed ht hn ((hcomplete _).1 (List.mem_map_of_mem hs))).1 (htexts s hs)).2

/-- The directory determines what is gathered. -/
theorem Gathers.unique (h : Gathers t directory seeds) (h' : Gathers t directory sent) : seeds = sent := by
  have hnames : seeds.map Seed.name = sent.map Seed.name := by
    have : Std.Irrefl fun a b : String => a < b := ⟨String.lt_irrefl⟩
    have : Std.Antisymm fun a b : String => a < b := ⟨fun a b hab hba => absurd hba (String.lt_asymm hab)⟩
    exact h.ascending.eq_of_mem_iff h'.ascending fun name => (h.complete name).trans (h'.complete name).symm
  have hlength : seeds.length = sent.length := by simpa using congrArg List.length hnames
  refine List.ext_getElem hlength fun i hi hi' => ?_
  have hname : seeds[i].name = sent[i].name := by
    have hi := List.getElem_of_eq hnames (i := i) (by simpa using hi)
    simpa using hi
  obtain ⟨-, top, htop, -⟩ := (h.complete _).1 (List.mem_map_of_mem (List.getElem_mem hi))
  have hfile := h.contents _ (List.getElem_mem hi) top htop
  rw [hname, h'.contents _ (List.getElem_mem hi') top htop, Option.some.injEq, FileEntry.file.injEq,
    ← FileTree.fromUTF8?_eq_some_iff, FileTree.fromUTF8?_eq_some_iff.2 rfl, Option.some.injEq] at hfile
  rw [Seed.mk.injEq]
  exact ⟨hname, hfile.symm⟩

theorem not_obstructed_of_load (ht : t.Rooted) (hn : t.Named) (hlist : list t directory = .ok names)
    (hload : load t directory names = .ok seeds) : ¬ Obstructed t directory := by
  have hlisted : ¬ ∃ f, list t directory = .error f := by simp [hlist]
  have hread : ∀ {name}, IsSeed t directory name →
      ∃ sql, t.readText (FilePath.join directory name) = .ok sql :=
    fun {name} h => exists_load_iff.1 ⟨seeds, hload⟩ name (((list_eq_ok ht hlist).2 name).2 h)
  rw [list_fails_iff] at hlisted
  intro hobstructed
  cases hobstructed with
  | path h hf => exact hlisted (.inl ⟨_, h, hf⟩)
  | occupied htop h => exact hlisted (.inr ⟨_, htop, h⟩)
  | unnameable h hpath =>
    obtain ⟨sql, hsql⟩ := hread h
    exact hpath ((readText_seed ht hn h).1 hsql).1
  | notText h htop hfile htext =>
    obtain ⟨sql, hsql⟩ := hread h
    have hsame := ((readText_seed ht hn h).1 hsql).2 _ htop
    rw [hfile, Option.some.injEq, FileEntry.file.injEq, ← FileTree.fromUTF8?_eq_some_iff, htext] at hsame
    cases hsame

theorem exists_text_of_clear (ht : t.Rooted) (hn : t.Named) (hclear : ¬ Obstructed t directory)
    (h : IsSeed t directory name) : ∃ sql, t.readText (FilePath.join directory name) = .ok sql := by
  have hpath : Nameable (FilePath.join directory name) :=
    by_contra fun hpath => hclear (.unnameable h hpath)
  obtain ⟨-, top, htop, content, hcontent⟩ := id h
  cases htext : String.fromUTF8? content with
  | none => exact absurd (.notText h htop hcontent htext) hclear
  | some sql =>
    refine ⟨sql, (readText_seed ht hn h).2 ⟨hpath, fun top' htop' => ?_⟩⟩
    obtain rfl := Except.ok.inj (htop.symm.trans htop')
    rw [hcontent, FileTree.fromUTF8?_eq_some_iff.1 htext]

/-- Everything is read exactly if nothing is in the way. -/
theorem loads_iff (ht : t.Rooted) (hn : t.Named) (directory : String) :
    (∃ names seeds, list t directory = .ok names ∧ load t directory names = .ok seeds) ↔
      ¬ Obstructed t directory := by
  constructor
  · rintro ⟨names, seeds, hlist, hload⟩
    exact not_obstructed_of_load ht hn hlist hload
  · intro hclear
    cases hlist : list t directory with
    | error f =>
      rcases list_fails_iff.1 ⟨f, hlist⟩ with ⟨f, h, hf⟩ | ⟨top, htop, h⟩
      · exact absurd (.path h hf) hclear
      · exact absurd (.occupied htop h) hclear
    | ok names =>
      obtain ⟨seeds, hload⟩ := exists_load_iff.2 fun name hname =>
        exists_text_of_clear ht hn hclear (((list_eq_ok ht hlist).2 name).1 hname)
      exact ⟨names, seeds, rfl, hload⟩

/-- A bulk with one `run_sql` for each seed, in order, which has the text of the seed and nothing else. -/
structure Carries (q : Request) (sent : List Seed) : Prop where
  bulk : q.body >>= Value.get? "type" = some (.string "bulk")
  args : ∃ actions, q.body >>= Value.get? "args" = some (.array actions) ∧
    List.Forall₂ (fun v s => v.get? "type" = some (.string "run_sql") ∧
      v.get? "args" = some (.object [("sql", .string s.sql)])) actions sent

/-- An error of the server at a position in the bulk, or further inside, is put down to the seed that was sent
at that position. -/
def Blames (answer : Reply → Except SeedFault (List String)) (sent : List Seed) : Prop :=
  ∀ response fault ds further s, response.isSuccess = false →
    ServerFault.ofBytes? response.body = some fault → FaultPath.IsDigits ds →
    fault.path = FaultPath.intoBulk ds further → Text.digitsValue ds < Text.wordLimit →
    sent[Text.digitsValue ds]? = some s →
    ∃ blame, answer (.ok response) = .error (.failed blame) ∧ blame.fault = fault ∧ blame.file = some s.name

theorem carries_requestOf (target : SeedTarget) (sent : List Seed) :
    Carries (requestOf target sent) sent where
  bulk := by simp [requestOf, Bulk.get?_request]
  args := by
    refine ⟨sent.map fun s => (s.staged target.route).operation.toJson, ?_, ?_⟩
    · simp [requestOf, bulkOf, Bulk.operations, Bulk.get?_request]
    · rw [List.forall₂_map_left_iff, List.forall₂_same]
      intro s _
      cases target.route <;> exact ⟨Operation.get?_fields _ "type", Operation.get?_fields _ "args"⟩

/-- Blank files are in no bulk, so that they take no position in it either. -/
theorem blames_outcome (target : SeedTarget) (sent : List Seed) (files : List String) :
    Blames (outcome target sent files) sent := by
  intro response fault ds further s hresponse hfault hds hpath hlt hs
  obtain ⟨blame, hblame, hsame, htraces⟩ :=
    Driver.traces_blame? ⟨target.path, target.route.bulkSource, bulkOf target.route sent⟩ fault
  have hstaged : (bulkOf target.route sent).items[Text.digitsValue ds]? = some (s.staged target.route) := by
    simp [bulkOf, hs]
  have hof : ApiFault.ofResponse response = .server fault := by simp [ApiFault.ofResponse, hfault]
  refine ⟨blame, ?_, hsame, (htraces.inside ds further _ hds (hsame ▸ hpath) hlt hstaged).1⟩
  simp only [outcome, Response.checked, hresponse, hof, Bool.false_eq_true, if_false]
  rw [Batch.request] at hblame
  simp only [hblame]

/-- Without a name, all of a directory is sent or nothing.  Where something is in the way, or all SQL files
are blank, there is no request; otherwise there is one, which carries the others in byte order of their names
with their exact contents, and an error at a position among these is put down to the file there. -/
theorem apply_directory (ht : t.Rooted) (hn : t.Named) (config : Config) (c : Capability)
    (directory : String) :
    (Obstructed t directory → ∃ f,
      ExceptT.run (apply (.ofCapability config c) t directory none) = .done (.error (.files f))) ∧
    (¬ Obstructed t directory → ∃ seeds, Gathers t directory seeds ∧
      (substantial seeds = [] →
        ExceptT.run (apply (.ofCapability config c) t directory none) = .done (.ok [])) ∧
      (substantial seeds ≠ [] → ∃ (q : Request) (answer : Reply → Except SeedFault (List String)),
        ExceptT.run (apply (.ofCapability config c) t directory none) =
          .send q (fun reply => .done (answer reply)) ∧
        q.method = .post ∧ q.path = (SeedTarget.ofCapability config c).path ∧
        Carries q (substantial seeds) ∧ Blames answer (substantial seeds))) := by
  have hloads := loads_iff ht hn directory
  constructor
  · intro hobstructed
    rw [run_apply, select]
    cases hlist : list t directory with
    | error f => exact ⟨f, rfl⟩
    | ok names =>
      cases hload : load t directory names with
      | error f => exact ⟨f, by simp [Except.mapError, hload]⟩
      | ok seeds => exact absurd hobstructed (hloads.1 ⟨names, seeds, hlist, hload⟩)
  · intro hclear
    obtain ⟨names, seeds, hlist, hload⟩ := hloads.2 hclear
    have hrun := @run_apply t directory none (.ofCapability config c)
    simp only [select, hlist, mapError_ok, hload] at hrun
    refine ⟨seeds, gathers_of_load ht hn hlist hload, fun hnone => ?_, fun hsome => ?_⟩
    · rw [hrun, if_pos hnone]
    · rw [hrun, if_neg hsome]
      exact ⟨_, _, rfl, rfl, rfl, carries_requestOf _ _, blames_outcome _ _ _⟩

/-- A directory with a blank file before two with SQL, and with what is no seed: a directory, a file of
another name, and a bare extension. -/
def fixtures : FileTree :=
  FileTree.empty.changeAll [.makeDirectories "seeds", .write "seeds/.sql" "A".toUTF8,
    .makeDirectories "seeds/0_old.sql", .write "seeds/1_empty.sql" " ".toUTF8,
    .write "seeds/2_b.sql" "B".toUTF8, .write "seeds/3_c.sql" "C".toUTF8,
    .write "seeds/notes.txt" "D".toUTF8]

def fixtureSeeds : List Seed := [⟨"1_empty.sql", " "⟩, ⟨"2_b.sql", "B"⟩, ⟨"3_c.sql", "C"⟩]

theorem list_fixtures : list fixtures "seeds" = .ok (fixtureSeeds.map Seed.name) := by
  have hchildren : fixtures.children ["seeds"] =
      [".sql", "0_old.sql", "1_empty.sql", "2_b.sql", "3_c.sql", "notes.txt"] := by
    have hnames : (fixtures.entries.map Prod.fst).filterMap (nameIn ["seeds"]) =
        [".sql", "0_old.sql", "1_empty.sql", "2_b.sql", "3_c.sql", "notes.txt"] := by decide +kernel
    rw [FileTree.children_eq, hnames]
    exact List.mergeSort_of_pairwise (by decide)
  have hexists : fixtures.exists? "seeds" = .ok true := by decide +kernel
  have hlocate : fixtures.locate "seeds" = .ok ["seeds"] := by decide +kernel
  simp only [list, hexists, hlocate, hchildren, bind, Except.bind]
  decide +kernel

/-- The second position of the bulk is the third seed. -/
theorem apply_directory_fixtures :
    ∃ (q : Request) (answer : Reply → Except SeedFault (List String)) (blame : Blame),
    ExceptT.run (apply (.ofCapability .default .legacy) fixtures "seeds" none) =
      .send q (fun reply => .done (answer reply)) ∧
    Carries q [⟨"2_b.sql", "B"⟩, ⟨"3_c.sql", "C"⟩] ∧
    answer (.ok ⟨400, "\x7b\"path\":\"$.args[1].args\",\"error\":\"e\"\x7d".toUTF8⟩) =
      .error (.failed blame) ∧
    blame.file = some "3_c.sql" := by
  have hrooted : fixtures.Rooted := FileTree.rooted_empty.changeAll _
  have hnamed : fixtures.Named := FileTree.Named.changeAll FileTree.rooted_empty FileTree.named_empty _
  have hload : load fixtures "seeds" (fixtureSeeds.map Seed.name) = .ok fixtureSeeds := by decide +kernel
  have hclear := not_obstructed_of_load hrooted hnamed list_fixtures hload
  obtain ⟨-, hsent⟩ := apply_directory hrooted hnamed .default .legacy "seeds"
  obtain ⟨seeds, hgathers, -, hsends⟩ := hsent hclear
  obtain rfl := hgathers.unique (gathers_of_load hrooted hnamed list_fixtures hload)
  have hsubstantial : substantial fixtureSeeds = [⟨"2_b.sql", "B"⟩, ⟨"3_c.sql", "C"⟩] := by decide
  rw [hsubstantial] at hsends
  obtain ⟨q, answer, hrun, -, -, hcarries, hblames⟩ := hsends (by simp)
  have hfault : ServerFault.ofBytes? "\x7b\"path\":\"$.args[1].args\",\"error\":\"e\"\x7d".toUTF8 =
      some ⟨"$.args[1].args", "e", "", none⟩ := by decide +kernel
  obtain ⟨blame, hanswer, -, hfile⟩ := hblames ⟨400, _⟩ _ ['1'] ".args" ⟨"3_c.sql", "C"⟩ rfl hfault
    ⟨by simp, by simp⟩ rfl (by decide) rfl
  exact ⟨q, answer, blame, hrun, hcarries, hanswer, hfile⟩

theorem outcome_ne_invalidName {files : List String} {reply : Reply} {n : String} :
    outcome target sent files reply ≠ .error (.invalidName n) := by
  cases reply with
  | error f => simp [outcome]
  | ok response =>
    simp only [outcome]
    split
    · simp
    · split <;> simp

theorem load_named (h : StaysInside name) (hload : load t directory [name] = .ok seeds) :
    ∃ top sql, t.origin directory = .ok top ∧
      t.find? (top ++ [FilePath.child name]) = some (.file sql.toUTF8) ∧ seeds = [⟨name, sql⟩] := by
  obtain ⟨hnames, htexts⟩ := load_eq_ok_iff.1 hload
  obtain ⟨⟨_, sql⟩, rfl, rfl⟩ := List.map_eq_singleton_iff.1 hnames
  obtain ⟨l, hl, hfile⟩ := FileTree.readText_eq_ok_iff.1 (htexts _ List.mem_cons_self)
  obtain ⟨top, htop, rfl⟩ := FileTree.locate_join_child h hl
  exact ⟨top, sql, htop, hfile, rfl⟩

theorem select_named (t : FileTree) (directory : String) (h : StaysInside name) :
    select t directory (some name) = .ok [name] ∨
    ∃ f, select t directory (some name) = .error f ∧ ∀ n, f ≠ .invalidName n := by
  have hplain : FilePath.isPlainName name = true := FilePath.isPlainName_iff.2 h
  simp only [select, hplain, Bool.not_true, Bool.false_eq_true, if_false]
  cases t.exists? (FilePath.join directory name) with
  | error f => exact .inr ⟨.files f, rfl, by simp⟩
  | ok found =>
    cases found with
    | true => exact .inl rfl
    | false => exact .inr ⟨_, rfl, by simp⟩

/-- A name that stays inside is sent with one request for it, or not at all. -/
theorem runs_apply_named (h : StaysInside name) {log : List Turn} {r : Except SeedFault (List String)}
    (hrun : (ExceptT.run (apply target t directory (some name))).Runs log r) :
    (∀ n, r ≠ .error (.invalidName n)) ∧
      (log = [] ∨ ∃ seeds reply, load t directory [name] = .ok seeds ∧
        log = [⟨requestOf target (substantial seeds), reply⟩] ∧ substantial seeds ≠ []) := by
  rw [run_apply] at hrun
  rcases select_named t directory h with hselect | ⟨f, hselect, hf⟩
  · simp only [hselect] at hrun
    cases hload : load t directory [name] with
    | error f =>
      simp only [hload] at hrun
      obtain ⟨rfl, rfl⟩ := hrun
      exact ⟨nofun, .inl rfl⟩
    | ok seeds =>
      simp only [hload] at hrun
      by_cases hnone : substantial seeds = []
      · rw [if_pos hnone] at hrun
        obtain ⟨rfl, rfl⟩ := hrun
        exact ⟨nofun, .inl rfl⟩
      · rw [if_neg hnone] at hrun
        obtain ⟨reply, rest, rfl, rfl, rfl⟩ := hrun
        exact ⟨fun n => outcome_ne_invalidName, .inr ⟨seeds, reply, rfl, rfl, hnone⟩⟩
  · simp only [hselect] at hrun
    obtain ⟨rfl, rfl⟩ := hrun
    exact ⟨fun n heq => hf n (Except.error.inj heq), .inl rfl⟩

/-- A name is taken exactly if it stays inside of the directory.  Then the path of the file is that of the
directory and one more name, and a request carries what stands directly in the directory under that name, if
there is one.  Any other name is refused whatever the files are, and nothing is sent. -/
theorem apply_named (target : SeedTarget) (t : FileTree) (directory name : String) :
    (FilePath.isPlainName name = true ↔ StaysInside name) ∧
    (StaysInside name →
      FilePath.names (FilePath.join directory name) = FilePath.names directory ++ [FilePath.child name] ∧
      FilePath.isAbsolute (FilePath.join directory name) = FilePath.isAbsolute directory ∧
      ∀ log r, (ExceptT.run (apply target t directory (some name))).Runs log r →
        (∀ n, r ≠ .error (.invalidName n)) ∧
        ∀ turn ∈ log, ∃ top sql, t.origin directory = .ok top ∧
          t.find? (top ++ [FilePath.child name]) = some (.file sql.toUTF8) ∧
          turn.request = requestOf target [⟨name, sql⟩]) ∧
    (¬ StaysInside name → ∀ u : FileTree,
      ExceptT.run (apply target u directory (some name)) = .done (.error (.invalidName name))) := by
  refine ⟨FilePath.isPlainName_iff, fun h => ⟨?_, FilePath.isAbsolute_join h.relative, fun log r hrun => ?_⟩,
    fun h u => ?_⟩
  · rw [← FilePath.join_child_append_behind h, FilePath.names_append_behind h, FilePath.names_join h.isStep]
  · obtain ⟨htaken, hlog⟩ := runs_apply_named h hrun
    refine ⟨htaken, fun turn hturn => ?_⟩
    rcases hlog with rfl | ⟨seeds, reply, hload, rfl, hsome⟩
    · cases hturn
    · obtain ⟨top, sql, htop, hfile, rfl⟩ := load_named h hload
      have hsent : substantial [⟨name, sql⟩] = [⟨name, sql⟩] := by
        cases hblank : Seed.isBlank ⟨name, sql⟩ with
        | true => simp [substantial, hblank] at hsome
        | false => simp [substantial, hblank]
      rw [List.mem_singleton.1 hturn, hsent]
      exact ⟨top, sql, htop, hfile, rfl⟩
  · have hplain : FilePath.isPlainName name = false := by
      rwa [← FilePath.isPlainName_iff, Bool.not_eq_true] at h
    rw [run_apply]
    simp [select, hplain]

theorem apply_named_trailing :
    FilePath.names (FilePath.join "seeds" "2_b.sql/./") = ["seeds", "2_b.sql"] ∧
    ExceptT.run (apply legacy half "seeds" (some "x/../2_b.sql")) =
      .done (.error (.invalidName "x/../2_b.sql")) := by
  obtain ⟨htaken, hinside, -⟩ := apply_named legacy half "seeds" "2_b.sql/./"
  obtain ⟨hrefused, -, houtside⟩ := apply_named legacy half "seeds" "x/../2_b.sql"
  have hnames := (hinside (htaken.1 (by decide))).1
  exact ⟨hnames.trans (by decide), houtside (fun h => absurd (hrefused.2 h) (by decide)) half⟩

end EngineMigrate.Seeds
