import EngineMigrate.Project.Seeds
import EngineMigrate.Proofs.Routing

/-!
Seeds on their way to the server.  All files that were selected are read, then those with SQL in them go out
as one bulk.  Main statement: the names that are given back are the names of what was sent exactly if no
file was passed over, or every one was.
-/
namespace EngineMigrate

open Json (Value)

/-- The SQL of the operations that a request carries, in order. -/
def Request.sqlTexts (q : Request) : List String :=
  match q.body >>= Value.get? "args" with
  | some (.array operations) =>
    operations.filterMap fun o => o.get? "args" >>= Value.get? "sql" >>= Value.string?
  | _ => []

structure Seed where
  name : String
  sql : String
deriving DecidableEq, Repr

namespace Seed

def isBlank (s : Seed) : Bool := Text.allBlank s.sql

def staged (route : SqlRoute) (s : Seed) : Staged := ⟨route.operation (.ofSql s.sql), some s.name⟩

end Seed

namespace Seeds

variable {t : FileTree} {directory : String} {file : Option String} {target : SeedTarget}
  {files names : List String} {seeds sent : List Seed} {log : List Turn}

/-- Reads the files in order, up to the first one that is no text. -/
def load (t : FileTree) (directory : String) (files : List String) : Except FileFault (List Seed) :=
  files.mapM fun name => (t.readText (FilePath.join directory name)).map (Seed.mk name)

def substantial (seeds : List Seed) : List Seed := seeds.filter fun s => !s.isBlank

theorem substantial_append (seeds rest : List Seed) :
    substantial (seeds ++ rest) = substantial seeds ++ substantial rest := List.filter_append seeds rest

def bulkOf (route : SqlRoute) (sent : List Seed) : Bulk := ⟨sent.map (Seed.staged route)⟩

def requestOf (target : SeedTarget) (sent : List Seed) : Request :=
  ⟨.post, target.path, some ((bulkOf target.route sent).request target.route.bulkSource)⟩

def outcome (target : SeedTarget) (sent : List Seed) (files : List String) :
    Reply → Except SeedFault (List String)
  | .error f => .error (.send f)
  | .ok response => match response.checked with
    | .ok _ => .ok files
    | .error f =>
      match (bulkOf target.route sent).blame?
        ((bulkOf target.route sent).request target.route.bulkSource) f with
      | some blame => .error (.failed blame)
      | none => .error (.api f)

theorem load_cons (name : String) : load t directory (name :: files) =
    t.readText (FilePath.join directory name) >>= fun sql =>
      load t directory files >>= fun seeds => .ok (⟨name, sql⟩ :: seeds) := by
  rw [load, List.mapM_cons]
  cases t.readText (FilePath.join directory name) <;> rfl

theorem load_eq_ok_iff : load t directory files = .ok seeds ↔ seeds.map Seed.name = files ∧
    ∀ s ∈ seeds, t.readText (FilePath.join directory s.name) = .ok s.sql := by
  induction files generalizing seeds with
  | nil =>
    have hnil : load t directory [] = .ok [] := rfl
    rw [hnil]
    constructor
    · rintro ⟨⟩
      exact ⟨rfl, nofun⟩
    · rintro ⟨hnames, -⟩
      rw [List.map_eq_nil_iff.1 hnames]
  | cons name files ih =>
    simp only [load_cons, bind_eq_ok_iff]
    constructor
    · rintro ⟨sql, hread, rest, hrest, ⟨⟩⟩
      obtain ⟨hnames, htexts⟩ := ih.1 hrest
      exact ⟨by rw [List.map_cons, hnames], List.forall_mem_cons.2 ⟨hread, htexts⟩⟩
    · rintro ⟨hnames, htexts⟩
      obtain ⟨s, rest, rfl, rfl, hrest⟩ := List.map_eq_cons_iff.1 hnames
      obtain ⟨hread, htexts⟩ := List.forall_mem_cons.1 htexts
      exact ⟨s.sql, hread, rest, ih.2 ⟨hrest, htexts⟩, rfl⟩

/-- A blank text leaves the bulk as it is, any other one goes to its end. -/
theorem stage_step (route : SqlRoute) (b : Bulk) (name : String) :
    (do
      let sql ← t.readText (FilePath.join directory name)
      if Text.allBlank sql then return b
      return b.append (route.operation (.ofSql sql)) (some name) : Except FileFault Bulk) =
    (t.readText (FilePath.join directory name)).map fun sql =>
      ⟨b.items ++ (substantial [⟨name, sql⟩]).map (Seed.staged route)⟩ := by
  cases t.readText (FilePath.join directory name) with
  | error f => rfl
  | ok sql =>
    by_cases hblank : Text.allBlank sql = true
    · simp [substantial, Seed.isBlank, hblank, bind, Except.bind, pure, Except.pure, Except.map]
    · simp [substantial, Seed.isBlank, Seed.staged, hblank, bind, Except.bind, pure, Except.pure,
        Except.map, Bulk.append]

theorem stage_eq (route : SqlRoute) : stage t directory route files =
    (load t directory files).map fun seeds => bulkOf route (substantial seeds) := by
  have hfold : ∀ b : Bulk, files.foldlM (fun b name =>
      (t.readText (FilePath.join directory name)).map fun sql =>
        (⟨b.items ++ (substantial [⟨name, sql⟩]).map (Seed.staged route)⟩ : Bulk)) b =
      (load t directory files).map fun seeds =>
        ⟨b.items ++ (substantial seeds).map (Seed.staged route)⟩ := by
    induction files with
    | nil =>
      intro b
      simp [load, substantial, pure, Except.pure, Except.map]
    | cons name files ih =>
      intro b
      rw [List.foldlM_cons, load_cons]
      cases t.readText (FilePath.join directory name) with
      | error f => rfl
      | ok sql =>
        refine (ih _).trans ?_
        cases load t directory files with
        | error f => rfl
        | ok rest =>
          have hsplit := substantial_append [⟨name, sql⟩] rest
          rw [List.singleton_append] at hsplit
          simp [bind, Except.bind, Except.map, hsplit]
  simp only [stage, stage_step]
  exact hfold .empty

/-- How the sending of seeds goes, with one request or none. -/
theorem run_apply : ExceptT.run (apply target t directory file) =
    match select t directory file with
    | .error f => .done (.error f)
    | .ok files => match load t directory files with
      | .error f => .done (.error (.files f))
      | .ok seeds =>
        if substantial seeds = [] then .done (.ok [])
        else .send (requestOf target (substantial seeds)) fun reply =>
          .done (outcome target (substantial seeds) files reply) := by
  simp only [apply, Attempt.run_bind, Attempt.run_ofExcept, mapError_id, Exchange.done_bind]
  cases select t directory file with
  | error f => rfl
  | ok files =>
    simp only [stage_eq]
    cases load t directory files with
    | error f => rfl
    | ok seeds =>
      simp only [Except.map, mapError_ok]
      by_cases hnone : substantial seeds = []
      · simp [hnone, bulkOf, Bulk.isEmpty]
      · have hsome : (bulkOf target.route (substantial seeds)).isEmpty = false := by
          simpa [bulkOf, Bulk.isEmpty] using hnone
        simp only [hsome, hnone, Bool.false_eq_true, if_false, Attempt.run_bind, Attempt.run_within,
          Attempt.run_post, Exchange.send_bind, Exchange.done_bind]
        refine Exchange.send_congr fun reply => ?_
        cases reply with
        | error f => rfl
        | ok response =>
          simp only [mapError_ok, outcome]
          cases response.checked with
          | ok _ => rfl
          | error f =>
            dsimp only
            cases (bulkOf target.route (substantial seeds)).blame?
              ((bulkOf target.route (substantial seeds)).request target.route.bulkSource) f <;> rfl

theorem outcome_eq_ok_iff {reply : Reply} :
    outcome target sent files reply = .ok names ↔ reply.isAccepted = true ∧ names = files := by
  cases reply with
  | error f => simp [outcome, Reply.isAccepted]
  | ok response =>
    cases haccepted : response.isSuccess with
    | true => simp [outcome, Response.checked, Reply.isAccepted, haccepted, eq_comm]
    | false =>
      have hfails : ∃ f, outcome target sent files (.ok response) = .error f := by
        simp only [outcome, Response.checked, haccepted, Bool.false_eq_true, if_false]
        split <;> exact ⟨_, rfl⟩
      obtain ⟨f, hf⟩ := hfails
      simp [hf, Reply.isAccepted, haccepted]

/-- Seeds that were applied were read, and sent with one request that was accepted if there was anything to
send. -/
theorem runs_apply_ok : (ExceptT.run (apply target t directory file)).Runs log (.ok names) ↔
    ∃ files seeds, select t directory file = .ok files ∧ load t directory files = .ok seeds ∧
      (substantial seeds = [] ∧ log = [] ∧ names = [] ∨
      substantial seeds ≠ [] ∧ names = files ∧ ∃ reply : Reply, reply.isAccepted = true ∧
        log = [⟨requestOf target (substantial seeds), reply⟩]) := by
  rw [run_apply]
  cases select t directory file with
  | error f => simp
  | ok files =>
    dsimp only
    cases hload : load t directory files with
    | error f => simp [hload]
    | ok seeds =>
      by_cases hnone : substantial seeds = []
      · simp [hload, hnone]
      · simp only [hnone, if_false]
        constructor
        · rintro ⟨reply, _, rfl, rfl, hend⟩
          obtain ⟨haccepted, rfl⟩ := outcome_eq_ok_iff.1 hend
          exact ⟨_, seeds, rfl, hload, .inr ⟨hnone, rfl, reply, haccepted, rfl⟩⟩
        · rintro ⟨_, seeds', ⟨⟩, hload', hcase⟩
          obtain rfl := Except.ok.inj (hload.symm.trans hload')
          obtain ⟨hsome, -⟩ | ⟨-, rfl, reply, haccepted, rfl⟩ := hcase
          · exact absurd hsome hnone
          · exact ⟨reply, [], rfl, rfl, outcome_eq_ok_iff.2 ⟨haccepted, rfl⟩⟩

theorem sqlTexts_requestOf (target : SeedTarget) (sent : List Seed) :
    (requestOf target sent).sqlTexts = sent.map Seed.sql := by
  have hsql : ∀ s : Seed, (((s.staged target.route).operation.toJson.get? "args").bind
      (Value.get? "sql")).bind Value.string? = some s.sql := by
    intro s
    have hargs : (s.staged target.route).operation.toJson.get? "args" =
        some (SqlArgs.ofSql s.sql).toJson := by
      cases target.route <;> exact Operation.get?_fields _ "args"
    rw [hargs]
    rfl
  have hargs : (requestOf target sent).body >>= Value.get? "args" =
      some (.array (sent.map fun s => (s.staged target.route).operation.toJson)) := by
    simp [requestOf, bulkOf, Bulk.operations, Bulk.get?_request]
  rw [Request.sqlTexts, hargs]
  simp [List.filterMap_map, hsql]

theorem names_substantial_iff : (substantial seeds).map Seed.name = seeds.map Seed.name ↔
    ∀ s ∈ seeds, s.isBlank = false := by
  constructor
  · intro h
    have hlength : (substantial seeds).length = seeds.length := by simpa using congrArg List.length h
    simpa using List.length_filter_eq_length_iff.1 hlength
  · intro h
    rw [substantial, List.filter_eq_self.2 (by simpa using h)]

/-- The names that are given back are the names of the seeds whose SQL was sent, in order, exactly if no file
that was selected is blank, or nothing was sent at all.  Otherwise the blank ones are named as well. -/
theorem apply_names_sent_iff (h : (ExceptT.run (apply target t directory file)).Runs log (.ok names)) :
    ∃ seeds : List Seed, select t directory file = .ok (seeds.map Seed.name) ∧
      (∀ s ∈ seeds, t.readText (FilePath.join directory s.name) = .ok s.sql) ∧
      (log = [] ∧ substantial seeds = [] ∧ names = [] ∨
        ∃ turn, log = [turn] ∧ turn.isAccepted = true ∧ turn.request.path = target.path ∧
          turn.request.sqlTexts = (substantial seeds).map Seed.sql ∧ substantial seeds ≠ [] ∧
          names = seeds.map Seed.name) ∧
      (names = (substantial seeds).map Seed.name ↔ log = [] ∨ ∀ s ∈ seeds, s.isBlank = false) := by
  obtain ⟨files, seeds, hfiles, hload, hcase⟩ := runs_apply_ok.1 h
  obtain ⟨rfl, htexts⟩ := load_eq_ok_iff.1 hload
  refine ⟨seeds, hfiles, htexts, ?_⟩
  obtain ⟨hnone, rfl, rfl⟩ | ⟨hsome, rfl, reply, haccepted, rfl⟩ := hcase
  · simp [hnone]
  · refine ⟨.inr ⟨_, rfl, haccepted, rfl, sqlTexts_requestOf target _, hsome, rfl⟩, ?_⟩
    rw [eq_comm, names_substantial_iff]
    simp

def half : FileTree :=
  ⟨[], [(["seeds"], .directory), (["seeds", "1_empty.sql"], .file "  ".toUTF8),
    (["seeds", "2_b.sql"], .file "SELECT 1".toUTF8)]⟩

def legacy : SeedTarget := ⟨"v1/query", .query⟩

def blank : Seed := ⟨"1_empty.sql", "  "⟩

def filled : Seed := ⟨"2_b.sql", "SELECT 1"⟩

def accepted : Reply := .ok ⟨200, "[]".toUTF8⟩

/-- A file that is named is sent alone, and it alone is named. -/
theorem apply_names_sent_alone :
    (ExceptT.run (apply legacy half "seeds" (some "2_b.sql"))).Runs
      [⟨requestOf legacy [filled], accepted⟩] (.ok ["2_b.sql"]) ∧
    ["2_b.sql"] = (substantial [filled]).map Seed.name := by
  have hselect : select half "seeds" (some "2_b.sql") = .ok ["2_b.sql"] := by decide +kernel
  have hload : load half "seeds" ["2_b.sql"] = .ok [filled] := by decide +kernel
  have hfilled : substantial [filled] = [filled] := by decide
  have hruns : (ExceptT.run (apply legacy half "seeds" (some "2_b.sql"))).Runs
      [⟨requestOf legacy [filled], accepted⟩] (.ok ["2_b.sql"]) := by
    rw [runs_apply_ok]
    refine ⟨_, _, hselect, hload, .inr ⟨by decide, rfl, accepted, by decide, ?_⟩⟩
    rw [hfilled]
  obtain ⟨seeds, hfiles, htexts, -, hiff⟩ := apply_names_sent_iff hruns
  have hseeds : load half "seeds" ["2_b.sql"] = .ok seeds :=
    load_eq_ok_iff.2 ⟨Except.ok.inj (hfiles.symm.trans hselect), htexts⟩
  obtain rfl := Except.ok.inj (hload.symm.trans hseeds)
  exact ⟨hruns, hiff.2 (.inr (by decide))⟩

theorem select_half : select half "seeds" none = .ok ["1_empty.sql", "2_b.sql"] := by
  have hchildren : half.children ["seeds"] = ["1_empty.sql", "2_b.sql"] := by
    show List.mergeSort ["1_empty.sql", "2_b.sql"] (fun a b => !decide (b < a)) = _
    exact List.mergeSort_of_pairwise (by decide)
  have hexists : half.exists? "seeds" = .ok true := by decide +kernel
  have hlocate : half.locate "seeds" = .ok ["seeds"] := by decide +kernel
  simp only [select, list, hexists, hlocate, hchildren, bind, Except.bind]
  decide +kernel

/-- The blank file is named with the one that was sent, though its text is not in the request. -/
theorem apply_names_blank :
    (ExceptT.run (apply legacy half "seeds" none)).Runs [⟨requestOf legacy [filled], accepted⟩]
      (.ok ["1_empty.sql", "2_b.sql"]) ∧
    half.readText "seeds/1_empty.sql" = .ok "  " ∧
    (requestOf legacy [filled]).sqlTexts = ["SELECT 1"] := by
  have hload : load half "seeds" ["1_empty.sql", "2_b.sql"] = .ok [blank, filled] := by decide +kernel
  have hsent : substantial [blank, filled] = [filled] := by decide
  refine ⟨?_, by decide +kernel, sqlTexts_requestOf legacy [filled]⟩
  rw [runs_apply_ok]
  refine ⟨_, _, select_half, hload, .inr ⟨by decide, rfl, accepted, by decide, ?_⟩⟩
  rw [hsent]

end Seeds

end EngineMigrate
