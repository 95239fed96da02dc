import EngineMigrate.Project.Metadata
import EngineMigrate.Proofs.Conversation
import EngineMigrate.Proofs.JsonText
import EngineMigrate.Proofs.TreeGrowth

/-!
Metadata that is exported into a directory and applied from it.  Main statement: an export sends one request
and either leaves every file as it was, or saves what the server returned; and what was saved is what the
next application from that directory asks the server to take.
-/
namespace EngineMigrate

open Json (Value)

namespace Metadata

variable {m : Metadata} {directory : String} {t t' : FileTree}

def answered : Reply → Except MetadataFault Value
  | .error f => .error (.send f)
  | .ok response => response.json.mapError .api

/-- The reply is a success whose body says the value. -/
inductive Returns : Reply → Value → Prop where
  | body {response : Response} {v : Value} (h : response.status = 200)
    (hbody : Value.ofBytes? response.body = some v) : Returns (.ok response) v

/-- There is no reply, it is no success, or its body is no JSON. -/
inductive Fails : Reply → MetadataFault → Prop where
  | unsent (f : SendFault) : Fails (.error f) (.send f)
  | refused {response : Response} (h : response.status ≠ 200) :
    Fails (.ok response) (.api (.ofResponse response))
  | undecodable {response : Response} (h : response.status = 200)
    (hbody : Value.ofBytes? response.body = none) : Fails (.ok response) (.api .undecodable)

theorem answered_of_returns {reply : Reply} {v : Value} (h : Returns reply v) : answered reply = .ok v := by
  cases h with
  | body hstatus hbody =>
    simp [answered, Response.json, Response.decode, Response.checked, Response.isSuccess, hstatus, hbody, bind,
      Except.bind]

theorem answered_of_fails {reply : Reply} {e : MetadataFault} (h : Fails reply e) :
    answered reply = .error e := by
  cases h with
  | unsent f => rfl
  | refused h =>
    simp [answered, Response.json, Response.decode, Response.checked, Response.isSuccess, h, bind, Except.bind]
  | undecodable hstatus hbody =>
    simp [answered, Response.json, Response.decode, Response.checked, Response.isSuccess, hstatus, hbody, bind,
      Except.bind]

theorem returns_or_fails (reply : Reply) : (∃ v, Returns reply v) ∨ ∃ e, Fails reply e := by
  cases reply with
  | error f => exact .inr ⟨_, .unsent f⟩
  | ok response =>
    by_cases hstatus : response.status = 200
    · cases hbody : Value.ofBytes? response.body with
      | some v => exact .inl ⟨v, .body hstatus hbody⟩
      | none => exact .inr ⟨_, .undecodable hstatus hbody⟩
    · exact .inr ⟨_, .refused hstatus⟩

def request (m : Metadata) (action : String) (args : Value) : Request :=
  ⟨.post, m.path, some (.object [("args", args), ("type", .string action)])⟩

theorem toJson_plain (action : String) (args : Value) :
    (Operation.plain action args).toJson = .object [("args", args), ("type", .string action)] := by
  have hlt : "args" < "type" := by decide
  simp [Operation.toJson, Operation.fields, Operation.plain, Json.Members.ofList, Json.Members.insert,
    Json.Members.insertAll, hlt]

theorem run_call (action : String) (args : Value) : ExceptT.run (m.call (.plain action args)) =
    .send (m.request action args) fun reply => .done (answered reply) := by
  simp only [call, Attempt.run_bind, Attempt.run_within, Attempt.run_post, Attempt.run_ofExcept,
    Exchange.send_bind, Exchange.done_bind, toJson_plain, request]
  apply Exchange.send_congr
  intro reply
  cases reply <;> rfl

theorem exportTo_apply : m.exportTo directory t =
    .send (m.request "export_metadata" (.object [])) fun reply => .done (match answered reply with
      | .error e => (.error e, t)
      | .ok v => save v directory t) := by
  simp only [exportTo, fetch, Action.bind_apply, Action.ofAttempt_apply, run_call, Exchange.send_bind,
    Exchange.done_bind]
  apply Exchange.send_congr
  intro reply
  cases answered reply <;> rfl

theorem run_applyFrom : ExceptT.run (m.applyFrom directory t) = match load directory t with
    | .error e => .done (.error e)
    | .ok v => .send (m.request "replace_metadata" v) fun reply => .done ((answered reply).map fun _ => ()) := by
  simp only [applyFrom, apply, Attempt.run_bind, Attempt.run_ofExcept, Exchange.done_bind, run_call]
  cases load directory t with
  | error e => rfl
  | ok v =>
    simp only [mapError_ok, Exchange.send_bind, Exchange.done_bind]
    apply Exchange.send_congr
    intro reply
    cases answered reply <;> rfl

/-- The directory is there or can be made, and no other directory stands in the place of the file. -/
def HasRoom (t : FileTree) (directory : String) : Prop :=
  (t.ensureDirectory directory).1 = .ok () ∧
    ∃ l, (t.ensureDirectory directory).2.locate (FilePath.join directory fileName) = .ok l ∧
      (t.ensureDirectory directory).2.find? l ≠ some .directory

theorem exists_save_iff {v : Value} : (∃ path, (save v directory t).1 = .ok path) ↔ HasRoom t directory := by
  have hwrite : (∃ t', (t.ensureDirectory directory).2.writeText (FilePath.join directory fileName) v.pretty =
      .ok t') ↔ _ := FileTree.exists_writeText_iff
  rw [HasRoom, ← hwrite, save]
  obtain ⟨r, made⟩ := t.ensureDirectory directory
  cases r with
  | error f => simp
  | ok u =>
    simp only [true_and]
    cases made.writeText (FilePath.join directory fileName) v.pretty <;> simp

theorem load_of_save {v : Value} {path : String} (h : save v directory t = (.ok path, t'))
    (hv : v.Plain Json.depthLimit) : load directory t' = .ok v := by
  unfold save at h
  split at h
  · cases h
  · rename_i made hmade
    dsimp only at h
    split at h
    · cases h
    · rename_i written hwritten
      cases h
      obtain ⟨l, hl, hgains⟩ := FileTree.gains_of_writeText hwritten
      have hread : t'.readText (FilePath.join directory fileName) = .ok v.pretty :=
        FileTree.readText_eq_ok_iff.2 ⟨l, hgains.locate hl, hgains.written⟩
      have hexists : t'.exists? (FilePath.join directory fileName) = .ok true := by
        simp [FileTree.exists?, FileTree.entry, hgains.locate hl, hgains.written, bind, Except.bind]
      simp only [load, hexists, hread, Value.parse?_pretty hv]

/-- An export sends one request.  Where it fails every file stays as it was; where the server returns a value
that is saved, whatever was in the file before, an application from the same directory sends one request,
which asks the server to take just this value. -/
theorem applied_as_exported {log : List Turn} {r : Except MetadataFault String}
    (h : (m.exportTo directory t).Runs log (r, t')) :
    ∃ reply, log = [⟨m.request "export_metadata" (.object []), reply⟩] ∧
      ((∃ e, Fails reply e ∧ r = .error e ∧ t' = t) ∨
        ∃ v, Returns reply v ∧ ((∃ path, r = .ok path) ↔ HasRoom t directory) ∧
          (v.Whole → (∃ path, r = .ok path) → ∀ log r', (ExceptT.run (m.applyFrom directory t')).Runs log r' ↔
            ∃ reply, log = [⟨m.request "replace_metadata" v, reply⟩] ∧ r' = (answered reply).map fun _ => ())) := by
  rw [exportTo_apply] at h
  obtain ⟨reply, rest, rfl, rfl, hend⟩ := h
  refine ⟨reply, rfl, ?_⟩
  rcases returns_or_fails reply with ⟨v, hv⟩ | ⟨e, he⟩
  · rw [answered_of_returns hv] at hend
    have hend : save v directory t = (r, t') := hend
    refine .inr ⟨v, hv, ?_, fun hwhole hr log r' => ?_⟩
    · rw [← exists_save_iff (v := v), hend]
    · obtain ⟨path, rfl⟩ := hr
      have hplain : v.Plain Json.depthLimit := by
        cases hv with
        | body _ hbody => exact Value.plain_of_ofBytes? hbody hwhole
      rw [run_applyFrom, load_of_save hend hplain]
      constructor
      · rintro ⟨reply, rest, rfl, rfl, rfl⟩
        exact ⟨reply, rfl, rfl⟩
      · rintro ⟨reply, rfl, rfl⟩
        exact ⟨reply, [], rfl, rfl, rfl⟩
  · rw [answered_of_fails he] at hend
    cases hend
    exact .inl ⟨e, he, rfl, rfl⟩

/-- A directory with metadata of an earlier export. -/
def exportedBefore : FileTree :=
  ⟨[], [(["metadata"], .directory), (["metadata", "metadata.json"], .file "\x7b\x7d".toUTF8)]⟩

def threeSources : Value :=
  .object [("sources", .array [.string "a\nb", .null, .bool true]), ("version", .integer (-3))]

def threeSourcesReply : Reply :=
  .ok ⟨200, "\x7b\"version\": -3, \"sources\": [\"a\\nb\", null, true]\x7d".toUTF8⟩

/-- The value takes the place of the earlier one and is applied as it was returned. -/
theorem applied_as_exported_threeSources : ∃ path t',
    ((⟨"v1/metadata"⟩ : Metadata).exportTo "metadata" exportedBefore).Runs
      [⟨request ⟨"v1/metadata"⟩ "export_metadata" (.object []), threeSourcesReply⟩] (.ok path, t') ∧
    ∀ log r, (ExceptT.run ((⟨"v1/metadata"⟩ : Metadata).applyFrom "metadata" t')).Runs log r →
      ∃ reply, log = [⟨request ⟨"v1/metadata"⟩ "replace_metadata" threeSources, reply⟩] := by
  have hreturns : Returns threeSourcesReply threeSources := .body rfl (by decide +kernel)
  have hwhole : threeSources.Whole := by
    refine .object fun m hm => ?_
    rcases List.mem_cons.1 hm with rfl | hm
    · exact .array (by simp [Value.Whole.string, Value.Whole.null, Value.Whole.bool])
    · obtain rfl := List.mem_singleton.1 hm
      exact .integer _
  have hroom : HasRoom exportedBefore "metadata" :=
    ⟨by decide +kernel, ["metadata", "metadata.json"], by decide +kernel, by decide +kernel⟩
  obtain ⟨path, hpath⟩ := (exists_save_iff (v := threeSources)).2 hroom
  obtain ⟨t', hsave⟩ : ∃ t', save threeSources "metadata" exportedBefore = (.ok path, t') :=
    ⟨_, Prod.ext hpath rfl⟩
  have hrun : ((⟨"v1/metadata"⟩ : Metadata).exportTo "metadata" exportedBefore).Runs
      [⟨request ⟨"v1/metadata"⟩ "export_metadata" (.object []), threeSourcesReply⟩] (.ok path, t') := by
    rw [exportTo_apply]
    refine .cons ⟨rfl, ?_⟩
    rw [answered_of_returns hreturns]
    exact hsave
  refine ⟨path, t', hrun, fun log r hlog => ?_⟩
  obtain ⟨reply, hreply, hends⟩ := applied_as_exported hrun
  obtain rfl : threeSourcesReply = reply := congrArg Turn.reply (List.cons.inj hreply).1
  rcases hends with ⟨e, -, hr, -⟩ | ⟨v, hv, -, happlies⟩
  · cases hr
  · obtain rfl : v = threeSources :=
      Except.ok.inj ((answered_of_returns hv).symm.trans (answered_of_returns hreturns))
    obtain ⟨reply, hlog, -⟩ := (happlies hwhole ⟨path, rfl⟩ log r).1 hlog
    exact ⟨reply, hlog⟩

end Metadata

end EngineMigrate
