import EngineMigrate.Proofs.Conversation
import EngineMigrate.Proofs.Statement

/-!
The requests behind the tracking tables, one statement each.
-/
namespace EngineMigrate.Tables

def request (t : Tables) (st : Statement) : Request := ⟨.post, t.path, some st.operation.toJson⟩

def shown : Reply → Except TrackingFault SqlResult
  | .error f => .error (.send f)
  | .ok response => match response.decode SqlResult.ofBytes? with
    | .ok r => .ok r
    | .error f => .error (.api f)

theorem shown_of_body {body : ByteArray} {r : SqlResult} (h : SqlResult.ofBytes? body = some r) :
    shown (.ok ⟨200, body⟩) = .ok r := by
  have hs : Response.isSuccess ⟨200, body⟩ = true := rfl
  simp only [shown, Response.decode, Response.checked, hs, if_true, bind, Except.bind, h]

theorem shown_eq_ok {reply : Reply} {r : SqlResult} (h : shown reply = .ok r) :
    ∃ response, reply = .ok response ∧ response.isSuccess = true ∧
      SqlResult.ofBytes? response.body = some r := by
  cases reply with
  | error f => cases h
  | ok response =>
    simp only [shown, Response.decode, Response.checked, bind, Except.bind] at h
    cases hs : response.isSuccess with
    | false => simp [hs] at h
    | true =>
      cases hr : SqlResult.ofBytes? response.body with
      | none => simp [hs, hr] at h
      | some r' =>
        refine ⟨response, rfl, hs, ?_⟩
        simpa [hs, hr] using h

theorem run_runSql (t : Tables) (st : Statement) :
    ExceptT.run (t.runSql st.text) = .send (t.request st) fun reply => .done (shown reply) := by
  simp only [runSql, Attempt.run_bind, Attempt.run_within, Attempt.run_post, Attempt.run_ofExcept,
    Exchange.send_bind, Exchange.done_bind, request, Statement.operation]
  apply Exchange.send_congr
  intro reply
  cases reply with
  | error f => rfl
  | ok response =>
    simp only [shown]
    cases h : response.decode SqlResult.ofBytes? <;> simp [h]

/-- The applied migrations that the reply to a look at the versions lists. -/
def listed (reply : Reply) : Except TrackingFault (List Entry) :=
  match shown reply with
  | .error e => .error e
  | .ok r => if r.isTuples then r.rows.mapM entry? else .error (.api (.resultType r.resultType))

theorem listed_of_body {body : ByteArray} {r : SqlResult} (h : SqlResult.ofBytes? body = some r)
    (hr : r.isTuples = true) : listed (.ok ⟨200, body⟩) = r.rows.mapM entry? := by
  simp only [listed, shown_of_body h, hr, if_true]

theorem run_applied (t : Tables) :
    ExceptT.run t.applied = .send (t.request .selectVersions) fun reply => .done (listed reply) := by
  have hrun := t.run_runSql .selectVersions
  simp only [Statement.text] at hrun
  simp only [applied, Attempt.run_bind, hrun, Exchange.send_bind, Exchange.done_bind, listed]
  apply Exchange.send_congr
  intro reply
  cases shown reply with
  | error e => rfl
  | ok r => cases h : r.isTuples <;> simp [expect, h]

/-- What the reply to a count of a table shows: whether the table is there. -/
def counted (reply : Reply) : Except TrackingFault Bool :=
  match shown reply with
  | .error e => .error e
  | .ok r => if r.isTuples then .ok ((firstCell? r).any (· != "0"))
    else .error (.api (.resultType r.resultType))

theorem counted_of_body {body : ByteArray} {r : SqlResult} (h : SqlResult.ofBytes? body = some r)
    (hr : r.isTuples = true) : counted (.ok ⟨200, body⟩) = .ok ((firstCell? r).any (· != "0")) := by
  simp only [counted, shown_of_body h, hr, if_true]

def created (reply : Reply) : Except TrackingFault Unit :=
  match shown reply with
  | .error e => .error e
  | .ok r => if r.isCommand then .ok () else .error (.api (.resultType r.resultType))

theorem created_of_body {body : ByteArray} {r : SqlResult} (h : SqlResult.ofBytes? body = some r)
    (hr : r.isCommand = true) : created (.ok ⟨200, body⟩) = .ok () := by
  simp only [created, shown_of_body h, hr, if_true]

theorem run_expect (accepted : Bool) (r : SqlResult) :
    ExceptT.run (expect accepted r) =
      .done (if accepted then .ok () else .error (.api (.resultType r.resultType))) := by
  cases accepted <;> rfl

theorem run_ensureTable (t : Tables) (table : Table) :
    ExceptT.run (t.ensureTable table.name table.columns) = .send (t.request (.count table)) fun reply =>
      match counted reply with
      | .error e => .done (.error e)
      | .ok true => .done (.ok false)
      | .ok false => .send (t.request (.create table)) fun reply =>
        .done ((created reply).map fun _ => true) := by
  have hcount := t.run_runSql (.count table)
  have hcreate := t.run_runSql (.create table)
  simp only [Statement.text] at hcount hcreate
  simp only [ensureTable, Attempt.run_bind, hcount, run_expect, Exchange.send_bind, Exchange.done_bind]
  apply Exchange.send_congr
  intro reply
  simp only [counted]
  cases shown reply with
  | error e => rfl
  | ok r =>
    cases ht : r.isTuples with
    | false => simp [ht]
    | true =>
      cases hc : (firstCell? r).any (· != "0") with
      | true => simp [ht, hc]
      | false =>
        simp only [ht, hc, if_true, Exchange.done_bind, Bool.false_eq_true, if_false, Attempt.run_bind,
          hcreate, run_expect, Exchange.send_bind]
        apply Exchange.send_congr
        intro reply
        simp only [created]
        cases shown reply with
        | error e => rfl
        | ok r => cases hr : r.isCommand <;> simp [Except.map, hr]

theorem run_prepare (t : Tables) :
    ExceptT.run t.prepare =
      ExceptT.run (t.ensureTable (Table.name .migrations) (Table.columns .migrations)) >>= fun r =>
        match r with
        | .error e => .done (.error e)
        | .ok _ => ExceptT.run (t.ensureTable (Table.name .settings) (Table.columns .settings)) >>= fun r =>
          match r with
          | .error e => .done (.error e)
          | .ok false => .done (.ok ())
          | .ok true => .send (t.request (.storeSetting "migration_mode" Settings.defaultMode)) fun reply =>
            .done ((shown reply).map fun _ => ()) := by
  have hstore := t.run_runSql (.storeSetting "migration_mode" Settings.defaultMode)
  simp only [Statement.text] at hstore
  simp only [prepare, Attempt.run_bind]
  apply bind_congr
  intro r
  cases r with
  | error e => rfl
  | ok u =>
    apply bind_congr
    intro r
    cases r with
    | error e => rfl
    | ok new =>
      cases new with
      | false => rfl
      | true =>
        simp only [if_true, Settings.known, List.forIn_cons, List.forIn_nil, Attempt.run_bind, hstore,
          Exchange.send_bind, Exchange.done_bind]
        apply Exchange.send_congr
        intro reply
        cases shown reply <;> rfl

theorem run_getSetting (t : Tables) (name : String) :
    ExceptT.run (t.getSetting name) = match Settings.defaultOf name with
      | .error e => .done (.error e)
      | .ok default => .send (t.request (.selectSetting name)) fun reply =>
        .done ((shown reply).map fun r => (firstCell? r).getD default) := by
  have hrun := t.run_runSql (.selectSetting name)
  simp only [Statement.text] at hrun
  simp only [getSetting, Attempt.run_bind, Attempt.run_ofExcept, hrun]
  cases Settings.defaultOf name with
  | error e => rfl
  | ok default =>
    simp only [mapError_ok, Exchange.done_bind, Exchange.send_bind]
    apply Exchange.send_congr
    intro reply
    cases shown reply <;> rfl

theorem run_updateSetting (t : Tables) (name value : String) :
    ExceptT.run (t.updateSetting name value) = match Settings.defaultOf name with
      | .error e => .done (.error e)
      | .ok _ => .send (t.request (.storeSetting name value)) fun reply =>
        .done ((shown reply).map fun _ => ()) := by
  have hrun := t.run_runSql (.storeSetting name value)
  simp only [Statement.text] at hrun
  simp only [updateSetting, Attempt.run_bind, Attempt.run_ofExcept, hrun]
  cases Settings.defaultOf name with
  | error e => rfl
  | ok default =>
    simp only [mapError_ok, Exchange.done_bind, Exchange.send_bind]
    apply Exchange.send_congr
    intro reply
    cases shown reply <;> rfl

end EngineMigrate.Tables
