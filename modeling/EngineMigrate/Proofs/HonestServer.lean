import EngineMigrate.Proofs.LedgerTraffic
import EngineMigrate.Proofs.TablesTraffic

/-!
A server as far as trackers are concerned: its two tables and its ledger.  It executes a bulk as a whole
or not at all, and accepts a request exactly when it has executed it.  Main statements: what each request
of a tracker does to it, and what the reply shows.
-/
namespace EngineMigrate

open Json (Value Members)

structure Row where
  version : Int
  dirty : Bool

structure Server where
  /-- The rows of the table of versions, if there is one. -/
  migrations : Option (List Row)
  /-- The rows of the table of settings, if there is one. -/
  settings : Option (List (String × String))
  cliState : Option Value
  ordered : ∀ ms, cliState = some (.object ms) → Members.Sorted ms

namespace Server

def has (s : Server) : Table → Bool
  | .migrations => s.migrations.isSome
  | .settings => s.settings.isSome

/-- The ledger as the catalog shows it, in which null is as good as none. -/
def served (s : Server) : Option Value :=
  match s.cliState with
  | some .null => none
  | state => state

end Server

namespace Row

def cells (r : Row) : List (Option String) :=
  [some (toString r.version), some (if r.dirty then "t" else "f")]

end Row

namespace Statement

/-- What the statement does, unless it fails: the tables must be there, and a version is a primary key. -/
def execute : Statement → Server → Option Server
  | .count _, s => some s
  | .create .migrations, s => some { s with migrations := some (s.migrations.getD []) }
  | .create .settings, s => some { s with settings := some (s.settings.getD []) }
  | .selectVersions, s => s.migrations.map fun _ => s
  | .insert v, s => s.migrations.bind fun rows =>
    if rows.any (·.version == v) then none
    else some { s with migrations := some (rows ++ [⟨v, false⟩]) }
  | .delete v, s => s.migrations.map fun rows =>
    { s with migrations := some (rows.filter (·.version != v)) }
  | .selectSetting _, s => s.settings.map fun _ => s
  | .storeSetting name value, s => s.settings.map fun rows =>
    { s with settings := some (rows.filter (·.1 != name) ++ [(name, value)]) }

/-- What the statement answers; rows may come in any order. -/
def Answers (s : Server) (r : SqlResult) : Statement → Prop
  | .count t => r = ⟨"TuplesOk", some [[some "count"], [some (if s.has t then "1" else "0")]]⟩
  | .selectVersions => ∃ rows : List Row, rows.Perm (s.migrations.getD []) ∧
    r = ⟨"TuplesOk", some ([some "version", some "dirty"] :: rows.map Row.cells)⟩
  | .selectSetting name => ∃ rows : List (String × String),
    rows.Perm ((s.settings.getD []).filter (·.1 == name)) ∧
    r = ⟨"TuplesOk", some ([some "value"] :: rows.map fun row => [some row.2])⟩
  | _ => r = ⟨"CommandOk", none⟩

theorem has_of_answers {table : Table} {s : Server} {r : SqlResult}
    (h : (Statement.count table).Answers s r) :
    (Tables.firstCell? r).any (· != "0") = s.has table := by
  obtain rfl := h
  cases s.has table <;> decide

end Statement

/-- The ledger that an operation puts in place of the stored one. -/
def cliWrite? (v : Value) : Option Value :=
  if v.get? "type" = some (.string "set_catalog_state") ∧
      (v.get? "args" >>= Value.get? "type") = some (.string "cli") then
    v.get? "args" >>= Value.get? "state"
  else none

def bulkItems? (v : Value) : Option (List Value) :=
  if v.get? "type" = some (.string "bulk") then v.get? "args" >>= Value.array? else none

theorem Operation.get?_toJson_plain (kind : String) (args : Value) (n : String) :
    (Operation.plain kind args).toJson.get? n =
      if n = "args" then some args else if n = "type" then some (.string kind) else none := by
  have h := (Operation.plain kind args).get?_fields n
  by_cases hs : n = "source"
  · subst hs
    exact h
  · rw [if_neg hs] at h
    exact h

theorem Statement.get?_type (st : Statement) :
    st.operation.toJson.get? "type" = some (.string "run_sql") :=
  Operation.get?_toJson_plain "run_sql" _ "type"

theorem Statement.get?_sql (st : Statement) :
    (st.operation.toJson.get? "args" >>= Value.get? "sql") = some (.string st.text) := by
  have hargs := Operation.get?_toJson_plain "run_sql" (SqlArgs.ofSql st.text).toJson "args"
  exact congrArg (· >>= Value.get? "sql") hargs

theorem Statement.text_eq_of_toJson_eq {st st' : Statement}
    (h : st.operation.toJson = st'.operation.toJson) : st.text = st'.text := by
  have ht := st.get?_sql
  rw [h, st'.get?_sql] at ht
  simpa using ht.symm

theorem LedgerStore.get?_type_read :
    LedgerStore.readOperation.toJson.get? "type" = some (.string "get_catalog_state") :=
  Operation.get?_toJson_plain _ _ "type"

theorem LedgerStore.get?_type_write (l : Ledger) :
    (LedgerStore.writeOperation l).toJson.get? "type" = some (.string "set_catalog_state") :=
  Operation.get?_toJson_plain _ _ "type"

theorem get?_type_bulk (b : Bulk) (source : Option String) :
    (b.request source).get? "type" = some (.string "bulk") := by
  cases source <;> simp [Bulk.request, Value.ofMembers, Value.get?, Members.ofList, SqlArgs.member,
    Members.get?_insert]

theorem cliWrite?_writeOperation (l : Ledger) :
    cliWrite? (LedgerStore.writeOperation l).toJson = some l.toJson := by
  have hargs : (LedgerStore.writeOperation l).toJson.get? "args" =
      some (Value.ofMembers [("type", .string "cli"), ("state", l.toJson)]) :=
    Operation.get?_toJson_plain _ _ "args"
  have htype : (Value.ofMembers [("type", .string "cli"), ("state", l.toJson)]).get? "type" =
      some (.string "cli") := by
    simp [Value.ofMembers, Value.get?, Members.ofList, Members.get?_insert]
  have hstate : (Value.ofMembers [("type", .string "cli"), ("state", l.toJson)]).get? "state" =
      some l.toJson := by
    simp [Value.ofMembers, Value.get?, Members.ofList]
  simp [cliWrite?, LedgerStore.get?_type_write, hargs, htype, hstate]

theorem cliWrite?_eq_none {v : Value} {kind : String} (h : v.get? "type" = some (.string kind))
    (hk : kind ≠ "set_catalog_state") : cliWrite? v = none := by
  simp [cliWrite?, h, hk]

theorem bulkItems?_eq_none {v : Value} {kind : String} (h : v.get? "type" = some (.string kind))
    (hk : kind ≠ "bulk") : bulkItems? v = none := by
  simp [bulkItems?, h, hk]

theorem bulkItems?_request (b : Bulk) (source : Option String) :
    bulkItems? (b.request source) = some (b.operations.map Operation.toJson) := by
  have hargs : (b.request source).get? "args" = some (.array (b.operations.map Operation.toJson)) := by
    cases source <;> simp [Bulk.request, Value.ofMembers, Value.get?, Members.ofList, SqlArgs.member,
      Members.get?_insert]
  simp [bulkItems?, get?_type_bulk, hargs, Value.array?]

namespace Server

/-- What operations that are not a tracker's do to the tables and the ledger. -/
abbrev Effect := Value → Server → Server → Prop

variable (effect : Effect)

/-- The operation is executed. -/
inductive Executes (v : Value) (s s' : Server) : Prop where
  | statement (st : Statement) (hv : v = st.operation.toJson) (h : st.execute s = some s')
  | read (hv : v = LedgerStore.readOperation.toJson) (h : s' = s)
  | write (w : Value) (hv : cliWrite? v = some w) (hw : s'.cliState = some w)
    (hm : s'.migrations = s.migrations) (hs : s'.settings = s.settings)
  | other (hst : ∀ st : Statement, v ≠ st.operation.toJson)
    (hr : v ≠ LedgerStore.readOperation.toJson) (hw : cliWrite? v = none) (h : effect v s s')

/-- The operations are executed one after the other. -/
inductive ExecutesAll : List Value → Server → Server → Prop where
  | nil (s : Server) : ExecutesAll [] s s
  | cons {v : Value} {vs : List Value} {s s' s'' : Server} (h : Executes effect v s s')
    (hs : ExecutesAll vs s' s'') : ExecutesAll (v :: vs) s s''

/-- The request with this body is executed and answered. -/
inductive Performs (v : Value) (body : ByteArray) (s s' : Server) : Prop where
  | statement (st : Statement) (r : SqlResult) (hv : v = st.operation.toJson)
    (h : st.execute s = some s') (hb : SqlResult.ofBytes? body = some r) (hr : st.Answers s r)
  | read (c : Catalog) (hv : v = LedgerStore.readOperation.toJson) (h : s' = s)
    (hb : Catalog.ofBytes? body = some c) (hc : c.cliState = s.served)
  | write (hv : cliWrite? v ≠ none) (h : Executes effect v s s')
  | bulk (items : List Value) (hv : bulkItems? v = some items) (h : ExecutesAll effect items s s')

/-- A request is executed and accepted, or else refused with everything left as it was. -/
inductive Handles (s : Server) (q : Request) : Reply → Server → Prop where
  | executed {v : Value} {response : Response} {s' : Server} (hq : q.body = some v)
    (hr : response.isSuccess = true) (h : Performs effect v response.body s s') :
    Handles s q (.ok response) s'
  | refused {reply : Reply} (h : reply.isAccepted = false) : Handles s q reply s

def peer : Peer Server where
  admits _ _ := True
  answers := Handles effect

variable {effect}

theorem executes_statement (st : Statement) {s s' : Server}
    (h : Executes effect st.operation.toJson s s') :
    ∃ st' : Statement, st'.text = st.text ∧ st'.execute s = some s' := by
  cases h with
  | statement st' hv h => exact ⟨st', (Statement.text_eq_of_toJson_eq hv).symm, h⟩
  | read hv h =>
    have hk := st.get?_type
    rw [hv, LedgerStore.get?_type_read] at hk
    exact absurd hk (by simp)
  | write w hv hw hm hs =>
    rw [cliWrite?_eq_none st.get?_type (by decide)] at hv
    cases hv
  | other hst hr hw h => exact absurd rfl (hst st)

/-- A write of the ledger replaces it and nothing else. -/
theorem executes_write {l : Ledger} {s s' : Server}
    (h : Executes effect (LedgerStore.writeOperation l).toJson s s') :
    s'.cliState = some l.toJson ∧ s'.migrations = s.migrations ∧ s'.settings = s.settings := by
  cases h with
  | statement st hv h =>
    have hk := st.get?_type
    rw [← hv, LedgerStore.get?_type_write] at hk
    exact absurd hk (by simp)
  | read hv h =>
    have hk := LedgerStore.get?_type_write l
    rw [hv, LedgerStore.get?_type_read] at hk
    exact absurd hk (by simp)
  | write w hv hw hm hs =>
    rw [cliWrite?_writeOperation] at hv
    cases hv
    exact ⟨hw, hm, hs⟩
  | other hst hr hw h =>
    rw [cliWrite?_writeOperation] at hw
    cases hw

theorem performs_statement {st : Statement} {body : ByteArray} {s s' : Server}
    (h : Performs effect st.operation.toJson body s s') :
    ∃ st' : Statement, st'.text = st.text ∧ st'.execute s = some s' ∧
      ∃ r, SqlResult.ofBytes? body = some r ∧ st'.Answers s r := by
  cases h with
  | statement st' r hv h hb hr => exact ⟨st', (Statement.text_eq_of_toJson_eq hv).symm, h, r, hb, hr⟩
  | read c hv h hb hc =>
    have hk := st.get?_type
    rw [hv, LedgerStore.get?_type_read] at hk
    exact absurd hk (by simp)
  | write hv h => exact absurd (cliWrite?_eq_none st.get?_type (by decide)) hv
  | bulk items hv h =>
    rw [bulkItems?_eq_none st.get?_type (by decide)] at hv
    cases hv

theorem performs_read {body : ByteArray} {s s' : Server}
    (h : Performs effect LedgerStore.readOperation.toJson body s s') :
    s' = s ∧ ∃ c, Catalog.ofBytes? body = some c ∧ c.cliState = s.served := by
  cases h with
  | statement st r hv h hb hr =>
    have hk := st.get?_type
    rw [← hv, LedgerStore.get?_type_read] at hk
    exact absurd hk (by simp)
  | read c hv h hb hc => exact ⟨h, c, hb, hc⟩
  | write hv h => exact absurd (cliWrite?_eq_none LedgerStore.get?_type_read (by decide)) hv
  | bulk items hv h =>
    rw [bulkItems?_eq_none LedgerStore.get?_type_read (by decide)] at hv
    cases hv

theorem performs_write {l : Ledger} {body : ByteArray} {s s' : Server}
    (h : Performs effect (LedgerStore.writeOperation l).toJson body s s') :
    s'.cliState = some l.toJson ∧ s'.migrations = s.migrations ∧ s'.settings = s.settings := by
  have htype := LedgerStore.get?_type_write l
  cases h with
  | statement st r hv h hb hr =>
    rw [hv, st.get?_type] at htype
    exact absurd htype (by simp)
  | read c hv h hb hc =>
    rw [hv, LedgerStore.get?_type_read] at htype
    exact absurd htype (by simp)
  | write hv h => exact executes_write h
  | bulk items hv h =>
    rw [bulkItems?_eq_none htype (by decide)] at hv
    cases hv

theorem performs_batch {b : Batch} {body : ByteArray} {s s' : Server}
    (h : Performs effect b.request body s s') :
    ExecutesAll effect (b.bulk.operations.map Operation.toJson) s s' := by
  have htype := get?_type_bulk b.bulk b.source
  cases h with
  | statement st r hv h hb hr =>
    rw [← Batch.request, hv, st.get?_type] at htype
    exact absurd htype (by simp)
  | read c hv h hb hc =>
    rw [← Batch.request, hv, LedgerStore.get?_type_read] at htype
    exact absurd htype (by simp)
  | write hv h => exact absurd (cliWrite?_eq_none htype (by decide)) hv
  | bulk items hv h =>
    rw [Batch.request, bulkItems?_request] at hv
    cases hv
    exact h

/-- The ledger that a stored document is read as. -/
def ledger (s : Server) : Except CatalogFault StoredLedger := StoredLedger.decode s.cliState

theorem decode_served (s : Server) : StoredLedger.decode s.served = s.ledger := by
  unfold served ledger
  cases s.cliState with
  | none => rfl
  | some v => cases v <;> rfl

theorem found_of_performs {response : Response} {s s' : Server} (hr : response.isSuccess = true)
    (h : Performs effect LedgerStore.readOperation.toJson response.body s s') :
    s' = s ∧ LedgerStore.found (.ok response) = s.ledger := by
  obtain ⟨rfl, c, hb, hc⟩ := performs_read h
  refine ⟨rfl, ?_⟩
  simp only [LedgerStore.found, Response.decode, Response.checked, hr, if_true, bind, Except.bind, hb]
  rw [Catalog.ledger, hc, decode_served]

theorem handles_read {store : LedgerStore} {s s' : Server} {reply : Reply}
    (h : Handles effect s store.readRequest reply s') :
    s' = s ∧ ∀ st, LedgerStore.found reply = .ok st → s.ledger = .ok st := by
  cases h with
  | refused h =>
    refine ⟨rfl, fun st hst => ?_⟩
    obtain ⟨response, c, rfl, hs, -⟩ := LedgerStore.found_eq_ok hst
    exact absurd (hs.symm.trans h) (by simp)
  | executed hq hr h =>
    cases hq
    obtain ⟨rfl, hfound⟩ := found_of_performs hr h
    exact ⟨rfl, fun st hst => hfound.symm.trans hst⟩

theorem always_readRequest {α : Type} {post : α → Server → Prop} {store : LedgerStore}
    {next : Reply → Exchange α} {s : Server}
    (h : ∀ reply, (∀ st, LedgerStore.found reply = .ok st → s.ledger = .ok st) →
      (next reply).Always (peer effect) post s) :
    (Exchange.send store.readRequest next).Always (peer effect) post s := by
  refine ⟨trivial, fun reply s' hr => ?_⟩
  obtain ⟨rfl, hledger⟩ := handles_read hr
  exact h reply hledger

/-- A write that is accepted replaces the ledger; one that is refused changes nothing. -/
theorem handles_write {store : LedgerStore} {l : Ledger} {s s' : Server} {reply : Reply}
    (h : Handles effect s (store.writeRequest l) reply s') :
    (reply.isAccepted = true ∧ s'.cliState = some l.toJson ∧ s'.migrations = s.migrations ∧
      s'.settings = s.settings) ∨ (reply.isAccepted = false ∧ s' = s) := by
  cases h with
  | refused h => exact .inr ⟨h, rfl⟩
  | executed hq hr h =>
    cases hq
    exact .inl ⟨hr, performs_write h⟩

/-- A batch that is accepted is executed as a whole; one that is refused changes nothing. -/
theorem handles_batch {b : Batch} {s s' : Server} {reply : Reply}
    (h : Handles effect s ⟨.post, b.path, some b.request⟩ reply s') :
    (reply.isAccepted = true ∧
      ExecutesAll effect (b.bulk.operations.map Operation.toJson) s s') ∨
      (reply.isAccepted = false ∧ s' = s) := by
  cases h with
  | refused h => exact .inr ⟨h, rfl⟩
  | executed hq hr h =>
    cases hq
    exact .inl ⟨hr, performs_batch h⟩

theorem handles_statement {t : Tables} {st : Statement} {s s' : Server} {reply : Reply}
    (h : Handles effect s (t.request st) reply s') :
    (∃ st' : Statement, st'.text = st.text ∧ st'.execute s = some s' ∧
      ∀ r, Tables.shown reply = .ok r → st'.Answers s r) ∨
      (s' = s ∧ ∀ r, Tables.shown reply ≠ .ok r) := by
  cases h with
  | refused h =>
    refine .inr ⟨rfl, fun r hr => ?_⟩
    obtain ⟨response, rfl, hs, -⟩ := Tables.shown_eq_ok hr
    exact absurd (hs.symm.trans h) (by simp)
  | executed hq hr h =>
    cases hq
    obtain ⟨st', ht, he, r, hb, ha⟩ := performs_statement h
    refine .inl ⟨st', ht, he, fun r' hr' => ?_⟩
    obtain ⟨response, hresponse, -, hb'⟩ := Tables.shown_eq_ok hr'
    cases hresponse
    rw [hb] at hb'
    cases hb'
    exact ha

theorem executesAll_append {vs ws : List Value} {s s'' : Server}
    (h : ExecutesAll effect (vs ++ ws) s s'') :
    ∃ s', ExecutesAll effect vs s s' ∧ ExecutesAll effect ws s' s'' := by
  induction vs generalizing s with
  | nil => exact ⟨s, .nil s, h⟩
  | cons v vs ih =>
    cases h with
    | cons hv hs =>
      obtain ⟨s', hvs, hws⟩ := ih hs
      exact ⟨s', .cons hv hvs, hws⟩

theorem ExecutesAll.append {vs ws : List Value} {s s' s'' : Server} (h : ExecutesAll effect vs s s')
    (h' : ExecutesAll effect ws s' s'') : ExecutesAll effect (vs ++ ws) s s'' := by
  induction h with
  | nil s => exact h'
  | cons hv _ ih => exact .cons hv (ih h')

/-- What each operation keeps as it was, all of them keep. -/
theorem ExecutesAll.keeps {α : Type} {f : Server → α} {os : List Operation}
    (ho : ∀ o ∈ os, ∀ s s', Executes effect o.toJson s s' → f s' = f s) {s s' : Server}
    (h : ExecutesAll effect (os.map Operation.toJson) s s') : f s' = f s := by
  induction os generalizing s with
  | nil =>
    cases h
    rfl
  | cons o os ih =>
    cases h with
    | cons hv hs =>
      have hrest := ih (fun o h => ho o (List.mem_cons_of_mem _ h)) hs
      exact hrest.trans (ho o List.mem_cons_self _ _ hv)

variable (effect) in
/-- Executing the operation touches neither the tables nor the ledger. -/
def Untouched (o : Operation) : Prop := ∀ s s', Executes effect o.toJson s s' → s' = s

theorem ExecutesAll.eq_of_untouched {os : List Operation} (ho : ∀ o ∈ os, Untouched effect o)
    {s s' : Server} (h : ExecutesAll effect (os.map Operation.toJson) s s') : s' = s :=
  h.keeps (f := id) ho

end Server

end EngineMigrate
