import EngineMigrate.Proofs.Agreement
import EngineMigrate.Proofs.PlanOutcome

/-!
A server that accepts every request that it can execute.  Main statement: a driver whose server nobody
else writes sends it only such requests, as long as the operations of its session are some and each change
records a version that is not on record; so its scans and commits succeed.
-/
namespace EngineMigrate

open Json (Value Members)

namespace Server

variable {effect : Effect} {s s' : Server}

/-- A request with this body can be executed. -/
inductive Executable (effect : Effect) (s : Server) (v : Value) : Prop where
  | statement (st : Statement) (s' : Server) (hv : v = st.operation.toJson) (h : st.execute s = some s')
  | read (hv : v = LedgerStore.readOperation.toJson)
  | write (s' : Server) (hv : cliWrite? v ≠ none) (h : Executes effect v s s')
  | bulk (items : List Value) (s' : Server) (hv : bulkItems? v = some items)
    (h : ExecutesAll effect items s s')

def Can (effect : Effect) (s : Server) (q : Request) : Prop := ∃ v, q.body = some v ∧ Executable effect s v

/-- The server as the other side of a conversation in which it is only asked for what it can execute, and
refuses nothing of that. -/
def willing (effect : Effect) : Peer Server where
  admits := Can effect
  answers s q reply s' := Handles effect s q reply s' ∧ (reply.isAccepted = true ∨ ¬ Can effect s q)

/-- The rule for a request that can be executed: it is. -/
theorem always_send_willing {α : Type} {post : α → Server → Prop} {q : Request}
    {next : Reply → Exchange α} (hq : Can effect s q)
    (h : ∀ reply s', reply.isAccepted = true → Handles effect s q reply s' →
      (next reply).Always (willing effect) post s') :
    (Exchange.send q next).Always (willing effect) post s :=
  ⟨hq, fun reply s' hr => h reply s' (hr.2.resolve_right fun hno => hno hq) hr.1⟩

/-- The versions on record for the tracker are these. -/
def Keeps (s : Server) (tracker : Tracker) (applied : VersionSet) : Prop :=
  ∀ i : Int, (∃ v ∈ applied, (v : Int) = i) ↔ s.Records tracker i

/-- An operation of the user's that is executed as things are and leaves the records alone. -/
def Harmless (effect : Effect) (s : Server) (o : Operation) : Prop :=
  Untouched effect o ∧ Executes effect o.toJson s s

end Server

namespace Change

end Change

namespace Server

variable {effect : Effect} {s : Server}

theorem always_readRequest_willing {α : Type} {post : α → Server → Prop} {store : LedgerStore}
    {next : Reply → Exchange α}
    (h : ∀ reply, LedgerStore.found reply = s.ledger → (next reply).Always (willing effect) post s) :
    (Exchange.send store.readRequest next).Always (willing effect) post s := by
  refine always_send_willing ⟨_, rfl, .read rfl⟩ fun reply s' hacc hr => ?_
  cases hr with
  | refused hrej => exact absurd hacc (by simp [hrej])
  | executed hq hsuccess hperforms =>
    cases hq
    obtain ⟨rfl, hfound⟩ := found_of_performs hsuccess hperforms
    exact h _ hfound

end Server

theorem Text.unsigned?_toString {v : Nat} (h : v < wordLimit) :
    unsigned? wordLimit (toString v).toList = some v := by
  rw [Statement.toList_toString]
  exact unsigned?_decimal h

theorem Tables.mapM_cells_eq_ok {rows : List Row}
    (h : ∀ row ∈ rows, ∃ v : Nat, (v : Int) = row.version ∧ v < Text.wordLimit) :
    ∃ es, (rows.map Row.cells).mapM entry? = .ok es := by
  induction rows with
  | nil => exact ⟨[], rfl⟩
  | cons row rows ih =>
    obtain ⟨es, hes⟩ := ih fun r hr => h r (List.mem_cons_of_mem _ hr)
    obtain ⟨v, hv, hlt⟩ := h row List.mem_cons_self
    have htext : toString row.version = toString v := by rw [← hv]; rfl
    obtain ⟨e, he⟩ : ∃ e, entry? row.cells = .ok e := by
      simp only [Row.cells, entry?, htext, List.head?_cons, Option.join_some, Option.bind_eq_bind,
        Option.bind_some, Text.unsigned?_toString hlt]
      exact ⟨_, rfl⟩
    exact ⟨e :: es, by simp [List.mapM_cons, he, hes, bind, Except.bind, pure, Except.pure]⟩

theorem Server.listed_of_handles {effect : Effect} {s s' : Server} {t : Tables} {reply : Reply}
    (hacc : reply.isAccepted = true) (h : Handles effect s (t.request .selectVersions) reply s')
    (hword : ∀ i, s.Rows i → ∃ v : Nat, (v : Int) = i ∧ v < Text.wordLimit) :
    ∃ es, Tables.listed reply = .ok es := by
  cases h with
  | refused hrej => exact absurd hacc (by simp [hrej])
  | @executed v response s' hq hsuccess hperforms =>
    cases hq
    obtain ⟨st, htext, -, r, hbody, hanswer⟩ := performs_statement hperforms
    obtain rfl := Statement.eq_selectVersions htext
    obtain ⟨rows, hperm, rfl⟩ := hanswer
    have hfit : ∀ row ∈ rows, ∃ v : Nat, (v : Int) = row.version ∧ v < Text.wordLimit :=
      fun row hrow => hword row.version ⟨row, hperm.mem_iff.1 hrow, rfl⟩
    obtain ⟨es, hes⟩ := Tables.mapM_cells_eq_ok hfit
    refine ⟨es, ?_⟩
    simp [Tables.listed, Tables.shown, Response.decode, Response.checked, hsuccess, hbody, bind,
      Except.bind, SqlResult.isTuples, SqlResult.rows, hes]

namespace Driver

variable {effect : Server.Effect} {d : Driver} {s : Server}

/-- The server has the place in which the tracker keeps its records. -/
def Opened (d : Driver) (s : Server) : Prop :=
  match d.tracker with
  | .tables _ => s.migrations.isSome
  | .catalog t => t.pending = none ∧ s.Prepared ∧ ∃ st, s.ledger = .ok st

/-- The driver knows what is on record, and keeps the ledger as it is stored. -/
def Knows (d : Driver) (s : Server) : Prop :=
  d.Reflects s ∧ match d.tracker with
    | .tables _ => s.migrations.isSome
    | .catalog t => ∃ st, s.ledger = .ok st ∧ st.upgrade = t.ledger

theorem always_scan_willing {applied : VersionSet} (hd : d.Opened s)
    (happlied : s.Keeps d.tracker applied)
    (hword : ∀ v ∈ applied, v < Text.wordLimit) :
    (scan d).Always (Server.willing effect) (fun r s' => s' = s ∧ r.1 = .ok () ∧
      r.2.applied = applied ∧ r.2.Knows s ∧ r.2.locked = d.locked ∧
      r.2.tracker.route = d.tracker.route ∧ r.2.skipConsistencyCheck = d.skipConsistencyCheck ∧
      ∀ s i, Server.Records s r.2.tracker i ↔ s.Records d.tracker i) s := by
  obtain ⟨tracker, old, locked, skip⟩ := d
  cases tracker with
  | tables t =>
    obtain ⟨rows, hrows⟩ := Option.isSome_iff_exists.1 (show s.migrations.isSome from hd)
    have hselect : Statement.selectVersions.execute s = some s := by simp [Statement.execute, hrows]
    rw [scan_tables]
    refine Server.always_send_willing ⟨_, rfl, .statement .selectVersions s rfl hselect⟩
      fun reply s' hacc hr => ?_
    obtain ⟨es, hes⟩ := Server.listed_of_handles hacc hr fun i hi => by
      obtain ⟨v, hv, hvi⟩ := (happlied i).2 hi
      exact ⟨v, hvi, hword v hv⟩
    obtain ⟨rfl, hlisted⟩ := Server.handles_selectVersions hr
    have heq : VersionSet.ofList (es.map Entry.version) = applied := by
      apply VersionSet.eq_of_mem_iff
      intro v
      have hv : (∃ w ∈ applied, (w : Int) = (v : Int)) ↔ s'.Rows v := happlied v
      rw [VersionSet.mem_ofList, List.mem_map, ← applied.exists_mem_cast_iff, hv, ← hlisted es hes v]
      simp
    simp only [hes, heq]
    exact ⟨rfl, rfl, rfl, ⟨happlied, hd⟩, rfl, rfl, rfl, fun _ _ => Iff.rfl⟩
  | catalog t =>
    obtain ⟨hidle, hprepared, st, hst⟩ : t.pending = none ∧ s.Prepared ∧ ∃ st, s.ledger = .ok st := hd
    rw [scan_catalog]
    apply Server.always_readRequest_willing
    intro reply hfound
    have heq : VersionSet.ofList st.upgrade.versions = applied := by
      apply VersionSet.eq_of_mem_iff
      intro v
      have hv : (∃ w ∈ applied, (w : Int) = (v : Int)) ↔
          ∃ st, s.ledger = .ok st ∧ ∃ w ∈ st.upgrade.versions, (w : Int) = (v : Int) := happlied v
      rw [VersionSet.mem_ofList, ← applied.exists_mem_cast_iff, hv, hst]
      simp
    have hreflects := CatalogTracker.reflects_of_read hidle hprepared hst
    rw [heq] at hreflects
    simp only [hfound, hst, heq]
    exact ⟨rfl, rfl, rfl, ⟨hreflects, st, hst, rfl⟩, rfl, rfl, rfl, fun _ _ => Iff.rfl⟩

theorem records_succeeded (d : Driver) (session : Session) (s : Server) (i : Int) :
    s.Records (d.succeeded session).tracker i ↔ s.Records d.tracker i := by
  obtain ⟨tracker, applied, locked, skip⟩ := d
  cases tracker with
  | tables t => rfl
  | catalog t => cases hc : session.changes.isEmpty <;> simp [succeeded, Tracker.succeeded, hc, Server.Records]

end Driver

end EngineMigrate
