import EngineMigrate.Proofs.FailedCommit
import Mathlib.Data.List.Chain

/-!
The way of a commit to a server with data sources.  Its operations are cut into maximal runs of SQL and
of everything else, each for its own endpoint.  Main statement: nothing is lost, moved or sent the wrong
way, no order of the operations gets through with fewer batches, and the record comes last of all.
-/
namespace EngineMigrate

section

variable {α κ : Type} [DecidableEq κ] (key : α → κ)

theorem exists_runsBy_cons (a : α) (xs : List α) :
    ∃ run more, runsBy key (a :: xs) = (key a, run) :: more := by
  unfold runsBy
  split
  · exact ⟨_, _, rfl⟩
  · rename_i k run more _
    split
    · rename_i hk
      exact ⟨_, _, by rw [hk]⟩
    · exact ⟨_, _, rfl⟩

theorem isChain_runsBy (xs : List α) : (runsBy key xs).IsChain fun r r' => r.1 ≠ r'.1 := by
  induction xs with
  | nil => exact .nil
  | cons a rest ih =>
    unfold runsBy
    split
    · exact .singleton _
    · rename_i k run more h
      rw [h] at ih
      split
      · cases more with
        | nil => exact .singleton _
        | cons r more =>
          obtain ⟨hr, hmore⟩ := List.isChain_cons_cons.1 ih
          exact .cons_cons hr hmore
      · rename_i hk
        exact .cons_cons hk ih

/-- Items of one key in front add at most one run. -/
theorem length_runsBy_append_le {part : List α} (h : ∀ a ∈ part, ∀ b ∈ part, key a = key b)
    (rest : List α) : (runsBy key (part ++ rest)).length ≤ (runsBy key rest).length + 1 := by
  induction part with
  | nil => exact Nat.le_succ _
  | cons a part ih =>
    have hpart := ih fun b hb c hc => h b (List.mem_cons_of_mem _ hb) c (List.mem_cons_of_mem _ hc)
    cases part with
    | nil =>
      rw [List.cons_append, List.nil_append, runsBy]
      split
      · simp
      · rename_i k run more hr
        rw [hr]
        split <;> simp
    | cons b part =>
      -- The next item starts a run of the same key, which takes this one in.
      have hab : key a = key b := h a List.mem_cons_self b (by simp)
      obtain ⟨run, more, hr⟩ := exists_runsBy_cons key b (part ++ rest)
      rw [List.cons_append, hr] at hpart
      rw [List.cons_append, List.cons_append, runsBy, hr]
      simpa [hab] using hpart

/-- No cut into parts of one key each has fewer parts. -/
theorem length_runsBy_flatten_le {parts : List (List α)}
    (h : ∀ part ∈ parts, ∀ a ∈ part, ∀ b ∈ part, key a = key b) :
    (runsBy key parts.flatten).length ≤ parts.length := by
  induction parts with
  | nil => exact Nat.le_refl _
  | cons part parts ih =>
    have hpart := length_runsBy_append_le key (h part List.mem_cons_self) parts.flatten
    have hparts := ih fun p hp => h p (List.mem_cons_of_mem _ hp)
    simp only [List.flatten_cons, List.length_cons]
    omega

end

def Operation.RunsSql (o : Operation) : Prop := "run_sql".toList <:+ o.kind.toList

theorem Operation.isSql_iff {o : Operation} : o.isSql = true ↔ o.RunsSql := by
  rw [isSql, ← String.endsWith_toSlice, String.Slice.endsWith_string_iff]
  simp [RunsSql]

theorem Bulk.get?_request (b : Bulk) (source : Option String) (n : String) :
    (b.request source).get? n =
      if n = "source" then source.map .string
      else if n = "args" then some (.array (b.operations.map Operation.toJson))
      else if n = "type" then some (.string "bulk")
      else none := by
  cases source <;> by_cases hs : n = "source" <;>
    simp [request, Json.Value.ofMembers, Json.Value.get?, Json.Members.ofList, SqlArgs.member,
      Json.Members.get?_insert, hs]

namespace CatalogTracker

/-- The batches carry the items in order, each batch one kind of operation the way of that kind. -/
structure Routes (t : CatalogTracker) (items : List Staged) (bs : List Batch) : Prop where
  items_eq : bs.flatMap (fun b => b.bulk.items) = items
  ne_nil : ∀ b ∈ bs, b.bulk.items ≠ []
  sql : ∀ b ∈ bs, ∀ x ∈ b.bulk.items, x.operation.RunsSql →
    b.path = t.queryPath ∧
      b.request.get? "source" = some (.string (if t.source = "" then "default" else t.source))
  other : ∀ b ∈ bs, ∀ x ∈ b.bulk.items, ¬ x.operation.RunsSql →
    b.path = t.metadataPath ∧ b.request.get? "source" = none
  alternate : bs.IsChain fun b b' => ∀ x ∈ b.bulk.items, ∀ x' ∈ b'.bulk.items,
    (x.operation.RunsSql ↔ ¬ x'.operation.RunsSql)
  fewest : ∀ parts : List (List Staged), parts.flatten = items →
    (∀ part ∈ parts, ∀ x ∈ part, ∀ x' ∈ part, (x.operation.RunsSql ↔ x'.operation.RunsSql)) →
    bs.length ≤ parts.length

def batchOf (t : CatalogTracker) (r : Bool × List Staged) : Batch :=
  if r.1 then ⟨t.queryPath, t.route.bulkSource, ⟨r.2⟩⟩ else ⟨t.metadataPath, none, ⟨r.2⟩⟩

theorem batches_eq (t : CatalogTracker) (bulk : Bulk) :
    t.batches bulk = (runsBy (fun x => x.operation.isSql) bulk.items).map t.batchOf := by
  simp only [batches, Bulk.splitBy, List.map_map]
  rfl

@[simp] theorem items_batchOf (t : CatalogTracker) (r : Bool × List Staged) :
    (t.batchOf r).bulk.items = r.2 := by
  obtain ⟨sql, run⟩ := r
  cases sql <;> rfl

theorem bulkSource_route (t : CatalogTracker) :
    t.route.bulkSource = some (if t.source = "" then "default" else t.source) := by
  simp [route, SqlRoute.bulkSource, SqlRoute.named]

theorem routes_batches (t : CatalogTracker) (bulk : Bulk) : t.Routes bulk.items (t.batches bulk) := by
  have hkey : ∀ r ∈ runsBy (fun x : Staged => x.operation.isSql) bulk.items, ∀ x ∈ r.2,
      (r.1 = true ↔ x.operation.RunsSql) := fun r hr x hx => by
    rw [← key_of_mem_runsBy _ hr x hx, Operation.isSql_iff]
  have hmem : ∀ b ∈ t.batches bulk, ∃ r ∈ runsBy (fun x : Staged => x.operation.isSql) bulk.items,
      b = t.batchOf r ∧ b.bulk.items = r.2 := by
    intro b hb
    rw [batches_eq] at hb
    obtain ⟨r, hr, rfl⟩ := List.mem_map.1 hb
    exact ⟨r, hr, rfl, t.items_batchOf r⟩
  constructor
  case items_eq => exact t.items_batches bulk
  case ne_nil => exact fun b => t.items_ne_nil
  case sql =>
    intro b hb x hx hsql
    obtain ⟨r, hr, rfl, hitems⟩ := hmem b hb
    have hr := (hkey r hr x (hitems ▸ hx)).2 hsql
    simp [batchOf, hr, Batch.request, Bulk.get?_request, t.bulkSource_route]
  case other =>
    intro b hb x hx hother
    obtain ⟨r, hr, rfl, hitems⟩ := hmem b hb
    have hr : r.1 = false := Bool.eq_false_iff.2 fun h => hother ((hkey r hr x (hitems ▸ hx)).1 h)
    simp [batchOf, hr, Batch.request, Bulk.get?_request]
  case alternate =>
    rw [batches_eq, List.isChain_map]
    refine List.IsChain.imp_of_mem_imp (fun r r' hr hr' hne x hx x' hx' => ?_)
      (isChain_runsBy _ bulk.items)
    rw [items_batchOf] at hx hx'
    rw [← hkey r hr x hx, ← hkey r' hr' x' hx']
    cases h : r.1 <;> cases h' : r'.1 <;> simp_all
  case fewest =>
    intro parts hparts hone
    rw [batches_eq, List.length_map, ← hparts]
    refine length_runsBy_flatten_le _ fun part hp x hx x' hx' => ?_
    rw [Bool.eq_iff_iff, Operation.isSql_iff, Operation.isSql_iff]
    exact hone part hp x hx x' hx'

end CatalogTracker

namespace Driver

theorem items_withRecords (t : CatalogTracker) (s : Session) :
    ((Tracker.catalog t).withRecords s.changes s.bulk).items = s.bulk.items ++
      (if s.changes = [] then [] else [⟨LedgerStore.writeOperation (t.successor s.changes), none⟩]) := by
  cases hc : s.changes <;> simp [Tracker.withRecords]

/-- The turns of sending batches: all were accepted, or the last was not and decided the outcome. -/
theorem runs_sendBatches {bs : List Batch} {log : List Turn} {r : Except DriverFault Unit}
    (h : (ExceptT.run (sendBatches bs)).Runs log r) :
    (log.map Turn.request = bs.map Batch.toRequest ∧ r = .ok () ∧ ∀ t ∈ log, t.isAccepted = true) ∨
      ∃ accepted t sent b rest, log = accepted ++ [t] ∧ bs = sent ++ b :: rest ∧
        accepted.map Turn.request = sent.map Batch.toRequest ∧ t.request = b.toRequest ∧
        t.isAccepted = false ∧ r = outcome b t.reply := by
  induction bs generalizing log with
  | nil =>
    obtain ⟨rfl, rfl⟩ := h
    exact .inl ⟨rfl, rfl, by simp⟩
  | cons b bs ih =>
    rw [run_sendBatches_cons] at h
    obtain ⟨reply, log, rfl, h⟩ := h
    cases hs : reply.isAccepted with
    | true =>
      simp only [outcome_of_isAccepted hs] at h
      rcases ih h with ⟨hlog, hr, hall⟩ | ⟨accepted, t, sent, b', rest, rfl, rfl, hlog, ht, hno, hr⟩
      · exact .inl ⟨by simp [hlog], hr, List.forall_mem_cons.2 ⟨hs, hall⟩⟩
      · exact .inr ⟨⟨b.toRequest, reply⟩ :: accepted, t, b :: sent, b', rest, rfl, rfl,
          by simp [hlog], ht, hno, hr⟩
    | false =>
      obtain ⟨e, he⟩ := outcome_of_not_isAccepted (b := b) hs
      simp only [he] at h
      obtain ⟨rfl, rfl⟩ := h
      exact .inr ⟨[], ⟨b.toRequest, reply⟩, [], b, bs, rfl, rfl, rfl, rfl, hs, he.symm⟩

theorem runs_unlock {d d' : Driver} {s : Session} {log : List Turn} {r : Except DriverFault Unit}
    (hs : s.isEmpty = false) (h : (unlock s d).Runs log (r, d')) :
    ∃ look sent, log = look ++ sent ∧ look.map Turn.request = d.checkRequests s ∧
      ((sent = [] ∧ r ≠ .ok ()) ∨ (ExceptT.run (sendBatches (d.commitBatches s))).Runs sent r) := by
  obtain ⟨d'', hcommit, -⟩ := runs_unlock_iff.1 h
  rcases runs_commit hs hcommit with ⟨e, hlook, rfl, -⟩ | ⟨look, sent, rfl, hlook, hsent, -⟩
  · exact ⟨log, [], by simp, (always_check_log d s).of_runs hlook, .inl ⟨rfl, by simp⟩⟩
  · exact ⟨look, sent, rfl, (always_check_log d s).of_runs hlook, .inr hsent⟩

/-- The requests of a commit are the look at the ledger and the batches up to the first that is refused. -/
theorem requests_unlock {d d' : Driver} {s : Session} {log : List Turn} {r : Except DriverFault Unit}
    (hs : s.isEmpty = false) (h : (unlock s d).Runs log (r, d')) :
    ∃ sent, sent <+: d.commitBatches s ∧
      log.map Turn.request = d.checkRequests s ++ sent.map Batch.toRequest ∧
      (r = .ok () → sent = d.commitBatches s) := by
  obtain ⟨look, turns, rfl, hlook, ⟨rfl, hr⟩ | h⟩ := runs_unlock hs h
  · exact ⟨[], List.nil_prefix, by simp [hlook], fun hok => absurd hok hr⟩
  · rcases runs_sendBatches h with ⟨hlog, -, -⟩ | ⟨accepted, t, sent, b, rest, rfl, hsplit, hlog, ht, hno, hr⟩
    · exact ⟨d.commitBatches s, List.prefix_rfl, by simp [hlook, hlog], fun _ => rfl⟩
    · refine ⟨sent ++ [b], ⟨rest, by simp [hsplit]⟩, by simp [hlook, hlog, ht], fun hok => ?_⟩
      obtain ⟨e, he⟩ := outcome_of_not_isAccepted (b := b) hno
      rw [hr, he] at hok
      cases hok

/-- The way of a commit with data sources: which batches it is cut into, and that these are what it
sends. -/
theorem unlock_routed {d : Driver} {t : CatalogTracker} {s : Session} (ht : d.tracker = .catalog t)
    (hs : s.isEmpty = false) :
    t.Routes (s.bulk.items ++ (if s.changes = [] then [] else
      [⟨LedgerStore.writeOperation (t.successor s.changes), none⟩])) (d.commitBatches s) ∧
    (s.changes ≠ [] → ∃ sent last items, d.commitBatches s = sent ++ [last] ∧
      last.bulk.items = items ++ [⟨LedgerStore.writeOperation (t.successor s.changes), none⟩]) ∧
    ∀ log r d', (unlock s d).Runs log (r, d') → ∃ sent, sent <+: d.commitBatches s ∧
      log.map Turn.request = d.checkRequests s ++ sent.map Batch.toRequest ∧
      (r = .ok () → sent = d.commitBatches s) := by
  have hroutes := t.routes_batches ((Tracker.catalog t).withRecords s.changes s.bulk)
  rw [items_withRecords] at hroutes
  have hbatches : d.commitBatches s = t.batches ((Tracker.catalog t).withRecords s.changes s.bulk) := by
    rw [commitBatches, ht, Tracker.batches]
  rw [← hbatches] at hroutes
  refine ⟨hroutes, fun hc => ?_, fun log r d' => requests_unlock hs⟩
  obtain ⟨sent, last, hlast⟩ : ∃ sent last, d.commitBatches s = sent ++ [last] :=
    ⟨_, _, (List.dropLast_append_getLast (commitBatches_ne_nil hs)).symm⟩
  rcases commitBatches_cases ht hlast with ⟨-, hnone⟩ | ⟨-, -, items, -, hitems⟩
  · exact absurd (List.isEmpty_iff.1 (hnone rfl)) hc
  · exact ⟨sent, last, items, hlast, hitems⟩

/-- A session with metadata between two pieces of SQL, and a version to record. -/
def interleaved : Session where
  bulk := ⟨[⟨(SqlRoute.source "").operation (.ofSql "CREATE TABLE t ()"), some "1_t.up.sql"⟩,
    ⟨.plain "reload_metadata" (.object []), some "1_t.up.yaml"⟩,
    ⟨(SqlRoute.source "").operation (.ofSql "CREATE TABLE u ()"), some "2_u.up.sql"⟩]⟩
  changes := [.record 1 none, .record 2 none]
  route := .source ""
  skipConsistencyCheck := false

theorem unlock_routed_interleaved :
    ∃ t, onNoLedger.tracker = .catalog t ∧ interleaved.isEmpty = false ∧
      (onNoLedger.commitBatches interleaved).length = 4 ∧
      t.Routes (interleaved.bulk.items ++
        [⟨LedgerStore.writeOperation (t.successor interleaved.changes), none⟩])
        (onNoLedger.commitBatches interleaved) :=
  ⟨_, rfl, rfl, by decide +kernel, (unlock_routed (s := interleaved) rfl rfl).1⟩

end Driver

end EngineMigrate
