import EngineMigrate.Proofs.HonestServer
import EngineMigrate.Proofs.LedgerEntries
import EngineMigrate.Proofs.LedgerLayout
import EngineMigrate.Tracking.Tracker
import Mathlib.Data.List.Sort

/-!
What a server has on record.  In the tables it is the rows, which a look lists and the statements of
changes change as the changes do; in the catalog it is the ledger, which from the first write on can be
written again.
-/
namespace EngineMigrate

open Json (Value Members)

theorem VersionSet.exists_mem_cast_iff (a : VersionSet) (v : Nat) :
    (∃ w ∈ a, (w : Int) = (v : Int)) ↔ v ∈ a := by
  constructor
  · rintro ⟨w, hw, he⟩
    exact Int.ofNat.inj he ▸ hw
  · exact fun hv => ⟨v, hv, rfl⟩

theorem Text.eq_of_digits? {limit v : Nat} {cs : List Char} (h : digits? limit cs = some v) :
    digitsValue cs = v ∧ ∀ c ∈ cs, c.isDigit = true := by
  unfold digits? at h
  split at h
  · cases h
  · rename_i hc
    split at h
    · cases h
      simp only [Bool.or_eq_true, Bool.not_eq_true', not_or, Bool.not_eq_false] at hc
      exact ⟨rfl, List.all_eq_true.1 hc.2⟩
    · cases h

theorem Text.eq_of_unsigned?_toString {i : Int} {limit v : Nat}
    (h : unsigned? limit (toString i).toList = some v) : (v : Int) = i := by
  cases i with
  | ofNat n =>
    have htext : (toString (Int.ofNat n)).toList = decimal n := Statement.toList_toString n
    have hdigit : ∀ c ∈ decimal n, c.isDigit = true := fun c => isDigit_of_mem_decimal
    have hdigits : digits? limit (decimal n) = some v := by
      rw [htext] at h
      unfold unsigned? at h
      split at h
      · rename_i cs hcs
        exact absurd (hdigit '+' (by rw [hcs]; exact List.mem_cons_self)) (by decide)
      · exact h
    have hv := (eq_of_digits? hdigits).1
    rw [digitsValue_decimal] at hv
    exact congrArg Int.ofNat hv.symm
  | negSucc n =>
    have htext : (toString (Int.negSucc n)).toList = '-' :: decimal (n + 1) := by
      show ("-" ++ toString (n + 1)).toList = _
      rw [String.toList_append, Statement.toList_toString]
      rfl
    rw [htext] at h
    have hdigits : digits? limit ('-' :: decimal (n + 1)) = some v := h
    have hdash := (eq_of_digits? hdigits).2 '-' List.mem_cons_self
    exact absurd hdash (by decide)

theorem Tables.version_of_cells {row : Row} {e : Entry} (h : entry? row.cells = .ok e) :
    (e.version : Int) = row.version := by
  simp only [Row.cells, entry?, List.head?_cons, Option.join_some, Option.bind_eq_bind,
    Option.bind_some] at h
  split at h
  · rename_i v hv
    cases h
    exact Text.eq_of_unsigned?_toString hv
  · cases h

theorem Tables.mapM_cells {rows : List Row} {es : List Entry}
    (h : (rows.map Row.cells).mapM entry? = .ok es) (i : Int) :
    (∃ e ∈ es, (e.version : Int) = i) ↔ ∃ row ∈ rows, row.version = i := by
  induction rows generalizing es with
  | nil =>
    cases h
    simp
  | cons row rows ih =>
    simp only [List.map_cons, List.mapM_cons] at h
    cases he : entry? row.cells with
    | error e => simp [he, bind, Except.bind] at h
    | ok e =>
      cases hes : (rows.map Row.cells).mapM entry? with
      | error f => simp [he, hes, bind, Except.bind] at h
      | ok rest =>
        simp [he, hes, bind, Except.bind, pure, Except.pure] at h
        subst h
        have hv := version_of_cells he
        have hrest := ih hes
        simp only [List.mem_cons, exists_eq_or_imp, hv, hrest]

namespace Server

variable {effect : Effect}

/-- The versions in the table of versions. -/
def Rows (s : Server) (i : Int) : Prop := ∃ row ∈ s.migrations.getD [], row.version = i

theorem rows_insert {v : Nat} {s s' : Server} (h : (Statement.insert v).execute s = some s') (i : Int) :
    s'.Rows i ↔ i = v ∨ s.Rows i := by
  obtain ⟨rows, hrows, h⟩ := Option.bind_eq_some_iff.1 h
  split at h
  · cases h
  · cases h
    simp only [Rows, hrows, Option.getD_some, List.mem_append, List.mem_singleton]
    constructor
    · rintro ⟨row, hrow | rfl, rfl⟩
      · exact .inr ⟨row, hrow, rfl⟩
      · exact .inl rfl
    · rintro (rfl | ⟨row, hrow, rfl⟩)
      · exact ⟨_, .inr rfl, rfl⟩
      · exact ⟨row, .inl hrow, rfl⟩

theorem rows_delete {v : Nat} {s s' : Server} (h : (Statement.delete v).execute s = some s') (i : Int) :
    s'.Rows i ↔ s.Rows i ∧ i ≠ v := by
  obtain ⟨rows, hrows, rfl⟩ := Option.map_eq_some_iff.1 h
  simp only [Rows, hrows, Option.getD_some, List.mem_filter, bne_iff_ne]
  constructor
  · rintro ⟨row, ⟨hrow, hv⟩, rfl⟩
    exact ⟨⟨row, hrow, rfl⟩, hv⟩
  · rintro ⟨⟨row, hrow, rfl⟩, hv⟩
    exact ⟨row, ⟨hrow, hv⟩, rfl⟩

/-- A look at the versions changes nothing and lists the rows. -/
theorem handles_selectVersions {t : Tables} {s s' : Server} {reply : Reply}
    (h : Handles effect s (t.request .selectVersions) reply s') :
    s' = s ∧ ∀ es, Tables.listed reply = .ok es → ∀ i, (∃ e ∈ es, (e.version : Int) = i) ↔ s.Rows i := by
  rcases handles_statement h with ⟨st, htext, he, ha⟩ | ⟨rfl, hn⟩
  · obtain rfl := Statement.eq_selectVersions htext
    obtain ⟨rows, hrows, rfl⟩ := Option.map_eq_some_iff.1 he
    refine ⟨rfl, fun es hes i => ?_⟩
    unfold Tables.listed at hes
    cases hr : Tables.shown reply with
    | error e => simp [hr] at hes
    | ok r =>
      obtain ⟨listed, hperm, rfl⟩ := ha r hr
      simp only [hr, SqlResult.isTuples, SqlResult.rows, Option.getD_some, List.drop_one,
        List.tail_cons, BEq.rfl, if_true] at hes
      rw [Tables.mapM_cells hes]
      simp only [Rows, hperm.mem_iff]
  · refine ⟨rfl, fun es hes => ?_⟩
    unfold Tables.listed at hes
    cases hr : Tables.shown reply with
    | error e => simp [hr] at hes
    | ok r => exact absurd hr (hn r)

/-- The ledger is an object with a version, as every write leaves it. -/
def Prepared (s : Server) : Prop :=
  ∃ ms, s.cliState = some (.object ms) ∧ Members.get? "version" ms ≠ none

theorem Prepared.storable {s : Server} {st : StoredLedger} (h : s.Prepared) (hst : s.ledger = .ok st) :
    st.upgrade.Storable := by
  obtain ⟨ms, hms, hv⟩ := h
  rw [ledger, hms] at hst
  exact Ledger.storable_of_decode (s.ordered ms hms) hv hst

theorem prepared_of_write {s : Server} {l : Ledger} (h : s.cliState = some l.toJson)
    (hs : l.extra.Sorted) : s.Prepared := by
  refine ⟨l.members, h, ?_⟩
  rw [Ledger.get?_members hs, Ledger.get?_fields]
  simp [Ledger.entriesName, Ledger.settingsName]

theorem prepared_of_current {s : Server} {st : StoredLedger} (h : s.ledger = .ok st)
    (hc : st.needsUpgrade = false) : s.Prepared := by
  unfold ledger at h
  cases hs : s.cliState with
  | none =>
    rw [hs] at h
    cases h
    cases hc
  | some v =>
    rw [hs] at h
    cases v with
    | object ms =>
      refine ⟨ms, hs, ?_⟩
      rcases StoredLedger.decode_object h with ⟨l, rfl, -⟩ | ⟨l, v, -, -, hv, -⟩
      · cases hc
      · simp [hv]
    | null =>
      cases h
      cases hc
    | _ => cases h

/-- A ledger of the current layout can be written again as it is. -/
theorem plain_of_current {s : Server} {l : Ledger} (h : s.ledger = .ok (.current l)) : l.Plain := by
  unfold ledger at h
  cases hs : s.cliState with
  | none => simp [hs, StoredLedger.decode] at h
  | some v =>
    rw [hs] at h
    cases v with
    | object ms =>
      rcases StoredLedger.decode_object h with ⟨m, hm, -⟩ | ⟨m, v, hm, hread, hversion, hv⟩
      · cases hm
      · cases hm
        exact Ledger.plain_of_ofMembers? (s.ordered ms hs) hversion hv hread
    | _ => simp [StoredLedger.decode] at h

theorem sorted_extra {s : Server} {st : StoredLedger} (h : s.ledger = .ok st) :
    st.upgrade.extra.Sorted := by
  cases st with
  | current l => exact (plain_of_current h).sorted
  | legacy l =>
    unfold ledger at h
    cases hs : s.cliState with
    | none =>
      rw [hs] at h
      cases h
      exact Members.sorted_nil
    | some v =>
      rw [hs] at h
      cases v with
      | object ms =>
        rcases StoredLedger.decode_object h with ⟨m, hm, hl, -⟩ | ⟨m, v, hm, -⟩
        · cases hm
          have hextra := l.upgrade_spec.2.1.trans (LegacyLedger.extra_of_ofMembers? hl)
          rw [StoredLedger.upgrade, hextra]
          exact Members.sorted_filter (Members.sorted_filter (s.ordered ms hs) _) _
        · cases hm
      | null =>
        cases h
        exact Members.sorted_nil
      | _ => cases h

/-- The versions that the server has on record, for a tracker of either kind. -/
def Records (s : Server) : Tracker → Int → Prop
  | .tables _, i => s.Rows i
  | .catalog _, i => ∃ st, s.ledger = .ok st ∧ ∃ v ∈ st.upgrade.versions, (v : Int) = i

end Server

theorem Tables.items_stage (changes : List Change) (bulk : Bulk) :
    (stage changes bulk).items =
      bulk.items ++ changes.map fun c => ⟨operation (changeSql c), none⟩ := by
  unfold stage
  induction changes generalizing bulk with
  | nil => simp
  | cons c cs ih => simp [ih]

theorem Server.isSome_of_changes {effect : Effect} {changes : List Change} {s s' : Server}
    (h : ExecutesAll effect (changes.map fun c => (Tables.operation (Tables.changeSql c)).toJson) s s')
    (hs : s.migrations.isSome) : s'.migrations.isSome := by
  induction changes generalizing s with
  | nil =>
    cases h
    exact hs
  | cons c cs ih =>
    obtain _ | ⟨hc, hcs⟩ := h
    refine ih hcs ?_
    cases c with
    | record v name =>
      obtain ⟨st, htext, he⟩ := executes_statement (.insert v) hc
      obtain rfl := Statement.eq_insert htext
      obtain ⟨rows, -, he⟩ := Option.bind_eq_some_iff.1 he
      split at he <;> cases he
      rfl
    | erase v =>
      obtain ⟨st, htext, he⟩ := executes_statement (.delete v) hc
      obtain rfl := Statement.eq_delete htext
      obtain ⟨rows, -, rfl⟩ := Option.map_eq_some_iff.1 he
      rfl

/-- The statements of changes bring to the rows what the changes bring to the applied versions. -/
theorem Server.rows_of_changes {effect : Effect} {changes : List Change} {s s' : Server}
    {applied : VersionSet}
    (h : ExecutesAll effect (changes.map fun c => (Tables.operation (Tables.changeSql c)).toJson) s s')
    (hrows : ∀ i : Int, (∃ v ∈ applied, (v : Int) = i) ↔ s.Rows i) (i : Int) :
    (∃ v ∈ Change.applyAll applied changes, (v : Int) = i) ↔ s'.Rows i := by
  induction changes generalizing s applied with
  | nil =>
    cases h
    exact hrows i
  | cons c cs ih =>
    obtain _ | ⟨hc, hcs⟩ := h
    refine ih hcs fun j => ?_
    cases c with
    | record v name =>
      obtain ⟨st, htext, he⟩ := executes_statement (.insert v) hc
      obtain rfl := Statement.eq_insert htext
      rw [rows_insert he, ← hrows]
      simp only [Change.applyTo, VersionSet.mem_insert]
      constructor
      · rintro ⟨w, rfl | hw, rfl⟩
        · exact .inl rfl
        · exact .inr ⟨w, hw, rfl⟩
      · rintro (rfl | ⟨w, hw, rfl⟩)
        · exact ⟨v, .inl rfl, rfl⟩
        · exact ⟨w, .inr hw, rfl⟩
    | erase v =>
      obtain ⟨st, htext, he⟩ := executes_statement (.delete v) hc
      obtain rfl := Statement.eq_delete htext
      rw [rows_delete he, ← hrows]
      simp only [Change.applyTo, VersionSet.mem_erase]
      constructor
      · rintro ⟨w, ⟨hw, hne⟩, rfl⟩
        exact ⟨⟨w, hw, rfl⟩, by omega⟩
      · rintro ⟨⟨w, hw, rfl⟩, hne⟩
        exact ⟨w, ⟨hw, by omega⟩, rfl⟩

end EngineMigrate
