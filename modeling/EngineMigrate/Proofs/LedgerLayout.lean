import EngineMigrate.Json.Members
import EngineMigrate.Tracking.Change

/-!
Ledgers that are written and read again.  Main statements: a ledger whose further members name no field
reads back as itself, and what is read from a document with a version can be written again with the same
versions on record.
-/
namespace EngineMigrate

open Json (Value Members)

theorem Entry.ofJson?_toJson (e : Entry) : Entry.ofJson? e.toJson = some e := by
  obtain ⟨version, name, dirty⟩ := e
  cases name <;>
    simp [ofJson?, toJson, Value.ofMembers, Value.fields?, fieldNames, Members.ofList,
      Members.get?_insert, ofFields?, Value.optional, Value.orDefault, Value.string?, Value.bool?]

theorem Entry.mapM_ofJson?_toJson (es : List Entry) : es.mapM (ofJson? ∘ toJson) = some es := by
  induction es with
  | nil => rfl
  | cons e es ih => simp [List.mapM_cons, ofJson?_toJson, ih]

theorem Settings.ofJson?_toJson (s : Settings) : Settings.ofJson? s.toJson = some s := rfl

namespace Ledger

def fields (l : Ledger) : Members :=
  .ofList [("version", .nat l.version), ("revision", .nat l.revision.toNat),
    (entriesName, .array (l.entries.map Entry.toJson)), (settingsName, l.settings.toJson)]

def members (l : Ledger) : Members := l.fields.insertAll l.extra

theorem toJson_eq (l : Ledger) : l.toJson = .object l.members := rfl

theorem sorted_members (l : Ledger) : l.members.Sorted :=
  Members.sorted_insertAll (Members.sorted_ofList _)

theorem get?_fields (l : Ledger) (n : String) :
    Members.get? n l.fields =
      if n = settingsName then some l.settings.toJson
      else if n = entriesName then some (.array (l.entries.map Entry.toJson))
      else if n = "revision" then some (.nat l.revision.toNat)
      else if n = "version" then some (.nat l.version)
      else none := by
  simp only [fields, Members.ofList, List.foldl, Members.get?_insert, Members.get?_nil]

theorem get?_fields_other (l : Ledger) {n : String} (hn : n ∉ fieldNames) :
    Members.get? n l.fields = none := by
  have hne : n ≠ "version" ∧ n ≠ "revision" ∧ n ≠ entriesName ∧ n ≠ settingsName := by
    simpa [fieldNames] using hn
  simp [get?_fields, hne]

theorem get?_members {l : Ledger} (h : l.extra.Sorted) (n : String) :
    Members.get? n l.members = (Members.get? n l.extra).or (Members.get? n l.fields) :=
  Members.get?_insertAll h n

/-- None of the further members names a field. -/
structure Plain (l : Ledger) : Prop where
  version : l.version = layoutVersion
  sorted : l.extra.Sorted
  apart : ∀ n ∈ fieldNames, Members.get? n l.extra = none

/-- Can be written and read again, with the same versions on record. -/
structure Storable (l : Ledger) : Prop where
  sorted : l.extra.Sorted
  entries : Members.get? entriesName l.extra = none
  settings : Members.get? settingsName l.extra = none
  /-- A further member that is a null version makes it read as of the older layout. -/
  layout : (l.version = layoutVersion ∧ Members.get? "version" l.extra = none ∧
    Members.get? "revision" l.extra = none) ∨ Members.get? "version" l.extra = some .null

theorem ofMembers?_members {l : Ledger} (h : l.Plain) : ofMembers? l.members = some l := by
  have hget : ∀ n ∈ fieldNames, Members.get? n l.members = Members.get? n l.fields := fun n hn => by
    rw [get?_members h.sorted, h.apart n hn, Option.none_or]
  have hextra : l.members.filter (fun m => !fieldNames.contains m.1) = l.extra := by
    refine Members.ext (Members.sorted_filter l.sorted_members _) h.sorted fun n => ?_
    rw [Members.get?_filter (fun n => !fieldNames.contains n)]
    by_cases hn : n ∈ fieldNames
    · simp [hn, h.apart n hn]
    · simp [hn, get?_members h.sorted, l.get?_fields_other hn]
  simp only [ofMembers?, hget _ (show "version" ∈ fieldNames by decide),
    hget _ (show "revision" ∈ fieldNames by decide),
    hget _ (show entriesName ∈ fieldNames by decide),
    hget _ (show settingsName ∈ fieldNames by decide), hextra, get?_fields]
  simp [entriesName, settingsName, Value.orDefault, Value.array?, Entry.mapM_ofJson?_toJson,
    Settings.ofJson?_toJson]

/-- A ledger without members that name a field reads back as itself. -/
theorem decode_toJson {l : Ledger} (h : l.Plain) :
    StoredLedger.decode (some l.toJson) = .ok (.current l) := by
  have hversion : Members.get? "version" l.members = some (.integer layoutVersion) := by
    rw [get?_members h.sorted, h.apart _ (by decide), get?_fields]
    simp [entriesName, settingsName, h.version, Value.nat]
  have hnat : (Value.integer layoutVersion).nat? = some layoutVersion := rfl
  simp only [toJson_eq, StoredLedger.decode, hversion, hnat, if_true, ofMembers?_members h]
  rfl

theorem foldl_insert (es : List Entry) (l : Ledger) :
    (es.foldl insert l).version = l.version ∧ (es.foldl insert l).extra = l.extra ∧
      ∀ v, v ∈ (es.foldl insert l).versions ↔ v ∈ es.map Entry.version ∨ v ∈ l.versions := by
  induction es generalizing l with
  | nil => simp
  | cons e es ih =>
    obtain ⟨hv, he, hm⟩ := ih (l.insert e)
    refine ⟨hv, he, fun v => ?_⟩
    rw [List.foldl_cons, hm v, mem_versions_insert]
    simp only [List.map_cons, List.mem_cons]
    constructor
    · rintro (h | h | h) <;> simp [h]
    · rintro ((h | h) | h) <;> simp [h]

theorem Storable.congr {l m : Ledger} (h : l.Storable) (hv : m.version = l.version)
    (he : m.extra = l.extra) : m.Storable := by
  obtain ⟨hsorted, hentries, hsettings, hlayout⟩ := h
  exact ⟨he ▸ hsorted, he ▸ hentries, he ▸ hsettings, by rw [hv, he]; exact hlayout⟩

theorem Plain.congr {l m : Ledger} (h : l.Plain) (hv : m.version = l.version)
    (he : m.extra = l.extra) : m.Plain :=
  ⟨hv.trans h.version, he ▸ h.sorted, he ▸ h.apart⟩

theorem Plain.storable {l : Ledger} (h : l.Plain) : l.Storable :=
  ⟨h.sorted, h.apart _ (by decide), h.apart _ (by decide),
    .inl ⟨h.version, h.apart _ (by decide), h.apart _ (by decide)⟩⟩

theorem enterAll_version_extra (l : Ledger) (changes : List Change) :
    (Change.enterAll l changes).version = l.version ∧ (Change.enterAll l changes).extra = l.extra := by
  induction changes generalizing l with
  | nil => exact ⟨rfl, rfl⟩
  | cons c cs ih =>
    have hc : (c.enter l).version = l.version ∧ (c.enter l).extra = l.extra := by
      cases c <;> exact ⟨rfl, rfl⟩
    obtain ⟨hv, he⟩ := ih (c.enter l)
    exact ⟨hv.trans hc.1, he.trans hc.2⟩

theorem revision_enterAll (l : Ledger) (changes : List Change) :
    (Change.enterAll l changes).revision = l.revision := by
  induction changes generalizing l with
  | nil => rfl
  | cons c cs ih =>
    have hc : (c.enter l).revision = l.revision := by cases c <;> rfl
    exact (ih (c.enter l)).trans hc

end Ledger

theorem StoredLedger.decode_object {ms : Members} {st : StoredLedger}
    (h : decode (some (.object ms)) = .ok st) :
    (∃ l, st = .legacy l ∧ LegacyLedger.ofMembers? ms = some l ∧
      (Members.get? "version" ms = none ∨ Members.get? "version" ms = some .null)) ∨
    ∃ l v, st = .current l ∧ Ledger.ofMembers? ms = some l ∧ Members.get? "version" ms = some v ∧
      v.nat? = some Ledger.layoutVersion := by
  have hlegacy : ∀ l : Option LegacyLedger, (do return legacy (← orLayout l)) = .ok st →
      ∃ m, st = .legacy m ∧ l = some m := by
    intro l hl
    cases l with
    | none => cases hl
    | some m =>
      cases hl
      exact ⟨m, rfl, rfl⟩
  simp only [decode] at h
  split at h
  · rename_i hv
    obtain ⟨m, hst, hm⟩ := hlegacy _ h
    exact .inl ⟨m, hst, hm, .inl hv⟩
  · rename_i hv
    obtain ⟨m, hst, hm⟩ := hlegacy _ h
    exact .inl ⟨m, hst, hm, .inr hv⟩
  · rename_i v hnull hv
    split at h
    · rename_i n hn
      split at h
      · rename_i htwo
        cases hm : Ledger.ofMembers? ms with
        | none =>
          rw [hm] at h
          cases h
        | some m =>
          rw [hm] at h
          cases h
          exact .inr ⟨m, v, rfl, rfl, hv, htwo ▸ hn⟩
      · cases h
    · cases h

namespace LegacyLedger

theorem extra_of_ofMembers? {ms : Members} {l : LegacyLedger} (h : ofMembers? ms = some l) :
    l.extra = Members.erase Ledger.settingsName (Members.erase Ledger.entriesName ms) := by
  unfold ofMembers? at h
  repeat' split at h
  all_goals
    simp only [Option.bind_eq_bind, Option.bind_eq_some_iff] at h
    obtain ⟨entries, -, settings, -, h⟩ := h
    cases h
    rfl

theorem upgrade_spec (l : LegacyLedger) :
    l.upgrade.version = Ledger.layoutVersion ∧ l.upgrade.extra = l.extra ∧
      ∀ v, v ∈ l.upgrade.versions ↔ v ∈ l.entries.map Entry.version := by
  obtain ⟨hv, he, hm⟩ := Ledger.foldl_insert l.entries
    { Ledger.empty with settings := l.settings.getD Settings.default, extra := l.extra }
  refine ⟨hv, he, fun v => (hm v).trans ?_⟩
  simp [Ledger.versions, Ledger.empty]

theorem get?_extra (ms : Members) (n : String) :
    Members.get? n (Members.erase Ledger.settingsName (Members.erase Ledger.entriesName ms)) =
      if n = Ledger.settingsName ∨ n = Ledger.entriesName then none else Members.get? n ms := by
  simp only [Members.erase]
  rw [Members.get?_filter (fun k => k != Ledger.settingsName),
    Members.get?_filter (fun k => k != Ledger.entriesName)]
  by_cases hs : n = Ledger.settingsName <;> by_cases he : n = Ledger.entriesName <;> simp [hs, he]

end LegacyLedger

namespace Ledger

theorem plain_of_ofMembers? {ms : Members} {l : Ledger} {n : Value} (hs : Members.Sorted ms)
    (hv : Members.get? "version" ms = some n) (hn : n.nat? = some layoutVersion)
    (h : ofMembers? ms = some l) : l.Plain := by
  simp only [ofMembers?, hv, Option.bind_eq_bind, Option.bind_some, hn, Option.bind_eq_some_iff] at h
  obtain ⟨revision, -, entries, -, settings, -, h⟩ := h
  cases h
  refine ⟨rfl, Members.sorted_filter hs _, fun k hk => ?_⟩
  rw [Members.get?_filter (fun n => !fieldNames.contains n)]
  simp [hk]

/-- What is read from members with a version can be stored. -/
theorem storable_of_decode {ms : Members} {st : StoredLedger} (hs : Members.Sorted ms)
    (hv : Members.get? "version" ms ≠ none)
    (h : StoredLedger.decode (some (.object ms)) = .ok st) : st.upgrade.Storable := by
  rcases StoredLedger.decode_object h with ⟨l, rfl, hl, hver⟩ | ⟨l, v, rfl, hl, hver, hn⟩
  · have hnull := hver.resolve_left hv
    obtain ⟨-, hextra, -⟩ := l.upgrade_spec
    have hx := hextra.trans (LegacyLedger.extra_of_ofMembers? hl)
    refine ⟨?_, ?_, ?_, .inr ?_⟩
    · rw [StoredLedger.upgrade, hx]
      exact Members.sorted_filter (Members.sorted_filter hs _) _
    all_goals rw [StoredLedger.upgrade, hx, LegacyLedger.get?_extra]
    · simp
    · simp
    · simp [hnull, entriesName, settingsName]
  · exact (plain_of_ofMembers? hs hver hn hl).storable

/-- What is stored can be read again and written again, with the same versions on record. -/
theorem Storable.decode {l : Ledger} (h : l.Storable) :
    ∃ st, StoredLedger.decode (some l.toJson) = .ok st ∧ st.upgrade.Storable ∧
      ∀ v, v ∈ st.upgrade.versions ↔ v ∈ l.versions := by
  rcases h.layout with ⟨hversion, hv, hr⟩ | hnull
  · have hplain : l.Plain := by
      refine ⟨hversion, h.sorted, fun n hn => ?_⟩
      simp only [fieldNames, List.mem_cons, List.not_mem_nil, or_false] at hn
      rcases hn with rfl | rfl | rfl | rfl
      · exact hv
      · exact hr
      · exact h.entries
      · exact h.settings
    exact ⟨.current l, decode_toJson hplain, h, fun v => Iff.rfl⟩
  · have hversion : Members.get? "version" l.members = some .null := by
      rw [get?_members h.sorted, hnull, Option.some_or]
    have hentries : Members.get? entriesName l.members = some (.array (l.entries.map Entry.toJson)) := by
      rw [get?_members h.sorted, h.entries, Option.none_or, get?_fields]
      simp [entriesName, settingsName]
    have hsettings : Members.get? settingsName l.members = some l.settings.toJson := by
      rw [get?_members h.sorted, h.settings, Option.none_or, get?_fields]
      simp
    have hread : LegacyLedger.ofMembers? l.members = some ⟨l.entries, some l.settings,
        Members.erase settingsName (Members.erase entriesName l.members)⟩ := by
      have hs := Settings.ofJson?_toJson l.settings
      simp only [Settings.toJson, Value.ofMembers, Members.ofList, List.foldl, Members.insert] at hs hsettings
      simp [LegacyLedger.ofMembers?, hentries, hsettings, hs, Entry.mapM_ofJson?_toJson]
    have hdecode : StoredLedger.decode (some l.toJson) = .ok (.legacy ⟨l.entries, some l.settings,
        Members.erase settingsName (Members.erase entriesName l.members)⟩) := by
      simp only [toJson_eq, StoredLedger.decode, hversion, hread]
      rfl
    refine ⟨_, hdecode, storable_of_decode l.sorted_members (by simp [hversion]) hdecode, fun v => ?_⟩
    exact (LegacyLedger.upgrade_spec _).2.2 v

end Ledger

end EngineMigrate
