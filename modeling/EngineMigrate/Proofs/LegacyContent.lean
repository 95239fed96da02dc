import EngineMigrate.Proofs.LedgerEntries
import EngineMigrate.Proofs.LedgerLayout

/-!
What ledgers of the older layout hold, whose keys may have any shape.  The reader is held against a
description of the document: which items of the list record which entries, and which mode the settings give.
Main statement: reading fails exactly where the description has nothing to offer, and the upgrade of what is
read has the last entry of each version, the mode, and every other member.
-/
namespace EngineMigrate

open Json (Value Members)

theorem Json.Value.nat?_eq_some_iff {v : Value} {n : Nat} : v.nat? = some n ↔ v = .nat n := by
  constructor
  · intro h
    cases v with
    | integer i =>
      simp only [Value.nat?] at h
      split at h
      · rename_i hi
        have hn : i.toNat = n := Option.some.inj h
        rw [← hn, Value.nat, Int.toNat_of_nonneg hi]
      · cases h
    | _ => cases h
  · rintro rfl
    exact Value.nat?_nat n

theorem Json.Value.bool?_eq_some_iff {v : Value} {b : Bool} : v.bool? = some b ↔ v = .bool b := by
  cases v <;> simp [Value.bool?]

theorem mapM_eq_none_iff {α β : Type} {f : α → Option β} {as : List α} :
    as.mapM f = none ↔ ∃ a ∈ as, f a = none := by
  induction as with
  | nil => simp
  | cons a as ih =>
    simp only [List.mapM_cons, List.mem_cons, exists_eq_or_imp, ← ih]
    cases f a <;> cases as.mapM f <;> simp

namespace Entry

/-- The fields of a document that hold an entry: the name may be left out or null, the flag left out if
it is not set. -/
structure Found (e : Entry) (version name dirty : Option Value) : Prop where
  version : version = some (.nat e.version)
  name : name = e.name.map .string ∨ e.name = none ∧ name = some .null
  dirty : dirty = some (.bool e.dirty) ∨ e.dirty = false ∧ dirty = none

theorem optional_string {v : Option Value} {n : Option String} :
    Value.optional Value.string? v = some n ↔ v = n.map .string ∨ n = none ∧ v = some .null := by
  cases v with
  | none => cases n <;> simp [Value.optional]
  | some v => cases v <;> cases n <;> simp [Value.optional, Value.string?]

theorem orDefault_bool {v : Option Value} {b : Bool} :
    Value.orDefault false Value.bool? v = some b ↔ v = some (.bool b) ∨ b = false ∧ v = none := by
  cases v with
  | none => simp [Value.orDefault, eq_comm]
  | some v => simp [Value.orDefault, Value.bool?_eq_some_iff]

theorem ofFields?_eq_some_iff {version name dirty : Option Value} {e : Entry} :
    ofFields? [version, name, dirty] = some e ↔ e.Found version name dirty := by
  simp only [ofFields?, Option.bind_eq_bind, Option.bind_eq_some_iff, Option.pure_def, Option.some.injEq,
    optional_string, orDefault_bool, Value.nat?_eq_some_iff]
  constructor
  · rintro ⟨_, ⟨_, rfl, rfl⟩, n, hn, b, hb, rfl⟩
    exact ⟨rfl, hn, hb⟩
  · rintro ⟨rfl, hn, hb⟩
    exact ⟨_, ⟨_, rfl, rfl⟩, _, hn, _, hb, rfl⟩

/-- The documents that record an entry: an object with its fields among others, or an array of the fields
in order, of which the last may be missing. -/
inductive RecordedIn (e : Entry) : Value → Prop
  | members {ms : Members}
    (h : e.Found (Members.get? "version" ms) (Members.get? "name" ms) (Members.get? "dirty" ms)) :
    e.RecordedIn (.object ms)
  | items {items : List Value} (hlength : items.length ≤ 3) (h : e.Found items[0]? items[1]? items[2]?) :
    e.RecordedIn (.array items)

theorem ofJson?_eq_some_iff {v : Value} {e : Entry} : ofJson? v = some e ↔ e.RecordedIn v := by
  cases v with
  | object ms =>
    have hfields : ofJson? (.object ms) =
        ofFields? [Members.get? "version" ms, Members.get? "name" ms, Members.get? "dirty" ms] := rfl
    rw [hfields, ofFields?_eq_some_iff]
    constructor
    · exact .members
    · intro h
      cases h
      assumption
  | array items =>
    by_cases hlength : items.length ≤ 3
    · have hfields : ofJson? (.array items) = ofFields? [items[0]?, items[1]?, items[2]?] := by
        match items, hlength with
        | [], _ => rfl
        | [_], _ => rfl
        | [_, _], _ => rfl
        | [_, _, _], _ => rfl
      rw [hfields, ofFields?_eq_some_iff]
      constructor
      · exact .items hlength
      · intro h
        cases h
        assumption
    · have hnone : ofJson? (.array items) = none := by
        simp [ofJson?, Value.fields?, fieldNames, Nat.not_le.1 hlength]
      rw [hnone]
      constructor
      · intro h
        cases h
      · intro h
        cases h
        contradiction
  | _ => constructor <;> intro h <;> cases h

theorem ofJson?_eq_none_iff {v : Value} : ofJson? v = none ↔ ∀ e : Entry, ¬ e.RecordedIn v := by
  simp only [Option.eq_none_iff_forall_ne_some, ne_eq, ofJson?_eq_some_iff]

/-- The entry is what the last item of its version records. -/
def LastIn (e : Entry) (items : List Value) : Prop :=
  ∃ before v after, items = before ++ v :: after ∧ e.RecordedIn v ∧
    ∀ w ∈ after, ∀ x : Entry, x.RecordedIn w → x.version ≠ e.version

theorem lastIn_cons {e : Entry} {v : Value} {items : List Value} :
    e.LastIn (v :: items) ↔ e.LastIn items ∨
      e.RecordedIn v ∧ ∀ w ∈ items, ∀ x : Entry, x.RecordedIn w → x.version ≠ e.version := by
  constructor
  · rintro ⟨before, w, after, hitems, hw, hlast⟩
    cases before with
    | nil =>
      cases hitems
      exact .inr ⟨hw, hlast⟩
    | cons u before =>
      cases hitems
      exact .inl ⟨before, w, after, rfl, hw, hlast⟩
  · rintro (⟨before, w, after, rfl, hw, hlast⟩ | ⟨hv, hlast⟩)
    · exact ⟨v :: before, w, after, rfl, hw, hlast⟩
    · exact ⟨[], v, items, rfl, hv, hlast⟩

end Entry

namespace Ledger

theorem Ascending.insertAll {l : Ledger} (h : l.Ascending) (es : List Entry) :
    (es.foldl Ledger.insert l).Ascending := by
  induction es generalizing l with
  | nil => exact h
  | cons e es ih => exact ih (h.insert e)

theorem insertAll_eq (l : Ledger) (es : List Entry) :
    es.foldl Ledger.insert l = { l with entries := (es.foldl Ledger.insert l).entries } := by
  induction es generalizing l with
  | nil => rfl
  | cons e es ih => exact ih (l.insert e)

/-- What is on record once the entries of a list are entered one after the other: the last one of each
version, and of the others what was there before. -/
theorem mem_entries_insertAll {items : List Value} {es : List Entry} (h : items.mapM Entry.ofJson? = some es)
    (l : Ledger) (e : Entry) :
    e ∈ (es.foldl Ledger.insert l).entries ↔ e.LastIn items ∨
      e ∈ l.entries ∧ ∀ v ∈ items, ∀ x : Entry, x.RecordedIn v → x.version ≠ e.version := by
  induction items generalizing es l with
  | nil =>
    rw [List.mapM_nil] at h
    obtain rfl : [] = es := Option.some.inj h
    have hnone : ¬ e.LastIn [] := by
      rintro ⟨before, v, after, hitems, -⟩
      simp at hitems
    simp [hnone]
  | cons v items ih =>
    simp only [List.mapM_cons, Option.bind_eq_bind, Option.bind_eq_some_iff, Option.pure_def,
      Option.some.injEq] at h
    obtain ⟨x, hx, rest, hrest, rfl⟩ := h
    have hv : ∀ y : Entry, y.RecordedIn v ↔ y = x := fun y => by
      rw [← Entry.ofJson?_eq_some_iff, hx, Option.some.injEq, eq_comm]
    rw [List.foldl_cons, ih hrest, mem_entries_insert, Entry.lastIn_cons]
    simp only [List.forall_mem_cons, hv, forall_eq]
    grind

end Ledger

theorem Settings.mode?_eq_none_iff {v : Value} :
    Settings.mode? v = none ↔ (∀ s, v ≠ .string s) ∧ ∀ b, v ≠ .bool b := by
  cases v with
  | bool b => cases b <;> simp [Settings.mode?]
  | _ => simp [Settings.mode?]

namespace LegacyLedger

/-- The mode that the members of a document give: the one in the settings, of a truth value its name, and
the default where there are no settings or no mode in them. -/
inductive Mode (ms : Members) : String → Prop
  | text {fs : Members} {m : String} (hsettings : Members.get? Ledger.settingsName ms = some (.object fs))
    (hmode : Members.get? "migration_mode" fs = some (.string m)) : Mode ms m
  | truth {fs : Members} {b : Bool} (hsettings : Members.get? Ledger.settingsName ms = some (.object fs))
    (hmode : Members.get? "migration_mode" fs = some (.bool b)) : Mode ms (if b then "true" else "false")
  | silent {fs : Members} (hsettings : Members.get? Ledger.settingsName ms = some (.object fs))
    (hmode : Members.get? "migration_mode" fs = none) : Mode ms Settings.defaultMode
  | absent (hsettings : ∀ fs, Members.get? Ledger.settingsName ms ≠ some (.object fs)) :
    Mode ms Settings.defaultMode

def items (ms : Members) : List Value :=
  match Members.get? Ledger.entriesName ms with
  | some (.array items) => items
  | _ => []

def mode? (ms : Members) : Option String :=
  match Members.get? Ledger.settingsName ms with
  | some (.object fs) =>
    Value.orDefault Settings.defaultMode Settings.mode? (Members.get? "migration_mode" fs)
  | _ => some Settings.defaultMode

theorem mode?_eq_some_iff {ms : Members} {m : String} : mode? ms = some m ↔ Mode ms m := by
  constructor
  · intro h
    unfold mode? at h
    split at h
    · rename_i fs hsettings
      cases hmode : Members.get? "migration_mode" fs with
      | none =>
        rw [hmode] at h
        cases h
        exact .silent hsettings hmode
      | some v =>
        rw [hmode] at h
        cases v with
        | bool b => cases b <;> cases h <;> exact .truth hsettings hmode
        | string s =>
          cases h
          exact .text hsettings hmode
        | _ => cases h
    · rename_i hsettings
      cases h
      exact .absent hsettings
  · intro h
    cases h with
    | text hsettings hmode => simp [mode?, hsettings, hmode, Value.orDefault, Settings.mode?]
    | @truth fs b hsettings hmode =>
      cases b <;> simp [mode?, hsettings, hmode, Value.orDefault, Settings.mode?]
    | silent hsettings hmode => simp [mode?, hsettings, hmode, Value.orDefault]
    | absent hsettings =>
      unfold mode?
      split
      · rename_i fs hfs
        exact absurd hfs (hsettings fs)
      · rfl

/-- The settings that are read: those that are empty or no object are none. -/
def settings? (ms : Members) : Option (Option Settings) :=
  match Members.get? Ledger.settingsName ms with
  | some (.object (m :: rest)) => (Settings.ofJson? (.object (m :: rest))).map some
  | _ => some none

theorem map_settings? (ms : Members) :
    (settings? ms).map (fun s => s.getD Settings.default) = (mode? ms).map Settings.mk := by
  unfold settings? mode?
  cases Members.get? Ledger.settingsName ms with
  | none => rfl
  | some v =>
    cases v with
    | object fs =>
      cases fs with
      | nil => rfl
      | cons m rest =>
        show ((Settings.ofJson? (.object (m :: rest))).map some).map _ =
          Settings.ofJson? (.object (m :: rest))
        rw [Option.map_map]
        exact Option.map_id'
    | _ => rfl

theorem ofMembers?_eq (ms : Members) : ofMembers? ms = do
    let es ← (items ms).mapM Entry.ofJson?
    let s ← settings? ms
    return ⟨es, s, Members.erase Ledger.settingsName (Members.erase Ledger.entriesName ms)⟩ := by
  have hsettings : ∀ next : Option Settings → Option LegacyLedger,
      (match Members.get? Ledger.settingsName ms with
        | some (.object (m :: rest)) => (Settings.ofJson? (.object (m :: rest))).map some >>= next
        | _ => some none >>= next) = settings? ms >>= next := by
    intro next
    unfold settings?
    cases Members.get? Ledger.settingsName ms with
    | none => rfl
    | some v => cases v with
      | object fs => cases fs <;> rfl
      | _ => rfl
  have hitems : ∀ next : List Entry → Option LegacyLedger,
      (match Members.get? Ledger.entriesName ms with
        | some (.array items) => items.mapM Entry.ofJson? >>= next
        | _ => some [] >>= next) = (items ms).mapM Entry.ofJson? >>= next := by
    intro next
    unfold items
    cases Members.get? Ledger.entriesName ms with
    | none => rfl
    | some v => cases v <;> rfl
  exact (hitems _).trans (congrArg _ (funext fun es => hsettings _))

theorem map_upgrade_ofMembers? (ms : Members) :
    (ofMembers? ms).map upgrade = do
      let es ← (items ms).mapM Entry.ofJson?
      let m ← mode? ms
      return es.foldl Ledger.insert ⟨Ledger.layoutVersion, 0, [], ⟨m⟩,
        Members.erase Ledger.settingsName (Members.erase Ledger.entriesName ms)⟩ := by
  have hmode := map_settings? ms
  rw [ofMembers?_eq]
  cases (items ms).mapM Entry.ofJson? with
  | none => rfl
  | some es =>
    cases hs : settings? ms with
    | none =>
      rw [hs, Option.map_none, eq_comm, Option.map_eq_none_iff] at hmode
      rw [hmode]
      rfl
    | some s =>
      rw [hs, Option.map_some, eq_comm, Option.map_eq_some_iff] at hmode
      obtain ⟨m, hm, hmk⟩ := hmode
      simp only [hm, Option.bind_eq_bind, Option.bind_some, Option.pure_def, Option.map_some, upgrade,
        ← hmk]
      rfl

theorem mode?_eq_none_iff {ms : Members} : mode? ms = none ↔
    ∃ fs v, Members.get? Ledger.settingsName ms = some (.object fs) ∧
      Members.get? "migration_mode" fs = some v ∧ (∀ s, v ≠ .string s) ∧ ∀ b, v ≠ .bool b := by
  constructor
  · intro h
    unfold mode? at h
    split at h
    · rename_i fs hsettings
      cases hmode : Members.get? "migration_mode" fs with
      | none => simp [hmode, Value.orDefault] at h
      | some v =>
        have hread : Settings.mode? v = none := by simpa [hmode, Value.orDefault] using h
        exact ⟨fs, v, hsettings, hmode, Settings.mode?_eq_none_iff.1 hread⟩
    · cases h
  · rintro ⟨fs, v, hsettings, hmode, hv⟩
    simp [mode?, hsettings, hmode, Value.orDefault, Settings.mode?_eq_none_iff.2 hv]

/-- Some item of the list is no entry, or the settings have something in the place of the mode that is
neither a text nor a truth value. -/
def Unreadable (ms : Members) : Prop :=
  (∃ v ∈ items ms, ∀ e : Entry, ¬ e.RecordedIn v) ∨
  ∃ fs v, Members.get? Ledger.settingsName ms = some (.object fs) ∧
    Members.get? "migration_mode" fs = some v ∧ (∀ s, v ≠ .string s) ∧ ∀ b, v ≠ .bool b

theorem ofMembers?_eq_none_iff (ms : Members) : ofMembers? ms = none ↔ Unreadable ms := by
  have hitems : (items ms).mapM Entry.ofJson? = none ↔
      ∃ v ∈ items ms, ∀ e : Entry, ¬ e.RecordedIn v := by
    simp only [mapM_eq_none_iff, Entry.ofJson?_eq_none_iff]
  rw [← Option.map_eq_none_iff (f := upgrade), map_upgrade_ofMembers?, Unreadable, ← hitems,
    ← mode?_eq_none_iff]
  cases (items ms).mapM Entry.ofJson? <;> cases mode? ms <;> simp

/-- The ledger holds what the members of an older document do: one entry of each version in the list, the
last one, by version, and none if there is no list; the mode; and every member besides the two of them. -/
structure Carries (ms : Members) (l : Ledger) : Prop where
  version : l.version = Ledger.layoutVersion
  revision : l.revision = 0
  ascending : l.Ascending
  entries : ∀ e, e ∈ l.entries ↔ e.LastIn (items ms)
  mode : Mode ms l.settings.migrationMode
  extra : ∀ n, Members.get? n l.extra =
    if n = Ledger.settingsName ∨ n = Ledger.entriesName then none else Members.get? n ms

theorem carries_upgrade {ms : Members} {l : LegacyLedger} (h : ofMembers? ms = some l) :
    Carries ms l.upgrade := by
  have hmap := map_upgrade_ofMembers? ms
  rw [h, Option.map_some, eq_comm] at hmap
  simp only [Option.bind_eq_bind, Option.bind_eq_some_iff, Option.pure_def, Option.some.injEq] at hmap
  obtain ⟨es, hes, m, hm, hupgrade⟩ := hmap
  rw [← hupgrade, Ledger.insertAll_eq]
  have hnone : Ledger.Ascending ⟨Ledger.layoutVersion, 0, [], ⟨m⟩,
      Members.erase Ledger.settingsName (Members.erase Ledger.entriesName ms)⟩ := List.Pairwise.nil
  exact {
    version := rfl
    revision := rfl
    ascending := hnone.insertAll es
    entries := fun e => by
      have hmem := Ledger.mem_entries_insertAll hes ⟨Ledger.layoutVersion, 0, [], ⟨m⟩,
        Members.erase Ledger.settingsName (Members.erase Ledger.entriesName ms)⟩ e
      simpa using hmem
    mode := mode?_eq_some_iff.1 hm
    extra := get?_extra ms }

end LegacyLedger

namespace StoredLedger

theorem decode_without_version {ms : Members}
    (hversion : Members.get? "version" ms = none ∨ Members.get? "version" ms = some .null) :
    (∀ f, decode (some (.object ms)) = .error f ↔ f = .layout ∧ LegacyLedger.Unreadable ms) ∧
    ∀ st, decode (some (.object ms)) = .ok st →
      st.needsUpgrade = true ∧ LegacyLedger.Carries ms st.upgrade := by
  have hdecode : decode (some (.object ms)) = (orLayout (LegacyLedger.ofMembers? ms)).map .legacy := by
    rcases hversion with hversion | hversion <;> simp only [decode, hversion] <;> rfl
  rw [hdecode]
  cases hread : LegacyLedger.ofMembers? ms with
  | none =>
    have hbad := (LegacyLedger.ofMembers?_eq_none_iff ms).1 hread
    constructor
    · intro f
      simp [orLayout, Except.map, hbad, eq_comm]
    · intro st hst
      cases hst
  | some l =>
    have hgood : ¬ LegacyLedger.Unreadable ms := fun hbad => by
      rw [(LegacyLedger.ofMembers?_eq_none_iff ms).2 hbad] at hread
      cases hread
    constructor
    · intro f
      simp [orLayout, Except.map, hgood]
    · intro st hst
      cases hst
      exact ⟨rfl, LegacyLedger.carries_upgrade hread⟩

/-- A document of the older layout with its list out of order, a version that comes twice, an entry that is
an array, a truth value for a mode, and members of other names. -/
def untidy : Members :=
  [("console", .array [.null, .string "kept"]),
    (Ledger.settingsName, .object [("migration_mode", .bool false)]),
    ("revision", .integer 7),
    (Ledger.entriesName, .array [.object [("name", .string "old"), ("version", .integer 3)],
      .array [.integer 1, .string "users"],
      .object [("dirty", .bool true), ("name", .null), ("version", .integer 3)]]),
    ("version", .null)]

theorem decode_without_version_untidy : Members.get? "version" untidy = some .null ∧
    ∃ st, decode (some (.object untidy)) = .ok st ∧ LegacyLedger.Carries untidy st.upgrade ∧
      st.upgrade.entries = [⟨1, some "users", false⟩, ⟨3, none, true⟩] := by
  have hnull : Members.get? "version" untidy = none ∨ Members.get? "version" untidy = some .null := .inr rfl
  obtain ⟨-, hok⟩ := decode_without_version hnull
  have hdecode : decode (some (.object untidy)) = .ok (.legacy ⟨[⟨3, some "old", false⟩,
      ⟨1, some "users", false⟩, ⟨3, none, true⟩], some ⟨"false"⟩,
      [("console", .array [.null, .string "kept"]), ("revision", .integer 7), ("version", .null)]⟩) := by
    rfl
  refine ⟨rfl, _, hdecode, (hok _ hdecode).2, ?_⟩
  simp [upgrade, LegacyLedger.upgrade, Ledger.insert, Ledger.remove, Ledger.sorted, Ledger.empty,
    List.mergeSort]

end StoredLedger

end EngineMigrate
