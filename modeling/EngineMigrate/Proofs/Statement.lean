import EngineMigrate.Tracking.Tables

/-!
The statements on the tracking tables, told apart by their texts.  Main statements: statements of
different kinds begin differently, and a text that changes the versions on record says which one.
-/
namespace EngineMigrate

/-- The tables that the tracker keeps. -/
inductive Table where
  | migrations
  | settings

namespace Table

def name : Table → String
  | .migrations => SqlText.migrationsTable
  | .settings => SqlText.settingsTable

def columns : Table → String
  | .migrations => SqlText.migrationsColumns
  | .settings => SqlText.settingsColumns

end Table

/-- What the tracker has its tables do. -/
inductive Statement where
  | count (t : Table)
  | create (t : Table)
  | selectVersions
  | insert (version : Nat)
  | delete (version : Nat)
  | selectSetting (name : String)
  | storeSetting (name value : String)

namespace Statement

def text : Statement → String
  | .count t => SqlText.countTable t.name
  | .create t => SqlText.createTable t.name t.columns
  | .selectVersions => SqlText.selectVersions
  | .insert v => SqlText.insertVersion v
  | .delete v => SqlText.deleteVersion v
  | .selectSetting name => SqlText.selectSetting name
  | .storeSetting name value => SqlText.storeSetting name value

def operation (st : Statement) : Operation := Tables.operation st.text

def head : Statement → String
  | .count _ => "SELECT COUNT(1) FROM info"
  | .create _ => "CREATE TABLE IF NOT EXIST"
  | .selectVersions => "SELECT version, dirty FRO"
  | .insert _ => "INSERT INTO hdb_catalog.s"
  | .delete _ => "DELETE FROM hdb_catalog.s"
  | .selectSetting _ => "SELECT value FROM hdb_cat"
  | .storeSetting _ _ => "INSERT INTO hdb_catalog.m"

theorem begins_append {h : List Char} {a : String} (ha : h <+: a.toList) (b : String) :
    h <+: (a ++ b).toList := by
  rw [String.toList_append]
  exact ha.trans (List.prefix_append _ _)

theorem begins_text (st : Statement) : st.head.toList <+: st.text.toList := by
  cases st with
  | count t =>
    have h : "SELECT COUNT(1) FROM info".toList <+:
        "SELECT COUNT(1) FROM information_schema.tables WHERE table_name = ".toList := by
      decide +kernel
    exact begins_append (begins_append (begins_append (begins_append h _) _) _) _
  | create t =>
    have h : "CREATE TABLE IF NOT EXIST".toList <+: "CREATE TABLE IF NOT EXISTS ".toList := by
      decide +kernel
    exact begins_append (begins_append (begins_append (begins_append h _) _) _) _
  | selectVersions => decide +kernel
  | insert v =>
    have h : "INSERT INTO hdb_catalog.s".toList <+:
        ("INSERT INTO " ++ SqlText.qualified SqlText.migrationsTable).toList := by
      decide +kernel
    exact begins_append (begins_append (begins_append h _) _) _
  | delete v =>
    have h : "DELETE FROM hdb_catalog.s".toList <+:
        ("DELETE FROM " ++ SqlText.qualified SqlText.migrationsTable).toList := by
      decide +kernel
    exact begins_append (begins_append h _) _
  | selectSetting name =>
    have h : "SELECT value FROM hdb_cat".toList <+:
        ("SELECT value FROM " ++ SqlText.qualified SqlText.settingsTable).toList := by
      decide +kernel
    exact begins_append (begins_append h _) _
  | storeSetting name value =>
    have h : "INSERT INTO hdb_catalog.m".toList <+:
        ("INSERT INTO " ++ SqlText.qualified SqlText.settingsTable).toList := by
      decide +kernel
    exact begins_append (begins_append (begins_append (begins_append (begins_append h _) _) _) _) _

theorem length_head (st : Statement) : st.head.toList.length = 25 := by
  cases st <;> simp only [head] <;> decide +kernel

theorem head_eq_of_text_eq {st : Statement} (st' : Statement) (h : st.text = st'.text) : st.head = st'.head := by
  have hp := st.begins_text
  rw [h] at hp
  have hlt := List.prefix_of_prefix_length_le hp st'.begins_text (by simp only [length_head, Nat.le_refl])
  exact String.toList_injective (hlt.eq_of_length (by simp only [length_head]))

theorem toList_toString (n : Nat) : (toString n).toList = Text.decimal n := by
  simp [toString, Nat.repr, Text.decimal]

theorem toString_injective {v w : Nat} (h : toString v = toString w) : v = w := by
  have hd := congrArg (fun s => Text.digitsValue s.toList) h
  simpa only [toList_toString, Text.digitsValue_decimal] using hd

theorem eq_insert {st : Statement} {v : Nat} (h : st.text = SqlText.insertVersion v) :
    st = .insert v := by
  have hh := head_eq_of_text_eq (.insert v) h
  cases st with
  | insert w =>
    simp only [text, SqlText.insertVersion, String.append_left_inj, String.append_right_inj] at h
    rw [toString_injective h]
  | _ => simp [head] at hh

theorem eq_delete {st : Statement} {v : Nat} (h : st.text = SqlText.deleteVersion v) :
    st = .delete v := by
  have hh := head_eq_of_text_eq (.delete v) h
  cases st with
  | delete w =>
    simp only [text, SqlText.deleteVersion, String.append_right_inj] at h
    rw [toString_injective h]
  | _ => simp [head] at hh

theorem eq_selectVersions {st : Statement} (h : st.text = SqlText.selectVersions) :
    st = .selectVersions := by
  have hh := head_eq_of_text_eq .selectVersions h
  cases st with
  | selectVersions => rfl
  | _ => simp [head] at hh

theorem eq_selectSetting {st : Statement} {name : String} (h : st.text = SqlText.selectSetting name) :
    ∃ other, st = .selectSetting other := by
  have hh := head_eq_of_text_eq (.selectSetting name) h
  cases st with
  | selectSetting other => exact ⟨other, rfl⟩
  | _ => simp [head] at hh

theorem eq_storeSetting {st : Statement} {name value : String}
    (h : st.text = SqlText.storeSetting name value) : ∃ n v, st = .storeSetting n v := by
  have hh := head_eq_of_text_eq (.storeSetting name value) h
  cases st with
  | storeSetting n v => exact ⟨n, v, rfl⟩
  | _ => simp [head] at hh

end Statement

end EngineMigrate
