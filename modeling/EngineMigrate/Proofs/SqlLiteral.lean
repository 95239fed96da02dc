import EngineMigrate.Proofs.Statement
import EngineMigrate.Text.Cut

/-!
Literals as SQL reads them: a quote opens one, two quotes inside stand for one, and a single quote ends
it.  Main statements: a literal is read back as what it denotes, whatever follows that is no quote; a
statement holds the literals of its values and no other; and statements are told apart by their texts, the
values in them included.
-/
namespace EngineMigrate

namespace SqlText

/-- Reads on inside a literal: what it denotes, and what follows its end. -/
def readBody : List Char → Option (List Char × List Char)
  | [] => none
  | '\'' :: '\'' :: rest => (readBody rest).map fun r => ('\'' :: r.1, r.2)
  | '\'' :: rest => some ([], rest)
  | c :: rest => (readBody rest).map fun r => (c :: r.1, r.2)

theorem readBody_end {rest : List Char} (h : rest.head? ≠ some '\'') :
    readBody ('\'' :: rest) = some ([], rest) := by
  cases rest with
  | nil => rfl
  | cons c rest =>
    have hc : c ≠ '\'' := by simpa using h
    rw [readBody]
    intro tail htail
    exact hc (List.cons.inj htail).1

theorem readBody_cons {c : Char} (h : c ≠ '\'') (rest : List Char) :
    readBody (c :: rest) = (readBody rest).map fun r => (c :: r.1, r.2) := by
  rw [readBody]
  · exact fun _ hc => absurd hc h
  · exact h

theorem readBody_inLiteral (s : List Char) {rest : List Char} (h : rest.head? ≠ some '\'') :
    readBody (s.flatMap inLiteral ++ '\'' :: rest) = some (s, rest) := by
  induction s with
  | nil => exact readBody_end h
  | cons c s ih =>
    by_cases hc : c = '\''
    · subst hc
      have hquote : readBody ('\'' :: '\'' :: (s.flatMap inLiteral ++ '\'' :: rest)) =
          (readBody (s.flatMap inLiteral ++ '\'' :: rest)).map fun r => ('\'' :: r.1, r.2) := by
        rw [readBody]
      simpa [inLiteral, ih] using hquote
    · have hplain := readBody_cons hc (s.flatMap inLiteral ++ '\'' :: rest)
      simpa [inLiteral, hc, ih] using hplain

/-- Reads a literal at the front of a text: what it denotes, and what follows it. -/
def readLiteral : List Char → Option (List Char × List Char)
  | '\'' :: body => readBody body
  | _ => none

theorem readLiteral_append (s : String) {rest : List Char} (h : rest.head? ≠ some '\'') :
    readLiteral ((literal s).toList ++ rest) = some (s.toList, rest) := by
  have hbody := readBody_inLiteral s.toList h
  simpa [literal, readLiteral] using hbody

theorem literal_append_inj {a b r r' : String} (hr : r.toList.head? ≠ some '\'')
    (hr' : r'.toList.head? ≠ some '\'') (h : literal a ++ r = literal b ++ r') : a = b ∧ r = r' := by
  have hlist := congrArg String.toList h
  simp only [literal, String.toList_append, String.toList_ofList, List.cons_append, List.append_assoc,
    List.nil_append, List.cons.injEq, true_and] at hlist
  have hread := congrArg readBody hlist
  rw [readBody_inLiteral _ hr, readBody_inLiteral _ hr'] at hread
  obtain ⟨ha, hrest⟩ := Prod.mk.inj (Option.some.inj hread)
  exact ⟨String.toList_injective ha, String.toList_injective hrest⟩

theorem literal_inj {a b : String} (h : literal a = literal b) : a = b := by
  have hempty : "".toList.head? ≠ some '\'' := by decide
  have happend : literal a ++ "" = literal b ++ "" := by rw [h]
  exact (literal_append_inj hempty hempty happend).1

theorem head?_comma (r : String) : (", " ++ r).toList.head? ≠ some '\'' := by
  rw [String.toList_append]
  exact fun hr => absurd (Option.some.inj hr) (by decide)

/-- The literals in a text, in their order. -/
inductive Literals : List Char → List String → Prop where
  | none {cs : List Char} (h : '\'' ∉ cs) : Literals cs []
  | next {cs body v rest : List Char} {vs : List String} (h : '\'' ∉ cs)
    (hread : readBody body = some (v, rest)) (hrest : Literals rest vs) :
    Literals (cs ++ '\'' :: body) (String.ofList v :: vs)

theorem Literals.literal_append {a r s : String} {vs : List String} (h : Literals r.toList vs)
    (ha : '\'' ∉ a.toList) (hr : r.toList.head? ≠ some '\'') :
    Literals (a ++ (literal s ++ r)).toList (s :: vs) := by
  have hnext := Literals.next ha (readBody_inLiteral s.toList hr) h
  simpa [literal] using hnext

/-- A text holds its literals and no others. -/
theorem Literals.unique {cs : List Char} {vs ws : List String} (h : Literals cs vs) (h' : Literals cs ws) :
    vs = ws := by
  induction h generalizing ws with
  | none h =>
    cases h' with
    | none => rfl
    | next => exact absurd (by simp) h
  | @next cs body v rest vs h hread hrest ih =>
    generalize hall : cs ++ '\'' :: body = all at h'
    cases h' with
    | none h' => exact absurd (by simp [← hall]) h'
    | next h' hread' hrest' =>
      obtain ⟨-, rfl⟩ := Text.eq_of_cut_at_first h h' hall
      rw [hread] at hread'
      cases hread'
      rw [ih hrest']

theorem Literals.iff {cs : List Char} {vs ws : List String} (h : Literals cs vs) : Literals cs ws ↔ ws = vs :=
  ⟨fun h' => h'.unique h, fun heq => heq ▸ h⟩

theorem Literals.literal_last {a s : String} (ha : '\'' ∉ a.toList) : Literals (a ++ literal s).toList [s] := by
  have hrest : Literals "".toList [] := .none (by decide)
  have hend := hrest.literal_append (s := s) ha (by decide)
  rwa [String.append_empty] at hend

theorem literals_two {a b c : String} (s t : String) (ha : '\'' ∉ a.toList) (hb : '\'' ∉ b.toList)
    (hc : '\'' ∉ c.toList) (hhead : (b ++ (literal t ++ c)).toList.head? ≠ some '\'')
    (hlast : c.toList.head? ≠ some '\'') :
    Literals (a ++ literal s ++ b ++ literal t ++ c).toList [s, t] := by
  have hassoc : a ++ literal s ++ b ++ literal t ++ c = a ++ (literal s ++ (b ++ (literal t ++ c))) := by
    simp only [String.append_assoc]
  rw [hassoc]
  exact .literal_append (.literal_append (.none hc) hb hlast) ha hhead

theorem literals_storeSetting (name value : String) :
    Literals (storeSetting name value).toList [name, value] :=
  literals_two name value (by decide +kernel) (by decide) (by decide +kernel) (head?_comma _)
    (by decide +kernel)

theorem literals_countTable (table : String) :
    Literals (countTable table).toList [table, schema] :=
  literals_two table schema (by decide +kernel) (by decide +kernel) (by decide) (by decide +kernel) (by decide)

theorem literals_selectSetting (name : String) : Literals (selectSetting name).toList [name] :=
  .literal_last (by decide +kernel)

end SqlText

namespace Statement

/-- The values that a statement has in it. -/
def values : Statement → List String
  | .count t => [t.name, SqlText.schema]
  | .create _ | .selectVersions | .insert _ | .delete _ => []
  | .selectSetting name => [name]
  | .storeSetting name value => [name, value]

theorem not_mem_toString (n : Nat) : '\'' ∉ (toString n).toList := by
  rw [toList_toString]
  exact fun h => absurd (Text.isDigit_of_mem_decimal h) (by decide)

/-- A statement holds the literals of its values, whatever these are, and no other. -/
theorem literals_text (st : Statement) : SqlText.Literals st.text.toList st.values := by
  cases st with
  | count t => exact SqlText.literals_countTable t.name
  | create t => cases t <;> exact .none (by decide +kernel)
  | selectVersions => exact .none (by decide +kernel)
  | insert v =>
    refine .none ?_
    rw [text, SqlText.insertVersion, String.toList_append, String.toList_append, List.mem_append,
      List.mem_append, not_or, not_or]
    exact ⟨⟨by decide +kernel, not_mem_toString v⟩, by decide⟩
  | delete v =>
    refine .none ?_
    rw [text, SqlText.deleteVersion, String.toList_append, List.mem_append, not_or]
    exact ⟨by decide +kernel, not_mem_toString v⟩
  | selectSetting name => exact SqlText.literals_selectSetting name
  | storeSetting name value => exact SqlText.literals_storeSetting name value

theorem literals_text_iff (st : Statement) {vs : List String} :
    SqlText.Literals st.text.toList vs ↔ vs = st.values :=
  st.literals_text.iff

theorem table_eq_of_name {t t' : Table} (h : t.name = t'.name) : t = t' := by
  cases t with
  | migrations =>
    cases t' with
    | migrations => rfl
    | settings => exact absurd h (by decide)
  | settings =>
    cases t' with
    | migrations => exact absurd h (by decide)
    | settings => rfl

theorem eq_count {st : Statement} {t : Table} (h : st.text = SqlText.countTable t.name) :
    st = .count t := by
  have hh := head_eq_of_text_eq (.count t) h
  cases st with
  | count t' =>
    have hschema := (String.append_left_inj " LIMIT 1").1 h
    have hand := (String.append_left_inj (SqlText.literal SqlText.schema)).1 hschema
    have hname := (String.append_left_inj " AND table_schema = ").1 hand
    rw [table_eq_of_name (SqlText.literal_inj ((String.append_right_inj _).1 hname))]
  | _ => simp [head] at hh

theorem create_inj {t t' : Table}
    (h : SqlText.createTable t.name t.columns = SqlText.createTable t'.name t'.columns) : t = t' := by
  cases t with
  | migrations =>
    cases t' with
    | migrations => rfl
    | settings => exact absurd h (by decide +kernel)
  | settings =>
    cases t' with
    | migrations => exact absurd h (by decide +kernel)
    | settings => rfl

theorem eq_create {st : Statement} {t : Table} (h : st.text = SqlText.createTable t.name t.columns) :
    st = .create t := by
  have hh := head_eq_of_text_eq (.create t) h
  cases st with
  | create t' => rw [create_inj h]
  | _ => simp [head] at hh

theorem selectSetting_inj {a b : String} (h : SqlText.selectSetting a = SqlText.selectSetting b) :
    a = b :=
  SqlText.literal_inj ((String.append_right_inj _).1 h)

theorem storeSetting_inj {a b v w : String}
    (h : SqlText.storeSetting a v = SqlText.storeSetting b w) : a = b ∧ v = w := by
  have hvalues := (String.append_left_inj _).1 h
  simp only [String.append_assoc] at hvalues
  have hnames := (String.append_right_inj _).1 ((String.append_right_inj _).1
    ((String.append_right_inj _).1 hvalues))
  obtain ⟨ha, hrest⟩ :=
    SqlText.literal_append_inj (SqlText.head?_comma _) (SqlText.head?_comma _) hnames
  exact ⟨ha, SqlText.literal_inj ((String.append_right_inj _).1 hrest)⟩

/-- A text is of one statement only. -/
theorem text_injective {st st' : Statement} (h : st.text = st'.text) : st = st' := by
  cases st' with
  | count t => exact eq_count h
  | create t => exact eq_create h
  | selectVersions => exact eq_selectVersions h
  | insert v => exact eq_insert h
  | delete v => exact eq_delete h
  | selectSetting name =>
    obtain ⟨other, rfl⟩ := eq_selectSetting h
    rw [selectSetting_inj h]
  | storeSetting name value =>
    obtain ⟨n, v, rfl⟩ := eq_storeSetting h
    obtain ⟨rfl, rfl⟩ := storeSetting_inj h
    rfl

end Statement

namespace SqlText

/-- No value reaches out of its literal: before any text that does not begin with a quote the literal is read
to its end as the value, and the statements that name a setting and its value hold these literals only. -/
theorem value_enclosed (value : String) {rest : String} (h : rest.toList.head? ≠ some '\'') :
    readLiteral (literal value ++ rest).toList = some (value.toList, rest.toList) ∧
    (∀ name vs, Literals (storeSetting name value).toList vs ↔ vs = [name, value]) ∧
    ∀ name vs, Literals (selectSetting name).toList vs ↔ vs = [name] := by
  refine ⟨?_, fun name vs => (Statement.storeSetting name value).literals_text_iff,
    fun name vs => (Statement.selectSetting name).literals_text_iff⟩
  rw [String.toList_append]
  exact readLiteral_append value h

/-- A value that would close its literal, were its quotes written once. -/
theorem value_enclosed_closing : ", 'b')".toList.head? ≠ some '\'' ∧
    readLiteral "'''); DROP TABLE t; (''', 'b')".toList =
      some ("'); DROP TABLE t; ('".toList, ", 'b')".toList) ∧
    ∀ vs, Literals (storeSetting "" "'); DROP TABLE t; ('").toList vs ↔ vs = ["", "'); DROP TABLE t; ('"] := by
  have hrest : ", 'b')".toList.head? ≠ some '\'' := by decide
  obtain ⟨hread, hstore, -⟩ := value_enclosed "'); DROP TABLE t; ('" hrest
  have htext : literal "'); DROP TABLE t; ('" ++ ", 'b')" = "'''); DROP TABLE t; (''', 'b')" := by
    decide +kernel
  rw [htext] at hread
  exact ⟨hrest, hread, fun vs => hstore "" vs⟩

end SqlText

end EngineMigrate
