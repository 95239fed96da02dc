import EngineMigrate.Json.Members
import EngineMigrate.Json.Reader

/-!
JSON text that is read back.  A value laid out over lines is read as itself if it is plain: its numbers are
whole and fit a word, its objects hold each name once, and it is not nested too deep; and every value without
doubles that was read from a text is plain.  Main statement: the layout of a value, whatever level it stands
at and whatever ends it, is read as a document of that value.
-/
namespace EngineMigrate

open Text (Glyph)

namespace Text

theorem head?_decimal {n : Nat} (h : 0 < n) : (decimal n).head? ≠ some '0' := by
  induction n using Nat.strongRecOn with
  | _ n ih =>
    by_cases hn : n < 10
    · simp [decimal, Nat.toDigits_of_lt_base hn, Nat.ne_of_gt h]
    · have hhead := ih (n / 10) (by omega) (by omega)
      obtain ⟨d, ds, hds⟩ := List.exists_cons_of_ne_nil (decimal_ne_nil (n / 10))
      rw [decimal, Nat.toDigits_of_base_le (by decide) (by omega), ← decimal, hds]
      rwa [hds] at hhead

end Text

namespace Json

/-- What stands behind a value in a layout: nothing, a comma or a new line. -/
inductive Ends : List Glyph → Prop where
  | nothing : Ends []
  | comma (gs : List Glyph) : Ends (some ',' :: gs)
  | newLine (gs : List Glyph) : Ends (some '\n' :: gs)

namespace Document

open Text (decimal)

variable {rest : List Glyph}

theorem takeDigits_of_ends (h : Ends rest) : takeDigits rest = ([], rest) := by
  cases h <;> rfl

theorem takeDigits_append {ds : List Char} (hds : ∀ c ∈ ds, c.isDigit = true) (h : Ends rest) :
    takeDigits (ds.map some ++ rest) = (ds, rest) := by
  induction ds with
  | nil => exact takeDigits_of_ends h
  | cons d ds ih =>
    obtain ⟨hd, hds⟩ := List.forall_mem_cons.1 hds
    simp only [List.map_cons, List.cons_append, takeDigits, hd, if_true, ih hds]

theorem readWhole_decimal (n : Nat) (h : Ends rest) :
    readWhole ((decimal n).map some ++ rest) = some (decimal n, rest) := by
  simp only [readWhole, takeDigits_append (fun c => Text.isDigit_of_mem_decimal) h]
  split
  · rename_i hnil
    exact absurd (congrArg Prod.fst hnil) (Text.decimal_ne_nil n)
  · rename_i d ds _ hzero
    have hdigits : decimal n = '0' :: d :: ds := congrArg Prod.fst hzero
    cases n with
    | zero => cases hdigits
    | succ n => exact absurd (by rw [hdigits]; rfl) (Text.head?_decimal n.succ_pos)
  · rfl

theorem readFraction_of_ends (h : Ends rest) : readFraction rest = some (none, rest) := by
  cases h <;> rfl

theorem readExponent_of_ends (h : Ends rest) : readExponent rest = some (none, rest) := by
  cases h <;> rfl

theorem readUnsignedNumber_decimal (negative : Bool) (n : Nat) (h : Ends rest) :
    readUnsignedNumber negative ((decimal n).map some ++ rest) =
      some (⟨negative, decimal n, none, none⟩, rest) := by
  simp [readUnsignedNumber, readWhole_decimal n h, readFraction_of_ends h, readExponent_of_ends h]

def ofInteger (i : Int) : NumberText := ⟨decide (i < 0), decimal i.natAbs, none, none⟩

theorem readNumber_integerText (i : Int) (h : Ends rest) :
    readNumber ((integerText i).map some ++ rest) = some (ofInteger i, rest) := by
  unfold integerText ofInteger
  split
  · rename_i hi
    have habs : i.toNat = i.natAbs := by omega
    have hsign : decide (i < 0) = false := by simpa using hi
    have hread := readUnsignedNumber_decimal false i.natAbs h
    rw [habs, hsign, ← hread]
    obtain ⟨d, ds, hds⟩ := List.exists_cons_of_ne_nil (Text.decimal_ne_nil i.natAbs)
    have hd : d ≠ '-' := by
      rintro rfl
      have hdigit : '-' ∈ decimal i.natAbs := hds ▸ List.mem_cons_self
      exact absurd (Text.isDigit_of_mem_decimal hdigit) (by decide)
    rw [hds, List.map_cons, List.cons_append, readNumber]
    simpa using hd
  · rename_i hi
    have hsign : decide (i < 0) = true := by simpa using hi
    rw [hsign]
    exact readUnsignedNumber_decimal true i.natAbs h

end Document

/-- A number that fits 64 bits, with its sign or without. -/
def IsWord (i : Int) : Prop := -((Nat.pow 2 63 : Nat) : Int) ≤ i ∧ i < ((Nat.pow 2 64 : Nat) : Int)

theorem isWord_iff {i : Int} : IsWord i ↔ -9223372036854775808 ≤ i ∧ i < 18446744073709551616 := Iff.rfl

namespace NumberText

open Text (wordLimit digitValue decimal)

theorem le_foldl_digits (cs : List Char) (n : Nat) :
    n ≤ cs.foldl (fun n c => 10 * n + digitValue c) n := by
  induction cs generalizing n with
  | nil => exact Nat.le_refl n
  | cons c cs ih => exact Nat.le_trans (by omega) (ih (10 * n + digitValue c))

theorem absorb_of_lt {cs : List Char} {n : Nat}
    (h : cs.foldl (fun n c => 10 * n + digitValue c) n < wordLimit) :
    absorb n cs = (cs.foldl (fun n c => 10 * n + digitValue c) n, 0) := by
  induction cs generalizing n with
  | nil => rfl
  | cons c cs ih =>
    have hnext : 10 * n + digitValue c < wordLimit := Nat.lt_of_le_of_lt (le_foldl_digits cs _) h
    simp only [absorb, hnext, if_true, List.foldl_cons]
    exact ih h

theorem absorb_lt {cs : List Char} {n : Nat} (h : n < wordLimit) : (absorb n cs).1 < wordLimit := by
  induction cs generalizing n with
  | nil => exact h
  | cons c cs ih =>
    simp only [absorb]
    split
    · rename_i hnext
      exact ih hnext
    · exact h

theorem absorb_decimal {n : Nat} (h : n < wordLimit) : absorb 0 (decimal n) = (n, 0) := by
  have hvalue := Text.digitsValue_decimal n
  rw [Text.digitsValue] at hvalue
  rw [absorb_of_lt (by rwa [hvalue]), hvalue]

theorem value?_ofInteger {i : Int} (h : IsWord i) : (Document.ofInteger i).value? = some (.integer i) := by
  have hlimit : wordLimit = 18446744073709551616 := rfl
  rw [isWord_iff] at h
  cases i with
  | ofNat n =>
    have hcast : Int.ofNat n = (n : Int) := rfl
    have hfits : n < wordLimit := by omega
    have hsign : decide (Int.ofNat n < 0) = false := decide_eq_false (by omega)
    simp only [value?, Document.ofInteger, Int.natAbs, hsign, absorb_decimal hfits]
    rfl
  | negSucc n =>
    have hfits : n + 1 < wordLimit := by omega
    have hlow : n + 1 ≤ 9223372036854775808 := by omega
    have hrange : decide (n + 1 ≤ Nat.pow 2 63) = true := decide_eq_true hlow
    have hsign : decide (Int.negSucc n < 0) = true := decide_eq_true (by omega)
    simp only [value?, Document.ofInteger, Int.natAbs, hsign, absorb_decimal hfits, absorbFraction,
      Option.getD_none, hrange]
    rfl

/-- A number is read as a whole one that fits a word, or as a double. -/
theorem cases_of_value? {t : NumberText} {v : Value} (h : t.value? = some v) :
    (∃ i, v = .integer i ∧ IsWord i) ∨ ∃ x, v = .double x := by
  have hword : (absorb 0 t.whole).1 < 18446744073709551616 := absorb_lt (by decide)
  have hdouble : ∀ x : Option Binary64, x.map (signed t.negative) = some v → ∃ x, v = .double x := by
    intro x hx
    obtain ⟨y, -, rfl⟩ := Option.map_eq_some_iff.1 hx
    exact ⟨_, rfl⟩
  simp only [value?] at h
  split at h
  · split at h
    · exact .inr (hdouble _ h)
    · split at h <;> cases h
      exact .inr ⟨_, rfl⟩
  · split at h
    · exact .inr (hdouble _ h)
    · split at h
      · cases h
        exact .inl ⟨_, rfl, isWord_iff.2 ⟨by omega, by omega⟩⟩
      · split at h
        · rename_i hrange
          have hlow : (absorb 0 t.whole).1 ≤ 9223372036854775808 :=
            of_decide_eq_true (Bool.and_eq_true_iff.1 hrange).2
          cases h
          exact .inl ⟨_, rfl, isWord_iff.2 ⟨by omega, by omega⟩⟩
        · cases h
          exact .inr ⟨_, rfl⟩

end NumberText

/-- The three ways in which a character stands inside a string. -/
inductive Escape (c : Char) : List Char → Prop where
  | letter {e : Char} (he : Document.isEscape e = true) (hu : e ≠ 'u') (hc : unescape e = c) : Escape c ['\\', e]
  | code (h : c.toNat < 32) :
    Escape c ['\\', 'u', '0', '0', hexDigit (c.toNat / 16), hexDigit (c.toNat % 16)]
  | plain (hquote : c ≠ '"') (hslash : c ≠ '\\') (h : 32 ≤ c.toNat) : Escape c [c]

theorem escape_escaped (c : Char) : Escape c (escaped c) := by
  unfold escaped
  repeat
    split
    · subst c
      exact .letter rfl (by decide) rfl
  split
  · exact .code ‹_›
  · exact .plain ‹_› ‹_› (by omega)

theorem isHex_hexDigit {n : Nat} (h : n < 16) : Document.isHex (some (hexDigit n)) = true := by
  revert n
  decide

theorem hex4_hexDigit {n : Nat} (h : n < 32) :
    hex4 (some '0') (some '0') (some (hexDigit (n / 16))) (some (hexDigit (n % 16))) = n := by
  revert n
  decide

theorem readString_escaped (c : Char) (gs : List Glyph) :
    Document.readString ((escaped c).map some ++ gs) =
      (Document.readString gs).map fun out => ((escaped c).map some ++ out.1, out.2) := by
  generalize hcs : escaped c = cs
  cases hcs ▸ escape_escaped c with
  | letter he hu hc =>
    simp only [List.map_cons, List.map_nil, List.cons_append, List.nil_append]
    rw [Document.readString.eq_def]
    simp [he, hu]
  | code h =>
    have hhigh : Document.isHex (some (hexDigit (c.toNat / 16))) = true := isHex_hexDigit (by omega)
    have hlow : Document.isHex (some (hexDigit (c.toNat % 16))) = true := isHex_hexDigit (by omega)
    have hzero : Document.isHex (some '0') = true := rfl
    simp [Document.readString, hhigh, hlow, hzero]
  | plain hquote hslash h =>
    simp only [List.map_cons, List.map_nil, List.cons_append, List.nil_append]
    rw [Document.readString.eq_def]
    simp [hquote, hslash, Nat.not_lt.2 h]

theorem decodeString_escaped (c : Char) (gs : List Glyph) :
    decodeString ((escaped c).map some ++ gs) = (decodeString gs).map (c :: ·) := by
  generalize hcs : escaped c = cs
  cases hcs ▸ escape_escaped c with
  | letter he hu hc =>
    simp only [List.map_cons, List.map_nil, List.cons_append, List.nil_append]
    rw [decodeString.eq_def]
    simp [hu, hc]
  | code h =>
    have hvalue := hex4_hexDigit h
    have hchar : Char.ofNat c.toNat = c := Char.ofNat_toNat c
    have hlow : ¬ 0xD800 ≤ c.toNat := by omega
    have hlow' : ¬ 0xDC00 ≤ c.toNat := by omega
    simp only [List.map_cons, List.map_nil, List.cons_append, List.nil_append]
    rw [decodeString.eq_def]
    simp [hvalue, hchar, hlow, hlow']
  | plain hquote hslash h =>
    simp only [List.map_cons, List.map_nil, List.cons_append, List.nil_append]
    rw [decodeString.eq_def]
    simp [hslash]

def body (s : String) : List Glyph := (s.toList.flatMap escaped).map some

theorem readString_body (s : String) (rest : List Glyph) :
    Document.readString (body s ++ some '"' :: rest) = some (body s, rest) := by
  have h : ∀ cs : List Char, Document.readString ((cs.flatMap escaped).map some ++ some '"' :: rest) =
      some ((cs.flatMap escaped).map some, rest) := by
    intro cs
    induction cs with
    | nil => rfl
    | cons c cs ih =>
      rw [List.flatMap_cons, List.map_append, List.append_assoc, readString_escaped, ih]
      rfl
  exact h s.toList

theorem decodeString_body (s : String) : decodeString (body s) = some s.toList := by
  have h : ∀ cs : List Char, decodeString ((cs.flatMap escaped).map some) = some cs := by
    intro cs
    induction cs with
    | nil => rfl
    | cons c cs ih =>
      rw [List.flatMap_cons, List.map_append, decodeString_escaped, ih]
      rfl
  exact h s.toList

theorem map_quoted (s : String) : (quoted s.toList).map some = some '"' :: body s ++ [some '"'] := by
  simp [quoted, body]

namespace Document

theorem skipSpace_newLine (level : Nat) (gs : List Glyph) :
    skipSpace ((Value.newLine level).map some ++ gs) = skipSpace gs := by
  have h : ∀ n, skipSpace ((List.replicate n ' ').map some ++ gs) = skipSpace gs := by
    intro n
    induction n with
    | zero => rfl
    | succ n ih => exact ih
  exact h (2 * level)

theorem skipSpace_cons {g : Glyph} (h : isSpace g = false) (gs : List Glyph) :
    skipSpace (g :: gs) = g :: gs := by
  simp [skipSpace, h]

@[simp] theorem skipSpace_skipSpace (gs : List Glyph) : skipSpace (skipSpace gs) = skipSpace gs := by
  induction gs with
  | nil => rfl
  | cons g gs ih =>
    cases hg : isSpace g with
    | true =>
      have hskip : skipSpace (g :: gs) = skipSpace gs := by simp [skipSpace, hg]
      rw [hskip, ih]
    | false => rw [skipSpace_cons hg, skipSpace_cons hg]

theorem read_congr {fuel : Nat} {gs gs' : List Glyph} (h : skipSpace gs = skipSpace gs') :
    read fuel gs = read fuel gs' := by
  cases fuel with
  | zero => rfl
  | succ fuel => rw [read, read, h]

theorem readItems_congr {fuel : Nat} {gs gs' : List Glyph} (h : skipSpace gs = skipSpace gs') :
    readItems fuel gs = readItems fuel gs' := by
  cases fuel with
  | zero => rfl
  | succ fuel => rw [readItems, readItems, read_congr h]

theorem read_array {fuel : Nat} {gs : List Glyph} (h : ∀ rest, skipSpace gs ≠ some ']' :: rest) :
    read (fuel + 1) (some '[' :: gs) = (readItems fuel gs).map fun out => (.array out.1, out.2) := by
  rw [read, skipSpace_cons rfl]
  simp only
  rw [readItems_congr (skipSpace_skipSpace gs)]

theorem readMembers_congr {fuel : Nat} {gs gs' : List Glyph} (h : skipSpace gs = skipSpace gs') :
    readMembers fuel gs = readMembers fuel gs' := by
  cases fuel with
  | zero => rfl
  | succ fuel => rw [readMembers, readMembers, h]

theorem read_object {fuel : Nat} {gs : List Glyph} (h : ∀ rest, skipSpace gs ≠ some '}' :: rest) :
    read (fuel + 1) (some '{' :: gs) = (readMembers fuel gs).map fun out => (.object out.1, out.2) := by
  rw [read, skipSpace_cons rfl]
  simp only
  rw [readMembers_congr (skipSpace_skipSpace gs)]

def itemsBehind (fuel : Nat) (d : Document) (rest : List Glyph) : Option (List Document × List Glyph) :=
  match skipSpace rest with
  | some ',' :: rest => (readItems fuel rest).map fun out => (d :: out.1, out.2)
  | some ']' :: rest => some ([d], rest)
  | _ => none

theorem itemsBehind_comma (fuel : Nat) (d : Document) (rest : List Glyph) :
    itemsBehind fuel d (some ',' :: rest) = (readItems fuel rest).map fun out => (d :: out.1, out.2) := rfl

theorem itemsBehind_end (fuel : Nat) (d : Document) (level : Nat) (rest : List Glyph) :
    itemsBehind fuel d ((Value.newLine level).map some ++ some ']' :: rest) = some ([d], rest) := by
  simp only [itemsBehind, skipSpace_newLine, skipSpace_cons (show isSpace (some ']') = false from rfl)]

/-- How the members of an object go on behind one of them. -/
def membersBehind (fuel : Nat) (m : List Glyph × Document) (rest : List Glyph) :
    Option (List (List Glyph × Document) × List Glyph) :=
  match skipSpace rest with
  | some ',' :: rest => (readMembers fuel rest).map fun out => (m :: out.1, out.2)
  | some '}' :: rest => some ([m], rest)
  | _ => none

theorem membersBehind_comma (fuel : Nat) (m : List Glyph × Document) (rest : List Glyph) :
    membersBehind fuel m (some ',' :: rest) = (readMembers fuel rest).map fun out => (m :: out.1, out.2) := rfl

theorem membersBehind_end (fuel : Nat) (m : List Glyph × Document) (level : Nat) (rest : List Glyph) :
    membersBehind fuel m ((Value.newLine level).map some ++ some '}' :: rest) = some ([m], rest) := by
  simp only [membersBehind, skipSpace_newLine, skipSpace_cons (show isSpace (some '}') = false from rfl)]

theorem ne_of_sign_or_digit {c l : Char} (h : c = '-' ∨ c.isDigit = true) (hl : l ≠ '-')
    (hdigit : l.isDigit = false) : c ≠ l := by
  rintro rfl
  rcases h with h | h
  · exact hl h
  · rw [hdigit] at h
    cases h

theorem isSpace_of_sign_or_digit {c : Char} (h : c = '-' ∨ c.isDigit = true) : isSpace (some c) = false := by
  have hne : ∀ l : Char, l ≠ '-' → l.isDigit = false → c ≠ l := fun l => ne_of_sign_or_digit h
  simp [isSpace, hne ' ' (by decide) (by decide), hne '\n' (by decide) (by decide),
    hne '\t' (by decide) (by decide), hne '\r' (by decide) (by decide)]

theorem read_number {fuel : Nat} {c : Char} {gs : List Glyph} (h : c = '-' ∨ c.isDigit = true) :
    read (fuel + 1) (some c :: gs) = (readNumber (some c :: gs)).map fun out => (.number out.1, out.2) := by
  rw [read, skipSpace_cons (isSpace_of_sign_or_digit h)]
  split
  case h_7 => rfl
  all_goals
    rename_i heq
    cases heq
    exact absurd rfl (ne_of_sign_or_digit h (by decide) (by decide))

end Document

namespace Value

/-- No part of the value is a double. -/
inductive Whole : Value → Prop where
  | null : Whole .null
  | bool (b : Bool) : Whole (.bool b)
  | integer (i : Int) : Whole (.integer i)
  | string (s : String) : Whole (.string s)
  | array {items : List Value} (h : ∀ v ∈ items, v.Whole) : Whole (.array items)
  | object {ms : Members} (h : ∀ m ∈ ms, m.2.Whole) : Whole (.object ms)

/-- The value is whole with numbers of a word, holds each name once and in order, and is nested in no more
than `depth` levels. -/
inductive Plain : Nat → Value → Prop where
  | null (depth : Nat) : Plain depth .null
  | bool (depth : Nat) (b : Bool) : Plain depth (.bool b)
  | integer (depth : Nat) {i : Int} (h : IsWord i) : Plain depth (.integer i)
  | string (depth : Nat) (s : String) : Plain depth (.string s)
  | array {depth : Nat} {items : List Value} (h : ∀ v ∈ items, v.Plain depth) : Plain (depth + 1) (.array items)
  | object {depth : Nat} {ms : Members} (sorted : ms.Sorted) (h : ∀ m ∈ ms, m.2.Plain depth) :
    Plain (depth + 1) (.object ms)

/-- Laid out at any level, with anything behind it that may stand there, the value is read as a document of
that value.  Twice the length is fuel enough: of the two steps down to a part, its bracket pays for the one
and its new line for the other. -/
def ReadsBack (depth : Nat) (v : Value) : Prop :=
  ∀ {level fuel : Nat} {rest : List Glyph}, 2 * (v.prettyChars level).length ≤ fuel → Ends rest →
    ∃ d, Document.read fuel ((v.prettyChars level).map some ++ rest) = some (d, rest) ∧ d.value? depth = some v

theorem exists_integerText (i : Int) :
    ∃ c cs, integerText i = c :: cs ∧ (c = '-' ∨ c.isDigit = true) := by
  unfold integerText
  split
  · obtain ⟨d, ds, hds⟩ := List.exists_cons_of_ne_nil (Text.decimal_ne_nil i.toNat)
    exact ⟨d, ds, hds, .inr (Text.isDigit_of_mem_decimal (hds ▸ List.mem_cons_self))⟩
  · exact ⟨'-', _, rfl, .inl rfl⟩

theorem readsBack_integer (depth : Nat) {i : Int} (h : IsWord i) : ReadsBack depth (.integer i) := by
  intro level fuel rest hfuel hrest
  obtain ⟨c, cs, htext, hc⟩ := exists_integerText i
  cases fuel with
  | zero => simp [prettyChars, htext] at hfuel
  | succ fuel =>
    refine ⟨.number (Document.ofInteger i), ?_, NumberText.value?_ofInteger h⟩
    have hread := Document.readNumber_integerText i hrest
    rw [htext, List.map_cons, List.cons_append] at hread
    rw [prettyChars, htext, List.map_cons, List.cons_append, Document.read_number hc, hread]
    rfl

theorem readsBack_string (depth : Nat) (s : String) : ReadsBack depth (.string s) := by
  intro level fuel rest hfuel hrest
  cases fuel with
  | zero => simp [prettyChars, quoted] at hfuel
  | succ fuel =>
    refine ⟨.string (body s), ?_, by simp [Document.value?, decodeString_body]⟩
    have hread := readString_body s rest
    rw [prettyChars, map_quoted, Document.read, List.append_assoc, List.cons_append,
      Document.skipSpace_cons rfl]
    simp [hread]

theorem readItems_line {depth level fuel : Nat} {v : Value} (rest : List Glyph) (h : ReadsBack depth v)
    (hfuel : 2 * (v.prettyChars level).length ≤ fuel) (hrest : Ends rest) :
    ∃ d, d.value? depth = some v ∧
      Document.readItems (fuel + 1) ((newLine level).map some ++ ((v.prettyChars level).map some ++ rest)) =
        Document.itemsBehind fuel d rest := by
  obtain ⟨d, hread, hd⟩ := h hfuel hrest
  refine ⟨d, hd, ?_⟩
  rw [Document.readItems, Document.read_congr (Document.skipSpace_newLine level _), hread]
  rfl

theorem length_newLine (level : Nat) : (newLine level).length = 2 * level + 1 := by
  simp [newLine]

theorem readItems_prettyItems {depth level fuel : Nat} {v : Value} {vs : List Value} (below : Nat)
    (rest : List Glyph) (h : ∀ w ∈ v :: vs, ReadsBack depth w) (hfuel : 2 * (prettyItems level (v :: vs)).length ≤ fuel) :
    ∃ ds, Document.values? depth ds = some (v :: vs) ∧
      Document.readItems fuel
        ((prettyItems level (v :: vs)).map some ++ ((newLine below).map some ++ some ']' :: rest)) =
        some (ds, rest) := by
  induction vs generalizing v fuel with
  | nil =>
    cases fuel with
    | zero => simp [prettyItems, newLine] at hfuel
    | succ fuel =>
      simp only [prettyItems, List.length_append, length_newLine] at hfuel
      have hlength : 2 * (prettyChars level v).length ≤ fuel := by omega
      obtain ⟨d, hd, hread⟩ := readItems_line ((newLine below).map some ++ some ']' :: rest)
        (h v List.mem_cons_self) hlength (.newLine _)
      refine ⟨[d], by simp [Document.values?, hd], ?_⟩
      rw [prettyItems, List.map_append, List.append_assoc, hread, Document.itemsBehind_end]
  | cons w vs ih =>
    cases fuel with
    | zero => simp [prettyItems, newLine] at hfuel
    | succ fuel =>
      obtain ⟨hv, hvs⟩ := List.forall_mem_cons.1 h
      simp only [prettyItems, List.length_append, List.length_cons, length_newLine] at hfuel
      have hlength : 2 * (prettyChars level v).length ≤ fuel := by omega
      have hothers : 2 * (prettyItems level (w :: vs)).length ≤ fuel := by omega
      obtain ⟨ds, hds, hread⟩ := ih hvs hothers
      obtain ⟨d, hd, hline⟩ := readItems_line (some ',' :: ((prettyItems level (w :: vs)).map some ++
        ((newLine below).map some ++ some ']' :: rest))) hv hlength (.comma _)
      refine ⟨d :: ds, by simp [Document.values?, hd, hds], ?_⟩
      rw [prettyItems, List.map_append, List.map_append, List.map_cons, List.append_assoc, List.append_assoc,
        List.cons_append, hline, Document.itemsBehind_comma, hread]
      rfl

theorem exists_prettyChars {depth : Nat} {v : Value} (hv : v.Plain depth) (level : Nat) :
    ∃ c cs, v.prettyChars level = c :: cs ∧ Document.isSpace (some c) = false ∧ c ≠ ']' := by
  cases hv with
  | null => exact ⟨'n', _, rfl, rfl, by decide⟩
  | bool depth b => cases b <;> exact ⟨_, _, rfl, rfl, by decide⟩
  | @integer _ i =>
    obtain ⟨c, cs, htext, hc⟩ := exists_integerText i
    exact ⟨c, cs, htext, Document.isSpace_of_sign_or_digit hc,
      Document.ne_of_sign_or_digit hc (by decide) (by decide)⟩
  | string => exact ⟨'"', _, rfl, rfl, by decide⟩
  | @array _ items => cases items <;> exact ⟨'[', _, rfl, rfl, by decide⟩
  | @object _ ms => cases ms <;> exact ⟨'{', _, rfl, rfl, by decide⟩

theorem skipSpace_prettyItems {depth : Nat} {v : Value} (hv : v.Plain depth) (level : Nat) (vs : List Value)
    (tail rest : List Glyph) :
    Document.skipSpace ((prettyItems level (v :: vs)).map some ++ tail) ≠ some ']' :: rest := by
  obtain ⟨more, hmore⟩ : ∃ more, prettyItems level (v :: vs) = newLine level ++ (prettyChars level v ++ more) := by
    cases vs with
    | nil => exact ⟨[], by simp [prettyItems]⟩
    | cons w vs => exact ⟨',' :: prettyItems level (w :: vs), by simp [prettyItems]⟩
  obtain ⟨c, cs, hc, hspace, hend⟩ := exists_prettyChars hv level
  rw [hmore, hc, List.map_append, List.append_assoc, Document.skipSpace_newLine, List.cons_append, List.map_cons,
    List.cons_append, Document.skipSpace_cons hspace]
  intro h
  cases h
  exact hend rfl

theorem readsBack_array {depth : Nat} {items : List Value} (hitems : ∀ v ∈ items, v.Plain depth)
    (h : ∀ v ∈ items, ReadsBack depth v) : ReadsBack (depth + 1) (.array items) := by
  intro level fuel rest hfuel hrest
  cases fuel with
  | zero => cases items <;> simp [prettyChars] at hfuel
  | succ fuel =>
    cases items with
    | nil => exact ⟨.array [], rfl, rfl⟩
    | cons v vs =>
      simp only [prettyChars, List.length_append, List.length_cons] at hfuel
      have hlength : 2 * (prettyItems (level + 1) (v :: vs)).length ≤ fuel := by omega
      obtain ⟨ds, hds, hread⟩ := readItems_prettyItems level rest h hlength
      refine ⟨.array ds, ?_, by simp [Document.value?, hds]⟩
      have hlayout : (prettyChars level (.array (v :: vs))).map some ++ rest = some '[' ::
          ((prettyItems (level + 1) (v :: vs)).map some ++ ((newLine level).map some ++ some ']' :: rest)) := by
        simp [prettyChars]
      rw [hlayout, Document.read_array (skipSpace_prettyItems (hitems v List.mem_cons_self) _ _ _), hread]
      rfl

theorem readMembers_line {depth level fuel : Nat} {v : Value} (name : String) (rest : List Glyph)
    (h : ReadsBack depth v) (hfuel : 2 * (v.prettyChars level).length ≤ fuel) (hrest : Ends rest) :
    ∃ d, d.value? depth = some v ∧
      Document.readMembers (fuel + 1) ((newLine level).map some ++ ((quoted name.toList).map some ++
        some ':' :: some ' ' :: ((v.prettyChars level).map some ++ rest))) =
        Document.membersBehind fuel (body name, d) rest := by
  obtain ⟨d, hread, hd⟩ := h hfuel hrest
  refine ⟨d, hd, ?_⟩
  have hskip : ∀ gs, Document.skipSpace (some ' ' :: gs) = Document.skipSpace gs := fun _ => rfl
  have hblank : Document.read fuel (some ' ' :: ((v.prettyChars level).map some ++ rest)) = some (d, rest) :=
    (Document.read_congr (hskip _)).trans hread
  have hcolon : ∀ gs, Document.skipSpace (some ':' :: gs) = some ':' :: gs := Document.skipSpace_cons rfl
  rw [Document.readMembers, Document.skipSpace_newLine, map_quoted, List.append_assoc, List.cons_append,
    Document.skipSpace_cons rfl]
  simp only [List.singleton_append, readString_body, hcolon, hblank]
  rfl

theorem readMembers_prettyMembers {depth level fuel : Nat} {m : String × Value} {ms : Members} (below : Nat)
    (rest : List Glyph) (h : ∀ n ∈ m :: ms, ReadsBack depth n.2)
    (hfuel : 2 * (prettyMembers level (m :: ms)).length ≤ fuel) :
    ∃ ds, Document.memberValues? depth ds = some (m :: ms) ∧
      Document.readMembers fuel
        ((prettyMembers level (m :: ms)).map some ++ ((newLine below).map some ++ some '}' :: rest)) =
        some (ds, rest) := by
  induction ms generalizing m fuel with
  | nil =>
    obtain ⟨name, v⟩ := m
    cases fuel with
    | zero => simp [prettyMembers, newLine] at hfuel
    | succ fuel =>
      simp only [prettyMembers, List.length_append, List.length_cons, length_newLine] at hfuel
      have hv : ReadsBack depth v := h (name, v) List.mem_cons_self
      have hlength : 2 * (prettyChars level v).length ≤ fuel := by omega
      obtain ⟨d, hd, hread⟩ := readMembers_line name ((newLine below).map some ++ some '}' :: rest) hv hlength
        (.newLine _)
      refine ⟨[(body name, d)], by simp [Document.memberValues?, decodeString_body, hd], ?_⟩
      rw [Document.membersBehind_end] at hread
      simpa [prettyMembers] using hread
  | cons n ms ih =>
    obtain ⟨name, v⟩ := m
    cases fuel with
    | zero => simp [prettyMembers, newLine] at hfuel
    | succ fuel =>
      obtain ⟨hhead, hms⟩ := List.forall_mem_cons.1 h
      have hv : ReadsBack depth v := hhead
      simp only [prettyMembers, List.length_append, List.length_cons, length_newLine] at hfuel
      have hlength : 2 * (prettyChars level v).length ≤ fuel := by omega
      have hothers : 2 * (prettyMembers level (n :: ms)).length ≤ fuel := by omega
      obtain ⟨ds, hds, hread⟩ := ih hms hothers
      obtain ⟨d, hd, hline⟩ := readMembers_line name (some ',' :: ((prettyMembers level (n :: ms)).map some ++
        ((newLine below).map some ++ some '}' :: rest))) hv hlength (.comma _)
      refine ⟨(body name, d) :: ds, by simp [Document.memberValues?, decodeString_body, hd, hds], ?_⟩
      rw [Document.membersBehind_comma, hread] at hline
      simpa [prettyMembers] using hline

theorem skipSpace_prettyMembers (m : String × Value) (level : Nat) (ms : Members) (tail rest : List Glyph) :
    Document.skipSpace ((prettyMembers level (m :: ms)).map some ++ tail) ≠ some '}' :: rest := by
  obtain ⟨more, hmore⟩ : ∃ more, prettyMembers level (m :: ms) = newLine level ++ '"' :: more := by
    cases ms <;> exact ⟨_, by simp [prettyMembers, quoted]; rfl⟩
  rw [hmore, List.map_append, List.append_assoc, Document.skipSpace_newLine, List.map_cons, List.cons_append,
    Document.skipSpace_cons rfl]
  intro h
  cases h

theorem readsBack_object {depth : Nat} {ms : Members} (sorted : ms.Sorted)
    (h : ∀ m ∈ ms, ReadsBack depth m.2) : ReadsBack (depth + 1) (.object ms) := by
  intro level fuel rest hfuel hrest
  cases fuel with
  | zero => cases ms <;> simp [prettyChars] at hfuel
  | succ fuel =>
    cases ms with
    | nil => exact ⟨.object [], rfl, rfl⟩
    | cons m ms =>
      simp only [prettyChars, List.length_append, List.length_cons] at hfuel
      have hlength : 2 * (prettyMembers (level + 1) (m :: ms)).length ≤ fuel := by omega
      obtain ⟨ds, hds, hread⟩ := readMembers_prettyMembers level rest h hlength
      refine ⟨.object ds, ?_, by simp [Document.value?, hds, Members.ofList_of_sorted sorted]⟩
      have hlayout : (prettyChars level (.object (m :: ms))).map some ++ rest = some '{' ::
          ((prettyMembers (level + 1) (m :: ms)).map some ++ ((newLine level).map some ++ some '}' :: rest)) := by
        simp [prettyChars]
      rw [hlayout, Document.read_object (skipSpace_prettyMembers m _ _ _), hread]
      rfl

theorem readsBack_of_plain {depth : Nat} {v : Value} (h : v.Plain depth) : ReadsBack depth v := by
  -- The parts of an array or object are plain one level further down, where the reader looks at them.
  induction h with
  | null depth =>
    intro level fuel rest hfuel hrest
    cases fuel with
    | zero => cases hfuel
    | succ fuel => exact ⟨.null, rfl, rfl⟩
  | bool depth b =>
    intro level fuel rest hfuel hrest
    cases fuel with
    | zero => cases b <;> cases hfuel
    | succ fuel => cases b <;> exact ⟨.bool _, rfl, rfl⟩
  | integer depth h => exact readsBack_integer depth h
  | string depth s => exact readsBack_string depth s
  | array hitems ih => exact readsBack_array hitems ih
  | object sorted _ ih => exact readsBack_object sorted ih

/-- A plain value is read from its layout. -/
theorem parse?_pretty {v : Value} (h : v.Plain depthLimit) : parse? v.pretty = some v := by
  have hlength : 2 * (v.prettyChars 0).length ≤ 2 * ((v.prettyChars 0).map some).length + 2 := by simp
  obtain ⟨d, hread, hd⟩ := readsBack_of_plain h hlength .nothing
  rw [List.append_nil] at hread
  have hparse : Document.parse ((v.prettyChars 0).map some) = some d := by
    rw [Document.parse, hread]
    rfl
  rw [parse?, Text.ofText, pretty, String.toList_ofList, ofGlyphs?, hparse]
  exact hd

end Value

namespace Document

theorem exists_of_mem_values? {depth : Nat} {ds : List Document} {vs : List Value}
    (h : values? depth ds = some vs) {v : Value} (hv : v ∈ vs) : ∃ d, value? depth d = some v := by
  induction ds generalizing vs with
  | nil =>
    cases h
    cases hv
  | cons d ds ih =>
    simp only [values?] at h
    split at h
    · rename_i w ws hd hds
      cases h
      rcases List.mem_cons.1 hv with rfl | hv
      · exact ⟨d, hd⟩
      · exact ih hds hv
    · cases h

theorem exists_of_mem_memberValues? {depth : Nat} {ds : List (List Glyph × Document)} {ms : Members}
    (h : memberValues? depth ds = some ms) {m : String × Value} (hm : m ∈ ms) :
    ∃ d, value? depth d = some m.2 := by
  induction ds generalizing ms with
  | nil =>
    cases h
    cases hm
  | cons d ds ih =>
    obtain ⟨name, d⟩ := d
    simp only [memberValues?] at h
    split at h
    · rename_i n w ws hname hd hds
      cases h
      rcases List.mem_cons.1 hm with rfl | hm
      · exact ⟨d, hd⟩
      · exact ih hds hm
    · cases h

theorem integer_of_value? {depth : Nat} {d : Document} {i : Int} (h : value? depth d = some (.integer i)) :
    IsWord i := by
  cases d with
  | number n =>
    rcases NumberText.cases_of_value? h with ⟨j, hj, hword⟩ | ⟨x, hx⟩
    · cases hj
      exact hword
    · cases hx
  | _ => simp [value?] at h

theorem array_of_value? {depth : Nat} {d : Document} {vs : List Value} (h : value? depth d = some (.array vs)) :
    ∃ below ds, depth = below + 1 ∧ values? below ds = some vs := by
  cases d with
  | array ds =>
    cases depth with
    | zero => simp [value?] at h
    | succ below => exact ⟨below, ds, rfl, by simpa [value?] using h⟩
  | number n => rcases NumberText.cases_of_value? h with ⟨_, hv, -⟩ | ⟨_, hv⟩ <;> cases hv
  | _ => simp [value?] at h

theorem object_of_value? {depth : Nat} {d : Document} {ms : Members} (h : value? depth d = some (.object ms)) :
    ∃ below ds found, depth = below + 1 ∧ memberValues? below ds = some found ∧ ms = Members.ofList found := by
  cases d with
  | object ds =>
    cases depth with
    | zero => simp [value?] at h
    | succ below =>
      rw [value?, if_neg (Nat.succ_ne_zero below)] at h
      obtain ⟨found, hfound, hms⟩ := Option.map_eq_some_iff.1 h
      cases hms
      exact ⟨below, ds, found, rfl, hfound, rfl⟩
  | number n => rcases NumberText.cases_of_value? h with ⟨_, hv, -⟩ | ⟨_, hv⟩ <;> cases hv
  | _ => simp [value?] at h

/-- What was read without a double is plain. -/
theorem plain_of_value? {depth : Nat} {d : Document} {v : Value} (h : value? depth d = some v)
    (hv : v.Whole) : v.Plain depth := by
  induction hv generalizing depth d with
  | null => exact .null depth
  | bool b => exact .bool depth b
  | integer i => exact .integer depth (integer_of_value? h)
  | string s => exact .string depth s
  | array _ ih =>
    obtain ⟨below, ds, rfl, hds⟩ := array_of_value? h
    refine .array fun v hv => ?_
    obtain ⟨d, hd⟩ := exists_of_mem_values? hds hv
    exact ih v hv hd
  | object _ ih =>
    obtain ⟨below, ds, found, rfl, hds, rfl⟩ := object_of_value? h
    refine .object (Members.sorted_ofList found) fun m hm => ?_
    obtain ⟨d, hd⟩ := exists_of_mem_memberValues? hds (Members.mem_ofList hm)
    exact ih m hm hd

end Document

theorem Value.plain_of_ofBytes? {bytes : ByteArray} {v : Value} (h : ofBytes? bytes = some v) (hv : v.Whole) :
    v.Plain depthLimit := by
  obtain ⟨d, -, hd⟩ := Option.bind_eq_some_iff.1 h
  exact Document.plain_of_value? hd hv

end Json

end EngineMigrate
