import EngineMigrate.Proofs.Statement
import EngineMigrate.Server.Release
import Mathlib.Data.List.DropRight

/-!
Releases as texts.  A release is read from a text without the blanks around it, and its tag goes up to the
build metadata.  Main statement: a release that was read is read back from its own text, unless blanks stood
between its tag and the metadata; those are lost, and a tag of nothing but blanks makes the text unreadable.
-/
namespace EngineMigrate

namespace Text

variable {cs : List Char} {c : Char}

theorem trimEnd_eq_rdropWhile (cs : List Char) : trimEnd cs = cs.rdropWhile isBlank := rfl

theorem trimEnd_append_cons (h : isBlank c = false) (xs ys : List Char) :
    trimEnd (xs ++ c :: ys) = xs ++ c :: trimEnd ys := by
  have hreverse : (xs ++ c :: ys).reverse = ys.reverse ++ c :: xs.reverse := by simp
  rw [trimEnd, hreverse, List.dropWhile_append]
  split
  · rename_i hblank
    rw [List.isEmpty_iff] at hblank
    simp [trimEnd, hblank, h]
  · simp [trimEnd]

theorem trimEnd_eq_self_iff : trimEnd cs = cs ↔ ∀ c, cs.getLast? = some c → isBlank c = false := by
  rw [trimEnd_eq_rdropWhile, List.rdropWhile_eq_self_iff]
  constructor
  · intro h c hc
    have hne : cs ≠ [] := List.ne_nil_of_mem (List.mem_of_getLast? hc)
    rw [List.getLast?_eq_some_getLast hne] at hc
    cases hc
    simpa using h hne
  · intro h hne
    simpa using h _ (List.getLast?_eq_some_getLast hne)

theorem trimEnd_eq_nil_iff {s : String} : trimEnd s.toList = [] ↔ allBlank s = true := by
  rw [trimEnd_eq_rdropWhile, List.rdropWhile_eq_nil_iff, allBlank, List.all_eq_true]

theorem trim_of_not_blank (h : ∀ c ∈ cs, isBlank c = false) : trim cs = cs := by
  have hend : trimEnd cs = cs :=
    trimEnd_eq_self_iff.2 fun c hc => h c (List.mem_of_getLast? hc)
  cases cs with
  | nil => rfl
  | cons c cs => simpa [trim, trimStart, h c List.mem_cons_self] using hend

theorem mem_of_mem_trim (h : c ∈ trim cs) : c ∈ cs :=
  (List.dropWhile_sublist _).mem ((List.rdropWhile_prefix isBlank _).mem h)

theorem isBlank_of_isDigit (h : c.isDigit = true) : isBlank c = false := by
  have hbounds : 48 ≤ c.toNat ∧ c.toNat ≤ 57 := by
    simpa [Char.isDigit, UInt32.le_iff_toNat_le] using h
  have hall : ∀ n : Fin 58, 48 ≤ n.val → isBlank (Char.ofNat n) = false := by decide
  simpa using hall ⟨c.toNat, by omega⟩ hbounds.1

end Text

namespace Release

open Text (isBlank trimEnd)

variable {s : String} {r : Release}

/-- The text of a release without what stands around it: blanks, a `v` in front, and build metadata. -/
def core (cs : List Char) : List Char := ((Text.trim cs).dropWhile (· == 'v')).takeWhile (· != '+')

def numbers (r : Release) : List Char :=
  Text.decimal r.major ++ '.' :: (Text.decimal r.minor ++ '.' :: Text.decimal r.patch)

/-- The numbers fit, and the tag is not empty and does not reach into build metadata. -/
structure Printable (r : Release) : Prop where
  major : r.major < numberLimit
  minor : r.minor < numberLimit
  patch : r.patch < numberLimit
  tag : ∀ tag, r.pre = some tag → tag ≠ "" ∧ '+' ∉ tag.toList

/-- A release without the blanks at the end of its tag. -/
def trimmed (r : Release) : Release :=
  { r with pre := r.pre.map fun tag => String.ofList (trimEnd tag.toList) }

theorem trimmed_eq_self_iff : r.trimmed = r ↔
    ∀ tag c, r.pre = some tag → tag.toList.getLast? = some c → isBlank c = false := by
  have hpre : r.trimmed = r ↔ r.pre.map (fun tag => String.ofList (trimEnd tag.toList)) = r.pre := by
    rw [trimmed]
    cases r
    simp
  rw [hpre]
  cases r.pre with
  | none => simp
  | some tag =>
    rw [Option.map_some, Option.some.injEq, ← String.toList_inj, String.toList_ofList,
      Text.trimEnd_eq_self_iff]
    exact ⟨fun h _ c htag => by cases htag; exact h c, fun h c => h tag c rfl⟩

theorem toList_text_release (r : Release) (h : r.pre = none) : r.text.toList = r.numbers := by
  simp [text, h, numbers, Text.decimal]

theorem toList_text_tagged (r : Release) {tag : String} (h : r.pre = some tag) :
    r.text.toList = r.numbers ++ '-' :: tag.toList := by
  simp [text, h, numbers, Text.decimal]

theorem mem_numbers {c : Char} (h : c ∈ r.numbers) : c.isDigit = true ∨ c = '.' := by
  simp only [numbers, List.mem_append, List.mem_cons] at h
  rcases h with h | h | h | h | h
  · exact .inl (Text.isDigit_of_mem_decimal h)
  · exact .inr h
  · exact .inl (Text.isDigit_of_mem_decimal h)
  · exact .inr h
  · exact .inl (Text.isDigit_of_mem_decimal h)

theorem not_mem_numbers {c : Char} (hdigit : c.isDigit = false) (hdot : c ≠ '.') : c ∉ r.numbers := by
  intro h
  rcases mem_numbers h with h | h
  · simp [h] at hdigit
  · exact hdot h

theorem isBlank_of_mem_numbers {c : Char} (h : c ∈ r.numbers) : isBlank c = false := by
  rcases mem_numbers h with h | rfl
  · exact Text.isBlank_of_isDigit h
  · decide

theorem numbers_ne_nil (r : Release) : r.numbers ≠ [] := by
  simp [numbers]

theorem splitOn_numbers (r : Release) : r.numbers.splitOn '.' =
    [Text.decimal r.major, Text.decimal r.minor, Text.decimal r.patch] := by
  have hdot : ∀ n, '.' ∉ Text.decimal n := fun n h => absurd (Text.isDigit_of_mem_decimal h) (by decide)
  rw [numbers, List.splitOn_append_cons_self_of_not_mem (hdot _),
    List.splitOn_append_cons_self_of_not_mem (hdot _), List.splitOn_eq_singleton (hdot _)]

/-- Nothing around the printed numbers is cut off in front, and behind them only blanks are. -/
theorem core_of_trim {cs tail : List Char} (h : Text.trim cs = r.numbers ++ tail) (htail : '+' ∉ tail) :
    core cs = r.numbers ++ tail := by
  have hfront : (r.numbers ++ tail).dropWhile (· == 'v') = r.numbers ++ tail := by
    obtain ⟨c, cs, hcs⟩ := List.exists_cons_of_ne_nil (numbers_ne_nil r)
    have hv : c ≠ 'v' := fun hc =>
      not_mem_numbers (by decide) (by decide) (hc ▸ hcs ▸ List.mem_cons_self)
    simp [hcs, hv]
  have hplus : '+' ∉ r.numbers := not_mem_numbers (by decide) (by decide)
  rw [core, h, hfront, List.takeWhile_eq_self_iff]
  intro c hc
  have hne : c ≠ '+' := by
    rintro rfl
    exact (List.mem_append.1 hc).elim hplus htail
  simpa using hne

theorem core_numbers (r : Release) : core r.numbers = r.numbers := by
  have h := Text.trim_of_not_blank fun c => isBlank_of_mem_numbers (r := r) (c := c)
  have hcore : core r.numbers = r.numbers ++ [] := core_of_trim (by simpa using h) List.not_mem_nil
  rwa [List.append_nil] at hcore

theorem core_tagged {tag : List Char} (h : '+' ∉ tag) :
    core (r.numbers ++ '-' :: tag) = r.numbers ++ '-' :: trimEnd tag := by
  have hfront : Text.trimStart (r.numbers ++ '-' :: tag) = r.numbers ++ '-' :: tag := by
    obtain ⟨c, cs, hcs⟩ := List.exists_cons_of_ne_nil (numbers_ne_nil r)
    have hc : isBlank c = false := isBlank_of_mem_numbers (r := r) (hcs ▸ List.mem_cons_self)
    simp [Text.trimStart, hcs, hc]
  refine core_of_trim ?_ ?_
  · rw [Text.trim, hfront, Text.trimEnd_append_cons (by decide)]
  · have hplus : '+' ∉ trimEnd tag := fun hmem => h ((List.rdropWhile_prefix isBlank tag).mem hmem)
    simpa using hplus

theorem splitTag_untagged {front : List Char} (h : '-' ∉ front) : splitTag front = some (front, none) := by
  have hall : ∀ c ∈ front, (c != '-') = true := fun c hc => by simpa using ne_of_mem_of_not_mem hc h
  rw [splitTag, List.dropWhile_eq_nil_iff.2 hall]

theorem splitTag_tagged {front tag : List Char} (h : '-' ∉ front) :
    splitTag (front ++ '-' :: tag) = if tag = [] then none else some (front, some tag) := by
  have hall : ∀ c ∈ front, (c != '-') = true := fun c hc => by simpa using ne_of_mem_of_not_mem hc h
  have hdrop : (front ++ '-' :: tag).dropWhile (· != '-') = '-' :: tag := by
    rw [List.dropWhile_append_of_pos hall]
    simp
  have htake : (front ++ '-' :: tag).takeWhile (· != '-') = front := by
    rw [List.takeWhile_append_of_pos hall]
    simp
  rw [splitTag, hdrop, htake]
  cases tag <;> simp

theorem parse?_eq_some_iff : parse? s = some r ↔ ∃ front tag a b c,
    splitTag (core s.toList) = some (front, tag) ∧ front.splitOn '.' = [a, b, c] ∧
    Text.unsigned? numberLimit a = some r.major ∧ Text.unsigned? numberLimit b = some r.minor ∧
    Text.unsigned? numberLimit c = some r.patch ∧ r.pre = tag.map String.ofList := by
  constructor
  · intro h
    obtain ⟨⟨front, tag⟩, hsplit, h⟩ := Option.bind_eq_some_iff.1 h
    dsimp only at h
    split at h
    · rename_i a b c hparts
      obtain ⟨major, hmajor, h⟩ := Option.bind_eq_some_iff.1 h
      obtain ⟨minor, hminor, h⟩ := Option.bind_eq_some_iff.1 h
      obtain ⟨patch, hpatch, h⟩ := Option.bind_eq_some_iff.1 h
      cases h
      exact ⟨front, tag, a, b, c, hsplit, hparts, hmajor, hminor, hpatch, rfl⟩
    · cases h
  · rintro ⟨front, tag, a, b, c, hsplit, hparts, hmajor, hminor, hpatch, hpre⟩
    refine Option.bind_eq_some_iff.2 ⟨(front, tag), hsplit, ?_⟩
    dsimp only
    rw [hparts]
    simp only [hmajor, hminor, hpatch, ← hpre]
    rfl

theorem splitTag_eq_tagged {cs front tag : List Char} (h : splitTag cs = some (front, some tag)) :
    cs = front ++ '-' :: tag ∧ tag ≠ [] := by
  rw [splitTag] at h
  split at h
  · cases h
  · cases h
  · rename_i c rest hne hdrop
    cases h
    have hdash : c = '-' := by
      have hhead := List.head?_dropWhile_not (· != '-') cs
      rw [hdrop] at hhead
      simpa using hhead
    subst hdash
    refine ⟨?_, by simpa using hne⟩
    rw [← hdrop, List.takeWhile_append_dropWhile]

theorem parse?_eq_none_of_splitTag (h : splitTag (core s.toList) = none) : parse? s = none := by
  refine Option.eq_none_iff_forall_ne_some.2 fun r hr => ?_
  obtain ⟨front, tag, a, b, c, hsplit, -⟩ := parse?_eq_some_iff.1 hr
  rw [h] at hsplit
  cases hsplit

theorem pre_of_parse? (h : parse? s = some r) {tag : String} (htag : r.pre = some tag) :
    ∃ front, core s.toList = front ++ '-' :: tag.toList ∧ tag ≠ "" := by
  obtain ⟨front, tag?, a, b, c, hsplit, -, -, -, -, hpre⟩ := parse?_eq_some_iff.1 h
  obtain ⟨cs, rfl, rfl⟩ := Option.map_eq_some_iff.1 (hpre.symm.trans htag)
  obtain ⟨hcore, hne⟩ := splitTag_eq_tagged hsplit
  exact ⟨front, by simpa using hcore, by simpa using hne⟩

theorem printable_of_parse? (h : parse? s = some r) : r.Printable := by
  obtain ⟨front, tag, a, b, c, -, -, hmajor, hminor, hpatch, -⟩ := parse?_eq_some_iff.1 h
  refine ⟨Text.lt_of_unsigned? hmajor, Text.lt_of_unsigned? hminor, Text.lt_of_unsigned? hpatch, ?_⟩
  intro tag htag
  obtain ⟨front, hcore, hne⟩ := pre_of_parse? h htag
  refine ⟨hne, fun hplus => ?_⟩
  have hmem : '+' ∈ core s.toList := by simp [hcore, hplus]
  simpa using List.mem_takeWhile_imp hmem

/-- A printable release is read from its text but for the blanks at the end of its tag. -/
theorem parse?_text (h : r.Printable) :
    parse? r.text = if r.pre.any Text.allBlank then none else some r.trimmed := by
  have hdash : '-' ∉ r.numbers := not_mem_numbers (by decide) (by decide)
  cases hpre : r.pre with
  | none =>
    refine parse?_eq_some_iff.2 ⟨r.numbers, none, _, _, _, ?_, splitOn_numbers r,
      Text.unsigned?_decimal h.major, Text.unsigned?_decimal h.minor, Text.unsigned?_decimal h.patch, ?_⟩
    · rw [toList_text_release r hpre, core_numbers, splitTag_untagged hdash]
    · simp [trimmed, hpre]
  | some tag =>
    have hsplit : splitTag (core r.text.toList) =
        if trimEnd tag.toList = [] then none else some (r.numbers, some (trimEnd tag.toList)) := by
      rw [toList_text_tagged r hpre, core_tagged (h.tag tag hpre).2, splitTag_tagged hdash]
    rw [Option.any_some]
    cases hblank : Text.allBlank tag with
    | true =>
      rw [if_pos (Text.trimEnd_eq_nil_iff.2 hblank)] at hsplit
      exact parse?_eq_none_of_splitTag hsplit
    | false =>
      rw [if_neg (by simp [Text.trimEnd_eq_nil_iff, hblank])] at hsplit
      refine parse?_eq_some_iff.2 ⟨_, _, _, _, _, hsplit, splitOn_numbers r,
        Text.unsigned?_decimal h.major, Text.unsigned?_decimal h.minor, Text.unsigned?_decimal h.patch, ?_⟩
      simp [trimmed, hpre]

theorem isBlank_of_no_metadata (h : parse? s = some r) (hplus : '+' ∉ s.toList) {tag : String} {c : Char}
    (htag : r.pre = some tag) (hc : tag.toList.getLast? = some c) : isBlank c = false := by
  obtain ⟨front, hcore, hne⟩ := pre_of_parse? h htag
  obtain ⟨vs, hvs⟩ := List.dropWhile_suffix (l := Text.trim s.toList) (· == 'v')
  have huncut : core s.toList = (Text.trim s.toList).dropWhile (· == 'v') := by
    refine List.takeWhile_eq_self_iff.2 fun d hd => ?_
    have hmem : d ∈ s.toList := Text.mem_of_mem_trim ((List.dropWhile_sublist _).mem hd)
    simpa using ne_of_mem_of_not_mem hmem hplus
  have htag : tag.toList ≠ [] := by simpa using hne
  have hlast : (trimEnd (Text.trimStart s.toList)).getLast? = some c := by
    rw [← Text.trim, ← hvs, ← huncut, hcore, List.getLast?_append_of_ne_nil _ (by simp),
      List.getLast?_append_of_ne_nil _ (by simp), List.getLast?_cons_of_ne_nil htag, hc]
  exact Text.getLast_trimEnd hlast

/-- A blank tag is lost altogether, and what is left of another one is the tag only if no blank ends it. -/
theorem parse?_text_eq_self_iff (h : r.Printable) : parse? r.text = some r ↔
    ∀ tag c, r.pre = some tag → tag.toList.getLast? = some c → isBlank c = false := by
  rw [parse?_text h, ← trimmed_eq_self_iff]
  constructor
  · intro hself
    split at hself
    · cases hself
    · exact Option.some.inj hself
  · intro hself
    have hleft : r.pre.any Text.allBlank = false := by
      rw [Option.any_eq_false]
      intro tag htag
      have htrim : some (String.ofList (trimEnd tag.toList)) = some tag := by
        simpa [trimmed, htag] using congrArg pre hself
      rw [← Bool.not_eq_true, ← Text.trimEnd_eq_nil_iff]
      intro hblank
      simp only [hblank, Option.some.injEq] at htrim
      exact (h.tag tag htag).1 htrim.symm
    simp [hleft, hself]

/-- A release that was read is read from its text with the blanks at the end of its tag gone, which are there
only if build metadata was cut off behind them.  Nothing is read if the tag is blank altogether. -/
theorem parse?_text_iff (h : parse? s = some r) :
    (parse? r.text = some r ↔
      ∀ tag c, r.pre = some tag → tag.toList.getLast? = some c → isBlank c = false) ∧
    (∀ back, parse? r.text = some back → back = r.trimmed) ∧
    (parse? r.text = none ↔ ∃ tag, r.pre = some tag ∧ Text.allBlank tag = true) ∧
    ('+' ∉ s.toList → parse? r.text = some r) := by
  have hprintable := printable_of_parse? h
  have hself := parse?_text_eq_self_iff hprintable
  refine ⟨hself, fun back hback => ?_, ?_, fun hplus => hself.2 fun tag c => isBlank_of_no_metadata h hplus⟩
  · rw [parse?_text hprintable] at hback
    split at hback
    · cases hback
    · exact (Option.some.inj hback).symm
  · rw [parse?_text hprintable]
    rw [← Option.any_eq_true]
    cases r.pre.any Text.allBlank <;> simp

/-- A text with blanks and marks around it and dashes in the tag, of which the metadata is all that is lost. -/
theorem parse?_text_iff_nightly :
    parse? "\tvv2.0.0-rc-1.v+n-1 " = some ⟨2, 0, 0, some "rc-1.v"⟩ ∧
    parse? (Release.text ⟨2, 0, 0, some "rc-1.v"⟩) = some ⟨2, 0, 0, some "rc-1.v"⟩ := by
  have hread : parse? "\tvv2.0.0-rc-1.v+n-1 " = some ⟨2, 0, 0, some "rc-1.v"⟩ := by decide +kernel
  refine ⟨hread, (parse?_text_iff hread).1.2 ?_⟩
  intro tag c htag hc
  cases htag
  cases hc
  decide

/-- A blank between the tag and the build metadata stays in the tag, but is not read again. -/
theorem text_loses_blank : parse? "1.2.3-a +b" = some ⟨1, 2, 3, some "a "⟩ ∧
    Release.text ⟨1, 2, 3, some "a "⟩ = "1.2.3-a " ∧
    parse? "1.2.3-a " = some ⟨1, 2, 3, some "a"⟩ ∧ parse? "1.2.3-a " ≠ some ⟨1, 2, 3, some "a "⟩ := by
  decide +kernel

end Release
end EngineMigrate
