import EngineMigrate.Proofs.FaultTrace
import EngineMigrate.Proofs.ReleaseText
import EngineMigrate.Text.Cut

/-!
Fault paths as texts.  A path is the root `$` with a spelling of each step behind it: a name behind a dot, or
a pair of brackets around a quoted name or around digits.  Main statements: a path in this notation is read as
the steps that it spells, and leads where they lead; every other text is refused, but for one that ends inside
a bracket, which is read as if the bracket were closed there.
-/
namespace EngineMigrate

open Json (Value Members)

namespace Text

variable {cs : List Char}

theorem exists_blanks_trim (cs : List Char) : ∃ before after, (∀ c ∈ before, isBlank c = true) ∧
    (∀ c ∈ after, isBlank c = true) ∧ cs = before ++ (trim cs ++ after) := by
  refine ⟨cs.takeWhile isBlank, (trimStart cs).rtakeWhile isBlank, fun c => List.mem_takeWhile_imp,
    fun c => List.mem_rtakeWhile_imp, ?_⟩
  rw [trim, trimEnd_eq_rdropWhile, List.rdropWhile_append_rtakeWhile, trimStart,
    List.takeWhile_append_dropWhile]

theorem trimEnd_append_blanks {after : List Char} (h : ∀ c ∈ after, isBlank c = true) (cs : List Char) :
    trimEnd (cs ++ after) = trimEnd cs := by
  have hreverse : ∀ c ∈ after.reverse, isBlank c = true := fun c hc => h c (List.mem_reverse.1 hc)
  rw [trimEnd, List.reverse_append, List.dropWhile_append_of_pos hreverse, trimEnd]

theorem trim_between_blanks {before after : List Char} (hbefore : ∀ c ∈ before, isBlank c = true)
    (hafter : ∀ c ∈ after, isBlank c = true) (hcs : ∀ c ∈ cs, isBlank c = false) :
    trim (before ++ (cs ++ after)) = cs := by
  have hstart : trim (before ++ (cs ++ after)) = trim (cs ++ after) := by
    rw [trim, trimStart, List.dropWhile_append_of_pos hbefore, trim, trimStart]
  rw [hstart]
  cases cs with
  | nil => rw [List.nil_append, trim, trimStart, List.dropWhile_eq_nil_iff.2 hafter]; rfl
  | cons c cs =>
    have hc : trimStart (c :: cs ++ after) = c :: cs ++ after := by
      simp [trimStart, hcs c List.mem_cons_self]
    rw [trim, hc, trimEnd_append_blanks hafter, trimEnd_eq_self_iff]
    exact fun d hd => hcs d (List.mem_of_getLast? hd)

end Text

namespace FaultPath

variable {g : Segment} {gs : List Segment} {inner text cs : List Char}

/-- What a pair of brackets may hold: a name between quotes of one kind, or the digits of a position, a sign in
front of them and blanks around them allowed. -/
inductive Holds : List Char → Segment → Prop where
  | name {q : Char} (hq : q = '\'' ∨ q = '"') (name : List Char) :
    Holds (q :: (name ++ [q])) (.key (String.ofList name))
  | position {before sign ds after : List Char} (hbefore : ∀ c ∈ before, Text.isBlank c = true)
    (hsign : sign = [] ∨ sign = ['+']) (hds : IsDigits ds) (hlt : Text.digitsValue ds < Text.wordLimit)
    (hafter : ∀ c ∈ after, Text.isBlank c = true) :
    Holds (before ++ (sign ++ ds ++ after)) (.index (Text.digitsValue ds))

theorem unquote?_eq_some_iff {q : Char} {name : List Char} :
    unquote? q inner = some name ↔ inner = q :: (name ++ [q]) := by
  cases inner with
  | nil => simp [unquote?]
  | cons c cs =>
    rw [unquote?, Option.ite_none_right_eq_some, Option.some.injEq, Bool.and_eq_true, decide_eq_true_eq,
      decide_eq_true_eq, List.getLast?_eq_some_iff, List.cons.injEq]
    constructor
    · rintro ⟨⟨rfl, ys, rfl⟩, rfl⟩
      simp
    · rintro ⟨rfl, rfl⟩
      simp

theorem digits?_eq_some_iff {limit n : Nat} {ds : List Char} :
    Text.digits? limit ds = some n ↔ IsDigits ds ∧ Text.digitsValue ds = n ∧ n < limit := by
  constructor
  · intro h
    have hds : IsDigits ds := by
      refine ⟨fun hnil => ?_, fun c hc => ?_⟩
      · rw [hnil] at h
        cases h
      · rw [Text.digits?] at h
        split at h
        · cases h
        · rename_i hall
          simp only [Bool.or_eq_true, Bool.not_eq_true', not_or, Bool.not_eq_false] at hall
          exact List.all_eq_true.1 hall.2 c hc
    rw [digits?_eq hds, Option.ite_none_right_eq_some, Option.some.injEq] at h
    exact ⟨hds, h.2, h.2 ▸ h.1⟩
  · rintro ⟨hds, rfl, hlt⟩
    rw [digits?_eq hds, if_pos hlt]

theorem unsigned?_eq_some_iff {limit n : Nat} : Text.unsigned? limit cs = some n ↔
    ∃ sign ds, (sign = [] ∨ sign = ['+']) ∧ cs = sign ++ ds ∧
      IsDigits ds ∧ Text.digitsValue ds = n ∧ n < limit := by
  constructor
  · intro h
    rw [Text.unsigned?.eq_def] at h
    split at h
    · rename_i ds
      exact ⟨['+'], ds, .inr rfl, rfl, digits?_eq_some_iff.1 h⟩
    · exact ⟨[], cs, .inl rfl, rfl, digits?_eq_some_iff.1 h⟩
  · rintro ⟨sign, ds, rfl | rfl, rfl, h⟩
    · obtain ⟨c, rest, rfl⟩ := List.exists_cons_of_ne_nil h.1.1
      have hc : c ≠ '+' := fun hplus => absurd (h.1.2 c List.mem_cons_self) (by simp [hplus])
      have hunsigned : Text.unsigned? limit (c :: rest) = Text.digits? limit (c :: rest) := by
        rw [Text.unsigned?]
        exact fun _ hplus => hc (List.cons.inj hplus).1
      exact hunsigned.trans (digits?_eq_some_iff.2 h)
    · exact digits?_eq_some_iff.2 h

section

variable {before sign ds after : List Char} (hsign : sign = [] ∨ sign = ['+']) (hds : IsDigits ds)
include hsign hds

theorem isDigit_of_mem_signed {c : Char} (hc : c ∈ sign ++ ds) : c.isDigit = true ∨ c = '+' := by
  rcases List.mem_append.1 hc with hc | hc
  · rcases hsign with rfl | rfl
    · cases hc
    · exact .inr (List.mem_singleton.1 hc)
  · exact .inl (hds.2 c hc)

theorem isBlank_of_mem_signed {c : Char} (hc : c ∈ sign ++ ds) : Text.isBlank c = false := by
  rcases isDigit_of_mem_signed hsign hds hc with hdigit | rfl
  · exact isBlank_of_isDigit hdigit
  · decide

theorem unquote?_position (hbefore : ∀ c ∈ before, Text.isBlank c = true) {q : Char}
    (hq : q = '\'' ∨ q = '"') : unquote? q (before ++ (sign ++ ds ++ after)) = none := by
  refine Option.eq_none_iff_forall_ne_some.2 fun name hname => ?_
  have htext := unquote?_eq_some_iff.1 hname
  have hne : before ++ (sign ++ ds) ≠ [] := by simp [hds.1]
  obtain ⟨c, cs, hcs⟩ := List.exists_cons_of_ne_nil hne
  rw [← List.append_assoc, hcs, List.cons_append] at htext
  obtain rfl := (List.cons.inj htext).1
  have hmem : c ∈ before ++ (sign ++ ds) := hcs ▸ List.mem_cons_self
  rcases List.mem_append.1 hmem with hblank | hsigned
  · have hblank := hbefore c hblank
    rcases hq with rfl | rfl <;> exact absurd hblank (by decide)
  · have hdigit := isDigit_of_mem_signed hsign hds hsigned
    rcases hq with rfl | rfl <;> exact absurd hdigit (by decide)

end

theorem bracketed?_eq_some_iff : bracketed? inner = some g ↔ Holds inner g := by
  constructor
  · intro h
    rw [bracketed?] at h
    split at h
    · rename_i name hname
      obtain rfl := Option.some.inj h
      rcases (Option.orElse_eq_some _ _ _).1 hname with hname | ⟨-, hname⟩
      · rw [unquote?_eq_some_iff.1 hname]
        exact .name (.inl rfl) name
      · rw [unquote?_eq_some_iff.1 hname]
        exact .name (.inr rfl) name
    · obtain ⟨n, hn, rfl⟩ := Option.map_eq_some_iff.1 h
      obtain ⟨before, after, hbefore, hafter, hinner⟩ := Text.exists_blanks_trim inner
      obtain ⟨sign, ds, hsign, htrim, hds, rfl, hlt⟩ := unsigned?_eq_some_iff.1 hn
      rw [hinner, htrim]
      exact .position hbefore hsign hds hlt hafter
  · intro h
    cases h with
    | name hq name =>
      have hname (q : Char) : unquote? q (q :: (name ++ [q])) = some name := unquote?_eq_some_iff.2 rfl
      rcases hq with rfl | rfl
      · rw [bracketed?, hname]
        rfl
      · have hother : unquote? '\'' ('"' :: (name ++ ['"'])) = none := by simp [unquote?]
        rw [bracketed?, hother, hname]
        rfl
    | position hbefore hsign hds hlt hafter =>
      have htrim := Text.trim_between_blanks hbefore hafter fun c => isBlank_of_mem_signed hsign hds
      have hn := unsigned?_eq_some_iff.2 ⟨_, _, hsign, rfl, hds, rfl, hlt⟩
      rw [bracketed?, unquote?_position hsign hds hbefore (.inl rfl),
        unquote?_position hsign hds hbefore (.inr rfl), htrim, hn]
      rfl

/-- The ways to write a step: a name behind a dot, up to the next step, or what a pair of brackets may hold. -/
inductive Spelling : Segment → List Char → Prop where
  | dotted {name : List Char} (hne : name ≠ []) (h : ∀ c ∈ name, endsKey c = false) :
    Spelling (.key (String.ofList name)) ('.' :: name)
  | bracketed {inner : List Char} {g : Segment} (hopen : ']' ∉ inner) (h : Holds inner g) :
    Spelling g ('[' :: (inner ++ [']']))

/-- Steps written one after the other. -/
inductive Spells : List Segment → List Char → Prop where
  | nil : Spells [] []
  | cons {g : Segment} {gs : List Segment} {text cs : List Char} (h : Spelling g text) (rest : Spells gs cs) :
    Spells (g :: gs) (text ++ cs)

def StopsName (cs : List Char) : Prop := ∀ c, cs.head? = some c → endsKey c = true

theorem stopsName_nil : StopsName [] := nofun

theorem Spelling.stopsName (h : Spelling g text) (cs : List Char) : StopsName (text ++ cs) := by
  intro c hc
  cases h <;> (rw [List.cons_append, List.head?_cons] at hc; cases hc; decide)

theorem Spells.stopsName_append {front back : List Char} (h : Spells gs front) (hback : StopsName back) :
    StopsName (front ++ back) := by
  cases h with
  | nil => exact hback
  | cons h rest =>
    rw [List.append_assoc]
    exact h.stopsName _

theorem Spells.stopsName (h : Spells gs cs) : StopsName cs := by
  have hstops := h.stopsName_append stopsName_nil
  rwa [List.append_nil] at hstops

theorem stopsName_bracket (cs : List Char) : StopsName ('[' :: cs) := by
  intro c hc
  cases hc
  decide

theorem takeWhile_name {name : List Char} (h : ∀ c ∈ name, endsKey c = false) (hcs : StopsName cs) :
    (name ++ cs).takeWhile (!endsKey ·) = name ∧ (name ++ cs).dropWhile (!endsKey ·) = cs := by
  have hname : ∀ c ∈ name, (!endsKey c) = true := fun c hc => by rw [h c hc]; rfl
  rw [List.takeWhile_append_of_pos hname, List.dropWhile_append_of_pos hname]
  cases cs with
  | nil => simp
  | cons c cs => simp [hcs c rfl]

theorem ne_close_of_mem (hopen : ']' ∉ inner) : ∀ c ∈ inner, (c != ']') = true := fun c hc => by
  simpa using ne_of_mem_of_not_mem hc hopen

theorem dropWhile_inner (hopen : ']' ∉ inner) (cs : List Char) :
    (inner ++ ']' :: cs).dropWhile (· != ']') = ']' :: cs := by
  rw [List.dropWhile_append_of_pos (ne_close_of_mem hopen)]
  simp

/-- A bracket is read up to where it is first closed. -/
theorem segments?_bracketed (hopen : ']' ∉ inner) (cs : List Char) : segments? ('[' :: (inner ++ ']' :: cs)) =
    (bracketed? inner).bind fun g => (segments? cs).map (g :: ·) := by
  have htake : (inner ++ ']' :: cs).takeWhile (· != ']') = inner := by
    rw [List.takeWhile_append_of_pos (ne_close_of_mem hopen)]
    simp
  have hrest : (']' :: cs).drop 1 = cs := rfl
  rw [segments?, htake, dropWhile_inner hopen, hrest]
  cases bracketed? inner with
  | none => rfl
  | some g => cases segments? cs <;> rfl

/-- A bracket that is never closed is read up to the end of the text. -/
theorem segments?_unclosed (hopen : ']' ∉ inner) :
    segments? ('[' :: inner) = (bracketed? inner).map ([·]) := by
  rw [segments?, List.takeWhile_eq_self_iff.2 (ne_close_of_mem hopen),
    List.dropWhile_eq_nil_iff.2 (ne_close_of_mem hopen), List.drop_nil, segments?]
  cases bracketed? inner <;> rfl

theorem segments?_append (h : Spelling g text) (hcs : StopsName cs) :
    segments? (text ++ cs) = (segments? cs).map (g :: ·) := by
  cases h with
  | dotted hne h =>
    obtain ⟨htake, hdrop⟩ := takeWhile_name h hcs
    simp [segments?, htake, hdrop, hne]
  | bracketed hopen h =>
    rw [List.cons_append, List.append_assoc, List.singleton_append, segments?_bracketed hopen,
      bracketed?_eq_some_iff.2 h, Option.bind_some]

theorem segments?_behind {front back : List Char} (h : Spells gs front) (hback : StopsName back) :
    segments? (front ++ back) = (segments? back).map (gs ++ ·) := by
  induction h with
  | nil => simp
  | cons h rest ih =>
    rw [List.append_assoc, segments?_append h (rest.stopsName_append hback), ih, Option.map_map]
    rfl

theorem segments?_of_spells (h : Spells gs cs) : segments? cs = some gs := by
  have hread := segments?_behind h stopsName_nil
  rw [segments?] at hread
  simpa using hread

/-- Behind written steps a bracket is open where the text ends. -/
def EndsOpen (cs : List Char) : Prop :=
  ∃ gs front inner, Spells gs front ∧ ']' ∉ inner ∧ cs = front ++ '[' :: inner

/-- A bracket that is open where the text ends is read as one that is closed there. -/
theorem segments?_close (h : EndsOpen cs) : segments? (cs ++ [']']) = segments? cs := by
  obtain ⟨gs, front, inner, hfront, hopen, rfl⟩ := h
  have hclosed : segments? ('[' :: (inner ++ [']'])) = segments? ('[' :: inner) := by
    rw [segments?_bracketed hopen, segments?_unclosed hopen, segments?]
    cases bracketed? inner <;> rfl
  rw [List.append_assoc, List.cons_append, segments?_behind hfront (stopsName_bracket _),
    segments?_behind hfront (stopsName_bracket _), hclosed]

/-- The text spells the steps, or would with its last bracket closed. -/
def Tells (gs : List Segment) (cs : List Char) : Prop := Spells gs cs ∨ EndsOpen cs ∧ Spells gs (cs ++ [']'])

theorem Tells.cons (hg : Spelling g text) (h : Tells gs cs) : Tells (g :: gs) (text ++ cs) := by
  rcases h with h | ⟨⟨gs', front, inner, hfront, hopen, rfl⟩, h⟩
  · exact .inl (.cons hg h)
  · refine .inr ⟨⟨g :: gs', text ++ front, inner, .cons hg hfront, hopen, by rw [List.append_assoc]⟩, ?_⟩
    rw [List.append_assoc]
    exact .cons hg h

theorem tells_of_segments? (h : segments? cs = some gs) : Tells gs cs := by
  induction cs using segments?.induct generalizing gs with
  | case1 =>
    rw [segments?] at h
    cases h
    exact .inl .nil
  | case2 rest =>
    rename_i hempty
    rw [segments?, if_pos hempty] at h
    cases h
  | case3 rest =>
    rename_i hname ih
    rw [segments?, if_neg hname] at h
    obtain ⟨more, hmore, rfl⟩ := Option.map_eq_some_iff.1 h
    have hspelling := Spelling.dotted (fun hnil => hname (List.isEmpty_iff.2 hnil))
      fun c hc => by simpa using List.mem_takeWhile_imp hc
    have htells := (ih hmore).cons hspelling
    rwa [List.cons_append, List.takeWhile_append_dropWhile] at htells
  | case4 rest ih =>
    by_cases hclose : ']' ∈ rest
    · obtain ⟨inner, behind, rfl, hopen⟩ := List.eq_append_cons_of_mem hclose
      rw [segments?_bracketed hopen] at h
      obtain ⟨g, hg, h⟩ := Option.bind_eq_some_iff.1 h
      obtain ⟨more, hmore, rfl⟩ := Option.map_eq_some_iff.1 h
      rw [dropWhile_inner hopen, List.drop_one, List.tail_cons] at ih
      have htells := (ih hmore).cons (.bracketed hopen (bracketed?_eq_some_iff.1 hg))
      rwa [List.cons_append, List.append_assoc, List.singleton_append] at htells
    · -- The text ends before the bracket is closed.
      rw [segments?_unclosed hclose] at h
      obtain ⟨g, hg, rfl⟩ := Option.map_eq_some_iff.1 h
      have hclosed := Spells.cons (.bracketed hclose (bracketed?_eq_some_iff.1 hg)) .nil
      rw [List.append_nil] at hclosed
      exact .inr ⟨⟨[], [], rest, .nil, hclose, rfl⟩, hclosed⟩
  | case5 cs hnil hname hbracket =>
    rw [segments?] at h
    · cases h
    · exact hnil
    · exact hname
    · exact hbracket

theorem segments?_eq_some_iff : segments? cs = some gs ↔ Tells gs cs := by
  constructor
  · exact tells_of_segments?
  · rintro (h | ⟨hopen, h⟩)
    · exact segments?_of_spells h
    · rw [← segments?_close hopen, segments?_of_spells h]

theorem Spelling.cut {g' : Segment} {text' cs' : List Char} (h : Spelling g text) (h' : Spelling g' text')
    (hcs : StopsName cs) (hcs' : StopsName cs') (heq : text ++ cs = text' ++ cs') : cs = cs' := by
  cases h with
  | dotted hne hname =>
    cases h' with
    | dotted hne' hname' =>
      rw [List.cons_append, List.cons_append, List.cons.injEq] at heq
      have hdrop := congrArg (List.dropWhile (!endsKey ·)) heq.2
      rwa [(takeWhile_name hname hcs).2, (takeWhile_name hname' hcs').2] at hdrop
    | bracketed hopen' hinner' => cases (List.cons.inj heq).1
  | bracketed hopen hinner =>
    cases h' with
    | dotted hne' hname' => cases (List.cons.inj heq).1
    | bracketed hopen' hinner' =>
      simp only [List.cons_append, List.append_assoc, List.nil_append, List.cons.injEq, true_and] at heq
      exact (Text.eq_of_cut_at_first hopen hopen' heq).2

theorem Spells.behind {gs' : List Segment} {front back : List Char} (h : Spells gs front)
    (hback : StopsName back) (h' : Spells gs' (front ++ back)) : ∃ more, Spells more back := by
  induction h generalizing gs' with
  | nil => exact ⟨gs', h'⟩
  | @cons g gs text cs hg rest ih =>
    generalize hall : text ++ cs ++ back = all at h'
    cases h' with
    | nil => cases hg <;> cases hall
    | @cons g' gs' text' cs' hg' rest' =>
      rw [List.append_assoc] at hall
      obtain rfl := hg.cut hg' (rest.stopsName_append hback) rest'.stopsName hall
      exact ih rest'

theorem Spells.not_endsOpen (h : Spells gs cs) : ¬ EndsOpen cs := by
  rintro ⟨gs', front, inner, hfront, hopen, rfl⟩
  obtain ⟨more, hmore⟩ := hfront.behind (stopsName_bracket _) h
  generalize hall : '[' :: inner = all at hmore
  cases hmore with
  | nil => cases hall
  | cons hg rest =>
    cases hg with
    | dotted => cases (List.cons.inj hall).1
    | bracketed =>
      rw [(List.cons.inj hall).2] at hopen
      exact hopen (by simp)

/-- The steps of a path, written behind its root. -/
def Spelled (gs : List Segment) (path : String) : Prop := ∃ cs, path.toList = '$' :: cs ∧ Spells gs cs

/-- The path ends inside a bracket. -/
def OpenEnded (path : String) : Prop := ∃ cs, path.toList = '$' :: cs ∧ EndsOpen cs

variable {path : String}

theorem parse?_rooted (h : path.toList = '$' :: cs) : parse? path = segments? cs := by
  rw [parse?, h]
  rfl

theorem toList_close (h : path.toList = '$' :: cs) : (path ++ "]").toList = '$' :: (cs ++ [']']) := by
  rw [String.toList_append, h]
  rfl

theorem exists_root_of_parse? (h : parse? path = some gs) : ∃ cs, path.toList = '$' :: cs := by
  rw [parse?] at h
  split at h
  · exact ⟨_, ‹_›⟩
  · cases h

theorem spelled_iff (h : path.toList = '$' :: cs) : Spelled gs path ↔ Spells gs cs := by
  simp [Spelled, h]

theorem openEnded_iff (h : path.toList = '$' :: cs) : OpenEnded path ↔ EndsOpen cs := by
  simp [OpenEnded, h]

theorem Spelled.not_openEnded (h : Spelled gs path) : ¬ OpenEnded path := by
  obtain ⟨cs, hroot, hcs⟩ := h
  rw [openEnded_iff hroot]
  exact hcs.not_endsOpen

/-- What is read is what is spelled, or would be with the last bracket closed. -/
theorem parse?_eq_some_iff :
    parse? path = some gs ↔ Spelled gs path ∨ OpenEnded path ∧ Spelled gs (path ++ "]") := by
  have hrooted (cs : List Char) (hroot : path.toList = '$' :: cs) :
      parse? path = some gs ↔ Spelled gs path ∨ OpenEnded path ∧ Spelled gs (path ++ "]") := by
    rw [parse?_rooted hroot, spelled_iff hroot, openEnded_iff hroot, spelled_iff (toList_close hroot)]
    exact segments?_eq_some_iff
  constructor
  · intro h
    obtain ⟨cs, hroot⟩ := exists_root_of_parse? h
    exact (hrooted cs hroot).1 h
  · rintro (⟨cs, hroot, hcs⟩ | ⟨⟨cs, hroot, hcs⟩, h⟩)
    · exact (hrooted cs hroot).2 (.inl ⟨cs, hroot, hcs⟩)
    · exact (hrooted cs hroot).2 (.inr ⟨⟨cs, hroot, hcs⟩, h⟩)

theorem parse?_close (h : OpenEnded path) : parse? (path ++ "]") = parse? path := by
  obtain ⟨cs, hroot, hcs⟩ := h
  rw [parse?_rooted hroot, parse?_rooted (toList_close hroot), segments?_close hcs]

theorem lookup_eq_none_of_parse? (h : parse? path = none) (v : Value) : lookup v path = none := by
  rw [lookup, h]
  rfl

/-- A text that spells no path is refused, and leads nowhere from any value, exactly unless all that it lacks
is the bracket that closes its last step.  Then it is read, and followed, as if it had it. -/
theorem refuses_malformed_iff (path : String) :
    (((∀ gs, ¬ Spelled gs path) → parse? path = none ∧ ∀ v, lookup v path = none) ↔
      ¬ (OpenEnded path ∧ ∃ gs, Spelled gs (path ++ "]"))) ∧
    (∀ gs, parse? path = some gs ↔ Spelled gs path ∨ OpenEnded path ∧ Spelled gs (path ++ "]")) ∧
    (∀ gs, Spelled gs path → ¬ OpenEnded path) ∧
    (OpenEnded path → ∀ v, lookup v path = lookup v (path ++ "]")) := by
  refine ⟨⟨fun hrefused hopen => ?_, fun hclosed hmalformed => ?_⟩, fun gs => parse?_eq_some_iff,
    fun gs => Spelled.not_openEnded, fun hopen v => by rw [lookup, lookup, parse?_close hopen]⟩
  · obtain ⟨hopen, gs, hgs⟩ := hopen
    obtain ⟨hnone, -⟩ := hrefused fun gs' hgs' => hgs'.not_openEnded hopen
    rw [parse?_eq_some_iff.2 (.inr ⟨hopen, hgs⟩)] at hnone
    cases hnone
  · have hnone : parse? path = none := by
      refine Option.eq_none_iff_forall_ne_some.2 fun gs hgs => ?_
      rcases parse?_eq_some_iff.1 hgs with h | ⟨hopen, h⟩
      · exact hmalformed gs h
      · exact hclosed ⟨hopen, gs, h⟩
    exact ⟨hnone, lookup_eq_none_of_parse? hnone⟩

/-- A path into the first of the arguments whose bracket is never closed; it is followed all the same. -/
theorem open_bracket_followed : (∀ gs, ¬ Spelled gs "$.args[0") ∧
    parse? "$.args[0" = some [.key "args", .index 0] ∧
    lookup (.object [("args", .array [.string "x"])]) "$.args[0" = some (.string "x") := by
  refine ⟨fun gs h => h.not_openEnded ?_, by decide +kernel, by decide +kernel⟩
  have hargs : Spells [.key "args"] ['.', 'a', 'r', 'g', 's'] :=
    .cons (.dotted (by simp) (by simp [endsKey])) .nil
  exact ⟨_, rfl, _, _, ['0'], hargs, by decide, rfl⟩

/-- Where steps lead: by a name to that member of an object, by a position to that item of an array. -/
inductive Leads : List Segment → Value → Value → Prop where
  | stay (v : Value) : Leads [] v v
  | member {name : String} {ms : Members} {w u : Value} {gs : List Segment} (h : ms.get? name = some w)
    (rest : Leads gs w u) : Leads (.key name :: gs) (.object ms) u
  | item {i : Nat} {items : List Value} {w u : Value} {gs : List Segment} (h : items[i]? = some w)
    (rest : Leads gs w u) : Leads (.index i :: gs) (.array items) u

theorem leads_of_foldlM {v u : Value} (h : gs.foldlM step v = some u) : Leads gs v u := by
  induction gs generalizing v with
  | nil =>
    rw [List.foldlM_nil] at h
    rw [Option.some.inj h]
    exact .stay u
  | cons g gs ih =>
    rw [List.foldlM_cons] at h
    obtain ⟨w, hw, hrest⟩ := Option.bind_eq_some_iff.1 h
    cases g with
    | key name =>
      cases v <;> try cases hw
      exact .member hw (ih hrest)
    | index i =>
      cases v <;> try cases hw
      exact .item hw (ih hrest)

theorem foldlM_of_leads {v u : Value} (h : Leads gs v u) : gs.foldlM step v = some u := by
  induction h with
  | stay v => rfl
  | member h rest ih =>
    rw [List.foldlM_cons]
    exact Option.bind_eq_some_iff.2 ⟨_, h, ih⟩
  | item h rest ih =>
    rw [List.foldlM_cons]
    exact Option.bind_eq_some_iff.2 ⟨_, h, ih⟩

/-- The plain notation of a step: a name behind a dot or between quotes in brackets, where it does not hold
what ends it, and a position by its digits. -/
inductive Written : Segment → List Char → Prop where
  | dotted {name : String} (hne : name ≠ "") (hdot : '.' ∉ name.toList) (hbracket : '[' ∉ name.toList) :
    Written (.key name) ('.' :: name.toList)
  | quoted {name : String} {q : Char} (hq : q = '\'' ∨ q = '"') (hclose : ']' ∉ name.toList) :
    Written (.key name) ('[' :: q :: (name.toList ++ [q, ']']))
  | position {n : Nat} (h : n < Text.wordLimit) : Written (.index n) ('[' :: (Text.decimal n ++ [']']))

theorem Written.spelling (h : Written g text) : Spelling g text := by
  cases h with
  | @dotted name hne hdot hbracket =>
    have hends : ∀ c ∈ name.toList, endsKey c = false := fun c hc => by
      simp [endsKey, ne_of_mem_of_not_mem hc hdot, ne_of_mem_of_not_mem hc hbracket]
    have hname := Spelling.dotted (by simpa using hne) hends
    rwa [String.ofList_toList] at hname
  | @quoted name q hq hclose =>
    have hopen : ']' ∉ q :: (name.toList ++ [q]) := by
      rcases hq with rfl | rfl <;> simp [hclose]
    have hname := Spelling.bracketed hopen (.name hq name.toList)
    simpa using hname
  | @position n hlt =>
    have hds : IsDigits (Text.decimal n) :=
      ⟨Text.decimal_ne_nil n, fun c hc => Text.isDigit_of_mem_decimal hc⟩
    have hopen : ']' ∉ Text.decimal n := fun hc => absurd (hds.2 _ hc) (by decide)
    have hheld : bracketed? (Text.decimal n) = some (.index n) := by
      rw [bracketed?_digits hds, Text.digits?_decimal hlt, Option.map_some]
    exact .bracketed hopen (bracketed?_eq_some_iff.1 hheld)

theorem spells_of_written {texts : List (List Char)} (h : List.Forall₂ Written gs texts) :
    Spells gs texts.flatten := by
  induction h with
  | nil => exact .nil
  | cons h rest ih => exact .cons h.spelling ih

/-- A path in the plain notation is read as the steps that were written, and leads from any value to what those
steps lead to, and to nothing else. -/
theorem written_followed {texts : List (List Char)} (h : List.Forall₂ Written gs texts)
    (hpath : path.toList = '$' :: texts.flatten) :
    parse? path = some gs ∧ ∀ v u, lookup v path = some u ↔ Leads gs v u := by
  have hparse : parse? path = some gs := parse?_eq_some_iff.2 (.inl ⟨_, hpath, spells_of_written h⟩)
  refine ⟨hparse, fun v u => ?_⟩
  rw [lookup, hparse]
  exact ⟨leads_of_foldlM, foldlM_of_leads⟩

def mixedSteps : List Segment :=
  [.key "args", .index 1, .key "a.b[0", .key "it's", .key "x]y", .key ""]

def mixedTexts : List (List Char) := [".args".toList, "[1]".toList, "['a.b[0']".toList, "[\"it's\"]".toList,
  ".x]y".toList, "['']".toList]

theorem written_mixed : List.Forall₂ Written mixedSteps mixedTexts := by
  refine .cons (.dotted ?_ ?_ ?_) (.cons (.position ?_) (.cons (.quoted (.inl rfl) ?_)
    (.cons (.quoted (.inr rfl) ?_) (.cons (.dotted ?_ ?_ ?_) (.cons (.quoted (.inl rfl) ?_) .nil))))) <;>
    decide

theorem written_followed_mixed : List.Forall₂ Written mixedSteps mixedTexts ∧
    "$.args[1]['a.b[0'][\"it's\"].x]y['']".toList = '$' :: mixedTexts.flatten ∧
    parse? "$.args[1]['a.b[0'][\"it's\"].x]y['']" = some mixedSteps ∧
    lookup (.object [("args", .array [.null, .object [("a.b[0", .object [("it's", .object
      [("x]y", .object [("", .bool true)])])])]])]) "$.args[1]['a.b[0'][\"it's\"].x]y['']" =
        some (.bool true) := by
  have hpath : "$.args[1]['a.b[0'][\"it's\"].x]y['']".toList = '$' :: mixedTexts.flatten := by decide
  obtain ⟨hparse, hlookup⟩ := written_followed written_mixed hpath
  refine ⟨written_mixed, hpath, hparse, (hlookup _ _).2 ?_⟩
  exact .member rfl (.item rfl (.member rfl (.member rfl (.member rfl (.member rfl (.stay _))))))

end FaultPath
end EngineMigrate
