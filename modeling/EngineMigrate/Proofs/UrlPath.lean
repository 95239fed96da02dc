import EngineMigrate.Text.Cut
import EngineMigrate.Url.Parser
import Mathlib.Logic.Function.Iterate

/-!
The path of a reference against a directory.  Dot segments make it leave segments of the directory behind, and
what it enters after that is its own.  Main statement: a path leads to what the directory keeps, followed by
what it enters.
-/
namespace EngineMigrate.Url

variable {file special : Bool} {cs : List Char} {list ds rs done : List (List Char)}

/-- No segment has a slash in it. -/
def Slashless (list : List (List Char)) : Prop := ∀ s ∈ list, '/' ∉ s

theorem text_cons (s : List Char) (list : List (List Char)) :
    (Path.segments (s :: list)).text = '/' :: (s ++ (Path.segments list).text) := by
  simp [Path.text]

/-- A path in its text begins with a directory exactly if its segments do, with something behind. -/
theorem directory_isPrefix_iff (hd : Slashless ds) (hr : Slashless rs) :
    (Path.segments (ds ++ [[]])).text <+: (Path.segments rs).text ↔ ∃ more, more ≠ [] ∧ rs = ds ++ more := by
  induction ds generalizing rs with
  | nil => cases rs <;> simp [Path.text]
  | cons d ds ih =>
    cases rs with
    | nil => simp [Path.text]
    | cons r rs =>
      have hd' := List.forall_mem_cons.1 hd
      have hr' := List.forall_mem_cons.1 hr
      have hih := ih hd'.2 hr'.2
      rw [List.cons_append, text_cons, text_cons, List.cons_prefix_cons]
      constructor
      · rintro ⟨-, t, ht⟩
        obtain ⟨x, xs, hx⟩ := List.exists_cons_of_ne_nil (List.concat_ne_nil [] ds)
        rw [hx, text_cons] at hih ht
        cases rs with
        | nil =>
          have hslash : '/' ∈ r := by simpa [Path.text] using congrArg ('/' ∈ ·) ht
          exact absurd hslash hr'.1
        | cons r' rs =>
          rw [text_cons] at hih ht
          rw [List.append_assoc, List.cons_append] at ht
          obtain ⟨rfl, hrest⟩ := Text.eq_of_cut_at_first hd'.1 hr'.1 ht
          obtain ⟨more, hmore, hrs⟩ := hih.1 ⟨t, by rw [← hrest, List.cons_append]⟩
          exact ⟨more, hmore, by rw [hrs, List.cons_append]⟩
      · rintro ⟨more, hmore, h⟩
        obtain ⟨rfl, hrest⟩ := List.cons.inj h
        obtain ⟨t, ht⟩ := hih.2 ⟨more, hmore, hrest⟩
        exact ⟨rfl, t, by rw [List.append_assoc, ht]⟩

theorem slash_not_mem_encode {escaped : Char → Bool} {cs : List Char} (h : '/' ∉ cs) :
    '/' ∉ encode escaped cs := by
  have hdigit : ∀ n : Fin 16, hexDigit n.val ≠ '/' := by decide
  have hbyte : ∀ b, '/' ∉ encodeByte b := by
    intro b hb
    have hlt : b.toNat < 256 := b.toNat_lt
    simp only [encodeByte, List.mem_cons, List.not_mem_nil, or_false] at hb
    rcases hb with hb | hb | hb
    · exact absurd hb (by decide)
    · exact hdigit ⟨b.toNat / 16, by omega⟩ hb.symm
    · exact hdigit ⟨b.toNat % 16, by omega⟩ hb.symm
  rw [encode, List.mem_flatMap]
  rintro ⟨c, hc, hslash⟩
  rw [encodeChar] at hslash
  split at hslash
  · obtain ⟨b, -, hb⟩ := List.mem_flatMap.1 hslash
    exact hbyte b hb
  · rw [List.mem_singleton] at hslash
    exact h (hslash ▸ hc)

theorem slash_not_mem_normalizeDrive {s : List Char} (h : '/' ∉ s) : '/' ∉ normalizeDrive file s := by
  unfold normalizeDrive
  split
  · split
    · rw [List.mem_cons, not_or] at h
      simpa using h.1
    · exact h
  · exact h

theorem dropSegment_suffix (done : List (List Char)) : dropSegment done <:+ done := by
  cases done with
  | nil => exact List.suffix_rfl
  | cons s done =>
    rw [dropSegment]
    split
    · exact List.suffix_rfl
    · exact List.suffix_cons s done

theorem Slashless.sublist (h : Slashless list) (hsub : ds.Sublist list) : Slashless ds :=
  fun s hs => h s (hsub.mem hs)

theorem Slashless.cons {s : List Char} (hs : '/' ∉ s) (h : Slashless list) : Slashless (s :: list) :=
  List.forall_mem_cons.2 ⟨hs, h⟩

theorem slashless_addSegment {last : Bool} {s : List Char} (hdone : Slashless done) (hs : '/' ∉ s) :
    Slashless (addSegment file last done s) := by
  have hend : ∀ l, Slashless l → Slashless (if last then [] :: l else l) := by
    intro l hl
    split
    · exact hl.cons List.not_mem_nil
    · exact hl
  rw [addSegment]
  split
  · exact hend done hdone
  · exact hend _ (hdone.sublist (dropSegment_suffix done).sublist)
  · exact hdone.cons (slash_not_mem_normalizeDrive hs)

theorem slashless_addSegments (hdone : Slashless done) (h : Slashless list) :
    Slashless (addSegments file done list) := by
  induction list generalizing done with
  | nil => exact fun s hs => hdone s (List.mem_reverse.1 hs)
  | cons s list ih =>
    have hlist := List.forall_mem_cons.1 h
    cases list with
    | nil =>
      have hadd : Slashless (addSegment file true done s) := slashless_addSegment hdone hlist.1
      exact fun t ht => hadd t (List.mem_reverse.1 ht)
    | cons t more => exact ih (slashless_addSegment hdone hlist.1) hlist.2

theorem dropEmptySegments_suffix (list : List (List Char)) : dropEmptySegments list <:+ list := by
  fun_induction dropEmptySegments list with
  | case1 s more ih => exact ih.trans (List.suffix_cons [] _)
  | case2 => exact List.suffix_rfl

theorem dropEmptySegments_front (list : List (List Char)) (s : List Char) (more : List (List Char)) :
    dropEmptySegments list ≠ [] :: s :: more := by
  fun_induction dropEmptySegments list with
  | case1 t rest ih => exact ih
  | case2 list h => exact h s more

theorem dropEmptySegments_eq_self (h : ∀ s more, list ≠ [] :: s :: more) : dropEmptySegments list = list := by
  unfold dropEmptySegments
  split
  next s more => exact absurd rfl (h s more)
  next => rfl

theorem dropEmptySegments_ne_nil (h : list ≠ []) : dropEmptySegments list ≠ [] := by
  fun_induction dropEmptySegments list with
  | case1 s more ih => exact ih (List.cons_ne_nil s more)
  | case2 => exact h

theorem slashless_resolve (hdone : Slashless done) (cs : List Char) :
    Slashless (resolve special file done cs) := by
  have hread : Slashless ((splitPath special cs).map (encode isPathEscaped)) := by
    intro s hs
    obtain ⟨part, hpart, rfl⟩ := List.mem_map.1 hs
    exact slash_not_mem_encode (Text.not_mem_of_mem_splitOn hpart)
  have hadd : Slashless (addSegments file done.reverse ((splitPath special cs).map (encode isPathEscaped))) :=
    slashless_addSegments (fun s hs => hdone s (List.mem_reverse.1 hs)) hread
  rw [resolve]
  split
  · exact hadd.sublist (dropEmptySegments_suffix _).sublist
  · exact hadd

/-- What a path does to the directory that it starts from: how often it leaves a segment behind, and the
segments that it enters after that, the last one first. -/
structure Course where
  left : ℕ
  entered : List (List Char)

namespace Course

/-- Where a course leads from finished segments, the last one first. -/
def applied (c : Course) (done : List (List Char)) : List (List Char) := c.entered ++ dropSegment^[c.left] done

/-- One segment less, of the directory once none is left that was entered. -/
def climb (c : Course) : Course :=
  match c.entered with
  | [] => ⟨c.left + 1, []⟩
  | s :: more => ⟨c.left, dropSegment (s :: more)⟩

def enter (c : Course) (s : List Char) : Course := ⟨c.left, s :: c.entered⟩

def add (file last : Bool) (c : Course) (s : List Char) : Course :=
  match dotCount? s with
  | some 1 => if last then c.enter [] else c
  | some _ => if last then c.climb.enter [] else c.climb
  | none => c.enter (normalizeDrive file s)

def addAll (file : Bool) (c : Course) : List (List Char) → Course
  | [] => c
  | [s] => c.add file true s
  | s :: t :: more => (c.add file false s).addAll file (t :: more)

@[simp] theorem applied_enter (c : Course) (s : List Char) (done : List (List Char)) :
    (c.enter s).applied done = s :: c.applied done := rfl

theorem applied_climb (c : Course) (done : List (List Char)) :
    c.climb.applied done = dropSegment (c.applied done) := by
  obtain ⟨left, entered⟩ := c
  cases entered with
  | nil => simp [climb, applied, Function.iterate_succ_apply']
  | cons s more =>
    simp only [climb, applied, List.cons_append, dropSegment]
    split <;> rfl

theorem applied_add (file last : Bool) (c : Course) (s : List Char) (done : List (List Char)) :
    (c.add file last s).applied done = addSegment file last (c.applied done) s := by
  unfold add addSegment
  rcases dotCount? s with _ | _ | _ | n <;> cases last <;> simp [applied_climb]

theorem applied_addAll (file : Bool) (c : Course) (list done : List (List Char)) :
    ((c.addAll file list).applied done).reverse = addSegments file (c.applied done) list := by
  fun_induction addAll file c list with
  | case1 c => rfl
  | case2 c s => rw [applied_add, addSegments]
  | case3 c s t more ih => rw [ih, applied_add, addSegments]

theorem entered_add (file : Bool) (c : Course) (s : List Char) : (c.add file true s).entered ≠ [] := by
  unfold add
  split <;> exact List.cons_ne_nil _ _

theorem entered_addAll (file : Bool) (c : Course) (h : list ≠ []) : (c.addAll file list).entered ≠ [] := by
  fun_induction addAll file c list with
  | case1 c => exact absurd rfl h
  | case2 c s => exact entered_add file c s
  | case3 c s t more ih => exact ih (List.cons_ne_nil t more)

theorem left_add {last : Bool} (c : Course) {s : List Char} (h : ∀ n, dotCount? s = some n → n = 1) :
    (c.add file last s).left = c.left := by
  unfold add
  split
  · split <;> rfl
  next n hn hs => exact absurd (h n hs) hn
  · rfl

theorem left_addAll (c : Course) (h : ∀ s ∈ list, ∀ n, dotCount? s = some n → n = 1) :
    (c.addAll file list).left = c.left := by
  fun_induction addAll file c list with
  | case1 c => rfl
  | case2 c s => exact left_add c (h s (List.mem_singleton_self s))
  | case3 c s t more ih =>
    rw [ih fun r hr => h r (List.mem_cons_of_mem s hr)]
    exact left_add c (h s List.mem_cons_self)

def kept (c : Course) (start : List (List Char)) : List (List Char) :=
  (dropSegment^[c.left] start.reverse).reverse

theorem kept_isPrefix (c : Course) (start : List (List Char)) : c.kept start <+: start := by
  have hsuffix : ∀ n, dropSegment^[n] start.reverse <:+ start.reverse := by
    intro n
    induction n with
    | zero => exact List.suffix_rfl
    | succ n ih =>
      rw [Function.iterate_succ_apply']
      exact (dropSegment_suffix _).trans ih
  rw [kept, ← List.reverse_suffix, List.reverse_reverse]
  exact hsuffix c.left

end Course

def course (special file : Bool) (cs : List Char) : Course :=
  Course.addAll file ⟨0, []⟩ ((splitPath special cs).map (encode isPathEscaped))

theorem entered_course (special file : Bool) (cs : List Char) : (course special file cs).entered ≠ [] :=
  Course.entered_addAll file _ (by simp [splitPath, List.splitOn_ne_nil])

/-- The segments behind those that are kept; a file path has no empty ones in front. -/
def Course.behind (file : Bool) (c : Course) (start : List (List Char)) : List (List Char) :=
  if file && (c.kept start).isEmpty then dropEmptySegments c.entered.reverse else c.entered.reverse

theorem behind_course_ne_nil (special file : Bool) (start : List (List Char)) (cs : List Char) :
    (course special file cs).behind file start ≠ [] := by
  have hentered : (course special file cs).entered.reverse ≠ [] := by
    rw [ne_eq, List.reverse_eq_nil_iff]
    exact entered_course special file cs
  rw [Course.behind]
  split
  · exact dropEmptySegments_ne_nil hentered
  · exact hentered

theorem left_course (h : ∀ s ∈ splitPath special cs, ∀ n, dotCount? (encode isPathEscaped s) = some n → n = 1) :
    (course special file cs).left = 0 := by
  refine Course.left_addAll ⟨0, []⟩ fun s hs => ?_
  obtain ⟨part, hpart, rfl⟩ := List.mem_map.1 hs
  exact h part hpart

/-- A path leads to the segments that its course keeps, and those that it enters behind them. -/
theorem resolve_eq (special : Bool) {start : List (List Char)} (hstart : file = true → [] ∉ start.head?)
    (cs : List Char) :
    resolve special file start cs =
      (course special file cs).kept start ++ (course special file cs).behind file start := by
  have h := Course.applied_addAll file ⟨0, []⟩ ((splitPath special cs).map (encode isPathEscaped)) start.reverse
  have happlied : (⟨0, []⟩ : Course).applied start.reverse = start.reverse := rfl
  rw [happlied, ← course] at h
  have hsegments : addSegments file start.reverse ((splitPath special cs).map (encode isPathEscaped)) =
      (course special file cs).kept start ++ (course special file cs).entered.reverse := by
    rw [← h, Course.applied, List.reverse_append, Course.kept]
  rw [resolve, hsegments, Course.behind]
  cases file with
  | false => rfl
  | true =>
    rw [if_pos rfl, Bool.true_and]
    cases hkept : (course special true cs).kept start with
    | nil => rfl
    | cons s more =>
      have hhead : start.head? = some s := by
        obtain ⟨rest, hrest⟩ := Course.kept_isPrefix (course special true cs) start
        rw [← hrest, hkept, List.cons_append, List.head?_cons]
      rw [List.isEmpty_cons, if_neg Bool.false_ne_true]
      refine dropEmptySegments_eq_self fun t rest heq => hstart rfl ?_
      rw [hhead, Option.mem_some_iff]
      exact (List.cons.inj heq).1

end EngineMigrate.Url
