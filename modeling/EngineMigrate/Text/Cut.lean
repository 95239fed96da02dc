/-!
Blank characters (the Unicode property White_Space), trimming, and lists that are cut at a separator.  Main
statements: trimming leaves no blank at either end, no part of a cut list holds the separator, and a list
is cut in one way at the first and in one way at the last of it.
-/
namespace EngineMigrate.Text

/-- The code points of the Unicode property White_Space. -/
def isBlank (c : Char) : Bool :=
  ('\t' ≤ c && c ≤ '\r') || c == ' ' || c == '\u0085' || c == '\u00a0' || c == '\u1680' ||
  ('\u2000' ≤ c && c ≤ '\u200a') || c == '\u2028' || c == '\u2029' || c == '\u202f' ||
  c == '\u205f' || c == '\u3000'

/-- A text of blanks only; the empty text is one. -/
def allBlank (s : String) : Bool := s.toList.all isBlank

def trimStart (cs : List Char) : List Char := cs.dropWhile isBlank

def trimEnd (cs : List Char) : List Char := (cs.reverse.dropWhile isBlank).reverse

def trim (cs : List Char) : List Char := trimEnd (trimStart cs)

@[simp] theorem trim_nil : trim [] = [] := rfl

theorem head_trimStart {cs : List Char} {c : Char} (h : (trimStart cs).head? = some c) :
    isBlank c = false := by
  have hd := List.head?_dropWhile_not isBlank cs
  rw [trimStart] at h
  rw [h] at hd
  simpa using hd

theorem getLast_trimEnd {cs : List Char} {c : Char} (h : (trimEnd cs).getLast? = some c) :
    isBlank c = false := by
  rw [trimEnd, List.getLast?_reverse] at h
  exact head_trimStart h

variable {α : Type} {c : α} {as bs as' bs' : List α}

theorem mem_of_mem_splitOn [BEq α] [LawfulBEq α] {part : List α} (h : part ∈ as.splitOn c) {a : α}
    (ha : a ∈ part) : a ∈ as ∧ a ≠ c := by
  induction as generalizing part with
  | nil =>
    rw [List.splitOn_nil, List.mem_singleton] at h
    exact absurd (h ▸ ha) List.not_mem_nil
  | cons b as ih =>
    rw [List.splitOn_cons_eq_if_modifyHead] at h
    split at h
    · rcases List.mem_cons.1 h with rfl | h
      · exact absurd ha List.not_mem_nil
      · exact (ih h ha).imp_left (List.mem_cons_of_mem b)
    · rename_i hb
      obtain ⟨first, rest, hfirst⟩ := List.exists_cons_of_ne_nil (List.splitOn_ne_nil c as)
      rw [hfirst, List.modifyHead_cons] at h
      rcases List.mem_cons.1 h with rfl | h
      · rcases List.mem_cons.1 ha with rfl | ha
        · exact ⟨List.mem_cons_self, fun heq => hb (by simp [heq])⟩
        · exact (ih (by simp [hfirst]) ha).imp_left (List.mem_cons_of_mem b)
      · exact (ih (by simp [hfirst, h]) ha).imp_left (List.mem_cons_of_mem b)

theorem not_mem_of_mem_splitOn [BEq α] [LawfulBEq α] {part : List α} (h : part ∈ as.splitOn c) : c ∉ part :=
  fun hc => (mem_of_mem_splitOn h hc).2 rfl

theorem mem_splitOn_of_dropWhile [BEq α] [LawfulBEq α] {part : List α}
    (h : part ∈ (as.dropWhile (· == c)).splitOn c) : part ∈ as.splitOn c := by
  induction as with
  | nil => exact h
  | cons a as ih =>
    rw [List.dropWhile_cons] at h
    split at h
    next ha =>
      rw [List.splitOn_cons_eq_if_modifyHead, if_pos ha]
      exact List.mem_cons_of_mem [] (ih h)
    next => exact h

theorem eq_of_cut_at_first (ha : c ∉ as) (ha' : c ∉ as') (h : as ++ c :: bs = as' ++ c :: bs') :
    as = as' ∧ bs = bs' := by
  induction as generalizing as' with
  | nil =>
    cases as' with
    | nil => exact ⟨rfl, (List.cons.inj h).2⟩
    | cons a as' =>
      obtain ⟨rfl, -⟩ := List.cons.inj h
      exact absurd List.mem_cons_self ha'
  | cons a as ih =>
    cases as' with
    | nil =>
      obtain ⟨rfl, -⟩ := List.cons.inj h
      exact absurd List.mem_cons_self ha
    | cons a' as' =>
      obtain ⟨rfl, hrest⟩ := List.cons.inj h
      rw [List.mem_cons, not_or] at ha ha'
      obtain ⟨rfl, hbs⟩ := ih ha.2 ha'.2 hrest
      exact ⟨rfl, hbs⟩

theorem eq_of_cut_at_last (hb : c ∉ bs) (hb' : c ∉ bs') (h : as ++ c :: bs = as' ++ c :: bs') :
    as = as' ∧ bs = bs' := by
  have hreverse := congrArg List.reverse h
  simp only [List.reverse_append, List.reverse_cons, List.append_assoc, List.singleton_append] at hreverse
  obtain ⟨hbs, has⟩ := eq_of_cut_at_first (by simpa using hb) (by simpa using hb') hreverse
  exact ⟨List.reverse_inj.1 has, List.reverse_inj.1 hbs⟩

end EngineMigrate.Text
