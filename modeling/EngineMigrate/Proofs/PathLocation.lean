import Mathlib.Data.List.Induction
import EngineMigrate.Proofs.DirectoryTree
import EngineMigrate.Text.Cut

/-!
Where paths lead.  A name behind the path of a directory leads to the entry of that name in it, so that a
path which is put together name by name leads down the tree name by name.  Main statement: the location of
a joined path is the location of the directory with the name behind it.
-/
namespace EngineMigrate

namespace FilePath

/-- A part of a path that steps down to an entry of that name. -/
structure IsStep (name : String) : Prop where
  nonempty : name ≠ ""
  notSelf : name ≠ "."
  notAbove : name ≠ ".."
  single : '/' ∉ name.toList

/-- A path that can be looked up at all. -/
def Nameable (path : String) : Prop :=
  '\x00' ∉ path.toList ∧ path.utf8ByteSize < FileTree.pathLimit

variable {base name : String}

theorem isAbsolute_of_single (h : '/' ∉ name.toList) : isAbsolute name = false := by
  rw [isAbsolute, beq_eq_false_iff_ne]
  exact fun hhead => h (List.mem_of_head? hhead)

theorem parts_of_single (h : '/' ∉ name.toList) : parts name = [name] := by
  simp [parts, List.splitOn_eq_singleton h]

theorem join_eq (h : '/' ∉ name.toList) :
    join base name = if base.isEmpty || base.toList.getLast? == some '/' then base ++ name
      else base ++ "/" ++ name := by
  simp [join, isAbsolute_of_single h]

theorem join_ne_empty (hbase : base ≠ "") (h : '/' ∉ name.toList) : join base name ≠ "" := by
  rw [join_eq h]
  split <;> simp [hbase]

theorem IsStep.join_ne_empty (h : IsStep name) : join base name ≠ "" := by
  rw [join_eq h.single]
  split <;> simp [h.nonempty]

theorem mem_join (h : '/' ∉ name.toList) {c : Char} (hc : c ≠ '/') :
    c ∈ (join base name).toList ↔ c ∈ base.toList ∨ c ∈ name.toList := by
  rw [join_eq h]
  split <;> simp [String.toList_append, hc]

theorem foldl_join_ne_empty (hbase : base ≠ "") {names : List String}
    (h : ∀ name ∈ names, '/' ∉ name.toList) : names.foldl join base ≠ "" := by
  induction names generalizing base with
  | nil => exact hbase
  | cons name names ih =>
    exact ih (join_ne_empty hbase (h name (by simp))) fun n hn => h n (by simp [hn])

theorem isAbsolute_append (hbase : base ≠ "") (more : String) : isAbsolute (base ++ more) = isAbsolute base := by
  obtain ⟨c, cs, hcs⟩ := List.exists_cons_of_ne_nil fun hnil => hbase (String.toList_injective hnil)
  simp [isAbsolute, String.toList_append, hcs]

theorem isAbsolute_join (h : isAbsolute name = false) : isAbsolute (join base name) = isAbsolute base := by
  rw [join, h, if_neg Bool.false_ne_true]
  by_cases hbase : base = ""
  · subst hbase
    have hempty : isAbsolute "" = false := rfl
    simp [h, hempty]
  · split
    · exact isAbsolute_append hbase name
    · rw [String.append_assoc, isAbsolute_append hbase]

theorem Nameable.of_join (h : '/' ∉ name.toList) (hjoin : Nameable (join base name)) : Nameable base := by
  rw [join_eq h] at hjoin
  split at hjoin
  · obtain ⟨hnul, hsize⟩ := hjoin
    simp only [String.toList_append, List.mem_append, not_or, String.utf8ByteSize_append] at hnul hsize
    exact ⟨hnul.1, by omega⟩
  · obtain ⟨hnul, hsize⟩ := hjoin
    simp only [String.toList_append, List.mem_append, not_or, String.utf8ByteSize_append] at hnul hsize
    exact ⟨hnul.1.1, by omega⟩

theorem parts_join (hbase : base ≠ "") (h : '/' ∉ name.toList) :
    ∃ ps, ps ≠ [] ∧ (parts base = ps ∨ parts base = ps ++ [""]) ∧
      parts (join base name) = ps ++ [name] := by
  have hname : name.toList.splitOn '/' = [name.toList] := List.splitOn_eq_singleton h
  have hempty : base.isEmpty = false := by simpa using hbase
  rw [join_eq h]
  by_cases hlast : base.toList.getLast? = some '/'
  · obtain ⟨above, habove⟩ := List.getLast?_eq_some_iff.1 hlast
    refine ⟨(above.splitOn '/').map String.ofList, by simp, .inr ?_, ?_⟩
    · simp [parts, habove, List.splitOn_append_cons_self, List.splitOn_nil]
    · simp [parts, String.toList_append, habove, List.append_assoc, List.splitOn_append_cons_self,
        hname]
  · refine ⟨parts base, by simp [parts], .inl rfl, ?_⟩
    simp [parts, hlast, hempty, String.toList_append, List.append_assoc,
      List.splitOn_append_cons_self, hname]

theorem slash_not_mem_parts {path p : String} (h : p ∈ parts path) : '/' ∉ p.toList := by
  obtain ⟨part, hpart, rfl⟩ := List.mem_map.1 h
  simpa using Text.not_mem_of_mem_splitOn hpart

end FilePath

namespace FileTree

open FilePath

variable {t t' : FileTree}

theorem follow_append (t : FileTree) (l : Location) (ps qs : List String) :
    t.follow l (ps ++ qs) = t.follow l ps >>= fun m => t.follow m qs := by
  induction ps generalizing l with
  | nil => rfl
  | cons p ps ih =>
    simp only [List.cons_append, follow]
    split
    · rfl
    · rfl
    · split
      · exact ih l
      · split
        · exact ih l.dropLast
        · split
          · rfl
          · exact ih (l ++ [p])

theorem follow_concat {l m : Location} {ps : List String} {p : String} :
    t.follow l (ps ++ [p]) = .ok m ↔ ∃ top, t.follow l ps = .ok top ∧ t.follow top [p] = .ok m := by
  rw [follow_append]
  cases t.follow l ps <;> simp [bind, Except.bind]

theorem follow_blank {top m : Location} :
    t.follow top [""] = .ok m ↔ t.find? top = some .directory ∧ m = top := by
  simp only [follow]
  cases t.find? top with
  | none => simp
  | some e =>
    cases e with
    | file content => simp
    | directory => simp [@eq_comm _ m]

theorem follow_step {name : String} (h : IsStep name) {top m : Location} :
    t.follow top [name] = .ok m ↔
      t.find? top = some .directory ∧ name.utf8ByteSize ≤ nameLimit ∧ m = top ++ [name] := by
  have hstay : ¬ (name = "" ∨ name = ".") := not_or.2 ⟨h.nonempty, h.notSelf⟩
  simp only [follow, Bool.or_eq_true, decide_eq_true_eq, if_neg hstay, if_neg h.notAbove]
  cases t.find? top with
  | none => simp
  | some e =>
    cases e with
    | file content => simp
    | directory =>
      by_cases hlong : nameLimit < name.utf8ByteSize
      · simp [hlong, Nat.not_le.2 hlong]
      · simp [hlong, Nat.not_lt.1 hlong, @eq_comm _ m]

theorem locate_eq_ok {path : String} (h : path ≠ "") {l : Location} :
    t.locate path = .ok l ↔ Nameable path ∧
      t.follow (if isAbsolute path then [] else t.current) (parts path) = .ok l := by
  have hempty : path.isEmpty = false := by simpa using h
  simp only [locate, hempty]
  split
  · cases ‹false = true›
  · split
    · rename_i hbad
      have hnot : ¬ Nameable path := by
        rintro ⟨hnul, hsize⟩
        simp only [Bool.or_eq_true, List.contains_iff_mem, decide_eq_true_eq] at hbad
        rcases hbad with hbad | hbad
        · exact hnul hbad
        · omega
      simp [hnot]
    · rename_i hgood
      have hnameable : Nameable path := by
        simp only [Bool.or_eq_true, List.contains_iff_mem, decide_eq_true_eq, not_or] at hgood
        exact ⟨hgood.1, by omega⟩
      simp [hnameable]

theorem ne_empty_of_locate {path : String} {l : Location} (h : t.locate path = .ok l) : path ≠ "" := by
  rintro rfl
  simp [locate] at h

theorem locate_unnameable {path : String} (h : path ≠ "") (hbad : ¬ Nameable path) :
    t.locate path = .error .unnameable := by
  have hempty : path.isEmpty = false := by simpa using h
  have hcond : (path.toList.contains '\x00' || decide (pathLimit ≤ path.utf8ByteSize)) = true := by
    simp only [Nameable, not_and, Nat.not_lt] at hbad
    rw [Bool.or_eq_true, List.contains_iff_mem, decide_eq_true_eq]
    exact Decidable.or_iff_not_imp_left.2 hbad
  rw [locate, hempty, hcond]
  rfl

/-- The path of a directory with a name behind it leads to the entry of that name in the directory. -/
theorem locate_join {base name : String} (hbase : base ≠ "") (h : IsStep name) {l : Location} :
    t.locate (join base name) = .ok l ↔ Nameable (join base name) ∧ name.utf8ByteSize ≤ nameLimit ∧
      ∃ top, t.locate base = .ok top ∧ t.find? top = some .directory ∧ l = top ++ [name] := by
  obtain ⟨ps, -, hparts, hjoin⟩ := parts_join hbase h.single
  have habsolute : isAbsolute (join base name) = isAbsolute base :=
    isAbsolute_join (isAbsolute_of_single h.single)
  rw [locate_eq_ok (join_ne_empty hbase h.single), habsolute, hjoin, follow_concat]
  refine and_congr_right fun hnameable => ?_
  simp only [follow_step h, locate_eq_ok hbase, hnameable.of_join h.single, true_and]
  rcases hparts with hparts | hparts
  · rw [hparts]
    constructor
    · rintro ⟨top, htop, hdir, hsize, rfl⟩
      exact ⟨hsize, top, htop, hdir, rfl⟩
    · rintro ⟨hsize, top, htop, hdir, rfl⟩
      exact ⟨top, htop, hdir, hsize, rfl⟩
  · simp only [hparts, follow_concat, follow_blank]
    constructor
    · rintro ⟨top, htop, hdir, hsize, rfl⟩
      exact ⟨hsize, top, ⟨top, htop, hdir, rfl⟩, hdir, rfl⟩
    · rintro ⟨hsize, _, ⟨top, htop, hdir, rfl⟩, -, rfl⟩
      exact ⟨_, htop, hdir, hsize, rfl⟩

/-- Where the names behind a path are looked up; an empty path stands for the current directory. -/
def origin (t : FileTree) (base : String) : Except FileFault Location :=
  if base = "" then .ok t.current else t.locate base

theorem locate_join_iff {base name : String} (h : IsStep name) {l : Location} :
    t.locate (join base name) = .ok l ↔ Nameable (join base name) ∧ name.utf8ByteSize ≤ nameLimit ∧
      ∃ top, t.origin base = .ok top ∧ t.find? top = some .directory ∧ l = top ++ [name] := by
  by_cases hbase : base = ""
  · subst hbase
    have hjoin : join "" name = name := by simp [join_eq h.single]
    rw [hjoin, locate_eq_ok h.nonempty, isAbsolute_of_single h.single, parts_of_single h.single,
      if_neg (by simp), follow_step h]
    simp [origin, and_left_comm]
  · simp only [origin, if_neg hbase]
    exact locate_join hbase h

/-- A path leads where it led while the directories are still there. -/
theorem follow_mono (h : ∀ l, t.find? l = some .directory → t'.find? l = some .directory) {l m : Location}
    {ps : List String} (hfollow : t.follow l ps = .ok m) : t'.follow l ps = .ok m := by
  induction ps generalizing l with
  | nil => exact hfollow
  | cons p ps ih =>
    simp only [follow] at hfollow
    split at hfollow
    · cases hfollow
    · cases hfollow
    · rename_i hdir
      simp only [follow, h l hdir]
      split at hfollow
      · rename_i hstay
        rw [if_pos hstay]
        exact ih hfollow
      · rename_i hstay
        rw [if_neg hstay]
        split at hfollow
        · rename_i habove
          rw [if_pos habove]
          exact ih hfollow
        · rename_i habove
          rw [if_neg habove]
          split at hfollow
          · cases hfollow
          · rename_i hfits
            rw [if_neg hfits]
            exact ih hfollow

theorem locate_mono (hcurrent : t'.current = t.current)
    (h : ∀ l, t.find? l = some .directory → t'.find? l = some .directory) {path : String} {l : Location}
    (hlocate : t.locate path = .ok l) : t'.locate path = .ok l := by
  have hne : path ≠ "" := ne_empty_of_locate hlocate
  rw [locate_eq_ok hne] at hlocate ⊢
  rw [hcurrent]
  exact ⟨hlocate.1, follow_mono h hlocate.2⟩

theorem Rooted.follow_last (ht : t.Rooted) {l m : Location} {ps : List String} (hps : ps ≠ [])
    (h : t.follow l ps = .ok m) (hm : t.find? m ≠ some .directory) :
    ∃ above, ∃ p ∈ ps, p ≠ "" ∧ p ≠ "." ∧ p ≠ ".." ∧ p.utf8ByteSize ≤ nameLimit ∧ m = above ++ [p] := by
  obtain ⟨before, p, rfl⟩ := List.eq_nil_or_concat ps |>.resolve_left hps
  rw [List.concat_eq_append] at h
  obtain ⟨top, -, h⟩ := follow_concat.1 h
  simp only [FileTree.follow] at h
  split at h
  · cases h
  · cases h
  · rename_i hdir
    split at h
    · cases h
      exact absurd hdir hm
    · rename_i hstay
      split at h
      · cases h
        exact absurd (ht.find?_dropLast (by simp [hdir])) hm
      · rename_i habove
        split at h
        · cases h
        · rename_i hfits
          cases h
          simp only [Bool.or_eq_true, decide_eq_true_eq, not_or] at hstay
          exact ⟨top, p, by simp, hstay.1, hstay.2, habove, Nat.not_lt.1 hfits, rfl⟩

/-- Entries have names that a path can lead to. -/
def Named (t : FileTree) : Prop :=
  ∀ e ∈ t.entries, ∀ name ∈ e.1, IsStep name ∧ name.utf8ByteSize ≤ nameLimit

theorem Named.of_find? (ht : t.Named) {l : Location} (h : t.find? l ≠ none) {name : String}
    (hname : name ∈ l) : IsStep name ∧ name.utf8ByteSize ≤ nameLimit := by
  have hl : l ≠ [] := by
    rintro rfl
    cases hname
  obtain ⟨e, he⟩ := Option.ne_none_iff_exists'.1 h
  exact ht _ (mem_entries_of_find? hl he) name hname

theorem Named.set (ht : t.Named) (hrooted : t.Rooted) {path : String} {l : Location}
    (hlocate : t.locate path = .ok l) (hl : t.find? l ≠ some .directory) (e : FileEntry) :
    (t.set l e).Named := by
  intro x hx name hname
  simp only [FileTree.set, List.mem_append, List.mem_filter, List.mem_singleton] at hx
  rcases hx with ⟨hx, -⟩ | rfl
  · exact ht x hx name hname
  · have hne : path ≠ "" := ne_empty_of_locate hlocate
    have hparts : parts path ≠ [] := by simp [parts]
    have hin := hrooted.locate hlocate
    obtain ⟨above, p, hp, hp1, hp2, hp3, hsize, rfl⟩ :=
      hrooted.follow_last hparts ((locate_eq_ok hne).1 hlocate).2 hl
    rcases List.mem_append.1 hname with hname | hname
    · rw [List.dropLast_concat] at hin
      exact ht.of_find? (by simp [hin]) hname
    · obtain rfl := List.mem_singleton.1 hname
      exact ⟨⟨hp1, hp2, hp3, slash_not_mem_parts hp⟩, hsize⟩

/-- The path of what stands below a directory leads to it, if it is not too long. -/
theorem Rooted.locate_below (ht : t.Rooted) (hn : t.Named) {root : String} (hroot : root ≠ "")
    {top l : Location} (htop : t.locate root = .ok top) (hfound : t.find? (top ++ l) ≠ none)
    (hpath : Nameable (l.foldl join root)) : t.locate (l.foldl join root) = .ok (top ++ l) := by
  induction l using List.reverseRecOn with
  | nil => simpa using htop
  | append_singleton l name ih =>
    have hname : ∀ n ∈ l ++ [name], IsStep n ∧ n.utf8ByteSize ≤ nameLimit :=
      fun n hmem => hn.of_find? hfound (List.mem_append_right _ hmem)
    obtain ⟨hstep, hsize⟩ := hname name (by simp)
    have hdir : t.find? (top ++ l) = some .directory := by
      rw [← List.append_assoc] at hfound
      exact ht.find?_above hfound
    rw [List.foldl_append, List.foldl_cons, List.foldl_nil] at hpath ⊢
    have habove := ih (by simp [hdir]) (hpath.of_join hstep.single)
    have hne : l.foldl join root ≠ "" :=
      foldl_join_ne_empty hroot fun n hmem => (hname n (by simp [hmem])).1.single
    rw [locate_join hne hstep]
    exact ⟨hpath, hsize, top ++ l, habove, hdir, by simp⟩

end FileTree

end EngineMigrate
