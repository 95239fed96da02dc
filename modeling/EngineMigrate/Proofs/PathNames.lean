import EngineMigrate.Proofs.PathLocation
import Mathlib.Data.List.TakeWhile

/-!
The names that a path is made of.  A name that is joined to a path is one more name, and what stands behind
a name does not count if it is slashes and single dots.  Main statement: a text is taken for the name of
something in a directory exactly if it stays inside of it, and then it leads to the entry that its first part
names.
-/
namespace EngineMigrate

namespace FilePath

variable {base name path : String}

def child (path : String) : String := String.ofList (path.toList.takeWhile (· != '/'))

def behind (path : String) : String := String.ofList (path.toList.dropWhile (· != '/'))

/-- A name, and behind it nothing but slashes and single dots. -/
structure StaysInside (path : String) : Prop where
  relative : isAbsolute path = false
  nonempty : child path ≠ ""
  notSelf : child path ≠ "."
  notAbove : child path ≠ ".."
  behind : ∀ p ∈ parts (behind path), p = "" ∨ p = "."

theorem child_append_behind (path : String) : child path ++ behind path = path := by
  rw [child, behind, ← String.ofList_append, List.takeWhile_append_dropWhile, String.ofList_toList]

theorem slash_not_mem_child (path : String) : '/' ∉ (child path).toList := by
  rw [child, String.toList_ofList]
  intro h
  simpa using List.mem_takeWhile_imp h

theorem behind_cases (path : String) : behind path = "" ∨ ∃ more, behind path = "/" ++ more := by
  rw [behind]
  cases hrest : path.toList.dropWhile (· != '/') with
  | nil => exact .inl rfl
  | cons c more =>
    have hc : c = '/' := by
      have hhead := List.head?_dropWhile_not (· != '/') path.toList
      rw [hrest] at hhead
      simpa using hhead
    exact .inr ⟨String.ofList more, String.toList_injective (by simp [hc])⟩

theorem parts_slash (more : String) : parts ("/" ++ more) = "" :: parts more := by
  have h := List.splitOn_append_cons_self (a := '/') [] more.toList
  simp only [List.nil_append, List.splitOn_nil] at h
  simp [parts, h]

theorem parts_append_slash (path more : String) : parts (path ++ "/" ++ more) = parts path ++ parts more := by
  simp [parts, String.toList_append, List.append_assoc, List.splitOn_append_cons_self]

theorem parts_append_behind (base path : String) :
    parts (base ++ behind path) = parts base ++ (parts (behind path)).tail := by
  rcases behind_cases path with h | ⟨more, h⟩
  · rw [h]
    simp [parts, List.splitOn_nil]
  · rw [h, ← String.append_assoc, parts_append_slash, parts_slash, List.tail_cons]

theorem parts_eq (path : String) : parts path = child path :: (parts (behind path)).tail := by
  have h := parts_append_behind (child path) path
  rwa [child_append_behind, parts_of_single (slash_not_mem_child path), List.singleton_append] at h

theorem filter_behind_eq_nil_iff (path : String) :
    ((parts (behind path)).tail.filter fun p => p ≠ "" && p ≠ ".") = [] ↔
      ∀ p ∈ parts (behind path), p = "" ∨ p = "." := by
  have hhead : ∃ rest, parts (behind path) = "" :: rest := by
    rcases behind_cases path with h | ⟨more, h⟩
    · exact ⟨[], by simp [h, parts, List.splitOn_nil]⟩
    · exact ⟨parts more, by rw [h, parts_slash]⟩
  obtain ⟨rest, hrest⟩ := hhead
  simp [hrest, List.filter_eq_nil_iff, ← or_iff_not_imp_left]

theorem names_eq (path : String) : names path =
    [child path].filter (· ≠ "") ++ (parts (behind path)).tail.filter fun p => p ≠ "" && p ≠ "." := by
  rw [names, parts_eq]

theorem eq_empty_of_child {path : String} (hrelative : isAbsolute path = false) (h : child path = "") :
    path = "" := by
  have hpath := child_append_behind path
  rw [h, String.empty_append] at hpath
  rcases behind_cases path with hnone | ⟨more, hmore⟩
  · exact hpath.symm.trans hnone
  · rw [← hpath, hmore] at hrelative
    simp [isAbsolute] at hrelative

/-- A path is taken for the name of something in a directory exactly if it stays inside of it. -/
theorem isPlainName_iff {path : String} : isPlainName path = true ↔ StaysInside path := by
  constructor
  · intro h
    simp only [isPlainName, Bool.and_eq_true, Bool.not_eq_true'] at h
    obtain ⟨hrelative, h⟩ := h
    split at h
    · rename_i name hname
      have hne : child path ≠ "" := by
        intro hempty
        rw [eq_empty_of_child hrelative hempty] at hname
        simp [names, parts, List.splitOn_nil] at hname
      rw [names_eq, List.filter_cons_of_pos (by simpa using hne), List.filter_nil,
        List.singleton_append, List.cons.injEq, filter_behind_eq_nil_iff] at hname
      obtain ⟨rfl, hbehind⟩ := hname
      obtain ⟨hself, habove⟩ : child path ≠ "." ∧ child path ≠ ".." := by simpa using h
      exact ⟨hrelative, hne, hself, habove, hbehind⟩
    · cases h
  · intro h
    have hnames : names path = [child path] := by
      rw [names_eq, (filter_behind_eq_nil_iff path).2 h.behind]
      simp [h.nonempty]
    simp [isPlainName, h.relative, hnames, h.notSelf, h.notAbove]

theorem StaysInside.isStep (h : StaysInside path) : IsStep (child path) :=
  ⟨h.nonempty, h.notSelf, h.notAbove, slash_not_mem_child path⟩

theorem names_join (h : IsStep name) : names (join base name) = names base ++ [name] := by
  have hname : names name = [name] := by
    simp [names, parts_of_single h.single, h.nonempty]
  by_cases hbase : base = ""
  · subst hbase
    have hnone : names "" = [] := by simp [names, parts, List.splitOn_nil]
    simp [join_eq h.single, hname, hnone]
  · obtain ⟨ps, hne, hparts, hjoin⟩ := parts_join hbase h.single
    obtain ⟨first, rest, rfl⟩ := List.exists_cons_of_ne_nil hne
    rcases hparts with hparts | hparts
    · simp [names, hparts, hjoin, h.nonempty, h.notSelf]
    · simp [names, hparts, hjoin, h.nonempty, h.notSelf]

/-- What stays inside adds no name but its first one. -/
theorem names_append_behind (h : StaysInside path) :
    names (base ++ behind path) = names base := by
  have hparts := parts_append_behind base path
  rw [parts_eq base, List.cons_append] at hparts
  have hnone := (filter_behind_eq_nil_iff path).2 h.behind
  simp only [names, hparts, parts_eq base, List.filter_append, hnone, List.append_nil]

theorem join_child_append_behind (h : StaysInside path) :
    join base (child path) ++ behind path = join base path := by
  have hchild : isAbsolute (child path) = false := isAbsolute_of_single (slash_not_mem_child path)
  rw [join, join, hchild, h.relative]
  simp only [Bool.false_eq_true, if_false]
  split <;> simp only [String.append_assoc, child_append_behind]

end FilePath

namespace FileTree
open FilePath

variable {t : FileTree} {path directory : String} {l : Location}

theorem follow_stays {top m : Location} {ps : List String} (h : ∀ p ∈ ps, p = "" ∨ p = ".")
    (hfollow : t.follow top ps = .ok m) : m = top := by
  induction ps with
  | nil => exact (Except.ok.inj hfollow).symm
  | cons p ps ih =>
    simp only [follow] at hfollow
    split at hfollow
    · cases hfollow
    · cases hfollow
    · rw [if_pos (by simpa using h p List.mem_cons_self)] at hfollow
      exact ih (fun q hq => h q (List.mem_cons_of_mem _ hq)) hfollow

theorem locate_of_behind {x : String} (h : StaysInside path) (hx : x ≠ "")
    (hl : t.locate (x ++ behind path) = .ok l) : t.locate x = .ok l := by
  have hne : x ++ behind path ≠ "" := by simp [hx]
  obtain ⟨⟨hnul, hsize⟩, hfollow⟩ := (locate_eq_ok hne).1 hl
  rw [isAbsolute_append hx, parts_append_behind, follow_append, bind_eq_ok_iff] at hfollow
  obtain ⟨m, hm, hrest⟩ := hfollow
  have hsame := follow_stays (fun p hp => h.behind p (List.mem_of_mem_tail hp)) hrest
  simp only [String.toList_append, List.mem_append, not_or, String.utf8ByteSize_append] at hnul hsize
  exact (locate_eq_ok hx).2 ⟨⟨hnul.1, by omega⟩, hsame ▸ hm⟩

/-- What stays inside of a directory leads to the entry in it that its first part names. -/
theorem locate_join_child (h : StaysInside path) (hl : t.locate (join directory path) = .ok l) :
    ∃ top, t.origin directory = .ok top ∧ l = top ++ [child path] := by
  rw [← join_child_append_behind h] at hl
  have hchild := locate_of_behind h h.isStep.join_ne_empty hl
  obtain ⟨-, -, top, htop, -, hlast⟩ := (locate_join_iff h.isStep).1 hchild
  exact ⟨top, htop, hlast⟩

end FileTree
end EngineMigrate
