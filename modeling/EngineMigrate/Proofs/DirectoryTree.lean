import EngineMigrate.Local.FileTree

/-!
Trees in which every entry stands once, inside a directory.  Main statement: a tree that is changed from an
empty one by writing files, making directories and taking entries away is such a tree at any time.
-/
namespace EngineMigrate

namespace FileTree

def HasFile (t : FileTree) (l : Location) : Prop := ∃ content, t.find? l = some (.file content)

/-- No location has two entries, and what an entry stands in is a directory. -/
structure Rooted (t : FileTree) : Prop where
  distinct : (t.entries.map Prod.fst).Nodup
  below : ∀ e ∈ t.entries, e.1 ≠ [] ∧ t.find? e.1.dropLast = some .directory

@[simp] theorem find?_top (t : FileTree) : t.find? [] = some .directory := rfl

theorem find?_eq {t : FileTree} {l : Location} (h : l ≠ []) :
    t.find? l = (t.entries.find? fun e => e.1 == l).map Prod.snd := by
  simp [find?, h]

theorem mem_entries_of_find? {t : FileTree} {l : Location} {e : FileEntry} (hl : l ≠ [])
    (h : t.find? l = some e) : (l, e) ∈ t.entries := by
  rw [find?_eq hl, Option.map_eq_some_iff] at h
  obtain ⟨x, hx, rfl⟩ := h
  have hloc : x.1 = l := by simpa using List.find?_some hx
  exact hloc ▸ List.mem_of_find?_eq_some hx

theorem find?_eq_none {t : FileTree} {l : Location} (hl : l ≠ []) :
    t.find? l = none ↔ ∀ e ∈ t.entries, e.1 ≠ l := by
  simp [find?_eq hl]

theorem find?_erase (t : FileTree) {l m : Location} (h : l.isPrefixOf m = false) :
    (t.erase l).find? m = t.find? m := by
  by_cases hm : m = []
  · subst hm
    rfl
  · have hfound : (fun x : Location × FileEntry => decide ((!l.isPrefixOf x.1) = true ∧ (x.1 == m) = true)) =
        fun x => x.1 == m := by
      funext x
      by_cases hx : x.1 = m
      · simp [hx, h]
      · simp [hx]
    rw [find?_eq hm, find?_eq hm, FileTree.erase, List.find?_filter, hfound]

variable {t t' : FileTree}

theorem ne_nil_of_free {l : Location} (h : t.find? l = none) : l ≠ [] := by
  rintro rfl
  cases h

theorem eq_set_of_writeBytes {path : String} {content : ByteArray} (h : t.writeBytes path content = .ok t') :
    ∃ l, t.locate path = .ok l ∧ t.find? l ≠ some .directory ∧ t' = t.set l (.file content) := by
  simp only [writeBytes, bind_eq_ok_iff] at h
  obtain ⟨l, hl, h⟩ := h
  split at h
  · cases h
  · rename_i hplace
    cases h
    exact ⟨l, hl, hplace, rfl⟩

theorem eq_set_of_makeDirectory {path : String} (h : t.makeDirectory path = .ok t') :
    ∃ l, t.locate (withoutFinalSlashes path) = .ok l ∧ t.find? l = none ∧ t' = t.set l .directory := by
  simp only [makeDirectory, bind_eq_ok_iff] at h
  obtain ⟨l, hl, h⟩ := h
  split at h
  · cases h
  · rename_i hfree
    cases h
    exact ⟨l, hl, hfree, rfl⟩

/-- Making directories puts one after the other where a path leads and nothing is. -/
theorem ensureDirectoryUpTo_keeps {P : FileTree → Prop}
    (hset : ∀ u path l, P u → u.locate path = .ok l → u.find? l = none → P (u.set l .directory))
    (fuel : Nat) (path : String) (ht : P t) : P (ensureDirectoryUpTo fuel t path).2 := by
  have hmake : ∀ {u made : FileTree} {path : String}, P u → u.makeDirectory path = .ok made → P made := by
    intro u made path hu hmade
    obtain ⟨l, hl, hfree, rfl⟩ := eq_set_of_makeDirectory hmade
    exact hset u _ l hu hl hfree
  induction fuel generalizing t path with
  | zero => exact ht
  | succ fuel ih =>
    simp only [ensureDirectoryUpTo]
    split
    · exact ht
    · split
      · exact hmake ht ‹_›
      · split
        · exact ht
        · rename_i above _
          have habove := ih above ht
          split
          · rename_i heq
            rwa [heq] at habove
          · rename_i heq
            rw [heq] at habove
            split
            · exact hmake habove ‹_›
            · split <;> exact habove
      · split <;> exact ht

namespace Rooted

theorem find?_dropLast (ht : t.Rooted) {l : Location} (h : t.find? l ≠ none) :
    t.find? l.dropLast = some .directory := by
  by_cases hl : l = []
  · subst hl
    rfl
  · obtain ⟨e, he⟩ := Option.ne_none_iff_exists'.1 h
    exact (ht.below _ (mem_entries_of_find? hl he)).2

theorem find?_above (ht : t.Rooted) {l : Location} {name : String} (h : t.find? (l ++ [name]) ≠ none) :
    t.find? l = some .directory := by
  simpa using ht.find?_dropLast h

theorem not_below (ht : t.Rooted) {l : Location} (h : t.find? l ≠ some .directory) :
    ∀ e ∈ t.entries, e.1.dropLast ≠ l := by
  rintro e he rfl
  exact h (ht.below e he).2

theorem set (ht : t.Rooted) {l : Location} (hl : l ≠ []) (hin : t.find? l.dropLast = some .directory)
    (hplace : t.find? l ≠ some .directory) (e : FileEntry) : (t.set l e).Rooted := by
  have hne : l.dropLast ≠ l := by
    intro h
    have hlen := congrArg List.length h
    have hpos := List.length_pos_iff.2 hl
    simp at hlen
    omega
  constructor
  · have hkept : ((t.entries.filter fun x => x.1 != l).map Prod.fst).Nodup :=
      ht.distinct.sublist (List.filter_sublist.map _)
    simp only [FileTree.set, List.map_append, List.map_cons, List.map_nil]
    refine List.nodup_append.2 ⟨hkept, by simp, ?_⟩
    rintro m hm _ (_ | ⟨_, ⟨⟩⟩) rfl
    simp at hm
  · intro x hx
    simp only [FileTree.set, List.mem_append, List.mem_filter, List.mem_singleton] at hx
    rcases hx with ⟨hx, -⟩ | rfl
    · refine ⟨(ht.below x hx).1, ?_⟩
      rw [find?_set_of_ne _ (ht.not_below hplace x hx)]
      exact (ht.below x hx).2
    · refine ⟨hl, ?_⟩
      rw [find?_set_of_ne _ hne]
      exact hin

theorem erase (ht : t.Rooted) (l : Location) : (t.erase l).Rooted := by
  refine ⟨ht.distinct.sublist (List.filter_sublist.map _), fun x hx => ?_⟩
  obtain ⟨hx, hkept⟩ := List.mem_filter.1 hx
  obtain ⟨hne, hdir⟩ := ht.below x hx
  refine ⟨hne, ?_⟩
  have hout : l.isPrefixOf x.1.dropLast = false := by
    rw [Bool.eq_false_iff, ne_eq, List.isPrefixOf_iff_prefix]
    intro hp
    have hpre := hp.trans (List.dropLast_prefix x.1)
    simp [List.isPrefixOf_iff_prefix.2 hpre] at hkept
  rw [find?_erase t hout]
  exact hdir

/-- A path leads to a place in a directory. -/
theorem follow (ht : t.Rooted) {l l' : Location} {parts : List String}
    (hl : parts ≠ [] ∨ t.find? l.dropLast = some .directory) (h : t.follow l parts = .ok l') :
    t.find? l'.dropLast = some .directory := by
  induction parts generalizing l with
  | nil =>
    cases h
    exact hl.resolve_left (· rfl)
  | cons p rest ih =>
    simp only [FileTree.follow] at h
    split at h
    · cases h
    · cases h
    · rename_i hdir
      have hin : t.find? l.dropLast = some .directory := ht.find?_dropLast (by simp [hdir])
      split at h
      · exact ih (.inr hin) h
      · split at h
        · exact ih (.inr (ht.find?_dropLast (by simp [hin]))) h
        · split at h
          · cases h
          · exact ih (.inr (by simpa using hdir)) h

theorem locate (ht : t.Rooted) {path : String} {l : Location} (h : t.locate path = .ok l) :
    t.find? l.dropLast = some .directory := by
  simp only [FileTree.locate] at h
  split at h
  · cases h
  · split at h
    · cases h
    · refine ht.follow (.inl ?_) h
      simp [FilePath.parts]

theorem writeBytes (ht : t.Rooted) {path : String} {content : ByteArray}
    (h : t.writeBytes path content = .ok t') : t'.Rooted := by
  obtain ⟨l, hl, hplace, rfl⟩ := eq_set_of_writeBytes h
  have hne : l ≠ [] := fun hnil => hplace (hnil ▸ rfl)
  exact ht.set hne (ht.locate hl) hplace _

theorem ensureDirectory (ht : t.Rooted) (path : String) : (t.ensureDirectory path).2.Rooted := by
  refine ensureDirectoryUpTo_keeps (P := Rooted) (fun u path l hu hl hfree => ?_) _ path ht
  exact hu.set (ne_nil_of_free hfree) (hu.locate hl) (by simp [hfree]) _

end Rooted

/-- One change of a tree.  A change that cannot be made leaves the tree as it was. -/
inductive Change where
  | write (path : String) (content : ByteArray)
  | makeDirectories (path : String)
  | remove (l : Location)

def Change.applyTo (t : FileTree) : Change → FileTree
  | .write path content => match t.writeBytes path content with
    | .ok t' => t'
    | .error _ => t
  | .makeDirectories path => (t.ensureDirectory path).2
  | .remove l => t.erase l

def changeAll (t : FileTree) (changes : List Change) : FileTree := changes.foldl Change.applyTo t

theorem rooted_empty : empty.Rooted := ⟨.nil, nofun⟩

theorem Rooted.change {t : FileTree} (ht : t.Rooted) (c : Change) : (c.applyTo t).Rooted := by
  cases c with
  | write path content =>
    simp only [Change.applyTo]
    split
    · rename_i hw
      exact ht.writeBytes hw
    · exact ht
  | makeDirectories path => exact ht.ensureDirectory path
  | remove l => exact ht.erase l

theorem Rooted.changeAll {t : FileTree} (ht : t.Rooted) (changes : List Change) :
    (t.changeAll changes).Rooted := by
  induction changes generalizing t with
  | nil => exact ht
  | cons c changes ih => exact ih (ht.change c)

end FileTree

end EngineMigrate
