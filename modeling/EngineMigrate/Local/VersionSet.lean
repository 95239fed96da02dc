/-!
Sets of migration versions, gaps allowed, with the neighbours of any version in or out of the set.
Main statements: membership after an insertion and a removal, and what `next?` and `prev?` are.
-/
namespace EngineMigrate

/-- A set of versions as the list of its members in strictly ascending order. -/
structure VersionSet where
  toList : List Nat
  ascending : toList.Pairwise (· < ·)

namespace VersionSet

instance : DecidableEq VersionSet := fun a b =>
  decidable_of_iff (a.toList = b.toList) (by cases a; cases b; simp)

def empty : VersionSet := ⟨[], .nil⟩

instance : Membership Nat VersionSet := ⟨fun s v => v ∈ s.toList⟩

@[simp] theorem mem_toList {s : VersionSet} {v : Nat} : v ∈ s.toList ↔ v ∈ s := Iff.rfl

def contains (s : VersionSet) (v : Nat) : Bool := s.toList.contains v

@[simp] theorem contains_iff {s : VersionSet} {v : Nat} : s.contains v = true ↔ v ∈ s := by
  simp [contains, ← mem_toList]

instance (s : VersionSet) (v : Nat) : Decidable (v ∈ s) :=
  decidable_of_iff (s.contains v = true) contains_iff

/-- A version put in its place, unless it is there. -/
def place (v : Nat) : List Nat → List Nat
  | [] => [v]
  | w :: ws => if v < w then v :: w :: ws else if v = w then w :: ws else w :: place v ws

theorem mem_place {v w : Nat} {ws : List Nat} : w ∈ place v ws ↔ w = v ∨ w ∈ ws := by
  induction ws with
  | nil => simp [place]
  | cons u us ih =>
    simp only [place]
    split
    · simp
    · split
      · rename_i h
        subst h
        simp
      · simp only [List.mem_cons, ih]
        constructor
        · rintro (h | h | h) <;> simp [h]
        · rintro (h | h | h) <;> simp [h]

theorem place_ascending {v : Nat} {ws : List Nat} (h : ws.Pairwise (· < ·)) :
    (place v ws).Pairwise (· < ·) := by
  induction ws with
  | nil => simp [place]
  | cons u us ih =>
    have hu := List.pairwise_cons.1 h
    simp only [place]
    split
    · rename_i hv
      refine List.pairwise_cons.2 ⟨fun x hx => ?_, h⟩
      rcases List.mem_cons.1 hx with rfl | hx
      · exact hv
      · exact Nat.lt_trans hv (hu.1 x hx)
    · split
      · exact h
      · rename_i h1 h2
        refine List.pairwise_cons.2 ⟨fun x hx => ?_, ih hu.2⟩
        rcases mem_place.1 hx with rfl | hx
        · omega
        · exact hu.1 x hx

def insert (s : VersionSet) (v : Nat) : VersionSet := ⟨place v s.toList, place_ascending s.ascending⟩

def erase (s : VersionSet) (v : Nat) : VersionSet :=
  ⟨s.toList.filter (· != v), s.ascending.filter _⟩

def ofList (vs : List Nat) : VersionSet := vs.foldl insert empty

@[simp] theorem mem_insert {s : VersionSet} {v w : Nat} : w ∈ s.insert v ↔ w = v ∨ w ∈ s := mem_place

@[simp] theorem mem_erase {s : VersionSet} {v w : Nat} : w ∈ s.erase v ↔ w ∈ s ∧ w ≠ v := by
  show w ∈ s.toList.filter _ ↔ _
  simp

theorem mem_foldl_insert {vs : List Nat} {s : VersionSet} {w : Nat} :
    w ∈ vs.foldl insert s ↔ w ∈ vs ∨ w ∈ s := by
  induction vs generalizing s with
  | nil => simp
  | cons v vs ih =>
    simp only [List.foldl_cons, ih, mem_insert, List.mem_cons]
    constructor
    · rintro (h | h | h) <;> simp [h]
    · rintro ((h | h) | h) <;> simp [h]

@[simp] theorem mem_ofList {vs : List Nat} {w : Nat} : w ∈ ofList vs ↔ w ∈ vs := by
  simp only [ofList, mem_foldl_insert, or_iff_left_iff_imp]
  intro h
  exact absurd h (by simp [← mem_toList, empty])

/-- Inserts a version and tells whether it was new. -/
def add (s : VersionSet) (v : Nat) : Bool × VersionSet := (!s.contains v, s.insert v)

def discard (s : VersionSet) (v : Nat) : Bool × VersionSet := (s.contains v, s.erase v)

def size (s : VersionSet) : Nat := s.toList.length

def isEmpty (s : VersionSet) : Bool := s.toList.isEmpty

def first? (s : VersionSet) : Option Nat := s.toList.head?

def last? (s : VersionSet) : Option Nat := s.toList.getLast?

def next? (s : VersionSet) (v : Nat) : Option Nat := s.toList.find? (v < ·)

def prev? (s : VersionSet) (v : Nat) : Option Nat := s.toList.reverse.find? (· < v)

theorem find?_ascending {l : List Nat} (h : l.Pairwise (· < ·)) {p : Nat → Bool} {w : Nat} :
    l.find? p = some w ↔ w ∈ l ∧ p w = true ∧ ∀ u ∈ l, p u = true → w ≤ u := by
  induction l with
  | nil => simp
  | cons x xs ih =>
    have hx := List.pairwise_cons.1 h
    rw [List.find?_cons]
    split
    · rename_i hp
      constructor
      · intro e
        cases e
        refine ⟨List.mem_cons_self, hp, fun u hu _ => ?_⟩
        rcases List.mem_cons.1 hu with rfl | hu
        · exact Nat.le_refl _
        · exact Nat.le_of_lt (hx.1 u hu)
      · rintro ⟨hw, _, hmin⟩
        have hle := hmin x List.mem_cons_self hp
        rcases List.mem_cons.1 hw with rfl | hw
        · rfl
        · exact absurd (hx.1 w hw) (by omega)
    · rename_i hp
      rw [ih hx.2]
      constructor
      · rintro ⟨hw, hpw, hmin⟩
        refine ⟨List.mem_cons_of_mem _ hw, hpw, fun u hu hpu => ?_⟩
        rcases List.mem_cons.1 hu with rfl | hu
        · simp_all
        · exact hmin u hu hpu
      · rintro ⟨hw, hpw, hmin⟩
        refine ⟨?_, hpw, fun u hu hpu => hmin u (List.mem_cons_of_mem _ hu) hpu⟩
        rcases List.mem_cons.1 hw with rfl | hw
        · simp_all
        · exact hw

theorem find?_reverse_ascending {l : List Nat} (h : l.Pairwise (· < ·)) {p : Nat → Bool} {w : Nat} :
    l.reverse.find? p = some w ↔ w ∈ l ∧ p w = true ∧ ∀ u ∈ l, p u = true → u ≤ w := by
  induction l with
  | nil => simp
  | cons x xs ih =>
    have hx := List.pairwise_cons.1 h
    rw [List.reverse_cons, List.find?_append, Option.or_eq_some_iff, ih hx.2]
    constructor
    · rintro (⟨hw, hpw, hmax⟩ | ⟨hnone, hfound⟩)
      · refine ⟨List.mem_cons_of_mem _ hw, hpw, fun u hu hpu => ?_⟩
        rcases List.mem_cons.1 hu with rfl | hu
        · exact Nat.le_of_lt (hx.1 w hw)
        · exact hmax u hu hpu
      · simp only [List.find?_singleton, Option.ite_none_right_eq_some, Option.some.injEq] at hfound
        obtain ⟨hpx, rfl⟩ := hfound
        refine ⟨List.mem_cons_self, hpx, fun u hu hpu => ?_⟩
        rcases List.mem_cons.1 hu with rfl | hu
        · exact Nat.le_refl _
        · exact absurd hpu (by simpa using List.find?_eq_none.1 hnone u (List.mem_reverse.2 hu))
    · rintro ⟨hw, hpw, hmax⟩
      rcases List.mem_cons.1 hw with rfl | hw
      · refine .inr ⟨?_, by simp [hpw]⟩
        refine List.find?_eq_none.2 fun u hu hpu => ?_
        have hu := List.mem_reverse.1 hu
        have hlt := hx.1 u hu
        have hle := hmax u (List.mem_cons_of_mem _ hu) hpu
        omega
      · exact .inl ⟨hw, hpw, fun u hu hpu => hmax u (List.mem_cons_of_mem _ hu) hpu⟩

theorem next?_eq_some_iff {s : VersionSet} {v w : Nat} :
    s.next? v = some w ↔ w ∈ s ∧ v < w ∧ ∀ u ∈ s, v < u → w ≤ u := by
  simpa [next?] using find?_ascending s.ascending (p := (v < ·)) (w := w)

theorem prev?_eq_some_iff {s : VersionSet} {v w : Nat} :
    s.prev? v = some w ↔ w ∈ s ∧ w < v ∧ ∀ u ∈ s, u < v → u ≤ w := by
  simpa [prev?] using find?_reverse_ascending s.ascending (p := (· < v)) (w := w)

theorem last?_eq_some_iff {s : VersionSet} {w : Nat} :
    s.last? = some w ↔ w ∈ s ∧ ∀ u ∈ s, u ≤ w := by
  have hlast : s.last? = s.toList.reverse.find? fun _ => true := by
    rw [last?, ← List.head?_reverse]
    cases s.toList.reverse <;> rfl
  rw [hlast, find?_reverse_ascending s.ascending]
  simp

end VersionSet

end EngineMigrate
