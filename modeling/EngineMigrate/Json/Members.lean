import EngineMigrate.Json.Value

/-!
The laws of an object's members: they stay sorted, and sorted members are determined by their look-ups.
-/
namespace EngineMigrate.Json.Members

@[simp] theorem sorted_nil : Sorted [] := List.Pairwise.nil

theorem sorted_cons {n : String} {v : Value} {ms : Members} :
    Sorted ((n, v) :: ms) ↔ (∀ m ∈ ms, n < m.1) ∧ Sorted ms := List.pairwise_cons

theorem get?_insert (name other : String) (v : Value) (ms : Members) :
    get? other (insert name v ms) = if other = name then some v else get? other ms := by
  split
  · rename_i h
    rw [h, get?_insert_self]
  · rename_i h
    exact get?_insert_of_ne h v ms

theorem mem_insert {n : String} {v : Value} {ms : Members} {m : String × Value}
    (h : m ∈ insert n v ms) : m = (n, v) ∨ m ∈ ms := by
  induction ms with
  | nil => simpa [insert] using h
  | cons x xs ih =>
    obtain ⟨k, w⟩ := x
    simp only [insert] at h
    split at h
    · simpa using h
    · split at h
      · rcases List.mem_cons.1 h with h | h
        · exact .inl h
        · exact .inr (List.mem_cons_of_mem _ h)
      · rcases List.mem_cons.1 h with h | h
        · exact .inr (h ▸ List.mem_cons_self)
        · exact (ih h).imp_right (List.mem_cons_of_mem _)

theorem lt_of_not_lt {a b : String} (h : ¬ a < b) (hne : a ≠ b) : b < a := by
  rcases Decidable.em (b < a) with hlt | hle
  · exact hlt
  · exact absurd (String.le_antisymm hle h) hne

theorem sorted_insert {n : String} {v : Value} {ms : Members} (h : Sorted ms) :
    Sorted (insert n v ms) := by
  induction ms with
  | nil => simp [insert, Sorted]
  | cons x xs ih =>
    obtain ⟨k, w⟩ := x
    have hx := sorted_cons.1 h
    simp only [insert]
    split
    · rename_i hlt
      refine sorted_cons.2 ⟨fun m hm => ?_, h⟩
      rcases List.mem_cons.1 hm with rfl | hm
      · exact hlt
      · exact String.lt_trans hlt (hx.1 m hm)
    · split
      · rename_i hk
        subst hk
        exact sorted_cons.2 hx
      · rename_i hlt hne
        refine sorted_cons.2 ⟨fun m hm => ?_, ih hx.2⟩
        rcases mem_insert hm with rfl | hm
        · exact lt_of_not_lt hlt hne
        · exact hx.1 m hm

theorem mem_insertAll {ms added : Members} {m : String × Value} (h : m ∈ insertAll ms added) :
    m ∈ ms ∨ m ∈ added := by
  induction added generalizing ms with
  | nil => exact .inl h
  | cons a added ih =>
    rcases ih h with hm | hm
    · rcases mem_insert hm with rfl | hm
      · exact .inr List.mem_cons_self
      · exact .inl hm
    · exact .inr (List.mem_cons_of_mem _ hm)

theorem mem_ofList {ms : List (String × Value)} {m : String × Value} (h : m ∈ ofList ms) : m ∈ ms :=
  (mem_insertAll (show m ∈ insertAll [] ms from h)).resolve_left List.not_mem_nil

theorem sorted_insertAll {ms added : Members} (h : Sorted ms) : Sorted (insertAll ms added) := by
  induction added generalizing ms with
  | nil => exact h
  | cons x xs ih => exact ih (sorted_insert h)

theorem sorted_ofList (ms : List (String × Value)) : Sorted (ofList ms) :=
  show Sorted (insertAll [] ms) from sorted_insertAll sorted_nil

theorem sorted_filter {ms : Members} (h : Sorted ms) (p : String × Value → Bool) :
    Sorted (ms.filter p) := h.filter p

theorem get?_eq_none {n : String} {ms : Members} (h : ∀ m ∈ ms, m.1 ≠ n) : get? n ms = none := by
  induction ms with
  | nil => rfl
  | cons x xs ih =>
    simp only [get?, h x List.mem_cons_self, if_false]
    exact ih fun m hm => h m (List.mem_cons_of_mem _ hm)

theorem get?_eq_none_of_lt {n : String} {ms : Members} (h : ∀ m ∈ ms, n < m.1) :
    get? n ms = none :=
  get?_eq_none fun m hm he => String.lt_irrefl n (he ▸ h m hm)

theorem get?_insertAll {ms added : Members} (h : Sorted added) (n : String) :
    get? n (insertAll ms added) = (get? n added).or (get? n ms) := by
  induction added generalizing ms with
  | nil => rfl
  | cons x xs ih =>
    obtain ⟨k, w⟩ := x
    have hx := sorted_cons.1 h
    show get? n (insertAll (insert k w ms) xs) = _
    rw [ih hx.2]
    by_cases hk : k = n
    · subst hk
      simp [get?, get?_eq_none_of_lt hx.1]
    · simp [get?, hk, get?_insert_of_ne (Ne.symm hk)]

theorem get?_filter {ms : Members} (p : String → Bool) (n : String) :
    get? n (ms.filter fun m => p m.1) = if p n then get? n ms else none := by
  induction ms with
  | nil => simp
  | cons x xs ih =>
    obtain ⟨k, w⟩ := x
    by_cases hk : k = n
    · subst hk
      by_cases hp : p k <;> simp_all [get?]
    · by_cases hp : p k <;> simp [get?, hk, hp, ih]

theorem ext {as bs : Members} (ha : Sorted as) (hb : Sorted bs)
    (h : ∀ n, get? n as = get? n bs) : as = bs := by
  induction as generalizing bs with
  | nil =>
    cases bs with
    | nil => rfl
    | cons y ys => simpa [get?] using h y.1
  | cons x xs ih =>
    obtain ⟨k, v⟩ := x
    have hx := sorted_cons.1 ha
    cases bs with
    | nil => simpa [get?] using h k
    | cons y ys =>
      obtain ⟨l, w⟩ := y
      have hy := sorted_cons.1 hb
      have hkl : k = l := by
        rcases Decidable.em (k < l) with hlt | hle
        · have hnone : get? k ((l, w) :: ys) = none := get?_eq_none_of_lt fun m hm => by
            rcases List.mem_cons.1 hm with rfl | hm
            · exact hlt
            · exact String.lt_trans hlt (hy.1 m hm)
          have hn := h k
          rw [hnone] at hn
          simp [get?] at hn
        · rcases Decidable.em (k = l) with he | hne
          · exact he
          · have hlt := lt_of_not_lt hle hne
            have hnone : get? l ((k, v) :: xs) = none := get?_eq_none_of_lt fun m hm => by
              rcases List.mem_cons.1 hm with rfl | hm
              · exact hlt
              · exact String.lt_trans hlt (hx.1 m hm)
            have hn := h l
            rw [hnone] at hn
            simp [get?] at hn
      subst hkl
      have hvw : v = w := by simpa [get?] using h k
      subst hvw
      rw [ih hx.2 hy.2]
      intro n
      by_cases hn : k = n
      · subst hn
        rw [get?_eq_none_of_lt hx.1, get?_eq_none_of_lt hy.1]
      · simpa [get?, hn] using h n

theorem ofList_of_sorted {ms : Members} (h : Sorted ms) : ofList ms = ms := by
  refine ext (sorted_ofList ms) h fun n => ?_
  rw [show ofList ms = insertAll [] ms from rfl, get?_insertAll h]
  simp

end EngineMigrate.Json.Members
