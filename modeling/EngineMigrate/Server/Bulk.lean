import EngineMigrate.Server.Operation

/-!
Bulks: operations sent as one request, each with the file it came from.  Main statements: cutting a bulk
into runs keeps every operation and its file in place, no run is empty, and a run has one key.
-/
namespace EngineMigrate

open Json (Value)

/-- Cuts a list into maximal runs of neighbours with the same key. -/
def runsBy {α κ : Type} [DecidableEq κ] (key : α → κ) : List α → List (κ × List α)
  | [] => []
  | a :: rest => match runsBy key rest with
    | [] => [(key a, [a])]
    | (k, run) :: more =>
      if key a = k then (k, a :: run) :: more else (key a, [a]) :: (k, run) :: more

section

variable {α κ : Type} [DecidableEq κ] (key : α → κ)

theorem flatten_runsBy (xs : List α) : ((runsBy key xs).map Prod.snd).flatten = xs := by
  induction xs with
  | nil => rfl
  | cons a rest ih =>
    unfold runsBy
    split
    · rename_i h
      rw [h] at ih
      simp at ih
      simp [← ih]
    · rename_i k run more h
      rw [h] at ih
      split <;> simp_all

theorem ne_nil_of_mem_runsBy {xs : List α} {r : κ × List α} (h : r ∈ runsBy key xs) : r.2 ≠ [] := by
  induction xs generalizing r with
  | nil => simp [runsBy] at h
  | cons a rest ih =>
    unfold runsBy at h
    split at h
    · simp_all
    · rename_i k run more hr
      split at h
      · rcases List.mem_cons.1 h with rfl | h
        · simp
        · exact ih (by rw [hr]; exact List.mem_cons_of_mem _ h)
      · rcases List.mem_cons.1 h with rfl | h
        · simp
        · exact ih (by rw [hr]; exact h)

theorem key_of_mem_runsBy {xs : List α} {r : κ × List α} (h : r ∈ runsBy key xs) :
    ∀ a ∈ r.2, key a = r.1 := by
  induction xs generalizing r with
  | nil => simp [runsBy] at h
  | cons a rest ih =>
    unfold runsBy at h
    split at h
    · simp_all
    · rename_i k run more hr
      have head := ih (r := (k, run)) (by rw [hr]; exact List.mem_cons_self)
      split at h
      · rename_i hk
        rcases List.mem_cons.1 h with rfl | h
        · intro b hb
          rcases List.mem_cons.1 hb with rfl | hb
          · exact hk
          · exact head b hb
        · exact ih (by rw [hr]; exact List.mem_cons_of_mem _ h)
      · rcases List.mem_cons.1 h with rfl | h
        · simp
        · exact ih (by rw [hr]; exact h)

end

/-- An operation with the file it was staged for; bookkeeping belongs to no file. -/
structure Staged where
  operation : Operation
  file : Option String
deriving DecidableEq, Repr

structure Bulk where
  items : List Staged
deriving DecidableEq, Repr

namespace Bulk

def empty : Bulk := ⟨[]⟩

def append (b : Bulk) (operation : Operation) (file : Option String) : Bulk :=
  ⟨b.items ++ [⟨operation, file⟩]⟩

def size (b : Bulk) : Nat := b.items.length

def isEmpty (b : Bulk) : Bool := b.items.isEmpty

def operations (b : Bulk) : List Operation := b.items.map Staged.operation

/-- The file of the operation at a position, if there is such an operation and it has one. -/
def file? (b : Bulk) (i : Nat) : Option String := b.items[i]? >>= Staged.file

@[simp] theorem items_append (b : Bulk) (o : Operation) (f : Option String) :
    (b.append o f).items = b.items ++ [⟨o, f⟩] := rfl

@[simp] theorem operations_append (b : Bulk) (o : Operation) (f : Option String) :
    (b.append o f).operations = b.operations ++ [o] := by
  simp [operations]

def splitBy {κ : Type} [DecidableEq κ] (key : Operation → κ) (b : Bulk) : List (κ × Bulk) :=
  (runsBy (fun s => key s.operation) b.items).map fun r => (r.1, ⟨r.2⟩)

theorem items_splitBy {κ : Type} [DecidableEq κ] (key : Operation → κ) (b : Bulk) :
    ((b.splitBy key).map fun r => r.2.items).flatten = b.items := by
  have h := flatten_runsBy (fun s : Staged => key s.operation) b.items
  simpa [splitBy, List.map_map, Function.comp_def] using h

/-- The request that carries the bulk; a source scopes it. -/
def request (b : Bulk) (source : Option String) : Value :=
  Value.ofMembers (("type", .string "bulk") :: ("args", .array (b.operations.map Operation.toJson)) ::
    SqlArgs.member "source" .string source)

end Bulk

end EngineMigrate
