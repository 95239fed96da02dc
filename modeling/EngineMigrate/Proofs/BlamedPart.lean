import EngineMigrate.Proofs.FaultTrace

/-!
The operation that is named for an error, and the part of the request that is shown with it.  The position of
the operation is looked for in one spelling of the path, while the part is found by any: with quoted keys,
with blanks or a sign around an index, with a bracket that the end of the text closes.  Main statement: a part
of an operation is shown with the position and the file of that operation exactly if the path is spelled that
one way, and otherwise no operation is named.
-/
namespace EngineMigrate

open Json (Value)

namespace FaultPath

/-- The path steps to a position in the arguments of a bulk, and maybe further. -/
def EntersAt (path : String) (i : Nat) : Prop :=
  ∃ further, parse? path = some (.key "args" :: .index i :: further)

def IsPlain (path : String) : Prop := ∃ ds further, IsDigits ds ∧ path = intoBulk ds further

theorem bulkIndex?_eq_none {path : String} (h : ¬ IsPlain path) : bulkIndex? path = none := by
  cases hindex : bulkIndex? path with
  | none => rfl
  | some k => exact absurd (exists_of_bulkIndex? hindex) h

theorem bulkIndex?_of_entersAt {path : String} {i : Nat} (h : EntersAt path i) :
    bulkIndex? path = some i ↔ IsPlain path := by
  constructor
  · exact exists_of_bulkIndex?
  · rintro ⟨ds, further, hds, rfl⟩
    obtain ⟨steps, hsteps⟩ := h
    rw [parse?_intoBulk hds] at hsteps
    simp only [Option.bind_eq_bind, Option.bind_eq_some_iff, Option.pure_def, Option.some.injEq,
      List.cons.injEq, Segment.index.injEq] at hsteps
    obtain ⟨k, hk, more, -, -, hki, -⟩ := hsteps
    rw [bulkIndex?_intoBulk hds, hk, hki]

end FaultPath

namespace Bulk

/-- What a path into an operation leads to is shown as a part of that operation.  Beside it the operation is
named, position and file, exactly if the path is spelled plainly, and no other operation ever is. -/
theorem blame_agrees_iff (b : Bulk) (source : Option String) (fault : ServerFault) {i : Nat} {u : Value}
    (hpath : FaultPath.EntersAt fault.path i)
    (hu : FaultPath.lookup (b.request source) fault.path = some u) :
    ∃ x blame, b.items[i]? = some x ∧ u.Part x.operation.toJson ∧
      b.blame? (b.request source) (.server fault) = some blame ∧ blame.fault = fault ∧
      blame.query = some u.pretty ∧
      (blame.index = some i ∧ blame.file = x.file ↔ FaultPath.IsPlain fault.path) ∧
      (¬ FaultPath.IsPlain fault.path → blame.index = none ∧ blame.file = none) := by
  have hindex := FaultPath.bulkIndex?_of_entersAt hpath
  obtain ⟨further, hparse⟩ := hpath
  have hsteps : (.key "args" :: .index i :: further).foldlM FaultPath.step (b.request source) = some u := by
    rw [FaultPath.lookup, hparse] at hu
    exact hu
  obtain ⟨x, hx, hmore⟩ := FaultPath.operation_of_steps hsteps
  have hfile : b.file? i = x.file := by simp [file?, hx]
  refine ⟨x, _, hx, FaultPath.part_of_steps hmore, rfl, rfl, by simp [hu], ?_, fun hother => ?_⟩
  · constructor
    · exact fun h => hindex.1 h.1
    · intro hplain
      simp [hindex.2 hplain, hfile]
  · simp [FaultPath.bulkIndex?_eq_none hother]

def oneTable : Bulk :=
  ⟨[⟨.plain "run_sql" (.object [("sql", .string "CREATE TABLE a ()")]), some "1000_a.up.sql"⟩]⟩

/-- Paths into its operation by which all of the operation is shown, but neither its position nor its file. -/
theorem blame_passes_over_spellings :
    oneTable.file? 0 = some "1000_a.up.sql" ∧
    ∀ path ∈ ["$['args'][0]", "$.args[ 0 ]", "$.args[+0]", "$.args[0"],
      FaultPath.parse? path = some [.key "args", .index 0] ∧
      FaultPath.lookup (oneTable.request none) path =
        some (Operation.plain "run_sql" (.object [("sql", .string "CREATE TABLE a ()")])).toJson ∧
      (oneTable.blame? (oneTable.request none) (.server ⟨path, "exists", "postgres-error", none⟩)).map
        (fun blame => (blame.index, blame.file)) = some (none, none) := by
  decide +kernel

theorem blame_agrees_leading_zeros : FaultPath.EntersAt "$.args[00].args" 0 ∧
    FaultPath.lookup (oneTable.request none) "$.args[00].args" =
      some (.object [("sql", .string "CREATE TABLE a ()")]) ∧
    ∃ blame, oneTable.blame? (oneTable.request none)
        (.server ⟨"$.args[00].args", "exists", "postgres-error", none⟩) = some blame ∧
      blame.index = some 0 ∧ blame.file = some "1000_a.up.sql" := by
  have hpath : FaultPath.EntersAt "$.args[00].args" 0 := ⟨[.key "args"], by decide +kernel⟩
  have hu : FaultPath.lookup (oneTable.request none) "$.args[00].args" =
      some (.object [("sql", .string "CREATE TABLE a ()")]) := by decide +kernel
  have hplain : FaultPath.IsPlain "$.args[00].args" :=
    ⟨['0', '0'], ".args", ⟨by simp, by simp [Char.isDigit]⟩, rfl⟩
  obtain ⟨x, blame, hx, -, hblame, -, -, hnamed, -⟩ :=
    blame_agrees_iff oneTable none ⟨"$.args[00].args", "exists", "postgres-error", none⟩ hpath hu
  have hnames := hnamed.2 hplain
  cases hx
  exact ⟨hpath, hu, blame, hblame, hnames⟩

end Bulk

end EngineMigrate
