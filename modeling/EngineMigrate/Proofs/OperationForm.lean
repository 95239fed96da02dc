import EngineMigrate.Proofs.PlanStaging

/-!
The written form of operations.  An object that describes an operation is read and written again with every
member as it was, and an operation whose further members name no field reads back as itself.  Main statement:
both directions, that files contribute only such operations, and that the server reads from the request of a
bulk just what was appended to it.
-/
namespace EngineMigrate

open Json (Value Members)

namespace Operation

/-- The members describe an operation: its type is a text, and its source a text, null or left out. -/
structure Describes (ms : Members) : Prop where
  type : ∃ kind, Members.get? "type" ms = some (.string kind)
  source : Members.get? "source" ms = none ∨ Members.get? "source" ms = some .null ∨
    ∃ s, Members.get? "source" ms = some (.string s)

/-- The second members are those that the first are sent as: arguments that are left out are null, a source
that is null is left out, and all else stays. -/
structure SentAs (ms ms' : Members) : Prop where
  sorted : ms'.Sorted
  args : Members.get? "args" ms' = some ((Members.get? "args" ms).getD .null)
  source : Members.get? "source" ms' =
    if Members.get? "source" ms = some .null then none else Members.get? "source" ms
  others : ∀ n, n ≠ "args" → n ≠ "source" → Members.get? n ms' = Members.get? n ms

/-- No further member carries the name of a field. -/
structure Apart (o : Operation) : Prop where
  sorted : o.extra.Sorted
  apart : ∀ n ∈ fieldNames, Members.get? n o.extra = none

theorem SentAs.eq {ms ms' : Members} (h : SentAs ms ms') (hs : ms.Sorted)
    (hargs : Members.get? "args" ms ≠ none) (hsource : Members.get? "source" ms ≠ some .null) : ms' = ms := by
  refine Members.ext h.sorted hs fun n => ?_
  by_cases hn : n = "args"
  · obtain ⟨args, hargs⟩ := Option.ne_none_iff_exists'.1 hargs
    rw [hn, h.args, hargs, Option.getD_some]
  · by_cases hn' : n = "source"
    · rw [hn', h.source, if_neg hsource]
    · exact h.others n hn hn'

def others (ms : Members) : Members := ms.filter fun m => !fieldNames.contains m.1

theorem get?_others (ms : Members) (n : String) :
    Members.get? n (others ms) = if n ∈ fieldNames then none else Members.get? n ms := by
  rw [others, Members.get?_filter (fun k => !fieldNames.contains k)]
  by_cases hn : n ∈ fieldNames <;> simp [hn]

theorem sorted_others {ms : Members} (h : ms.Sorted) : (others ms).Sorted := Members.sorted_filter h _

theorem ofJson?_of_describes {ms : Members} (h : Describes ms) : ∃ kind source,
    ofJson? (.object ms) = some ⟨kind, (Members.get? "args" ms).getD .null, source, others ms⟩ ∧
    Members.get? "type" ms = some (.string kind) ∧
    source.map Value.string =
      if Members.get? "source" ms = some .null then none else Members.get? "source" ms := by
  obtain ⟨kind, hkind⟩ := h.type
  rcases h.source with hsource | hsource | ⟨s, hsource⟩
  · refine ⟨kind, none, ?_, hkind, by simp [hsource]⟩
    simp [ofJson?, hkind, hsource, Value.string?, Value.optional, others]
  · refine ⟨kind, none, ?_, hkind, by simp [hsource]⟩
    simp [ofJson?, hkind, hsource, Value.string?, Value.optional, others]
  · refine ⟨kind, some s, ?_, hkind, by simp [hsource]⟩
    simp [ofJson?, hkind, hsource, Value.string?, Value.optional, others]

/-- What describes an operation is read, and sent as it was written. -/
theorem sentAs_of_describes {ms : Members} (hs : ms.Sorted) (h : Describes ms) :
    ∃ o ms', ofJson? (.object ms) = some o ∧ o.Apart ∧ o.toJson = .object ms' ∧ SentAs ms ms' := by
  obtain ⟨kind, source, hread, hkind, hsource⟩ := ofJson?_of_describes h
  let o : Operation := ⟨kind, (Members.get? "args" ms).getD .null, source, others ms⟩
  have hget : ∀ n, Members.get? n (o.fields.insertAll o.extra) =
      (if n ∈ fieldNames then none else Members.get? n ms).or (Members.get? n o.fields) := by
    intro n
    rw [Members.get?_insertAll (sorted_others hs), get?_others]
  have hsent : SentAs ms (o.fields.insertAll o.extra) := by
    refine ⟨Members.sorted_insertAll (Members.sorted_ofList _), ?_, ?_, fun n hargs hsource => ?_⟩
    · rw [hget, get?_fields]
      simp [fieldNames, o]
    · rw [hget, get?_fields, ← hsource]
      simp [fieldNames, o]
    · rw [hget, get?_fields]
      by_cases hn : n = "type"
      · simp [hn, hkind, fieldNames, o]
      · simp [hn, hargs, hsource, fieldNames]
  exact ⟨o, _, hread, ⟨sorted_others hs, fun n hn => by rw [get?_others, if_pos hn]⟩, rfl, hsent⟩

theorem Apart.ofJson?_toJson {o : Operation} (h : o.Apart) : ofJson? o.toJson = some o :=
  Operation.ofJson?_toJson h.sorted h.apart

theorem apart_plain (kind : String) (args : Value) : (plain kind args).Apart :=
  ⟨Members.sorted_nil, fun _ _ => rfl⟩

theorem apart_onSource (kind : String) (args : Value) (source : String) : (onSource kind args source).Apart :=
  ⟨Members.sorted_nil, fun _ _ => rfl⟩

end Operation

namespace OperationFile

theorem extra?_of_operation? {v : Yaml.Value} {o : Operation} (h : operation? v = some o) :
    ∃ entries, extra? entries = some o.extra := by
  unfold operation? at h
  split at h
  · obtain ⟨entries, -, h⟩ := Option.bind_eq_some_iff.1 h
    obtain ⟨type, -, h⟩ := Option.bind_eq_some_iff.1 h
    obtain ⟨kind, -, h⟩ := Option.bind_eq_some_iff.1 h
    obtain ⟨args, -, h⟩ := Option.bind_eq_some_iff.1 h
    refine ⟨entries, ?_⟩
    split at h
    all_goals
      obtain ⟨args, -, h⟩ := Option.bind_eq_some_iff.1 h
      obtain ⟨found, -, h⟩ := Option.bind_eq_some_iff.1 h
      obtain ⟨source, -, h⟩ := Option.bind_eq_some_iff.1 h
      obtain ⟨extra, hextra, h⟩ := Option.bind_eq_some_iff.1 h
      cases h
      exact hextra
  · cases h

theorem apart_of_operation? {v : Yaml.Value} {o : Operation} (h : operation? v = some o) : o.Apart := by
  obtain ⟨entries, hextra⟩ := extra?_of_operation? h
  obtain ⟨ms, hms, hofList⟩ := Option.bind_eq_some_iff.1 hextra
  have hextra : o.extra = Members.ofList ms := (Option.some.inj hofList).symm
  have hnames : ∀ m ∈ ms, m.1 ∉ Operation.fieldNames := by
    intro m hm
    obtain ⟨e, he, hread⟩ := exists_of_mem_mapM hms hm
    obtain ⟨j, -, rfl⟩ := Option.map_eq_some_iff.1 hread
    simpa using (List.mem_filter.1 he).2
  refine ⟨hextra ▸ Members.sorted_ofList ms, fun n hn => ?_⟩
  rw [hextra]
  refine Members.get?_eq_none fun m hm hname => ?_
  exact hnames m (Members.mem_ofList hm) (hname ▸ hn)

end OperationFile

/-- The operations that a file stands for name no field among their further members. -/
theorem Session.apart_of_operations {s : Session} {kind : Kind} {content : String} {os : List Operation}
    (h : s.operations kind content = .ok os) : ∀ o ∈ os, o.Apart := by
  intro o ho
  cases operations_eq_ok_iff.1 h with
  | blank => cases ho
  | sql =>
    obtain rfl := List.mem_singleton.1 ho
    cases s.route with
    | query => exact Operation.apart_plain _ _
    | source name => exact Operation.apart_onSource _ _ _
  | metadata hlists =>
    cases hlists with
    | nothing => cases ho
    | items _ hos =>
      have hmem : some o ∈ os.map some := List.mem_map_of_mem ho
      rw [← hos] at hmem
      obtain ⟨v, -, hv⟩ := List.mem_map.1 hmem
      exact OperationFile.apart_of_operation? hv

namespace Bulk

/-- The operation that the server reads at a position of the request. -/
def sent? (b : Bulk) (source : Option String) (i : Nat) : Option Operation :=
  (b.request source).get? "args" >>= Value.at? i >>= Operation.ofJson?

/-- The bulk after operations were appended in order, each with its file. -/
def appendAll (b : Bulk) (added : List Staged) : Bulk :=
  added.foldl (fun b s => b.append s.operation s.file) b

theorem items_appendAll (b : Bulk) (added : List Staged) :
    (b.appendAll added).items = b.items ++ added := by
  induction added generalizing b with
  | nil => simp [appendAll]
  | cons s added ih =>
    have hrest := ih (b.append s.operation s.file)
    rw [items_append, List.append_assoc] at hrest
    exact hrest

theorem sent?_eq (b : Bulk) (source : Option String) (i : Nat) :
    b.sent? source i = (b.operations[i]?.map Operation.toJson) >>= Operation.ofJson? := by
  have hargs : (b.request source).get? "args" = some (.array (b.operations.map Operation.toJson)) := by
    rw [get?_request]
    simp
  simp [sent?, hargs, Value.at?]

theorem sent?_of_apart {b : Bulk} (h : ∀ s ∈ b.items, s.operation.Apart) (source : Option String) (i : Nat) :
    b.sent? source i = b.operations[i]? := by
  rw [sent?_eq]
  cases ho : b.operations[i]? with
  | none => rfl
  | some o =>
    obtain ⟨s, hs, rfl⟩ := List.mem_map.1 (List.mem_of_getElem? ho)
    exact (h s hs).ofJson?_toJson

end Bulk

/-- An operation is sent as it was written.  An object that describes one is read, and sent with every member
as it was; an operation whose further members name no field is read back from what is sent, and so is each of
those that were appended to a bulk, at its place in the request, with or without a source. -/
theorem Operation.sent_as_written :
    (∀ ms : Members, ms.Sorted → Describes ms →
      ∃ o ms', ofJson? (.object ms) = some o ∧ o.Apart ∧ o.toJson = .object ms' ∧ SentAs ms ms' ∧
        (Members.get? "args" ms ≠ none → Members.get? "source" ms ≠ some .null → ms' = ms)) ∧
    (∀ o : Operation, o.Apart → ofJson? o.toJson = some o) ∧
    (∀ (s : Session) (kind : Kind) (content : String) (os : List Operation),
      s.operations kind content = .ok os → ∀ o ∈ os, o.Apart) ∧
    ∀ (added : List Staged) (source : Option String), (∀ s ∈ added, s.operation.Apart) →
      ∀ i, (Bulk.empty.appendAll added).sent? source i = added[i]?.map Staged.operation := by
  refine ⟨fun ms hs h => ?_, fun o h => h.ofJson?_toJson, fun s kind content os => s.apart_of_operations,
    fun added source h i => ?_⟩
  · obtain ⟨o, ms', hread, hapart, hwritten, hsent⟩ := sentAs_of_describes hs h
    exact ⟨o, ms', hread, hapart, hwritten, hsent, hsent.eq hs⟩
  · have hitems : (Bulk.empty.appendAll added).items = added := Bulk.items_appendAll .empty added
    have hapart : ∀ s ∈ (Bulk.empty.appendAll added).items, s.operation.Apart := by
      rw [hitems]
      exact h
    rw [Bulk.sent?_of_apart hapart, Bulk.operations, hitems, List.getElem?_map]

/-- An object with a null source, a further member and no arguments, and the request of a bulk with a file. -/
theorem Operation.sent_as_written_of_export :
    (∃ o, ofJson? (.object [("source", .null), ("type", .string "export_metadata"), ("version", .integer 2)]) =
        some o ∧
        o.toJson = .object [("args", .null), ("type", .string "export_metadata"), ("version", .integer 2)]) ∧
      ofJson? (Operation.onSource "run_sql" .null "shop").toJson =
        some (Operation.onSource "run_sql" .null "shop") ∧
      ∀ i, (Bulk.empty.appendAll [⟨Operation.plain "clear_metadata" .null, some "1_a/up.yaml"⟩]).sent?
          (some "shop") i = [Operation.plain "clear_metadata" .null][i]? := by
  have hms : Members.Sorted [("source", Value.null), ("type", .string "export_metadata"), ("version", .integer 2)] := by
    unfold Members.Sorted
    decide
  obtain ⟨hread, hwritten, -, hsent⟩ := Operation.sent_as_written
  obtain ⟨o, -, ho, -, -, -, -⟩ := hread _ hms ⟨⟨_, rfl⟩, .inr (.inl rfl)⟩
  refine ⟨⟨o, ho, ?_⟩, hwritten _ (Operation.apart_onSource _ _ _), fun i => ?_⟩
  · cases ho
    rfl
  · rw [hsent [⟨Operation.plain "clear_metadata" .null, some "1_a/up.yaml"⟩] _ (fun s hs => ?_) i]
    · exact (List.getElem?_map ..).symm
    · obtain rfl := List.mem_singleton.1 hs
      exact Operation.apart_plain _ _

end EngineMigrate
