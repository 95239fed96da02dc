import EngineMigrate.Proofs.Routing
import EngineMigrate.Proofs.ServerRecords
import Mathlib.Data.List.TakeWhile

/-!
Tracing an error back to its file.  A path into a bulk is read twice, once for the position in the bulk
and once for the part of the request, and both times the same digits are found.  Main statement: through
the cut into batches, the file that a failed commit names is the one that the operation was staged for.
-/
namespace EngineMigrate

open Json (Value)

/-- What is reached from a value through items and members. -/
inductive Json.Value.Part (u : Value) : Value → Prop where
  | whole : Part u u
  | item {v : Value} {items : List Value} (hv : v ∈ items) (h : Part u v) : Part u (.array items)
  | member {n : String} {v : Value} {members : Json.Members} (hv : (n, v) ∈ members) (h : Part u v) :
    Part u (.object members)

theorem Json.Members.mem_of_get? {n : String} {v : Value} {ms : Members} (h : get? n ms = some v) :
    (n, v) ∈ ms := by
  induction ms with
  | nil => cases h
  | cons m ms ih =>
    obtain ⟨n', w⟩ := m
    rw [get?] at h
    split at h
    · rename_i hn
      rw [hn, Option.some.inj h]
      exact List.mem_cons_self
    · exact List.mem_cons_of_mem _ (ih h)

namespace FaultPath

def IsDigits (ds : List Char) : Prop := ds ≠ [] ∧ ∀ c ∈ ds, c.isDigit = true

/-- The path to an operation of a bulk, by the digits of its position, and further into it. -/
def intoBulk (ds : List Char) (further : String) : String :=
  "$.args[" ++ String.ofList ds ++ "]" ++ further

theorem toList_intoBulk (ds : List Char) (further : String) :
    (intoBulk ds further).toList =
      ['$', '.', 'a', 'r', 'g', 's', '['] ++ (ds ++ ']' :: further.toList) := by
  simp [intoBulk]

theorem dropText_append (as cs : List Char) : dropText as (as ++ cs) = some cs := by
  induction as with
  | nil => rfl
  | cons a as ih => simpa [dropText] using ih

theorem eq_append_of_dropText {as cs rest : List Char} (h : dropText as cs = some rest) :
    cs = as ++ rest := by
  induction as generalizing cs with
  | nil => simpa [dropText] using h
  | cons a as ih =>
    cases cs with
    | nil => cases h
    | cons c cs =>
      rw [dropText] at h
      split at h
      · rename_i hac
        rw [hac, ih h, List.cons_append]
      · cases h

variable {ds : List Char}

theorem takeWhile_digits (hds : IsDigits ds) (cs : List Char) :
    (ds ++ ']' :: cs).takeWhile Char.isDigit = ds := by
  have hclose : Char.isDigit ']' = false := by decide
  rw [List.takeWhile_append_of_pos hds.2]
  simp [hclose]

theorem dropWhile_digits (hds : IsDigits ds) (cs : List Char) :
    (ds ++ ']' :: cs).dropWhile Char.isDigit = ']' :: cs := by
  have hclose : Char.isDigit ']' = false := by decide
  rw [List.dropWhile_append_of_pos hds.2]
  simp [hclose]

theorem digits?_eq (hds : IsDigits ds) (limit : Nat) : Text.digits? limit ds =
    if Text.digitsValue ds < limit then some (Text.digitsValue ds) else none := by
  have hall : ds.all Char.isDigit = true := List.all_eq_true.2 hds.2
  simp [Text.digits?, hall, hds.1]

theorem bulkIndex?_intoBulk (hds : IsDigits ds) (further : String) :
    bulkIndex? (intoBulk ds further) = Text.digits? Text.wordLimit ds := by
  simp only [bulkIndex?, toList_intoBulk, dropText_append, bind, Option.bind, dropWhile_digits hds,
    takeWhile_digits hds]

theorem exists_of_bulkIndex? {path : String} {k : Nat} (h : bulkIndex? path = some k) :
    ∃ ds further, IsDigits ds ∧ path = intoBulk ds further := by
  simp only [bulkIndex?, Option.bind_eq_bind, Option.bind_eq_some_iff] at h
  obtain ⟨rest, hrest, h⟩ := h
  split at h
  · rename_i further hfurther
    refine ⟨rest.takeWhile Char.isDigit, String.ofList further, ⟨fun hnil => ?_, fun c hc => ?_⟩, ?_⟩
    · rw [hnil] at h
      cases h
    · exact List.mem_takeWhile_imp hc
    · have hpath := eq_append_of_dropText hrest
      rw [← List.takeWhile_append_dropWhile (p := Char.isDigit) (l := rest), hfurther] at hpath
      apply String.toList_injective
      rw [hpath, toList_intoBulk]
      simp
  · cases h

theorem isBlank_of_isDigit {c : Char} (h : c.isDigit = true) : Text.isBlank c = false := by
  have hc : c.toNat < 58 ∧ 48 ≤ c.toNat := by
    simp [Char.isDigit, UInt32.le_iff_toNat_le] at h
    omega
  have hall : ∀ n < 58, 48 ≤ n → Text.isBlank (Char.ofNat n) = false := by decide
  have h := hall c.toNat hc.1 hc.2
  rwa [Char.ofNat_toNat] at h

theorem dropWhile_isBlank (h : ∀ c ∈ ds, c.isDigit = true) : ds.dropWhile Text.isBlank = ds := by
  cases ds with
  | nil => rfl
  | cons c cs => rw [List.dropWhile_cons, isBlank_of_isDigit (h c List.mem_cons_self)]; rfl

theorem trim_digits (hds : IsDigits ds) : Text.trim ds = ds := by
  have hreverse : ∀ c ∈ ds.reverse, c.isDigit = true := fun c hc => hds.2 c (List.mem_reverse.1 hc)
  rw [Text.trim, Text.trimStart, dropWhile_isBlank hds.2, Text.trimEnd, dropWhile_isBlank hreverse,
    List.reverse_reverse]

theorem bracketed?_digits (hds : IsDigits ds) :
    bracketed? ds = (Text.digits? Text.wordLimit ds).map .index := by
  cases ds with
  | nil => exact absurd rfl hds.1
  | cons c cs =>
    -- A digit is no quote, no sign and no blank, so both readers are left with the same digits.
    have hc : c.isDigit = true := hds.2 c List.mem_cons_self
    have hne (q : Char) (hq : q.isDigit = false) : c ≠ q := fun h => by
      rw [h, hq] at hc
      cases hc
    have hquote : c ≠ '\'' := hne _ (by decide)
    have hdouble : c ≠ '"' := hne _ (by decide)
    have hplus : c ≠ '+' := hne _ (by decide)
    simp [bracketed?, unquote?, hquote, hdouble, trim_digits hds, Text.unsigned?, hplus]

theorem takeWhile_closed (hds : IsDigits ds) (cs : List Char) :
    (ds ++ ']' :: cs).takeWhile (· != ']') = ds ∧ (ds ++ ']' :: cs).dropWhile (· != ']') = ']' :: cs := by
  have hne : ∀ c ∈ ds, (c != ']') = true := fun c hc => by
    have h := hds.2 c hc
    cases hb : c != ']' with
    | true => rfl
    | false =>
      rw [bne_eq_false_iff_eq.1 hb] at h
      cases h
  constructor
  · rw [List.takeWhile_append_of_pos hne]; simp
  · rw [List.dropWhile_append_of_pos hne]; simp

theorem segments?_closed (hds : IsDigits ds) (cs : List Char) :
    segments? ('[' :: (ds ++ ']' :: cs)) = do
      let k ← Text.digits? Text.wordLimit ds
      let more ← segments? cs
      return .index k :: more := by
  obtain ⟨htake, hdrop⟩ := takeWhile_closed hds cs
  rw [segments?, htake, hdrop, bracketed?_digits hds]
  cases Text.digits? Text.wordLimit ds <;> rfl

/-- The same digits stand for the position in a bulk and for the step into its arguments. -/
theorem parse?_intoBulk (hds : IsDigits ds) (further : String) :
    parse? (intoBulk ds further) = do
      let k ← Text.digits? Text.wordLimit ds
      let more ← segments? further.toList
      return .key "args" :: .index k :: more := by
  have hkey (cs : List Char) : segments? ('.' :: 'a' :: 'r' :: 'g' :: 's' :: '[' :: cs) =
      (segments? ('[' :: cs)).map (.key "args" :: ·) := by
    rw [segments?]
    simp [endsKey]
  rw [parse?, toList_intoBulk]
  simp only [List.cons_append, List.nil_append, hkey, segments?_closed hds]
  cases Text.digits? Text.wordLimit ds with
  | none => rfl
  | some k => cases segments? further.toList <;> rfl

theorem part_of_step {v w u : Value} {g : Segment} (h : step v g = some w) (hu : Value.Part u w) :
    Value.Part u v := by
  cases g with
  | key name =>
    cases v <;> try cases h
    exact .member (Json.Members.mem_of_get? h) hu
  | index i =>
    cases v <;> try cases h
    exact .item (List.mem_of_getElem? h) hu

theorem part_of_steps {v u : Value} {gs : List Segment} (h : gs.foldlM step v = some u) :
    Value.Part u v := by
  induction gs generalizing v with
  | nil =>
    rw [List.foldlM_nil] at h
    rw [Option.some.inj h]
    exact .whole
  | cons g gs ih =>
    rw [List.foldlM_cons] at h
    obtain ⟨w, hw, h⟩ := Option.bind_eq_some_iff.1 h
    exact part_of_step hw (ih h)

/-- Behind the step to a position in the arguments of a bulk stands the operation there. -/
theorem operation_of_steps {b : Bulk} {source : Option String} {i : Nat} {gs : List Segment} {u : Value}
    (h : (.key "args" :: .index i :: gs).foldlM step (b.request source) = some u) :
    ∃ x, b.items[i]? = some x ∧ gs.foldlM step x.operation.toJson = some u := by
  rw [List.foldlM_cons] at h
  obtain ⟨args, hargs, h⟩ := Option.bind_eq_some_iff.1 h
  rw [List.foldlM_cons] at h
  obtain ⟨w, hw, h⟩ := Option.bind_eq_some_iff.1 h
  rw [step, Bulk.get?_request] at hargs
  obtain rfl : Value.array (b.operations.map Operation.toJson) = args := by simpa using hargs
  simp only [step, Value.at?, Bulk.operations, List.getElem?_map, Option.map_eq_some_iff] at hw
  obtain ⟨o, ⟨x, hx, rfl⟩, rfl⟩ := hw
  exact ⟨x, hx, h⟩

/-- A path into a bulk leads into the operation at its position. -/
theorem part_of_lookup {b : Batch} {u : Value} (hds : IsDigits ds) {further : String}
    (h : lookup b.request (intoBulk ds further) = some u) :
    ∃ x, b.bulk.items[Text.digitsValue ds]? = some x ∧ Value.Part u x.operation.toJson := by
  rw [lookup, parse?_intoBulk hds, digits?_eq hds] at h
  split at h
  · simp only [Option.bind_eq_bind, Option.bind_some, Option.bind_eq_some_iff, Option.pure_def,
      Option.some.injEq] at h
    obtain ⟨gs, ⟨more, -, rfl⟩, h⟩ := h
    obtain ⟨x, hx, hmore⟩ := operation_of_steps h
    exact ⟨x, hx, part_of_steps hmore⟩
  · cases h

end FaultPath

/-- What records the changes of a commit: a statement for each in the tables, or the ledger with all. -/
def Tracker.records (changes : List Change) : Tracker → List Staged
  | .tables _ => changes.map fun c => ⟨Tables.operation (Tables.changeSql c), none⟩
  | .catalog t =>
    if changes = [] then [] else [⟨LedgerStore.writeOperation (t.successor changes), none⟩]

theorem Tracker.file_of_mem_records {changes : List Change} {tracker : Tracker} {x : Staged}
    (hx : x ∈ tracker.records changes) : x.file = none := by
  cases tracker with
  | tables t =>
    obtain ⟨c, -, rfl⟩ := List.mem_map.1 hx
    rfl
  | catalog t =>
    simp only [records] at hx
    split at hx
    · cases hx
    · rw [List.mem_singleton.1 hx]

namespace Driver

/-- The batches of a commit carry the operations of the session, then what records its changes. -/
theorem items_commitBatches (d : Driver) (s : Session) :
    (d.commitBatches s).flatMap (fun b => b.bulk.items) =
      s.bulk.items ++ d.tracker.records s.changes := by
  obtain ⟨tracker, applied, locked, skip⟩ := d
  cases tracker with
  | tables t =>
    simp [commitBatches, Tracker.batches, Tracker.withRecords, Tracker.records, Tables.items_stage]
  | catalog t => exact (t.items_batches _).trans (items_withRecords t s)

/-- The number of operations in the batches of a commit before the given one. -/
def offset (d : Driver) (s : Session) (j : Nat) : Nat :=
  (((d.commitBatches s).take j).flatMap fun b => b.bulk.items).length

/-- What stands in a batch was staged in the session for the same file, or is a record. -/
theorem file_of_batch {d : Driver} {s : Session} {b : Batch} {x : Staged} {j k : Nat}
    (hb : (d.commitBatches s)[j]? = some b) (hx : b.bulk.items[k]? = some x) :
    x.file = s.bulk.file? (d.offset s j + k) ∧
      ∀ y, s.bulk.items[d.offset s j + k]? = some y → y = x := by
  have hitems := d.items_commitBatches s
  obtain ⟨hj, hb⟩ := List.getElem?_eq_some_iff.1 hb
  have hsplit : (d.commitBatches s).flatMap (fun b => b.bulk.items) =
      ((d.commitBatches s).take j).flatMap (fun b => b.bulk.items) ++
        (b.bulk.items ++ ((d.commitBatches s).drop (j + 1)).flatMap fun b => b.bulk.items) := by
    conv_lhs => rw [← List.take_append_drop j (d.commitBatches s), List.drop_eq_getElem_cons hj, hb]
    rw [List.flatMap_append, List.flatMap_cons]
  have hall : (s.bulk.items ++ d.tracker.records s.changes)[d.offset s j + k]? = some x := by
    rw [← hitems, hsplit, offset, List.getElem?_append_right (Nat.le_add_right _ _),
      Nat.add_sub_cancel_left, List.getElem?_append_left (List.getElem?_eq_some_iff.1 hx).1, hx]
  by_cases hlt : d.offset s j + k < s.bulk.items.length
  · rw [List.getElem?_append_left hlt] at hall
    refine ⟨by simp [Bulk.file?, hall], fun y hy => ?_⟩
    rw [hall] at hy
    exact (Option.some.inj hy).symm
  · have hle := Nat.le_of_not_lt hlt
    rw [List.getElem?_append_right hle] at hall
    have hnone : s.bulk.items[d.offset s j + k]? = none := List.getElem?_eq_none hle
    have hfile : x.file = none := Tracker.file_of_mem_records (List.mem_of_getElem? hall)
    refine ⟨by simp [Bulk.file?, hnone, hfile], fun y hy => ?_⟩
    rw [hnone] at hy
    cases hy

/-- The error names the file and shows a part of the operation that its path leads to, and no file where
its path leads to none. -/
structure Traces (b : Batch) (blame : Blame) : Prop where
  inside : ∀ ds further x, FaultPath.IsDigits ds → blame.fault.path = FaultPath.intoBulk ds further →
    Text.digitsValue ds < Text.wordLimit → b.bulk.items[Text.digitsValue ds]? = some x →
    blame.file = x.file ∧
      ∀ q, blame.query = some q → ∃ v : Value, v.Part x.operation.toJson ∧ q = v.pretty
  outside : ∀ ds further, FaultPath.IsDigits ds → blame.fault.path = FaultPath.intoBulk ds further →
    b.bulk.size ≤ Text.digitsValue ds ∨ Text.wordLimit ≤ Text.digitsValue ds → blame.file = none
  elsewhere : (∀ ds further, FaultPath.IsDigits ds →
    blame.fault.path ≠ FaultPath.intoBulk ds further) → blame.file = none

theorem traces_blame? (b : Batch) (fault : ServerFault) :
    ∃ blame, b.bulk.blame? b.request (.server fault) = some blame ∧ blame.fault = fault ∧
      Traces b blame := by
  refine ⟨_, rfl, rfl, ?_⟩
  constructor
  case inside =>
    intro ds further x hds hpath hlt hx
    have hpath : fault.path = FaultPath.intoBulk ds further := hpath
    constructor
    · simp [hpath, FaultPath.bulkIndex?_intoBulk hds, FaultPath.digits?_eq hds, hlt, Bulk.file?, hx]
    · intro q hq
      obtain ⟨v, hv, rfl⟩ := Option.map_eq_some_iff.1 hq
      rw [hpath] at hv
      obtain ⟨y, hy, hpart⟩ := FaultPath.part_of_lookup hds hv
      rw [hx] at hy
      cases hy
      exact ⟨v, hpart, rfl⟩
  case outside =>
    intro ds further hds hpath hout
    have hpath : fault.path = FaultPath.intoBulk ds further := hpath
    simp only [hpath, FaultPath.bulkIndex?_intoBulk hds, FaultPath.digits?_eq hds]
    split
    · rename_i hlt
      have hle := hout.resolve_right (Nat.not_le_of_lt hlt)
      have hnone : b.bulk.items[Text.digitsValue ds]? = none := List.getElem?_eq_none hle
      simp [Bulk.file?, hnone]
    · rfl
  case elsewhere =>
    intro hpath
    cases hk : FaultPath.bulkIndex? fault.path with
    | none => simp [hk]
    | some k =>
      obtain ⟨ds, further, hds, h⟩ := FaultPath.exists_of_bulkIndex? hk
      exact absurd h (hpath ds further hds)

/-- A commit whose batch was answered with an error of the server. -/
theorem unlock_blames {d d' : Driver} {s : Session} {check accepted : List Turn} {q : Request}
    {response : Response} {fault : ServerFault} {r : Except DriverFault Unit}
    (hs : s.isEmpty = false) (hcheck : check.length = (d.checkRequests s).length)
    (hresponse : response.isSuccess = false) (hfault : ServerFault.ofBytes? response.body = some fault)
    (h : (unlock s d).Runs (check ++ accepted ++ [⟨q, .ok response⟩]) (r, d')) :
    ∃ b blame, (d.commitBatches s)[accepted.length]? = some b ∧ q = b.toRequest ∧
      r = .error (.migration blame) ∧ blame.fault = fault ∧ Traces b blame ∧
      ∀ k x, b.bulk.items[k]? = some x → x.file = s.bulk.file? (d.offset s accepted.length + k) ∧
        ∀ y, s.bulk.items[d.offset s accepted.length + k]? = some y → y = x := by
  obtain ⟨look, sent, hlog, hlook, h⟩ := runs_unlock hs h
  have hlength : check.length = look.length := by rw [hcheck, ← hlook, List.length_map]
  rw [List.append_assoc] at hlog
  obtain ⟨rfl, rfl⟩ := List.append_inj hlog hlength
  rcases h with ⟨hnil, -⟩ | h
  · simp at hnil
  · rcases runs_sendBatches h with ⟨-, -, hall⟩ | ⟨sent, t, before, b, rest, hsplit, hbatches, hlog, ht, -, hr⟩
    · have hlast : Turn.isAccepted ⟨q, .ok response⟩ = false := hresponse
      have haccepted := hall ⟨q, .ok response⟩ (by simp)
      rw [hlast] at haccepted
      cases haccepted
    · obtain ⟨rfl, hturn⟩ := List.append_inj' hsplit rfl
      obtain rfl := List.singleton_inj.1 hturn
      have hposition : accepted.length = before.length := by simpa using congrArg List.length hlog
      have hb : (d.commitBatches s)[accepted.length]? = some b := by simp [hbatches, hposition]
      obtain ⟨blame, hblame, hfault', htraces⟩ := traces_blame? b fault
      have hof : ApiFault.ofResponse response = .server fault := by simp [ApiFault.ofResponse, hfault]
      refine ⟨b, blame, hb, ht, ?_, hfault', htraces, fun k x => file_of_batch hb⟩
      simp [hr, outcome, Response.checked, hresponse, hof, DriverFault.ofCommit, hblame]

def thirdBatch : Batch := ⟨Config.default.paths.v2Query, some "default",
  ⟨[⟨(SqlRoute.source "").operation (.ofSql "CREATE TABLE u ()"), some "2_u.up.sql"⟩]⟩⟩

def interleavedBatches : List Batch :=
  [⟨Config.default.paths.v2Query, some "default",
      ⟨[⟨(SqlRoute.source "").operation (.ofSql "CREATE TABLE t ()"), some "1_t.up.sql"⟩]⟩⟩,
    ⟨Config.default.paths.metadata, none,
      ⟨[⟨.plain "reload_metadata" (.object []), some "1_t.up.yaml"⟩]⟩⟩,
    thirdBatch,
    ⟨Config.default.paths.metadata, none, ⟨[⟨LedgerStore.writeOperation
      (Change.enterAll .empty interleaved.changes).advance, none⟩]⟩⟩]

theorem commitBatches_interleaved : onNoLedger.commitBatches interleaved = interleavedBatches := by
  have hplain : (Operation.plain "reload_metadata" (.object [])).isSql = false := by decide +kernel
  simp only [commitBatches, onNoLedger, interleaved, Tracker.ofCapability, Tracker.withRecords,
    Tracker.batches, CatalogTracker.batches, Bulk.splitBy, Bulk.append, List.isEmpty_cons,
    Bool.false_eq_true, if_false, List.cons_append, List.nil_append, runsBy, hplain,
    SqlRoute.isSql_operation, LedgerStore.isSql_writeOperation]
  rfl

/-- The server's error on the third of these bulks, which it says is in the SQL of its first operation. -/
def tableExists : Response :=
  ⟨400, "\x7b\"path\":\"$.args[00].args.sql\",\"error\":\"exists\",\"code\":\"postgres-error\"\x7d".toUTF8⟩

theorem faultOf_tableExists : ServerFault.ofBytes? tableExists.body =
    some ⟨"$.args[00].args.sql", "exists", "postgres-error", none⟩ := by
  decide +kernel

theorem runs_tableExists {f : DriverFault} (hf : outcome thirdBatch (.ok tableExists) = .error f) :
    (unlock interleaved onNoLedger).Runs
      ([⟨LedgerStore.readRequest ⟨Config.default.paths.metadata⟩, noLedger⟩] ++
        (interleavedBatches.take 2).map (fun b => ⟨b.toRequest, noLedger⟩) ++
        [⟨thirdBatch.toRequest, .ok tableExists⟩]) (.error f, onNoLedger) := by
  have hcheck : onNoLedger.check interleaved =
      .send (LedgerStore.readRequest ⟨Config.default.paths.metadata⟩)
        fun reply => .done (checked ⟨_, _, _, .empty, none⟩ reply) := rfl
  simp only [unlock_apply, commit_eq (s := interleaved) rfl, hcheck, commitBatches_interleaved,
    interleavedBatches, run_sendBatches_cons, Exchange.send_bind, Exchange.done_bind]
  refine .cons ?_
  rw [checked_of_found found_noLedger rfl]
  refine .cons (.cons (.cons ?_))
  simp only [hf]
  exact ⟨rfl, rfl⟩

theorem unlock_blames_tableExists :
    ∃ f, interleaved.isEmpty = false ∧
      (unlock interleaved onNoLedger).Runs
        ([⟨LedgerStore.readRequest ⟨Config.default.paths.metadata⟩, noLedger⟩] ++
          (interleavedBatches.take 2).map (fun b => ⟨b.toRequest, noLedger⟩) ++
          [⟨thirdBatch.toRequest, .ok tableExists⟩]) (.error f, onNoLedger) ∧
      ∃ blame, f = .migration blame ∧ blame.file = some "2_u.up.sql" := by
  obtain ⟨f, hf⟩ : ∃ f, outcome thirdBatch (.ok tableExists) = .error f :=
    outcome_of_not_isAccepted rfl
  obtain ⟨b, blame, hb, -, hr, hfault, htraces, -⟩ :=
    unlock_blames (d := onNoLedger) rfl rfl rfl faultOf_tableExists (runs_tableExists hf)
  rw [commitBatches_interleaved] at hb
  obtain rfl := Option.some.inj hb
  have hdigits : FaultPath.IsDigits ['0', '0'] := ⟨by simp, by simp [Char.isDigit]⟩
  have hinside := htraces.inside ['0', '0'] ".args.sql" _ hdigits (by rw [hfault]; rfl) (by decide) rfl
  exact ⟨f, rfl, runs_tableExists hf, blame, Except.error.inj hr, hinside.1⟩

end Driver

end EngineMigrate
