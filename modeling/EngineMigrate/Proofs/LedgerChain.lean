import EngineMigrate.Proofs.LedgerUpdate

/-!
Writes of the ledger one after the other, each made from a ledger with the revision of the one that it
replaced.  Main statements: the revision counts the writes, and while there are no more writes than revisions
each was made from what it replaced, and the last ledger is what the marks of all of them make of the first.
-/
namespace EngineMigrate

open Json (Value)

/-- A write of the ledger that was executed. -/
structure Write (ι : Type) where
  client : ι
  /-- What the client was to do to the ledger. -/
  update : Option Update
  /-- What was stored before. -/
  replaced : Option Value
  /-- What the request has put in its place, in order. -/
  written : List Value

variable {ι : Type}

/-- The document that the writes have left in place of the first one. -/
def documentAfter (first : Option Value) : List (Write ι) → Option Value
  | [] => first
  | w :: _ => w.written.getLast?

/-- From the first document the writes, the latest first, have led to a ledger.  Each was made from a
ledger that was stored at some time and has the revision of the ledger that it replaced. -/
inductive Chain (first : Option Value) : List (Write ι) → StoredLedger → Prop where
  | start {st : StoredLedger} (h : StoredLedger.decode first = .ok st) (hp : st.upgrade.Plain) :
    Chain first [] st
  | write {ws seen : List (Write ι)} {w : Write ι} {st base : StoredLedger} {u : Update}
    (h : Chain first ws st) (hs : seen <:+ ws) (hb : Chain first seen base)
    (hrev : base.revision = st.revision) (hu : w.update = some u)
    (ho : u = .upgrade → base.needsUpgrade = true) (hr : w.replaced = documentAfter first ws)
    (hw : w.written = [(u.applyTo base.upgrade).toJson]) :
    Chain first (w :: ws) (.current (u.applyTo base.upgrade))

/-- The marks that the writes, the latest first, have entered, the last first. -/
def marksOf (ws : List (Write ι)) : List Mark := ws.flatMap fun w => (w.update.map Update.marks).getD []

/-- What is written has the next revision after that of what it replaced. -/
def Write.CountsUp (v : Option Value) (w : Write ι) : Prop :=
  w.replaced = v ∧ ∃ st l, StoredLedger.decode v = .ok st ∧ l.revision = st.revision + 1 ∧
    (w.update = some .upgrade → l.revision = 1) ∧ w.written = [l.toJson] ∧
    StoredLedger.decode (some l.toJson) = .ok (.current l)

/-- The write was made from exactly the document that it replaced, and counts its revision up by one. -/
def Write.MadeFrom (v : Option Value) (w : Write ι) : Prop :=
  w.replaced = v ∧ ∃ u st l, w.update = some u ∧ StoredLedger.decode v = .ok st ∧
    (u = .upgrade → st.needsUpgrade = true ∧ l.revision = 1) ∧ l = u.applyTo st.upgrade ∧
    l.revision = st.revision + 1 ∧ w.written = [l.toJson] ∧
    StoredLedger.decode (some l.toJson) = .ok (.current l)

theorem StoredLedger.revision_of_needsUpgrade {st : StoredLedger} (h : st.needsUpgrade = true) :
    st.revision = 0 := by
  cases st with
  | legacy l => rfl
  | current l => cases h

namespace Chain

variable {first : Option Value} {ws ws' later earlier : List (Write ι)} {w : Write ι} {st st' : StoredLedger}

theorem plain (h : Chain first ws st) : st.upgrade.Plain := by
  induction h with
  | start h hp => exact hp
  | write h hs hb hrev hu ho hr hw ih ihb => exact Update.plain_applyTo ihb _

theorem decode (h : Chain first ws st) : StoredLedger.decode (documentAfter first ws) = .ok st := by
  cases h with
  | start h hp => exact h
  | write h hs hb hrev hu ho hr hw =>
    rw [documentAfter, hw]
    exact Ledger.decode_toJson (Update.plain_applyTo hb.plain _)

theorem unique (h : Chain first ws st) (h' : Chain first ws st') : st = st' := by
  have hd := h.decode
  rw [h'.decode] at hd
  exact (Except.ok.inj hd).symm

theorem revision {st₀ : StoredLedger} (h : Chain first ws st)
    (h₀ : StoredLedger.decode first = .ok st₀) :
    st.revision = st₀.revision + BitVec.ofNat 64 ws.length := by
  induction h with
  | start h hp =>
    rw [h₀] at h
    cases h
    simp
  | write h hs hb hrev hu ho hr hw ih =>
    show (Update.applyTo _ _).revision = _
    rw [Update.revision_applyTo, StoredLedger.revision_upgrade, hrev, ih, List.length_cons,
      BitVec.ofNat_add, BitVec.add_assoc]
    rfl

theorem before (h : Chain first (later ++ ws) st) : ∃ st', Chain first ws st' := by
  induction later generalizing st with
  | nil => exact ⟨st, h⟩
  | cons w later ih =>
    cases h with
    | write h => exact ih h

/-- Of the ledgers that were ever stored, no two have the same revision, as long as there are fewer writes
than revisions. -/
theorem eq_of_revision (h : Chain first ws st) (h' : Chain first ws' st') (hs : ws' <:+ ws)
    (hfew : ws.length < Text.wordLimit) (hr : st'.revision = st.revision) : st' = st := by
  have hall : Chain first (ws ++ []) st := by rwa [List.append_nil]
  obtain ⟨st₀, h₀⟩ := hall.before
  rw [h.revision h₀.decode, h'.revision h₀.decode, BitVec.add_right_inj] at hr
  have hlength : ws'.length = ws.length := by
    have hmod := congrArg BitVec.toNat hr
    rwa [Revision.toNat_ofNat (hs.length_le.trans_lt hfew), Revision.toNat_ofNat hfew] at hmod
  obtain rfl := hs.eq_of_length hlength
  exact h'.unique h

theorem upgrade_eq {st₀ : StoredLedger} (h : Chain first ws st)
    (h₀ : StoredLedger.decode first = .ok st₀) (hfew : ws.length ≤ Text.wordLimit) : st.upgrade =
      { (marksOf ws).foldr Mark.enter st₀.upgrade with
        revision := st₀.revision + BitVec.ofNat 64 ws.length } := by
  induction h with
  | start h hp =>
    rw [h₀] at h
    cases h
    rw [List.length_nil, BitVec.add_zero, ← StoredLedger.revision_upgrade]
    rfl
  | @write ws seen w st base u h hs hb hrev hu ho hr hw ih =>
    obtain rfl := h.eq_of_revision hb hs hfew hrev
    have hmarks : marksOf (w :: ws) = u.marks ++ marksOf ws := by simp [marksOf, hu]
    show u.applyTo base.upgrade = _
    rw [Update.applyTo_eq, ih (Nat.le_of_succ_le hfew), Mark.foldr_enter_revision, hmarks,
      List.foldr_append, List.length_cons, BitVec.ofNat_add, ← BitVec.add_assoc]
    rfl

theorem countsUp (h : Chain first (later ++ w :: earlier) st) :
    w.CountsUp (documentAfter first earlier) := by
  obtain ⟨st', h'⟩ := h.before
  cases h' with
  | @write _ _ _ st base u h hs hb hrev hu ho hr hw =>
    have hnext : (u.applyTo base.upgrade).revision = st.revision + 1 := by
      rw [Update.revision_applyTo, StoredLedger.revision_upgrade, hrev]
    refine ⟨hr, st, _, h.decode, hnext, fun hup => ?_, hw,
      Ledger.decode_toJson (Update.plain_applyTo hb.plain u)⟩
    obtain rfl := Option.some.inj (hu.symm.trans hup)
    rw [hnext, ← hrev, StoredLedger.revision_of_needsUpgrade (ho rfl)]
    rfl

theorem madeFrom (h : Chain first (later ++ w :: earlier) st) (hfew : earlier.length < Text.wordLimit) :
    w.MadeFrom (documentAfter first earlier) := by
  obtain ⟨st', h'⟩ := h.before
  cases h' with
  | @write _ _ _ st base u h hs hb hrev hu ho hr hw =>
    obtain rfl := h.eq_of_revision hb hs hfew hrev
    have hnext := Update.revision_applyTo base.upgrade u
    rw [StoredLedger.revision_upgrade] at hnext
    refine ⟨hr, u, base, _, hu, h.decode, fun hup => ⟨ho hup, ?_⟩, rfl, hnext, hw,
      Ledger.decode_toJson (Update.plain_applyTo hb.plain u)⟩
    rw [hnext, StoredLedger.revision_of_needsUpgrade (ho hup)]
    rfl

end Chain

end EngineMigrate
