import EngineMigrate.Proofs.Agreement
import EngineMigrate.Proofs.ClientWork
import EngineMigrate.Proofs.LedgerChain
import Mathlib.Logic.Function.Basic

/-!
Any number of clients on the ledger of one server, their requests interleaved in any way but one: nobody
else writes the ledger between a client's last look at it and its own write.  Main statement: no update is
lost.  Each write counts the revision up by one; as long as the writes are no more than the revisions it is
made from exactly the ledger that it replaces, and the stored ledger is what all of them make of the first.
-/
namespace EngineMigrate

open Json (Value)

inductive Client where
  | idle (desk : Option Desk)
  | busy (update : Option Update) (work : Work)

structure Network (ι : Type) where
  server : Server
  client : ι → Client
  /-- Whether somebody else has written the ledger since the client's last look at it. -/
  overtaken : ι → Prop
  /-- The writes of the ledger so far, the latest first. -/
  writes : List (Write ι)

namespace Network

variable {ι : Type} [DecidableEq ι]

def become (n : Network ι) (i : ι) (c : Client) : Network ι :=
  { n with client := Function.update n.client i c }

@[simp] theorem become_become (n : Network ι) (i : ι) (c c' : Client) :
    (n.become i c).become i c' = n.become i c' := by
  simp [become]

@[simp] theorem client_become (n : Network ι) (i : ι) (c : Client) : (n.become i c).client i = c := by
  simp [become]

theorem client_become_of_ne {i j : ι} (h : j ≠ i) (n : Network ι) (c : Client) :
    (n.become i c).client j = n.client j := by
  simp [become, h]

def executed (n : Network ι) (i : ι) (update : Option Update) (q : Request) (s : Server) : Network ι where
  server := s
  client := n.client
  overtaken j := if j = i then q.isRead = false ∧ n.overtaken i
    else n.overtaken j ∨ q.ledgerWrites ≠ []
  writes := if q.ledgerWrites = [] then n.writes
    else ⟨i, update, n.server.cliState, q.ledgerWrites⟩ :: n.writes

theorem writes_executed_of_eq_nil {q : Request} (h : q.ledgerWrites = []) (n : Network ι) (i : ι)
    (update : Option Update) (s : Server) : (n.executed i update q s).writes = n.writes := by
  simp [executed, h]

theorem writes_executed_of_ne_nil {q : Request} (h : q.ledgerWrites ≠ []) (n : Network ι) (i : ι)
    (update : Option Update) (s : Server) : (n.executed i update q s).writes =
      ⟨i, update, n.server.cliState, q.ledgerWrites⟩ :: n.writes := by
  simp [executed, h]

theorem suffix_writes_executed (n : Network ι) (i : ι) (update : Option Update) (q : Request)
    (s : Server) : n.writes <:+ (n.executed i update q s).writes := by
  by_cases h : q.ledgerWrites = []
  · exact ⟨[], by rw [writes_executed_of_eq_nil h, List.nil_append]⟩
  · rw [writes_executed_of_ne_nil h]
    exact List.suffix_cons _ _

theorem not_overtaken_executed {n : Network ι} {i : ι} (h : ¬ n.overtaken i) (update : Option Update)
    (q : Request) (s : Server) : ¬ (n.executed i update q s).overtaken i := by
  simp [executed, h]

/-- One step of one client. -/
inductive Step (effect : Server.Effect) (n : Network ι) : Network ι → Prop where
  | opens (i : ι) {desk : Option Desk} {config : Config} {capability : Option Capability}
    (h : n.client i = .idle desk) (hc : capability ≠ some .legacy) :
    Step effect n (n.become i (.busy (some .upgrade) (.opening config capability)))
  | calls (i : ι) {k : Desk} {c : Call} (h : n.client i = .idle (some k))
    (hc : c.Stages (Server.Spares effect)) :
    Step effect n (n.become i (.busy (c.update k) (.calling k c)))
  | returns (i : ι) {update : Option Update} {r : Except DriverFault Unit} {desk : Option Desk}
    (h : n.client i = .busy update (.done (r, desk))) : Step effect n (n.become i (.idle desk))
  /-- A request is executed; its reply may get lost. -/
  | executes (i : ι) {update : Option Update} {q : Request} {next : Reply → Work} {v : Value}
    {response : Response} {reply : Reply} {s : Server} (h : n.client i = .busy update (.send q next))
    (hq : q.body = some v) (hs : Server.Performs effect v response.body n.server s)
    (hr : response.isSuccess = true) (hreply : reply = .ok response ∨ reply.isAccepted = false)
    (hfree : q.ledgerWrites ≠ [] → ¬ n.overtaken i) :
    Step effect n ((n.executed i update q s).become i (.busy update (next reply)))
  | refuses (i : ι) {update : Option Update} {q : Request} {next : Reply → Work} {reply : Reply}
    (h : n.client i = .busy update (.send q next)) (hr : reply.isAccepted = false) :
    Step effect n (n.become i (.busy update (next reply)))
  /-- The server tells its version, which is one that has data sources. -/
  | tells (i : ι) {update : Option Update} {q : Request} {next : Reply → Work} {response : Response}
    (h : n.client i = .busy update (.send q next)) (hq : q.body = none)
    (hr : ∀ info, response.decode ServerInfo.ofBytes? = .ok info → info.capability = .datasources) :
    Step effect n (n.become i (.busy update (next (.ok response))))

/-- No driver has been opened yet, and the ledger is missing, null, an empty object or of the current
layout. -/
structure Initial (n : Network ι) : Prop where
  client : ∀ i, n.client i = .idle none
  writes : n.writes = []
  ledger : n.server.cliState = none ∨ n.server.cliState = some .null ∨
    n.server.cliState = some (.object []) ∨ ∃ l, n.server.ledger = .ok (.current l)

inductive Reachable (effect : Server.Effect) (n₀ : Network ι) : Network ι → Prop where
  | start : Reachable effect n₀ n₀
  | step {n n' : Network ι} (h : Reachable effect n₀ n) (hs : Step effect n n') : Reachable effect n₀ n'

end Network

/-- The client does what it may with what it knows. -/
def Client.Obeys (effect : Server.Effect) (know : Knowledge) : Client → Prop
  | .idle desk => ∀ k, desk = some k → k.Holds Driver.Informed (Server.Spares effect) know
  | .busy update work => work.Always (Knowledge.watch effect update) (fun r know' => ∀ k, r.2 = some k →
      k.Holds Driver.Informed (Server.Spares effect) know') know

namespace Network

variable {ι : Type}

/-- What the client knows was stored at some time, and what its last look has found is stored, unless
it was overtaken. -/
structure Knows (first : Option Value) (n : Network ι) (i : ι) (know : Knowledge) : Prop where
  seen : ∀ st ∈ know.seen, ∃ ws, ws <:+ n.writes ∧ Chain first ws st
  looked : ∀ r, know.looked = some r → ¬ n.overtaken i →
    ∀ st, Chain first n.writes st → st.revision = r

/-- What every step preserves. -/
structure Consistent (effect : Server.Effect) (first : Option Value) (n : Network ι) : Prop where
  stored : n.server.cliState = documentAfter first n.writes
  chain : ∃ st, Chain first n.writes st
  client : ∀ i, ∃ know, n.Knows first i know ∧ (n.client i).Obeys effect know

variable {effect : Server.Effect} {first : Option Value} {n n' : Network ι}

theorem knows_blank (i : ι) : n.Knows first i .blank :=
  ⟨fun st h => absurd h List.not_mem_nil, fun r h => by cases h⟩

theorem Consistent.chain_of_found (h : n.Consistent effect first) {q : Request} {v : Value}
    {response : Response} {reply : Reply} {s : Server} {st : StoredLedger} (hq : q.body = some v)
    (hs : Server.Performs effect v response.body n.server s) (hr : response.isSuccess = true)
    (hreply : reply = .ok response ∨ reply.isAccepted = false) (hread : q.isRead = true)
    (hst : LedgerStore.found reply = .ok st) : Chain first n.writes st := by
  obtain ⟨st', hchain⟩ := h.chain
  rcases hreply with rfl | hlost
  · obtain rfl := Option.some.inj (hq.symm.trans (Request.body_of_isRead hread))
    have hfound := (Server.found_of_performs hr hs).2
    rw [hst, Server.ledger, h.stored, hchain.decode] at hfound
    cases hfound
    exact hchain
  · obtain ⟨response', -, rfl, hs', -⟩ := LedgerStore.found_eq_ok hst
    exact absurd (hs'.symm.trans hlost) (by simp)

theorem Initial.ledger_plain {n : Network ι} (h : n.Initial) :
    ∃ st, n.server.ledger = .ok st ∧ st.upgrade.Plain := by
  have hempty : LegacyLedger.empty.upgrade.Plain := ⟨rfl, Json.Members.sorted_nil, fun _ _ => rfl⟩
  have hledger := h.ledger
  unfold Server.ledger at hledger ⊢
  rcases hledger with hs | hs | hs | ⟨l, hl⟩
  · exact ⟨.legacy .empty, by rw [hs]; rfl, hempty⟩
  · exact ⟨.legacy .empty, by rw [hs]; rfl, hempty⟩
  · exact ⟨.legacy .empty, by rw [hs]; rfl, hempty⟩
  · exact ⟨.current l, hl, Server.plain_of_current hl⟩

theorem Initial.consistent {n : Network ι} (h : n.Initial) :
    n.Consistent effect n.server.cliState := by
  obtain ⟨st, hst, hplain⟩ := h.ledger_plain
  refine ⟨by rw [h.writes]; rfl, ⟨st, ?_⟩, fun i => ⟨.blank, knows_blank i, ?_⟩⟩
  · rw [h.writes]
    exact .start hst hplain
  · rw [h.client i]
    exact fun k hk => by cases hk

variable [DecidableEq ι]

theorem Knows.of_other {know : Knowledge} {i j : ι} {update : Option Update} {q : Request} {s : Server}
    (h : n.Knows first j know) (hj : j ≠ i) : (n.executed i update q s).Knows first j know := by
  constructor
  case seen =>
    intro st hst
    obtain ⟨ws, hws, hchain⟩ := h.seen st hst
    exact ⟨ws, hws.trans (n.suffix_writes_executed i update q s), hchain⟩
  case looked =>
    intro r hr ho st hst
    by_cases hw : q.ledgerWrites = []
    · rw [writes_executed_of_eq_nil hw] at hst
      exact h.looked r hr (by simpa [executed, hw, hj] using ho) st hst
    · exact absurd ho (by simp [executed, hw, hj])

/-- What a client learns from a look of its own. -/
theorem Knows.of_look {know : Knowledge} {i : ι} {update : Option Update} {q : Request} {s : Server}
    {reply : Reply} (h : n.Knows first i know) (hread : q.isRead = true)
    (hlook : ∀ st, LedgerStore.found reply = .ok st → Chain first n.writes st) :
    (n.executed i update q s).Knows first i (know.after q reply) := by
  have hwrites := writes_executed_of_eq_nil (Server.ledgerWrites_of_isRead hread) n i update s
  rw [Knowledge.after_of_isRead hread]
  constructor
  case seen =>
    intro st hst
    rw [hwrites]
    cases hfound : LedgerStore.found reply with
    | error e => exact h.seen st (by simpa [hfound, Knowledge.found] using hst)
    | ok found =>
      rw [hfound] at hst
      rcases List.mem_cons.1 hst with rfl | hst
      · exact ⟨n.writes, List.suffix_refl _, hlook _ hfound⟩
      · exact h.seen st hst
  case looked =>
    intro r hr _ st hst
    rw [hwrites] at hst
    cases hfound : LedgerStore.found reply with
    | error e => simp [hfound, Knowledge.found] at hr
    | ok found =>
      rw [hst.unique (hlook found hfound)]
      simpa [hfound, Knowledge.found] using hr

theorem Knows.of_own {know : Knowledge} {i : ι} {update : Option Update} {q : Request} {s : Server}
    {reply : Reply} (h : n.Knows first i know) (hread : q.isRead = false)
    (hwrite : ∀ w ∈ q.ledgerWrites, ∀ st, StoredLedger.decode (some w) = .ok st →
      Chain first (n.executed i update q s).writes st) :
    (n.executed i update q s).Knows first i (know.after q reply) := by
  have hsuffix := n.suffix_writes_executed i update q s
  have hseen : ∀ st ∈ know.seen, ∃ ws, ws <:+ (n.executed i update q s).writes ∧ Chain first ws st := by
    intro st hst
    obtain ⟨ws, hws, hchain⟩ := h.seen st hst
    exact ⟨ws, hws.trans hsuffix, hchain⟩
  by_cases hw : q.ledgerWrites = []
  · have hafter : know.after q reply = know := by simp [Knowledge.after, hread, hw]
    rw [hafter]
    refine ⟨hseen, fun r hr ho st hst => ?_⟩
    rw [writes_executed_of_eq_nil hw] at hst
    exact h.looked r hr (by simpa [executed, hread] using ho) st hst
  · have hafter : know.after q reply = know.tried q.ledgerWrites reply.isAccepted := by
      simp [Knowledge.after, hread, hw]
    rw [hafter]
    refine ⟨fun st hst => ?_, fun r hr => by simp at hr⟩
    rcases Knowledge.mem_seen_tried hst with hst | ⟨w, hmem, hst⟩
    · exact hseen st hst
    · exact ⟨_, List.suffix_refl _, hwrite w hmem st hst⟩

theorem Consistent.become (h : n.Consistent effect first) {i : ι} {c : Client}
    (hclient : n'.client = n.client) (hstored : n'.server.cliState = documentAfter first n'.writes)
    (hchain : ∃ st, Chain first n'.writes st)
    (hothers : ∀ j know, j ≠ i → n.Knows first j know → n'.Knows first j know)
    (hc : ∃ know, n'.Knows first i know ∧ c.Obeys effect know) :
    (n'.become i c).Consistent effect first := by
  refine ⟨hstored, hchain, fun j => ?_⟩
  by_cases hj : j = i
  · subst hj
    obtain ⟨know, hknow, hobeys⟩ := hc
    exact ⟨know, ⟨hknow.seen, hknow.looked⟩, by rwa [client_become]⟩
  · obtain ⟨know, hknow, hobeys⟩ := h.client j
    have hknow' := hothers j know hj hknow
    refine ⟨know, ⟨hknow'.seen, hknow'.looked⟩, ?_⟩
    rwa [client_become_of_ne hj, hclient]

theorem Consistent.executes (h : n.Consistent effect first) {i : ι} {update : Option Update} {q : Request}
    {next : Reply → Work} {v : Value} {response : Response} {reply : Reply} {s : Server}
    (hc : n.client i = .busy update (.send q next)) (hq : q.body = some v)
    (hs : Server.Performs effect v response.body n.server s) (hr : response.isSuccess = true)
    (hreply : reply = .ok response ∨ reply.isAccepted = false)
    (hfree : q.ledgerWrites ≠ [] → ¬ n.overtaken i) :
    ((n.executed i update q s).become i (.busy update (next reply))).Consistent effect first := by
  obtain ⟨know, hknow, hobeys⟩ := h.client i
  obtain ⟨st, hst⟩ := h.chain
  rw [hc] at hobeys
  have hlook : q.isRead = true → ∀ st, LedgerStore.found reply = .ok st → Chain first n.writes st :=
    fun hread st hf => h.chain_of_found hq hs hr hreply hread hf
  have hfair : reply.Fair q :=
    ⟨fun hread st hf => (hlook hread st hf).plain, fun hnone => by simp [hq] at hnone⟩
  have hnext := hobeys.2 reply _ ⟨hfair, rfl⟩
  have hothers : ∀ j know, j ≠ i → n.Knows first j know →
      (n.executed i update q s).Knows first j know := fun j know hj hk => hk.of_other hj
  rcases hobeys.1 with hleaves | ⟨st', u, rfl, hback, hleaves⟩
  · have hwrites := writes_executed_of_eq_nil hleaves.1 n i update s
    have hstate : s.cliState = n.server.cliState := hleaves.2 v _ _ _ hq hs
    have hstored : s.cliState = documentAfter first (n.executed i update q s).writes := by
      rw [hstate, hwrites, h.stored]
    have hown : (n.executed i update q s).Knows first i (know.after q reply) := by
      cases hread : q.isRead with
      | true => exact hknow.of_look hread (hlook hread)
      | false => exact hknow.of_own hread (by simp [hleaves.1])
    exact h.become rfl hstored ⟨st, by rwa [hwrites]⟩ hothers ⟨_, hown, hnext⟩
  · -- The last look found the revision of a ledger that was stored once, and nobody has overtaken the
    -- client, so that revision is the one stored now.
    have hne : q.ledgerWrites ≠ [] := by simp [hleaves.1]
    obtain ⟨ws, hws, hchain⟩ := hknow.seen st' hback.known
    have hrevision := hknow.looked _ hback.looked (hfree hne) st hst
    have hread : q.isRead = false := by
      cases hread : q.isRead with
      | false => rfl
      | true => exact absurd (Server.ledgerWrites_of_isRead hread) hne
    have hwrites := writes_executed_of_ne_nil hne n i (some u) s
    have hstate : s.cliState = some (u.applyTo st'.upgrade).toJson := hleaves.2 v _ _ _ hq hs
    have hstored : s.cliState = documentAfter first (n.executed i (some u) q s).writes := by
      rw [hstate, hwrites, documentAfter, hleaves.1]
      rfl
    have hchain' : Chain first (n.executed i (some u) q s).writes (.current (u.applyTo st'.upgrade)) := by
      rw [hwrites]
      exact .write hst hws hchain hrevision.symm rfl hback.outdated h.stored hleaves.1
    have hdecode := Ledger.decode_toJson (Update.plain_applyTo hchain.plain u)
    have hwritten : ∀ w ∈ q.ledgerWrites, ∀ st, StoredLedger.decode (some w) = .ok st →
        Chain first (n.executed i (some u) q s).writes st := by
      intro w hw st hst
      rw [hleaves.1] at hw
      obtain rfl := List.mem_singleton.1 hw
      rw [hdecode] at hst
      cases hst
      exact hchain'
    exact h.become rfl hstored ⟨_, hchain'⟩ hothers ⟨_, hknow.of_own hread hwritten, hnext⟩

/-- One step of one client preserves it. -/
theorem Consistent.step (h : n.Consistent effect first) (hs : Step effect n n') :
    n'.Consistent effect first := by
  have hgoes : ∀ {i : ι} {c : Client}, (∃ know, n.Knows first i know ∧ c.Obeys effect know) →
      (n.become i c).Consistent effect first :=
    fun hc => h.become rfl h.stored h.chain (fun _ _ _ hk => hk) hc
  cases hs with
  | opens i hi hc => exact hgoes ⟨_, knows_blank i, Work.always_opening _ hc Knowledge.plain_blank⟩
  | calls i hi hc =>
    obtain ⟨know, hknow, hobeys⟩ := h.client i
    rw [hi] at hobeys
    exact hgoes ⟨know, hknow, Work.always_calling hc (hobeys _ rfl)⟩
  | returns i hi =>
    obtain ⟨know, hknow, hobeys⟩ := h.client i
    rw [hi] at hobeys
    exact hgoes ⟨know, hknow, hobeys⟩
  | executes i hi hq hs hr hreply hfree => exact h.executes hi hq hs hr hreply hfree
  | refuses i hi hr =>
    obtain ⟨know, hknow, hobeys⟩ := h.client i
    rw [hi] at hobeys
    obtain ⟨hseen, hlooked⟩ := Knowledge.after_of_not_isAccepted hr
    refine hgoes ⟨_, ⟨fun st hst => ?_, fun r hlook => ?_⟩,
      hobeys.2 _ _ ⟨Knowledge.fair_of_not_isAccepted hr, rfl⟩⟩
    · exact hknow.seen st (hseen ▸ hst)
    · exact hknow.looked r (hlooked r hlook)
  | @tells i update q next response hi hq hr =>
    obtain ⟨know, hknow, hobeys⟩ := h.client i
    rw [hi] at hobeys
    have hread : q.isRead = false := by simp [Request.isRead, hq]
    have hfair : Reply.Fair q (.ok response) := ⟨fun hread' => by simp [hread] at hread',
      fun _ response info he hinfo => by cases he; exact hr info hinfo⟩
    have hleaves : Server.Leaves effect q none := Server.leaves_of_body_eq_none hq
    have hafter : know.after q (.ok response) = know := Knowledge.after_of_leaves_none hread hleaves
    exact hgoes ⟨know, hknow, hobeys.2 _ know ⟨hfair, hafter.symm⟩⟩

theorem Reachable.consistent {n₀ : Network ι} (h₀ : n₀.Initial) (h : Reachable effect n₀ n) :
    n.Consistent effect n₀.server.cliState := by
  induction h with
  | start => exact h₀.consistent
  | step _ hs ih => exact ih.step hs

/-- No update of the ledger is lost. -/
structure NoUpdateLost (effect : Server.Effect) (first : Option Value) (n : Network ι) : Prop where
  /-- Every write has replaced what the one before it had left, and counts its revision up by one. -/
  counted : ∀ later w earlier, n.writes = later ++ w :: earlier →
    w.CountsUp (documentAfter first earlier)
  /-- It was made from exactly that, until every revision has been used. -/
  made : ∀ later w earlier, n.writes = later ++ w :: earlier → earlier.length < Text.wordLimit →
    w.MadeFrom (documentAfter first earlier)
  stored : n.server.cliState = documentAfter first n.writes
  /-- The stored ledger is what all the writes make of the first one. -/
  ledger : ∃ st₀ st, StoredLedger.decode first = .ok st₀ ∧ n.server.ledger = .ok st ∧
    st.revision = st₀.revision + BitVec.ofNat 64 n.writes.length ∧ (n.writes.length ≤ Text.wordLimit →
      st.upgrade = { (marksOf n.writes).foldr Mark.enter st₀.upgrade with revision := st.revision })
  /-- What a write has changed holds until a later change reverses it. -/
  holds : n.writes.length ≤ Text.wordLimit → ∀ st later m earlier, n.server.ledger = .ok st →
    marksOf n.writes = later ++ m :: earlier → (∀ m' ∈ later, ¬ m'.Reverses m) → m.Holds st.upgrade
  /-- Changes are recorded after a check for the revision of the ledger that the driver keeps. -/
  changes : ∀ i k, n.client i = .idle (some k) → ∃ t, k.driver.tracker = .catalog t ∧
    ∀ c cs, c.update k = some (.changes cs) → (Work.calling k c).Checks t.ledger.revision
  /-- A setting is changed after a check for the revision of the ledger that was read for it. -/
  setting : ∀ i k name value, n.client i = .idle (some k) →
    (Work.calling k (.updateSetting name value)).Looks fun st w => w.Checks st.revision
  /-- An upgrade is written after a check for the revision of what it is made from. -/
  upgrade : ∀ config, (Work.opening config (some .datasources)).Looks
    fun st w => st.needsUpgrade = true → w.Checks st.revision
  /-- A driver that asks for the version first goes on as one that was told the capability. -/
  asked : ∀ config, ∃ q next, q.body = none ∧ Work.opening config none = .send q next ∧
    ∀ reply, (∃ r, next reply = .done r) ∨ ∃ c, next reply = Work.opening config (some c)
  /-- A check that finds another revision stored is the last that the client sends, and tells it so. -/
  refused : ∀ i update q next expected v response s st, n.client i = .busy update (.send q next) →
    Work.Checks expected (.send q next) → q.body = some v →
    Server.Performs effect v response.body n.server s → response.isSuccess = true →
    n.server.ledger = .ok st → st.revision ≠ expected → ∃ desk, next (.ok response) =
      .done (.error (.tracking (.catalog (.concurrentModification expected st.revision))), desk)

variable {n₀ : Network ι}

/-- Whatever clients do, in whatever order their requests come: as long as nobody writes the ledger
between another's last look and its write, no update is lost.  Revisions are words of 64 bits, so only a
driver that slept through as many writes as there are revisions could not tell that anybody has written. -/
theorem no_update_lost (h₀ : n₀.Initial) (h : Reachable effect n₀ n) :
    n.NoUpdateLost effect n₀.server.cliState := by
  have hn := h.consistent h₀
  obtain ⟨st, hchain⟩ := hn.chain
  obtain ⟨st₀, hst₀, -⟩ := h₀.ledger_plain
  have hledger : n.server.ledger = .ok st := by rw [Server.ledger, hn.stored, hchain.decode]
  have hcatalog : ∀ i k, n.client i = .idle (some k) → ∃ t, k.driver.tracker = .catalog t := by
    intro i k hi
    obtain ⟨know, -, hobeys⟩ := hn.client i
    rw [hi] at hobeys
    obtain ⟨⟨t, ht, -⟩, -⟩ := hobeys k rfl
    exact ⟨t, ht⟩
  constructor
  case counted =>
    intro later w earlier hw
    rw [hw] at hchain
    exact hchain.countsUp
  case made =>
    intro later w earlier hw hfew
    rw [hw] at hchain
    exact hchain.madeFrom hfew
  case stored => exact hn.stored
  case ledger =>
    have hrevision := hchain.revision hst₀
    exact ⟨st₀, st, hst₀, hledger, hrevision, fun hfew => by rw [hchain.upgrade_eq hst₀ hfew, hrevision]⟩
  case holds =>
    intro hfew st' later m earlier hst' hm hlater
    cases hledger.symm.trans hst'
    rw [hchain.upgrade_eq hst₀ hfew, hm]
    exact (Mark.holds_foldr hlater _).of_revision _
  case changes =>
    intro i k hi
    obtain ⟨t, ht⟩ := hcatalog i k hi
    exact ⟨t, ht, fun c cs hu => Work.checks_calling ht hu⟩
  case setting =>
    intro i k name value hi
    obtain ⟨t, ht⟩ := hcatalog i k hi
    exact Work.looks_updateSetting ht name value
  case upgrade => exact Work.looks_opening
  case asked => exact Work.opening_none
  case refused =>
    intro i update q next expected v response s st' hi hcheck hq hs hr hst' hne
    obtain rfl := Option.some.inj (hq.symm.trans (Request.body_of_isRead hcheck.1))
    have hfound := (Server.found_of_performs hr hs).2
    rw [hst'] at hfound
    exact hcheck.2 (.ok response) st' hfound hne

/-- The network as one client meets it that is not overtaken: each request is executed and answered. -/
def serving (effect : Server.Effect) (i : ι) (update : Option Update) : Peer (Network ι) where
  admits _ _ := True
  answers n q reply n' := ¬ n.overtaken i ∧ ∃ v response s, q.body = some v ∧
    Server.Performs effect v response.body n.server s ∧ response.isSuccess = true ∧
    reply = .ok response ∧ n' = n.executed i update q s

/-- Whatever the client can get through with the network comes about. -/
theorem Reachable.served {i : ι} {update : Option Update} {x : Work}
    {a : Except DriverFault Unit × Option Desk} (h : Reachable effect n₀ (n.become i (.busy update x)))
    (hx : x.Leads (serving effect i update) n a n') : Reachable effect n₀ (n'.become i (.idle a.2)) := by
  induction hx with
  | done a n => simpa using Reachable.step h (.returns i (client_become n i _))
  | send hreply _ ih =>
    obtain ⟨hfree, v, response, s, hq, hs, hr, rfl, rfl⟩ := hreply
    have hstep := Reachable.step h
      (.executes i (client_become _ i _) hq hs hr (.inl rfl) fun _ => hfree)
    exact ih (by simpa [executed, become] using hstep)

/-- Two clients that have not begun yet, and a server that has stored a ledger. -/
def twoClients : Network Bool where
  server := Driver.storing Ledger.empty.advance
  client _ := .idle none
  overtaken _ := False
  writes := []

def look : Request := LedgerStore.readRequest ⟨Config.default.paths.metadata⟩

/-- One of them has looked at the ledger twice and opened a driver. -/
def opened : Network Bool :=
  (twoClients.executed true (some .upgrade) look twoClients.server).executed true (some .upgrade) look
    twoClients.server

def recording : Option Update := some (.changes [.record 5 none])

def recorded : Network Bool :=
  (opened.executed true recording look twoClients.server).executed true recording
    Driver.oneVersionRequest (Driver.storing Driver.oneVersion)

theorem not_overtaken_opened : ¬ opened.overtaken true :=
  not_overtaken_executed (not_overtaken_executed id _ _ _) _ _ _

variable (effect) in
theorem answers_look {n : Network Bool} (update : Option Update) (hs : n.server = twoClients.server)
    (h : ¬ n.overtaken true) : (serving effect true update).answers n look
      (.ok ⟨200, Driver.emptyLedgerBody⟩) (n.executed true update look twoClients.server) := by
  refine ⟨h, _, _, _, rfl, ?_, rfl, rfl, rfl⟩
  rw [hs]
  exact .read _ rfl rfl Driver.catalog_emptyLedgerBody rfl

variable (effect) in
theorem leads_opening : (Work.opening .default (some .datasources)).Leads
    (serving effect true (some .upgrade)) twoClients (.ok (), some ⟨Driver.onEmptyLedger, none⟩)
    opened := by
  have hfirst := answers_look effect (n := twoClients) (some .upgrade) rfl id
  have hsecond := answers_look effect (n := twoClients.executed true (some .upgrade) look
    twoClients.server) (some .upgrade) rfl (not_overtaken_executed id _ _ _)
  exact (Driver.leads_attach_of_answers hfirst hsecond).bind (.done _ _)

variable (effect) in
theorem leads_recording : (Work.calling ⟨Driver.onEmptyLedger, none⟩ (.record (.record 5 none))).Leads
    (serving effect true recording) opened
    (.ok (), some ⟨Driver.onEmptyLedger.succeeded Driver.recordFive, none⟩) recorded := by
  obtain ⟨v, hv, hperforms⟩ := @Driver.performs_oneVersionRequest effect
  have hlook := answers_look effect (n := opened) recording rfl not_overtaken_opened
  have hwrite : (serving effect true recording).answers (opened.executed true recording look
      twoClients.server) Driver.oneVersionRequest (.ok ⟨200, Driver.emptyLedgerBody⟩) recorded :=
    ⟨not_overtaken_executed not_overtaken_opened _ _ _, v, _, _, hv, hperforms, rfl, rfl, rfl⟩
  exact (Driver.leads_record_of_answers hlook hwrite).bind (.done _ _)

theorem length_writes_recorded : recorded.writes.length = 1 := by
  have hlook : look.ledgerWrites = [] := Server.ledgerWrites_of_isRead (LedgerStore.isRead_readRequest _)
  have hwrite : Driver.oneVersionRequest.ledgerWrites ≠ [] := by
    simp [Driver.oneVersionRequest, Server.ledgerWrites_toRequest, cliWrite?_writeOperation]
  simp [recorded, opened, writes_executed_of_ne_nil hwrite, writes_executed_of_eq_nil hlook, twoClients]

/-- One of them opens a driver and records a version: that is one write, and it is not lost. -/
theorem no_update_lost_of_recording : ∃ n : Network Bool,
    n.server = Driver.storing Driver.oneVersion ∧ n.writes.length = 1 ∧
      n.NoUpdateLost (fun _ _ _ => False) twoClients.server.cliState := by
  have hplain : Ledger.Plain Ledger.empty.advance := ⟨rfl, Json.Members.sorted_nil, fun _ _ => rfl⟩
  have hinitial : twoClients.Initial :=
    ⟨fun _ => rfl, rfl, .inr (.inr (.inr ⟨_, Ledger.decode_toJson hplain⟩))⟩
  have hopens : Reachable (fun _ _ _ => False) twoClients (twoClients.become true
      (.busy (some .upgrade) (.opening .default (some .datasources)))) :=
    .step .start (.opens true rfl (by simp))
  have hcalls : Call.Stages (Server.Spares fun _ _ _ => False) (.record (.record 5 none)) := trivial
  have hrecords := Reachable.step (hopens.served (leads_opening _)) (.calls true (client_become _ _ _) hcalls)
  rw [become_become] at hrecords
  have hend := hrecords.served (leads_recording _)
  exact ⟨recorded.become true (.idle (some ⟨Driver.onEmptyLedger.succeeded Driver.recordFive, none⟩)),
    rfl, length_writes_recorded, no_update_lost hinitial hend⟩

end Network

end EngineMigrate
