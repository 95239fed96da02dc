import EngineMigrate.Proofs.ClientTask
import Mathlib.Logic.Function.Basic

/-!
Any number of clients at their tasks on one server that keeps its records in tables, their requests
interleaved in any way.  Main statements: what was executed is one history without gaps, in which each
request is one that its client may send at that point of its task; and if something ceased to hold between
two of them, it was one in between that ended it.
-/
namespace EngineMigrate

/-- A client: idle with the driver that it has, if any, or at a task. -/
inductive Worker where
  | idle (held : Option Driver)
  | busy (task : Task) (sent : List Event) (rest : Exchange (Option Driver))

/-- A request that was executed for a task of a client, after others, the latest first. -/
structure Execution (ι : Type) extends Event where
  client : ι
  task : Task
  earlier : List Event

structure Fleet (ι : Type) where
  server : Server
  worker : ι → Worker
  /-- What was executed so far, the latest first. -/
  history : List (Execution ι)

namespace Fleet

variable {ι : Type} [DecidableEq ι]

def become (n : Fleet ι) (i : ι) (w : Worker) : Fleet ι :=
  { n with worker := Function.update n.worker i w }

def executed (n : Fleet ι) (i : ι) (task : Task) (sent : List Event) (e : Event)
    (rest : Exchange (Option Driver)) : Fleet ι where
  server := e.after
  worker := Function.update n.worker i (.busy task (e :: sent) rest)
  history := ⟨e, i, task, sent⟩ :: n.history

/-- One step of one client; the operations of the files that it applies are as `ok` says. -/
inductive Step (effect : Server.Effect) (ok : Operation → Prop) (n : Fleet ι) : Fleet ι → Prop where
  | begins (i : ι) {held : Option Driver} {task : Task} (h : n.worker i = .idle held)
    (hb : task.Begins ok held) : Step effect ok n (n.become i (.busy task [] task.exchange))
  | executes (i : ι) {task : Task} {sent : List Event} {next : Reply → Exchange (Option Driver)}
    (e : Event) (h : n.worker i = .busy task sent (.send e.request next)) (hb : e.before = n.server)
    (he : e.Honest effect) : Step effect ok n (n.executed i task sent e (next e.reply))
  | passes (i : ι) {task : Task} {sent : List Event} {q : Request}
    {next : Reply → Exchange (Option Driver)} {reply : Reply}
    (h : n.worker i = .busy task sent (.send q next)) (hr : q.Passes reply) :
    Step effect ok n (n.become i (.busy task sent (next reply)))
  | ends (i : ι) {task : Task} {sent : List Event} {held : Option Driver}
    (h : n.worker i = .busy task sent (.done held)) : Step effect ok n (n.become i (.idle held))

/-- Every client is idle, with a driver for tables if it has one, and nothing was executed yet. -/
structure Initial (n : Fleet ι) : Prop where
  worker : ∀ i, ∃ held, n.worker i = .idle held ∧ ∀ d, held = some d → d.OnTables
  history : n.history = []

inductive Reachable (effect : Server.Effect) (ok : Operation → Prop) (n₀ : Fleet ι) : Fleet ι → Prop where
  | start : Reachable effect ok n₀ n₀
  | step {n n' : Fleet ι} (h : Reachable effect ok n₀ n) (hs : Step effect ok n n') :
    Reachable effect ok n₀ n'

end Fleet

section

variable {ι : Type} [DecidableEq ι]

def ownEvents (i : ι) (xs : List (Execution ι)) : List Event :=
  (xs.filter (·.client = i)).map Execution.toEvent

theorem ownEvents_cons_self {i : ι} {x : Execution ι} (h : x.client = i) (xs : List (Execution ι)) :
    ownEvents i (x :: xs) = x.toEvent :: ownEvents i xs := by
  simp [ownEvents, h]

theorem ownEvents_cons_of_ne {i : ι} {x : Execution ι} (h : x.client ≠ i) (xs : List (Execution ι)) :
    ownEvents i (x :: xs) = ownEvents i xs := by
  simp [ownEvents, h]

theorem exists_of_ownEvents_eq_cons {i : ι} {xs : List (Execution ι)} {e : Event} {es : List Event}
    (h : ownEvents i xs = e :: es) : ∃ between x rest, xs = between ++ x :: rest ∧ x.client = i ∧
      x.toEvent = e ∧ (∀ y ∈ between, y.client ≠ i) ∧ ownEvents i rest = es := by
  induction xs with
  | nil => cases h
  | cons x xs ih =>
    by_cases hx : x.client = i
    · rw [ownEvents_cons_self hx] at h
      obtain ⟨he, hes⟩ := List.cons.inj h
      exact ⟨[], x, xs, rfl, hx, he, by simp, hes⟩
    · rw [ownEvents_cons_of_ne hx] at h
      obtain ⟨between, y, rest, rfl, hy, he, hne, hes⟩ := ih h
      exact ⟨x :: between, y, rest, rfl, hy, he, List.forall_mem_cons.2 ⟨hx, hne⟩, hes⟩

/-- A history without gaps that led to a server. -/
inductive Past (effect : Server.Effect) (ok : Operation → Prop) : List (Execution ι) → Server → Prop where
  | start (s : Server) : Past effect ok [] s
  | step {x : Execution ι} {xs : List (Execution ι)} (h : Past effect ok xs x.before)
    (honest : x.Honest effect) (sends : x.task.Sends ok x.earlier x.request)
    (own : x.earlier <+: ownEvents x.client xs) : Past effect ok (x :: xs) x.after

variable {effect : Server.Effect} {ok : Operation → Prop} {s : Server}

theorem Past.of_append {later earlier : List (Execution ι)} {x : Execution ι}
    (h : Past effect ok (later ++ x :: earlier) s) : Past effect ok (x :: earlier) x.after := by
  induction later generalizing s with
  | nil =>
    cases h with
    | step h honest sends own => exact .step h honest sends own
  | cons y later ih =>
    cases h with
    | step h _ _ _ => exact ih h

theorem Past.of_mem {xs : List (Execution ι)} {x : Execution ι} (h : Past effect ok xs s) (hx : x ∈ xs) :
    x.Honest effect ∧ x.task.Sends ok x.earlier x.request := by
  obtain ⟨later, earlier, rfl⟩ := List.append_of_mem hx
  cases h.of_append with
  | step _ honest sends _ => exact ⟨honest, sends⟩

/-- What held after one execution and holds no more was ended by one since. -/
theorem Past.exists_end {P : Server → Prop} {between rest : List (Execution ι)} {x : Execution ι}
    (h : Past effect ok (between ++ x :: rest) s) (hx : P x.after) (hs : ¬ P s) :
    ∃ y ∈ between, P y.before ∧ ¬ P y.after := by
  induction between generalizing s with
  | nil =>
    cases h with
    | step => exact absurd hx hs
  | cons y between ih =>
    cases h with
    | step h _ _ _ =>
      by_cases hy : P y.before
      · exact ⟨y, List.mem_cons_self, hy, hs⟩
      · obtain ⟨z, hz, hends⟩ := ih h hy
        exact ⟨z, List.mem_cons_of_mem _ hz, hends⟩

/-- A client at a task goes on as the task does, and one that is idle has a driver for tables if any. -/
def Worker.Obeys (effect : Server.Effect) (ok : Operation → Prop) (own : List Event) : Worker → Prop
  | .idle held => ∀ d, held = some d → d.OnTables
  | .busy task sent rest => sent <+: own ∧ rest.Always (Server.shared effect (task.Sends ok))
      (fun held _ => ∀ d, held = some d → d.OnTables) sent

end

namespace Fleet

variable {ι : Type} [DecidableEq ι] {effect : Server.Effect} {ok : Operation → Prop} {n n' n₀ : Fleet ι}

/-- What every step preserves. -/
structure Consistent (effect : Server.Effect) (ok : Operation → Prop) (n : Fleet ι) : Prop where
  past : Past effect ok n.history n.server
  worker : ∀ i, (n.worker i).Obeys effect ok (ownEvents i n.history)

theorem Initial.consistent (h : n.Initial) : n.Consistent effect ok := by
  constructor
  case past =>
    rw [h.history]
    exact .start _
  case worker =>
    intro i
    obtain ⟨held, hw, hheld⟩ := h.worker i
    rw [hw]
    exact hheld

theorem Consistent.become (h : n.Consistent effect ok) {i : ι} {w : Worker}
    (hw : w.Obeys effect ok (ownEvents i n.history)) : (n.become i w).Consistent effect ok := by
  refine ⟨h.past, fun j => ?_⟩
  by_cases hj : j = i
  · subst hj
    simpa [Fleet.become] using hw
  · simpa [Fleet.become, hj] using h.worker j

theorem Consistent.executed (h : n.Consistent effect ok) {i : ι} {task : Task} {sent : List Event}
    {next : Reply → Exchange (Option Driver)} {e : Event}
    (hw : n.worker i = .busy task sent (.send e.request next)) (hb : e.before = n.server)
    (he : e.Honest effect) : (n.executed i task sent e (next e.reply)).Consistent effect ok := by
  have hobeys := h.worker i
  rw [hw] at hobeys
  obtain ⟨hsent, hsends, hnext⟩ := hobeys
  constructor
  case past => exact .step (hb ▸ h.past) he hsends hsent
  case worker =>
    intro j
    by_cases hj : j = i
    · subst hj
      have hrest := hnext e.reply (e :: sent) (.inl ⟨e, he, rfl, rfl, rfl⟩)
      simp only [Fleet.executed, Function.update_self, ownEvents_cons_self]
      exact ⟨(List.prefix_cons_inj e).2 hsent, hrest⟩
    · have hne : i ≠ j := fun hij => hj hij.symm
      simp only [Fleet.executed, Function.update_of_ne hj]
      rw [ownEvents_cons_of_ne hne]
      exact h.worker j

theorem Consistent.step (h : n.Consistent effect ok) (hs : Step effect ok n n') :
    n'.Consistent effect ok := by
  cases hs with
  | @begins i held task hw hb =>
    have hheld := h.worker i
    rw [hw] at hheld
    exact h.become ⟨List.nil_prefix, Task.always_exchange hheld hb⟩
  | executes i e hw hb he => exact h.executed hw hb he
  | passes i hw hr =>
    have hobeys := h.worker i
    rw [hw] at hobeys
    obtain ⟨hsent, -, hnext⟩ := hobeys
    exact h.become ⟨hsent, hnext _ _ (.inr ⟨hr, rfl⟩)⟩
  | ends i hw =>
    have hobeys := h.worker i
    rw [hw] at hobeys
    exact h.become hobeys.2

theorem Reachable.consistent (h₀ : n₀.Initial) (h : Reachable effect ok n₀ n) :
    n.Consistent effect ok := by
  induction h with
  | start => exact h₀.consistent
  | step _ hs ih => exact ih.step hs

end Fleet

/-! One client goes on while the others wait. -/

/-- An exchange goes on for some executed requests, which lead from one server to another. -/
inductive Exchange.Goes (effect : Server.Effect) {α : Type} :
    Exchange α → Server → List Event → Exchange α → Server → Prop where
  | stays (x : Exchange α) (s : Server) : Goes effect x s [] x s
  | event {e : Event} {next : Reply → Exchange α} {es : List Event} {x : Exchange α} {s : Server}
    (he : e.Honest effect) (h : Goes effect (next e.reply) e.after es x s) :
    Goes effect (.send e.request next) e.before (e :: es) x s

theorem Exchange.Goes.trans {effect : Server.Effect} {α : Type} {x y z : Exchange α} {s s' s'' : Server}
    {es es' : List Event} (h : x.Goes effect s es y s') (h' : y.Goes effect s' es' z s'') :
    x.Goes effect s (es ++ es') z s'' := by
  induction h with
  | stays x s => exact h'
  | event he _ ih => exact .event he (ih h')

section

variable {ι : Type} {effect : Server.Effect} {ok : Operation → Prop} {n₀ n : Fleet ι}
  {i : ι} {task : Task} {sent es : List Event} {x y : Exchange (Option Driver)} {s : Server}

/-- The events of a client at its task as they enter the history. -/
def executions (i : ι) (task : Task) : List Event → List Event → List (Execution ι)
  | _, [] => []
  | sent, e :: es => executions i task (e :: sent) es ++ [⟨e, i, task, sent⟩]

theorem Fleet.Reachable.goes [DecidableEq ι] (h : Reachable effect ok n₀ n)
    (hw : n.worker i = .busy task sent x) (hg : x.Goes effect n.server es y s) :
    Reachable effect ok n₀ ⟨s, Function.update n.worker i (.busy task (es.reverse ++ sent) y),
      executions i task sent es ++ n.history⟩ := by
  generalize hserver : n.server = s₀ at hg
  induction hg generalizing n sent with
  | stays x s =>
    obtain ⟨server, worker, history⟩ := n
    obtain rfl := hserver
    have hsame : Function.update worker i (.busy task sent x) = worker := by
      rw [← show worker i = .busy task sent x from hw, Function.update_eq_self]
    simpa [executions, hsame] using h
  | @event e next es y s he hg ih =>
    have hworker : (n.executed i task sent e (next e.reply)).worker i =
        .busy task (e :: sent) (next e.reply) := by simp [Fleet.executed]
    have hstep := ih (h.step (.executes i e hw hserver.symm he)) hworker rfl
    simpa [Fleet.executed, executions] using hstep

theorem Fleet.Reachable.begins [DecidableEq ι] (h : Reachable effect ok n₀ n) {held : Option Driver}
    (hw : n.worker i = .idle held) (hb : task.Begins ok held)
    (hg : task.exchange.Goes effect n.server es y s) :
    Reachable effect ok n₀ ⟨s, Function.update n.worker i (.busy task es.reverse y),
      executions i task [] es ++ n.history⟩ := by
  have hworker : (n.become i (.busy task [] task.exchange)).worker i = .busy task [] task.exchange := by
    simp [Fleet.become]
  have hgoes := Reachable.goes (h.step (.begins i hw hb)) hworker hg
  simpa [Fleet.become] using hgoes

theorem Fleet.Reachable.finishes [DecidableEq ι] (h : Reachable effect ok n₀ n) {held held' : Option Driver}
    (hw : n.worker i = .idle held) (hb : task.Begins ok held)
    (hg : task.exchange.Goes effect n.server es (.done held') s) :
    Reachable effect ok n₀ ⟨s, Function.update n.worker i (.idle held'),
      executions i task [] es ++ n.history⟩ := by
  have hends := (h.begins hw hb hg).step (.ends i (Function.update_self ..))
  simpa [Fleet.become] using hends

end

end EngineMigrate
