import EngineMigrate.Server.Response

/-!
Conversations as runs.  The other side of a conversation says which replies a request may get and what
that does to it.  Main statements: what holds of every way a conversation may go holds of each run, and
it is found step by step along the exchange.
-/
namespace EngineMigrate

/-- Whether the request was executed, as its reply tells. -/
def Reply.isAccepted : Reply → Bool
  | .ok response => response.isSuccess
  | .error _ => false

/-- A request and the reply it got. -/
structure Turn where
  request : Request
  reply : Reply

def Turn.isAccepted (t : Turn) : Bool := t.reply.isAccepted

/-- The other side of a conversation, in some state: the requests that it admits, the replies that it may
give to one, and its state afterwards. -/
structure Peer (κ : Type) where
  admits : κ → Request → Prop
  answers : κ → Request → Reply → κ → Prop

/-- Replies to anything with anything, and remembers it all in order. -/
def Peer.log : Peer (List Turn) where
  admits _ _ := True
  answers log request reply log' := log' = log ++ [⟨request, reply⟩]

theorem Peer.admits_log (k : List Turn) (q : Request) : Peer.log.admits k q := trivial

namespace Exchange

variable {α β κ : Type} {p : Peer κ}

theorem send_congr {q : Request} {f g : Reply → Exchange α} (h : ∀ reply, f reply = g reply) :
    Exchange.send q f = .send q g := by
  have hfg : f = g := by
    funext reply
    exact h reply
  rw [hfg]

/-- The exchange with a peer in one state can end with a value and the peer in another. -/
inductive Leads (p : Peer κ) : Exchange α → κ → α → κ → Prop where
  | done (a : α) (k : κ) : Leads p (.done a) k a k
  | send {request : Request} {next : Reply → Exchange α} {reply : Reply} {a : α} {k k' k'' : κ} :
    p.answers k request reply k' → Leads p (next reply) k' a k'' → Leads p (.send request next) k a k''

/-- Whatever the peer replies, it admits every request, and the end is as `post` says. -/
def Always (p : Peer κ) (post : α → κ → Prop) : Exchange α → κ → Prop
  | .done a, k => post a k
  | .send request next, k =>
    p.admits k request ∧
      ∀ reply k', p.answers k request reply k' → (next reply).Always p post k'

@[simp] theorem always_done {post : α → κ → Prop} {a : α} {k : κ} :
    (Exchange.done a).Always p post k ↔ post a k := Iff.rfl

@[simp] theorem always_send {post : α → κ → Prop} {q : Request} {next : Reply → Exchange α} {k : κ} :
    (Exchange.send q next).Always p post k ↔
      p.admits k q ∧ ∀ reply k', p.answers k q reply k' → (next reply).Always p post k' := Iff.rfl

@[simp] theorem always_bind {x : Exchange α} {f : α → Exchange β} {post : β → κ → Prop} {k : κ} :
    (x >>= f).Always p post k ↔ x.Always p (fun a k' => (f a).Always p post k') k := by
  induction x generalizing k with
  | done a => rfl
  | send q next ih => simp only [send_bind, always_send, ih]

theorem Always.mono {x : Exchange α} {post post' : α → κ → Prop} {k : κ} (h : x.Always p post k)
    (hp : ∀ a k', post a k' → post' a k') : x.Always p post' k := by
  induction x generalizing k with
  | done a => exact hp a k h
  | send q next ih => exact ⟨h.1, fun reply k' hr => ih reply (h.2 reply k' hr)⟩

theorem Always.bind {x : Exchange α} {f : α → Exchange β} {post : α → κ → Prop} {post' : β → κ → Prop}
    {k : κ} (h : x.Always p post k) (hf : ∀ a k', post a k' → (f a).Always p post' k') :
    (x >>= f).Always p post' k :=
  always_bind.2 (h.mono hf)

theorem Always.of_leads {x : Exchange α} {post : α → κ → Prop} {a : α} {k k' : κ}
    (h : x.Always p post k) (hx : x.Leads p k a k') : post a k' := by
  induction hx with
  | done a k => exact h
  | send hr _ ih => exact ih (h.2 _ _ hr)

theorem Always.of_peer {p' : Peer κ} {x : Exchange α} {post : α → κ → Prop} {k : κ}
    (h : x.Always p post k) (hadmits : ∀ k q, p.admits k q → p'.admits k q)
    (hanswers : ∀ k q reply k', p'.answers k q reply k' → p.answers k q reply k') : x.Always p' post k := by
  induction x generalizing k with
  | done a => exact h
  | send q next ih =>
    exact ⟨hadmits k q h.1, fun reply k' hr => ih reply (h.2 reply k' (hanswers k q reply k' hr))⟩

theorem Always.of_admits {p' : Peer κ} {x : Exchange α} {post : α → κ → Prop} {k : κ}
    (h : x.Always p post k) (hadmits : ∀ k q, p.admits k q → p'.admits k q)
    (hanswers : p'.answers = p.answers) : x.Always p' post k :=
  h.of_peer hadmits fun _ _ _ _ hr => hanswers ▸ hr

/-- What is as it was after everything that a peer admits is so at the end. -/
theorem Always.same {x : Exchange α} {post : α → κ → Prop} {k : κ} (h : x.Always p post k)
    (hsame : ∀ k q reply k', p.admits k q → p.answers k q reply k' → k' = k) :
    x.Always p (fun a k' => post a k' ∧ k' = k) k := by
  induction x with
  | done a => exact ⟨h, rfl⟩
  | send q next ih =>
    refine ⟨h.1, fun reply k' hr => ?_⟩
    have hnext := h.2 reply k' hr
    obtain rfl := hsame k q reply k' h.1 hr
    exact ih reply hnext

theorem Leads.bind {x : Exchange α} {f : α → Exchange β} {a : α} {b : β} {k k' k'' : κ}
    (h : x.Leads p k a k') (hf : (f a).Leads p k' b k'') : (x >>= f).Leads p k b k'' := by
  induction h with
  | done a k => exact hf
  | send hr _ ih => exact .send hr (ih hf)

/-- The exchange can go as the log tells and end with the value. -/
def Runs : Exchange α → List Turn → α → Prop
  | .done a, log, b => log = [] ∧ a = b
  | .send request next, log, b =>
    ∃ reply rest, log = ⟨request, reply⟩ :: rest ∧ (next reply).Runs rest b

@[simp] theorem runs_done {a b : α} {log : List Turn} :
    (Exchange.done a).Runs log b ↔ log = [] ∧ a = b := Iff.rfl

theorem Runs.cons {q : Request} {next : Reply → Exchange α} {reply : Reply} {rest : List Turn} {a : α}
    (h : (next reply).Runs rest a) : (Exchange.send q next).Runs (⟨q, reply⟩ :: rest) a :=
  ⟨reply, rest, rfl, h⟩

theorem runs_bind {x : Exchange α} {f : α → Exchange β} {log : List Turn} {b : β} :
    (x >>= f).Runs log b ↔ ∃ a first rest, log = first ++ rest ∧ x.Runs first a ∧ (f a).Runs rest b := by
  induction x generalizing log with
  | done a =>
    constructor
    · intro h
      exact ⟨a, [], log, rfl, ⟨rfl, rfl⟩, h⟩
    · rintro ⟨_, _, rest, rfl, ⟨rfl, rfl⟩, h⟩
      exact h
  | send q next ih =>
    constructor
    · rintro ⟨reply, log, rfl, h⟩
      obtain ⟨a, first, rest, rfl, hx, hf⟩ := (ih reply).1 h
      exact ⟨a, _, rest, rfl, ⟨reply, first, rfl, hx⟩, hf⟩
    · rintro ⟨a, _, rest, rfl, ⟨reply, first, rfl, hx⟩, hf⟩
      exact ⟨reply, first ++ rest, rfl, (ih reply).2 ⟨a, first, rest, rfl, hx, hf⟩⟩

theorem runs_append_bind {x : Exchange α} {f : α → Exchange β} {first rest : List Turn} {a : α} {b : β}
    (h : x.Runs first a) : (x >>= f).Runs (first ++ rest) b ↔ (f a).Runs rest b := by
  induction x generalizing first with
  | done c =>
    obtain ⟨rfl, rfl⟩ := h
    rfl
  | send q next ih =>
    obtain ⟨reply, first, rfl, h⟩ := h
    rw [send_bind, ← ih reply h]
    constructor
    · rintro ⟨reply', rest', he, hr⟩
      cases he
      exact hr
    · intro hr
      exact ⟨reply, first ++ rest, rfl, hr⟩

theorem Runs.leads {x : Exchange α} {log : List Turn} {a : α} (h : x.Runs log a) (k : List Turn) :
    x.Leads .log k a (k ++ log) := by
  induction x generalizing log k with
  | done b =>
    obtain ⟨rfl, rfl⟩ := h
    rw [List.append_nil]
    exact .done b k
  | send q next ih =>
    obtain ⟨reply, rest, rfl, hr⟩ := h
    have hnext := ih reply hr (k ++ [⟨q, reply⟩])
    rw [List.append_assoc] at hnext
    exact .send rfl hnext

theorem Leads.exists_runs {x : Exchange α} {a : α} {k k' : κ} (h : x.Leads p k a k') :
    ∃ log, x.Runs log a := by
  induction h with
  | done a k => exact ⟨[], rfl, rfl⟩
  | send _ _ ih =>
    obtain ⟨log, hlog⟩ := ih
    exact ⟨_, .cons hlog⟩

/-- Nothing is asked of an exchange by a peer that admits every request. -/
theorem always_true (hp : ∀ k q, p.admits k q) (x : Exchange α) (k : κ) :
    x.Always p (fun _ _ => True) k := by
  induction x generalizing k with
  | done a => trivial
  | send q next ih => exact ⟨hp k q, fun reply k' _ => ih reply k'⟩

/-- What always holds, with the log kept, holds of a run and its log. -/
theorem Always.of_runs {x : Exchange α} {post : α → List Turn → Prop} {log : List Turn} {a : α}
    (h : x.Always .log post []) (hx : x.Runs log a) : post a log := by
  simpa using h.of_leads (hx.leads [])

end Exchange

@[simp] theorem mapError_ok {ε ε' α : Type} (f : ε → ε') (a : α) :
    (Except.ok a).mapError f = .ok a := rfl

@[simp] theorem mapError_error {ε ε' α : Type} (f : ε → ε') (e : ε) :
    (Except.error e : Except ε α).mapError f = .error (f e) := rfl

@[simp] theorem mapError_id {ε α : Type} (r : Except ε α) : r.mapError id = r := by
  cases r <;> rfl

theorem eq_ok_of_toOption {α ε : Type} {x : Except ε α} {a : α} (h : x.toOption = some a) :
    x = .ok a := by
  cases x with
  | error e => cases h
  | ok b =>
    cases h
    rfl

namespace Attempt

variable {α β ε ε' : Type}

@[simp] theorem run_bind (x : Attempt ε α) (f : α → Attempt ε β) :
    ExceptT.run (x >>= f) = ExceptT.run x >>= fun r => match r with
      | .ok a => ExceptT.run (f a)
      | .error e => .done (.error e) := by
  show Exchange.bind (ExceptT.run x) _ = Exchange.bind (ExceptT.run x) _
  refine congrArg _ (funext fun r => ?_)
  cases r <;> rfl

@[simp] theorem run_get (path : String) : ExceptT.run (get path) = .send ⟨.get, path, none⟩ .done := rfl

@[simp] theorem run_post (path : String) (body : Json.Value) :
    ExceptT.run (post path body) = .send ⟨.post, path, some body⟩ .done := rfl

@[simp] theorem run_within (f : ε → ε') (x : Attempt ε α) :
    ExceptT.run (x.within f) = ExceptT.run x >>= fun r => .done (r.mapError f) := rfl

@[simp] theorem run_ofExcept (f : ε → ε') (x : Except ε α) :
    ExceptT.run (ofExcept f x) = .done (x.mapError f) := by
  cases x <;> rfl

@[simp] theorem run_pure (a : α) : ExceptT.run (pure a : Attempt ε α) = .done (.ok a) := rfl

@[simp] theorem run_throw (e : ε) : ExceptT.run (throw e : Attempt ε α) = .done (.error e) := rfl

end Attempt

namespace Action

variable {α β σ τ ε ε' : Type}

@[simp] theorem bind_apply (x : Action σ ε α) (f : α → Action σ ε β) (s : σ) :
    (x >>= f) s = x s >>= fun r => match r.1 with
      | .ok a => f a r.2
      | .error e => .done (.error e, r.2) := by
  show Exchange.bind (x s) _ = Exchange.bind (x s) _
  refine congrArg _ (funext fun r => ?_)
  obtain ⟨r, s'⟩ := r
  cases r <;> rfl

@[simp] theorem pure_apply (a : α) (s : σ) : (pure a : Action σ ε α) s = .done (.ok a, s) := rfl

@[simp] theorem throw_apply (e : ε) (s : σ) :
    (throw e : Action σ ε α) s = .done (.error e, s) := rfl

@[simp] theorem get_apply (s : σ) : (get : Action σ ε σ) s = .done (.ok s, s) := rfl

@[simp] theorem set_apply (s t : σ) : (set t : Action σ ε PUnit) s = .done (.ok ⟨⟩, t) := rfl

@[simp] theorem modify_apply (f : σ → σ) (s : σ) :
    (modify f : Action σ ε PUnit) s = .done (.ok ⟨⟩, f s) := rfl

@[simp] theorem ofAttempt_apply (f : ε → ε') (x : Attempt ε α) (s : σ) :
    (ofAttempt f x : Action σ ε' α) s = ExceptT.run x >>= fun r => .done (r.mapError f, s) := rfl

@[simp] theorem ofExcept_apply (f : ε → ε') (x : Except ε α) (s : σ) :
    (ofExcept f x : Action σ ε' α) s = .done (x.mapError f, s) := by
  cases x <;> rfl

@[simp] theorem focus_apply (view : σ → τ) (update : σ → τ → σ) (f : ε → ε') (x : Action τ ε α)
    (s : σ) :
    focus view update f x s = x (view s) >>= fun r => .done (r.1.mapError f, update s r.2) := rfl

variable {κ : Type} {p : Peer κ} {I : σ → κ → Prop}

/-- However the action ends, the state and the peer are as `I` says if they were so before. -/
def Maintains (p : Peer κ) (I : σ → κ → Prop) (x : Action σ ε α) : Prop :=
  ∀ s k, I s k → (x s).Always p (fun r k' => I r.2 k') k

theorem maintains_pure (a : α) : Maintains p I (pure a : Action σ ε α) := fun _ _ h => h

theorem maintains_get : Maintains p I (get : Action σ ε σ) := fun _ _ h => h

theorem maintains_ofExcept (f : ε → ε') (x : Except ε α) :
    Maintains p I (ofExcept f x : Action σ ε' α) := by
  intro s k h
  simpa using h

theorem Maintains.bind {x : Action σ ε α} {f : α → Action σ ε β} (hx : Maintains p I x)
    (hf : ∀ a, Maintains p I (f a)) : Maintains p I (x >>= f) := by
  intro s k h
  rw [bind_apply]
  apply (hx s k h).bind
  intro r k' hr
  obtain ⟨r, s'⟩ := r
  cases r with
  | ok a => exact hf a s' k' hr
  | error e => exact hr

theorem Maintains.focus {view : σ → τ} {update : σ → τ → σ} {f : ε → ε'} {x : Action τ ε α}
    {J : σ → τ → κ → Prop} (hJ : ∀ s k, I s k → J s (view s) k)
    (hI : ∀ s t k, J s t k → I (update s t) k) (hx : ∀ s, Maintains p (J s) x) :
    Maintains p I (focus view update f x) := by
  intro s k h
  rw [focus_apply]
  apply (hx s (view s) k (hJ s k h)).bind
  intro r k' hr
  exact hI s r.2 k' hr

end Action

end EngineMigrate
