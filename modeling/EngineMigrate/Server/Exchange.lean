import EngineMigrate.Json.Value

/-!
Conversations with a server as data.  An exchange either is done or sends a request and goes on with
the reply, so that one program can be run against a script of replies, a model of a server, or among
the requests of other clients.
-/
namespace EngineMigrate

inductive Method where
  | get
  | post
deriving DecidableEq, Repr

structure Request where
  method : Method
  path : String
  body : Option Json.Value
deriving DecidableEq, Repr

structure Response where
  status : Nat
  body : ByteArray

instance : DecidableEq Response := fun a b =>
  have : Decidable (a.body = b.body) := ByteArray.instDecidableEq a.body b.body
  decidable_of_iff (a.status = b.status ∧ a.body = b.body) (by cases a; cases b; simp)

/-- Why a text is no URL. -/
inductive UrlFault where
  | emptyHost
  | internationalName
  | port
  | ipv4
  | ipv6
  | hostCharacter
  | relativeWithoutBase
  | relativeWithOpaqueBase
deriving DecidableEq, Repr

def UrlFault.message : UrlFault → String
  | .emptyHost => "empty host"
  | .internationalName => "invalid international domain name"
  | .port => "invalid port number"
  | .ipv4 => "invalid IPv4 address"
  | .ipv6 => "invalid IPv6 address"
  | .hostCharacter => "invalid domain character"
  | .relativeWithoutBase => "relative URL without a base"
  | .relativeWithOpaqueBase => "relative URL with a cannot-be-a-base base"

/-- Failures to get any response at all. -/
inductive SendFault where
  /-- No connection was made, or it broke. -/
  | connection
  | invalidUrl (text : String) (cause : UrlFault)
  | invalidHeader (name : String)
deriving DecidableEq, Repr

def SendFault.message : SendFault → String
  | .connection => "HTTP error: the request could not be sent"
  | .invalidUrl text cause => "Invalid URL " ++ text ++ ": " ++ cause.message
  | .invalidHeader name => "Invalid header " ++ name

abbrev Reply := Except SendFault Response

inductive Exchange (α : Type) : Type where
  | done (a : α)
  | send (request : Request) (next : Reply → Exchange α)

namespace Exchange

variable {α β σ : Type}

protected def bind (x : Exchange α) (f : α → Exchange β) : Exchange β :=
  match x with
  | .done a => f a
  | .send request next => .send request fun reply => (next reply).bind f

instance : Monad Exchange where
  pure := .done
  bind := Exchange.bind

@[simp] theorem done_bind (a : α) (f : α → Exchange β) : (Exchange.done a >>= f) = f a := rfl

@[simp] theorem send_bind (r : Request) (k : Reply → Exchange α) (f : α → Exchange β) :
    (Exchange.send r k >>= f) = .send r fun reply => k reply >>= f := rfl

@[simp] theorem pure_eq_done (a : α) : (pure a : Exchange α) = .done a := rfl

theorem bind_done (x : Exchange α) : x.bind .done = x := by
  induction x with
  | done a => rfl
  | send r k ih => exact congrArg (Exchange.send r) (funext ih)

theorem bind_assoc {γ : Type} (x : Exchange α) (f : α → Exchange β) (g : β → Exchange γ) :
    (x.bind f).bind g = x.bind fun a => (f a).bind g := by
  induction x with
  | done a => rfl
  | send r k ih => exact congrArg (Exchange.send r) (funext ih)

instance : LawfulMonad Exchange := LawfulMonad.mk' Exchange bind_done (fun _ _ => rfl) bind_assoc

def ask (request : Request) : Exchange Reply := .send request .done

/-- Runs an exchange against a server: `answer` gives the reply to a request and the server after it. -/
def run (answer : σ → Request → Reply × σ) : Exchange α → σ → α × σ
  | .done a, s => (a, s)
  | .send request next, s =>
    let (reply, s) := answer s request
    (next reply).run answer s

@[simp] theorem run_done (answer : σ → Request → Reply × σ) (a : α) (s : σ) :
    (Exchange.done a).run answer s = (a, s) := rfl

@[simp] theorem run_send (answer : σ → Request → Reply × σ) (r : Request)
    (k : Reply → Exchange α) (s : σ) :
    (Exchange.send r k).run answer s = (k (answer s r).1).run answer (answer s r).2 := rfl

end Exchange

/-- A script of replies, and the requests sent so far, the latest first. -/
structure Script where
  replies : List Reply
  sent : List Request

namespace Script

def exhausted : SendFault := .invalidHeader "no response left"

def answer (s : Script) (request : Request) : Reply × Script :=
  match s.replies with
  | [] => (.error exhausted, { s with sent := request :: s.sent })
  | reply :: rest => (reply, ⟨rest, request :: s.sent⟩)

def run {α : Type} (x : Exchange α) (s : Script) : α × Script := x.run answer s

end Script

abbrev Attempt (ε : Type) := ExceptT ε Exchange

/-- A failing exchange over a state, which keeps what the state was when it failed. -/
abbrev Action (σ ε : Type) := ExceptT ε (StateT σ Exchange)

namespace Attempt

variable {α ε ε' : Type}

def post (path : String) (body : Json.Value) : Attempt SendFault Response :=
  ExceptT.mk (Exchange.ask ⟨.post, path, some body⟩)

def get (path : String) : Attempt SendFault Response :=
  ExceptT.mk (Exchange.ask ⟨.get, path, none⟩)

def ofExcept (f : ε → ε') : Except ε α → Attempt ε' α
  | .ok a => pure a
  | .error e => throw (f e)

def within (f : ε → ε') (x : Attempt ε α) : Attempt ε' α := ExceptT.adapt f x

end Attempt

namespace Action

variable {α σ τ ε ε' : Type}

def ofAttempt (f : ε → ε') (x : Attempt ε α) : Action σ ε' α :=
  fun s => do
    let r ← ExceptT.run x
    return (r.mapError f, s)

def ofExcept (f : ε → ε') : Except ε α → Action σ ε' α
  | .ok a => pure a
  | .error e => throw (f e)

def focus (view : σ → τ) (update : σ → τ → σ) (f : ε → ε') (x : Action τ ε α) : Action σ ε' α :=
  fun s => do
    let (r, t) ← x (view s)
    return (r.mapError f, update s t)

end Action

end EngineMigrate
