import TableEscrow.Json.Decode
import TableEscrow.Url
/-!
# Exchanges over HTTP

A service is asked for JSON at paths below its base. An exchange has four ends: the call cannot be
made, nobody answers it, the answer is not a success, or the answer is read as a typed value. Which
it is depends on the answer alone, so `read` is a function of it.
-/

namespace TableEscrow.Gateway

/-- A request as it goes out. -/
structure Call where
  method : String
  url : Url
  /-- The key that is sent along. -/
  key : Option String
  body : Option Json
  deriving DecidableEq

structure Reply where
  status : Nat
  body : String
  deriving DecidableEq

namespace Reply

def isSuccess (r : Reply) : Bool := 200 ≤ r.status && r.status < 300

/-- A reply of some kinds has no body, whatever follows it. -/
def text (r : Reply) : String := if r.status = 204 || r.status = 304 then "" else r.body

end Reply

/-- Why a call got no reply. -/
inductive CallError where
  /-- There is no such URL, or the key cannot be sent. -/
  | malformed
  /-- The URL names no host. -/
  | noHost (url : Url)
  | unanswered (url : Url)
  deriving DecidableEq

namespace CallError

def message : CallError → String
  | .malformed => "builder error"
  | .noHost url => s!"builder error for url ({url.render})"
  | .unanswered url => s!"error sending request for url ({url.render})"

end CallError

/-- Why an exchange gave no value. -/
inductive ExchangeError where
  | call (e : CallError)
  | refused (status : Nat) (body : String)
  | unreadable
  deriving DecidableEq

/-- What an unreadable body is reported as. -/
def unreadableBody : String := "error decoding response body"

/-- The value a reply carries. -/
def read {α : Type} (decode : Decoder α) : Except CallError Reply → Except ExchangeError α
  | .error e => .error (.call e)
  | .ok r =>
    if r.isSuccess then
      match decode (Draft.ofText r.text) with
      | .ok a => .ok a
      | .error _ => .error .unreadable
    else .error (.refused r.status r.text)

/-- A network answers calls, and may change as it does. -/
structure Network (σ : Type) where
  send : Call → σ → Option Reply × σ

/-- A service and the key it wants. -/
structure Service where
  base : String
  key : Option String
  deriving DecidableEq

namespace Service

/-- The base without slashes at its end, one slash, and the path without slashes at its start. -/
def address (s : Service) (path : String) : String :=
  let isSlash (c : Char) : Bool := c == '/'
  String.ofList ((s.base.toList.reverse.dropWhile isSlash).reverse ++
    '/' :: path.toList.dropWhile isSlash)

/-- What a header can carry: no control character but the tab. -/
def isHeaderText (s : String) : Bool :=
  s.toList.all fun c => c == '\t' || (0x20 ≤ c.toNat && c.toNat != 0x7F)

def call (s : Service) (method path : String) (body : Option Json) : Except CallError Call :=
  match Url.ofText? (s.address path) with
  | none => .error .malformed
  | some url =>
    if !url.hasHost then .error (.noHost url)
    else if s.key.all isHeaderText then .ok ⟨method, url, s.key, body⟩
    else .error .malformed

variable {σ : Type}

def exchange (s : Service) (network : Network σ) (method path : String) (body : Option Json) (state : σ) :
    Except CallError Reply × σ :=
  match s.call method path body with
  | .error e => (.error e, state)
  | .ok call =>
    match network.send call state with
    | (some reply, state) => (.ok reply, state)
    | (none, state) => (.error (.unanswered call.url), state)

end Service

end TableEscrow.Gateway
