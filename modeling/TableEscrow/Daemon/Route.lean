import TableEscrow.Daemon.MediaType
import TableEscrow.Daemon.Service
import TableEscrow.Percent
/-!
# Routes

The daemon's five endpoints: what a request asks for, and what it is answered.
-/

namespace TableEscrow.Daemon

structure HttpRequest where
  method : String
  /-- The path, with a query after a question mark. -/
  target : String
  contentType : Option String
  body : String

/-- What a request asks for. -/
inductive Route where
  | health
  | status
  | scan
  | change (c : HandChange)
  /-- The event stream, of one table or of all. -/
  | stream (table : Option String)
  /-- Refused, with a status code. -/
  | refused (code : Nat)

structure HttpResponse where
  code : Nat
  body : Option Json
  deriving DecidableEq

namespace Route

/-- The table a query asks for; asking twice is refused. -/
def tableOf (query : List Char) : Route :=
  match (Percent.form query).filter (·.1 = "table") with
  | [] => .stream none
  | [(_, table)] => .stream (some table)
  | _ => .refused 400

/-- A change needs a JSON content type, a body that is JSON, and one that describes a change. -/
def changeOf (r : HttpRequest) : Route :=
  if r.contentType.any MediaType.isJson then
    match HandChange.decode (.ofStream r.body) with
    | .ok c => .change c
    | .error fault => .refused (if fault.inText then 400 else 422)
  else .refused 415

def ofRequest (r : HttpRequest) : Route :=
  let (path, query) := Text.cutAt '?' r.target.toList
  let reading (route : Route) : Route :=
    if r.method = "GET" || r.method = "HEAD" then route else .refused 405
  let writing (route : Route) : Route := if r.method = "POST" then route else .refused 405
  match String.ofList path with
  | "/v1/health" => reading .health
  | "/v1/status" => reading .status
  | "/v1/scan" => writing .scan
  | "/v1/hands/changes" => writing (changeOf r)
  | "/v1/stream" => reading (tableOf (query.getD []))
  | _ => .refused 404

end Route

def version : String := "0.0.1"

def health : Json :=
  .object [("ok", .bool true), ("service", .string "tk-daemon"), ("version", .string version)]

/-- The body of a failed pass or change. -/
def errorBody (message kind : String) : Json :=
  .object [("error", .string message), ("kind", .string kind)]

/-- The kind a failed pass is reported as. -/
def scanErrorKind : ReadError → String
  | .registry _ => "registry"
  | _ => "read"

namespace Service

variable {σ : Type}

/-- Answers a request. A stream is opened elsewhere, so only its status is given. An overflow ends
the request without an answer. -/
def respond (backend : Backend σ) (m : Moment) (startedAt : Instant) (uptime : Nat) (route : Route)
    (s : Service σ) : Except Overflow HttpResponse × Service σ :=
  match route with
  | .health => (.ok ⟨200, some health⟩, s)
  | .status => (.ok ⟨200, some (s.status.encode uptime)⟩, s)
  | .stream _ => (.ok ⟨200, none⟩, s)
  | .refused code => (.ok ⟨code, none⟩, s)
  | .scan =>
    match s.scan backend m startedAt with
    | (.ok report, s) => (.ok ⟨200, some report.encode⟩, s)
    | (.error (.read e), s) => (.ok ⟨502, some (errorBody e.message (scanErrorKind e))⟩, s)
    | (.error (.overflow o), s) => (.error o, s)
  | .change c =>
    match s.change backend c with
    | (.ok outcome, s) => (.ok ⟨200, some outcome.encode⟩, s)
    | (.error e, s) => (.ok ⟨502, some (errorBody e.message "publish")⟩, s)

end Service

/-- The answer to a request whose method wants no body. -/
def HttpResponse.seenBy (r : HttpResponse) (request : HttpRequest) : HttpResponse :=
  if request.method = "HEAD" then { r with body := none } else r

end TableEscrow.Daemon
