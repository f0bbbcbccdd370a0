import TableEscrow.Gateway.Exchange
/-!
# The scripted server

A web server that answers from a script and keeps what it was asked. A request it has no reply for
is not found, and a reply with status 0 closes the connection.
-/

namespace TableEscrow

structure Server where
  port : Nat
  /-- Replies by method and path. -/
  replies : Keyed Gateway.Reply
  seen : List Gateway.Call

namespace Server

def url (s : Server) : String := s!"http://127.0.0.1:{s.port}"

/-- The line a call asks with. -/
def line (c : Gateway.Call) : String := s!"{c.method} {c.url.target}"

def isReachedBy (s : Server) (c : Gateway.Call) : Bool :=
  c.url.scheme == "http" && c.url.host == some "127.0.0.1" && c.url.port == some s.port

def reply? (s : Server) (c : Gateway.Call) : Option Gateway.Reply :=
  match s.replies.get? (line c) with
  | none => some ⟨404, ""⟩
  | some r => if r.status = 0 then none else some r

def network : Gateway.Network Server where
  send c s := if s.isReachedBy c then (s.reply? c, { s with seen := s.seen ++ [c] }) else (none, s)

end Server

end TableEscrow
