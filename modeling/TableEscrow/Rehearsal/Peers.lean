import TableEscrow.Rehearsal.Server
import TableEscrow.Store.Statement
/-!
# Scripted peers

A database without data, which answers each kind of statement as its script says and keeps what it
was sent, and beside it a web server, if there is one.
-/

namespace TableEscrow

/-- What each kind of statement is answered. -/
structure DatabaseScript where
  lastHand : Except String (Option Json)
  /-- The rows a write affects. -/
  written : Except String Nat
  enqueued : Except String Unit
  recent : Except String (List Store.OutboxRow)
  count : Except String (Option Int64)
  ping : Except String (Option Int32)
  tables : Except String (List String)
  applied : Except String (List Store.Applied)
  migrated : Except String Unit

namespace DatabaseScript

def answer (d : DatabaseScript) : (s : Store.Statement) → Except String s.Reply
  | .lastHand _ => d.lastHand
  | .putHand _ => d.written
  | .enqueue _ => d.enqueued
  | .recent _ _ => d.recent
  | .count _ => d.count
  | .ping => d.ping
  | .tableExists name => d.tables.map fun names => some (names.contains name)
  | .applied => d.applied
  | .migrate _ => d.migrated

end DatabaseScript

structure Peers where
  server : Option Server
  script : DatabaseScript
  /-- The statements sent, the list of migrations left out. -/
  sent : List Store.Statement

namespace Peers

def network : Gateway.Network Peers where
  send c p :=
    match p.server with
    | none => (none, p)
    | some server =>
      let (reply, server) := Server.network.send c server
      (reply, { p with server := some server })

def database : Store.Database Peers where
  answer s p := (p.script.answer s, if s = .applied then p else { p with sent := p.sent ++ [s] })

end Peers

end TableEscrow
