import TableEscrow.Reconcile.Scan
/-!
# The stage

A contract, a registry and a hand store held in memory, in front of any sink. Tables can be told to
fail.
-/

namespace TableEscrow

structure Stage (σ : Type) where
  /-- The counters and seats of each registered table. -/
  chain : Keyed (NettingStatus × List ChainSeat)
  failingChain : List String
  registryDown : Bool
  /-- Contract reads made so far. -/
  reads : Nat
  hands : Keyed Hand
  failingHands : List String
  publisher : Publisher σ

namespace Stage

variable {σ : Type}

def empty (publisher : Publisher σ) : Stage σ :=
  ⟨.empty, [], false, 0, .empty, [], publisher⟩

def setTable (table : String) (status : NettingStatus) (seats : List ChainSeat) (s : Stage σ) : Stage σ :=
  { s with chain := s.chain.insert table (status, seats) }

/-- Sets the counters of a table and leaves its seats. -/
def setStatus (table : String) (status : NettingStatus) (s : Stage σ) : Stage σ :=
  s.setTable table status (((s.chain.get? table).map (·.2)).getD [])

def failChain (table : String) (s : Stage σ) : Stage σ :=
  { s with failingChain := table :: s.failingChain }

def failHands (table : String) (s : Stage σ) : Stage σ :=
  { s with failingHands := table :: s.failingHands }

def takeRegistryDown (s : Stage σ) : Stage σ := { s with registryDown := true }

/-- Replaces the last hand of a table. -/
def putHand (h : Hand) (s : Stage σ) : Stage σ := { s with hands := s.hands.insert h.table h }

/-- What the contract answers for a table. -/
def chainAnswer {α : Type} (s : Stage σ) (table : String) (call : ChainCall)
    (read : NettingStatus × List ChainSeat → α) : Except ReadError α :=
  if s.failingChain.contains table then .error (.chain table call "execution reverted")
  else
    match s.chain.get? table with
    | some entry => .ok (read entry)
    | none => .error (.chain table call "unknown table")

def handAnswer (s : Stage σ) (table : String) : Except ReadError (Option Hand) :=
  if s.failingHands.contains table then .error (.store table "connection reset")
  else .ok (s.hands.get? table)

def registryAnswer (s : Stage σ) : Except ReadError (List String) :=
  if s.registryDown then .error (.registry "factory call reverted") else .ok s.chain.names

/-- Counts a read of the contract. -/
def counting {α : Type} (a : α) (s : Stage σ) : α × Stage σ := (a, { s with reads := s.reads + 1 })

variable [Sink σ]

def reply (table : String) (r : Request) (s : Stage σ) : r.Reply × Stage σ :=
  match r with
  | .lastHandNetted => s.counting (s.chainAnswer table .lastHandNetted (·.1.lastHandNetted))
  | .requestedHand => s.counting (s.chainAnswer table .requestedHand (·.1.requestedHand))
  | .requestTime => s.counting (s.chainAnswer table .requestTime (·.1.requestTime))
  | .lineup => s.counting (s.chainAnswer table .lineup fun e => ⟨e.1.lastHandNetted, e.2⟩)
  | .lastHand => (s.handAnswer table, s)
  | .publish e =>
    let (result, publisher) := s.publisher.publish e
    (result, { s with publisher })

def world : World (Stage σ) where
  tables s := (s.registryAnswer, s)
  reply := reply

end Stage

end TableEscrow
