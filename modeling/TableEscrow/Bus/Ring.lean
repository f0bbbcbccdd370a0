import TableEscrow.Bus.Sink
/-!
# The bus

The bus keeps the newest messages, as many as it has slots. Each listener has a place of its own in
the sequence of all messages; one that has fallen out of what is kept is told how many it missed,
once, and goes on with the oldest kept.

`kept_length_send_le`: never more than the slots are kept.
-/

namespace TableEscrow

structure Bus where
  slots : Nat
  /-- How many messages were ever sent. -/
  sent : Nat
  /-- The newest messages, oldest first. -/
  kept : List Message

/-- A listener's place: the number of the next message it asks for. -/
structure Receiver where
  next : Nat
  deriving DecidableEq

inductive Reception where
  | message (m : Message)
  | empty
  | lagged (missed : Nat)
  deriving DecidableEq

namespace Bus

/-- A bus of at least the capacity asked for: the next power of two, and at least one. -/
def ofCapacity (capacity : Nat) : Bus := ⟨(max capacity 1).nextPowerOfTwo, 0, []⟩

def send (m : Message) (b : Bus) : Bus :=
  let kept := b.kept ++ [m]
  { b with sent := b.sent + 1, kept := kept.drop (kept.length - b.slots) }

def log (level text : String) (b : Bus) : Bus := b.send (.logLine level text)

/-- A new listener receives what is sent from now on. -/
def subscribe (b : Bus) : Receiver := ⟨b.sent⟩

/-- The number of the oldest kept message. -/
def oldest (b : Bus) : Nat := b.sent - b.kept.length

def receive (b : Bus) (r : Receiver) : Reception × Receiver :=
  if r.next < b.oldest then (.lagged (b.oldest - r.next), ⟨b.oldest⟩)
  else
    match b.kept[r.next - b.oldest]? with
    | some m => (.message m, ⟨r.next + 1⟩)
    | none => (.empty, r)

/-- Everything a listener can receive now. -/
def drain (b : Bus) (r : Receiver) : List Reception × Receiver :=
  let missed := if r.next < b.oldest then [.lagged (b.oldest - r.next)] else []
  let start := max r.next b.oldest
  let messages := b.kept.drop (start - b.oldest)
  (missed ++ messages.map .message, ⟨start + messages.length⟩)

/-- The bus refuses nothing. -/
instance : Sink Bus where
  offer d b :=
    match d with
    | .control envelope => (.ok (), b.send (.control envelope))
    | .live update => (.ok (), b.send (.live update))

theorem kept_length_send_le (m : Message) (b : Bus) : (b.send m).kept.length ≤ b.slots := by
  simp only [send, List.length_drop]
  omega

end Bus

end TableEscrow
