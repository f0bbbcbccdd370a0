import TableEscrow.Reconcile.Request
import TableEscrow.Store.Statement
/-!
# The hand store

Hands by table and number, each with its whole document. The last hand of a table is the one with
the highest number.
-/

namespace TableEscrow.Store.Hands

/-- The hand a stored document describes. -/
def ofDocument (document : Json) : Except StoreError Hand :=
  (Hand.decode (.ofJson document)).mapError .undecodable

/-- The row of a hand; hand numbers beyond a signed word have none. -/
def row? (h : Hand) : Option HandRow :=
  (Word.signed? h.id.toNat).map fun hand => ⟨h.table, hand, h.state, h.changed, h.encode.sorted⟩

variable {σ : Type}

def last (d : Database σ) (table : String) (s : σ) : Except StoreError (Option Hand) × σ :=
  match d.run (.lastHand table) s with
  | (.ok (some document), s) => ((ofDocument document).map some, s)
  | (.ok none, s) => (.ok none, s)
  | (.error e, s) => (.error e, s)

/-- The answer of the store to a pass. -/
def read (d : Database σ) (table : String) (s : σ) : Except ReadError (Option Hand) × σ :=
  let (result, s) := last d table s
  (result.mapError fun e => .store table e.chain, s)

/-- Writes a hand. A hand that was not written because a later change is there is an error. -/
def put (d : Database σ) (h : Hand) (s : σ) : Except StoreError Unit × σ :=
  match row? h with
  | none => (.error .handOutOfRange, s)
  | some row =>
    match d.run (.putHand row) s with
    | (.ok 0, s) => (.error (.stale row), s)
    | (.ok _, s) => (.ok (), s)
    | (.error e, s) => (.error e, s)

end TableEscrow.Store.Hands
