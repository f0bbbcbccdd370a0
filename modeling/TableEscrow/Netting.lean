import TableEscrow.Json.Decode
/-!
# Settlements

A settlement is one flat object: a signature for each signer's address, beside two reserved names
for the final balances and the oracle's signature over them. `Netting` holds the three apart.
-/

namespace TableEscrow

structure Netting where
  /-- The settlement signature of each signer's address. -/
  signatures : Keyed String
  finalBalances : Option Json
  oracleSignature : Option String
  deriving DecidableEq

namespace Netting

def balancesName : String := "newBalances"

def oracleName : String := "nettingSig"

def empty : Netting := ⟨.empty, none, none⟩

def ofBalances (balances : Json) (oracleSignature : String) : Netting :=
  ⟨.empty, some balances, some oracleSignature⟩

def sign (n : Netting) (signer signature : String) : Netting :=
  { n with signatures := n.signatures.insert signer signature }

def signerCount (n : Netting) : Nat := n.signatures.size

/-- Every active seat has signed. -/
def isComplete (n : Netting) (active : UInt64) : Bool := active.toNat ≤ n.signerCount

/-- Adds one member of the flat object. -/
def addMember (n : Netting) (name : String) (value : Json) : Except Fault Netting :=
  if name = balancesName then .ok { n with finalBalances := some value }
  else if name = oracleName then
    match value with
    | .string signature => .ok { n with oracleSignature := some signature }
    | .null => .ok n
    | _ => .error (.signature name)
  else
    match value with
    | .string signature => .ok (n.sign name signature)
    | _ => .error (.signature name)

/-- Members are taken in ascending order, so the first bad one is named. -/
def ofMembers (members : List (String × Json)) : Except Fault Netting :=
  members.foldlM (fun n (name, value) => n.addMember name value) empty

/-- The members of the flat object; the reserved names win over signers of the same name. -/
def members (n : Netting) : List (String × Json) :=
  let signed := n.signatures.entries.map fun (signer, signature) => (signer, Json.string signature)
  let withBalances :=
    match n.finalBalances with
    | some balances => Keyed.insertInto balancesName balances signed
    | none => signed
  match n.oracleSignature with
  | some signature => Keyed.insertInto oracleName (.string signature) withBalances
  | none => withBalances

def decode : Decoder Netting := fun d => do ofMembers (← Decode.members d)

def encode (n : Netting) : Json := .object n.members

end Netting

end TableEscrow
