import TableEscrow.Yaml.Node
import TableEscrow.Yaml.Scalar
/-!
# YAML documents

The value a YAML text writes. Scalar keys are their text, and the last value of a key counts.
Collections are nested to a bounded depth, and aliases are followed a bounded number of times.
-/

namespace TableEscrow

namespace Yaml

structure Document where
  anchored : List (Nat × Node)
  /-- How often aliases may be followed. -/
  maxJumps : Nat

namespace Document

def maxDepth : Nat := 128

/-- Follows an alias, counting it. -/
def follow? (doc : Document) (n : Node) (jumps : Nat) : Option (Node × Nat) :=
  match n with
  | .alias number =>
    if jumps < doc.maxJumps then (doc.anchored.lookup number).map (·, jumps + 1) else none
  | n => some (n, jumps)

/-- The key a node is. -/
def key? (doc : Document) (n : Node) (jumps : Nat) : Option (String × Nat) := do
  match ← doc.follow? n jumps with
  | (.scalar _ _ _ text, jumps) => some (text, jumps)
  | _ => none

/-- A tag of the document's own. -/
def isLocal (tag : Option String) : Bool := tag.any (Text.startsWith "!")

/-- The value of a collection, its items and its members read by `inner`. -/
def collection? (doc : Document) (inner : Node → Nat → Option (Json × Nat)) (n : Node) (jumps : Nat) :
    Option (Json × Nat) :=
  match n with
  | .sequence _ tag items =>
    if isLocal tag then none
    else do
      let (values, jumps) ← items.foldlM (fun (values, jumps) item => do
        let (v, jumps) ← inner item jumps
        return (v :: values, jumps)) (([] : List Json), jumps)
      return (.array values.reverse, jumps)
  | .mapping _ tag entries =>
    if isLocal tag then none
    else do
      let (members, jumps) ← entries.foldlM (fun (members, jumps) (key, item) => do
        let (k, jumps) ← key? doc key jumps
        let (v, jumps) ← inner item jumps
        return (Keyed.insertInto k v members, jumps)) (([] : List (String × Json)), jumps)
      return (.object members, jumps)
  | _ => none

/-- The value of a node with `depth` more levels below it, and the aliases followed so far. -/
def value? (doc : Document) (depth : Nat) (n : Node) (jumps : Nat) : Option (Json × Nat) :=
  match depth, doc.follow? n jumps with
  | _, none => none
  | _, some (.scalar _ tag isPlain text, jumps) => (Scalar.value? tag isPlain text).map (·, jumps)
  | 0, some _ => none
  | depth + 1, some (n, jumps) => collection? doc (fun item jumps => value? doc depth item jumps) n jumps

end Document

end Yaml

/-- The value of a YAML text; an empty text is null. -/
def Json.ofYaml? (text : String) : Option Json := do
  match ← Yaml.Node.ofTokens? (← Yaml.Token.ofText? text) with
  | none => some .null
  | some root =>
    let doc : Yaml.Document := ⟨root.anchored.reverse, 100 * root.eventCount⟩
    (doc.value? Yaml.Document.maxDepth root 0).map (·.1)

end TableEscrow
