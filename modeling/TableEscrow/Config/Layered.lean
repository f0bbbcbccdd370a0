import TableEscrow.Config.Sections
import TableEscrow.Json.Overlay
import TableEscrow.Config.SecretGuard
import TableEscrow.Hash
import TableEscrow.Json.Printer
import TableEscrow.Yaml.Document
/-!
# Loading a configuration

The layers of a configuration are merged, the result is searched for secrets, and its canonical
text is hashed: two processes run the same configuration if they report the same hash.
-/

namespace TableEscrow

structure LayeredConfig where
  document : Json
  /-- The document without blanks, keys ascending. -/
  canonical : String
  /-- The SHA-256 digest of the canonical text. -/
  hash : String

namespace LayeredConfig

/-- The values of the layers, up to the first that is no YAML. -/
def parse (index : Nat) : List String → Except ConfigError (List Json)
  | [] => .ok []
  | text :: rest =>
    match Json.ofYaml? text with
    | some v => (parse (index + 1) rest).map (v :: ·)
    | none => .error (.invalidLayer index)

def ofDocument (document : Json) : LayeredConfig :=
  let canonical := document.compact
  ⟨document, canonical, String.join ((Hash.sha256 canonical.toUTF8.toList).map fun b => Text.hex 2 b.toNat)⟩

/-- Merges documents, refusing one that holds a secret. -/
def ofLayers (layers : List Json) : Except ConfigError LayeredConfig :=
  let document := Json.merge layers
  match document.findSecret? "" with
  | some (leaf, kind) => .error (.secretFound leaf kind)
  | none => .ok (ofDocument document)

def ofTexts (texts : List String) : Except ConfigError LayeredConfig := do ofLayers (← parse 0 texts)

/-- Reads all the files before any of them is parsed. -/
def ofFiles (read? : String → Option String) (paths : List String) : Except ConfigError LayeredConfig := do
  let texts ← paths.mapM fun path =>
    match read? path with
    | some text => .ok text
    | none => .error (.unreadable path)
  ofTexts texts

def config (c : LayeredConfig) : Except ConfigError Config := Config.ofDocument c.document

end LayeredConfig

end TableEscrow
