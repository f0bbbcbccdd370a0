/-!
# Configuration errors

Everything that can be wrong with a configuration, and the texts it is reported in.
-/

namespace TableEscrow

/-- The process that reads a configuration. -/
inductive Role where
  | daemon
  | cli
  deriving DecidableEq, Repr

namespace Role

def name : Role → String
  | .daemon => "DAEMON"
  | .cli => "CLI"

/-- Whether a role reads a section. A single pass needs no bus and listens nowhere. -/
def reads (role : Role) (sectionName : String) : Bool :=
  match role with
  | .daemon => true
  | .cli => sectionName != "bus" && sectionName != "daemon"

end Role

/-- A text that looks like a credential. -/
inductive SecretKind where
  | databaseUrl
  | pem
  | privateKey
  | apiKey
  deriving DecidableEq, Repr

namespace SecretKind

def name : SecretKind → String
  | .databaseUrl => "database_url"
  | .pem => "pem"
  | .privateKey => "private_key"
  | .apiKey => "api_key"

end SecretKind

inductive ConfigError where
  | unreadable (path : String)
  | invalidLayer (index : Nat)
  | secretFound (leaf : String) (kind : SecretKind)
  /-- The document does not have the shape of a configuration. -/
  | shape
  | notPositive (name : String) (value : Int64)
  | notBelow (name : String) (value : Int64) (bound : String) (boundValue : Int64)
  | unusedKeys (role : Role) (keys : List String)
  | secretMissing (role : Role) (name what : String)
  deriving DecidableEq, Repr

namespace ConfigError

def message : ConfigError → String
  | .unreadable path => s!"failed to read yaml path: {path}"
  | .invalidLayer index => s!"invalid yaml in layer {index}"
  | .secretFound leaf kind => s!"CONFIG_SECRET_DETECTED leaf={leaf} kind={kind.name} value=REDACTED"
  | .shape => "CONFIG_SHAPE_INVALID"
  | .notPositive name value => s!"CONFIG_THRESHOLD_INVALID {name}={value.toInt}: must be > 0"
  | .notBelow name value bound boundValue =>
    s!"CONFIG_THRESHOLD_INVALID {name}={value.toInt} must be < {bound}={boundValue.toInt}"
  | .unusedKeys role keys =>
    s!"CONFIG_UNUSED_KEYS (role={role.name}) unused=" ++ ",".intercalate keys
  | .secretMissing role name what =>
    s!"SECRETS_MISSING role={role.name}: required env var '{name}' ({what}) is not set or empty"

end ConfigError

end TableEscrow
