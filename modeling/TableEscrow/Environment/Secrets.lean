import TableEscrow.Config.Sections
/-!
# Secrets

The values of the variables a configuration names. A variable that is unset or blank is missing,
and shown secrets say only whether they are there.
-/

namespace TableEscrow

/-- The variables of a process. -/
abbrev Environment := Keyed String

structure Secrets where
  databaseUrl : String
  gatewayKey : Option String
  oracleKey : Option String
  deriving DecidableEq

namespace Secrets

/-- The value of a variable that is set to more than blanks. -/
def value? (env : Environment) (name : String) : Option String :=
  (env.get? name).filter (!Text.isBlankText ·)

def require (env : Environment) (role : Role) (name what : String) : Except ConfigError String :=
  match value? env name with
  | some v => .ok v
  | none => .error (.secretMissing role name what)

/-- A variable that is required once the configuration names it. -/
def requireNamed (env : Environment) (role : Role) (what : String) :
    Option String → Except ConfigError (Option String)
  | some name => (require env role name what).map some
  | none => .ok none

def resolve (env : Environment) (config : Config) (role : Role) : Except ConfigError Secrets := do
  let databaseUrl ← require env role config.database.urlVariable "database url"
  let gatewayKey ← requireNamed env role "gateway api key" config.gateway.keyVariable
  let oracleKey ← requireNamed env role "oracle api key" config.oracle.keyVariable
  return ⟨databaseUrl, gatewayKey, oracleKey⟩

def shown : Option String → String
  | some _ => "Some(\"<REDACTED>\")"
  | none => "None"

/-- What is shown of secrets. -/
def describe (s : Secrets) : String :=
  "ResolvedSecrets \x7b database_url: \"<REDACTED>\", gateway_api_key: " ++ shown s.gatewayKey ++
    ", oracle_api_key: " ++ shown s.oracleKey ++ " \x7d"

end Secrets

end TableEscrow
