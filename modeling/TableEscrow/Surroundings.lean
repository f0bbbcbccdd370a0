import TableEscrow.Environment.File
import TableEscrow.Config.Layered
import TableEscrow.Config.UnusedKeys
import TableEscrow.Deployment
/-!
# What surrounds a process

The variables, files, peers and the clock a process finds when it starts, and how its
configuration is found among them.
-/

namespace TableEscrow

structure Surroundings (σ : Type) where
  environment : Environment
  file? : String → Option String
  /-- The database at an address. -/
  database? : String → Option (Store.Database σ)
  network : Gateway.Network σ
  /-- The second and the instant the process runs at. -/
  now : Int64
  instant : Instant
  stamper : Stamper

namespace Surroundings

variable {σ : Type}

/-- The file of variables that is read before anything else. -/
def envFile : String := ".env.local"

/-- The surroundings with the variables of the file added. -/
def withEnvFile (s : Surroundings σ) : Surroundings σ :=
  match s.file? envFile with
  | some text => { s with environment := EnvFile.load s.environment text }
  | none => s

def connect (s : Surroundings σ) (url : String) : Except Store.StoreError (Store.Database σ) :=
  match s.database? url with
  | some d => .ok d
  | none => .error .unreachable

/-- The base of a service, unless a variable names another one. -/
def withBase (s : Surroundings σ) (variableName : String) (service : ServiceSection) : ServiceSection :=
  match s.environment.get? variableName with
  | some baseUrl => { service with baseUrl }
  | none => service

end Surroundings

/-- A configuration as a process reads it: what is said of it meanwhile, and the result. -/
structure ReadConfig where
  /-- Pointers of the keys the role has no use for. -/
  unused : List String
  hash : Option String
  result : Except ConfigError Config

namespace ReadConfig

/-- The defaults, when there is nothing to read. -/
def standard : ReadConfig := ⟨[], none, .ok .standard⟩

def ofFiles (role : Role) (file? : String → Option String) (paths : List String) : ReadConfig :=
  match LayeredConfig.ofFiles file? paths with
  | .error e => ⟨[], none, .error e⟩
  | .ok c => ⟨(UnusedKeys.ofDocument role c.document).keys, some c.hash, c.config⟩

end ReadConfig

/-- The service a section describes, with its key. -/
def ServiceSection.service (s : ServiceSection) (key : Option String) : Gateway.Service := ⟨s.baseUrl, key⟩

end TableEscrow
