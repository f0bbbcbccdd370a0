import TableEscrow.Reconcile.Thresholds
/-!
# The typed configuration

Six sections, each with defaults that suit a local stack. The shape of a configuration is its
defaults as a document.
-/

namespace TableEscrow

structure ReconcileSection where
  thresholds : Thresholds
  /-- Seconds between two passes. -/
  scanInterval : UInt64
  deriving DecidableEq

namespace ReconcileSection

def standard : ReconcileSection := ⟨.standard, 60⟩

open Decode in
def record : Record ReconcileSection :=
  ReconcileSection.mk <$> .withDefault "thresholds" standard.thresholds Thresholds.decode
    <*> .withDefault "scan_interval_secs" standard.scanInterval uint64

def decode : Decoder ReconcileSection := record.decode "the reconcile section"

def encode (s : ReconcileSection) : Json :=
  .object [("thresholds", s.thresholds.encode), ("scan_interval_secs", .natural s.scanInterval)]

end ReconcileSection

/-- A service that is asked over HTTP. -/
structure ServiceSection where
  baseUrl : String
  timeout : UInt64
  /-- The variable that holds the service's key, if it wants one. -/
  keyVariable : Option String
  deriving DecidableEq

namespace ServiceSection

def gateway : ServiceSection := ⟨"http://127.0.0.1:8545", 10, none⟩

def oracle : ServiceSection := ⟨"http://127.0.0.1:8080", 5, none⟩

open Decode in
def record (standard : ServiceSection) : Record ServiceSection :=
  ServiceSection.mk <$> .withDefault "base_url" standard.baseUrl text
    <*> .withDefault "timeout_secs" standard.timeout uint64 <*> .maybe "api_key_env" text

def decode (standard : ServiceSection) (title : String) : Decoder ServiceSection :=
  (record standard).decode title

def encode (s : ServiceSection) : Json :=
  .object [("base_url", .string s.baseUrl), ("timeout_secs", .natural s.timeout),
    ("api_key_env", Json.orNull .string s.keyVariable)]

end ServiceSection

structure DatabaseSection where
  /-- The variable that holds the database's address. -/
  urlVariable : String
  maxConnections : UInt32
  deriving DecidableEq

namespace DatabaseSection

def standard : DatabaseSection := ⟨"TK_DATABASE_URL", 10⟩

open Decode in
def record : Record DatabaseSection :=
  DatabaseSection.mk <$> .withDefault "url_env" standard.urlVariable text
    <*> .withDefault "max_connections" standard.maxConnections uint32

def decode : Decoder DatabaseSection := record.decode "the db section"

def encode (s : DatabaseSection) : Json :=
  .object [("url_env", .string s.urlVariable), ("max_connections", .count s.maxConnections.toNat)]

end DatabaseSection

structure BusSection where
  capacity : UInt64
  deriving DecidableEq

namespace BusSection

def standard : BusSection := ⟨1024⟩

open Decode in
def record : Record BusSection := BusSection.mk <$> .withDefault "capacity" standard.capacity size

def decode : Decoder BusSection := record.decode "the bus section"

def encode (s : BusSection) : Json := .object [("capacity", .natural s.capacity)]

end BusSection

structure DaemonSection where
  bindAddress : String
  deriving DecidableEq

namespace DaemonSection

def standard : DaemonSection := ⟨"127.0.0.1:8899"⟩

open Decode in
def record : Record DaemonSection := DaemonSection.mk <$> .withDefault "bind_addr" standard.bindAddress text

def decode : Decoder DaemonSection := record.decode "the daemon section"

def encode (s : DaemonSection) : Json := .object [("bind_addr", .string s.bindAddress)]

end DaemonSection

structure Config where
  reconcile : ReconcileSection
  gateway : ServiceSection
  oracle : ServiceSection
  database : DatabaseSection
  bus : BusSection
  daemon : DaemonSection
  deriving DecidableEq

namespace Config

def standard : Config :=
  ⟨.standard, .gateway, .oracle, .standard, .standard, .standard⟩

open Decode in
def record : Record Config :=
  Config.mk <$> .withDefault "reconcile" standard.reconcile ReconcileSection.decode
    <*> .withDefault "gateway" standard.gateway (ServiceSection.decode .gateway "the gateway section")
    <*> .withDefault "oracle" standard.oracle (ServiceSection.decode .oracle "the oracle section")
    <*> .withDefault "db" standard.database DatabaseSection.decode
    <*> .withDefault "bus" standard.bus BusSection.decode
    <*> .withDefault "daemon" standard.daemon DaemonSection.decode

def decode : Decoder Config := record.decode "a configuration"

def encode (c : Config) : Json :=
  .object [("reconcile", c.reconcile.encode), ("gateway", c.gateway.encode),
    ("oracle", c.oracle.encode), ("db", c.database.encode), ("bus", c.bus.encode),
    ("daemon", c.daemon.encode)]

/-- The configuration a document describes, with thresholds that are in order. -/
def ofDocument (document : Json) : Except ConfigError Config :=
  match decode (.ofJson document) with
  | .ok config => do
    config.reconcile.thresholds.validate
    return config
  | .error _ => .error .shape

/-- Every key a configuration has, with its default. -/
def shape : Json := standard.encode

end Config

end TableEscrow
