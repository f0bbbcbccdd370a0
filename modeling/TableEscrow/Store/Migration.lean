import TableEscrow.Hash
/-!
# The schema

The scripts that build the schema, in the order of their versions. A database remembers which of
them it has run, and the digest of each as it was then.
-/

namespace TableEscrow.Store

structure Migration where
  version : Int64
  script : String
  deriving DecidableEq

/-- A script a database has run: its version and the digest it had. -/
structure Applied where
  version : Int64
  checksum : List UInt8
  deriving DecidableEq

namespace Migration

def checksum (m : Migration) : List UInt8 := Hash.sha384 m.script.toUTF8.toList

def ofLines (version : Int64) (script : List String) : Migration :=
  ⟨version, String.join (script.map (· ++ "\n"))⟩

/-- One row for each hand, with the whole document beside the columns it is looked up by. -/
def hands : Migration := ofLines 1
  ["-- Off-chain hand records, one row per table + hand.",
    "-- `record` holds the full document as written by the gameplay engine.",
    "create table if not exists hands (",
    "    table_addr  text        not null,",
    "    hand_id     bigint      not null check (hand_id >= 0),",
    "    state       text        not null check (state in ('waiting','dealing','preflop','flop','turn','river','showdown')),",
    "    changed     bigint      not null,",
    "    record      jsonb       not null,",
    "    updated_at  timestamptz not null default now(),",
    "    primary key (table_addr, hand_id)",
    ");",
    "",
    "create index if not exists hands_table_latest_idx on hands (table_addr, hand_id desc);"]

/-- One row for each envelope, never changed. -/
def outbox : Migration := ofLines 2
  ["-- Append-only control outbox. A committed insert is the publish acknowledgement.",
    "create table if not exists control_outbox (",
    "    event_id    uuid        primary key,",
    "    ts_utc      timestamptz not null,",
    "    subject     text        not null check (subject in (",
    "                    'ProgressNetting','HandleDispute','Kick','Timeout',",
    "                    'TableNettingRequest','TableLeave','HandComplete','TableNettingComplete')),",
    "    table_addr  text        not null,",
    "    payload     jsonb       not null,",
    "    created_at  timestamptz not null default now()",
    ");",
    "",
    "create index if not exists control_outbox_table_idx on control_outbox (table_addr, created_at);"]

def all : List Migration := [hands, outbox]

end Migration

end TableEscrow.Store
