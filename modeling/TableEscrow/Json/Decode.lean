import TableEscrow.Json.Draft
import TableEscrow.Json.Printer
import TableEscrow.Word
/-!
# Typed values from documents

A `Decoder` reads a typed value off a draft or says what is wrong with it. A `Record` describes
the members of a structure once: it reads them from an object in any order, or from an array in
the order described, and reports the first fault in the order of the document. Members it does
not name are skipped.
-/

namespace TableEscrow

/-- What is wrong with a document. -/
inductive Fault where
  /-- The text breaks. -/
  | broken
  /-- An array with more items than the structure has members. -/
  | surplus (length : Nat)
  /-- A name is wanted and this is neither a string nor an object with one member. -/
  | noName (found : String)
  | kind (found wanted : String)
  | range (found wanted : String)
  | missing (member : String)
  | repeated (member : String)
  | unknownName (name : String) (known : List String)
  /-- An array that ends before member number `length`, which has no default. -/
  | tooShort (length : Nat) (wanted : String) (size : Nat)
  /-- A netting entry that is no signature. -/
  | signature (key : String)
  /-- A string of the right kind in the wrong form. -/
  | form (reason : String)
  deriving DecidableEq, Repr

namespace Fault

/-- Whether the text itself is at fault, and not what it says. -/
def inText : Fault → Bool
  | .broken | .surplus _ | .noName _ => true
  | _ => false

def tick (s : String) : String := "`" ++ s ++ "`"

def message : Fault → String
  | .broken => "expected value"
  | .surplus length => s!"invalid length {length}, expected fewer elements in array"
  | .noName found => s!"invalid type: {found}, expected string or map"
  | .kind found wanted => s!"invalid type: {found}, expected {wanted}"
  | .range found wanted => s!"invalid value: {found}, expected {wanted}"
  | .missing member => s!"missing field {tick member}"
  | .repeated member => s!"duplicate field {tick member}"
  | .unknownName name known =>
    s!"unknown variant {tick name}, expected one of " ++ ", ".intercalate (known.map tick)
  | .tooShort length wanted size => s!"invalid length {length}, expected {wanted} with {size} elements"
  | .signature key => s!"netting signature for '{key}' is not a string"
  | .form reason => reason

end Fault

abbrev Decoder (α : Type) := Draft → Except Fault α

namespace Decode

def describeNumber : Number → String
  | .real x => s!"floating point {Fault.tick x.render}"
  | n => s!"integer {Fault.tick (String.ofList (Json.numberText n))}"

/-- What a draft is, as a fault names it. -/
def describe : Draft → String
  | .null => "null"
  | .bool b => s!"boolean {Fault.tick (toString b)}"
  | .number n => describeNumber n
  | .string s => "string " ++ String.ofList (Json.quote s)
  | .array _ => "sequence"
  | .object _ _ => "map"
  | .unusable | .broken => "nothing"

/-- A draft that is not of the kind wanted. -/
def mismatch {α : Type} (wanted : String) : Decoder α
  | .unusable | .broken => .error .broken
  | d => .error (.kind (describe d) wanted)

/-! ## Scalars -/

def text : Decoder String
  | .string s => .ok s
  | d => mismatch "a string" d

def bool : Decoder Bool
  | .bool b => .ok b
  | d => mismatch "a boolean" d

/-- A natural number below `bound`. -/
def natural (bound : Nat) (name : String) : Decoder Nat
  | .number (.natural n) =>
    if n.toNat < bound then .ok n.toNat else .error (.range (describeNumber (.natural n)) name)
  | .number (.negative n h) => .error (.range (describeNumber (.negative n h)) name)
  | d => mismatch name d

def uint64 : Decoder UInt64
  | .number (.natural n) => .ok n
  | .number (.negative n h) => .error (.range (describeNumber (.negative n h)) "u64")
  | d => mismatch "u64" d

/-- A position or a count: a word as well. -/
def size : Decoder UInt64
  | .number (.natural n) => .ok n
  | .number (.negative n h) => .error (.range (describeNumber (.negative n h)) "usize")
  | d => mismatch "usize" d

def uint32 : Decoder UInt32 := fun d => (natural UInt32.size "u32" d).map UInt32.ofNat

def byte : Decoder UInt8 := fun d => (natural 256 "u8" d).map UInt8.ofNat

def int64 : Decoder Int64
  | .number (.natural n) =>
    match Word.signed? n.toNat with
    | some w => .ok w
    | none => .error (.range (describeNumber (.natural n)) "i64")
  | .number (.negative n _) => .ok n
  | d => mismatch "i64" d

def unit : Decoder Unit
  | .null => .ok ()
  | d => mismatch "unit" d

/-- Null or a value. -/
def optional {α : Type} (decode : Decoder α) : Decoder (Option α)
  | .null => .ok none
  | d => (decode d).map some

def items {α : Type} (decode : Decoder α) : List Draft → Except Fault (List α)
  | [] => .ok []
  | d :: rest => do
    let a ← decode d
    let as ← items decode rest
    return a :: as

def list {α : Type} (decode : Decoder α) : Decoder (List α)
  | .array ds => items decode ds
  | d => mismatch "a sequence" d

/-! ## Any value -/

mutual

/-- The value itself, objects in ascending order and the last of a repeated key kept. -/
def json : Decoder Json
  | .null => .ok .null
  | .bool b => .ok (.bool b)
  | .number n => .ok (.number n)
  | .string s => .ok (.string s)
  | .array ds => (jsonItems ds).map .array
  | .object ms closed =>
    match jsonMembers ms [] with
    | .ok members => if closed then .ok (.object members) else .error .broken
    | .error f => .error f
  | .unusable => .error .broken
  | .broken => .error .broken

def jsonItems : List Draft → Except Fault (List Json)
  | [] => .ok []
  | d :: rest =>
    match json d with
    | .ok v => (jsonItems rest).map (v :: ·)
    | .error f => .error f

def jsonMembers : List (String × Draft) → List (String × Json) → Except Fault (List (String × Json))
  | [], acc => .ok acc
  | (k, d) :: rest, acc =>
    match json d with
    | .ok v => jsonMembers rest (Keyed.insertInto k v acc)
    | .error f => .error f

end

/-- The members of an object, ascending. -/
def members : Decoder (List (String × Json))
  | .object ms closed => do
    let found ← jsonMembers ms []
    if closed then .ok found else .error .broken
  | d => mismatch "a map" d

/-! ## Names -/

/-- A name on its own, or as the only member of an object, with null beside it. -/
def name : Decoder String
  | .string s => .ok s
  | .object [] false => .error .broken
  | .object [(k, d)] closed => do
    unit d
    if closed then .ok k else .error .broken
  | .object _ _ => .error (.noName "map")
  | .broken | .unusable => .error .broken
  | d => .error (.noName (describe d))

/-- What one of some known names stands for. -/
def known {α : Type} (names : List (String × α)) (s : String) : Except Fault α :=
  match names.lookup s with
  | some a => .ok a
  | none => .error (.unknownName s (names.map (·.1)))

def oneOf {α : Type} (names : List (String × α)) : Decoder α
  | .object ((k, d) :: ms) closed => do
    let a ← known names k
    let _ ← name (.object ((k, d) :: ms) closed)
    return a
  | d => do known names (← name d)

/-- A known name that is a string. -/
def tag {α : Type} (names : List (String × α)) : Decoder α
  | .string s => known names s
  | d => mismatch "variant identifier" d

/-! ## Records -/

/-- The members of a structure: for each name what is wrong with a value given to it, and the
structure from a look-up of its members. -/
structure Record (α : Type) where
  names : List (String × (Draft → Option Fault))
  build : (String → Option Draft) → Except Fault α

namespace Record

instance : Applicative Record where
  pure a := ⟨[], fun _ => .ok a⟩
  seq f x := ⟨f.names ++ (x ()).names, fun look => do
    let g ← f.build look
    let a ← (x ()).build look
    return g a⟩

def fault? {α : Type} (decode : Decoder α) (d : Draft) : Option Fault :=
  match decode d with
  | .ok _ => none
  | .error f => some f

def required {α : Type} (name : String) (decode : Decoder α) : Record α :=
  ⟨[(name, fault? decode)], fun look =>
    match look name with
    | some d => decode d
    | none => .error (.missing name)⟩

def withDefault {α : Type} (name : String) (default : α) (decode : Decoder α) : Record α :=
  ⟨[(name, fault? decode)], fun look =>
    match look name with
    | some d => decode d
    | none => .ok default⟩

/-- A member that may be absent or null. -/
def maybe {α : Type} (name : String) (decode : Decoder α) : Record (Option α) :=
  withDefault name none (optional decode)

/-- The first fault among members in the order of the document. -/
def firstFault (names : List (String × (Draft → Option Fault))) (seen : List String) :
    List (String × Draft) → Option Fault
  | [] => none
  | (k, d) :: rest =>
    match names.lookup k with
    | some fault =>
      if seen.contains k then some (.repeated k)
      else
        match fault d with
        | some f => some f
        | none => firstFault names (k :: seen) rest
    | none => if d.isCut then some .broken else firstFault names seen rest

def firstFaultInOrder : List ((String × (Draft → Option Fault)) × Draft) → Option Fault
  | [] => none
  | ((_, fault), d) :: rest =>
    match fault d with
    | some f => some f
    | none => firstFaultInOrder rest

/-- Reads the structure off an object, or off an array in the order of the record's names. -/
def decode {α : Type} (r : Record α) (title : String) : Decoder α
  | .object ms closed =>
    match firstFault r.names [] ms with
    | some f => .error f
    | none => if closed then r.build (ms.lookup ·) else .error .broken
  | .array ds =>
    match firstFaultInOrder (r.names.zip ds) with
    | some f => .error f
    | none =>
      if r.names.length < ds.length then
        .error (if (ds.drop r.names.length).any Draft.isCut then .broken else .surplus ds.length)
      else
        let named := (r.names.map (·.1)).zip ds
        match r.build (named.lookup ·) with
        | .error (.missing member) =>
          .error (.tooShort ((r.names.map (·.1)).idxOf member) title r.names.length)
        | result => result
  | d => mismatch title d

end Record

/-! ## Tagged unions -/

/-- Splits the tag off an object or an array: the tag and the other members or items. -/
def tagged (tag title : String) : Draft → Except Fault (Draft × Draft)
  | .object ms closed =>
    match ms.filter (·.1 = tag) with
    | [(_, d)] => .ok (d, .object (ms.filter (·.1 ≠ tag)) closed)
    | [] => .error (.missing tag)
    | _ => .error (.repeated tag)
  | .array (d :: ds) => .ok (d, .array ds)
  | .array [] => .error (.missing tag)
  | d => mismatch title d

end Decode

namespace Json

/-- The value a whole text writes. -/
def ofText? (s : String) : Option Json := (Decode.json (Draft.ofText s)).toOption

end Json

end TableEscrow
