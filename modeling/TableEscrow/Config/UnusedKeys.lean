import TableEscrow.Config.Sections
import TableEscrow.Json.Pointer
/-!
# Unused keys

A key is unused when the configuration has no such member, or when it names a section the role does
not read. Only the outermost unused key is reported, as a pointer.
-/

namespace TableEscrow

structure UnusedKeys where
  role : Role
  /-- Pointers, ascending. -/
  keys : List String
  deriving DecidableEq

namespace UnusedKeys

mutual

/-- The unused keys below a member the shape knows. -/
def below (pointer : String) (document shape : Json) : List String :=
  match document, shape with
  | .object members, .object known => belowMembers pointer known members
  | _, _ => []

def belowMembers (pointer : String) (known : List (String × Json)) : List (String × Json) → List String
  | [] => []
  | (key, v) :: rest =>
    (match known.lookup key with
      | some shape => below (Pointer.below pointer key) v shape
      | none => [Pointer.below pointer key]) ++ belowMembers pointer known rest

end

/-- The unused keys of one top-level member. -/
def ofSection (role : Role) (known : List (String × Json)) (key : String) (v : Json) : List String :=
  let pointer := Pointer.below "" key
  match known.lookup key with
  | some shape => if role.reads key then below pointer v shape else [pointer]
  | none => [pointer]

def ofDocument (role : Role) (document : Json) : UnusedKeys :=
  let keys :=
    match document, Config.shape with
    | .object members, .object known => members.flatMap fun (key, v) => ofSection role known key v
    | _, _ => []
  ⟨role, keys.mergeSort (· ≤ ·)⟩

def isClean (u : UnusedKeys) : Bool := u.keys.isEmpty

/-- The report, or an error when unused keys are refused and there are some. -/
def report (role : Role) (document : Json) (refuse : Bool) : Except ConfigError UnusedKeys :=
  let unused := ofDocument role document
  if refuse && !unused.isClean then .error (.unusedKeys role unused.keys) else .ok unused

end UnusedKeys

end TableEscrow
