import TableEscrow.Json.Basic
import TableEscrow.Text
/-!
# JSON pointers

A pointer is a list of tokens, each after a slash. Inside a token a slash is `~1` and a tilde `~0`.
-/

namespace TableEscrow.Pointer

def escape : List Char → List Char
  | [] => []
  | c :: cs =>
    if c = '~' then '~' :: '0' :: escape cs
    else if c = '/' then '~' :: '1' :: escape cs
    else c :: escape cs

def unescape : List Char → List Char
  | '~' :: '0' :: cs => '~' :: unescape cs
  | '~' :: '1' :: cs => '/' :: unescape cs
  | c :: cs => c :: unescape cs
  | [] => []

/-- Every tilde stands before a `0` or a `1`. -/
def isToken : List Char → Bool
  | '~' :: '0' :: cs => isToken cs
  | '~' :: '1' :: cs => isToken cs
  | c :: cs => c != '~' && isToken cs
  | [] => true

/-- A key as a token of a pointer. -/
def token (key : String) : String := String.ofList (escape key.toList)

/-- The pointer one level below another. -/
def below (pointer key : String) : String := pointer ++ "/" ++ token key

/-- The pointer that some keys make, the outermost first. -/
def ofKeys (keys : List String) : String := keys.foldl below ""

/-- The key that a token stands for. -/
def key? (token : List Char) : Option String :=
  if isToken token then some (String.ofList (unescape token)) else none

/-- The keys on the way that a pointer goes; none for a text that is no pointer. -/
def keys? (pointer : String) : Option (List String) :=
  match Text.splitOn '/' pointer.toList with
  | [] :: tokens => tokens.mapM key?
  | _ => none

/-- The number of an item: digits, with no zero in front of others. -/
def index? : List Char → Option Nat
  | '0' :: _ :: _ => none
  | digits => Text.natOfDigits? 10 digits

/-- The member or item a key names. -/
def child? (v : Json) (key : String) : Option Json :=
  match v with
  | .object members => members.lookup key
  | .array items => (index? key.toList).bind (items[·]?)
  | _ => none

/-- The value a pointer leads to. -/
def resolve (v : Json) (pointer : String) : Option Json := (keys? pointer).bind fun keys => keys.foldlM child? v

end TableEscrow.Pointer
