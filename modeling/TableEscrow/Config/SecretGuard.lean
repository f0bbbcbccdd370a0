import TableEscrow.Config.Error
import TableEscrow.Json.Basic
import TableEscrow.Text
/-!
# The secret guard

A configuration names the variables that hold secrets and never holds one itself. The guard looks
for text that could be a database address, a key file, a signing key or an access key.
-/

namespace TableEscrow

namespace SecretKind

/-- 64 hexadecimal digits, after `0x` or not. -/
def isSigningKey (cs : List Char) : Bool :=
  let body := (Text.dropStart? ['0', 'x'] cs).getD cs
  body.length == 64 && body.all Text.isHexDigit

/-- What a text looks like, blanks at its ends aside. -/
def ofText? (s : String) : Option SecretKind :=
  let t := Text.trim s
  if Text.startsWith "postgres://" t || Text.startsWith "postgresql://" t then some .databaseUrl
  else if Text.startsWith "-----BEGIN" t then some .pem
  else if isSigningKey t.toList then some .privateKey
  else if (Text.startsWith "sk-" t || Text.startsWith "sk_" t) && 16 ≤ t.utf8ByteSize then some .apiKey
  else none

end SecretKind

namespace Json

mutual

/-- The first text that looks like a secret, depth first, with the path to it. -/
def findSecret? (path : String) : Json → Option (String × SecretKind)
  | .string s => (SecretKind.ofText? s).map (path, ·)
  | .object members => findSecretMember? path members
  | .array items => findSecretItem? path 0 items
  | _ => none

def findSecretMember? (path : String) : List (String × Json) → Option (String × SecretKind)
  | [] => none
  | (key, v) :: rest => (v.findSecret? (path ++ "/" ++ key)).or (findSecretMember? path rest)

def findSecretItem? (path : String) (index : Nat) : List Json → Option (String × SecretKind)
  | [] => none
  | v :: rest =>
    (v.findSecret? (path ++ "/" ++ toString index)).or (findSecretItem? path (index + 1) rest)

end

end Json

end TableEscrow
