import TableEscrow.Address
import TableEscrow.Percent
/-!
# URLs

An absolute URL in the one form it is sent and shown in: the scheme and the host in lower case, the
port only where it is not the scheme's own, dot segments resolved, and characters that have no
place in a path escaped. Credentials in front of the host are no part of it. Hosts are addresses or
ASCII names.
-/

namespace TableEscrow

structure Url where
  scheme : String
  /-- Outside the web a URL may have an empty host or none. -/
  host : Option String
  port : Option Nat
  path : String
  query : Option String
  fragment : Option String
  deriving DecidableEq

namespace Url

/-! ## Schemes -/

/-- Where servers of a scheme listen unless a URL says otherwise, for schemes whose URLs always
have a host. -/
def defaultPort? : String → Option Nat
  | "http" | "ws" => some 80
  | "https" | "wss" => some 443
  | "ftp" => some 21
  | _ => none

def isWeb (scheme : String) : Bool := (defaultPort? scheme).isSome

/-- The scheme in front of the first colon, and what follows. -/
def scheme? (cs : List Char) : Option (String × List Char) :=
  match Text.cutAt ':' cs with
  | (c :: name, some rest) =>
    if c.isAlpha && name.all fun c => c.isAlphanum || c == '+' || c == '-' || c == '.' then
      some (Text.lower (String.ofList (c :: name)), rest)
    else none
  | _ => none

/-! ## Escaping -/

/-- Escapes what is not printable ASCII and the characters of `set`. -/
def escape (set : List Char) (cs : List Char) : List Char :=
  cs.flatMap fun c =>
    if c.toNat < 0x20 || 0x7F ≤ c.toNat || set.contains c then Percent.escape c else [c]

def pathSet : List Char := [' ', '"', '#', '<', '>', '?', '\x60', '\x7b', '\x7d']

def querySet (web : Bool) : List Char := [' ', '"', '#', '<', '>'] ++ if web then ['\x27'] else []

def fragmentSet : List Char := [' ', '"', '<', '>', '\x60']

/-! ## Hosts -/

/-- A number in decimal, or in octal or hexadecimal behind a zero. -/
def hostNumber? : List Char → Option Nat
  | '0' :: 'x' :: ds | '0' :: 'X' :: ds => if ds.isEmpty then some 0 else Text.natOfDigits? 16 ds
  | '0' :: d :: ds => Text.natOfDigits? 8 (d :: ds)
  | ds => Text.natOfDigits? 10 ds

/-- The labels of a name, without the empty one behind a last point. -/
def labels (name : List Char) : List (List Char) :=
  match (Text.splitOn '.' name).reverse with
  | [] :: l :: ls => (l :: ls).reverse
  | ls => ls.reverse

def endsInNumber (name : List Char) : Bool :=
  match (labels name).getLast? with
  | some l => (!l.isEmpty && l.all Text.isDigit) || (hostNumber? l).isSome
  | none => false

/-- One to four numbers; the last fills the octets the others leave. -/
def hostAddress? (name : List Char) : Option Ipv4 := do
  let numbers ← (labels name).mapM hostNumber?
  let last ← numbers.getLast?
  let high := numbers.dropLast
  if 4 < numbers.length || high.any (255 < ·) || 1 <<< (8 * (4 - high.length)) ≤ last then none
  else some (.ofNat (high.zipIdx.foldl (fun n (octet, i) => n + octet <<< (8 * (3 - i))) last))

def isForbiddenInName (c : Char) : Bool :=
  c.toNat ≤ 0x20 || 0x7F ≤ c.toNat || "#/:<>?@[\\]^|%".toList.contains c

/-- The host of a web URL: an address, or a name without forbidden characters. -/
def webHost? (cs : List Char) : Option String :=
  let name := (Percent.decode cs).toList.map Char.toLower
  if name.isEmpty || name.any isForbiddenInName then none
  else if endsInNumber name then (hostAddress? name).map (·.render)
  else some (String.ofList name)

def isForbiddenInHost (c : Char) : Bool :=
  c.toNat = 0 || "\t\n\r #/:<>?@[\\]^|".toList.contains c

def host? (web : Bool) (cs : List Char) : Option String :=
  match cs with
  | '[' :: inside =>
    match Text.cutAt ']' inside with
    | (address, some []) => (Ipv6.ofList? address).map fun a => "[" ++ Ipv6.renderGroups a.groups ++ "]"
    | _ => none
  | _ =>
    if web then webHost? cs
    else if cs.any isForbiddenInHost then none
    else some (String.ofList (escape [] cs))

/-- The host and the number behind it, after any credentials. -/
def authority? (scheme : String) (cs : List Char) : Option (Option String × Option Nat) := do
  let web := isWeb scheme
  let place := (Text.splitOn '@' cs).getLastD []
  let (host, port) := match place with
    | '[' :: _ =>
      let (inside, after) := Text.cutAt ']' place
      (inside ++ if after.isSome then [']'] else [], after.getD [])
    | _ =>
      let (host, port) := Text.cutAt ':' place
      (host, match port with | some digits => ':' :: digits | none => [])
  let port ← match port with
    | [] | [':'] => some none
    | ':' :: digits => (SocketAddress.port? digits).map fun p => some p.toNat
    | _ => none
  if place.isEmpty && !web then return (some "", none)
  return (some (← host? web host), port.filter (some · != defaultPort? scheme))

/-! ## Paths -/

def isSingleDot (segment : List Char) : Bool :=
  ["." , "%2e"].contains (Text.lower (String.ofList segment))

def isDoubleDot (segment : List Char) : Bool :=
  ["..", ".%2e", "%2e.", "%2e%2e"].contains (Text.lower (String.ofList segment))

/-- The segments of a path without its dot segments; a dot segment at the end leaves an empty one. -/
def resolve : List (List Char) → List (List Char) → List (List Char)
  | done, [] => done
  | done, [last] =>
    if isDoubleDot last then done.dropLast ++ [[]]
    else if isSingleDot last then done ++ [[]]
    else done ++ [last]
  | done, segment :: rest =>
    if isDoubleDot segment then resolve done.dropLast rest
    else if isSingleDot segment then resolve done rest
    else resolve (done ++ [segment]) rest

/-- The path of what follows the host; it begins with a slash. In a web URL a backslash is one too. -/
def rooted (web : Bool) (cs : List Char) : String :=
  let cs := if web then cs.map fun c => if c = '\\' then '/' else c else cs
  let segments := resolve [] (Text.splitOn '/' (if cs.head? = some '/' then cs.drop 1 else cs))
  if cs.isEmpty && !web then ""
  else String.ofList (segments.flatMap fun segment => '/' :: escape pathSet segment)

/-! ## Reading and writing -/

/-- Controls and spaces at the ends and line breaks anywhere are ignored. -/
def cleaned (s : String) : List Char :=
  let blank (c : Char) : Bool := c.toNat ≤ 0x20
  ((s.toList.dropWhile blank).reverse.dropWhile blank).reverse.filter fun c =>
    c != '\t' && c != '\n' && c != '\r'

def ofText? (s : String) : Option Url := do
  let (scheme, cs) ← scheme? (cleaned s)
  let web := isWeb scheme
  let (cs, fragment) := Text.cutAt '#' cs
  let (cs, query) := Text.cutAt '?' cs
  let fragment := fragment.map fun f => String.ofList (escape fragmentSet f)
  let query := query.map fun q => String.ofList (escape (querySet web) q)
  let isSlash (c : Char) : Bool := c == '/' || (web && c == '\\')
  let place := if web then some (cs.dropWhile isSlash) else Text.dropStart? ['/', '/'] cs
  match place with
  | some place =>
    let (host, port) ← authority? scheme (place.takeWhile (!isSlash ·))
    return ⟨scheme, host, port, rooted web (place.dropWhile (!isSlash ·)), query, fragment⟩
  | none =>
    let path := if cs.head? = some '/' then rooted false cs else String.ofList (escape [] cs)
    return ⟨scheme, none, none, path, query, fragment⟩

/-- There is a machine to ask. -/
def hasHost (u : Url) : Bool := u.host.any (· != "")

/-- What a request line asks for: the path and the query. -/
def target (u : Url) : String :=
  u.path ++ (u.query.map fun q => "?" ++ q).getD ""

def render (u : Url) : String :=
  let port := (u.port.map fun p => s!":{p}").getD ""
  let place := (u.host.map fun h => "//" ++ h ++ port).getD ""
  u.scheme ++ ":" ++ place ++ u.target ++ (u.fragment.map fun f => "#" ++ f).getD ""

end Url

end TableEscrow
