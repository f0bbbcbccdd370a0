import TableEscrow.Text
/-!
# Network addresses

IPv4 and IPv6 addresses and the sockets on them. `ofText?` reads the strict forms: decimal octets
without leading zeros, and groups of at most four hexadecimal digits with one gap. An IPv6 address
is written with its longest run of zero groups left out.
-/

namespace TableEscrow

structure Ipv4 where
  octets : List UInt8
  four : octets.length = 4
  deriving DecidableEq

structure Ipv6 where
  groups : List UInt16
  eight : groups.length = 8
  deriving DecidableEq

/-- A host and a port. An IPv6 host may name the link it is reached over. -/
inductive SocketAddress where
  | v4 (host : Ipv4) (port : UInt16)
  | v6 (host : Ipv6) (link : UInt32) (port : UInt16)
  deriving DecidableEq

namespace Ipv4

def ofOctets (a b c d : UInt8) : Ipv4 := ⟨[a, b, c, d], rfl⟩

/-- The address a 32-bit number stands for. -/
def ofNat (n : Nat) : Ipv4 :=
  ofOctets (.ofNat (n >>> 24)) (.ofNat (n >>> 16)) (.ofNat (n >>> 8)) (.ofNat n)

/-- At most three digits, up to 255, without a leading zero. -/
def octet? (cs : List Char) : Option UInt8 :=
  if cs.isEmpty || 3 < cs.length || !cs.all Text.isDigit || (cs.head? = some '0' && 1 < cs.length) then
    none
  else
    let n := Text.natOfDecimal cs
    if n < 256 then some (.ofNat n) else none

def ofList? (cs : List Char) : Option Ipv4 := do
  let octets ← (Text.splitOn '.' cs).mapM octet?
  if h : octets.length = 4 then some ⟨octets, h⟩ else none

def render (a : Ipv4) : String := ".".intercalate (a.octets.map fun o => toString o.toNat)

end Ipv4

namespace Ipv6

def group? (cs : List Char) : Option UInt16 :=
  if 4 < cs.length then none else (Text.natOfDigits? 16 cs).map .ofNat

/-- The groups of an IPv4 address. -/
def ofIpv4 (a : Ipv4) : List UInt16 :=
  match a.octets with
  | [a, b, c, d] => [a.toUInt16 * 256 + b.toUInt16, c.toUInt16 * 256 + d.toUInt16]
  | _ => []

/-- Groups between colons; the last two may be written as an IPv4 address. -/
def pieces? : List (List Char) → Option (List UInt16)
  | [] => some []
  | [last] =>
    match group? last with
    | some g => some [g]
    | none => (Ipv4.ofList? last).map ofIpv4
  | piece :: rest => do
    let g ← group? piece
    let gs ← pieces? rest
    return g :: gs

def groups? (cs : List Char) : Option (List UInt16) :=
  if cs.isEmpty then some [] else pieces? (Text.splitOn ':' cs)

/-- The text before the first pair of colons and the text after it. -/
def cutAtGap : List Char → Option (List Char × List Char)
  | ':' :: ':' :: rest => some ([], rest)
  | c :: rest => (cutAtGap rest).map fun (before, after) => (c :: before, after)
  | [] => none

/-- A gap stands for at least one zero group. -/
def ofList? (cs : List Char) : Option Ipv6 := do
  let groups ← match cutAtGap cs with
    | none => groups? cs
    | some (before, after) => do
      if before.contains '.' then none
      let before ← groups? before
      let after ← groups? after
      if before.length + after.length < 8 then
        some (before ++ List.replicate (8 - before.length - after.length) 0 ++ after)
      else none
  if h : groups.length = 8 then some ⟨groups, h⟩ else none

/-- A group in hexadecimal, without leading zeros. -/
def groupText (g : UInt16) : String := String.ofList (Nat.toDigits 16 g.toNat)

/-- The start and the length of the longest run of zero groups, the first of equally long ones. -/
def longestGap (groups : List UInt16) : Nat × Nat :=
  (List.range groups.length).foldl (fun best i =>
    let run := ((groups.drop i).takeWhile (· == 0)).length
    if best.2 < run then (i, run) else best) (0, 0)

/-- The groups, with a gap of at least two zero groups left out. -/
def renderGroups (groups : List UInt16) : String :=
  let joined (gs : List UInt16) : String := ":".intercalate (gs.map groupText)
  let (start, length) := longestGap groups
  if length < 2 then joined groups
  else joined (groups.take start) ++ "::" ++ joined (groups.drop (start + length))

/-- An address that stands for an IPv4 address ends in its text. -/
def render (a : Ipv6) : String :=
  match a.groups with
  | [0, 0, 0, 0, 0, 0xFFFF, high, low] =>
    "::ffff:" ++ (Ipv4.ofNat (high.toNat * 65536 + low.toNat)).render
  | groups => renderGroups groups

end Ipv6

namespace SocketAddress

def port? (cs : List Char) : Option UInt16 :=
  if cs.isEmpty || !cs.all Text.isDigit then none
  else
    let n := Text.natOfDecimal cs
    if n < 65536 then some (.ofNat n) else none

def link? (cs : List Char) : Option UInt32 :=
  if cs.isEmpty || !cs.all Text.isDigit then none
  else
    let n := Text.natOfDecimal cs
    if n < UInt32.size then some (.ofNat n) else none

def ofBracketed? (cs : List Char) : Option SocketAddress := do
  let (inside, after) := Text.cutAt ']' cs
  let port ← match ← after with
    | ':' :: digits => port? digits
    | _ => none
  let (host, link) := Text.cutAt '%' inside
  let link ← match link with
    | some digits => link? digits
    | none => some 0
  return .v6 (← Ipv6.ofList? host) link port

def ofText? (s : String) : Option SocketAddress :=
  match s.toList with
  | '[' :: cs => ofBracketed? cs
  | cs =>
    match Text.cutAt ':' cs with
    | (host, some digits) => do return .v4 (← Ipv4.ofList? host) (← port? digits)
    | (_, none) => none

def render : SocketAddress → String
  | .v4 host port => s!"{host.render}:{port.toNat}"
  | .v6 host link port =>
    let link := if link = 0 then "" else s!"%{link.toNat}"
    s!"[{host.render}{link}]:{port.toNat}"

end SocketAddress

end TableEscrow
