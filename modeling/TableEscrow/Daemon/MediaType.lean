import TableEscrow.Text
/-!
# Media types

Whether the content of a request says that it is JSON.
-/

namespace TableEscrow.Daemon.MediaType

/-- The characters of names. -/
def isToken (c : Char) : Bool :=
  Text.isDigit c || ('a' ≤ c && c ≤ 'z') || ('A' ≤ c && c ≤ 'Z') ||
    "!#$%&'*+-.^_\x60|~".toList.contains c

/-- What follows a quoted value, after its opening quote; a quote at its very start is part of it. -/
def quoted? (first : Bool) : List Char → Option (List Char)
  | [] => none
  | c :: cs =>
    if c = '"' && !first then some cs
    else if c.toNat < 32 || c.toNat = 127 then none
    else quoted? false cs

/-- Whether a list of parameters is well formed. -/
def parameters (fuel : Nat) (cs : List Char) : Bool :=
  match fuel, cs with
  | _, [] => true
  | fuel + 1, ' ' :: cs => parameters fuel cs
  | fuel + 1, cs =>
    let name := cs.takeWhile isToken
    match cs.drop name.length with
    | '=' :: '"' :: rest =>
      !name.isEmpty &&
        match (quoted? true rest).map (·.dropWhile (· = ' ')) with
        | some [] => true
        | some (';' :: rest) => parameters fuel rest
        | _ => false
    | '=' :: rest =>
      let value := rest.takeWhile isToken
      !name.isEmpty &&
        match rest.drop value.length with
        | [] => true
        | ';' :: rest => !value.isEmpty && parameters fuel rest
        | _ => false
    | _ => false
  | 0, _ => false

/-- `application/json`, or `application/` with a name that ends in `+json`. -/
def isJson (s : String) : Bool :=
  let cs := s.toList.map Char.toLower
  let kind := cs.takeWhile isToken
  match cs.drop kind.length with
  | '/' :: rest =>
    let name := rest.takeWhile isToken
    let suffix := (name.reverse.takeWhile (· ≠ '+')).reverse
    let base := name.take (name.length - suffix.length - 1)
    let wellFormed := match rest.drop name.length with
      | [] => true
      | ';' :: rest | ' ' :: rest => !name.isEmpty && parameters (rest.length + 1) rest
      | _ => false
    wellFormed && kind = "application".toList &&
      (name = "json".toList || (!base.isEmpty && (base = "json".toList || suffix = "json".toList)))
  | _ => false

end TableEscrow.Daemon.MediaType
