import TableEscrow.Text
/-!
# Percent signs

Bytes written as a percent sign and two hexadecimal digits, as in the parts of a URL and in forms.
-/

namespace TableEscrow.Percent

/-- The text of some bytes; bytes that make no character stand for themselves as unreadable. -/
def textOfBytes (bytes : List UInt8) : String :=
  match String.fromUTF8? ⟨bytes.toArray⟩ with
  | some s => s
  | none => String.ofList (bytes.map fun b => if b < 0x80 then Char.ofNat b.toNat else '\uFFFD')

/-- The bytes a text writes; a sign without two digits is itself. -/
def bytes : List Char → List UInt8
  | '%' :: a :: b :: cs =>
    match Text.natOfDigits? 16 [a, b] with
    | some n => .ofNat n :: bytes cs
    | none => 0x25 :: bytes (a :: b :: cs)
  | c :: cs => (String.singleton c).toUTF8.toList ++ bytes cs
  | [] => []

def decode (cs : List Char) : String := textOfBytes (bytes cs)

/-- A character whose bytes are all escaped. -/
def escape (c : Char) : List Char :=
  (String.singleton c).toUTF8.toList.flatMap fun b =>
    '%' :: (Text.hexDigits 2 b.toNat).map Char.toUpper

/-- The names and values of a form: pairs between ampersands, a plus for a space. -/
def form (cs : List Char) : List (String × String) :=
  let spaced (cs : List Char) : String := decode (cs.map fun c => if c = '+' then ' ' else c)
  ((Text.splitOn '&' cs).filter (!·.isEmpty)).map fun pair =>
    let (name, value) := Text.cutAt '=' pair
    (spaced name, spaced (value.getD []))

end TableEscrow.Percent
