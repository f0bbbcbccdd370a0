import TableEscrow.Json.Basic
/-!
# Layers

A later document is laid over an earlier one: objects merge member by member, and anything else
takes the place of what was there. A document that is null is an empty layer.
-/

namespace TableEscrow.Json

mutual

def overlay (base layer : Json) : Json :=
  match layer with
  | .object members =>
    match base with
    | .object kept => .object (overlayMembers kept members)
    | _ => layer
  | _ => layer

def overlayMembers (base : List (String × Json)) : List (String × Json) → List (String × Json)
  | [] => base
  | (key, value) :: rest =>
    let merged :=
      match base.lookup key with
      | some old => overlay old value
      | none => value
    overlayMembers (Keyed.insertInto key merged base) rest

end

/-- The document that layers make, the last one on top. -/
def merge (layers : List Json) : Json :=
  layers.foldl (fun merged layer => if layer = .null then merged else merged.overlay layer) (.object [])

end TableEscrow.Json
