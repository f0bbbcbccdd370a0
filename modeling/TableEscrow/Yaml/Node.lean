import TableEscrow.Yaml.Token
/-!
# YAML nodes

The tree that the tokens of one document make. An alias holds the number its anchor had when the
alias was read; `anchored` finds the node that has the number in the end.

Anchors are numbered by how many names are known when they are read, so a name that is used again
can share its number with the next new one.
-/

namespace TableEscrow.Yaml

inductive Node where
  | scalar (anchor : Option Nat) (tag : Option String) (plain : Bool) (text : String)
  | sequence (anchor : Option Nat) (tag : Option String) (items : List Node)
  | mapping (anchor : Option Nat) (tag : Option String) (entries : List (Node × Node))
  | alias (number : Nat)
  deriving Inhabited

namespace Node

/-- A node that is not written. -/
def empty : Node := .scalar none none true ""

/-! ## Reading -/

structure Reader where
  tokens : List Token
  /-- The number of each anchor's name, the last given first. -/
  anchors : List (String × Nat)
  /-- The meanings of tag handles. -/
  handles : List (String × String)

namespace Reader

def next? (r : Reader) : Option Token := r.tokens.head?

def skip (r : Reader) : Reader := { r with tokens := r.tokens.tail }

/-- The names that are known, each counted once. -/
def anchorCount (r : Reader) : Nat := (r.anchors.map (·.1)).eraseDups.length

/-- Gives an anchor its number. -/
def number (name : String) (r : Reader) : Nat × Reader :=
  let n := r.anchorCount
  (n, { r with anchors := (name, n) :: r.anchors })

/-- A tag with its handle spelled out; none for an unknown handle. -/
def tagText? (r : Reader) (handle suffix : String) : Option String :=
  if handle.isEmpty then some suffix else (r.handles.lookup handle).map (· ++ suffix)

end Reader

/-- The anchor and the tag in front of a node, in either order. -/
structure Properties where
  anchor : Option String
  tag : Option (String × String)

def properties (r : Reader) : Properties × Reader :=
  match r.tokens with
  | .anchor a :: .tag handle suffix :: rest => (⟨some a, some (handle, suffix)⟩, { r with tokens := rest })
  | .tag handle suffix :: .anchor a :: rest => (⟨some a, some (handle, suffix)⟩, { r with tokens := rest })
  | .anchor a :: rest => (⟨some a, none⟩, { r with tokens := rest })
  | .tag handle suffix :: rest => (⟨none, some (handle, suffix)⟩, { r with tokens := rest })
  | _ => (⟨none, none⟩, r)

/-- Whether a node is missing before one of the tokens. -/
def isAt (stops : List Token) (r : Reader) : Bool :=
  match r.next? with
  | some t => stops.contains t
  | none => false

mutual

/-- A node. In a block it may be a block collection, and after a key a sequence that is not
indented. -/
def read? (fuel : Nat) (block unindented : Bool) (r : Reader) : Option (Node × Reader) :=
  match fuel with
  | 0 => none
  | fuel + 1 =>
    match r.tokens with
    | .alias name :: _ => (r.anchors.lookup name).map fun n => (.alias n, r.skip)
    | _ => do
      let (props, r) := properties r
      let tag ← match props.tag with
        | some (handle, suffix) => (r.tagText? handle suffix).map some
        | none => some none
      let (anchor, r) := match props.anchor with
        | some name => let (n, r) := r.number name; (some n, r)
        | none => (none, r)
      match r.next? with
      | some .blockEntry =>
        if unindented then
          let (items, r) ← unindentedItems? fuel r
          return (.sequence anchor tag items, r)
        else missing? props anchor tag r
      | some (.scalar text plain) =>
        return (.scalar anchor (if tag = some "!" then none else tag) plain text, r.skip)
      | some .flowSequence =>
        let (items, r) ← flowItems? fuel true r.skip
        return (.sequence anchor tag items, r)
      | some .flowMapping =>
        let (entries, r) ← flowEntries? fuel true r.skip
        return (.mapping anchor tag entries, r)
      | some .blockSequence =>
        if block then
          let (items, r) ← blockItems? fuel r.skip
          return (.sequence anchor tag items, r)
        else missing? props anchor tag r
      | some .blockMapping =>
        if block then
          let (entries, r) ← blockEntries? fuel r.skip
          return (.mapping anchor tag entries, r)
        else missing? props anchor tag r
      | _ => missing? props anchor tag r

/-- A node of which only the properties are written. -/
def missing? (props : Properties) (anchor : Option Nat) (tag : Option String) (r : Reader) :
    Option (Node × Reader) :=
  if props.anchor.isSome || props.tag.isSome then some (.scalar anchor tag true "", r) else none

/-- A node, or an empty one before a token that ends it. -/
def readOr? (fuel : Nat) (block unindented : Bool) (stops : List Token) (r : Reader) :
    Option (Node × Reader) :=
  match fuel with
  | 0 => none
  | fuel + 1 => if isAt stops r then some (empty, r) else read? fuel block unindented r

def blockItems? (fuel : Nat) (r : Reader) : Option (List Node × Reader) :=
  match fuel with
  | 0 => none
  | fuel + 1 =>
    match r.next? with
    | some .blockEntry => do
      let (item, r) ← readOr? fuel true false [.blockEntry, .blockEnd] r.skip
      let (items, r) ← blockItems? fuel r
      return (item :: items, r)
    | some .blockEnd => some ([], r.skip)
    | _ => none

def unindentedItems? (fuel : Nat) (r : Reader) : Option (List Node × Reader) :=
  match fuel with
  | 0 => none
  | fuel + 1 =>
    match r.next? with
    | some .blockEntry => do
      let (item, r) ← readOr? fuel true false [.blockEntry, .key, .value, .blockEnd] r.skip
      let (items, r) ← unindentedItems? fuel r
      return (item :: items, r)
    | _ => some ([], r)

def blockEntries? (fuel : Nat) (r : Reader) : Option (List (Node × Node) × Reader) :=
  match fuel with
  | 0 => none
  | fuel + 1 =>
    match r.next? with
    | some .blockEnd => some ([], r.skip)
    | some .key => do
      let (key, r) ← readOr? fuel true true [.key, .value, .blockEnd] r.skip
      blockValue? fuel key r
    | some .value => blockValue? fuel empty r
    | _ => none

/-- The value of a key, and the entries after it. -/
def blockValue? (fuel : Nat) (key : Node) (r : Reader) : Option (List (Node × Node) × Reader) :=
  match fuel with
  | 0 => none
  | fuel + 1 => do
    let (value, r) ← if r.next? = some .value then
        readOr? fuel true true [.key, .value, .blockEnd] r.skip
      else some (empty, r)
    let (entries, r) ← blockEntries? fuel r
    return ((key, value) :: entries, r)

def flowItems? (fuel : Nat) (first : Bool) (r : Reader) : Option (List Node × Reader) :=
  match fuel with
  | 0 => none
  | fuel + 1 =>
    if r.next? = some .flowSequenceEnd then some ([], r.skip)
    else if !first && r.next? ≠ some .flowEntry then none
    else
      let r := if first then r else r.skip
      match r.next? with
      | some .key => do
        let (entry, r) ← pair? fuel r.skip
        let (items, r) ← flowItems? fuel false r
        return (.mapping none none [entry] :: items, r)
      | some .flowSequenceEnd => some ([], r.skip)
      | _ => do
        let (item, r) ← read? fuel false false r
        let (items, r) ← flowItems? fuel false r
        return (item :: items, r)

/-- The one entry of a mapping without brackets. Where its key is not written, the token after the
sign of the key is passed over. -/
def pair? (fuel : Nat) (r : Reader) : Option ((Node × Node) × Reader) :=
  match fuel with
  | 0 => none
  | fuel + 1 => do
    let (key, r) ← if isAt [.value, .flowEntry, .flowSequenceEnd] r then some (empty, r.skip)
      else read? fuel false false r
    let (value, r) ← if r.next? = some .value then
        readOr? fuel false false [.flowEntry, .flowSequenceEnd] r.skip
      else some (empty, r)
    return ((key, value), r)

def flowEntries? (fuel : Nat) (first : Bool) (r : Reader) : Option (List (Node × Node) × Reader) :=
  match fuel with
  | 0 => none
  | fuel + 1 =>
    if r.next? = some .flowMappingEnd then some ([], r.skip)
    else if !first && r.next? ≠ some .flowEntry then none
    else
      let r := if first then r else r.skip
      match r.next? with
      | some .key => do
        let (key, r) ← readOr? fuel false false [.value, .flowEntry, .flowMappingEnd] r.skip
        let (value, r) ← if r.next? = some .value then
            readOr? fuel false false [.flowEntry, .flowMappingEnd] r.skip
          else some (empty, r)
        let (entries, r) ← flowEntries? fuel false r
        return ((key, value) :: entries, r)
      | some .flowMappingEnd => some ([], r.skip)
      | _ => do
        let (key, r) ← read? fuel false false r
        let (entries, r) ← flowEntries? fuel false r
        return ((key, empty) :: entries, r)

end

/-! ## Documents -/

/-- The directives in front of a document: the handles they define and the tokens left. -/
def directives? (versioned : Bool) (handles : List (String × String)) :
    List Token → Option (List (String × String) × List Token)
  | .version major minor :: rest =>
    if versioned || major ≠ 1 || (minor ≠ 1 && minor ≠ 2) then none
    else directives? true handles rest
  | .tagHandle handle meaning :: rest =>
    if (handles.lookup handle).isSome then none
    else directives? versioned (handles ++ [(handle, meaning)]) rest
  | rest => some (handles, rest)

def standardHandles : List (String × String) := [("!", "!"), ("!!", "tag:yaml.org,2002:")]

/-- The root of the one document that tokens make, if there is one; none if they make no document
or several. -/
def ofTokens? (tokens : List Token) : Option (Option Node) := do
  if tokens.isEmpty then some none
  else
    let (handles, rest) ← directives? false [] tokens
    let isExplicit := rest.head? = some .documentStart
    if !isExplicit && rest.length ≠ tokens.length then none
    else
      let rest := if isExplicit then rest.tail else rest
      let r : Reader := ⟨rest, [], handles ++ standardHandles⟩
      let ends := match rest with
        | [] | .version .. :: _ | .tagHandle .. :: _ | .documentStart :: _ | .documentEnd :: _ => true
        | _ => false
      let (node, r) ← if isExplicit && ends then some (empty, r)
        else read? (4 * rest.length + 4) true false r
      if r.tokens.all (· = .documentEnd) then some (some node) else none

/-! ## Aliases -/

mutual

/-- The anchored nodes with their numbers, in the order they are written. -/
def anchored : Node → List (Nat × Node)
  | .scalar anchor tag plain text => (anchor.map (·, Node.scalar anchor tag plain text)).toList
  | .sequence anchor tag items =>
    (anchor.map (·, Node.sequence anchor tag items)).toList ++ anchoredItems items
  | .mapping anchor tag entries =>
    (anchor.map (·, Node.mapping anchor tag entries)).toList ++ anchoredEntries entries
  | .alias _ => []

def anchoredItems : List Node → List (Nat × Node)
  | [] => []
  | n :: rest => n.anchored ++ anchoredItems rest

def anchoredEntries : List (Node × Node) → List (Nat × Node)
  | [] => []
  | (k, v) :: rest => k.anchored ++ v.anchored ++ anchoredEntries rest

end

mutual

/-- How many events write a node: one for a scalar or an alias, and two more for a collection. -/
def eventCount : Node → Nat
  | .scalar .. => 1
  | .alias _ => 1
  | .sequence _ _ items => 2 + itemEvents items
  | .mapping _ _ entries => 2 + entryEvents entries

def itemEvents : List Node → Nat
  | [] => 0
  | n :: rest => n.eventCount + itemEvents rest

def entryEvents : List (Node × Node) → Nat
  | [] => 0
  | (k, v) :: rest => k.eventCount + v.eventCount + entryEvents rest

end

end Node

end TableEscrow.Yaml
