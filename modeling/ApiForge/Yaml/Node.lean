import ApiForge.Yaml.Token
/-!
The node of a YAML document. Aliases stay what they are, so a node is finite
even where it refers to itself; the targets are kept in a table beside it. An
anchor's number is how many different names were anchored before, and of two
nodes with one number the one that starts later is the target. Consumed by
`ApiForge.Document.Item`.
-/

namespace ApiForge.Yaml

/-- A node. -/
inductive Node where
  | alias (target : Nat)
  | scalar (tag : Option Tag) (text : String) (style : ScalarStyle)
  | seq (tag : Option Tag) (items : List Node)
  | map (tag : Option Tag) (bindings : List (Node × Node))
deriving Inhabited

/-- A document: its root, if it has one, and the nodes that aliases stand for. -/
structure Stream where
  root : Option Node
  targets : List (Nat × Node)

namespace Node

mutual

/-- How many beginnings and ends a node has in the stream. -/
def size : Node → Nat
  | .alias _ => 1
  | .scalar _ _ _ => 1
  | .seq _ items => sizeOfItems items + 2
  | .map _ bindings => sizeOfBindings bindings + 2

/-- The size of the items of a list. -/
def sizeOfItems : List Node → Nat
  | [] => 0
  | n :: rest => n.size + sizeOfItems rest

/-- The size of the bindings of a map. -/
def sizeOfBindings : List (Node × Node) → Nat
  | [] => 0
  | (k, v) :: rest => k.size + v.size + sizeOfBindings rest

end

-- ========================================================== reading

/-- What reading a node needs to know and leaves behind. -/
structure State where
  /-- The tokens still to come. -/
  tokens : List Token
  /-- Tag handles with what they are short for. -/
  handles : List (String × Tag) := []
  /-- Anchored names with their numbers, latest first. -/
  names : List (String × Nat) := []
  /-- Nodes by number; an earlier entry counts. -/
  targets : List (Nat × Node) := []

/-- A step that reads part of a node, or finds the stream malformed. -/
abbrev Reader := StateT State Option

/-- The next token. -/
def peek : Reader Token := do
  return (← get).tokens.headD .streamEnd

/-- Passes the next token. -/
def skip : Reader Unit :=
  modify fun s => { s with tokens := s.tokens.tail }

/-- Fails. -/
def malformed {α : Type} : Reader α :=
  StateT.lift none

/-- The node of a place where nothing is written. -/
def empty : Node :=
  scalar none "" .plain

/-- The full tag of a handle and a suffix. -/
def fullTag (handle : String) (suffix : Tag) : Reader Tag := do
  if handle.isEmpty then return suffix
  match (← get).handles.lookup handle with
  | some start => return start.append suffix
  | none => malformed

/-- Takes the number of an anchor: how many different names have been anchored. -/
def claimNumber (name : String) : Reader Nat := do
  let s ← get
  let number := s.names.length
  let others := s.names.filter fun p => p.1 != name
  set { s with names := (name, number) :: others }
  return number

/-- Reads a node and makes it the target of its anchor, unless a node inside it
took the same number. -/
def anchored (anchor : Option String) (read : Reader Node) : Reader Node := do
  match anchor with
  | none => read
  | some name =>
    let number ← claimNumber name
    let before := (← get).targets.length
    let node ← read
    modify fun s =>
      let inner := s.targets.take (s.targets.length - before)
      if inner.any fun p => p.1 == number then s
      else { s with targets := (number, node) :: s.targets }
    return node

/-- Reads the anchor and the tag in front of a node, in either order. -/
def readProperties : Reader (Option String × Option Tag) := do
  match ← peek with
  | .anchor name =>
    skip
    match ← peek with
    | .tag handle suffix =>
      skip
      return (some name, some (← fullTag handle suffix))
    | _ => return (some name, none)
  | .tag handle suffix =>
    skip
    match ← peek with
    | .anchor name =>
      skip
      return (some name, some (← fullTag handle suffix))
    | _ => return (none, some (← fullTag handle suffix))
  | _ => return (none, none)

mutual

/-- Reads a node. `inBlock` says whether it may be a block collection, and
`indentless` whether it may be a list whose dashes stand in the column of the
key around it. -/
def readNode (inBlock indentless : Bool) : Nat → Reader Node
  | 0 => malformed
  | fuel + 1 => do
    match ← peek with
    | .alias name =>
      skip
      match (← get).names.lookup name with
      | some number => return .alias number
      | none => malformed
    | _ =>
      let (anchor, tag) ← readProperties
      let next ← peek
      if indentless && next == .blockEntry then
        anchored anchor (return .seq tag (← readIndentless fuel))
      else
        match next with
        | .scalar text style =>
          skip
          anchored anchor (return .scalar tag text style)
        | .flowSequenceStart =>
          skip
          anchored anchor (return .seq tag (← readFlowItems true fuel))
        | .flowMappingStart =>
          skip
          anchored anchor (return .map tag (← readFlowBindings true fuel))
        | .blockSequenceStart =>
          if !inBlock then malformed
          skip
          anchored anchor (return .seq tag (← readBlockItems fuel))
        | .blockMappingStart =>
          if !inBlock then malformed
          skip
          anchored anchor (return .map tag (← readBlockBindings fuel))
        | _ =>
          if anchor.isSome || tag.isSome then
            anchored anchor (return .scalar tag "" .plain)
          else malformed

/-- Reads the entries of a block sequence. -/
def readBlockItems : Nat → Reader (List Node)
  | 0 => malformed
  | fuel + 1 => do
    match ← peek with
    | .blockEntry =>
      skip
      let item ← match ← peek with
        | .blockEntry => pure empty
        | .blockEnd => pure empty
        | _ => readNode true false fuel
      return item :: (← readBlockItems fuel)
    | .blockEnd =>
      skip
      return []
    | _ => malformed

/-- Reads the entries of a list that has no column of its own. -/
def readIndentless : Nat → Reader (List Node)
  | 0 => malformed
  | fuel + 1 => do
    match ← peek with
    | .blockEntry =>
      skip
      let item ← match ← peek with
        | .blockEntry => pure empty
        | .key => pure empty
        | .value => pure empty
        | .blockEnd => pure empty
        | _ => readNode true false fuel
      return item :: (← readIndentless fuel)
    | _ => return []

/-- Reads a key or a value of a block mapping, which may be left out. -/
def readBlockPart : Nat → Reader Node
  | 0 => malformed
  | fuel + 1 => do
    match ← peek with
    | .key => return empty
    | .value => return empty
    | .blockEnd => return empty
    | _ => readNode true true fuel

/-- Reads the bindings of a block mapping. -/
def readBlockBindings : Nat → Reader (List (Node × Node))
  | 0 => malformed
  | fuel + 1 => do
    match ← peek with
    | .blockEnd =>
      skip
      return []
    | .key =>
      skip
      let k ← readBlockPart fuel
      let v ← match ← peek with
        | .value =>
          skip
          readBlockPart fuel
        | _ => pure empty
      return (k, v) :: (← readBlockBindings fuel)
    | _ => malformed

/-- Reads the items of a flow sequence; `first` says that no comma is due. -/
def readFlowItems (first : Bool) : Nat → Reader (List Node)
  | 0 => malformed
  | fuel + 1 => do
    if (← peek) == .flowSequenceEnd then
      skip
      return []
    if !first then
      if (← peek) == .flowEntry then skip else malformed
    match ← peek with
    | .flowSequenceEnd =>
      skip
      return []
    | .key =>
      skip
      let pair ← readFlowPair fuel
      return pair :: (← readFlowItems false fuel)
    | _ =>
      let item ← readNode false false fuel
      return item :: (← readFlowItems false fuel)

/-- Reads a mapping of one binding inside a flow sequence, from behind the
question mark. A key that is left out takes the next token with it. -/
def readFlowPair : Nat → Reader Node
  | 0 => malformed
  | fuel + 1 => do
    let k ← match ← peek with
      | .value => do skip; pure empty
      | .flowEntry => do skip; pure empty
      | .flowSequenceEnd => do skip; pure empty
      | _ => readNode false false fuel
    let v ← match ← peek with
      | .value =>
        skip
        match ← peek with
        | .flowEntry => pure empty
        | .flowSequenceEnd => pure empty
        | _ => readNode false false fuel
      | _ => pure empty
    return .map none [(k, v)]

/-- Reads the bindings of a flow mapping; `first` says that no comma is due. -/
def readFlowBindings (first : Bool) : Nat → Reader (List (Node × Node))
  | 0 => malformed
  | fuel + 1 => do
    if (← peek) == .flowMappingEnd then
      skip
      return []
    if !first then
      if (← peek) == .flowEntry then skip else malformed
    match ← peek with
    | .flowMappingEnd =>
      skip
      return []
    | .key =>
      skip
      let k ← match ← peek with
        | .value => pure empty
        | .flowEntry => pure empty
        | .flowMappingEnd => pure empty
        | _ => readNode false false fuel
      let v ← match ← peek with
        | .value =>
          skip
          match ← peek with
          | .flowEntry => pure empty
          | .flowMappingEnd => pure empty
          | _ => readNode false false fuel
        | _ => pure empty
      return (k, v) :: (← readFlowBindings false fuel)
    | _ =>
      let k ← readNode false false fuel
      return (k, empty) :: (← readFlowBindings false fuel)

end

-- ======================================================== documents

/-- Reads the directives in front of a document. A version may be given once and
must be 1.1 or 1.2; a handle may be defined once. -/
def readDirectives (versioned : Bool) (handles : List (String × Tag)) :
    List Token → Option (List (String × Tag) × List Token)
  | .version major minor :: rest =>
    if versioned || major != 1 || (minor != 1 && minor != 2) then none
    else readDirectives true handles rest
  | .tagDirective handle replacement :: rest =>
    if (handles.lookup handle).isSome then none
    else readDirectives versioned ((handle, replacement) :: handles) rest
  | tokens => some (handles, tokens)

/-- The handles that need no directive. -/
def standardHandles : List (String × Tag) :=
  [("!", .mark), ("!!", .standard "")]

/-- The document of a stream that holds at most one. -/
def ofTokens? (tokens : List Token) : Option Stream := do
  if tokens.head? == some .streamEnd then return ⟨none, []⟩
  let (handles, rest) ← readDirectives false [] tokens
  let explicit := rest.head? == some .documentStart
  guard (explicit || rest.length == tokens.length)
  let rest := if explicit then rest.tail else rest
  let start : State := { tokens := rest, handles := handles ++ standardHandles }
  let bare := match rest.headD .streamEnd with
    | .version _ _ => true
    | .tagDirective _ _ => true
    | .documentStart => true
    | .documentEnd => true
    | .streamEnd => true
    | _ => false
  let (root, s) ←
    if explicit && bare then some (empty, start)
    else readNode true false (3 * tokens.length + 4) start
  guard ((s.tokens.dropWhile (· == .documentEnd)).head? == some .streamEnd)
  return ⟨some root, s.targets⟩

end Node

/-- The document of an octet stream, nothing for a malformed stream or one with
several documents. -/
def read? (octets : List UInt8) : Option Stream := do
  let cs ← characters? octets
  let tokens ← tokens? (place cs)
  Node.ofTokens? tokens

end ApiForge.Yaml
