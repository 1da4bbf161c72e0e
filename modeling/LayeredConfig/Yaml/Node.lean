import LayeredConfig.Yaml.Lexer
import LayeredConfig.Yaml.Resolve

/-!
# YAML: nodes

The nodes of a document, numbered in the order in which they start. An alias is the node of its
anchor, so a node may stand in several places and even inside itself. A part that is left out is an
empty scalar.
-/

namespace LayeredConfig.Yaml

inductive Content where
  | scalar (text : Text)
  | sequence (items : List Nat)
  | mapping (pairs : List (Nat × Nat))
  deriving Repr

def Content.shape : Content → Shape
  | .scalar _ => .scalar
  | .sequence _ => .sequence
  | .mapping _ => .mapping

structure Node where
  tag : String
  place : Location
  content : Content
  deriving Repr

instance : Inhabited Node := ⟨⟨Tag.null, ⟨1, 1⟩, .scalar ""⟩⟩

/-- The state of reading nodes: the tokens that are left and the problem behind them, the nodes so
far, and the names that stand for nodes and for the starts of tags. -/
structure NodeDraft where
  tokens : List Token
  problem : Option Stop
  nodes : Array Node := #[]
  anchors : List (String × Nat) := []
  handles : List (String × String) := []

abbrev NodeReader := StateT NodeDraft (Except Stop)

namespace NodeReader

def peek : NodeReader Token := do
  let d ← get
  match d.tokens with
  | t :: _ => return t
  | [] => throw (d.problem.getD (.fault .tooDeep))

def pop : NodeReader Token := do
  let t ← peek
  modify fun d => { d with tokens := d.tokens.drop 1 }
  return t

def stop {α : Type} (p : Problem) (place : Location) : NodeReader α :=
  throw (.problem p place)

def nextIsIn (symbols : List Symbol) : NodeReader Bool := do
  return symbols.contains (← peek).symbol

-- ---------------------------------------------------------------------------
-- Nodes
-- ---------------------------------------------------------------------------

/-- A new node. An anchor may name only one node. -/
def add (anchor : Option String) (node : Node) : NodeReader Nat := do
  let d ← get
  let number := d.nodes.size
  if let some name := anchor then
    if (d.anchors.lookup name).isSome then stop .repeatedAnchor node.place
    modify fun d => { d with anchors := (name, number) :: d.anchors }
  modify fun d => { d with nodes := d.nodes.push node }
  return number

/-- The content of a collection, once it is known. -/
def setContent (number : Nat) (content : Content) : NodeReader Unit :=
  modify fun d => { d with nodes := d.nodes.modify number ({ · with content }) }

def addEmpty (place : Location) : NodeReader Nat := add none ⟨Tag.null, place, .scalar ""⟩

/-- A tag that was written, unless it leaves the choice open. -/
def chosenTag (tag : Option String) (default : String) : String :=
  match tag with
  | none => default
  | some "!" => default
  | some t => t

def takeAlias (name : String) : NodeReader Nat := do
  let t ← pop
  match (← get).anchors.lookup name with
  | some number => return number
  | none => stop (.undefinedAlias name) t.start

-- ---------------------------------------------------------------------------
-- Anchors and tags
-- ---------------------------------------------------------------------------

/-- What stands before a node, and where it starts. -/
structure Properties where
  anchor : Option String := none
  tag : Option String := none
  start : Option Location := none

def fullTag (handle : Option String) (suffix : String) (place : Location) :
    NodeReader String := do
  match handle with
  | none => return suffix
  | some h =>
    match (← get).handles.lookup h with
    | some start => return start ++ suffix
    | none => stop (.undefinedHandle h) place

def takeProperties : NodeReader Properties := do
  let first ← peek
  match first.symbol with
  | .anchor name =>
    discard pop
    let second ← peek
    match second.symbol with
    | .tag handle suffix =>
      discard pop
      return ⟨some name, ← fullTag handle suffix second.start, some first.start⟩
    | _ => return ⟨some name, none, some first.start⟩
  | .tag handle suffix =>
    discard pop
    let second ← peek
    let anchor ← match second.symbol with
      | .anchor name => discard pop; pure (some name)
      | _ => pure none
    return ⟨anchor, ← fullTag handle suffix first.start, some first.start⟩
  | _ => return {}

-- ---------------------------------------------------------------------------
-- Collections
-- ---------------------------------------------------------------------------

/-- Where a node may start a block, and where a sequence may stand without further indentation. -/
structure Position where
  block : Bool
  indentless : Bool

def Position.inFlow : Position := ⟨false, false⟩

def Position.inBlock : Position := ⟨true, false⟩

def Position.inMapping : Position := ⟨true, true⟩

mutual

/-- The next node. `fuel` bounds the nodes and items that are read; every one of them uses up a
token. -/
def takeNode : (fuel : Nat) → Position → NodeReader Nat
  | 0, _ => throw (.fault .tooDeep)
  | fuel + 1, position => do
    if let .alias name := (← peek).symbol then return ← takeAlias name
    let properties ← takeProperties
    let t ← peek
    let place := properties.start.getD t.start
    let collection (tag : String) (content : Content) : NodeReader Nat :=
      add properties.anchor ⟨chosenTag properties.tag tag, place, content⟩
    match t.symbol with
    | .scalar text isPlain =>
      discard pop
      let tag := match properties.tag with
        | none => if isPlain then resolve text else Tag.str
        | tag => chosenTag tag (resolve text)
      add properties.anchor ⟨tag, place, .scalar text⟩
    | .flowSequenceStart =>
      let number ← collection Tag.seq (.sequence [])
      discard pop
      setContent number (.sequence (← takeFlowItems fuel true))
      return number
    | .flowMappingStart =>
      let number ← collection Tag.map (.mapping [])
      discard pop
      setContent number (.mapping (← takeFlowPairs fuel true))
      return number
    | symbol =>
      if symbol = .blockEntry && position.indentless then
        let number ← collection Tag.seq (.sequence [])
        setContent number (.sequence (← takeIndentlessItems fuel))
        return number
      else if symbol = .blockSequenceStart && position.block then
        let number ← collection Tag.seq (.sequence [])
        discard pop
        setContent number (.sequence (← takeBlockItems fuel))
        return number
      else if symbol = .blockMappingStart && position.block then
        let number ← collection Tag.map (.mapping [])
        discard pop
        setContent number (.mapping (← takeBlockPairs fuel))
        return number
      else if properties.anchor.isSome || properties.tag.isSome then
        add properties.anchor ⟨chosenTag properties.tag Tag.null, place, .scalar ""⟩
      else stop (.expectedContent symbol.shown) t.start

/-- The next node, or an empty one at `place` where one of `ends` comes instead. -/
def takeNodeUnless : (fuel : Nat) → (ends : List Symbol) → (place : Location) → Position →
    NodeReader Nat
  | 0, _, _, _ => throw (.fault .tooDeep)
  | fuel + 1, ends, place, position => do
    if ← nextIsIn ends then addEmpty place else takeNode fuel position

def takeValueNode : (fuel : Nat) → (ends : List Symbol) → Position → NodeReader Nat
  | 0, _, _ => throw (.fault .tooDeep)
  | fuel + 1, ends, position => do
    if ← nextIsIn [.value] then takeNodeUnless fuel ends (← pop).stop position
    else addEmpty (← peek).start

def takeBlockItems : (fuel : Nat) → NodeReader (List Nat)
  | 0 => throw (.fault .tooDeep)
  | fuel + 1 => do
    let t ← peek
    match t.symbol with
    | .blockEntry =>
      discard pop
      let item ← takeNodeUnless fuel [.blockEntry, .blockEnd] t.stop Position.inBlock
      return item :: (← takeBlockItems fuel)
    | .blockEnd =>
      discard pop
      return []
    | symbol => stop (.expectedBlockEnd symbol.shown) t.start

/-- The items of a sequence that is not indented further than the mapping around it. -/
def takeIndentlessItems : (fuel : Nat) → NodeReader (List Nat)
  | 0 => throw (.fault .tooDeep)
  | fuel + 1 => do
    let t ← peek
    match t.symbol with
    | .blockEntry =>
      discard pop
      let item ← takeNodeUnless fuel [.blockEntry, .key, .value, .blockEnd] t.stop Position.inBlock
      return item :: (← takeIndentlessItems fuel)
    | _ => return []

def takeBlockPairs : (fuel : Nat) → NodeReader (List (Nat × Nat))
  | 0 => throw (.fault .tooDeep)
  | fuel + 1 => do
    let t ← peek
    match t.symbol with
    | .key =>
      discard pop
      let ends : List Symbol := [.key, .value, .blockEnd]
      let key ← takeNodeUnless fuel ends t.stop Position.inMapping
      let value ← takeValueNode fuel ends Position.inMapping
      return (key, value) :: (← takeBlockPairs fuel)
    | .blockEnd =>
      discard pop
      return []
    | symbol => stop (.expectedBlockEnd symbol.shown) t.start

/-- The items of a sequence in brackets. An item that starts with a key is a mapping of one
pair. -/
def takeFlowItems : (fuel : Nat) → (isFirst : Bool) → NodeReader (List Nat)
  | 0, _ => throw (.fault .tooDeep)
  | fuel + 1, isFirst => do
    let t ← peek
    if t.symbol ≠ .flowSequenceEnd && !isFirst then
      if t.symbol = .flowEntry then discard pop
      else stop (.expectedInSequence t.symbol.shown) t.start
    let t ← peek
    match t.symbol with
    | .flowSequenceEnd =>
      discard pop
      return []
    | .key =>
      let number ← add none ⟨Tag.map, t.start, .mapping []⟩
      discard pop
      let key ← takeNodeUnless fuel [.value, .flowEntry, .flowSequenceEnd] t.stop Position.inFlow
      let value ← takeValueNode fuel [.flowEntry, .flowSequenceEnd] Position.inFlow
      discard peek
      setContent number (.mapping [(key, value)])
      return number :: (← takeFlowItems fuel false)
    | _ =>
      let item ← takeNode fuel Position.inFlow
      return item :: (← takeFlowItems fuel false)

/-- The pairs of a mapping in braces. A node without the mark of a key is a key without a value. -/
def takeFlowPairs : (fuel : Nat) → (isFirst : Bool) → NodeReader (List (Nat × Nat))
  | 0, _ => throw (.fault .tooDeep)
  | fuel + 1, isFirst => do
    let t ← peek
    if t.symbol ≠ .flowMappingEnd && !isFirst then
      if t.symbol = .flowEntry then discard pop
      else stop (.expectedInMapping t.symbol.shown) t.start
    let t ← peek
    match t.symbol with
    | .flowMappingEnd =>
      discard pop
      return []
    | .key =>
      discard pop
      let key ← takeNodeUnless fuel [.value, .flowEntry, .flowMappingEnd] t.stop Position.inFlow
      let value ← takeValueNode fuel [.flowEntry, .flowMappingEnd] Position.inFlow
      return (key, value) :: (← takeFlowPairs fuel false)
    | _ =>
      let key ← takeNode fuel Position.inFlow
      let value ← addEmpty (← peek).start
      return (key, value) :: (← takeFlowPairs fuel false)

end

-- ---------------------------------------------------------------------------
-- Documents
-- ---------------------------------------------------------------------------

/-- The starts of tags that handles stand for unless a directive says otherwise. -/
def defaultHandles : List (String × String) := [("!", "!"), ("!!", Tag.coreStart)]

/-- The directives before a document. `fuel` bounds their number. -/
def takeDirectives : (fuel : Nat) → (hasVersion : Bool) → (handles : List (String × String)) →
    NodeReader (List (String × String))
  | 0, _, handles => return handles
  | fuel + 1, hasVersion, handles => do
    let t ← peek
    match t.symbol with
    | .directive (.version major _) =>
      discard pop
      if hasVersion then stop .repeatedVersion t.start
      if major ≠ 1 then stop .incompatibleVersion t.start
      takeDirectives fuel true handles
    | .directive (.handle handle start) =>
      discard pop
      if (handles.lookup handle).isSome then stop (.repeatedHandle handle) t.start
      takeDirectives fuel hasVersion (handles ++ [(handle, start)])
    | .directive (.other _) =>
      discard pop
      takeDirectives fuel hasVersion handles
    | _ => return handles

/-- Marks for the end of a document. `fuel` bounds their number. -/
def skipDocumentEnds : (fuel : Nat) → NodeReader Unit
  | 0 => return
  | fuel + 1 => do
    if ← nextIsIn [.documentEnd] then
      discard pop
      skipDocumentEnds fuel

/-- The start of a document that is marked, and its place; nothing at the end of the text. -/
def takeDocumentStart? (fuel : Nat) : NodeReader (Option Location) := do
  skipDocumentEnds fuel
  let first ← peek
  if first.symbol = .streamEnd then return none
  let handles ← takeDirectives fuel false []
  modify fun d => { d with handles := handles ++ defaultHandles }
  let t ← peek
  if t.symbol ≠ .documentStart then stop (.expectedDocument t.symbol.shown) t.start
  discard pop
  return some first.start

def isDirective : Symbol → Bool
  | .directive _ => true
  | _ => false

def takeMarkedRoot (fuel : Nat) : NodeReader Nat := do
  let t ← peek
  if isDirective t.symbol || [.documentStart, .documentEnd, .streamEnd].contains t.symbol then
    addEmpty t.start
  else takeNode fuel Position.inBlock

/-- The root of the only document; nothing if the text has none. -/
def takeRoot? (fuel : Nat) : NodeReader (Option Nat) := do
  discard pop
  let t ← peek
  let root? ←
    if isDirective t.symbol || [.documentStart, .streamEnd].contains t.symbol then do
      match ← takeDocumentStart? fuel with
      | none => pure none
      | some _ => some <$> takeMarkedRoot fuel
    else do
      modify fun d => { d with handles := defaultHandles }
      some <$> takeNode fuel Position.inBlock
  if root?.isSome then
    if ← nextIsIn [.documentEnd] then discard pop
    if let some place ← takeDocumentStart? fuel then stop .anotherDocument place
  return root?

end NodeReader

def readNodes (cs : List Char) : Except Stop (Option Nat × Array Node) := do
  let (tokens, problem) := tokens cs
  let (root?, d) ← (NodeReader.takeRoot? (4 * tokens.length + 8)).run { tokens, problem }
  return (root?, d.nodes)

end LayeredConfig.Yaml
