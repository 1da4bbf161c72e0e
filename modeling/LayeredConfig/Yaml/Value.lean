import LayeredConfig.Document.Graph
import LayeredConfig.Yaml.Node
import LayeredConfig.Yaml.Scalar

/-!
# YAML: values

The values that nodes stand for. A collection gets its container at once and its contents later, in
the order in which containers were made; so a collection may hold itself, and a node has one value
however often it is referred to. The pairs of a mapping under a merge key are put in front of the
mapping's own pairs, once and for all, when its contents are made or when it is merged itself.
-/

namespace LayeredConfig.Yaml

inductive CollectionKind where
  | seq
  | map
  /-- A list of pairs, each written as a mapping of one pair. -/
  | pairs
  | set
  deriving DecidableEq, Repr

def CollectionKind.ofTag? (tag : String) : Option CollectionKind :=
  if tag = Tag.seq then some .seq
  else if tag = Tag.map then some .map
  else if tag = Tag.omap || tag = Tag.pairs then some .pairs
  else if tag = Tag.set then some .set
  else none

/-- A collection whose contents are still to be made. -/
structure Task where
  kind : CollectionKind
  node : Nat
  container : Nat
  deriving Repr

/-- The state of making values. -/
structure ValueDraft where
  nodes : Array Node
  values : List (Nat × Graph.Value) := []
  containers : Array Graph.Container := #[]
  tasks : List Task := []

abbrev ValueMaker := StateT ValueDraft (Except Stop)

namespace ValueMaker

def node (number : Nat) : ValueMaker Node := do
  return (← get).nodes.getD number default

def stop {α : Type} (p : Problem) (place : Location) : ValueMaker α :=
  throw (.problem p place)

def key? : Graph.Value → Option Scalar
  | .scalar s => if s.isKey then some s else none
  | .container _ => none

-- ---------------------------------------------------------------------------
-- Scalars
-- ---------------------------------------------------------------------------

/-- The text of a node whose tag is one of a scalar. A mapping has the text that it gives under the
key that stands for its value. `fuel` bounds the mappings inside each other. -/
def textOf : (fuel number : Nat) → ValueMaker Text
  | 0, _ => throw (.fault .tooDeep)
  | fuel + 1, number => do
    let n ← node number
    match n.content with
    | .scalar text => return text
    | .sequence _ => stop (.expectedNode .scalar .sequence) n.place
    | .mapping pairs =>
      let nodes := (← get).nodes
      match pairs.find? fun p => (nodes.getD p.1 default).tag = Tag.value with
      | some (_, value) => textOf fuel value
      | none => stop (.expectedNode .scalar .mapping) n.place

def makeScalar (number : Nat) : ValueMaker Graph.Value := do
  let n ← node number
  if (readScalar? n.tag "" n.place 0).isNone then stop (.unknownTag n.tag) n.place
  let text ← textOf ((← get).nodes.size + 1) number
  if n.tag = Tag.timestamp && n.content.shape = .mapping then
    throw (.fault .mappingForTimestamp)
  match readScalar? n.tag text n.place (number + 1) with
  | some (.ok s) => return .scalar s
  | some (.error e) => throw e
  | none => stop (.unknownTag n.tag) n.place

-- ---------------------------------------------------------------------------
-- Nodes
-- ---------------------------------------------------------------------------

def addContainer (c : Graph.Container) : ValueMaker Nat :=
  modifyGet fun d => (d.containers.size, { d with containers := d.containers.push c })

/-- The value of a collection, whose contents become a task. -/
def makeCollection (kind : CollectionKind) (number : Nat) : ValueMaker Graph.Value := do
  let container ← addContainer (if kind = .map then .map [] else .list [])
  modify fun d => { d with tasks := d.tasks ++ [⟨kind, number, container⟩] }
  return if kind = .set then .scalar (.display "set" "set") else .container container

def make (number : Nat) : ValueMaker Graph.Value := do
  match (← get).values.lookup number with
  | some v => return v
  | none =>
    let v ← match CollectionKind.ofTag? (← node number).tag with
      | some kind => makeCollection kind number
      | none => makeScalar number
    modify fun d => { d with values := (number, v) :: d.values }
    return v

-- ---------------------------------------------------------------------------
-- Mappings
-- ---------------------------------------------------------------------------

def tagOf (number : Nat) : ValueMaker String := return (← node number).tag

def pairsOf (number : Nat) : ValueMaker (List (Nat × Nat)) := do
  match (← node number).content with
  | .mapping pairs => return pairs
  | _ => return []

def setPairs (number : Nat) (pairs : List (Nat × Nat)) : ValueMaker Unit :=
  modify fun d => { d with nodes := d.nodes.modify number ({ · with content := .mapping pairs }) }

/-- A key for the value of a mapping is an ordinary string from now on. -/
def retag (number : Nat) : ValueMaker Unit :=
  modify fun d => { d with nodes := d.nodes.modify number fun n =>
    if n.tag = Tag.value then { n with tag := Tag.str } else n }

/-- The first pair with a merge key, which leaves its mapping. -/
def popMerge? (number : Nat) : ValueMaker (Option (Nat × Nat)) := do
  let nodes := (← get).nodes
  let isMerge (p : Nat × Nat) : Bool := (nodes.getD p.1 default).tag = Tag.merge
  let pairs ← pairsOf number
  match pairs.find? isMerge with
  | none => return none
  | some p =>
    setPairs number (pairs.eraseP isMerge)
    return some p

mutual

/-- Replaces the merge keys of a mapping by the pairs that they bring, after `found` from earlier
ones. Of several mappings under one key the last comes first. `fuel` bounds the merge keys. -/
def merge : (fuel : Nat) → (found : List (Nat × Nat)) → (number : Nat) → ValueMaker Unit
  | 0, _, _ => throw (.fault .tooDeep)
  | fuel + 1, found, number => do
    match ← popMerge? number with
    | some (_, source) =>
      let brought ← mergeSource fuel source
      merge fuel (found ++ brought) number
    | none =>
      let own ← pairsOf number
      own.forM fun p => retag p.1
      if !found.isEmpty then setPairs number (found ++ own)

def mergeSource : (fuel : Nat) → (source : Nat) → ValueMaker (List (Nat × Nat))
  | 0, _ => throw (.fault .tooDeep)
  | fuel + 1, source => do
    let n ← node source
    match n.content with
    | .mapping _ =>
      merge fuel [] source
      pairsOf source
    | .sequence items =>
      let groups ← items.mapM fun item => do
        let m ← node item
        if m.content.shape ≠ .mapping then stop (.badMergeItem m.content.shape) m.place
        merge fuel [] item
        pairsOf item
      return groups.reverse.flatten
    | .scalar _ => stop (.badMerge .scalar) n.place

end

/-- How many pairs all mappings have, which bounds the merge keys. -/
def pairCount (nodes : Array Node) : Nat :=
  nodes.foldl (fun n m => match m.content with
    | .mapping pairs => n + pairs.length
    | _ => n) 0

/-- Refuses a mapping that has the same key twice as it stands now. Merge keys do not count, and
values that cannot be keys are refused elsewhere. -/
def checkKeys (seen : List Scalar) : List (Nat × Nat) → ValueMaker Unit
  | [] => return
  | (key, _) :: rest => do
    if (← tagOf key) = Tag.merge then checkKeys seen rest
    else match key? (← make key) with
      | none => checkKeys seen rest
      | some s =>
        if seen.any (·.same s) then throw (.duplicateKey s)
        checkKeys (s :: seen) rest

def makeFields (fields : List (Scalar × Graph.Value)) :
    List (Nat × Nat) → ValueMaker (List (Scalar × Graph.Value))
  | [] => return fields
  | (key, value) :: rest => do
    match key? (← make key) with
    | none => stop .unhashableKey (← node key).place
    | some s => makeFields (Document.putField s (← make value) fields) rest

/-- The fields that a node with the tag of a mapping stands for. -/
def makeMapping (number : Nat) : ValueMaker (List (Scalar × Graph.Value)) := do
  let n ← node number
  match n.content with
  | .mapping pairs =>
    checkKeys [] pairs
    merge (2 * pairCount (← get).nodes + 2) [] number
    makeFields [] (← pairsOf number)
  | .scalar text =>
    if text.isEmpty then stop (.expectedNode .mapping .scalar) n.place
    else throw (.fault .textForEntries)
  | .sequence items =>
    if items.isEmpty then stop (.expectedNode .mapping .sequence) n.place
    else throw (.fault .nodeForEntry)

-- ---------------------------------------------------------------------------
-- Contents
-- ---------------------------------------------------------------------------

/-- A pair written as a mapping of one pair. -/
def makePair (number : Nat) : ValueMaker Graph.Value := do
  let n ← node number
  match n.content with
  | .mapping [(key, value)] =>
    let k ← make key
    let v ← make value
    return .container (← addContainer (.tuple [k, v]))
  | .mapping pairs => stop (.expectedOneItem pairs.length) n.place
  | content => stop (.expectedPair content.shape) n.place

def makeContents (t : Task) : ValueMaker Graph.Container := do
  let n ← node t.node
  match t.kind, n.content with
  | .seq, .sequence items => return .list (← items.mapM make)
  | .seq, content => stop (.expectedNode .sequence content.shape) n.place
  | .pairs, .sequence items => return .list (← items.mapM makePair)
  | .pairs, content => stop (.expectedSequence content.shape) n.place
  | .map, _ => return .map (← makeMapping t.node)
  | .set, _ => return .map (← makeMapping t.node)

/-- Does the tasks, the oldest first. `fuel` bounds their number; every node makes at most one. -/
def finish : (fuel : Nat) → ValueMaker Unit
  | 0 => return
  | fuel + 1 => do
    match (← get).tasks with
    | [] => return
    | t :: rest =>
      modify ({ · with tasks := rest })
      let contents ← makeContents t
      modify fun d => { d with containers := d.containers.setIfInBounds t.container contents }
      finish fuel

def makeAll (number : Nat) : ValueMaker Graph.Value := do
  let v ← make number
  finish ((← get).nodes.size + 1)
  return v

end ValueMaker

/-- The document whose root is a node. A document of null is an empty mapping. -/
def makeGraph (nodes : Array Node) (root? : Option Nat) : Except Stop Graph := do
  let empty : Graph := ⟨#[.map []], .container 0⟩
  match root? with
  | none => return empty
  | some number =>
    let (root, d) ← (ValueMaker.makeAll number).run { nodes }
    if root = .scalar (.leaf .null) then return empty else return ⟨d.containers, root⟩

/-- The position and the code of the first character that no text may hold. -/
def firstUnacceptable? (cs : List Char) : Option (Nat × Char) :=
  let position := (cs.takeWhile isAcceptable).length
  (cs.drop position).head?.map (position, ·)

def readChars (cs : List Char) : Except Stop Graph :=
  match firstUnacceptable? cs with
  | some (position, c) => .error (.unacceptable c.toNat position)
  | none => do
    let (root?, nodes) ← readNodes cs
    makeGraph nodes root?

def read (text : String) : Except Refusal Graph :=
  (readChars text.toList).mapError Stop.refusal

end LayeredConfig.Yaml
