import LayeredConfig.Document.Basic
import LayeredConfig.Tree.Basic

/-!
# Trees as documents

Rebuilds the nested document that a tree describes. Containers are made on the way to the first
leaf inside them; array elements that no leaf reaches are null. On a tree that describes no
document the rebuilding may stop with a fault.
-/

namespace LayeredConfig

namespace Document

def emptyFor : Segment → Document
  | .key _ => .map []
  | .index _ => .list []

/-- The items, lengthened with nulls until there is one at `position`. -/
def padTo (position : Nat) (items : List Document) : List Document :=
  items ++ List.replicate (position + 1 - items.length) null

/-- The item of an array that a step leads into; null makes room for a container. -/
def orEmpty (next : Segment) (d : Document) : Document :=
  match d with
  | .scalar (.leaf .null) => emptyFor next
  | d => d

def field? (fields : List (Scalar × Document)) (key : Scalar) : Option Document :=
  (fields.find? (·.1.same key)).map Prod.snd

/-- The document with `value` at the place that the segments lead to. -/
def place (value : Document) : List Segment → Document → Except Fault Document
  | [], d => .ok d
  | [.key name], .map fields => .ok (.map (putField (.str name) value fields))
  | [.key _], _ => .error .keyStore
  | .key name :: next :: rest, .map fields => do
    let inner := (field? fields (.str name)).getD (emptyFor next)
    return .map (putField (.str name) (← place value (next :: rest) inner) fields)
  | .key _ :: _ :: _, _ => .error .keyStep
  | [.index n], .list items => .ok (.list ((padTo n items).set n value))
  | .index n :: next :: rest, .list items => do
    let items := padTo n items
    let inner := orEmpty next (items.getD n null)
    return .list (items.set n (← place value (next :: rest) inner))
  | [.index n], .map fields =>
    if fields.length ≤ n then .error .indexBehindEnd
    else .ok (.map (putField (.leaf (.int n)) value fields))
  | .index n :: next :: rest, .map fields =>
    if fields.length ≤ n then .error .indexBehindEnd
    else match field? fields (.leaf (.int n)) with
      | none => .error .indexOfObject
      | some inner => do
        let inner ← place value (next :: rest) (orEmpty next inner)
        return .map (putField (.leaf (.int n)) inner fields)
  | .index n :: rest, .scalar (.leaf (.str s)) =>
    match s.points[n]? with
    | none => .error .indexBehindEnd
    | some c =>
      if rest.isEmpty then .error .indexStore else place value rest (str ⟨[c]⟩)
  | .index _ :: _, .scalar _ => .error .indexOfScalar

end Document

namespace Tree

/-- The document that a tree describes. The empty tree is the empty object. -/
def nested (t : Tree Leaf) : Except Fault Document :=
  t.entries.foldlM (fun d e => Document.place (.leaf e.2) e.1.segments d)
    (if t.startsWithIndex then .list [] else .map [])

end Tree

end LayeredConfig
