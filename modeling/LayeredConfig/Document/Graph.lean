import LayeredConfig.Document.Basic

/-!
# Document graphs

Documents whose containers have an identity: the same container may stand in several places, even
inside itself. Containers are numbered, and a value names its container by number.
-/

namespace LayeredConfig

namespace Graph

inductive Value where
  | scalar (value : Scalar)
  | container (number : Nat)
  deriving DecidableEq, Repr

instance : Inhabited Value := ⟨.scalar default⟩

inductive Container where
  | list (items : List Value)
  /-- A list that never changes, so that it may be a key. -/
  | tuple (items : List Value)
  | map (fields : List (Scalar × Value))
  deriving Repr

instance : Inhabited Container := ⟨.list []⟩

def Container.typeName : Container → String
  | .list _ => "list"
  | .tuple _ => "tuple"
  | .map _ => "dict"

end Graph

structure Graph where
  containers : Array Graph.Container
  root : Graph.Value
  deriving Repr

namespace Graph

instance : Inhabited Graph := ⟨⟨#[], default⟩⟩

def container (g : Graph) (number : Nat) : Container :=
  g.containers.getD number (.list [])

def typeNameOf (g : Graph) : Value → String
  | .scalar s => s.typeName
  | .container n => (g.container n).typeName

/-- What stands for a container inside itself when a graph is shown as a document. -/
def Container.loop : Container → Scalar
  | .list _ => .display "list" "[...]"
  | .tuple _ => .display "tuple" "(...)"
  | .map _ => .display "dict" "\x7b...\x7d"

/-- The document that a value stands for, with a copy of every shared container in each of its
places. A tuple only shows its contents. A container met inside itself is cut off. `ancestors`
are the containers around the value; `fuel` bounds their number, which the number of containers
does too. -/
def unfoldFrom (g : Graph) : (fuel : Nat) → (ancestors : List Nat) → Value → Document
  | _, _, .scalar s => .scalar s
  | 0, _, .container n => .scalar (g.container n).loop
  | fuel + 1, ancestors, .container n =>
    if ancestors.contains n then .scalar (g.container n).loop
    else match g.container n with
      | .list items => .list (items.map (g.unfoldFrom fuel (n :: ancestors)))
      | .tuple items =>
        let items := items.map (g.unfoldFrom fuel (n :: ancestors))
        .scalar (.display "tuple" (Scalar.tupleShown (items.map Document.shown)))
      | .map fields => .map (fields.map fun f => (f.1, g.unfoldFrom fuel (n :: ancestors) f.2))

/-- The key that a value makes, if it may be one: a scalar or a tuple of keys. `fuel` bounds the
tuples inside each other. -/
def keyFrom (g : Graph) : (fuel : Nat) → Value → Option Scalar
  | _, .scalar s => if s.isKey then some s else none
  | 0, .container _ => none
  | fuel + 1, .container n =>
    match g.container n with
    | .tuple items => (items.mapM (g.keyFrom fuel)).map Scalar.tuple
    | _ => none

def key (g : Graph) : Except Fault Scalar :=
  match g.keyFrom (g.containers.size + 1) g.root with
  | some s => .ok s
  | none => .error .notAKey

def unfold (g : Graph) : Document :=
  g.unfoldFrom (g.containers.size + 1) [] g.root

end Graph

end LayeredConfig
