import LayeredConfig.Number.Integer
import LayeredConfig.Text.Basic

/-!
# Paths

A place in a configuration: the keys and positions that lead to it from the root.
-/

namespace LayeredConfig

/-- One step into an object or an array. -/
inductive Segment where
  | key (name : Text)
  | index (position : Nat)
  deriving DecidableEq, Repr

def Segment.isIndex : Segment → Bool
  | .key _ => false
  | .index _ => true

structure Path where
  segments : List Segment
  deriving DecidableEq, Repr

namespace Path

def root : Path := ⟨[]⟩

instance : Inhabited Path := ⟨root⟩

instance : Append Path := ⟨fun p q => ⟨p.segments ++ q.segments⟩⟩

@[simp] theorem append_segments (p q : Path) : (p ++ q).segments = p.segments ++ q.segments := rfl

def push (p : Path) (s : Segment) : Path := ⟨p.segments ++ [s]⟩

@[simp] theorem push_segments (p : Path) (s : Segment) :
    (p.push s).segments = p.segments ++ [s] := rfl

def key (p : Path) (name : Text) : Path := p.push (.key name)

def index (p : Path) (position : Nat) : Path := p.push (.index position)

def isRoot (p : Path) : Bool := p.segments.isEmpty

def length (p : Path) : Nat := p.segments.length

def parent? (p : Path) : Option Path :=
  if p.isRoot then none else some ⟨p.segments.dropLast⟩

/-- Every shorter path on the way to this one, the nearest first and the root last. -/
def ancestors (p : Path) : List Path :=
  ((List.range p.length).map fun n => ⟨p.segments.take n⟩).reverse

/-- `q` lies strictly below `p`. -/
def isAbove (p q : Path) : Bool :=
  p.length < q.length && p.segments.isPrefixOf q.segments

end Path

end LayeredConfig
