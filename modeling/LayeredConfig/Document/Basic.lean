import LayeredConfig.Document.Scalar

/-!
# Documents

Nested data as the formats describe it: scalars, lists and mappings. In a document every container
occurs in one place; documents that share containers are graphs.
-/

namespace LayeredConfig

inductive Document where
  | scalar (value : Scalar)
  | list (items : List Document)
  | map (fields : List (Scalar × Document))
  deriving Repr

namespace Document

instance : Inhabited Document := ⟨.scalar (.leaf .null)⟩

def leaf (v : Leaf) : Document := .scalar (.leaf v)

def str (s : Text) : Document := leaf (.str s)

def int (n : Int) : Document := leaf (.int n)

def null : Document := leaf .null

def strs (texts : List String) : Document := .list (texts.map fun s : String => str s)

def optional : Option String → Document
  | none => null
  | some s => str s

/-- A mapping with texts as keys. -/
def object (fields : List (Text × Document)) : Document :=
  .map (fields.map fun f => (.str f.1, f.2))

def leaf? : Document → Option Leaf
  | .scalar (.leaf v) => some v
  | _ => none

def typeName : Document → String
  | .scalar s => s.typeName
  | .list _ => "list"
  | .map _ => "dict"

/-- The fields of a mapping with one written: in the place of the same key, which stays as it was,
or at the end. -/
def putField {α : Type} (k : Scalar) (v : α) : List (Scalar × α) → List (Scalar × α)
  | [] => [(k, v)]
  | (l, w) :: rest => if l.same k then (l, v) :: rest else (l, w) :: putField k v rest

/-- The fields of a mapping written one after the other. -/
def fieldsOf {α : Type} (entries : List (Scalar × α)) : List (Scalar × α) :=
  entries.foldl (fun fields e => putField e.1 e.2 fields) []

mutual

def shown : Document → String
  | .scalar s => s.shown
  | .list items => "[" ++ ", ".intercalate (shownItems items) ++ "]"
  | .map fields => "\x7b" ++ ", ".intercalate (shownFields fields) ++ "\x7d"

def shownItems : List Document → List String
  | [] => []
  | d :: rest => d.shown :: shownItems rest

def shownFields : List (Scalar × Document) → List String
  | [] => []
  | (k, d) :: rest => (k.shown ++ ": " ++ d.shown) :: shownFields rest

end

mutual

def scalarCount : Document → Nat
  | .scalar _ => 1
  | .list items => itemsCount items
  | .map fields => fieldsCount fields

def itemsCount : List Document → Nat
  | [] => 0
  | d :: rest => d.scalarCount + itemsCount rest

def fieldsCount : List (Scalar × Document) → Nat
  | [] => 0
  | (_, d) :: rest => d.scalarCount + fieldsCount rest

end

end Document

end LayeredConfig
