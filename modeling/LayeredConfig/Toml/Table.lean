import LayeredConfig.Document.Basic
import LayeredConfig.Toml.Basic

/-!
# TOML: tables

The tables of a document while it is read. Keys with several parts lead through tables that are made
on the way; a part that leads to an array of tables goes on in its last table.
-/

namespace LayeredConfig.Toml

abbrev Table := List (Scalar × Document)

namespace Table

def get? (t : Table) (name : String) : Option Document :=
  (t.find? (·.1.same (.str name))).map Prod.snd

def set (t : Table) (name : String) (d : Document) : Table :=
  Document.putField (.str name) d t

/-- The table with `change` made to the table that `key` leads to. It fails with `none` where the
key leads to something that is no table. -/
def alter (change : Table → Option Table) (throughArrays : Bool) : (key : List String) →
    Table → Option Table
  | [], t => change t
  | name :: rest, t =>
    match t.get? name with
    | none => do return t.set name (.map (← alter change throughArrays rest []))
    | some (.map inner) => do
      return t.set name (.map (← alter change throughArrays rest inner))
    | some (.list items) =>
      match throughArrays, items.getLast? with
      | true, some (.map inner) => do
        let inner ← alter change throughArrays rest inner
        return t.set name (.list (items.dropLast ++ [.map inner]))
      | _, _ => none
    | some (.scalar _) => none

/-- The table with a new field `name`, which must not be there yet. -/
def add (name : String) (d : Document) (t : Table) : Option Table :=
  match t.get? name with
  | none => some (t.set name d)
  | some _ => none

/-- The table with a new table at the end of the array `name`. -/
def append (name : String) (t : Table) : Option Table :=
  match t.get? name with
  | none => some (t.set name (.list [.map []]))
  | some (.list items) => some (t.set name (.list (items ++ [.map []])))
  | some _ => none

end Table

/-- What has been read so far. Values in brackets and braces are frozen with everything below them;
a table that was declared, or that dotted keys of an earlier section made, cannot be declared. -/
structure Draft where
  table : Table := []
  header : List String := []
  frozen : List (List String) := []
  declared : List (List String) := []
  /-- Tables that dotted keys of the current section made. -/
  pending : List (List String) := []

namespace Draft

def isFrozen (d : Draft) (key : List String) : Bool :=
  d.frozen.any (·.isPrefixOf key)

def isDeclared (d : Draft) (key : List String) : Bool :=
  d.declared.contains key

/-- A new section starts. -/
def endSection (d : Draft) : Draft :=
  { d with declared := d.pending ++ d.declared, pending := [] }

/-- The draft with the section of the table `key` open. -/
def declareTable (d : Draft) (key : List String) : Except Problem Draft :=
  if d.isDeclared key || d.isFrozen key then .error (.declaredTwice key)
  else match d.table.alter some true key with
    | none => .error .overwritten
    | some table => .ok { d with table, header := key, declared := key :: d.declared }

/-- The draft with the section of a new table in the array `key` open. What was known of the places
below the array belongs to its earlier tables. -/
def declareItem (d : Draft) (key : List String) : Except Problem Draft :=
  if d.isFrozen key then .error (.immutable key)
  else match d.table.alter (Table.append (key.getLastD "")) true key.dropLast with
    | none => .error .overwritten
    | some table => .ok { d with
        table
        header := key
        frozen := d.frozen.filter fun k => !key.isPrefixOf k
        declared := key :: d.declared.filter fun k => !key.isPrefixOf k }

/-- The tables below the header that lead to the last part of a key. -/
def tablesOnTheWay (d : Draft) (key : List String) : List (List String) :=
  (List.range (key.length - 1)).map fun n => d.header ++ key.take (n + 1)

def isContainer : Document → Bool
  | .scalar _ => false
  | _ => true

def assign (d : Draft) (key : List String) (value : Document) : Except Problem Draft :=
  let onTheWay := d.tablesOnTheWay key
  match onTheWay.find? d.isDeclared with
  | some table => .error (.redefined table)
  | none =>
    let place := d.header ++ key
    if d.isFrozen place.dropLast then .error (.immutable place.dropLast)
    else match d.table.alter (Table.add (place.getLastD "") value) true place.dropLast with
      | none => .error .overwritten
      | some table => .ok { d with
          table
          pending := onTheWay ++ d.pending
          frozen := if isContainer value then place :: d.frozen else d.frozen }

end Draft

end LayeredConfig.Toml
