import LayeredConfig.Proofs.Failures
import LayeredConfig.Proofs.Number.Integer
import LayeredConfig.Tree.Flatten

/-!
# Faults of the walk

The walk over a document refuses a container inside itself, a whole number of more than 64 bits, and
values that no configuration holds. It has one fault only: a whole number too long to be written,
either as the text of a key or in the message that refuses it as a value.
-/

namespace LayeredConfig

def Failure.Within (P : Fault → Prop) : Failure → Prop
  | .config _ => True
  | .fault f => P f

theorem Failure.Within.imp {P Q : Fault → Prop} {e : Failure} (h : e.Within P)
    (hPQ : ∀ f, P f → Q f) : e.Within Q := by
  cases e with
  | config e => trivial
  | fault f => exact hPQ f h

theorem FailsOnly.fault {α : Type} {P : Fault → Prop} {x : Except Fault α} (h : FailsOnly P x) :
    FailsOnly (Failure.Within P) (x.mapError Failure.fault) :=
  failsOnly_mapError.2 h

theorem failsOnly_config {α : Type} {P : Fault → Prop} (x : Except ConfigError α) :
    FailsOnly (Failure.Within P) (x.mapError Failure.config) :=
  failsOnly_mapError.2 fun _ _ => trivial

/-- How a walk fails: with one of these faults, or because of what it meets at a path. -/
inductive Failure.OfWalk (P : Fault → Prop) : Failure → Prop where
  | fault {f : Fault} (h : P f) : OfWalk P (.fault f)
  | recursive (path : Path) : OfWalk P (Graph.recursive path)
  | wide (path : Path) (digits : String) : OfWalk P <| .config <| .invalidStructure <|
      "integer at '" ++ path.text ++ "' does not fit in 64 bits: " ++ digits
  | unsupported (path : Path) (typeName : String) : OfWalk P <| .config <| .invalidStructure <|
      "unsupported value at '" ++ path.text ++ "': " ++ typeName

theorem Failure.OfWalk.within {P : Fault → Prop} {e : Failure} (h : e.OfWalk P) : e.Within P := by
  cases h with
  | fault h => exact h
  | recursive path => trivial
  | wide path digits => trivial
  | unsupported path typeName => trivial

/-- A walk ends with a fault or with a message, and no message of it speaks of duplicates. -/
theorem Failure.OfWalk.fault_or_message {P : Fault → Prop} {e : Failure} (h : e.OfWalk P) :
    (∃ f, e = .fault f ∧ P f) ∨
      ∃ message, e = .config (.invalidStructure message) ∧
        message.points.head? ≠ some (.char 'd') := by
  -- The messages start with other letters.
  cases h with
  | fault h => exact .inl ⟨_, rfl, h⟩
  | recursive path => exact .inr ⟨_, rfl, by simp⟩
  | wide path digits => exact .inr ⟨_, rfl, by simp⟩
  | unsupported path typeName => exact .inr ⟨_, rfl, by simp⟩

theorem FailsOnly.faultOfWalk {α : Type} {P : Fault → Prop} {x : Except Fault α}
    (h : FailsOnly P x) : FailsOnly (Failure.OfWalk P) (x.mapError Failure.fault) :=
  failsOnly_mapError.2 fun f hf => .fault (h f hf)

namespace Scalar

/-- Writing the scalar as text has only these faults. -/
def Writes (P : Fault → Prop) (s : Scalar) : Prop :=
  ∀ n, s = .leaf (.int n) → FailsOnly P (integerText n)

theorem integerText_failsOnly (n : Int) : FailsOnly (· = .integerTooLong) (integerText n) := by
  unfold integerText
  split
  · exact failsOnly_ok
  · exact failsOnly_error.2 rfl

theorem writes_integerTooLong (s : Scalar) : s.Writes (· = .integerTooLong) :=
  fun n _ => integerText_failsOnly n

variable {P : Fault → Prop} {s : Scalar}

theorem Writes.plainText (h : s.Writes P) : FailsOnly P s.plainText := by
  cases s with
  | leaf v =>
    cases v with
    | int n => exact (h n rfl).map Text.ofString
    | _ => exact failsOnly_ok
  | _ => exact failsOnly_ok

theorem Writes.keyText (h : s.Writes P) : FailsOnly P s.keyText := by
  unfold Scalar.keyText
  split
  · exact failsOnly_ok
  · exact failsOnly_ok
  · exact failsOnly_ok
  · exact h.plainText

theorem Writes.toLeaf (h : s.Writes P) (path : Path) :
    FailsOnly (Failure.OfWalk P) (s.toLeaf path) := by
  cases s with
  | leaf v =>
    cases v with
    | int n =>
      simp only [Scalar.toLeaf]
      split
      · exact failsOnly_ok
      · exact (h n rfl).faultOfWalk.bind fun _ => failsOnly_throw.2 (.wide path _)
    | _ => exact failsOnly_ok
  | moment m => exact failsOnly_ok
  | foreign _ _ _ => exact failsOnly_error.2 (.unsupported path _)

def Short (s : Scalar) : Prop := s.Writes fun _ => False

theorem short_int {n : Int} (h : n.natAbs < 10 ^ Integer.digitLimit) :
    (Scalar.leaf (.int n)).Short := by
  intro m hm
  obtain rfl : n = m := by simpa using hm
  unfold integerText
  rw [Integer.text?_of_lt h]
  exact failsOnly_ok

theorem short_str (s : Text) : (str s).Short := nofun

end Scalar

namespace Document

mutual

def All (P : Scalar → Prop) : Document → Prop
  | .scalar s => P s
  | .list items => AllItems P items
  | .map fields => AllFields P fields

def AllItems (P : Scalar → Prop) : List Document → Prop
  | [] => True
  | d :: rest => d.All P ∧ AllItems P rest

def AllFields (P : Scalar → Prop) : List (Scalar × Document) → Prop
  | [] => True
  | (k, d) :: rest => P k ∧ d.All P ∧ AllFields P rest

end

variable {P : Scalar → Prop}

theorem allItems_iff {items : List Document} : AllItems P items ↔ ∀ d ∈ items, d.All P := by
  induction items with
  | nil => exact iff_of_true trivial (List.forall_mem_nil _)
  | cons d rest ih => rw [AllItems, ih, List.forall_mem_cons]

theorem allFields_iff {fields : List (Scalar × Document)} :
    AllFields P fields ↔ ∀ f ∈ fields, P f.1 ∧ f.2.All P := by
  induction fields with
  | nil => exact iff_of_true trivial (List.forall_mem_nil _)
  | cons f rest ih => rw [AllFields, ih, List.forall_mem_cons, and_assoc]

mutual

theorem all_of_forall (h : ∀ s, P s) : (d : Document) → d.All P
  | .scalar s => by simpa only [All] using h s
  | .list items => by simpa only [All] using allItems_of_forall h items
  | .map fields => by simpa only [All] using allFields_of_forall h fields

theorem allItems_of_forall (h : ∀ s, P s) : (items : List Document) → AllItems P items
  | [] => by simp only [AllItems]
  | d :: rest => by
    simp only [AllItems]
    exact ⟨all_of_forall h d, allItems_of_forall h rest⟩

theorem allFields_of_forall (h : ∀ s, P s) :
    (fields : List (Scalar × Document)) → AllFields P fields
  | [] => by simp only [AllFields]
  | (k, d) :: rest => by
    simp only [AllFields]
    exact ⟨h k, all_of_forall h d, allFields_of_forall h rest⟩

end

variable {Q : Fault → Prop}

theorem fieldPath_failsOnly {key : Scalar} (h : key.Writes Q) (path : Path) :
    FailsOnly (Failure.OfWalk Q) (fieldPath path key) :=
  h.keyText.faultOfWalk.bind fun _ => failsOnly_pure

mutual

theorem flattenAt_failsOnly : (d : Document) → d.All (Scalar.Writes Q) → (path : Path) →
    (found : Tree Leaf) → FailsOnly (Failure.OfWalk Q) (d.flattenAt path found)
  | .scalar s, h, path, found => by
    simp only [All] at h
    simp only [flattenAt]
    exact (h.toLeaf path).bind fun _ => failsOnly_pure
  | .list items, h, path, found => by
    simp only [All] at h
    simpa only [flattenAt] using flattenItems_failsOnly items h path 0 found
  | .map fields, h, path, found => by
    simp only [All] at h
    simpa only [flattenAt] using flattenFields_failsOnly fields h path found

theorem flattenItems_failsOnly : (items : List Document) → AllItems (Scalar.Writes Q) items →
    (path : Path) → (position : Nat) → (found : Tree Leaf) →
    FailsOnly (Failure.OfWalk Q) (flattenItems path position found items)
  | [], _, _, _, _ => by
    simp only [flattenItems]
    exact failsOnly_ok
  | d :: rest, h, path, position, found => by
    simp only [AllItems] at h
    simp only [flattenItems]
    exact (flattenAt_failsOnly d h.1 _ _).bind fun _ => flattenItems_failsOnly rest h.2 _ _ _

theorem flattenFields_failsOnly : (fields : List (Scalar × Document)) →
    AllFields (Scalar.Writes Q) fields → (path : Path) → (found : Tree Leaf) →
    FailsOnly (Failure.OfWalk Q) (flattenFields path found fields)
  | [], _, _, _ => by
    simp only [flattenFields]
    exact failsOnly_ok
  | (k, d) :: rest, h, path, found => by
    simp only [AllFields] at h
    simp only [flattenFields]
    exact (fieldPath_failsOnly h.1 path).bind fun _ =>
      (flattenAt_failsOnly d h.2.1 _ _).bind fun _ => flattenFields_failsOnly rest h.2.2 _ _

end

theorem flatten_failsOnly {d : Document} (h : d.All (Scalar.Writes Q)) :
    FailsOnly (Failure.OfWalk Q) d.flatten :=
  flattenAt_failsOnly d h _ _

end Document

namespace Graph

theorem flattenFrom_failsOnly {Q : Fault → Prop} (hQ : ∀ s : Scalar, s.Writes Q) {g : Graph}
    {fuel : Nat} {ancestors : List Nat} {path : Path} {found : Tree Leaf} {v : Value} :
    FailsOnly (Failure.OfWalk Q) (g.flattenFrom fuel ancestors path found v) := by
  induction fuel generalizing ancestors path found v with
  | zero =>
    cases v with
    | scalar s => exact ((hQ s).toLeaf path).bind fun _ => failsOnly_pure
    | container n => exact failsOnly_error.2 (.recursive path)
  | succ fuel ih =>
    cases v with
    | scalar s => exact ((hQ s).toLeaf path).bind fun _ => failsOnly_pure
    | container n =>
      simp only [flattenFrom]
      split
      · exact failsOnly_error.2 (.recursive path)
      · split
        · exact FailsOnly.foldlM (fun _ _ => ih) _ _
        · exact FailsOnly.foldlM (fun _ _ => ih) _ _
        · refine FailsOnly.foldlM (fun _ f => ?_) _ _
          exact (Document.fieldPath_failsOnly (hQ f.1) path).bind fun _ => ih

theorem flatten_failsOnly {Q : Fault → Prop} (hQ : ∀ s : Scalar, s.Writes Q) (g : Graph) :
    FailsOnly (Failure.OfWalk Q) g.flatten :=
  flattenFrom_failsOnly hQ

end Graph

end LayeredConfig
