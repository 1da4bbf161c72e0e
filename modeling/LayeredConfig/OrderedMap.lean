/-!
# Maps in insertion order

A finite map that remembers the order in which its keys first came. Writing a key again replaces
its value and leaves its place. The order is part of the map: two maps are equal only if they list
the same entries in the same order.
-/

namespace LayeredConfig

structure OrderedMap (κ : Type) (α : Type) where
  entries : List (κ × α)
  distinct : (entries.map Prod.fst).Nodup
  deriving DecidableEq

namespace OrderedMap

variable {κ α β : Type}

theorem ext_entries {m n : OrderedMap κ α} (h : m.entries = n.entries) : m = n := by
  cases m; cases n; cases h; rfl

instance [Repr κ] [Repr α] : Repr (OrderedMap κ α) := ⟨fun m p => reprPrec m.entries p⟩

def empty : OrderedMap κ α := ⟨[], by simp⟩

instance : EmptyCollection (OrderedMap κ α) := ⟨empty⟩

instance : Inhabited (OrderedMap κ α) := ⟨empty⟩

def keys (m : OrderedMap κ α) : List κ := m.entries.map Prod.fst

def size (m : OrderedMap κ α) : Nat := m.entries.length

def isEmpty (m : OrderedMap κ α) : Bool := m.entries.isEmpty

/-- The same keys with their values changed one by one. -/
def mapValues (f : α → β) (m : OrderedMap κ α) : OrderedMap κ β :=
  ⟨m.entries.map fun e => (e.1, f e.2), by simpa [Function.comp_def] using m.distinct⟩

variable [DecidableEq κ]

/-- The entries with one written: in its old place, or at the end. -/
def put (k : κ) (v : α) : List (κ × α) → List (κ × α)
  | [] => [(k, v)]
  | (l, w) :: rest => if l = k then (k, v) :: rest else (l, w) :: put k v rest

theorem map_fst_put (k : κ) (v : α) (entries : List (κ × α)) :
    (put k v entries).map Prod.fst =
      if k ∈ entries.map Prod.fst then entries.map Prod.fst else entries.map Prod.fst ++ [k] := by
  induction entries with
  | nil => simp [put]
  | cons e rest ih =>
    obtain ⟨l, w⟩ := e
    by_cases h : l = k
    · simp [put, h]
    · have h' : ¬ k = l := fun e => h e.symm
      by_cases hk : k ∈ rest.map Prod.fst <;> simp_all [put]

theorem nodup_put {k : κ} {v : α} {entries : List (κ × α)}
    (h : (entries.map Prod.fst).Nodup) : ((put k v entries).map Prod.fst).Nodup := by
  rw [map_fst_put]
  split
  · exact h
  · rename_i hk
    exact List.nodup_append.2 ⟨h, by simp, by
      intro a ha b hb
      rw [List.mem_singleton.1 hb]
      exact fun e => hk (e ▸ ha)⟩

def insert (m : OrderedMap κ α) (k : κ) (v : α) : OrderedMap κ α :=
  ⟨put k v m.entries, nodup_put m.distinct⟩

def get? (m : OrderedMap κ α) (k : κ) : Option α :=
  (m.entries.find? (·.1 = k)).map Prod.snd

def contains (m : OrderedMap κ α) (k : κ) : Bool :=
  (m.get? k).isSome

def singleton (k : κ) (v : α) : OrderedMap κ α := empty.insert k v

/-- Later entries of the list win. -/
def ofList (entries : List (κ × α)) : OrderedMap κ α :=
  entries.foldl (fun m e => m.insert e.1 e.2) empty

/-- Everything of both maps; where they share a key the second one's value wins. -/
def merge (m n : OrderedMap κ α) : OrderedMap κ α :=
  n.entries.foldl (fun m e => m.insert e.1 e.2) m

/-- The same keys with values that `eq` accepts, whatever the order. -/
def equals (eq : α → β → Bool) (m : OrderedMap κ α) (n : OrderedMap κ β) : Bool :=
  m.size == n.size && m.entries.all fun e => (n.get? e.1).any (eq e.2)

-- ---------------------------------------------------------------------------
-- Views after each operation
-- ---------------------------------------------------------------------------

omit [DecidableEq κ] in
@[simp] theorem keys_empty : (empty : OrderedMap κ α).keys = [] := rfl

theorem keys_insert (m : OrderedMap κ α) (k : κ) (v : α) :
    (m.insert k v).keys = if k ∈ m.keys then m.keys else m.keys ++ [k] :=
  map_fst_put k v m.entries

theorem find?_put (k l : κ) (v : α) (entries : List (κ × α)) :
    ((put k v entries).find? (·.1 = l)).map Prod.snd =
      if k = l then some v else (entries.find? (·.1 = l)).map Prod.snd := by
  induction entries with
  | nil => by_cases h : k = l <;> simp [put, h]
  | cons e rest ih =>
    obtain ⟨j, w⟩ := e
    by_cases hj : j = k
    · by_cases h : k = l <;> simp [put, hj, h]
    · by_cases h : j = l
      · subst h
        have hk : ¬ k = j := fun e => hj e.symm
        simp [put, hj, hk]
      · simp [put, hj, h, ih]

theorem get?_insert (m : OrderedMap κ α) (k l : κ) (v : α) :
    (m.insert k v).get? l = if k = l then some v else m.get? l :=
  find?_put k l v m.entries

end OrderedMap

end LayeredConfig
