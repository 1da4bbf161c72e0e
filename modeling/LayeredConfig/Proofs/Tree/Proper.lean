import LayeredConfig.Proofs.Tree.Leaves
import LayeredConfig.Proofs.Tree.Nested

/-!
# Documents with names

A document is `Proper` when its mappings have distinct texts as keys and its scalars are leaves of
some kind. `flatten_proper`: such a document is walked without loss. The tree lists its leaves in
their order, each at the path that leads to it.
-/

namespace LayeredConfig.Document

mutual

/-- Mappings have distinct texts as keys, and scalars are leaves that `P` admits. -/
def Proper (P : Leaf → Prop) : Document → Prop
  | .scalar s => ∃ v, s = .leaf v ∧ P v
  | .list items => ProperItems P items
  | .map fields => (fields.map Prod.fst).Nodup ∧ ProperFields P fields

def ProperItems (P : Leaf → Prop) : List Document → Prop
  | [] => True
  | d :: rest => d.Proper P ∧ ProperItems P rest

def ProperFields (P : Leaf → Prop) : List (Scalar × Document) → Prop
  | [] => True
  | (k, d) :: rest => (∃ name, k = .str name) ∧ d.Proper P ∧ ProperFields P rest

end

variable {P : Leaf → Prop}

theorem properItems_iff {items : List Document} :
    ProperItems P items ↔ ∀ d ∈ items, d.Proper P := by
  induction items with
  | nil => exact iff_of_true trivial nofun
  | cons d rest ih => rw [ProperItems, ih, List.forall_mem_cons]

theorem properFields_iff {fields : List (Scalar × Document)} :
    ProperFields P fields ↔ ∀ f ∈ fields, (∃ name, f.1 = .str name) ∧ f.2.Proper P := by
  induction fields with
  | nil => exact iff_of_true trivial nofun
  | cons f rest ih => rw [ProperFields, ih, List.forall_mem_cons, and_assoc]

-- ---------------------------------------------------------------------------
-- Leaves
-- ---------------------------------------------------------------------------

def deeper (s : Segment) (e : List Segment × Leaf) : List Segment × Leaf := (s :: e.1, e.2)

mutual

def leaves : Document → List (List Segment × Leaf)
  | .scalar (.leaf v) => [([], v)]
  | .scalar _ => []
  | .list items => leavesOfItems 0 items
  | .map fields => leavesOfFields fields

def leavesOfItems (position : Nat) : List Document → List (List Segment × Leaf)
  | [] => []
  | d :: rest => d.leaves.map (deeper (.index position)) ++ leavesOfItems (position + 1) rest

def leavesOfFields : List (Scalar × Document) → List (List Segment × Leaf)
  | [] => []
  | (.leaf (.str name), d) :: rest => d.leaves.map (deeper (.key name)) ++ leavesOfFields rest
  | _ :: rest => leavesOfFields rest

end

def leafAt? : List Segment → Document → Option Leaf
  | [], d => d.leaf?
  | .key name :: rest, .map fields => (field? fields (.str name)).bind (leafAt? rest)
  | .index n :: rest, .list items => items[n]?.bind (leafAt? rest)
  | _ :: _, _ => none

theorem leavesOfFields_str (name : Text) (d : Document) (rest : List (Scalar × Document)) :
    leavesOfFields ((.str name, d) :: rest) =
      d.leaves.map (deeper (.key name)) ++ leavesOfFields rest := by
  rw [Scalar.str, leavesOfFields]

theorem mem_map_deeper {s : Segment} {es : List (List Segment × Leaf)} {q : List Segment}
    {v : Leaf} : (q, v) ∈ es.map (deeper s) ↔ ∃ rest, q = s :: rest ∧ (rest, v) ∈ es := by
  simp only [List.mem_map, deeper, Prod.mk.injEq, Prod.exists]
  constructor
  · rintro ⟨rest, w, hm, rfl, rfl⟩
    exact ⟨rest, rfl, hm⟩
  · rintro ⟨rest, rfl, hm⟩
    exact ⟨rest, v, hm, rfl, rfl⟩

theorem field?_eq_some_iff {fields : List (Scalar × Document)} (hn : (fields.map Prod.fst).Nodup)
    {name : Text} {d : Document} :
    field? fields (.str name) = some d ↔ (.str name, d) ∈ fields := by
  have hfind : field? fields (.str name) = (fields.find? (·.1 = .str name)).map Prod.snd := by
    refine congrArg (fun p => (fields.find? p).map Prod.snd) (funext fun f => ?_)
    rw [Bool.eq_iff_iff, same_str_iff, decide_eq_true_iff]
  rw [hfind, OrderedMap.find?_eq_some_iff hn]

theorem leafAt?_list {items : List Document} {q : List Segment} {v : Leaf} :
    leafAt? q (.list items) = some v ↔
      ∃ n rest, q = .index n :: rest ∧ items[n]?.bind (leafAt? rest) = some v := by
  match q with
  | [] => exact iff_of_false nofun nofun
  | .key _ :: _ => exact iff_of_false nofun nofun
  | .index n :: rest => exact ⟨fun h => ⟨n, rest, rfl, h⟩, fun ⟨_, _, e, h⟩ => by cases e; exact h⟩

theorem leafAt?_map {fields : List (Scalar × Document)} {q : List Segment} {v : Leaf} :
    leafAt? q (.map fields) = some v ↔
      ∃ name rest, q = .key name :: rest ∧
        (field? fields (.str name)).bind (leafAt? rest) = some v := by
  match q with
  | [] => exact iff_of_false nofun nofun
  | .index _ :: _ => exact iff_of_false nofun nofun
  | .key name :: rest =>
    exact ⟨fun h => ⟨name, rest, rfl, h⟩, fun ⟨_, _, e, h⟩ => by cases e; exact h⟩

mutual

theorem mem_leaves : (d : Document) → d.Proper P → {q : List Segment} → {v : Leaf} →
    ((q, v) ∈ d.leaves ↔ leafAt? q d = some v)
  | .scalar s, h, q, v => by
    rw [Proper] at h
    obtain ⟨w, rfl, -⟩ := h
    cases q with
    | nil => simp [leaves, leafAt?, leaf?, eq_comm]
    | cons s q => cases s <;> simp [leaves, leafAt?]
  | .list items, h, q, v => by
    rw [Proper] at h
    rw [leaves, mem_leavesOfItems items h, leafAt?_list]
    simp only [Nat.zero_add]
  | .map fields, h, q, v => by
    rw [Proper] at h
    rw [leaves, mem_leavesOfFields fields h.2, leafAt?_map]
    simp only [Option.bind_eq_some_iff, field?_eq_some_iff h.1]
    constructor
    · rintro ⟨name, d, rest, rfl, hd, hv⟩
      exact ⟨name, rest, rfl, d, hd, hv⟩
    · rintro ⟨name, rest, rfl, d, hd, hv⟩
      exact ⟨name, d, rest, rfl, hd, hv⟩

theorem mem_leavesOfItems : (items : List Document) → ProperItems P items → {position : Nat} →
    {q : List Segment} → {v : Leaf} → ((q, v) ∈ leavesOfItems position items ↔
      ∃ n rest, q = .index (position + n) :: rest ∧ items[n]?.bind (leafAt? rest) = some v)
  | [], _, position, q, v => by simp [leavesOfItems]
  | d :: later, h, position, q, v => by
    rw [ProperItems] at h
    simp only [leavesOfItems, List.mem_append, mem_map_deeper, mem_leaves d h.1,
      mem_leavesOfItems later h.2]
    constructor
    · rintro (⟨rest, rfl, hv⟩ | ⟨n, rest, rfl, hv⟩)
      · exact ⟨0, rest, rfl, hv⟩
      · exact ⟨n + 1, rest, by rw [Nat.add_assoc, Nat.add_comm 1], hv⟩
    · rintro ⟨n, rest, rfl, hv⟩
      cases n with
      | zero => exact .inl ⟨rest, rfl, hv⟩
      | succ n => exact .inr ⟨n, rest, by rw [Nat.add_assoc, Nat.add_comm 1], hv⟩

theorem mem_leavesOfFields : (fields : List (Scalar × Document)) → ProperFields P fields →
    {q : List Segment} → {v : Leaf} → ((q, v) ∈ leavesOfFields fields ↔
      ∃ name d rest, q = .key name :: rest ∧ (.str name, d) ∈ fields ∧ leafAt? rest d = some v)
  | [], _, q, v => by simp [leavesOfFields]
  | (k, d) :: later, h, q, v => by
    rw [ProperFields] at h
    obtain ⟨⟨name, rfl⟩, hd, hl⟩ := h
    simp only [leavesOfFields_str, List.mem_append, mem_map_deeper, mem_leaves d hd,
      mem_leavesOfFields later hl, List.mem_cons, Prod.mk.injEq]
    constructor
    · rintro (⟨rest, rfl, hv⟩ | ⟨other, e, rest, rfl, he, hv⟩)
      · exact ⟨name, d, rest, rfl, .inl ⟨rfl, rfl⟩, hv⟩
      · exact ⟨other, e, rest, rfl, .inr he, hv⟩
    · rintro ⟨other, e, rest, rfl, ⟨hname, rfl⟩ | he, hv⟩
      · cases hname
        exact .inl ⟨rest, rfl, hv⟩
      · exact .inr ⟨other, e, rest, rfl, he, hv⟩

end

theorem nodup_map_deeper {s : Segment} {es : List (List Segment × Leaf)}
    (h : (es.map Prod.fst).Nodup) : ((es.map (deeper s)).map Prod.fst).Nodup := by
  have hmap : (es.map (deeper s)).map Prod.fst = (es.map Prod.fst).map (s :: ·) := by
    rw [List.map_map, List.map_map]
    rfl
  rw [hmap]
  exact h.map (List.cons_injective)

theorem nodup_leaves_append {s : Segment} {es later : List (List Segment × Leaf)}
    (hes : (es.map Prod.fst).Nodup) (hlater : (later.map Prod.fst).Nodup)
    (h : ∀ e ∈ later, e.1.head? ≠ some s) :
    ((es.map (deeper s) ++ later).map Prod.fst).Nodup := by
  rw [List.map_append]
  refine (nodup_map_deeper hes).append hlater ?_
  intro q hq hq'
  obtain ⟨⟨_, v⟩, he, rfl⟩ := List.mem_map.1 hq
  obtain ⟨rest, rfl, -⟩ := mem_map_deeper.1 he
  obtain ⟨f, hf, hfq⟩ := List.mem_map.1 hq'
  exact h f hf (by rw [hfq]; rfl)

mutual

theorem nodup_leaves : (d : Document) → d.Proper P → (d.leaves.map Prod.fst).Nodup
  | .scalar s, h => by
    rw [Proper] at h
    obtain ⟨v, rfl, -⟩ := h
    exact List.nodup_singleton _
  | .list items, h => by
    rw [Proper] at h
    exact nodup_leavesOfItems items h 0
  | .map fields, h => by
    rw [Proper] at h
    exact nodup_leavesOfFields fields h.2 h.1

theorem nodup_leavesOfItems : (items : List Document) → ProperItems P items → (position : Nat) →
    ((leavesOfItems position items).map Prod.fst).Nodup
  | [], _, _ => List.nodup_nil
  | d :: later, h, position => by
    rw [ProperItems] at h
    rw [leavesOfItems]
    refine nodup_leaves_append (nodup_leaves d h.1) (nodup_leavesOfItems later h.2 _) ?_
    rintro ⟨q, v⟩ he hq
    obtain ⟨n, rest, rfl, -⟩ := (mem_leavesOfItems later h.2).1 he
    have hn : position + 1 + n = position := by simpa using hq
    omega

theorem nodup_leavesOfFields : (fields : List (Scalar × Document)) → ProperFields P fields →
    (fields.map Prod.fst).Nodup → ((leavesOfFields fields).map Prod.fst).Nodup
  | [], _, _ => List.nodup_nil
  | (k, d) :: later, h, hn => by
    rw [ProperFields] at h
    obtain ⟨⟨name, rfl⟩, hd, hl⟩ := h
    obtain ⟨hname, hn⟩ := List.nodup_cons.1 hn
    rw [leavesOfFields_str]
    refine nodup_leaves_append (nodup_leaves d hd) (nodup_leavesOfFields later hl hn) ?_
    rintro ⟨q, v⟩ he hq
    obtain ⟨other, e, rest, rfl, hmem, -⟩ := (mem_leavesOfFields later hl).1 he
    obtain rfl : other = name := by simpa using hq
    exact hname (List.mem_map.2 ⟨_, hmem, rfl⟩)

end

-- ---------------------------------------------------------------------------
-- How many leaves
-- ---------------------------------------------------------------------------

mutual

theorem length_leaves : (d : Document) → d.Proper P → d.leaves.length = d.scalarCount
  | .scalar s, h => by
    rw [Proper] at h
    obtain ⟨v, rfl, -⟩ := h
    rw [leaves, scalarCount, List.length_singleton]
  | .list items, h => by
    rw [Proper] at h
    rw [leaves, scalarCount, length_leavesOfItems items h 0]
  | .map fields, h => by
    rw [Proper] at h
    rw [leaves, scalarCount, length_leavesOfFields fields h.2]

theorem length_leavesOfItems : (items : List Document) → ProperItems P items → (position : Nat) →
    (leavesOfItems position items).length = itemsCount items
  | [], _, _ => by rw [leavesOfItems, itemsCount, List.length_nil]
  | d :: rest, h, position => by
    rw [ProperItems] at h
    rw [leavesOfItems, itemsCount, List.length_append, List.length_map, length_leaves d h.1,
      length_leavesOfItems rest h.2]

theorem length_leavesOfFields : (fields : List (Scalar × Document)) → ProperFields P fields →
    (leavesOfFields fields).length = fieldsCount fields
  | [], _ => by rw [leavesOfFields, fieldsCount, List.length_nil]
  | (k, d) :: rest, h => by
    rw [ProperFields] at h
    obtain ⟨⟨name, rfl⟩, hd, hrest⟩ := h
    rw [leavesOfFields_str, fieldsCount, List.length_append, List.length_map, length_leaves d hd,
      length_leavesOfFields rest hrest]

end

theorem leaves_eq_nil_iff {d : Document} (h : d.Proper P) : d.leaves = [] ↔ d.scalarCount = 0 := by
  rw [← length_leaves d h, List.length_eq_zero_iff]

-- ---------------------------------------------------------------------------
-- The walk
-- ---------------------------------------------------------------------------

def rooted (path : Path) (e : List Segment × Leaf) : Path × Leaf := (path ++ ⟨e.1⟩, e.2)

theorem map_rooted_deeper (path : Path) (s : Segment) (es : List (List Segment × Leaf)) :
    (es.map (deeper s)).map (rooted path) = es.map (rooted (path.push s)) := by
  rw [List.map_map]
  refine List.map_congr_left fun e _ => Prod.ext (Path.ext_segments ?_) rfl
  simp [rooted, deeper]

theorem toLeaf_of_fits {v : Leaf} (h : v.Fits) (path : Path) :
    (Scalar.leaf v).toLeaf path = .ok v := by
  cases v with
  | int n => rw [Scalar.toLeaf, if_pos (Leaf.fits_int_iff.1 h)]
  | _ => rfl

theorem fieldPath_str (path : Path) (name : Text) :
    fieldPath path (.str name) = .ok (path.key name) := rfl

mutual

theorem flattenAt_proper (hP : ∀ v, P v → v.Fits) : (d : Document) → d.Proper P →
    (path : Path) → (found : Tree Leaf) →
      d.flattenAt path found = .ok (found.insertAll (d.leaves.map (rooted path)))
  | .scalar s, h, path, found => by
    rw [Proper] at h
    obtain ⟨v, rfl, hv⟩ := h
    have hroot : path ++ ⟨[]⟩ = path := Path.ext_segments (by simp)
    rw [flattenAt, toLeaf_of_fits (hP v hv)]
    simp only [leaves, List.map_cons, List.map_nil, rooted, hroot]
    rfl
  | .list items, h, path, found => by
    rw [Proper] at h
    rw [flattenAt, leaves, flattenItems_proper hP items h path 0 found]
  | .map fields, h, path, found => by
    rw [Proper] at h
    rw [flattenAt, leaves, flattenFields_proper hP fields h.2 path found]

theorem flattenItems_proper (hP : ∀ v, P v → v.Fits) : (items : List Document) →
    ProperItems P items → (path : Path) → (position : Nat) → (found : Tree Leaf) →
    flattenItems path position found items =
      .ok (found.insertAll ((leavesOfItems position items).map (rooted path)))
  | [], _, _, _, _ => rfl
  | d :: rest, h, path, position, found => by
    rw [ProperItems] at h
    rw [flattenItems, flattenAt_proper hP d h.1, leavesOfItems, List.map_append, map_rooted_deeper,
      OrderedMap.insertAll_append]
    exact flattenItems_proper hP rest h.2 path (position + 1) _

theorem flattenFields_proper (hP : ∀ v, P v → v.Fits) : (fields : List (Scalar × Document)) →
    ProperFields P fields → (path : Path) → (found : Tree Leaf) →
    flattenFields path found fields =
      .ok (found.insertAll ((leavesOfFields fields).map (rooted path)))
  | [], _, _, _ => rfl
  | (k, d) :: rest, h, path, found => by
    rw [ProperFields] at h
    obtain ⟨⟨name, rfl⟩, hd, hrest⟩ := h
    rw [flattenFields, fieldPath_str, leavesOfFields_str, List.map_append, map_rooted_deeper,
      OrderedMap.insertAll_append]
    change (d.flattenAt (path.push (.key name)) found >>= _) = _
    rw [flattenAt_proper hP d hd]
    exact flattenFields_proper hP rest hrest path _

end

/-- The walk over a proper document writes its leaves, each under a path of its own. -/
theorem flatten_proper (hP : ∀ v, P v → v.Fits) {d : Document} (h : d.Proper P) :
    ∃ t : Tree Leaf, d.flatten = .ok t ∧ t.entries = d.leaves.map fun e => (⟨e.1⟩, e.2) := by
  refine ⟨_, flattenAt_proper hP d h _ _, ?_⟩
  have hrooted : d.leaves.map (rooted Path.root) = d.leaves.map fun e => (⟨e.1⟩, e.2) := rfl
  have hnodup : ((d.leaves.map fun e => ((⟨e.1⟩ : Path), e.2)).map Prod.fst).Nodup := by
    have hmap : (d.leaves.map fun e => ((⟨e.1⟩ : Path), e.2)).map Prod.fst =
        (d.leaves.map Prod.fst).map Path.mk := by
      rw [List.map_map, List.map_map]
      rfl
    rw [hmap]
    exact (nodup_leaves d h).map fun p q e => Path.mk.inj e
  rw [hrooted]
  exact OrderedMap.entries_ofList hnodup

theorem get?_flatten (hP : ∀ v, P v → v.Fits) {d : Document} (h : d.Proper P) {t : Tree Leaf}
    (ht : d.flatten = .ok t) (p : Path) : t.get? p = leafAt? p.segments d := by
  obtain ⟨u, hu, he⟩ := flatten_proper hP h
  cases hu.symm.trans ht
  refine Option.ext fun v => ?_
  rw [OrderedMap.get?_eq_some_iff, he, ← mem_leaves d h, List.mem_map]
  constructor
  · rintro ⟨e, hm, heq⟩
    cases heq
    exact hm
  · intro hm
    exact ⟨_, hm, rfl⟩

end LayeredConfig.Document
