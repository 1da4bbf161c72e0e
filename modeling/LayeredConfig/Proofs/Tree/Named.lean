import LayeredConfig.Proofs.Tree.Faults
import LayeredConfig.Proofs.Tree.Filled
import LayeredConfig.Proofs.Tree.Proper
import LayeredConfig.Proofs.Tree.Verdict

/-!
# The tree of one document

A document is `Named` when its mappings have distinct texts as keys. `judged_of_named`: the tree of
such a document is empty, or holds a value without key, or has the shape of a document. The places
of one document never lead through each other, and they part at a container that is either a list
or a mapping.
-/

namespace LayeredConfig

-- ---------------------------------------------------------------------------
-- Verdicts
-- ---------------------------------------------------------------------------

/-- A tree without conflicts: it is refused as empty or for a value without key, exactly under these
conditions, and accepted otherwise. -/
structure Tree.Judged (t : Tree Leaf) (empty bare : Prop) : Prop where
  empty_iff : ∀ source, t.validate source = .error (.emptyConfig source) ↔ empty
  bare_iff : ∀ source, t.validate source = .error (.invalidConfig "value without key") ↔ bare
  accepted : ¬ empty → ¬ bare → ∀ source, t.validate source = .ok t
  not_leadsThrough : ∀ leaf below, ¬ t.LeadsThrough leaf below
  not_splits : ∀ place, ¬ t.Splits place

theorem Tree.judged_of_oneKind {t : Tree Leaf}
    (hapart : ∀ p ∈ t.keys, ∀ q ∈ t.keys, p.segments <+: q.segments → p = q)
    (hkind : ∀ p ∈ t.keys, ∀ q ∈ t.keys, ∀ place s u after further,
      p.segments = place ++ s :: after → q.segments = place ++ u :: further →
        s.isIndex = u.isIndex) :
    t.Judged (t.keys = []) (Path.root ∈ t.keys) := by
  have hthrough (leaf below : Path) : ¬ t.LeadsThrough leaf below := by
    rintro ⟨hleaf, hbelow, habove⟩
    obtain ⟨s, rest, hrest⟩ := Path.isAbove_iff.1 habove
    cases hapart leaf hleaf below hbelow ⟨s :: rest, hrest.symm⟩
    simp at hrest
  have hsplits (place : Path) : ¬ t.Splits place := by
    rintro ⟨p, hp, q, hq, name, position, after, further, hname, hposition⟩
    have h := hkind p hp q hq place.segments _ _ after further hname hposition
    cases h
  by_cases hempty : t.keys = []
  · have hroot : Path.root ∉ t.keys := by simp [hempty]
    have hvalidate (source : Option String) :
        t.validate source = .error (.emptyConfig source) := by
      rw [validate, shapeFault?, if_pos (OrderedMap.isEmpty_iff.2 hempty)]
      rfl
    refine ⟨fun source => ?_, fun source => ?_, fun h => absurd hempty h, hthrough, hsplits⟩
    · exact iff_of_true (hvalidate source) hempty
    · rw [hvalidate]
      exact iff_of_false nofun hroot
  · by_cases hroot : Path.root ∈ t.keys
    · have hvalidate (source : Option String) :
          t.validate source = .error (.invalidConfig "value without key") := by
        rw [validate, shapeFault?, if_neg (mt OrderedMap.isEmpty_iff.1 hempty),
          if_pos (OrderedMap.contains_iff.2 hroot)]
        rfl
      refine ⟨fun source => ?_, fun source => ?_, fun _ h => absurd hroot h, hthrough, hsplits⟩
      · rw [hvalidate]
        exact iff_of_false nofun hempty
      · exact iff_of_true (hvalidate source) hroot
    · have hvalidate (source : Option String) : t.validate source = .ok t :=
        validate_ok_iff.2 ⟨rfl, hempty, hroot, hapart, hkind⟩
      refine ⟨fun source => ?_, fun source => ?_, fun _ _ => hvalidate, hthrough, hsplits⟩
      · rw [hvalidate]
        exact iff_of_false nofun hempty
      · rw [hvalidate]
        exact iff_of_false nofun hroot

namespace Document

-- ---------------------------------------------------------------------------
-- Places of leaves
-- ---------------------------------------------------------------------------

section

variable {d : Document} {v w : Leaf}

/-- The value that one step leads to. -/
def child? : Segment → Document → Option Document
  | .key name, .map fields => field? fields (.str name)
  | .index n, .list items => items[n]?
  | _, _ => none

def isList : Document → Bool
  | .list _ => true
  | _ => false

theorem isIndex_of_child? {s : Segment} {inner : Document} (h : child? s d = some inner) :
    s.isIndex = d.isList := by
  unfold child? at h
  split at h
  · rfl
  · rfl
  · cases h

theorem leafAt?_cons (s : Segment) (q : List Segment) (d : Document) :
    leafAt? (s :: q) d = (child? s d).bind (leafAt? q) := by
  cases s <;> cases d <;> rfl

theorem eq_of_prefix_of_leafAt? {p q : List Segment} (hp : leafAt? p d = some v)
    (hq : leafAt? q d = some w) (h : p <+: q) : p = q := by
  induction p generalizing q d with
  | nil =>
    cases q with
    | nil => rfl
    | cons s q =>
      obtain ⟨inner, hinner, -⟩ := Option.bind_eq_some_iff.1 ((leafAt?_cons s q d).symm.trans hq)
      cases d with
      | scalar x => cases s <;> cases hinner
      | list items => cases hp
      | map fields => cases hp
  | cons s p ih =>
    obtain ⟨rest, rfl⟩ := h
    rw [List.cons_append, leafAt?_cons, Option.bind_eq_some_iff] at hq
    rw [leafAt?_cons, Option.bind_eq_some_iff] at hp
    obtain ⟨inner, hinner, hp⟩ := hp
    obtain ⟨other, hother, hq⟩ := hq
    cases hinner.symm.trans hother
    rw [List.cons_append, ← ih hp hq (List.prefix_append p rest)]

theorem isIndex_eq_of_leafAt? {place after further : List Segment} {s u : Segment}
    (hs : leafAt? (place ++ s :: after) d = some v)
    (hu : leafAt? (place ++ u :: further) d = some w) : s.isIndex = u.isIndex := by
  induction place generalizing d with
  | nil =>
    rw [List.nil_append, leafAt?_cons, Option.bind_eq_some_iff] at hs hu
    obtain ⟨inner, hinner, -⟩ := hs
    obtain ⟨other, hother, -⟩ := hu
    rw [isIndex_of_child? hinner, isIndex_of_child? hother]
  | cons t place ih =>
    rw [List.cons_append, leafAt?_cons, Option.bind_eq_some_iff] at hs hu
    obtain ⟨inner, hinner, hs⟩ := hs
    obtain ⟨other, hother, hu⟩ := hu
    cases hinner.symm.trans hother
    exact ih hs hu

end

variable {P : Leaf → Prop} {d : Document} {t : Tree Leaf}

theorem mem_keys_flatten (hP : ∀ v, P v → v.Fits) (h : d.Proper P) (ht : d.flatten = .ok t)
    {p : Path} : p ∈ t.keys ↔ ∃ v, leafAt? p.segments d = some v := by
  rw [← OrderedMap.contains_iff, OrderedMap.contains, get?_flatten hP h ht,
    Option.isSome_iff_exists]

theorem judged_of_proper (hP : ∀ v, P v → v.Fits) (h : d.Proper P) (ht : d.flatten = .ok t) :
    t.Judged (d.scalarCount = 0) (∃ s, d = .scalar s) := by
  have hmem {p : Path} : p ∈ t.keys ↔ ∃ v, leafAt? p.segments d = some v :=
    mem_keys_flatten hP h ht
  have hempty : t.keys = [] ↔ d.scalarCount = 0 := by
    obtain ⟨u, hu, hentries⟩ := flatten_proper hP h
    cases hu.symm.trans ht
    rw [← leaves_eq_nil_iff h, OrderedMap.keys, hentries]
    simp
  have hroot : Path.root ∈ t.keys ↔ ∃ s, d = .scalar s := by
    rw [hmem]
    constructor
    · rintro ⟨v, hv⟩
      cases d with
      | scalar s => exact ⟨s, rfl⟩
      | list items => cases hv
      | map fields => cases hv
    · rintro ⟨s, rfl⟩
      rw [Proper] at h
      obtain ⟨v, rfl, -⟩ := h
      exact ⟨v, rfl⟩
  have hjudged : t.Judged (t.keys = []) (Path.root ∈ t.keys) := by
    refine Tree.judged_of_oneKind (fun p hp q hq hpre => ?_)
      fun p hp q hq place s u after further hs hu => ?_
    · obtain ⟨v, hv⟩ := hmem.1 hp
      obtain ⟨w, hw⟩ := hmem.1 hq
      exact Path.ext_segments (eq_of_prefix_of_leafAt? hv hw hpre)
    · obtain ⟨v, hv⟩ := hmem.1 hp
      obtain ⟨w, hw⟩ := hmem.1 hq
      exact isIndex_eq_of_leafAt? (hs ▸ hv) (hu ▸ hw)
  rwa [hempty, hroot] at hjudged

end Document

-- ---------------------------------------------------------------------------
-- Dates and times
-- ---------------------------------------------------------------------------

/-- A scalar that a tree keeps: a leaf that fits, or a date or time. -/
def Scalar.Kept : Scalar → Prop
  | .leaf v => v.Fits
  | .moment _ => True
  | .foreign _ _ _ => False

namespace Document

mutual

/-- Every mapping of the document has distinct texts as keys. -/
def Named : Document → Prop
  | .scalar _ => True
  | .list items => NamedItems items
  | .map fields => (fields.map Prod.fst).Nodup ∧ NamedFields fields

def NamedItems : List Document → Prop
  | [] => True
  | d :: rest => d.Named ∧ NamedItems rest

def NamedFields : List (Scalar × Document) → Prop
  | [] => True
  | (k, d) :: rest => (∃ name, k = .str name) ∧ d.Named ∧ NamedFields rest

end

theorem namedItems_iff {items : List Document} : NamedItems items ↔ ∀ d ∈ items, d.Named := by
  induction items with
  | nil => exact iff_of_true trivial (List.forall_mem_nil _)
  | cons d rest ih => rw [NamedItems, ih, List.forall_mem_cons]

theorem namedFields_iff {fields : List (Scalar × Document)} :
    NamedFields fields ↔ ∀ f ∈ fields, (∃ name, f.1 = .str name) ∧ f.2.Named := by
  induction fields with
  | nil => exact iff_of_true trivial (List.forall_mem_nil _)
  | cons f rest ih => rw [NamedFields, ih, List.forall_mem_cons, and_assoc]

mutual

theorem proper_of_named {P : Leaf → Prop} : (d : Document) → d.Named →
    (d.All fun s => ∃ v, s = .leaf v ∧ P v) → d.Proper P
  | .scalar s, _, h => by
    rw [All] at h
    rwa [Proper]
  | .list items, hn, h => by
    rw [Named] at hn
    rw [All] at h
    rw [Proper]
    exact properItems_of_named items hn h
  | .map fields, hn, h => by
    rw [Named] at hn
    rw [All] at h
    rw [Proper]
    exact ⟨hn.1, properFields_of_named fields hn.2 h⟩

theorem properItems_of_named {P : Leaf → Prop} : (items : List Document) → NamedItems items →
    AllItems (fun s => ∃ v, s = .leaf v ∧ P v) items → ProperItems P items
  | [], _, _ => by rw [ProperItems]; trivial
  | d :: rest, hn, h => by
    rw [NamedItems] at hn
    rw [AllItems] at h
    rw [ProperItems]
    exact ⟨proper_of_named d hn.1 h.1, properItems_of_named rest hn.2 h.2⟩

theorem properFields_of_named {P : Leaf → Prop} : (fields : List (Scalar × Document)) →
    NamedFields fields → AllFields (fun s => ∃ v, s = .leaf v ∧ P v) fields →
    ProperFields P fields
  | [], _, _ => by rw [ProperFields]; trivial
  | (k, d) :: rest, hn, h => by
    rw [NamedFields] at hn
    rw [AllFields] at h
    rw [ProperFields]
    exact ⟨hn.1, proper_of_named d hn.2.1 h.2.1, properFields_of_named rest hn.2.2 h.2.2⟩

end

mutual

/-- The document with its dates and times as the texts that they become. -/
def spelled : Document → Document
  | .scalar (.moment m) => .str m.iso
  | .scalar s => .scalar s
  | .list items => .list (spelledItems items)
  | .map fields => .map (spelledFields fields)

def spelledItems : List Document → List Document
  | [] => []
  | d :: rest => d.spelled :: spelledItems rest

def spelledFields : List (Scalar × Document) → List (Scalar × Document)
  | [] => []
  | (k, d) :: rest => (k, d.spelled) :: spelledFields rest

end

theorem map_fst_spelledFields (fields : List (Scalar × Document)) :
    (spelledFields fields).map Prod.fst = fields.map Prod.fst := by
  induction fields with
  | nil => rfl
  | cons f rest ih => rw [spelledFields, List.map_cons, List.map_cons, ih]

mutual

theorem proper_spelled : (d : Document) → d.Named → d.All Scalar.Kept →
    d.spelled.Proper Leaf.Fits
  | .scalar s, _, hk => by
    rw [All] at hk
    cases s with
    | leaf v => exact ⟨v, rfl, hk⟩
    | moment m => exact ⟨.str m.iso, rfl, trivial⟩
    | foreign _ _ _ => exact hk.elim
  | .list items, hn, hk => by
    rw [Named] at hn
    rw [All] at hk
    rw [spelled, Proper]
    exact properItems_spelled items hn hk
  | .map fields, hn, hk => by
    rw [Named] at hn
    rw [All] at hk
    rw [spelled, Proper, map_fst_spelledFields]
    exact ⟨hn.1, properFields_spelled fields hn.2 hk⟩

theorem properItems_spelled : (items : List Document) → NamedItems items →
    AllItems Scalar.Kept items → ProperItems Leaf.Fits (spelledItems items)
  | [], _, _ => trivial
  | d :: rest, hn, hk => by
    rw [NamedItems] at hn
    rw [AllItems] at hk
    exact ⟨proper_spelled d hn.1 hk.1, properItems_spelled rest hn.2 hk.2⟩

theorem properFields_spelled : (fields : List (Scalar × Document)) → NamedFields fields →
    AllFields Scalar.Kept fields → ProperFields Leaf.Fits (spelledFields fields)
  | [], _, _ => trivial
  | (k, d) :: rest, hn, hk => by
    rw [NamedFields] at hn
    rw [AllFields] at hk
    exact ⟨hn.1, proper_spelled d hn.2.1 hk.2.1, properFields_spelled rest hn.2.2 hk.2.2⟩

end

mutual

theorem flattenAt_spelled : (d : Document) → (path : Path) → (found : Tree Leaf) →
    d.spelled.flattenAt path found = d.flattenAt path found
  | .scalar s, path, found => by cases s <;> rfl
  | .list items, path, found => by
    rw [spelled, flattenAt, flattenAt, flattenItems_spelled items]
  | .map fields, path, found => by
    rw [spelled, flattenAt, flattenAt, flattenFields_spelled fields]

theorem flattenItems_spelled : (items : List Document) → (path : Path) → (position : Nat) →
    (found : Tree Leaf) →
    flattenItems path position found (spelledItems items) = flattenItems path position found items
  | [], _, _, _ => rfl
  | d :: rest, path, position, found => by
    rw [spelledItems, flattenItems, flattenItems, flattenAt_spelled d]
    simp only [flattenItems_spelled rest]

theorem flattenFields_spelled : (fields : List (Scalar × Document)) → (path : Path) →
    (found : Tree Leaf) →
    flattenFields path found (spelledFields fields) = flattenFields path found fields
  | [], _, _ => rfl
  | (k, d) :: rest, path, found => by
    rw [spelledFields, flattenFields, flattenFields]
    simp only [flattenAt_spelled d, flattenFields_spelled rest]

end

mutual

theorem scalarCount_spelled : (d : Document) → d.spelled.scalarCount = d.scalarCount
  | .scalar s => by cases s <;> rfl
  | .list items => by rw [spelled, scalarCount, scalarCount, itemsCount_spelled items]
  | .map fields => by rw [spelled, scalarCount, scalarCount, fieldsCount_spelled fields]

theorem itemsCount_spelled : (items : List Document) →
    itemsCount (spelledItems items) = itemsCount items
  | [] => rfl
  | d :: rest => by
    rw [spelledItems, itemsCount, itemsCount, scalarCount_spelled d, itemsCount_spelled rest]

theorem fieldsCount_spelled : (fields : List (Scalar × Document)) →
    fieldsCount (spelledFields fields) = fieldsCount fields
  | [] => rfl
  | (k, d) :: rest => by
    rw [spelledFields, fieldsCount, fieldsCount, scalarCount_spelled d, fieldsCount_spelled rest]

end

theorem spelled_eq_scalar {d : Document} : (∃ s, d.spelled = .scalar s) ↔ ∃ s, d = .scalar s := by
  cases d with
  | scalar s => exact iff_of_true (by cases s <;> exact ⟨_, rfl⟩) ⟨s, rfl⟩
  | list items => rw [spelled]; exact iff_of_false nofun nofun
  | map fields => rw [spelled]; exact iff_of_false nofun nofun

/-- The walk over a named document of leaves, dates and times succeeds, and the only faults that
its tree may have are to be empty and to be a value without key. -/
theorem judged_of_named {d : Document} (hn : d.Named) (hk : d.All Scalar.Kept) :
    ∃ t, d.flatten = .ok t ∧ t.Judged (d.scalarCount = 0) (∃ s, d = .scalar s) := by
  have hp := proper_spelled d hn hk
  obtain ⟨t, ht, -⟩ := flatten_proper (fun _ h => h) hp
  have hjudged := judged_of_proper (fun _ h => h) hp ht
  rw [scalarCount_spelled, spelled_eq_scalar] at hjudged
  exact ⟨t, (flattenAt_spelled d _ _).symm.trans ht, hjudged⟩

-- ---------------------------------------------------------------------------
-- What the walk accepts
-- ---------------------------------------------------------------------------

theorem kept_of_toLeaf {s : Scalar} {path : Path} {v : Leaf} (h : s.toLeaf path = .ok v) :
    s.Kept := by
  cases s with
  | leaf w =>
    cases w with
    | int n =>
      have hfits := Scalar.toLeaf_fits h
      simp only [Scalar.toLeaf] at h
      split at h
      · cases h
        exact hfits
      · obtain ⟨_, -, h⟩ := bind_ok.1 h
        cases h
    | _ => trivial
  | moment m => trivial
  | foreign _ _ _ => cases h

mutual

theorem kept_of_flattenAt : (d : Document) → d.Named → {path : Path} → {found t : Tree Leaf} →
    d.flattenAt path found = .ok t → d.All Scalar.Kept
  | .scalar s, _, path, found, t, h => by
    rw [flattenAt] at h
    obtain ⟨v, hv, -⟩ := bind_ok.1 h
    rw [All]
    exact kept_of_toLeaf hv
  | .list items, hn, path, found, t, h => by
    rw [Named] at hn
    rw [flattenAt] at h
    rw [All]
    exact kept_of_flattenItems items hn h
  | .map fields, hn, path, found, t, h => by
    rw [Named] at hn
    rw [flattenAt] at h
    rw [All]
    exact kept_of_flattenFields fields hn.2 h

theorem kept_of_flattenItems : (items : List Document) → NamedItems items → {path : Path} →
    {position : Nat} → {found t : Tree Leaf} → flattenItems path position found items = .ok t →
    AllItems Scalar.Kept items
  | [], _, _, _, _, _, _ => by rw [AllItems]; trivial
  | d :: rest, hn, path, position, found, t, h => by
    rw [NamedItems] at hn
    rw [flattenItems] at h
    obtain ⟨u, hu, h⟩ := bind_ok.1 h
    rw [AllItems]
    exact ⟨kept_of_flattenAt d hn.1 hu, kept_of_flattenItems rest hn.2 h⟩

theorem kept_of_flattenFields : (fields : List (Scalar × Document)) → NamedFields fields →
    {path : Path} → {found t : Tree Leaf} → flattenFields path found fields = .ok t →
    AllFields Scalar.Kept fields
  | [], _, _, _, _, _ => by rw [AllFields]; trivial
  | (k, d) :: rest, hn, path, found, t, h => by
    rw [NamedFields] at hn
    obtain ⟨⟨name, rfl⟩, hd, hrest⟩ := hn
    rw [flattenFields] at h
    obtain ⟨_, -, h⟩ := bind_ok.1 h
    obtain ⟨u, hu, h⟩ := bind_ok.1 h
    rw [AllFields]
    exact ⟨trivial, kept_of_flattenAt d hd hu, kept_of_flattenFields rest hrest h⟩

end

theorem judged_of_flatten {d : Document} (hn : d.Named) {t : Tree Leaf} (ht : d.flatten = .ok t) :
    t.Judged (d.scalarCount = 0) (∃ s, d = .scalar s) := by
  obtain ⟨u, hu, hjudged⟩ := judged_of_named hn (kept_of_flattenAt d hn ht)
  cases hu.symm.trans ht
  exact hjudged

-- ---------------------------------------------------------------------------
-- Lists and fields
-- ---------------------------------------------------------------------------

theorem named_list {items : List Document} :
    (Document.list items).Named ↔ ∀ d ∈ items, d.Named := by
  rw [Named, namedItems_iff]

theorem named_map_nil : (Document.map []).Named := by
  rw [Named]
  exact ⟨List.nodup_nil, trivial⟩

theorem Named.putField {name : Text} {x : Document} {fields : List (Scalar × Document)}
    (hx : x.Named) (h : (Document.map fields).Named) :
    (Document.map (putField (.str name) x fields)).Named := by
  rw [Named, namedFields_iff] at h ⊢
  refine ⟨?_, fun f hf => ?_⟩
  · rw [map_fst_putField]
    exact OrderedMap.nodup_put h.1
  · rcases mem_putField hf with rfl | hf
    · exact ⟨⟨name, rfl⟩, hx⟩
    · exact h.2 f hf

theorem Named.field {key : Scalar} {x : Document} {fields : List (Scalar × Document)}
    (h : (Document.map fields).Named) (hx : field? fields key = some x) : x.Named := by
  rw [Named, namedFields_iff] at h
  obtain ⟨f, hf, rfl⟩ := mem_of_field? hx
  exact (h.2 f hf).2

end Document

end LayeredConfig
