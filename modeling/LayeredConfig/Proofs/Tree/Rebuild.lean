import LayeredConfig.Proofs.Tree.Filled

/-!
# Walked documents rebuilt

`nested_flatten`: rebuilding the document of the tree that walking a document wrote gives that
document, without the parts that hold no leaf. The leaves of a container come one after the other,
so what they are placed in is always the last item or field of the container built so far.
-/

namespace LayeredConfig.Document

variable {P : Leaf → Prop}

-- ---------------------------------------------------------------------------
-- Parts without leaves
-- ---------------------------------------------------------------------------

mutual

/-- The document without its parts that hold no leaf. An item before one that holds a leaf becomes
null instead, so that positions stay. -/
def pruned : Document → Document
  | .scalar s => .scalar s
  | .list items => .list (prunedItems items)
  | .map fields => .map (prunedFields fields)

def prunedItems : List Document → List Document
  | [] => []
  | d :: rest =>
    if d.leaves = [] then (if prunedItems rest = [] then [] else null :: prunedItems rest)
    else d.pruned :: prunedItems rest

def prunedFields : List (Scalar × Document) → List (Scalar × Document)
  | [] => []
  | (k, d) :: rest =>
    if d.leaves = [] then prunedFields rest else (k, d.pruned) :: prunedFields rest

end

mutual

theorem pruned_of_filled : (d : Document) → d.Proper P → d.Filled → d.pruned = d
  | .scalar s, _, _ => by rw [pruned]
  | .list items, hp, hf => by
    rw [pruned, prunedItems_of_filled items hp hf.2]
  | .map fields, hp, hf => by
    rw [pruned, prunedFields_of_filled fields hp.2 hf.2]

theorem prunedItems_of_filled : (items : List Document) → ProperItems P items →
    FilledItems items → prunedItems items = items
  | [], _, _ => by rw [prunedItems]
  | d :: rest, hp, hf => by
    rw [ProperItems] at hp
    rw [FilledItems] at hf
    rw [prunedItems, if_neg (leaves_ne_nil d hp.1 hf.1), pruned_of_filled d hp.1 hf.1,
      prunedItems_of_filled rest hp.2 hf.2]

theorem prunedFields_of_filled : (fields : List (Scalar × Document)) → ProperFields P fields →
    FilledFields fields → prunedFields fields = fields
  | [], _, _ => by rw [prunedFields]
  | (k, d) :: rest, hp, hf => by
    rw [ProperFields] at hp
    rw [FilledFields] at hf
    rw [prunedFields, if_neg (leaves_ne_nil d hp.2.1 hf.1), pruned_of_filled d hp.2.1 hf.1,
      prunedFields_of_filled rest hp.2.2 hf.2]

end

-- ---------------------------------------------------------------------------
-- Containers and the ways into them
-- ---------------------------------------------------------------------------

/-- The empty container of the same kind as a container. -/
def outermost? : Document → Option Document
  | .scalar _ => none
  | .list _ => some (.list [])
  | .map _ => some (.map [])

variable {c d d' : Document} {es : List (List Segment × Leaf)}

theorem eq_leaf_of_outermost (hp : d.Proper P) (h : d.outermost? = none) : ∃ v, d = leaf v := by
  cases d with
  | scalar s =>
    rw [Proper] at hp
    obtain ⟨v, rfl, -⟩ := hp
    exact ⟨v, rfl⟩
  | list items => cases h
  | map fields => cases h

theorem orEmpty_of_outermost (h : d.outermost? = some c) (next : Segment) : orEmpty next d = d := by
  cases d with
  | scalar s => cases h
  | list items => rfl
  | map fields => rfl

theorem outermost_emptyFor (s : Segment) : (emptyFor s).outermost? = some (emptyFor s) := by
  cases s <;> rfl

theorem outermost_place {value : Document} {s : Segment} {rest : List Segment}
    (hd : d.outermost? = some (emptyFor s)) (h : place value (s :: rest) d = .ok d') :
    d'.outermost? = some (emptyFor s) := by
  cases d with
  | scalar s => cases hd
  | list items =>
    cases s with
    | key name => cases hd
    | index n =>
      cases rest with
      | nil => cases h; rfl
      | cons next rest =>
        obtain ⟨inner, -, rfl⟩ := place_index.1 h
        rfl
  | map fields =>
    cases s with
    | index n => cases hd
    | key name =>
      cases rest with
      | nil => cases h; rfl
      | cons next rest =>
        obtain ⟨inner, -, rfl⟩ := place_key.1 h
        rfl

def placeLeaf (d : Document) (e : List Segment × Leaf) : Except Fault Document :=
  place (leaf e.2) e.1 d

/-- Every leaf lies in a container of the kind of `c`. -/
def Inside (c : Document) (es : List (List Segment × Leaf)) : Prop :=
  ∀ e ∈ es, ∃ s rest, e.1 = s :: rest ∧ emptyFor s = c

theorem inside_leaves (hp : d.Proper P) (hd : d.outermost? = some c) : Inside c d.leaves := by
  rintro ⟨q, v⟩ he
  rw [mem_leaves d hp] at he
  cases d with
  | scalar s => cases hd
  | list items =>
    obtain ⟨n, rest, rfl, -⟩ := leafAt?_list.1 he
    cases hd
    exact ⟨_, _, rfl, rfl⟩
  | map fields =>
    obtain ⟨name, rest, rfl, -⟩ := leafAt?_map.1 he
    cases hd
    exact ⟨_, _, rfl, rfl⟩

-- ---------------------------------------------------------------------------
-- Leaves of one part
-- ---------------------------------------------------------------------------

section

/-- What is placed in the part that `s` leads to is placed in the document, which is `put d` when
that part is `d`. -/
def Reaches (s : Segment) (put : Document → Document) : Prop :=
  ∀ v next rest d d', d.outermost? = some (emptyFor next) → place v (next :: rest) d = .ok d' →
    place v (s :: next :: rest) (put d) = .ok (put d')

variable {s : Segment} {put : Document → Document}

theorem Reaches.foldlM (hput : Reaches s put) (hes : Inside c es) (hd : d.outermost? = some c)
    (h : es.foldlM placeLeaf d = .ok d') :
    (es.map (deeper s)).foldlM placeLeaf (put d) = .ok (put d') := by
  induction es generalizing d with
  | nil =>
    cases h
    rfl
  | cons e es ih =>
    obtain ⟨⟨next, rest, he, rfl⟩, hes⟩ := List.forall_mem_cons.1 hes
    obtain ⟨d₁, h₁, h⟩ := bind_ok.1 (List.foldlM_cons.symm.trans h)
    rw [placeLeaf, he] at h₁
    have hstep : placeLeaf (put d) (deeper s e) = .ok (put d₁) := by
      rw [placeLeaf, deeper, he]
      exact hput _ _ _ _ _ hd h₁
    rw [List.map_cons, List.foldlM_cons, hstep]
    exact ih hes (outermost_place hd h₁) h

theorem Reaches.foldlM_new (hput : Reaches s put) (hes : Inside c es) (hne : es ≠ [])
    (hnew : ∀ v next rest d', place v (next :: rest) (emptyFor next) = .ok d' →
      place v (s :: next :: rest) d = .ok (put d'))
    (h : es.foldlM placeLeaf c = .ok d') :
    (es.map (deeper s)).foldlM placeLeaf d = .ok (put d') := by
  obtain ⟨e, es, rfl⟩ := List.exists_cons_of_ne_nil hne
  obtain ⟨⟨next, rest, he, rfl⟩, hes⟩ := List.forall_mem_cons.1 hes
  obtain ⟨d₁, h₁, h⟩ := bind_ok.1 (List.foldlM_cons.symm.trans h)
  rw [placeLeaf, he] at h₁
  have hstep : placeLeaf d (deeper s e) = .ok (put d₁) := by
    rw [placeLeaf, deeper, he]
    exact hnew _ _ _ _ h₁
  rw [List.map_cons, List.foldlM_cons, hstep]
  exact hput.foldlM hes (outermost_place (outermost_emptyFor next) h₁) h

end

theorem set_padTo_behind {items : List Document} {n : Nat} (hn : items.length ≤ n) (d : Document) :
    (padTo n items).set n d = items ++ List.replicate (n - items.length) null ++ [d] := by
  obtain ⟨k, rfl⟩ := Nat.exists_eq_add_of_le hn
  have hk : items.length + k + 1 - items.length = k + 1 := by omega
  rw [padTo, hk, Nat.add_sub_cancel_left, List.set_append_right _ _ hn, Nat.add_sub_cancel_left,
    List.replicate_succ', List.set_append_right _ _ (by simp)]
  simp

theorem reaches_index (items : List Document) (n : Nat) :
    Reaches (.index n) fun d => .list ((padTo n items).set n d) := by
  intro v next rest d d' hd h
  have hlt : n < ((padTo n items).set n d).length := by
    rw [List.length_set]
    exact lt_length_padTo n items
  have hpad : padTo n ((padTo n items).set n d) = (padTo n items).set n d := by
    rw [padTo, Nat.sub_eq_zero_of_le hlt, List.replicate_zero, List.append_nil]
  refine place_index.2 ⟨d', ?_, by rw [hpad, List.set_set]⟩
  rwa [getD_set_padTo, if_pos rfl, orEmpty_of_outermost hd]

theorem foldlM_item {items : List Document} {n : Nat} (hp : d.Proper P) (hne : d.leaves ≠ [])
    (hn : items.length ≤ n)
    (h : ∀ c, d.outermost? = some c → d.leaves.foldlM placeLeaf c = .ok d.pruned) :
    (d.leaves.map (deeper (.index n))).foldlM placeLeaf (.list items) =
      .ok (.list (items ++ List.replicate (n - items.length) null ++ [d.pruned])) := by
  rw [← set_padTo_behind hn]
  cases hd : d.outermost? with
  | some c =>
    refine (reaches_index items n).foldlM_new (inside_leaves hp hd) hne ?_ (h c hd)
    intro v next rest d' h
    refine place_index.2 ⟨d', ?_, rfl⟩
    rwa [List.getD_eq_getElem?_getD, List.getElem?_eq_none hn, Option.getD_none, orEmpty_null]
  | none =>
    obtain ⟨v, rfl⟩ := eq_leaf_of_outermost hp hd
    rfl

theorem field?_cons (k : Scalar) (d : Document) (fields : List (Scalar × Document)) (key : Scalar) :
    field? ((k, d) :: fields) key = if k.same key then some d else field? fields key := by
  unfold field?
  split
  · rw [List.find?_cons_of_pos ‹_›]
    rfl
  · rw [List.find?_cons_of_neg ‹_›]

theorem putField_putField (fields : List (Scalar × Document)) (name : Text) (d e : Document) :
    putField (.str name) e (putField (.str name) d fields) = putField (.str name) e fields := by
  have hsame : (Scalar.str name).same (.str name) = true := same_str_iff.2 rfl
  induction fields with
  | nil => simp [putField, hsame]
  | cons f rest ih =>
    obtain ⟨k, x⟩ := f
    by_cases hk : k.same (.str name) = true
    · simp [putField, hk]
    · simp [putField, hk, ih]

theorem putField_new {fields : List (Scalar × Document)} {name : Text}
    (h : field? fields (.str name) = none) (d : Document) :
    putField (.str name) d fields = fields ++ [(.str name, d)] := by
  induction fields with
  | nil => rfl
  | cons f rest ih =>
    obtain ⟨k, e⟩ := f
    rw [field?_cons] at h
    split at h
    · cases h
    · rw [putField, if_neg ‹_›, ih h, List.cons_append]

theorem reaches_key (fields : List (Scalar × Document)) (name : Text) :
    Reaches (.key name) fun d => .map (putField (.str name) d fields) := by
  intro v next rest d d' hd h
  refine place_key.2 ⟨d', ?_, by rw [putField_putField]⟩
  rwa [field?_putField, if_pos rfl, Option.getD_some]

theorem foldlM_field {fields : List (Scalar × Document)} {name : Text} (hp : d.Proper P)
    (hne : d.leaves ≠ []) (hn : field? fields (.str name) = none)
    (h : ∀ c, d.outermost? = some c → d.leaves.foldlM placeLeaf c = .ok d.pruned) :
    (d.leaves.map (deeper (.key name))).foldlM placeLeaf (.map fields) =
      .ok (.map (fields ++ [(.str name, d.pruned)])) := by
  rw [← putField_new hn]
  cases hd : d.outermost? with
  | some c =>
    refine (reaches_key fields name).foldlM_new (inside_leaves hp hd) hne ?_ (h c hd)
    intro v next rest d' h
    refine place_key.2 ⟨d', ?_, rfl⟩
    rwa [hn, Option.getD_none]
  | none =>
    obtain ⟨v, rfl⟩ := eq_leaf_of_outermost hp hd
    rfl

-- ---------------------------------------------------------------------------
-- All leaves
-- ---------------------------------------------------------------------------

/-- Items at their positions behind others, with nulls between; none at all need no nulls. -/
def behind (before : List Document) (position : Nat) (later : List Document) : List Document :=
  if later = [] then before
  else before ++ List.replicate (position - before.length) null ++ later

theorem behind_null {before later : List Document} {position : Nat}
    (hpos : before.length ≤ position) :
    behind before (position + 1) later =
      behind before position (if later = [] then [] else null :: later) := by
  by_cases hl : later = []
  · simp [behind, hl]
  · rw [behind, if_neg hl, if_neg hl, behind, if_neg (List.cons_ne_nil _ _), Nat.succ_sub hpos,
      List.replicate_succ']
    simp

theorem behind_cons {before later : List Document} {position : Nat} (d : Document)
    (hpos : before.length ≤ position) :
    behind (before ++ List.replicate (position - before.length) null ++ [d]) (position + 1) later =
      behind before position (d :: later) := by
  have hlength : (before ++ List.replicate (position - before.length) null ++ [d]).length =
      position + 1 := by
    simp
    omega
  rw [behind, hlength, Nat.sub_self, behind, if_neg (List.cons_ne_nil _ _)]
  split <;> simp [*]

theorem field?_eq_none {fields : List (Scalar × Document)} {name : Text}
    (h : .str name ∉ fields.map Prod.fst) : field? fields (.str name) = none := by
  refine Option.map_eq_none_iff.2 (List.find?_eq_none.2 fun f hf hs => h ?_)
  exact List.mem_map.2 ⟨f, hf, same_str_iff.1 hs⟩

mutual

theorem foldlM_leaves : (d : Document) → d.Proper P → (c : Document) → d.outermost? = some c →
    d.leaves.foldlM placeLeaf c = .ok d.pruned
  | .scalar s, _, _, hd => by cases hd
  | .list items, hp, _, hd => by
    rw [Proper] at hp
    cases hd
    rw [leaves, foldlM_leavesOfItems items hp [] 0 (Nat.le_refl 0), pruned, behind]
    split <;> simp [*]
  | .map fields, hp, _, hd => by
    rw [Proper] at hp
    cases hd
    rw [leaves, foldlM_leavesOfFields fields hp.2 hp.1 [] fun _ _ => List.not_mem_nil, pruned,
      List.nil_append]

theorem foldlM_leavesOfItems : (items : List Document) → ProperItems P items →
    (before : List Document) → (position : Nat) → before.length ≤ position →
    (leavesOfItems position items).foldlM placeLeaf (.list before) =
      .ok (.list (behind before position (prunedItems items)))
  | [], _, before, position, hpos => by
    rw [leavesOfItems, prunedItems, behind, if_pos rfl]
    rfl
  | d :: rest, hp, before, position, hpos => by
    rw [ProperItems] at hp
    rw [leavesOfItems, prunedItems]
    by_cases hne : d.leaves = []
    · rw [if_pos hne, hne, List.map_nil, List.nil_append,
        foldlM_leavesOfItems rest hp.2 before (position + 1) (Nat.le_succ_of_le hpos),
        behind_null hpos]
    · rw [if_neg hne, List.foldlM_append, foldlM_item hp.1 hne hpos (foldlM_leaves d hp.1)]
      refine (foldlM_leavesOfItems rest hp.2 _ (position + 1) ?_).trans ?_
      · simp
        omega
      · rw [behind_cons _ hpos]

theorem foldlM_leavesOfFields : (fields : List (Scalar × Document)) → ProperFields P fields →
    (fields.map Prod.fst).Nodup → (before : List (Scalar × Document)) →
    (∀ f ∈ fields, f.1 ∉ before.map Prod.fst) →
    (leavesOfFields fields).foldlM placeLeaf (.map before) =
      .ok (.map (before ++ prunedFields fields))
  | [], _, _, before, _ => by
    rw [leavesOfFields, prunedFields, List.append_nil]
    rfl
  | (k, d) :: rest, hp, hn, before, hbefore => by
    rw [ProperFields] at hp
    obtain ⟨⟨name, rfl⟩, hd, hp⟩ := hp
    obtain ⟨hname, hn⟩ := List.nodup_cons.1 hn
    obtain ⟨hnew, hbefore⟩ := List.forall_mem_cons.1 hbefore
    rw [leavesOfFields_str, prunedFields]
    by_cases hne : d.leaves = []
    · rw [if_pos hne, hne, List.map_nil, List.nil_append,
        foldlM_leavesOfFields rest hp hn before hbefore]
    · rw [if_neg hne, List.foldlM_append,
        foldlM_field hd hne (field?_eq_none hnew) (foldlM_leaves d hd)]
      refine (foldlM_leavesOfFields rest hp hn _ ?_).trans ?_
      · intro f hf hm
        rw [List.map_append, List.mem_append, List.map_singleton, List.mem_singleton] at hm
        rcases hm with hm | hm
        · exact hbefore f hf hm
        · exact hname (hm ▸ List.mem_map_of_mem hf)
      · rw [List.append_assoc, List.singleton_append]

end

theorem outermost_of_inside {t : Tree Leaf} (hes : Inside c es) (hne : es ≠ [])
    (ht : t.entries = es.map fun e => (⟨e.1⟩, e.2)) :
    (if t.startsWithIndex then .list [] else .map []) = c := by
  have hkeys : t.keys = es.map fun e => ⟨e.1⟩ := by
    rw [OrderedMap.keys, ht, List.map_map]
    rfl
  obtain ⟨e, es, rfl⟩ := List.exists_cons_of_ne_nil hne
  rw [Tree.startsWithIndex, hkeys, List.any_map]
  obtain ⟨s, rest, he, hc⟩ := hes e List.mem_cons_self
  cases s with
  | index n =>
    rw [List.any_cons, if_pos (by simp [he, Segment.isIndex])]
    exact hc
  | key name =>
    rw [if_neg, ← hc]
    · rfl
    · simp only [List.any_eq_true, not_exists, not_and]
      intro f hf hi
      obtain ⟨u, further, hf, hu⟩ := hes f hf
      cases u with
      | key other => simp [hf, Segment.isIndex] at hi
      | index m => cases hu.trans hc.symm

/-- The tree that walking a container wrote has the document that is left of it without its parts
that hold no leaf; if nothing is left, that is the empty object. -/
theorem nested_flatten (hP : ∀ v, P v → v.Fits) (hp : d.Proper P) (hd : d.outermost? = some c)
    {t : Tree Leaf} (ht : d.flatten = .ok t) :
    t.nested = .ok (if d.leaves = [] then .map [] else d.pruned) := by
  obtain ⟨u, hu, he⟩ := flatten_proper hP hp
  cases hu.symm.trans ht
  rw [Tree.nested, he, List.foldlM_map]
  by_cases hne : d.leaves = []
  · have hstart : t.startsWithIndex = false := by
      rw [Tree.startsWithIndex, OrderedMap.keys, he, hne]
      rfl
    rw [if_pos hne, hne, hstart]
    rfl
  · rw [if_neg hne, outermost_of_inside (inside_leaves hp hd) hne he]
    exact foldlM_leaves d hp c hd

theorem nested_flatten_filled (hP : ∀ v, P v → v.Fits) (hp : d.Proper P) (hf : d.Filled)
    (hd : d.outermost? = some c) {t : Tree Leaf} (ht : d.flatten = .ok t) : t.nested = .ok d := by
  rw [nested_flatten hP hp hd ht, if_neg (leaves_ne_nil d hp hf), pruned_of_filled d hp hf]

end LayeredConfig.Document
