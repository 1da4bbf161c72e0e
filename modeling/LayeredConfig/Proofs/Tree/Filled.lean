import LayeredConfig.Proofs.Tree.Proper

/-!
# Documents without empty containers

A document is `Filled` when no container in it is empty; such a document has a leaf. `place_proper`:
placing a value in a proper document whose parts are filled gives a proper and filled document, as
the containers that are made on the way receive the value.
-/

namespace LayeredConfig.Document

variable {P : Leaf → Prop} {v : Leaf}

mutual

/-- No container in the document is empty, nor is the document itself. -/
def Filled : Document → Prop
  | .scalar _ => True
  | .list items => items ≠ [] ∧ FilledItems items
  | .map fields => fields ≠ [] ∧ FilledFields fields

def FilledItems : List Document → Prop
  | [] => True
  | d :: rest => d.Filled ∧ FilledItems rest

def FilledFields : List (Scalar × Document) → Prop
  | [] => True
  | (_, d) :: rest => d.Filled ∧ FilledFields rest

end

theorem filledItems_iff {items : List Document} : FilledItems items ↔ ∀ d ∈ items, d.Filled := by
  induction items with
  | nil => exact iff_of_true trivial nofun
  | cons d rest ih => rw [FilledItems, ih, List.forall_mem_cons]

theorem filledFields_iff {fields : List (Scalar × Document)} :
    FilledFields fields ↔ ∀ f ∈ fields, f.2.Filled := by
  induction fields with
  | nil => exact iff_of_true trivial nofun
  | cons f rest ih => rw [FilledFields, ih, List.forall_mem_cons]

theorem leaves_ne_nil : (d : Document) → d.Proper P → d.Filled → d.leaves ≠ []
  | .scalar s, hp, _ => by
    rw [Proper] at hp
    obtain ⟨v, rfl, -⟩ := hp
    exact List.cons_ne_nil _ _
  | .list [], _, hf => absurd rfl hf.1
  | .list (d :: rest), hp, hf => by
    rw [Proper, ProperItems] at hp
    rw [Filled, FilledItems] at hf
    rw [leaves, leavesOfItems]
    refine List.append_ne_nil_of_left_ne_nil (mt List.map_eq_nil_iff.1 ?_) _
    exact leaves_ne_nil d hp.1 hf.2.1
  | .map [], _, hf => absurd rfl hf.1
  | .map ((k, d) :: rest), hp, hf => by
    rw [Proper, ProperFields] at hp
    rw [Filled, FilledFields] at hf
    obtain ⟨-, ⟨name, rfl⟩, hd, -⟩ := hp
    rw [leaves, leavesOfFields_str]
    refine List.append_ne_nil_of_left_ne_nil (mt List.map_eq_nil_iff.1 ?_) _
    exact leaves_ne_nil d hd hf.2.1

theorem exists_leafAt {d : Document} (hp : d.Proper P) (hf : d.Filled) :
    ∃ q v, leafAt? q d = some v := by
  obtain ⟨⟨q, v⟩, hm⟩ := List.exists_mem_of_ne_nil _ (leaves_ne_nil d hp hf)
  exact ⟨q, v, (mem_leaves d hp).1 hm⟩

/-- Everything in the document is filled, although it may be empty itself. -/
def Open : Document → Prop
  | .scalar _ => True
  | .list items => FilledItems items
  | .map fields => FilledFields fields

theorem Filled.open {d : Document} (h : d.Filled) : d.Open := by
  cases d with
  | scalar s => trivial
  | list items => exact h.2
  | map fields => exact h.2

theorem open_emptyFor (s : Segment) : (emptyFor s).Open := by
  cases s <;> trivial

theorem proper_emptyFor (s : Segment) : (emptyFor s).Proper P := by
  cases s with
  | key name => exact ⟨List.nodup_nil, trivial⟩
  | index n => trivial

-- ---------------------------------------------------------------------------
-- Proper documents stay proper
-- ---------------------------------------------------------------------------

theorem mem_putField {name : Text} {x : Document} {fields : List (Scalar × Document)}
    {f : Scalar × Document} (h : f ∈ putField (.str name) x fields) :
    f = (.str name, x) ∨ f ∈ fields := by
  induction fields with
  | nil => exact .inl (List.mem_singleton.1 h)
  | cons g rest ih =>
    obtain ⟨k, d⟩ := g
    rw [putField] at h
    split at h
    · rename_i hk
      cases same_str_iff.1 hk
      exact (List.mem_cons.1 h).imp_right (List.mem_cons_of_mem _)
    · rcases List.mem_cons.1 h with rfl | h
      · exact .inr List.mem_cons_self
      · exact (ih h).imp_right (List.mem_cons_of_mem _)

theorem map_fst_putField (name : Text) (x : Document) (fields : List (Scalar × Document)) :
    (putField (.str name) x fields).map Prod.fst =
      (OrderedMap.put (.str name) x fields).map Prod.fst := by
  induction fields with
  | nil => rfl
  | cons f rest ih =>
    obtain ⟨k, d⟩ := f
    simp only [putField, OrderedMap.put, same_str_iff]
    split
    · subst ‹k = .str name›
      rfl
    · rw [List.map_cons, List.map_cons, ih]

theorem putField_ne_nil (name : Text) (x : Document) (fields : List (Scalar × Document)) :
    putField (.str name) x fields ≠ [] := by
  cases fields with
  | nil => exact List.cons_ne_nil _ _
  | cons f rest =>
    rw [putField]
    split <;> exact List.cons_ne_nil _ _

theorem Proper.putField {name : Text} {x : Document} {fields : List (Scalar × Document)}
    (hx : x.Proper P) (h : (Document.map fields).Proper P) :
    (Document.map (putField (.str name) x fields)).Proper P := by
  rw [Proper, properFields_iff] at h ⊢
  refine ⟨?_, fun f hf => ?_⟩
  · rw [map_fst_putField]
    exact OrderedMap.nodup_put h.1
  · rcases mem_putField hf with rfl | hf
    · exact ⟨⟨name, rfl⟩, hx⟩
    · exact h.2 f hf

theorem Filled.putField {name : Text} {x : Document} {fields : List (Scalar × Document)}
    (hx : x.Filled) (h : (Document.map fields).Open) :
    (Document.map (putField (.str name) x fields)).Filled := by
  rw [Open, filledFields_iff] at h
  rw [Filled, filledFields_iff]
  refine ⟨putField_ne_nil _ _ _, fun f hf => ?_⟩
  rcases mem_putField hf with rfl | hf
  · exact hx
  · exact h f hf

theorem mem_set_padTo {n : Nat} {x d : Document} {items : List Document}
    (h : d ∈ (padTo n items).set n x) : d = x ∨ d ∈ items ∨ d = null := by
  rcases List.mem_or_eq_of_mem_set h with h | h
  · rcases List.mem_append.1 h with h | h
    · exact .inr (.inl h)
    · exact .inr (.inr (List.eq_of_mem_replicate h))
  · exact .inl h

theorem Proper.set {n : Nat} {x : Document} {items : List Document} (hnull : P .null)
    (hx : x.Proper P) (h : (Document.list items).Proper P) :
    (Document.list ((padTo n items).set n x)).Proper P := by
  rw [Proper, properItems_iff] at h ⊢
  intro d hd
  rcases mem_set_padTo hd with rfl | hd | rfl
  · exact hx
  · exact h d hd
  · exact ⟨.null, rfl, hnull⟩

theorem Filled.set {n : Nat} {x : Document} {items : List Document} (hx : x.Filled)
    (h : (Document.list items).Open) : (Document.list ((padTo n items).set n x)).Filled := by
  rw [Open, filledItems_iff] at h
  rw [Filled, filledItems_iff]
  refine ⟨fun hnil => ?_, fun d hd => ?_⟩
  · have := lt_length_padTo n items
    rw [← List.length_set, hnil] at this
    cases this
  · rcases mem_set_padTo hd with rfl | hd | rfl
    · exact hx
    · exact h d hd
    · trivial

-- ---------------------------------------------------------------------------
-- Placing a value
-- ---------------------------------------------------------------------------

theorem mem_of_field? {fields : List (Scalar × Document)} {key : Scalar} {d : Document}
    (h : field? fields key = some d) : ∃ f ∈ fields, f.2 = d := by
  obtain ⟨f, hf, rfl⟩ := Option.map_eq_some_iff.1 h
  exact ⟨f, List.mem_of_find?_eq_some hf, rfl⟩

theorem inner_field {fields : List (Scalar × Document)} (hp : (Document.map fields).Proper P)
    (ho : (Document.map fields).Open) (name : Text) (next : Segment) :
    ((field? fields (.str name)).getD (emptyFor next)).Proper P ∧
      ((field? fields (.str name)).getD (emptyFor next)).Open := by
  rw [Proper, properFields_iff] at hp
  rw [Open, filledFields_iff] at ho
  cases hf : field? fields (.str name) with
  | none => exact ⟨proper_emptyFor next, open_emptyFor next⟩
  | some d =>
    obtain ⟨f, hm, rfl⟩ := mem_of_field? hf
    exact ⟨(hp.2 f hm).2, (ho f hm).open⟩

theorem getD_null_or_mem (items : List Document) (n : Nat) :
    items.getD n null = null ∨ items.getD n null ∈ items := by
  rw [List.getD_eq_getElem?_getD]
  cases h : items[n]? with
  | none => exact .inl rfl
  | some d => exact .inr (List.mem_of_getElem? h)

theorem inner_item {items : List Document} (hp : (Document.list items).Proper P)
    (ho : (Document.list items).Open) (n : Nat) (next : Segment) :
    (orEmpty next (items.getD n null)).Proper P ∧ (orEmpty next (items.getD n null)).Open := by
  rw [Proper, properItems_iff] at hp
  rw [Open, filledItems_iff] at ho
  unfold orEmpty
  split
  · exact ⟨proper_emptyFor next, open_emptyFor next⟩
  · rename_i hnull
    rcases getD_null_or_mem items n with h | h
    · exact absurd h hnull
    · exact ⟨hp _ h, (ho _ h).open⟩

theorem place_proper {p : List Segment} {d d' : Document} (hnull : P .null) (hv : P v)
    (hne : p ≠ []) (ha : Admits p d) (hp : d.Proper P) (ho : d.Open)
    (h : place (leaf v) p d = .ok d') : d'.Proper P ∧ d'.Filled := by
  have hleaf : (leaf v).Proper P := ⟨v, rfl, hv⟩
  induction p, d using Admits.induct generalizing d' with
  | case1 d => exact absurd rfl hne
  | case2 name d =>
    obtain ⟨fields, rfl⟩ := ha
    rw [place] at h
    cases h
    exact ⟨hleaf.putField hp, Filled.putField trivial ho⟩
  | case3 n d =>
    obtain ⟨items, rfl⟩ := ha
    rw [place] at h
    cases h
    exact ⟨Proper.set hnull hleaf hp, Filled.set trivial ho⟩
  | case4 name next rest d ih =>
    obtain ⟨fields, rfl, ha⟩ := ha
    obtain ⟨inner, hi, rfl⟩ := place_key.1 h
    obtain ⟨hip, hio⟩ := inner_field hp ho name next
    obtain ⟨hp', hf'⟩ := ih fields (List.cons_ne_nil _ _) ha hip hio hi
    exact ⟨hp'.putField hp, hf'.putField ho⟩
  | case5 n next rest d ih =>
    obtain ⟨items, rfl, ha⟩ := ha
    obtain ⟨inner, hi, rfl⟩ := place_index.1 h
    obtain ⟨hip, hio⟩ := inner_item hp ho n next
    obtain ⟨hp', hf'⟩ := ih items (List.cons_ne_nil _ _) ha hip hio hi
    exact ⟨Proper.set hnull hp' hp, hf'.set ho⟩

end LayeredConfig.Document
