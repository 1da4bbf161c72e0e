import LayeredConfig.Proofs.Tree.Shape
import LayeredConfig.Tree.Nested

/-!
# Well-shaped trees have a document

`nested_ok`: rebuilding the document of a well-shaped tree does not fail. The invariant is that the
document built so far `Admits` the way to every value that is still to be placed: each container on
it is of the kind that the next segment calls for, or missing as yet. Placing a value keeps that
for every way apart from its own.
-/

namespace LayeredConfig

namespace Document

-- ---------------------------------------------------------------------------
-- Fields and items after a write
-- ---------------------------------------------------------------------------

theorem same_str_iff {s : Scalar} {name : Text} : s.same (.str name) = true ↔ s = .str name := by
  cases s with
  | leaf v => cases v <;> simp [Scalar.same, Scalar.str, Leaf.equals, Leaf.number?]
  | moment m => simp [Scalar.same, Scalar.str]
  | foreign _ _ _ => simp [Scalar.same, Scalar.str]

theorem field?_putField (a b : Text) (v : Document) (fields : List (Scalar × Document)) :
    field? (putField (.str a) v fields) (.str b) =
      if a = b then some v else field? fields (.str b) := by
  have hs (c : Text) : (Scalar.str c).same (.str c) = true := same_str_iff.2 rfl
  have hab (h : ¬ a = b) : ¬ (Scalar.str a).same (.str b) = true := by
    rw [same_str_iff]
    simpa [Scalar.str] using h
  induction fields with
  | nil =>
    by_cases h : a = b
    · simp [field?, putField, h, hs]
    · simp [field?, putField, h, hab h]
  | cons f rest ih =>
    obtain ⟨k, d⟩ := f
    by_cases hk : k.same (.str a) = true
    · cases same_str_iff.1 hk
      by_cases h : a = b
      · simp [field?, putField, h, hs]
      · simp [field?, putField, h, hs, hab h]
    · by_cases hb : k.same (.str b) = true
      · have h : ¬ a = b := fun e => hk (e ▸ hb)
        simp [field?, putField, hk, hb, h]
      · simpa [field?, putField, hk, hb] using ih

theorem getD_padTo (m n : Nat) (items : List Document) :
    (padTo n items).getD m null = items.getD m null := by
  simp only [padTo, List.getD_eq_getElem?_getD, List.getElem?_append]
  split
  · rfl
  · rename_i h
    rw [List.getElem?_eq_none (Nat.le_of_not_lt h), List.getElem?_replicate]
    split <;> rfl

theorem lt_length_padTo (n : Nat) (items : List Document) : n < (padTo n items).length := by
  simp only [padTo, List.length_append, List.length_replicate]
  omega

theorem getD_set_padTo (m n : Nat) (v : Document) (items : List Document) :
    ((padTo n items).set n v).getD m null = if n = m then v else items.getD m null := by
  by_cases h : n = m
  · subst h
    simp [List.getD_eq_getElem?_getD, lt_length_padTo]
  · rw [if_neg h, ← getD_padTo m n items]
    simp [List.getD_eq_getElem?_getD, h]

-- ---------------------------------------------------------------------------
-- Documents that admit a way
-- ---------------------------------------------------------------------------

/-- A value can be placed at the end of the way. -/
def Admits : List Segment → Document → Prop
  | [], _ => True
  | [.key _], d => ∃ fields, d = .map fields
  | [.index _], d => ∃ items, d = .list items
  | .key name :: next :: rest, d => ∃ fields, d = .map fields ∧
      Admits (next :: rest) ((field? fields (.str name)).getD (emptyFor next))
  | .index n :: next :: rest, d => ∃ items, d = .list items ∧
      Admits (next :: rest) (orEmpty next (items.getD n null))

@[simp] theorem orEmpty_null (next : Segment) : orEmpty next null = emptyFor next := rfl

theorem admits_emptyFor (s : Segment) (rest : List Segment) :
    Admits (s :: rest) (emptyFor s) := by
  induction rest generalizing s with
  | nil => cases s <;> simp [Admits, emptyFor]
  | cons next rest ih =>
    cases s with
    | key name => exact ⟨[], rfl, ih next⟩
    | index n => exact ⟨[], rfl, ih next⟩

-- ---------------------------------------------------------------------------
-- Placing a value
-- ---------------------------------------------------------------------------

theorem place_key {value d' : Document} {name : Text} {next : Segment} {rest : List Segment}
    {fields : List (Scalar × Document)} :
    place value (.key name :: next :: rest) (.map fields) = .ok d' ↔
      ∃ inner, place value (next :: rest) ((field? fields (.str name)).getD (emptyFor next)) =
        .ok inner ∧ d' = .map (putField (.str name) inner fields) := by
  rw [place]
  cases place value (next :: rest) ((field? fields (.str name)).getD (emptyFor next)) with
  | error e => exact iff_of_false nofun nofun
  | ok inner =>
    exact ⟨fun h => ⟨inner, rfl, by cases h; rfl⟩, fun ⟨_, hi, h⟩ => by cases hi; rw [h]; rfl⟩

theorem place_index {value d' : Document} {n : Nat} {next : Segment} {rest : List Segment}
    {items : List Document} :
    place value (.index n :: next :: rest) (.list items) = .ok d' ↔
      ∃ inner, place value (next :: rest) (orEmpty next (items.getD n null)) = .ok inner ∧
        d' = .list ((padTo n items).set n inner) := by
  rw [place, getD_padTo]
  cases place value (next :: rest) (orEmpty next (items.getD n null)) with
  | error e => exact iff_of_false nofun nofun
  | ok inner =>
    exact ⟨fun h => ⟨inner, rfl, by cases h; rfl⟩, fun ⟨_, hi, h⟩ => by cases hi; rw [h]; rfl⟩

theorem place_ok {p : List Segment} {d : Document} (value : Document) (h : Admits p d) :
    ∃ d', place value p d = .ok d' := by
  induction p, d using Admits.induct with
  | case1 d => exact ⟨d, by rw [place]⟩
  | case2 name d =>
    obtain ⟨fields, rfl⟩ := h
    exact ⟨_, by rw [place]⟩
  | case3 n d =>
    obtain ⟨items, rfl⟩ := h
    exact ⟨_, by rw [place]⟩
  | case4 name next rest d ih =>
    obtain ⟨fields, rfl, h⟩ := h
    obtain ⟨inner, hi⟩ := ih fields h
    exact ⟨_, place_key.2 ⟨inner, hi, rfl⟩⟩
  | case5 n next rest d ih =>
    obtain ⟨items, rfl, h⟩ := h
    obtain ⟨inner, hi⟩ := ih items h
    exact ⟨_, place_index.2 ⟨inner, hi, rfl⟩⟩

theorem orEmpty_place {value d d' : Document} {s next : Segment} {rest : List Segment}
    (ha : Admits (s :: rest) d) (h : place value (s :: rest) d = .ok d') :
    orEmpty next d' = d' := by
  cases rest with
  | nil =>
    cases s <;> obtain ⟨_, rfl⟩ := ha <;> rw [place] at h <;> cases h <;> rfl
  | cons further rest =>
    cases s with
    | key name =>
      obtain ⟨fields, rfl, -⟩ := ha
      obtain ⟨inner, -, rfl⟩ := place_key.1 h
      rfl
    | index n =>
      obtain ⟨items, rfl, -⟩ := ha
      obtain ⟨inner, -, rfl⟩ := place_index.1 h
      rfl

-- ---------------------------------------------------------------------------
-- Ways apart from a write
-- ---------------------------------------------------------------------------

section

variable {q : List Segment} {inner : Document}

theorem Admits.putField_of_ne {a b : Text} {fields : List (Scalar × Document)} (hab : a ≠ b)
    (h : Admits (.key b :: q) (.map fields)) :
    Admits (.key b :: q) (.map (putField (.str a) inner fields)) := by
  cases q with
  | nil => exact ⟨_, rfl⟩
  | cons next q =>
    obtain ⟨_, e, h⟩ := h
    cases e
    exact ⟨_, rfl, by rwa [field?_putField, if_neg hab]⟩

theorem Admits.putField_self {a : Text} {fields : List (Scalar × Document)}
    (h : Admits q inner) : Admits (.key a :: q) (.map (putField (.str a) inner fields)) := by
  cases q with
  | nil => exact ⟨_, rfl⟩
  | cons next q => exact ⟨_, rfl, by rwa [field?_putField, if_pos rfl]⟩

theorem Admits.set_of_ne {m n : Nat} {items : List Document} (hmn : n ≠ m)
    (h : Admits (.index m :: q) (.list items)) :
    Admits (.index m :: q) (.list ((padTo n items).set n inner)) := by
  cases q with
  | nil => exact ⟨_, rfl⟩
  | cons next q =>
    obtain ⟨_, e, h⟩ := h
    cases e
    exact ⟨_, rfl, by rwa [getD_set_padTo, if_neg hmn]⟩

theorem Admits.set_self {n : Nat} {items : List Document} (h : Admits q inner)
    (ho : ∀ next, orEmpty next inner = inner) :
    Admits (.index n :: q) (.list ((padTo n items).set n inner)) := by
  cases q with
  | nil => exact ⟨_, rfl⟩
  | cons next q => exact ⟨_, rfl, by rwa [getD_set_padTo, if_pos rfl, ho]⟩

end

/-- Ways that are apart go on by the same kind of segment, and part there or later. -/
theorem apart_cons {s : Segment} {p q : List Segment} (h : Apart (s :: p) q) :
    ∃ t rest, q = t :: rest ∧ s.isIndex = t.isIndex ∧ (s = t ∧ Apart p rest ∨ s ≠ t) := by
  cases q with
  | nil => simp [Apart] at h
  | cons t q =>
    unfold Apart at h
    split at h
    · rename_i hst
      exact ⟨t, q, rfl, by rw [hst], .inl ⟨hst, h⟩⟩
    · exact ⟨t, q, rfl, h, .inr ‹_›⟩

theorem apart_key {name : Text} {p q : List Segment} (h : Apart (.key name :: p) q) :
    ∃ other rest, q = .key other :: rest ∧ (name = other ∧ Apart p rest ∨ name ≠ other) := by
  obtain ⟨t, rest, rfl, hk, hr⟩ := apart_cons h
  cases t with
  | key other => exact ⟨other, rest, rfl, by simpa using hr⟩
  | index m => cases hk

theorem apart_index {n : Nat} {p q : List Segment} (h : Apart (.index n :: p) q) :
    ∃ other rest, q = .index other :: rest ∧ (n = other ∧ Apart p rest ∨ n ≠ other) := by
  obtain ⟨t, rest, rfl, hk, hr⟩ := apart_cons h
  cases t with
  | key name => cases hk
  | index other => exact ⟨other, rest, rfl, by simpa using hr⟩

theorem emptyFor_congr {s t : Segment} (h : s.isIndex = t.isIndex) : emptyFor s = emptyFor t := by
  cases s <;> cases t <;> first | rfl | cases h

theorem orEmpty_congr {s t : Segment} (h : s.isIndex = t.isIndex) (d : Document) :
    orEmpty s d = orEmpty t d := by
  unfold orEmpty
  rw [emptyFor_congr h]

theorem Admits.place {value d d' : Document} {p q : List Segment} (hpq : Apart p q)
    (hp : Admits p d) (hq : Admits q d) (h : Document.place value p d = .ok d') : Admits q d' := by
  induction p, d using Admits.induct generalizing q d' with
  | case1 d => simp [Apart] at hpq
  | case2 name d =>
    obtain ⟨fields, rfl⟩ := hp
    obtain ⟨other, rest, rfl, ⟨-, hr⟩ | hne⟩ := apart_key hpq
    · simp [Apart] at hr
    · rw [Document.place] at h
      cases h
      exact hq.putField_of_ne hne
  | case3 n d =>
    obtain ⟨items, rfl⟩ := hp
    obtain ⟨other, rest, rfl, ⟨-, hr⟩ | hne⟩ := apart_index hpq
    · simp [Apart] at hr
    · rw [Document.place] at h
      cases h
      exact hq.set_of_ne hne
  | case4 name next rest d ih =>
    obtain ⟨fields, rfl, hp⟩ := hp
    obtain ⟨inner, hi, rfl⟩ := place_key.1 h
    obtain ⟨other, q, rfl, ⟨rfl, hr⟩ | hne⟩ := apart_key hpq
    · obtain ⟨t, q, rfl, ht, -⟩ := apart_cons hr
      obtain ⟨_, e, hq⟩ := hq
      cases e
      rw [← emptyFor_congr ht] at hq
      exact Admits.putField_self (ih fields hr hp hq hi)
    · exact hq.putField_of_ne hne
  | case5 n next rest d ih =>
    obtain ⟨items, rfl, hp⟩ := hp
    obtain ⟨inner, hi, rfl⟩ := place_index.1 h
    obtain ⟨other, q, rfl, ⟨rfl, hr⟩ | hne⟩ := apart_index hpq
    · obtain ⟨t, q, rfl, ht, -⟩ := apart_cons hr
      obtain ⟨_, e, hq⟩ := hq
      cases e
      rw [← orEmpty_congr ht] at hq
      exact Admits.set_self (ih items hr hp hq hi) fun _ => orEmpty_place hp hi
    · exact hq.set_of_ne hne

end Document

namespace Tree

-- ---------------------------------------------------------------------------
-- All values
-- ---------------------------------------------------------------------------

theorem foldlM_place_ok {entries : List (Path × Leaf)} {d : Document}
    (hp : entries.Pairwise fun e f => Apart e.1.segments f.1.segments)
    (hd : ∀ e ∈ entries, Document.Admits e.1.segments d) :
    ∃ d', entries.foldlM (fun d e => Document.place (.leaf e.2) e.1.segments d) d = .ok d' := by
  induction entries generalizing d with
  | nil => exact ⟨d, rfl⟩
  | cons e rest ih =>
    obtain ⟨hpe, hpr⟩ := List.pairwise_cons.1 hp
    have he := hd e List.mem_cons_self
    obtain ⟨d₁, h₁⟩ := Document.place_ok (.leaf e.2) he
    obtain ⟨d', h'⟩ := ih hpr fun f hf =>
      Document.Admits.place (hpe f hf) he (hd f (List.mem_cons_of_mem _ hf)) h₁
    exact ⟨d', by rw [List.foldlM_cons, h₁]; exact h'⟩

theorem WellShaped.outermost {t : Tree Leaf} (h : t.WellShaped) {p : Path} {s : Segment}
    {rest : List Segment} (hp : p ∈ t.keys) (hs : p.segments = s :: rest) :
    (if t.startsWithIndex then Document.list [] else .map []) = Document.emptyFor s := by
  have hstart : t.startsWithIndex = s.isIndex := by
    rw [Bool.eq_iff_iff, startsWithIndex, List.any_eq_true]
    constructor
    · rintro ⟨q, hq, hi⟩
      obtain ⟨u, hu, hui⟩ := (Option.any_eq_true _ _).1 hi
      obtain ⟨further, hq'⟩ := List.head?_eq_some_iff.1 hu
      rw [h.oneKind p hp q hq [] s u rest further hs hq', hui]
    · intro hi
      exact ⟨p, hp, by simp [hs, hi]⟩
  rw [hstart]
  cases s <;> rfl

theorem WellShaped.nested_ok {t : Tree Leaf} (h : t.WellShaped) : ∃ d, t.nested = .ok d := by
  refine foldlM_place_ok ?_ fun e he => ?_
  · have hd := List.pairwise_map.1 t.distinct
    refine hd.imp_of_mem fun he hf hne => ?_
    exact h.apart (OrderedMap.mem_keys_of_mem he) (OrderedMap.mem_keys_of_mem hf) hne
  · have hk := OrderedMap.mem_keys_of_mem he
    cases hs : e.1.segments with
    | nil =>
      have hr : e.1 = Path.root := Path.ext_segments hs
      exact absurd (hr ▸ hk) h.rootFree
    | cons s rest =>
      rw [h.outermost hk hs]
      exact Document.admits_emptyFor s rest

end Tree

end LayeredConfig
