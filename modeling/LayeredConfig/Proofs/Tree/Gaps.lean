import LayeredConfig.Proofs.Tree.Filled

/-!
# Gaps in arrays

A gap is a position of an array before a used one at or under which nothing is stored. A document
`Describes` what is stored when its leaves are the stored ones and null in every gap.
`Describes.place`: placing one value more gives a document of one value more.
-/

namespace LayeredConfig

namespace Document

variable {P : Leaf → Prop} {v : Leaf}

-- ---------------------------------------------------------------------------
-- Gaps
-- ---------------------------------------------------------------------------

/-- A position before a used one, under which nothing is stored. `S` tells which leaves are stored
where. -/
def Gap (S : List Segment → Leaf → Prop) : List Segment → Prop
  | [] => False
  | [.index i] =>
    (∃ n rest v, i < n ∧ S (.index n :: rest) v) ∧ ∀ rest v, ¬ S (.index i :: rest) v
  | s :: q => Gap (fun rest v => S (s :: rest) v) q

variable {S : List Segment → Leaf → Prop} {q : List Segment}

theorem gap_nil : ¬ Gap S [] := id

theorem gap_key {name : Text} :
    Gap S (.key name :: q) ↔ Gap (fun rest v => S (.key name :: rest) v) q := by
  cases q <;> exact Iff.rfl

theorem gap_index {i : Nat} (hq : q ≠ []) :
    Gap S (.index i :: q) ↔ Gap (fun rest v => S (.index i :: rest) v) q := by
  cases q with
  | nil => exact absurd rfl hq
  | cons s q => exact Iff.rfl

theorem Gap.exists_stored (h : Gap S q) : ∃ rest v, S rest v := by
  induction q generalizing S with
  | nil => exact h.elim
  | cons s q ih =>
    cases s with
    | key name =>
      obtain ⟨rest, v, hs⟩ := ih (gap_key.1 h)
      exact ⟨_, v, hs⟩
    | index i =>
      cases q with
      | nil =>
        obtain ⟨⟨n, rest, v, -, hs⟩, -⟩ := h
        exact ⟨_, v, hs⟩
      | cons t q =>
        obtain ⟨rest, v, hs⟩ := ih ((gap_index (List.cons_ne_nil _ _)).1 h)
        exact ⟨_, v, hs⟩

/-- A position with a used one behind it, under which nothing is stored. -/
def Unused (S : List Segment → Leaf → Prop) (q : List Segment) : Prop :=
  ∃ place i, q = place ++ [.index i] ∧
    (∃ n rest v, i < n ∧ S (place ++ .index n :: rest) v) ∧ ∀ rest v, ¬ S (q ++ rest) v

theorem unused_cons {s : Segment} (h : q = [] → s.isIndex = false) :
    Unused S (s :: q) ↔ Unused (fun rest v => S (s :: rest) v) q := by
  constructor
  · rintro ⟨place, i, heq, hbehind, hnone⟩
    cases place with
    | nil =>
      cases heq
      cases h rfl
    | cons t place =>
      cases heq
      exact ⟨place, i, rfl, hbehind, hnone⟩
  · rintro ⟨place, i, rfl, hbehind, hnone⟩
    exact ⟨s :: place, i, rfl, hbehind, hnone⟩

theorem gap_iff_unused : Gap S q ↔ Unused S q := by
  induction q generalizing S with
  | nil => exact iff_of_false gap_nil (by simp [Unused])
  | cons s q ih =>
    cases s with
    | key name => rw [gap_key, ih, unused_cons fun _ => rfl]
    | index i =>
      cases q with
      | cons t q =>
        have hne : t :: q = [] → (Segment.index i).isIndex = false := nofun
        rw [gap_index (List.cons_ne_nil _ _), ih, unused_cons hne]
      | nil =>
        constructor
        · rintro ⟨hbehind, hnone⟩
          exact ⟨[], i, rfl, hbehind, hnone⟩
        · rintro ⟨place, j, heq, hbehind, hnone⟩
          obtain ⟨rfl, hj⟩ | ⟨_, h⟩ := List.append_eq_singleton_iff.1 heq.symm
          · cases hj
            exact ⟨hbehind, hnone⟩
          · cases h

-- ---------------------------------------------------------------------------
-- Documents of what is stored
-- ---------------------------------------------------------------------------

/-- The leaves of the document are the stored ones, and null in every gap. -/
def Describes (d : Document) (S : List Segment → Leaf → Prop) : Prop :=
  ∀ q w, leafAt? q d = some w ↔ S q w ∨ w = .null ∧ Gap S q

def Also (S : List Segment → Leaf → Prop) (p : List Segment) (v : Leaf) (q : List Segment)
    (w : Leaf) : Prop :=
  S q w ∨ q = p ∧ w = v

theorem Describes.not_stored {d : Document} (h : Describes d S) (hq : leafAt? q d = none)
    (w : Leaf) : ¬ S q w := by
  intro hs
  rw [(h q w).2 (.inl hs)] at hq
  cases hq

theorem Describes.congr {S' : List Segment → Leaf → Prop} {d : Document} (h : Describes d S)
    (hS : ∀ q w, S q w ↔ S' q w) : Describes d S' := by
  have : S = S' := funext fun q => funext fun w => propext (hS q w)
  exact this ▸ h

theorem also_cons {s : Segment} {p : List Segment} {w : Leaf} :
    Also S (s :: p) v (s :: q) w ↔ Also (fun q w => S (s :: q) w) p v q w := by
  simp [Also]

theorem also_of_ne {s t : Segment} (h : s ≠ t) {p : List Segment} {w : Leaf} :
    Also S (s :: p) v (t :: q) w ↔ S (t :: q) w := by
  simp [Also, Ne.symm h]

theorem Gap.congr {S' : List Segment → Leaf → Prop} (hS : ∀ q w, S q w ↔ S' q w) :
    Gap S q ↔ Gap S' q := by
  have : S = S' := funext fun q => funext fun w => propext (hS q w)
  rw [this]

theorem leafAt?_emptyFor (q : List Segment) (s : Segment) : leafAt? q (emptyFor s) = none := by
  match s, q with
  | .key _, [] => rfl
  | .key _, .key _ :: _ => rfl
  | .key _, .index _ :: _ => rfl
  | .index _, [] => rfl
  | .index _, .key _ :: _ => rfl
  | .index _, .index _ :: _ => rfl

theorem leafAt?_leaf_cons (s : Segment) (q : List Segment) (v : Leaf) :
    leafAt? (s :: q) (leaf v) = none := by
  cases s <;> rfl

theorem leafAt?_null {w : Leaf} : leafAt? q null = some w ↔ q = [] ∧ w = .null := by
  cases q with
  | nil =>
    constructor
    · intro h
      exact ⟨rfl, (Option.some.inj h).symm⟩
    · rintro ⟨-, rfl⟩
      rfl
  | cons s q =>
    rw [null, leafAt?_leaf_cons]
    exact iff_of_false nofun nofun

theorem describes_emptyFor (s : Segment) (hS : ∀ q w, ¬ S q w) : Describes (emptyFor s) S := by
  intro q w
  rw [leafAt?_emptyFor]
  refine iff_of_false nofun ?_
  rintro (h | ⟨-, h⟩)
  · exact hS q w h
  · obtain ⟨rest, u, h⟩ := h.exists_stored
    exact hS rest u h

theorem describes_leaf (v : Leaf) (hS : ∀ q w, S q w ↔ q = [] ∧ w = v) : Describes (leaf v) S := by
  intro q w
  rw [hS]
  cases q with
  | nil =>
    constructor
    · intro h
      cases h
      exact .inl ⟨rfl, rfl⟩
    · rintro (⟨-, rfl⟩ | ⟨-, h⟩)
      · rfl
      · exact h.elim
  | cons s q =>
    rw [leafAt?_leaf_cons]
    refine iff_of_false nofun ?_
    rintro (⟨h, -⟩ | ⟨-, h⟩)
    · cases h
    · obtain ⟨place, i, heq, ⟨n, rest, u, -, hs⟩, -⟩ := gap_iff_unused.1 h
      simpa using ((hS _ _).1 hs).1

theorem Describes.not_root {d : Document} (h : Describes d S) (hd : leafAt? [] d = none)
    {s : Segment} {p : List Segment} (w : Leaf) :
    ¬ (Also S (s :: p) v [] w ∨ w = .null ∧ Gap (Also S (s :: p) v) []) := by
  rintro ((hs | ⟨hq, -⟩) | ⟨-, hgap⟩)
  · exact h.not_stored hd w hs
  · cases hq
  · exact gap_nil hgap

-- ---------------------------------------------------------------------------
-- One field more
-- ---------------------------------------------------------------------------

theorem leafAt?_putField {a b : Text} {x : Document} {fields : List (Scalar × Document)} :
    leafAt? (.key b :: q) (.map (putField (.str a) x fields)) =
      if a = b then leafAt? q x else leafAt? (.key b :: q) (.map fields) := by
  rw [leafAt?, field?_putField]
  split <;> rfl

theorem Describes.putField {a : Text} {p : List Segment} {x : Document}
    {fields : List (Scalar × Document)} (h : Describes (.map fields) S)
    (hx : Describes x (Also (fun q w => S (.key a :: q) w) p v)) :
    Describes (.map (putField (.str a) x fields)) (Also S (.key a :: p) v) := by
  intro q w
  match q with
  | [] => exact iff_of_false nofun (h.not_root rfl w)
  | .index i :: q =>
    have hnone (n : Nat) (rest : List Segment) (u : Leaf) :
        ¬ Also S (.key a :: p) v (.index n :: rest) u := by
      have hne : Segment.key a ≠ .index n := nofun
      rw [also_of_ne hne]
      exact h.not_stored rfl u
    refine iff_of_false nofun ?_
    rintro (hs | ⟨-, hgap⟩)
    · exact hnone i q w hs
    · obtain ⟨place, j, heq, ⟨n, rest, u, -, hs⟩, -⟩ := gap_iff_unused.1 hgap
      cases place with
      | nil => exact hnone n rest u hs
      | cons t place =>
        cases heq
        exact hnone i _ u hs
  | .key b :: q =>
    rw [leafAt?_putField, gap_key]
    by_cases hab : a = b
    · subst hab
      rw [if_pos rfl, hx q w, also_cons, Gap.congr fun _ _ => also_cons]
    · have hne : Segment.key a ≠ .key b := fun e => hab (Segment.key.inj e)
      rw [if_neg hab, h, gap_key, also_of_ne hne, Gap.congr fun _ _ => also_of_ne hne]

-- ---------------------------------------------------------------------------
-- One item more
-- ---------------------------------------------------------------------------

theorem leafAt?_set_self {n : Nat} {x : Document} {items : List Document} :
    leafAt? (.index n :: q) (.list ((padTo n items).set n x)) = leafAt? q x := by
  rw [leafAt?, List.getElem?_set_self (lt_length_padTo n items), Option.bind_some]

theorem leafAt?_set_lt {m n : Nat} {x : Document} {items : List Document} (hmn : n ≠ m)
    (hm : m < items.length) :
    leafAt? (.index m :: q) (.list ((padTo n items).set n x)) =
      leafAt? (.index m :: q) (.list items) := by
  rw [leafAt?, leafAt?, List.getElem?_set_ne hmn, padTo, List.getElem?_append_left hm]

theorem leafAt?_set_ge {m n : Nat} {x : Document} {items : List Document} (hmn : n ≠ m)
    (hm : items.length ≤ m) :
    leafAt? (.index m :: q) (.list ((padTo n items).set n x)) =
      if m < n then leafAt? q null else none := by
  rw [leafAt?, List.getElem?_set_ne hmn, padTo, List.getElem?_append_right hm,
    List.getElem?_replicate]
  by_cases h : m < n
  · rw [if_pos h, if_pos (by omega), Option.bind_some]
  · rw [if_neg h, if_neg (by omega), Option.bind_none]

theorem leafAt?_list_ge {m : Nat} {items : List Document} (hm : items.length ≤ m) :
    leafAt? (.index m :: q) (.list items) = none := by
  rw [leafAt?, List.getElem?_eq_none hm, Option.bind_none]

theorem Describes.gap_of_unused {items : List Document} {m : Nat} (h : Describes (.list items) S)
    (hp : (Document.list items).Proper P) (ho : (Document.list items).Open)
    (hm : m < items.length) (hnone : ∀ rest w, ¬ S (.index m :: rest) w) : Gap S [.index m] := by
  rw [Proper, properItems_iff] at hp
  rw [Open, filledItems_iff] at ho
  have hmem : items[m] ∈ items := List.getElem_mem hm
  obtain ⟨q, w, hq⟩ := exists_leafAt (hp _ hmem) (ho _ hmem)
  have hq' : leafAt? (.index m :: q) (.list items) = some w := by
    rw [leafAt?, List.getElem?_eq_getElem hm, Option.bind_some, hq]
  rcases (h _ w).1 hq' with hs | ⟨-, hgap⟩
  · exact absurd hs (hnone q w)
  · cases q with
    | nil => exact hgap
    | cons s q =>
      obtain ⟨rest, u, hs⟩ := ((gap_index (List.cons_ne_nil _ _)).1 hgap).exists_stored
      exact absurd hs (hnone rest u)

theorem Describes.gap_also_inside {m n : Nat} {p : List Segment} {items : List Document}
    (h : Describes (.list items) S) (hp : (Document.list items).Proper P)
    (ho : (Document.list items).Open) (hne : Segment.index n ≠ .index m) (hm : m < items.length) :
    Gap (Also S (.index n :: p) v) (.index m :: q) ↔ Gap S (.index m :: q) := by
  cases q with
  | nil =>
    constructor
    · rintro ⟨-, hnone⟩
      exact h.gap_of_unused hp ho hm fun rest u => mt (also_of_ne hne).2 (hnone rest u)
    · rintro ⟨⟨k, rest, u, hk, hs⟩, hnone⟩
      exact ⟨⟨k, rest, u, hk, .inl hs⟩, fun rest u => mt (also_of_ne hne).1 (hnone rest u)⟩
  | cons s q =>
    rw [gap_index (List.cons_ne_nil _ _), gap_index (List.cons_ne_nil _ _),
      Gap.congr fun _ _ => also_of_ne hne]

theorem Describes.gap_also_behind {m n : Nat} {p : List Segment} {items : List Document}
    (h : Describes (.list items) S) (hne : Segment.index n ≠ .index m)
    (hm : items.length ≤ m) :
    Gap (Also S (.index n :: p) v) (.index m :: q) ↔ q = [] ∧ m < n := by
  have hnone (k : Nat) (hk : items.length ≤ k) (rest : List Segment) (u : Leaf) :
      ¬ S (.index k :: rest) u :=
    h.not_stored (leafAt?_list_ge hk) u
  cases q with
  | nil =>
    constructor
    · rintro ⟨⟨k, rest, u, hk, hs | ⟨heq, -⟩⟩, -⟩
      · exact absurd hs (hnone k (Nat.le_trans hm (Nat.le_of_lt hk)) rest u)
      · cases heq
        exact ⟨rfl, hk⟩
    · rintro ⟨-, hmn⟩
      exact ⟨⟨n, p, v, hmn, .inr ⟨rfl, rfl⟩⟩,
        fun rest u => mt (also_of_ne hne).1 (hnone m hm rest u)⟩
  | cons s q =>
    refine iff_of_false (fun hgap => ?_) fun hq => absurd hq.1 (List.cons_ne_nil _ _)
    obtain ⟨rest, u, hs⟩ := ((gap_index (List.cons_ne_nil _ _)).1 hgap).exists_stored
    exact hnone m hm rest u ((also_of_ne hne).1 hs)

theorem Describes.set {n : Nat} {p : List Segment} {x : Document} {items : List Document}
    (h : Describes (.list items) S) (hp : (Document.list items).Proper P)
    (ho : (Document.list items).Open)
    (hx : Describes x (Also (fun q w => S (.index n :: q) w) p v)) :
    Describes (.list ((padTo n items).set n x)) (Also S (.index n :: p) v) := by
  intro q w
  match q with
  | [] => exact iff_of_false nofun (h.not_root rfl w)
  | .key a :: q =>
    have hnone (rest : List Segment) (u : Leaf) :
        ¬ Also S (.index n :: p) v (.key a :: rest) u := by
      have hne : Segment.index n ≠ .key a := nofun
      rw [also_of_ne hne]
      exact h.not_stored rfl u
    refine iff_of_false nofun ?_
    rintro (hs | ⟨-, hgap⟩)
    · exact hnone q w hs
    · obtain ⟨rest, u, hs⟩ := (gap_key.1 hgap).exists_stored
      exact hnone rest u hs
  | .index m :: q =>
    by_cases hnm : n = m
    · subst hnm
      rw [leafAt?_set_self, hx q w, also_cons]
      cases q with
      | nil =>
        -- the position is in use now
        refine or_congr_right (and_congr_right fun _ => iff_of_false gap_nil ?_)
        exact fun hgap => hgap.2 p v (.inr ⟨rfl, rfl⟩)
      | cons s q =>
        rw [gap_index (List.cons_ne_nil _ _), Gap.congr fun _ _ => also_cons]
    · have hne : Segment.index n ≠ .index m := fun e => hnm (Segment.index.inj e)
      rw [also_of_ne hne]
      by_cases hm : m < items.length
      · rw [leafAt?_set_lt hnm hm, h]
        exact or_congr_right (and_congr_right fun _ => (h.gap_also_inside hp ho hne hm).symm)
      · have hm := Nat.le_of_not_lt hm
        have hs := h.not_stored (leafAt?_list_ge hm) (q := .index m :: q) w
        rw [leafAt?_set_ge hnm hm, or_iff_right hs, h.gap_also_behind hne hm]
        constructor
        · intro heq
          obtain ⟨hmn, hnull⟩ := (Option.ite_none_right_eq_some).1 heq
          obtain ⟨rfl, rfl⟩ := leafAt?_null.1 hnull
          exact ⟨rfl, rfl, hmn⟩
        · rintro ⟨rfl, rfl, hmn⟩
          rw [if_pos hmn]
          rfl

-- ---------------------------------------------------------------------------
-- One value more
-- ---------------------------------------------------------------------------

theorem not_stored_of_apart {s : Segment} {p : List Segment}
    (hapart : ∀ q w, S q w → Apart (s :: p) q) {q : List Segment} {w : Leaf} (h : S (s :: q) w) :
    Apart p q := by
  simpa [Apart] using hapart _ _ h

theorem Describes.field {fields : List (Scalar × Document)} (h : Describes (.map fields) S)
    (name : Text) (next : Segment) :
    Describes ((field? fields (.str name)).getD (emptyFor next))
      (fun q w => S (.key name :: q) w) := by
  cases hf : field? fields (.str name) with
  | none =>
    refine describes_emptyFor next fun q w => h.not_stored ?_ w
    rw [leafAt?, hf, Option.bind_none]
  | some d =>
    intro q w
    have hq := h (.key name :: q) w
    rwa [leafAt?, hf, Option.bind_some, gap_key] at hq

theorem orEmpty_of_ne_null {d : Document} (h : d ≠ null) (next : Segment) : orEmpty next d = d := by
  unfold orEmpty
  split
  · exact absurd rfl h
  · rfl

theorem leaf?_eq_some_iff {d : Document} : d.leaf? = some v ↔ d = leaf v := by
  cases d with
  | scalar s => cases s <;> simp [leaf?, leaf]
  | list items => simp [leaf?, leaf]
  | map fields => simp [leaf?, leaf]

theorem Describes.item {items : List Document} (h : Describes (.list items) S) (n : Nat)
    (next : Segment) (hn : ∀ w, ¬ S [.index n] w) :
    Describes (orEmpty next (items.getD n null)) (fun q w => S (.index n :: q) w) := by
  rw [List.getD_eq_getElem?_getD]
  cases hi : items[n]? with
  | none =>
    refine describes_emptyFor next fun q w => h.not_stored ?_ w
    rw [leafAt?, hi, Option.bind_none]
  | some d =>
    have hleaf (q : List Segment) : leafAt? (.index n :: q) (.list items) = leafAt? q d := by
      rw [leafAt?, hi, Option.bind_some]
    change Describes (orEmpty next d) _
    by_cases hd : d = null
    · -- a null that is not stored fills a gap, under which nothing is stored
      subst hd
      have hgap := ((h [.index n] .null).1 (hleaf [])).resolve_left (hn .null)
      exact describes_emptyFor next hgap.2.2
    · rw [orEmpty_of_ne_null hd]
      intro q w
      rw [← hleaf, h]
      cases q with
      | cons s q => rw [gap_index (List.cons_ne_nil _ _)]
      | nil =>
        refine or_congr_right (and_congr_right fun _ => iff_of_false (fun hgap => hd ?_) gap_nil)
        have hnull := (h [.index n] .null).2 (.inr ⟨rfl, hgap⟩)
        rw [hleaf] at hnull
        exact leaf?_eq_some_iff.1 hnull

theorem Describes.place {p : List Segment} {d d' : Document} (hne : p ≠ []) (ha : Admits p d)
    (hp : d.Proper P) (ho : d.Open) (hd : Describes d S) (hapart : ∀ q w, S q w → Apart p q)
    (h : Document.place (leaf v) p d = .ok d') : Describes d' (Also S p v) := by
  induction p, d using Admits.induct generalizing S d' with
  | case1 d => exact absurd rfl hne
  | case2 name d =>
    obtain ⟨fields, rfl⟩ := ha
    rw [Document.place] at h
    cases h
    refine hd.putField (describes_leaf v fun q w => ?_)
    refine or_iff_right fun hs => ?_
    simpa [Apart] using not_stored_of_apart hapart hs
  | case3 n d =>
    obtain ⟨items, rfl⟩ := ha
    rw [Document.place] at h
    cases h
    refine hd.set hp ho (describes_leaf v fun q w => ?_)
    refine or_iff_right fun hs => ?_
    simpa [Apart] using not_stored_of_apart hapart hs
  | case4 name next rest d ih =>
    obtain ⟨fields, rfl, ha⟩ := ha
    obtain ⟨inner, hi, rfl⟩ := place_key.1 h
    obtain ⟨hip, hio⟩ := inner_field hp ho name next
    refine hd.putField (ih fields (List.cons_ne_nil _ _) ha hip hio (hd.field name next) ?_ hi)
    exact fun q w hs => not_stored_of_apart hapart hs
  | case5 n next rest d ih =>
    obtain ⟨items, rfl, ha⟩ := ha
    obtain ⟨inner, hi, rfl⟩ := place_index.1 h
    obtain ⟨hip, hio⟩ := inner_item hp ho n next
    have hn (w : Leaf) : ¬ S [.index n] w := fun hs => by
      simpa [Apart] using not_stored_of_apart hapart hs
    refine hd.set hp ho (ih items (List.cons_ne_nil _ _) ha hip hio (hd.item n next hn) ?_ hi)
    exact fun q w hs => not_stored_of_apart hapart hs

end Document

namespace Tree

-- ---------------------------------------------------------------------------
-- All values
-- ---------------------------------------------------------------------------

/-- A position of an array of the tree that lies before a used one and is not used itself: nothing
is stored at or under it. -/
def Gap (t : Tree Leaf) (p : Path) : Prop :=
  ∃ (place : Path) (i n : Nat), p = place.index i ∧ i < n ∧
    (∃ q ∈ t.keys, (place.index n).segments <+: q.segments) ∧
    ∀ q ∈ t.keys, ¬ p.segments <+: q.segments

theorem Gap.exists_key {t : Tree Leaf} {p : Path} {name : Text} (h : t.Gap p)
    (hname : .key name ∈ p.segments) : ∃ q ∈ t.keys, .key name ∈ q.segments := by
  obtain ⟨place, i, n, rfl, -, ⟨q, hq, hbelow⟩, -⟩ := h
  refine ⟨q, hq, hbelow.subset ?_⟩
  simpa [Path.index] using hname

def Stores (entries : List (Path × Leaf)) (q : List Segment) (v : Leaf) : Prop :=
  (⟨q⟩, v) ∈ entries

theorem stores_cons {e : Path × Leaf} {entries : List (Path × Leaf)} {q : List Segment}
    {v : Leaf} : Stores (e :: entries) q v ↔ (q = e.1.segments ∧ v = e.2) ∨ Stores entries q v := by
  rw [Stores, List.mem_cons]
  refine or_congr_left ⟨?_, ?_⟩
  · rintro rfl
    exact ⟨rfl, rfl⟩
  · rintro ⟨rfl, rfl⟩
    rfl

theorem exists_stores_iff {t : Tree Leaf} {p : List Segment} :
    (∃ rest v, Stores t.entries (p ++ rest) v) ↔ ∃ q ∈ t.keys, p <+: q.segments := by
  constructor
  · rintro ⟨rest, v, hm⟩
    exact ⟨_, OrderedMap.mem_keys_of_mem hm, _, rfl⟩
  · rintro ⟨q, hq, rest, hrest⟩
    obtain ⟨⟨_, v⟩, hm, rfl⟩ := List.mem_map.1 hq
    exact ⟨rest, v, by rwa [Stores, hrest]⟩

theorem gap_iff {t : Tree Leaf} {p : Path} :
    Document.Gap (Stores t.entries) p.segments ↔ t.Gap p := by
  have hat (place : List Segment) (n : Nat) :
      (∃ rest v, Stores t.entries (place ++ .index n :: rest) v) ↔
        ∃ q ∈ t.keys, (Path.index ⟨place⟩ n).segments <+: q.segments := by
    rw [← exists_stores_iff]
    simp [Path.index]
  have hnone : (∀ rest v, ¬ Stores t.entries (p.segments ++ rest) v) ↔
      ∀ q ∈ t.keys, ¬ p.segments <+: q.segments := by
    simpa using not_congr (exists_stores_iff (t := t) (p := p.segments))
  rw [Document.gap_iff_unused, Document.Unused, hnone]
  constructor
  · rintro ⟨place, i, heq, ⟨n, rest, v, hin, hs⟩, hp⟩
    exact ⟨⟨place⟩, i, n, Path.ext_segments heq, hin, (hat place n).1 ⟨rest, v, hs⟩, hp⟩
  · rintro ⟨⟨place⟩, i, n, rfl, hin, hq, hp⟩
    obtain ⟨rest, v, hs⟩ := (hat place n).2 hq
    exact ⟨place, i, rfl, ⟨n, rest, v, hin, hs⟩, hp⟩

/-- Entries that are still to be placed in a document of what is stored so far. -/
structure Pending (P : Leaf → Prop) (entries : List (Path × Leaf)) (d : Document)
    (S : List Segment → Leaf → Prop) : Prop where
  proper : d.Proper P
  isOpen : d.Open
  describes : d.Describes S
  apart : entries.Pairwise fun e f => Apart e.1.segments f.1.segments
  apartFrom : ∀ e ∈ entries, ∀ q w, S q w → Apart e.1.segments q
  admits : ∀ e ∈ entries, Document.Admits e.1.segments d
  rootFree : ∀ e ∈ entries, e.1.segments ≠ []
  leaf : ∀ e ∈ entries, P e.2

variable {P : Leaf → Prop} {entries : List (Path × Leaf)} {d d' : Document}
  {S : List Segment → Leaf → Prop}

theorem Pending.place {e : Path × Leaf} (hnull : P .null) (h : Pending P (e :: entries) d S)
    (hd : Document.place (.leaf e.2) e.1.segments d = .ok d') :
    d'.Filled ∧ Pending P entries d' (Document.Also S e.1.segments e.2) := by
  have hmem {f : Path × Leaf} (hf : f ∈ entries) : f ∈ e :: entries := List.mem_cons_of_mem e hf
  have he : e ∈ e :: entries := List.mem_cons_self
  obtain ⟨hpair, hrest⟩ := List.pairwise_cons.1 h.apart
  obtain ⟨hp', hf'⟩ := Document.place_proper hnull (h.leaf e he) (h.rootFree e he) (h.admits e he)
    h.proper h.isOpen hd
  refine ⟨hf', hp', hf'.open, ?_, hrest, ?_, ?_, fun f hf => h.rootFree f (hmem hf),
    fun f hf => h.leaf f (hmem hf)⟩
  · exact h.describes.place (h.rootFree e he) (h.admits e he) h.proper h.isOpen
      (h.apartFrom e he) hd
  · rintro f hf q w (hs | ⟨rfl, -⟩)
    · exact h.apartFrom f (hmem hf) q w hs
    · exact (hpair f hf).symm
  · exact fun f hf => (h.admits e he).place (hpair f hf) (h.admits f (hmem hf)) hd

theorem Pending.foldlM (hnull : P .null) (h : Pending P entries d S)
    (hd : entries.foldlM (fun d e => Document.place (.leaf e.2) e.1.segments d) d = .ok d') :
    (d.Filled ∨ entries ≠ [] → d'.Filled) ∧ d'.Proper P ∧
      d'.Describes fun q w => S q w ∨ Stores entries q w := by
  induction entries generalizing d S with
  | nil =>
    cases hd
    refine ⟨?_, h.proper, h.describes.congr fun q w => (or_iff_left List.not_mem_nil).symm⟩
    rintro (hf | hne)
    · exact hf
    · exact absurd rfl hne
  | cons e rest ih =>
    obtain ⟨d₁, h₁, hd⟩ := bind_ok.1 (List.foldlM_cons.symm.trans hd)
    obtain ⟨hf₁, hpending⟩ := h.place hnull h₁
    obtain ⟨hf', hp', hd'⟩ := ih hpending hd
    refine ⟨fun _ => hf' (.inl hf₁), hp', hd'.congr fun q w => ?_⟩
    rw [stores_cons, Document.Also, or_assoc]

theorem WellShaped.segments_ne_nil {t : Tree Leaf} (h : t.WellShaped) {e : Path × Leaf}
    (he : e ∈ t.entries) : e.1.segments ≠ [] := fun hs =>
  h.rootFree (Path.ext_segments (q := Path.root) hs ▸ OrderedMap.mem_keys_of_mem he)

theorem WellShaped.pending {t : Tree Leaf} (h : t.WellShaped) (hleaf : ∀ e ∈ t.entries, P e.2) :
    Pending P t.entries (if t.startsWithIndex then .list [] else .map []) fun _ _ => False where
  proper := by split <;> first | exact ⟨List.nodup_nil, trivial⟩ | trivial
  isOpen := by split <;> trivial
  describes := by
    split
    · exact Document.describes_emptyFor (.index 0) fun _ _ => id
    · exact Document.describes_emptyFor (.key "") fun _ _ => id
  apart := by
    refine (List.pairwise_map.1 t.distinct).imp_of_mem fun he hf hne => ?_
    exact h.apart (OrderedMap.mem_keys_of_mem he) (OrderedMap.mem_keys_of_mem hf) hne
  apartFrom _ _ _ _ := False.elim
  admits e he := by
    obtain ⟨s, rest, hs⟩ := List.exists_cons_of_ne_nil (h.segments_ne_nil he)
    rw [h.outermost (OrderedMap.mem_keys_of_mem he) hs, hs]
    exact Document.admits_emptyFor s rest
  rootFree _ he := h.segments_ne_nil he
  leaf := hleaf

theorem WellShaped.nested_leaves {t : Tree Leaf} (h : t.WellShaped) (hnull : P .null)
    (hleaf : ∀ e ∈ t.entries, P e.2) :
    ∃ d, t.nested = .ok d ∧ d.Proper P ∧ d.Filled ∧
      ∀ q v, Document.leafAt? q d = some v ↔ t.get? ⟨q⟩ = some v ∨ v = .null ∧ t.Gap ⟨q⟩ := by
  obtain ⟨d, hd⟩ := h.nested_ok
  obtain ⟨hfilled, hproper, hdescribes⟩ := (h.pending hleaf).foldlM hnull hd
  refine ⟨d, hd, hproper, hfilled (.inr fun he => ?_), fun q v => ?_⟩
  · exact h.nonempty (congrArg (List.map Prod.fst) he)
  · have hstores : Document.Describes d (Stores t.entries) :=
      hdescribes.congr fun q w => or_iff_right id
    rw [hstores q v, OrderedMap.get?_eq_some_iff, ← gap_iff]
    rfl

end Tree

end LayeredConfig
