import LayeredConfig.Context.Layer
import LayeredConfig.Proofs.OrderedMap
import Mathlib.Data.List.Find

/-!
# Provenance of merged layers

`origin_ofLayers`: what a context of layers answers about the origin of a key. Leaves are stored by
path but their origins by the text of the path, and a key of a document may have dots in it, so two
paths can have one text. The answer is that of the last layer with a leaf of that text, which is the
layer that supplied the leaf unless another path got in between.
-/

namespace LayeredConfig

-- ---------------------------------------------------------------------------
-- Layers
-- ---------------------------------------------------------------------------

namespace Layer

def stores (l : Layer) (p : Path) : Bool := l.tree.contains p

def spells (l : Layer) (text : Text) : Bool := l.tree.keys.any fun p => p.text = text

def origin (l : Layer) (text : Text) : Origin := ⟨l.profile, l.path, text⟩

variable {l : Layer} {p : Path} {text : Text}

theorem spells_iff : l.spells text = true ↔ ∃ p ∈ l.tree.keys, p.text = text := by
  simp [spells]

theorem spells_of_stores (h : l.stores p = true) : l.spells p.text = true :=
  spells_iff.2 ⟨p, OrderedMap.contains_iff.1 h, rfl⟩

theorem get?_origins (l : Layer) (text : Text) :
    l.origins.get? text = if l.spells text then some (l.origin text) else none := by
  rw [origins, OrderedMap.ofList_eq_insertAll,
    OrderedMap.get?_insertAll (f := fun text => some (l.origin text)) (by simp [origin])]
  simp only [List.map_map, List.mem_map, Function.comp_apply, spells_iff]
  rfl

end Layer

-- ---------------------------------------------------------------------------
-- Merged layers
-- ---------------------------------------------------------------------------

namespace Context

variable {layers : List Layer} {key : Text} {p : Path}

def lastStoring (layers : List Layer) (p : Path) : Option Layer :=
  layers.reverse.find? (·.stores p)

/-- The last layer that stores a path of this text. -/
def lastSpelling (layers : List Layer) (text : Text) : Option Layer :=
  layers.reverse.find? (·.spells text)

/-- Where the leaf at a path came from: the last layer that stores one there. -/
def supplied (layers : List Layer) (p : Path) : Option Origin :=
  (lastStoring layers p).map (·.origin p.text)

-- Both folds are taken from any context on, as a layer that is folded in becomes part of it.
theorem get?_origins_foldl (c : Context) (layers : List Layer) (text : Text) :
    (layers.foldl overlay c).origins.get? text =
      ((lastSpelling layers text).map (·.origin text)).or (c.origins.get? text) := by
  induction layers generalizing c with
  | nil => rfl
  | cons l rest ih =>
    rw [List.foldl_cons, ih, overlay, OrderedMap.get?_merge, Layer.get?_origins]
    simp only [lastSpelling, List.reverse_cons, List.find?_append]
    cases rest.reverse.find? (·.spells text) with
    | some m => rfl
    | none => cases h : l.spells text <;> simp [h]

theorem get?_tree_foldl (c : Context) (layers : List Layer) (p : Path) :
    (layers.foldl overlay c).tree.get? p =
      ((lastStoring layers p).bind (·.tree.get? p)).or (c.tree.get? p) := by
  induction layers generalizing c with
  | nil => rfl
  | cons l rest ih =>
    rw [List.foldl_cons, ih, overlay, OrderedMap.get?_merge, ← Option.or_assoc]
    congr 1
    simp only [lastStoring, List.reverse_cons, List.find?_append]
    cases hlast : rest.reverse.find? (·.stores p) with
    | some m =>
      have hstores : m.stores p = true := List.find?_some (p := fun k : Layer => k.stores p) hlast
      obtain ⟨v, hv⟩ := Option.isSome_iff_exists.1 hstores
      simp [hv]
    | none =>
      cases hl : l.stores p with
      | true => simp [hl]
      | false =>
        have hnone : l.tree.get? p = none := by simpa [Layer.stores, OrderedMap.contains] using hl
        simp [hl, hnone]

theorem contains_foldl (c : Context) (layers : List Layer) (p : Path) :
    (layers.foldl overlay c).tree.contains p = (layers.any (·.stores p) || c.tree.contains p) := by
  induction layers generalizing c with
  | nil => rfl
  | cons l rest ih =>
    have hl : (c.overlay l).tree.contains p = (l.stores p || c.tree.contains p) := by
      rw [Bool.eq_iff_iff, Bool.or_eq_true, Layer.stores]
      simp only [OrderedMap.contains_iff]
      exact OrderedMap.mem_keys_merge
    rw [List.foldl_cons, ih, hl, List.any_cons, Bool.or_assoc, Bool.or_left_comm]

theorem contains_ofLayers (layers : List Layer) (p : Path) :
    (ofLayers layers).tree.contains p = layers.any (·.stores p) :=
  (contains_foldl empty layers p).trans (Bool.or_false _)

theorem get?_ofLayers (layers : List Layer) (p : Path) :
    (ofLayers layers).tree.get? p = (lastStoring layers p).bind (·.tree.get? p) :=
  (get?_tree_foldl empty layers p).trans (Option.or_none ..)

theorem contains_ok (c : Context) (hk : Path.read key = .ok p) :
    c.contains key = .ok (c.tree.contains p) := by
  unfold contains lookup
  rw [hk]
  simp only [bind, Except.bind, OrderedMap.contains]
  cases c.tree.get? p <;> rfl

theorem origin_ok (c : Context) (hk : Path.read key = .ok p) :
    c.origin key = .ok (c.origins.get? p.text) := by
  rw [origin, hk]
  rfl

-- ---------------------------------------------------------------------------
-- The answer and the supplier
-- ---------------------------------------------------------------------------

/-- The last layer with the text of the path, if any does, is as good as the last that stores the
path: both have one profile and one file. -/
def Attributable (layers : List Layer) (p : Path) : Prop :=
  ∀ l, lastSpelling layers p.text = some l →
    ∃ m, lastStoring layers p = some m ∧ m.profile = l.profile ∧ m.path = l.path

theorem lastStoring_eq_none (h : lastSpelling layers p.text = none) :
    lastStoring layers p = none := by
  refine List.find?_eq_none.2 fun l hl hs => ?_
  exact List.find?_eq_none.1 h l hl (Layer.spells_of_stores hs)

theorem spelled_eq_supplied_iff :
    (lastSpelling layers p.text).map (·.origin p.text) = supplied layers p ↔
      Attributable layers p := by
  unfold supplied Attributable
  cases hl : lastSpelling layers p.text with
  | none => simp [lastStoring_eq_none hl]
  | some l =>
    cases lastStoring layers p with
    | none => simp
    | some m => simp [Layer.origin, eq_comm]

/-- Where no other stored path has the text, the last layer with the text stores the path. -/
theorem attributable_of_unambiguous
    (h : ∀ l ∈ layers, ∀ q ∈ l.tree.keys, q.text = p.text → q = p) : Attributable layers p := by
  intro l hl
  refine ⟨l, ?_, rfl, rfl⟩
  rw [← hl]
  refine List.find?_congr fun m hm => ?_
  refine Bool.eq_iff_iff.2 ⟨Layer.spells_of_stores, fun hs => ?_⟩
  obtain ⟨q, hq, hqp⟩ := Layer.spells_iff.1 hs
  exact OrderedMap.contains_iff.2 (h m (List.mem_reverse.1 hm) q hq hqp ▸ hq)

/-- A key that reads as a path is contained in the context of layers exactly if a layer stores that
path. The origin that is answered is that of the last layer with a leaf of the same text, and it is
the one of the layer that supplied the leaf, or none where there is no leaf, exactly if the path is
`Attributable`. So it is where no other stored path has the text. -/
theorem origin_ofLayers (hk : Path.read key = .ok p) :
    (ofLayers layers).contains key = .ok (layers.any (·.stores p)) ∧
    (ofLayers layers).origin key =
      .ok ((lastSpelling layers p.text).map (·.origin p.text)) ∧
    ((ofLayers layers).origin key = .ok (supplied layers p) ↔ Attributable layers p) ∧
    ((∀ l ∈ layers, ∀ q ∈ l.tree.keys, q.text = p.text → q = p) → Attributable layers p) := by
  have horigin : (ofLayers layers).origin key =
      .ok ((lastSpelling layers p.text).map (·.origin p.text)) := by
    rw [origin_ok _ hk, ofLayers, get?_origins_foldl]
    exact congrArg Except.ok (Option.or_none ..)
  refine ⟨?_, horigin, ?_, attributable_of_unambiguous⟩
  · rw [contains_ok _ hk, ofLayers, contains_foldl]
    exact congrArg Except.ok (Bool.or_false _)
  · rw [horigin, Except.ok.injEq]
    exact spelled_eq_supplied_iff

def nestedLayer : Layer :=
  ⟨none, OrderedMap.singleton ⟨[.key "a", .key "b"]⟩ (.int 1), some "d/config.json"⟩

def dottedLayer : Layer :=
  ⟨some "dev", OrderedMap.singleton ⟨[.key "a.b"]⟩ (.int 2), some "d/config-dev.json"⟩

theorem origin_ofLayers_nested :
    Path.read "a.b" = .ok ⟨[.key "a", .key "b"]⟩ ∧
      (ofLayers [nestedLayer]).origin "a.b" = .ok (some ⟨none, some "d/config.json", "a.b"⟩) := by
  have hk : Path.read "a.b" = .ok ⟨[.key "a", .key "b"]⟩ := by decide +kernel
  exact ⟨hk, (origin_ofLayers hk).2.1⟩

/-- The key reads the leaf of the first layer, but the second layer is named. Alone, the second
layer is named for a leaf that is not there. -/
theorem origin_ofLayers_dotted :
    supplied [nestedLayer, dottedLayer] ⟨[.key "a", .key "b"]⟩ =
        some ⟨none, some "d/config.json", "a.b"⟩ ∧
      (ofLayers [nestedLayer, dottedLayer]).lookup "a.b" = .ok (.int 1) ∧
      (ofLayers [nestedLayer, dottedLayer]).origin "a.b" =
        .ok (some ⟨some "dev", some "d/config-dev.json", "a.b"⟩) ∧
      (ofLayers [dottedLayer]).contains "a.b" = .ok false ∧
      (ofLayers [dottedLayer]).origin "a.b" =
        .ok (some ⟨some "dev", some "d/config-dev.json", "a.b"⟩) := by
  decide +kernel

end Context

end LayeredConfig
