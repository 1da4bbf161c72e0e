import LayeredConfig.Proofs.Context.Provenance
import LayeredConfig.Proofs.Tree.Shape
import Mathlib.Data.List.Pairwise

/-!
# Layers that go together

`validate_ofLayers`: layers that describe a document each describe one together exactly if every two
of them do. What makes a tree describe a document is said of its stored paths pair by pair, and the
paths of merged layers are those of the layers, so each pair of paths lies in two of them.
-/

namespace LayeredConfig

/-- One tree can store both paths: the first does not lead through to the second, and wherever both
go on from a place, they do so alike. -/
structure Path.Fits (p q : Path) : Prop where
  notAbove : p.segments <+: q.segments → p = q
  sameKind : ∀ place s u after further, p.segments = place ++ s :: after →
    q.segments = place ++ u :: further → s.isIndex = u.isIndex

namespace Tree

variable {α : Type} {t u : Tree α}

theorem wellShaped_iff_fits : t.WellShaped ↔
    t.keys ≠ [] ∧ Path.root ∉ t.keys ∧ ∀ p ∈ t.keys, ∀ q ∈ t.keys, p.Fits q := by
  constructor
  · intro h
    exact ⟨h.nonempty, h.rootFree, fun p hp q hq =>
      ⟨h.prefixFree p hp q hq, h.oneKind p hp q hq⟩⟩
  · rintro ⟨hne, hroot, hfits⟩
    exact ⟨hne, hroot, fun p hp q hq => (hfits p hp q hq).notAbove,
      fun p hp q hq => (hfits p hp q hq).sameKind⟩

/-- Every path of one fits every path of the other. -/
def Compatible (t u : Tree α) : Prop :=
  ∀ p ∈ t.keys, ∀ q ∈ u.keys, p.Fits q ∧ q.Fits p

theorem Compatible.symm (h : t.Compatible u) : u.Compatible t :=
  fun p hp q hq => (h q hq p hp).symm

theorem WellShaped.compatible_self (h : t.WellShaped) : t.Compatible t := by
  obtain ⟨-, -, hfits⟩ := wellShaped_iff_fits.1 h
  exact fun p hp q hq => ⟨hfits p hp q hq, hfits q hq p hp⟩

/-- A tree whose paths are those of well-shaped trees, of which there is one, is well-shaped exactly
if every two of them are compatible. -/
theorem wellShaped_iff_compatible {trees : List (Tree α)} (hne : trees ≠ [])
    (hkeys : ∀ p, p ∈ t.keys ↔ ∃ u ∈ trees, p ∈ u.keys) (h : ∀ u ∈ trees, u.WellShaped) :
    t.WellShaped ↔ ∀ u ∈ trees, ∀ v ∈ trees, u.Compatible v := by
  rw [wellShaped_iff_fits]
  constructor
  · rintro ⟨-, -, hfits⟩ u hu v hv p hp q hq
    have hp := (hkeys p).2 ⟨u, hu, hp⟩
    have hq := (hkeys q).2 ⟨v, hv, hq⟩
    exact ⟨hfits p hp q hq, hfits q hq p hp⟩
  · intro hcompatible
    refine ⟨?_, fun hroot => ?_, fun p hp q hq => ?_⟩
    · obtain ⟨u, hu⟩ := List.exists_mem_of_ne_nil trees hne
      obtain ⟨p, hp⟩ := List.exists_mem_of_ne_nil u.keys (h u hu).nonempty
      exact List.ne_nil_of_mem ((hkeys p).2 ⟨u, hu, hp⟩)
    · obtain ⟨u, hu, hroot⟩ := (hkeys Path.root).1 hroot
      exact (h u hu).rootFree hroot
    · obtain ⟨u, hu, hp⟩ := (hkeys p).1 hp
      obtain ⟨v, hv, hq⟩ := (hkeys q).1 hq
      exact (hcompatible u hu v hv p hp q hq).1

theorem wellShaped_merge_iff (ht : t.WellShaped) (hu : u.WellShaped) :
    Tree.WellShaped (t.merge u) ↔ t.Compatible u := by
  have hkeys : ∀ p, p ∈ (t.merge u).keys ↔ ∃ v ∈ [t, u], p ∈ v.keys := fun p => by
    simp [OrderedMap.mem_keys_merge, or_comm]
  have hboth : ∀ v ∈ [t, u], v.WellShaped := by simp [ht, hu]
  rw [wellShaped_iff_compatible (List.cons_ne_nil t [u]) hkeys hboth]
  constructor
  · intro h
    exact h t (by simp) u (by simp)
  · intro h
    simp [h, h.symm, ht.compatible_self, hu.compatible_self]

theorem validate_self_iff {source : Option String} :
    t.validate source = .ok t ↔ t.WellShaped :=
  validate_ok_iff.trans (and_iff_right rfl)

end Tree

namespace Context

variable {layers : List Layer} {l m : Layer} {source : Option String}

theorem mem_keys_ofLayers {p : Path} :
    p ∈ (ofLayers layers).tree.keys ↔ ∃ t ∈ layers.map Layer.tree, p ∈ t.keys := by
  rw [← OrderedMap.contains_iff, contains_ofLayers]
  simp [Layer.stores, OrderedMap.contains_iff]

/-- The trees of both layers are accepted as one, the second over the first. -/
def Together (source : Option String) (l m : Layer) : Prop :=
  Tree.validate (l.tree.merge m.tree) source = .ok (l.tree.merge m.tree)

theorem together_iff (hl : l.tree.WellShaped) (hm : m.tree.WellShaped) :
    Together source l m ↔ l.tree.Compatible m.tree :=
  Tree.validate_self_iff.trans (Tree.wellShaped_merge_iff hl hm)

theorem exists_error_of_not_together (h : ¬ Together source l m) :
    ∃ e, Tree.validate (l.tree.merge m.tree) source = .error e := by
  unfold Together at h
  cases hpair : Tree.validate (l.tree.merge m.tree) source with
  | error e => exact ⟨e, rfl⟩
  | ok t =>
    rw [hpair, (Tree.validate_ok_iff.1 hpair).1] at h
    exact absurd rfl h

theorem validate_ofLayers_iff (hne : layers ≠ []) (h : ∀ l ∈ layers, l.tree.WellShaped) :
    (ofLayers layers).tree.validate source = .ok (ofLayers layers).tree ↔
      ∀ l ∈ layers, ∀ m ∈ layers, l.tree.Compatible m.tree := by
  rw [Tree.validate_self_iff, Tree.wellShaped_iff_compatible (by simpa using hne)
    (fun _ => mem_keys_ofLayers) (by simpa using h)]
  simp only [List.forall_mem_map]

theorem compatible_iff_pairwise (h : ∀ l ∈ layers, l.tree.WellShaped) :
    (∀ l ∈ layers, ∀ m ∈ layers, l.tree.Compatible m.tree) ↔
      layers.Pairwise fun l m => l.tree.Compatible m.tree := by
  have : Std.Symm fun l m : Layer => l.tree.Compatible m.tree :=
    ⟨fun _ _ => Tree.Compatible.symm⟩
  constructor
  · exact List.pairwise_of_forall_mem_list
  · intro hpairs l hl m hm
    exact hpairs.forall_of_forall (fun k hk => (h k hk).compatible_self) hl hm

/-- Layers that are accepted each are accepted together exactly if every two of them are, those
behind over those before, or whichever way round. Where they are refused, two of them are. -/
theorem validate_ofLayers (hne : layers ≠ [])
    (h : ∀ l ∈ layers, l.tree.validate l.path = .ok l.tree) (source : Option String) :
    ((ofLayers layers).tree.validate source = .ok (ofLayers layers).tree ↔
      layers.Pairwise (Together source)) ∧
    ((ofLayers layers).tree.validate source = .ok (ofLayers layers).tree ↔
      ∀ l ∈ layers, ∀ m ∈ layers, Together source l m) ∧
    (∀ e, (ofLayers layers).tree.validate source = .error e → ∃ l m, [l, m].Sublist layers ∧
      ∃ e', Tree.validate (l.tree.merge m.tree) source = .error e') := by
  have hshaped : ∀ l ∈ layers, l.tree.WellShaped := fun l hl => Tree.validate_self_iff.1 (h l hl)
  have htogether : ∀ l ∈ layers, ∀ m ∈ layers,
      (Together source l m ↔ l.tree.Compatible m.tree) :=
    fun l hl m hm => together_iff (hshaped l hl) (hshaped m hm)
  have hpairwise : (ofLayers layers).tree.validate source = .ok (ofLayers layers).tree ↔
      layers.Pairwise (Together source) := by
    rw [validate_ofLayers_iff hne hshaped, compatible_iff_pairwise hshaped]
    exact List.Pairwise.iff_of_mem fun hl hm => (htogether _ hl _ hm).symm
  refine ⟨hpairwise, ?_, fun e he => ?_⟩
  · rw [validate_ofLayers_iff hne hshaped]
    exact forall₂_congr fun l hl => forall₂_congr fun m hm => (htogether l hl m hm).symm
  · by_contra hnone
    have hpairs : layers.Pairwise (Together source) := by
      refine List.pairwise_iff_forall_sublist.2 fun {l m} hsub => ?_
      by_contra hrefused
      exact hnone ⟨l, m, hsub, exists_error_of_not_together hrefused⟩
    cases he.symm.trans (hpairwise.2 hpairs)

def leafLayer (segments : List Segment) : Layer :=
  ⟨none, OrderedMap.singleton ⟨segments⟩ (.int 1), none⟩

/-- The third layer goes on from where the first has its leaf; both go with the second. -/
theorem validate_ofLayers_refused :
    let layers := [leafLayer [.key "a", .key "b"], leafLayer [.key "a", .key "c"],
      leafLayer [.key "a", .key "b", .index 0]]
    (∀ l ∈ layers, l.tree.validate l.path = .ok l.tree) ∧
      ¬ layers.Pairwise (Together none) ∧
      (ofLayers layers).tree.validate none ≠ .ok (ofLayers layers).tree := by
  intro layers
  have hlayers : ∀ l ∈ layers, l.tree.validate l.path = .ok l.tree := by decide +kernel
  have hpairs : ¬ layers.Pairwise (Together none) := by
    unfold Together
    decide +kernel
  exact ⟨hlayers, hpairs, mt (validate_ofLayers (List.cons_ne_nil _ _) hlayers none).1.1 hpairs⟩

end Context

end LayeredConfig
