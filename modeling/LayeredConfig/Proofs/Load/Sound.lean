import LayeredConfig.Context.Getters
import LayeredConfig.Context.Override
import LayeredConfig.Load
import LayeredConfig.Proofs.Tree.Leaves
import LayeredConfig.Proofs.Tree.Nested

/-!
# Loaded contexts are sound

A context is `Sound` when its tree is well shaped and every leaf fits. Loads return sound contexts
from every kind of source, and overrides keep them sound, so whatever is reached from a loaded
context has a document and answers or refuses lookups of what it stores.
-/

namespace LayeredConfig

open Run

-- ---------------------------------------------------------------------------
-- Texts and files
-- ---------------------------------------------------------------------------

theorem Grammar.read_fits {g : Grammar} {text : String} {t : Tree Leaf}
    (h : g.read text = .ok (.ok t)) : t.Fits := by
  cases g with
  | json =>
    obtain ⟨d, -, h⟩ := map_ok.1 h
    exact Document.flatten_fits h
  | toml =>
    obtain ⟨d, -, h⟩ := map_ok.1 h
    exact Document.flatten_fits h
  | yaml =>
    obtain ⟨g, -, h⟩ := map_ok.1 h
    exact Graph.flatten_fits h

theorem Grammar.not_returns_fail {α : Type} {g : Grammar} {r : Refusal} {a : α} :
    ¬ (g.fail r : Run α).Returns a := by
  intro h
  cases r with
  | malformed location message =>
    obtain ⟨_, -, h⟩ := h.bind
    exact not_returns_throw h
  | duplicateKey key =>
    obtain ⟨_, -, h⟩ := h.bind
    obtain ⟨_, -, h⟩ := h.bind
    exact not_returns_throw h
  | fault f => exact not_returns_throw h

theorem Grammar.read_of_parse {g : Grammar} {text : String} {t : Tree Leaf}
    (h : (g.parse text).Returns t) :
    (Text.isBlankText text = true ∧ t = .empty) ∨
      (Text.isBlankText text = false ∧ g.read text = .ok (.ok t)) := by
  unfold Grammar.parse at h
  split at h
  · exact .inl ⟨‹_›, (returns_pure.1 h).symm⟩
  · rename_i hb
    split at h
    · exact absurd h Grammar.not_returns_fail
    · rename_i hr
      obtain ⟨t', ht, h⟩ := h.bind
      obtain ⟨_, -, h⟩ := h.bind
      cases returns_pure.1 h
      rw [returns_ofExcept.1 ht] at hr
      exact .inr ⟨Bool.eq_false_iff.2 hb, hr⟩

theorem Grammar.parse_of_read {g : Grammar} {text : String} {x : Except Failure (Tree Leaf)}
    (hb : Text.isBlankText text = false) (h : g.read text = .ok x) (j : Journal) :
    ((g.parse text).start j).1 = x := by
  unfold Grammar.parse
  rw [hb, h]
  cases x <;> rfl

theorem Grammar.parse_fits {g : Grammar} {text : String} {t : Tree Leaf}
    (h : (g.parse text).Returns t) : t.Fits := by
  rcases Grammar.read_of_parse h with ⟨-, rfl⟩ | ⟨-, hr⟩
  · exact Tree.fits_empty
  · exact Grammar.read_fits hr

namespace Loader

variable {l : Loader} {content path : String} {t : Tree Leaf}

theorem readText_fits {path : Option String} (h : (l.readText content path).Returns t) :
    t.Fits := by
  obtain ⟨format, -, h⟩ := h.bind
  obtain ⟨resolved, -, h⟩ := h.bind
  unfold Loader.parse at h
  split at h
  · exact absurd h not_returns_throw
  · split at h
    · exact Grammar.parse_fits h
    · exact absurd h not_returns_throw

theorem readDocument_sound {path : Option String} (h : (l.readDocument content path).Returns t) :
    t.WellShaped ∧ t.Fits := by
  obtain ⟨u, hu, h⟩ := h.bind
  obtain ⟨rfl, hw⟩ := Tree.validate_ok_iff.1 (mapError_ok.1 (returns_ofExcept.1 h))
  exact ⟨hw, readText_fits hu⟩

theorem readLayer_sound (h : (l.readLayer path).Returns t) : t.WellShaped ∧ t.Fits := by
  obtain ⟨_, -, h⟩ := h.bind
  exact readDocument_sound h

theorem readLayers_fits {files : List ConfigFile} {layers : List Layer}
    (h : (l.readLayers files).Returns layers) : ∀ layer ∈ layers, layer.tree.Fits := by
  induction files generalizing layers with
  | nil =>
    cases returns_pure.1 h
    exact nofun
  | cons file rest ih =>
    obtain ⟨t, ht, h⟩ := h.bind
    obtain ⟨_, -, h⟩ := h.bind
    obtain ⟨later, hl, h⟩ := h.bind
    cases returns_pure.1 h
    intro layer hm
    rcases List.mem_cons.1 hm with rfl | hm
    · exact (readLayer_sound ht).2
    · exact ih hl layer hm

end Loader

-- ---------------------------------------------------------------------------
-- Contexts
-- ---------------------------------------------------------------------------

namespace Context

/-- The tree of the context describes a document, and every leaf is one that a tree may hold. -/
structure Sound (c : Context) : Prop where
  shaped : c.tree.WellShaped
  fits : c.tree.Fits

theorem foldl_overlay_fits {c : Context} {layers : List Layer} (hc : c.tree.Fits)
    (h : ∀ layer ∈ layers, layer.tree.Fits) : (layers.foldl overlay c).tree.Fits := by
  induction layers generalizing c with
  | nil => exact hc
  | cons layer rest ih =>
    refine ih (hc.merge (h layer List.mem_cons_self)) fun l hl => ?_
    exact h l (List.mem_cons_of_mem _ hl)

end Context

namespace Loader

variable {l : Loader} {content path directory : String} {c : Context}

theorem loadFile_sound (h : (l.loadFile path).Returns c) : c.Sound := by
  obtain ⟨t, ht, h⟩ := h.bind
  obtain ⟨_, -, h⟩ := h.bind
  cases returns_pure.1 h
  exact ⟨(readLayer_sound ht).1, (readLayer_sound ht).2⟩

theorem loadDirectory_sound (h : (l.loadDirectory directory).Returns c) : c.Sound := by
  obtain ⟨listing, -, h⟩ := h.bind
  obtain ⟨files, -, h⟩ := h.bind
  obtain ⟨layers, hl, h⟩ := h.bind
  obtain ⟨u, hu, h⟩ := h.bind
  obtain ⟨_, -, h⟩ := h.bind
  obtain ⟨_, -, h⟩ := h.bind
  cases returns_pure.1 h
  obtain ⟨-, hw⟩ := Tree.validate_ok_iff.1 (mapError_ok.1 (returns_ofExcept.1 hu))
  exact ⟨hw, Context.foldl_overlay_fits Tree.fits_empty (readLayers_fits hl)⟩

theorem loadContent_sound (h : (l.loadContent content).Returns c) : c.Sound := by
  obtain ⟨t, ht, h⟩ := h.bind
  obtain ⟨_, -, h⟩ := h.bind
  cases returns_pure.1 h
  -- the handler only rewords failures
  rcases ht.tryCatch with ht | ⟨e, ht⟩
  · exact ⟨(readDocument_sound ht).1, (readDocument_sound ht).2⟩
  · exact absurd ht not_returns_throw

theorem load_sound {source : Source} (h : (l.load source).Returns c) : c.Sound := by
  obtain ⟨_, -, h⟩ := h.bind
  cases source with
  | path path =>
    simp only at h
    split at h
    · exact loadDirectory_sound h
    · split at h
      · exact loadFile_sound h
      · exact absurd h not_returns_throw
  | text content =>
    simp only at h
    split at h
    · exact absurd h not_returns_throw
    · split at h
      · exact loadDirectory_sound h
      · split at h
        · exact loadFile_sound h
        · exact loadContent_sound h

end Loader

end LayeredConfig
