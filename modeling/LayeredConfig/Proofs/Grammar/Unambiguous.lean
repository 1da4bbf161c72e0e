import LayeredConfig.Proofs.Json.Parts
import LayeredConfig.Proofs.Load.Sound
import LayeredConfig.Proofs.Toml.Names

/-!
# One document is never ambiguous

`document_unambiguous`: a document whose mappings have distinct texts as keys can only be refused
as empty or as a value without key. A text in JSON or TOML describes such a document; that a leaf is
also a branch, or an object also an array, takes two documents.
-/

namespace LayeredConfig

open Run

namespace Json

theorem inherited_named : Inherited Document.Named where
  str _ := by rw [Document.str, Document.leaf, Document.Named]; trivial
  word _ := by rw [Document.leaf, Document.Named]; trivial
  number _ := by rw [Document.leaf, Document.Named]; trivial
  list h := Document.named_list.2 h
  object {members} hn h := by
    rw [Document.object, Document.Named, Document.namedFields_iff, List.forall_mem_map,
      List.map_map]
    refine ⟨?_, fun m hm => ⟨⟨m.1, rfl⟩, h m hm⟩⟩
    have hkeys : members.map (Prod.fst ∘ fun m => (Scalar.str m.1, m.2)) =
        (members.map Prod.fst).map Scalar.str := by
      rw [List.map_map]
      rfl
    rw [hkeys]
    exact hn.map fun a b hab => by simpa [Scalar.str] using hab

end Json

/-- The document that a text describes; a blank one stands for an empty mapping. -/
def Grammar.Describes (read : String → Except Refusal Document) (text : String) (d : Document) :
    Prop :=
  if Text.isBlankText text then d = .map [] else read text = .ok d

variable {read : String → Except Refusal Document}

theorem Grammar.judged_of_parse {g : Grammar}
    (hg : ∀ text, g.read text = (read text).map Document.flatten)
    (hread : ∀ {text d}, read text = .ok d → d.Named) {text : String} {t : Tree Leaf}
    (h : (g.parse text).Returns t) :
    ∃ d, Describes read text d ∧ d.flatten = .ok t ∧
      t.Judged (d.scalarCount = 0) (∃ s, d = .scalar s) := by
  rcases Grammar.read_of_parse h with ⟨hb, rfl⟩ | ⟨hb, hr⟩
  · have hflat : (Document.map []).flatten = .ok OrderedMap.empty := by
      rw [Document.flatten, Document.flattenAt, Document.flattenFields]
    refine ⟨.map [], ?_, hflat, Document.judged_of_flatten Document.named_map_nil hflat⟩
    rw [Describes, if_pos hb]
  · rw [hg] at hr
    obtain ⟨d, hd, hflat⟩ := map_ok.1 hr
    refine ⟨d, ?_, hflat, Document.judged_of_flatten (hread hd) hflat⟩
    rw [Describes, hb]
    exact hd

/-- The walk over one named document of leaves, dates and times succeeds, and its tree is refused
only as empty, exactly if the document has no scalar, or as a value without key, exactly if the
document is a scalar. The same holds of every tree that a JSON or TOML text yields. -/
theorem document_unambiguous :
    (∀ d : Document, d.Named → d.All Scalar.Kept →
      ∃ t, d.flatten = .ok t ∧ t.Judged (d.scalarCount = 0) (∃ s, d = .scalar s)) ∧
    (∀ text t, (Grammar.json.parse text).Returns t →
      ∃ d, Grammar.Describes Json.read text d ∧ d.flatten = .ok t ∧
        t.Judged (d.scalarCount = 0) (∃ s, d = .scalar s)) ∧
    (∀ text t, (Grammar.toml.parse text).Returns t →
      ∃ d, Grammar.Describes Toml.read text d ∧ d.flatten = .ok t ∧
        t.Judged (d.scalarCount = 0) (∃ s, d = .scalar s)) := by
  refine ⟨fun d hn hk => Document.judged_of_named hn hk, fun text t h => ?_, fun text t h => ?_⟩
  · exact Grammar.judged_of_parse (fun _ => rfl) (Json.read_inherited Json.inherited_named) h
  · exact Grammar.judged_of_parse (fun _ => rfl) Toml.read_named h

def schedule : Document :=
  .map [(.str "days", .list [.int 7, .scalar (.moment (.date ⟨2024, 2, 29⟩))]),
    (.str "more", .map [])]

theorem document_unambiguous_schedule :
    schedule.Named ∧ schedule.All Scalar.Kept ∧
      ∃ t, schedule.flatten = .ok t ∧ t.keys.length = 2 ∧ t.validate none = .ok t := by
  have hn : schedule.Named := by
    simp [schedule, Document.Named, Document.NamedItems, Document.NamedFields, Document.int,
      Document.leaf, Scalar.str]
  have hseven : (Leaf.int 7).Fits := Leaf.fits_int_iff.2 rfl
  have hk : schedule.All Scalar.Kept := by
    simpa [schedule, Document.All, Document.AllItems, Document.AllFields, Document.int,
      Document.leaf, Scalar.str, Scalar.Kept, Leaf.Fits] using hseven
  obtain ⟨t, ht, hjudged⟩ := document_unambiguous.1 schedule hn hk
  have hmap : ¬ ∃ s, schedule = .scalar s := by
    rintro ⟨s, hs⟩
    cases hs
  refine ⟨hn, hk, t, ht, ?_, hjudged.accepted (by decide) hmap none⟩
  cases ht
  rfl

end LayeredConfig
