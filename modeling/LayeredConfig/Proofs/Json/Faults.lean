import LayeredConfig.Proofs.Json.Parts
import LayeredConfig.Proofs.Tree.Faults

/-!
# Faults of JSON texts

A JSON text is at fault only for a number with too many digits. Every number that is read is short
enough to be written, so that the walk over the document has no fault of its own.
-/

namespace LayeredConfig

def Refusal.Within (P : Fault → Prop) : Refusal → Prop
  | .malformed _ _ => True
  | .duplicateKey key => FailsOnly P key.plainText
  | .fault f => P f

namespace Json

def Raises (f : Fault) : Prop := ∃ digits, f = .digitsTooMany digits

theorem takeNumber_short {cs rest : List Char} {v : Leaf} (h : takeNumber cs = .ok (v, rest)) :
    (Scalar.leaf v).Short := by
  simp only [takeNumber] at h
  split at h
  all_goals
    split at h
    · cases h
    · split at h
      · split at h
        · rename_i hn
          cases h
          exact Scalar.short_int (Integer.natAbs_lt_of_read hn)
        · cases h
        · cases h
      · split at h
        · cases h
          exact nofun
        · cases h

theorem takeWord_short {cs rest : List Char} {v : Leaf} (h : takeWord? cs = some (v, rest)) :
    (Scalar.leaf v).Short := by
  obtain ⟨w, hw, hv⟩ := Option.map_eq_some_iff.1 h
  cases hv
  have hmem := List.mem_of_find?_eq_some hw
  simp only [words, List.mem_cons, List.not_mem_nil, or_false] at hmem
  rcases hmem with rfl | rfl | rfl | rfl | rfl | rfl <;> exact nofun

theorem inherited_short : Inherited (Document.All Scalar.Short) where
  str s := by
    simp only [Document.str, Document.leaf, Document.All]
    exact Scalar.short_str s
  word hw := by simpa only [Document.leaf, Document.All] using takeWord_short hw
  number hv := by simpa only [Document.leaf, Document.All] using takeNumber_short hv
  list h := by
    rw [Document.All]
    exact Document.allItems_iff.2 h
  object _ h := by
    rw [Document.object, Document.All, Document.allFields_iff, List.forall_mem_map]
    exact fun m hm => ⟨Scalar.short_str m.1, h m hm⟩

theorem read_short {text : String} {d : Document} (h : read text = .ok d) :
    d.All Scalar.Short :=
  read_inherited inherited_short h

theorem Stop.refusal_within (text : List Char) (e : Stop) : (e.refusal text).Within Raises := by
  cases e with
  | problem p left => trivial
  | duplicateKey key => exact failsOnly_ok
  | digitsTooMany n => exact ⟨n, rfl⟩

theorem read_failsOnly (text : String) : FailsOnly (Refusal.Within Raises) (read text) :=
  failsOnly_mapError.2 fun e _ => Stop.refusal_within _ e

end Json

end LayeredConfig
