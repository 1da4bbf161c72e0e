import LayeredConfig.Proofs.Number.Integer
import LayeredConfig.Proofs.OrderedMap
import LayeredConfig.Proofs.Outcome
import LayeredConfig.Tree.Flatten

/-!
# Leaves of trees

Every tree that a document or a graph is flattened into holds leaves that `Fit`: whole numbers have
64 bits. Writing, and with it merging, keeps that.
-/

namespace LayeredConfig

/-- A leaf that a configuration may hold: a whole number of it has 64 bits. -/
def Leaf.Fits : Leaf → Prop
  | .int n => leastInt ≤ n ∧ n ≤ greatestInt
  | _ => True

theorem Leaf.fits_int_iff {n : Int} : (Leaf.int n).Fits ↔ Leaf.inRange n = true := by
  rw [Leaf.inRange, Bool.and_eq_true, decide_eq_true_iff, decide_eq_true_iff]
  exact Iff.rfl

theorem Leaf.Fits.natAbs_lt {n : Int} (h : (Leaf.int n).Fits) :
    n.natAbs < 10 ^ Integer.digitLimit := by
  have hn : leastInt ≤ n ∧ n ≤ greatestInt := h
  have hleast : leastInt = -9223372036854775808 := rfl
  have hgreatest : greatestInt = 9223372036854775807 := rfl
  have hlt : n.natAbs < 10 ^ 19 := by omega
  exact Nat.lt_of_lt_of_le hlt (Nat.pow_le_pow_right (by decide) (by decide))

theorem Scalar.toLeaf_fits {s : Scalar} {path : Path} {v : Leaf} (h : s.toLeaf path = .ok v) :
    v.Fits := by
  cases s with
  | leaf w =>
    cases w with
    | int n =>
      simp only [Scalar.toLeaf] at h
      split at h
      · rename_i hn
        cases h
        exact Leaf.fits_int_iff.2 hn
      · obtain ⟨_, -, h⟩ := bind_ok.1 h
        cases h
    | _ => cases h; trivial
  | moment m => cases h; trivial
  | foreign _ _ _ => cases h

namespace Tree

def Fits (t : Tree Leaf) : Prop := ∀ e ∈ t.entries, e.2.Fits

theorem fits_empty : Fits OrderedMap.empty := nofun

theorem Fits.insert {t : Tree Leaf} (ht : t.Fits) {p : Path} {v : Leaf} (hv : v.Fits) :
    Fits (OrderedMap.insert t p v) := by
  intro e he
  rcases OrderedMap.mem_entries_insert he with rfl | he
  · exact hv
  · exact ht e he

theorem Fits.merge {t u : Tree Leaf} (ht : t.Fits) (hu : u.Fits) : Fits (OrderedMap.merge t u) := by
  intro e he
  rcases OrderedMap.mem_entries_merge he with he | he
  · exact hu e he
  · exact ht e he

theorem Fits.foldl_insert {t : Tree Leaf} (ht : t.Fits) (place : Path → Path)
    {entries : List (Path × Leaf)} (he : ∀ e ∈ entries, e.2.Fits) :
    Fits (entries.foldl (fun t e => OrderedMap.insert t (place e.1) e.2) t) := by
  induction entries generalizing t with
  | nil => exact ht
  | cons e rest ih =>
    refine ih (ht.insert (he e List.mem_cons_self)) fun f hf => ?_
    exact he f (List.mem_cons_of_mem _ hf)

end Tree

-- ---------------------------------------------------------------------------
-- Documents
-- ---------------------------------------------------------------------------

namespace Document

mutual

theorem flattenAt_fits {path : Path} {found t : Tree Leaf} (hf : found.Fits) :
    (d : Document) → d.flattenAt path found = .ok t → t.Fits
  | .scalar s, h => by
    simp only [flattenAt, bind_ok, pure_ok] at h
    obtain ⟨v, hv, rfl⟩ := h
    exact hf.insert (Scalar.toLeaf_fits hv)
  | .list items, h => flattenItems_fits hf items (by simpa only [flattenAt] using h)
  | .map fields, h => flattenFields_fits hf fields (by simpa only [flattenAt] using h)

theorem flattenItems_fits {path : Path} {position : Nat} {found t : Tree Leaf} (hf : found.Fits) :
    (items : List Document) → flattenItems path position found items = .ok t → t.Fits
  | [], h => by
    simp only [flattenItems] at h
    cases h
    exact hf
  | d :: rest, h => by
    simp only [flattenItems, bind_ok] at h
    obtain ⟨u, hu, h⟩ := h
    exact flattenItems_fits (flattenAt_fits hf d hu) rest h

theorem flattenFields_fits {path : Path} {found t : Tree Leaf} (hf : found.Fits) :
    (fields : List (Scalar × Document)) → flattenFields path found fields = .ok t → t.Fits
  | [], h => by
    simp only [flattenFields] at h
    cases h
    exact hf
  | (_, d) :: rest, h => by
    simp only [flattenFields, bind_ok] at h
    obtain ⟨_, -, u, hu, h⟩ := h
    exact flattenFields_fits (flattenAt_fits hf d hu) rest h

end

theorem flatten_fits {d : Document} {t : Tree Leaf} (h : d.flatten = .ok t) : t.Fits :=
  flattenAt_fits Tree.fits_empty d h

end Document

-- ---------------------------------------------------------------------------
-- Graphs
-- ---------------------------------------------------------------------------

namespace Graph

theorem flattenFrom_fits {g : Graph} {fuel : Nat} {ancestors : List Nat} {path : Path}
    {found t : Tree Leaf} {v : Value} (hf : found.Fits)
    (h : g.flattenFrom fuel ancestors path found v = .ok t) : t.Fits := by
  induction fuel generalizing ancestors path found t v with
  | zero =>
    cases v with
    | scalar s =>
      simp only [flattenFrom, bind_ok, pure_ok] at h
      obtain ⟨w, hw, rfl⟩ := h
      exact hf.insert (Scalar.toLeaf_fits hw)
    | container n => simp [flattenFrom] at h
  | succ fuel ih =>
    cases v with
    | scalar s =>
      simp only [flattenFrom, bind_ok, pure_ok] at h
      obtain ⟨w, hw, rfl⟩ := h
      exact hf.insert (Scalar.toLeaf_fits hw)
    | container n =>
      simp only [flattenFrom] at h
      split at h
      · cases h
      · split at h
        · exact foldlM_ok (fun _ _ _ _ hb h => ih hb h) hf h
        · exact foldlM_ok (fun _ _ _ _ hb h => ih hb h) hf h
        · refine foldlM_ok (fun _ _ _ _ hb h => ?_) hf h
          obtain ⟨_, -, h⟩ := bind_ok.1 h
          exact ih hb h

theorem flatten_fits {g : Graph} {t : Tree Leaf} (h : g.flatten = .ok t) : t.Fits :=
  flattenFrom_fits Tree.fits_empty h

end Graph

end LayeredConfig
