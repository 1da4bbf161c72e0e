import LayeredConfig.Proofs.OrderedMap
import LayeredConfig.Tree.Shape

/-!
# Well-shaped trees

`validate_ok_iff`: a tree is accepted exactly if it is `WellShaped`, which is said of its stored
paths pair by pair. Each part of the check is read as the pairs that it rules out. Two stored paths
of a well-shaped tree are `Apart`, which is what rebuilding the document needs.
-/

namespace LayeredConfig

-- ---------------------------------------------------------------------------
-- Prefixes of paths
-- ---------------------------------------------------------------------------

namespace Path

theorem ext_segments {p q : Path} (h : p.segments = q.segments) : p = q := by
  cases p; cases q; cases h; rfl

@[simp] theorem isRoot_iff {p : Path} : p.isRoot = true ↔ p = root := by
  constructor
  · intro h
    exact ext_segments (List.isEmpty_iff.1 h)
  · rintro rfl
    rfl

theorem mem_ancestors {p q : Path} :
    q ∈ p.ancestors ↔ ∃ s rest, p.segments = q.segments ++ s :: rest := by
  simp only [ancestors, List.mem_reverse, List.mem_map, List.mem_range, length]
  constructor
  · rintro ⟨n, hn, rfl⟩
    refine ⟨p.segments[n], p.segments.drop (n + 1), ?_⟩
    rw [← List.drop_eq_getElem_cons hn, List.take_append_drop]
  · rintro ⟨s, rest, h⟩
    refine ⟨q.segments.length, by simp [h], ext_segments ?_⟩
    simp [h]

end Path

/-- Two ways that one document can have: neither leads through the other, and where they part, both
go on by a key or both by a position. -/
def Apart : List Segment → List Segment → Prop
  | s :: p, t :: q => if s = t then Apart p q else s.isIndex = t.isIndex
  | _, _ => False

theorem Apart.symm {p q : List Segment} (h : Apart p q) : Apart q p := by
  induction p generalizing q with
  | nil => simp [Apart] at h
  | cons s p ih =>
    cases q with
    | nil => simp [Apart] at h
    | cons t q =>
      unfold Apart at h ⊢
      by_cases hst : s = t
      · rw [if_pos hst] at h
        rw [if_pos hst.symm]
        exact ih h
      · rw [if_neg hst] at h
        rw [if_neg (Ne.symm hst)]
        exact h.symm

namespace Tree

variable {α : Type} {t : Tree α}

/-- What makes a tree describe a document. -/
structure WellShaped (t : Tree α) : Prop where
  nonempty : t.keys ≠ []
  rootFree : Path.root ∉ t.keys
  /-- No value is stored on the way to another one. -/
  prefixFree : ∀ p ∈ t.keys, ∀ q ∈ t.keys, p.segments <+: q.segments → p = q
  /-- No place is left by a key and by a position. -/
  oneKind : ∀ p ∈ t.keys, ∀ q ∈ t.keys, ∀ place s u after further,
    p.segments = place ++ s :: after → q.segments = place ++ u :: further →
      s.isIndex = u.isIndex

-- ---------------------------------------------------------------------------
-- Leaves on the way to leaves
-- ---------------------------------------------------------------------------

theorem storedAbove?_eq_none_iff {p : Path} :
    t.storedAbove? p = none ↔ ∀ q ∈ p.ancestors, q ≠ Path.root → q ∉ t.keys := by
  simp only [storedAbove?, List.find?_eq_none, Bool.and_eq_true, OrderedMap.contains_iff,
    Bool.not_eq_true', not_and, ← Bool.not_eq_true, Path.isRoot_iff]

theorem leafAndBranch?_eq_none_iff (hr : Path.root ∉ t.keys) :
    t.leafAndBranch? = none ↔
      ∀ p ∈ t.keys, ∀ q ∈ t.keys, p.segments <+: q.segments → p = q := by
  simp only [leafAndBranch?, List.findSome?_eq_none_iff, Option.map_eq_none_iff,
    storedAbove?_eq_none_iff, Path.mem_ancestors]
  constructor
  · intro h p hp q hq hpre
    obtain ⟨rest, hrest⟩ := hpre
    cases rest with
    | nil => exact Path.ext_segments (by simpa using hrest)
    | cons s rest => exact absurd hp (h q hq p ⟨s, rest, hrest.symm⟩ fun e => hr (e ▸ hp))
  · rintro h q hq p ⟨s, rest, hrest⟩ - hp
    cases h p hp q hq ⟨s :: rest, hrest.symm⟩
    simp at hrest

-- ---------------------------------------------------------------------------
-- Objects and arrays
-- ---------------------------------------------------------------------------

/-- Every place is used alike throughout. -/
def Consistent (steps : List (Path × Bool)) : Prop :=
  ∀ s ∈ steps, ∀ u ∈ steps, s.1 = u.1 → s.2 = u.2

theorem consistent_congr {steps more : List (Path × Bool)} (h : ∀ s, s ∈ steps ↔ s ∈ more) :
    Consistent steps ↔ Consistent more := by
  simp only [Consistent, h]

theorem Consistent.cons {seen : List (Path × Bool)} {place : Path} {isIndex : Bool}
    (h : Consistent seen) (hn : seen.lookup place = none) :
    Consistent ((place, isIndex) :: seen) := by
  have hne : ∀ s ∈ seen, s.1 ≠ place := fun s hs e => by
    simpa [e] using List.lookup_eq_none_iff.1 hn s hs
  intro s hs u hu hsu
  rcases List.mem_cons.1 hs with rfl | hs <;> rcases List.mem_cons.1 hu with rfl | hu
  · rfl
  · exact absurd hsu.symm (hne u hu)
  · exact absurd hsu (hne s hs)
  · exact h s hs u hu hsu

theorem firstClash_eq_none_iff {seen steps : List (Path × Bool)} (hc : Consistent seen) :
    firstClash seen steps = none ↔ Consistent (seen ++ steps) := by
  induction steps generalizing seen with
  | nil => simpa [firstClash] using hc
  | cons s rest ih =>
    obtain ⟨place, isIndex⟩ := s
    simp only [firstClash]
    cases h : seen.lookup place with
    | some before =>
      have hm : (place, before) ∈ seen := by
        obtain ⟨_, _, rfl, -⟩ := List.lookup_eq_some_iff.1 h
        simp
      by_cases hb : before = isIndex
      · subst hb
        simp only [if_true]
        rw [ih hc]
        exact consistent_congr fun s => by grind
      · simp only [if_neg hb]
        refine iff_of_false nofun fun hr => hb ?_
        exact hr (place, before) (by simp [hm]) (place, isIndex) (by simp) rfl
    | none =>
      simp only
      rw [ih (hc.cons h)]
      exact consistent_congr fun s => by grind

theorem mem_steps {p place : Path} {isIndex : Bool} :
    (place, isIndex) ∈ steps p ↔
      ∃ s rest, p.segments = place.segments ++ s :: rest ∧ s.isIndex = isIndex := by
  simp only [steps, List.mem_map, Prod.mk.injEq, Prod.exists, List.mem_zipIdx_iff_getElem?]
  constructor
  · rintro ⟨s, n, hs, rfl, rfl⟩
    obtain ⟨hn, rfl⟩ := List.getElem?_eq_some_iff.1 hs
    refine ⟨p.segments[n], p.segments.drop (n + 1), ?_, rfl⟩
    rw [← List.drop_eq_getElem_cons hn, List.take_append_drop]
  · rintro ⟨s, rest, h, rfl⟩
    exact ⟨s, place.segments.length, by simp [h], Path.ext_segments (by simp [h]), rfl⟩

theorem objectAndArray?_eq_none_iff :
    t.objectAndArray? = none ↔
      ∀ p ∈ t.keys, ∀ q ∈ t.keys, ∀ place s u after further,
        p.segments = place ++ s :: after → q.segments = place ++ u :: further →
          s.isIndex = u.isIndex := by
  rw [objectAndArray?, firstClash_eq_none_iff (by simp [Consistent]), List.nil_append]
  constructor
  · intro h p hp q hq place s u after further hs hu
    exact h (⟨place⟩, s.isIndex) (List.mem_flatMap.2 ⟨p, hp, mem_steps.2 ⟨s, after, hs, rfl⟩⟩)
      (⟨place⟩, u.isIndex) (List.mem_flatMap.2 ⟨q, hq, mem_steps.2 ⟨u, further, hu, rfl⟩⟩) rfl
  · rintro h ⟨place, a⟩ ha ⟨place', b⟩ hb e
    cases (e : place = place')
    obtain ⟨p, hp, hpa⟩ := List.mem_flatMap.1 ha
    obtain ⟨q, hq, hqb⟩ := List.mem_flatMap.1 hb
    obtain ⟨s, after, hs, rfl⟩ := mem_steps.1 hpa
    obtain ⟨u, further, hu, rfl⟩ := mem_steps.1 hqb
    exact h p hp q hq place.segments s u after further hs hu

-- ---------------------------------------------------------------------------
-- The whole check
-- ---------------------------------------------------------------------------

theorem shapeFault?_eq_none_iff : t.shapeFault? = none ↔ t.WellShaped := by
  unfold shapeFault?
  by_cases he : t.keys = []
  · rw [if_pos (OrderedMap.isEmpty_iff.2 he)]
    exact iff_of_false nofun fun h => h.nonempty he
  · rw [if_neg (mt OrderedMap.isEmpty_iff.1 he)]
    by_cases hr : Path.root ∈ t.keys
    · rw [if_pos (OrderedMap.contains_iff.2 hr)]
      exact iff_of_false nofun fun h => h.rootFree hr
    · rw [if_neg (mt OrderedMap.contains_iff.1 hr)]
      have hl := leafAndBranch?_eq_none_iff hr
      cases h : t.leafAndBranch? with
      | some found =>
        refine iff_of_false nofun fun hw => ?_
        rw [hl.2 hw.prefixFree] at h
        cases h
      | none =>
        simp only [Option.map_eq_none_iff, objectAndArray?_eq_none_iff]
        exact ⟨fun hk => ⟨he, hr, hl.1 h, hk⟩, fun hw => hw.oneKind⟩

theorem validate_ok_iff {source : Option String} {u : Tree α} :
    t.validate source = .ok u ↔ u = t ∧ t.WellShaped := by
  unfold validate
  cases h : t.shapeFault? with
  | some f =>
    refine iff_of_false nofun fun hw => ?_
    rw [shapeFault?_eq_none_iff.2 hw.2] at h
    cases h
  | none =>
    have hw := shapeFault?_eq_none_iff.1 h
    exact ⟨fun e => ⟨(Except.ok.inj e).symm, hw⟩, fun e => by rw [e.1]⟩

-- ---------------------------------------------------------------------------
-- Pairs of stored paths
-- ---------------------------------------------------------------------------

theorem WellShaped.mono {u : Tree α} (h : t.WellShaped) (hne : u.keys ≠ [])
    (hkeys : ∀ p ∈ u.keys, p ∈ t.keys) : u.WellShaped where
  nonempty := hne
  rootFree := fun hroot => h.rootFree (hkeys _ hroot)
  prefixFree := fun p hp q hq => h.prefixFree p (hkeys p hp) q (hkeys q hq)
  oneKind := fun p hp q hq => h.oneKind p (hkeys p hp) q (hkeys q hq)

theorem WellShaped.congr {u : Tree α} (h : t.WellShaped) (hkeys : ∀ p, p ∈ t.keys ↔ p ∈ u.keys) :
    u.WellShaped := by
  obtain ⟨p, hp⟩ := List.exists_mem_of_ne_nil _ h.nonempty
  exact h.mono (List.ne_nil_of_mem ((hkeys p).1 hp)) fun q => (hkeys q).2

/-- Ways of which neither leads through the other, and which go on alike from every place they
share, are apart. -/
theorem apart_of_oneKind {p q : List Segment} (hp : ¬ p <+: q) (hq : ¬ q <+: p)
    (hk : ∀ place s u after further, p = place ++ s :: after → q = place ++ u :: further →
      s.isIndex = u.isIndex) : Apart p q := by
  induction p generalizing q with
  | nil => exact absurd List.nil_prefix hp
  | cons s p ih =>
    cases q with
    | nil => exact absurd List.nil_prefix hq
    | cons u q =>
      unfold Apart
      split
      · rename_i hsu
        subst hsu
        refine ih (fun h => hp (List.cons_prefix_cons.2 ⟨rfl, h⟩))
          (fun h => hq (List.cons_prefix_cons.2 ⟨rfl, h⟩)) ?_
        intro place v w after further hv hw
        exact hk (s :: place) v w after further (by rw [hv]; rfl) (by rw [hw]; rfl)
      · exact hk [] s u p q rfl rfl

theorem WellShaped.apart (h : t.WellShaped) {p q : Path} (hp : p ∈ t.keys) (hq : q ∈ t.keys)
    (hne : p ≠ q) : Apart p.segments q.segments :=
  apart_of_oneKind (fun hpre => hne (h.prefixFree p hp q hq hpre))
    (fun hpre => hne (h.prefixFree q hq p hp hpre).symm)
    (h.oneKind p hp q hq)

end Tree

end LayeredConfig
