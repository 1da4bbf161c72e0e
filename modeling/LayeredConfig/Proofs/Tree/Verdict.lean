import LayeredConfig.Proofs.Tree.Shape

/-!
# The verdict on a tree

`validate_verdict`: for what a tree is refused, and exactly when. A tree may have several faults;
they are looked for in a fixed order, and the first one found is reported. What is reported can be
told from the error, since no two kinds of fault have a wording in common.
-/

namespace LayeredConfig

theorem Path.isAbove_iff {p q : Path} :
    p.isAbove q = true ↔ ∃ s rest, q.segments = p.segments ++ s :: rest := by
  simp only [isAbove, length, Bool.and_eq_true, List.isPrefixOf_iff_prefix]
  constructor
  · rintro ⟨hlt, rest, hrest⟩
    cases rest with
    | nil => simp [← hrest] at hlt
    | cons s rest => exact ⟨s, rest, hrest.symm⟩
  · rintro ⟨s, rest, hrest⟩
    exact ⟨by simp [hrest], s :: rest, hrest.symm⟩

theorem Path.mem_ancestors_iff_isAbove {p q : Path} : q ∈ p.ancestors ↔ q.isAbove p = true :=
  mem_ancestors.trans isAbove_iff.symm

namespace Tree

variable {α : Type} {t : Tree α} {leaf below place : Path} {source : Option String}

/-- A leaf is stored on the way to another stored path. -/
def LeadsThrough (t : Tree α) (leaf below : Path) : Prop :=
  leaf ∈ t.keys ∧ below ∈ t.keys ∧ leaf.isAbove below = true

/-- Two stored paths share the place; from there, one goes on by a key and one by a position. -/
def Splits (t : Tree α) (place : Path) : Prop :=
  ∃ p ∈ t.keys, ∃ q ∈ t.keys, ∃ name position after further,
    p.segments = place.segments ++ .key name :: after ∧
      q.segments = place.segments ++ .index position :: further

-- ---------------------------------------------------------------------------
-- What the searches find
-- ---------------------------------------------------------------------------

theorem leadsThrough_of_leafAndBranch? (h : t.leafAndBranch? = some (leaf, below)) :
    t.LeadsThrough leaf below := by
  obtain ⟨p, hp, habove⟩ := List.exists_of_findSome?_eq_some h
  obtain ⟨q, hq, he⟩ := Option.map_eq_some_iff.1 habove
  cases he
  have hstored := List.find?_some hq
  rw [Bool.and_eq_true] at hstored
  exact ⟨OrderedMap.contains_iff.1 hstored.2, hp,
    Path.mem_ancestors_iff_isAbove.1 (List.mem_of_find?_eq_some hq)⟩

theorem exists_leadsThrough_iff (hr : Path.root ∉ t.keys) :
    (∃ leaf below, t.LeadsThrough leaf below) ↔ t.leafAndBranch? ≠ none := by
  constructor
  · rintro ⟨leaf, below, hleaf, hbelow, habove⟩ hnone
    obtain ⟨s, rest, hrest⟩ := Path.isAbove_iff.1 habove
    have heq := (leafAndBranch?_eq_none_iff hr).1 hnone leaf hleaf below hbelow
      ⟨s :: rest, hrest.symm⟩
    simp [heq] at hrest
  · intro hne
    obtain ⟨⟨leaf, below⟩, hfound⟩ := Option.ne_none_iff_exists'.1 hne
    exact ⟨leaf, below, leadsThrough_of_leafAndBranch? hfound⟩

theorem firstClash_eq_some {seen steps : List (Path × Bool)}
    (h : firstClash seen steps = some place) :
    (place, false) ∈ seen ++ steps ∧ (place, true) ∈ seen ++ steps := by
  -- what was seen is among the steps taken so far, so a step that is put there changes nothing
  induction steps generalizing seen with
  | nil => cases h
  | cons s rest ih =>
    obtain ⟨here, isIndex⟩ := s
    unfold firstClash at h
    cases hseen : seen.lookup here with
    | none =>
      simp only [hseen] at h
      have hrest := ih h
      simp only [List.mem_append, List.mem_cons] at hrest ⊢
      tauto
    | some before =>
      have hmem : (here, before) ∈ seen := by
        obtain ⟨_, _, rfl, -⟩ := List.lookup_eq_some_iff.1 hseen
        simp
      simp only [hseen] at h
      split at h
      · have hrest := ih h
        simp only [List.mem_append, List.mem_cons] at hrest ⊢
        tauto
      · rename_i hne
        cases h
        have hnow : (place, isIndex) ∈ seen ++ (place, isIndex) :: rest := by simp
        have hbefore : (place, before) ∈ seen ++ (place, isIndex) :: rest := by simp [hmem]
        cases before <;> cases isIndex
        · exact absurd rfl hne
        · exact ⟨hbefore, hnow⟩
        · exact ⟨hnow, hbefore⟩
        · exact absurd rfl hne

theorem splits_iff : t.Splits place ↔
    (place, false) ∈ t.keys.flatMap steps ∧ (place, true) ∈ t.keys.flatMap steps := by
  simp only [List.mem_flatMap, mem_steps]
  constructor
  · rintro ⟨p, hp, q, hq, name, position, after, further, hname, hposition⟩
    exact ⟨⟨p, hp, .key name, after, hname, rfl⟩, q, hq, .index position, further, hposition, rfl⟩
  · rintro ⟨⟨p, hp, s, after, hs, hkey⟩, q, hq, u, further, hu, hindex⟩
    cases s with
    | index position => cases hkey
    | key name =>
      cases u with
      | key name => cases hindex
      | index position => exact ⟨p, hp, q, hq, name, position, after, further, hs, hu⟩

theorem splits_of_objectAndArray? (h : t.objectAndArray? = some place) : t.Splits place :=
  splits_iff.2 (firstClash_eq_some h)

theorem exists_splits_iff : (∃ place, t.Splits place) ↔ t.objectAndArray? ≠ none := by
  constructor
  · rintro ⟨place, p, hp, q, hq, name, position, after, further, hname, hposition⟩ hnone
    have hkind := objectAndArray?_eq_none_iff.1 hnone p hp q hq place.segments (.key name)
      (.index position) after further hname hposition
    cases hkind
  · intro hne
    obtain ⟨place, hplace⟩ := Option.ne_none_iff_exists'.1 hne
    exact ⟨place, splits_of_objectAndArray? hplace⟩

-- ---------------------------------------------------------------------------
-- Faults and their wording
-- ---------------------------------------------------------------------------

namespace ShapeFault

/-- What a fault says of a tree. -/
def Holds (t : Tree α) : ShapeFault → Prop
  | .empty => t.keys = []
  | .valueWithoutKey => Path.root ∈ t.keys
  | .leafAndBranch leaf below => t.LeadsThrough leaf below
  | .objectAndArray place => t.Splits place

/-- The place of the fault in the order of the search. -/
def rank : ShapeFault → Nat
  | .empty => 0
  | .valueWithoutKey => 1
  | .leafAndBranch .. => 2
  | .objectAndArray _ => 3

/-- The rank of the fault behind an error, as told from the ends of its reason. -/
def rankOf : ConfigError → Nat
  | .invalidConfig reason =>
    if reason.points.head? = some (.char 'v') then 1
    else if reason.points.getLast? = some (.char '\'') then 2
    else 3
  | _ => 0

theorem head?_append {first more : Text} {p : CodePoint} (h : first.points.head? = some p) :
    (first ++ more).points.head? = some p := by
  rw [Text.append_points, List.head?_append, h, Option.some_or]

theorem getLast?_append {first more : Text} {p : CodePoint} (h : more.points.getLast? = some p) :
    (first ++ more).points.getLast? = some p := by
  rw [Text.append_points, List.getLast?_append, h, Option.some_or]

theorem rankOf_error (f : ShapeFault) : rankOf (f.error source) = f.rank := by
  have hquote : (Text.ofString "'").points.head? = some (.char '\'') := rfl
  cases f with
  | empty => rfl
  | valueWithoutKey =>
    have hvalue : (Text.ofString "value without key").points.head? = some (.char 'v') := rfl
    simp only [rankOf, error, rank]
    rw [if_pos hvalue]
  | leafAndBranch leaf below =>
    have hlast : (Text.ofString "'").points.getLast? = some (.char '\'') := rfl
    simp only [rankOf, error, rank]
    rw [head?_append (head?_append (head?_append (head?_append hquote))), getLast?_append hlast]
    rfl
  | objectAndArray place =>
    have hroot : (Text.ofString "the document root").points.head? = some (.char 't') := rfl
    have hlast : (Text.ofString " is used both as an object and as an array").points.getLast? =
        some (.char 'y') := rfl
    simp only [rankOf, error, rank]
    rw [getLast?_append hlast]
    split
    · rw [head?_append hroot]
      rfl
    · rw [head?_append (head?_append (head?_append hquote))]
      rfl

end ShapeFault

-- ---------------------------------------------------------------------------
-- The first fault
-- ---------------------------------------------------------------------------

open ShapeFault

/-- The fault that is found is one, and no other comes before it. -/
theorem shapeFault?_eq_some {f : ShapeFault} (h : t.shapeFault? = some f) :
    f.Holds t ∧ ∀ g : ShapeFault, g.Holds t → f.rank ≤ g.rank := by
  unfold shapeFault? at h
  split at h
  · rename_i hempty
    cases h
    exact ⟨OrderedMap.isEmpty_iff.1 hempty, fun g _ => Nat.zero_le g.rank⟩
  · rename_i hempty
    have hkeys : t.keys ≠ [] := mt OrderedMap.isEmpty_iff.2 hempty
    split at h
    · rename_i hroot
      cases h
      refine ⟨OrderedMap.contains_iff.1 hroot, fun g hg => ?_⟩
      cases g with
      | empty => exact absurd hg hkeys
      | _ => simp [rank]
    · rename_i hroot
      have hroot : Path.root ∉ t.keys := mt OrderedMap.contains_iff.2 hroot
      cases hfound : t.leafAndBranch? with
      | some found =>
        rw [hfound] at h
        cases h
        refine ⟨leadsThrough_of_leafAndBranch? hfound, fun g hg => ?_⟩
        cases g with
        | empty => exact absurd hg hkeys
        | valueWithoutKey => exact absurd hg hroot
        | _ => simp [rank]
      | none =>
        rw [hfound] at h
        obtain ⟨place, hplace, rfl⟩ := Option.map_eq_some_iff.1 h
        refine ⟨splits_of_objectAndArray? hplace, fun g hg => ?_⟩
        cases g with
        | empty => exact absurd hg hkeys
        | valueWithoutKey => exact absurd hg hroot
        | leafAndBranch leaf below =>
          exact absurd hfound ((exists_leadsThrough_iff hroot).1 ⟨leaf, below, hg⟩)
        | objectAndArray place => exact Nat.le_refl 3

theorem WellShaped.not_holds (h : t.WellShaped) (f : ShapeFault) : ¬ f.Holds t := by
  have hnone : t.leafAndBranch? = none :=
    (leafAndBranch?_eq_none_iff h.rootFree).2 h.prefixFree
  cases f with
  | empty => exact h.nonempty
  | valueWithoutKey => exact h.rootFree
  | leafAndBranch leaf below =>
    exact fun hf => (exists_leadsThrough_iff h.rootFree).1 ⟨leaf, below, hf⟩ hnone
  | objectAndArray place =>
    exact fun hf => exists_splits_iff.1 ⟨place, hf⟩ (objectAndArray?_eq_none_iff.2 h.oneKind)

theorem wellShaped_iff_unfaulted : t.WellShaped ↔ ∀ f : ShapeFault, ¬ f.Holds t := by
  refine ⟨WellShaped.not_holds, fun h => shapeFault?_eq_none_iff.1 ?_⟩
  cases hfound : t.shapeFault? with
  | none => rfl
  | some f => exact absurd (shapeFault?_eq_some hfound).1 (h f)

theorem validate_error_iff {e : ConfigError} :
    t.validate source = .error e ↔ ∃ f, t.shapeFault? = some f ∧ e = f.error source := by
  unfold validate
  cases t.shapeFault? with
  | none => simp
  | some f => simp [eq_comm]

theorem refused_iff (t : Tree α) (source : Option String) (n : Nat) :
    (∃ f : ShapeFault, f.rank = n ∧ t.validate source = .error (f.error source)) ↔
      (∃ f : ShapeFault, f.rank = n ∧ f.Holds t) ∧ ∀ g : ShapeFault, g.Holds t → n ≤ g.rank := by
  constructor
  · rintro ⟨f, rfl, hf⟩
    obtain ⟨found, hfound, herror⟩ := validate_error_iff.1 hf
    have hrank : f.rank = found.rank := by rw [← rankOf_error, herror, rankOf_error]
    rw [hrank]
    obtain ⟨hholds, hfirst⟩ := shapeFault?_eq_some hfound
    exact ⟨⟨found, rfl, hholds⟩, hfirst⟩
  · rintro ⟨⟨f, rfl, hf⟩, hfirst⟩
    cases hfound : t.shapeFault? with
    | none => exact absurd hf ((shapeFault?_eq_none_iff.1 hfound).not_holds f)
    | some found =>
      obtain ⟨hholds, hleast⟩ := shapeFault?_eq_some hfound
      exact ⟨found, Nat.le_antisymm (hleast f hf) (hfirst found hholds),
        validate_error_iff.2 ⟨found, hfound, rfl⟩⟩

-- ---------------------------------------------------------------------------
-- Kind by kind
-- ---------------------------------------------------------------------------

theorem exists_rank_iff {n : Nat} {P : ShapeFault → Prop} :
    (∃ f : ShapeFault, f.rank = n ∧ P f) ↔
      (n = 0 ∧ P .empty) ∨ (n = 1 ∧ P .valueWithoutKey) ∨
        (n = 2 ∧ ∃ leaf below, P (.leafAndBranch leaf below)) ∨
          (n = 3 ∧ ∃ place, P (.objectAndArray place)) := by
  constructor
  · rintro ⟨f, rfl, hf⟩
    cases f with
    | empty => exact .inl ⟨rfl, hf⟩
    | valueWithoutKey => exact .inr (.inl ⟨rfl, hf⟩)
    | leafAndBranch leaf below => exact .inr (.inr (.inl ⟨rfl, leaf, below, hf⟩))
    | objectAndArray place => exact .inr (.inr (.inr ⟨rfl, place, hf⟩))
  · rintro (⟨rfl, hf⟩ | ⟨rfl, hf⟩ | ⟨rfl, leaf, below, hf⟩ | ⟨rfl, place, hf⟩)
    all_goals exact ⟨_, rfl, hf⟩

theorem forall_holds_iff {Q : Nat → Prop} :
    (∀ f : ShapeFault, f.Holds t → Q f.rank) ↔
      (t.keys = [] → Q 0) ∧ (Path.root ∈ t.keys → Q 1) ∧
        ((∃ leaf below, t.LeadsThrough leaf below) → Q 2) ∧
          ((∃ place, t.Splits place) → Q 3) := by
  constructor
  · intro h
    exact ⟨h .empty, h .valueWithoutKey, fun ⟨leaf, below, hf⟩ => h (.leafAndBranch leaf below) hf,
      fun ⟨place, hf⟩ => h (.objectAndArray place) hf⟩
  · rintro ⟨hempty, hroot, hthrough, hsplit⟩ f hf
    cases f with
    | empty => exact hempty hf
    | valueWithoutKey => exact hroot hf
    | leafAndBranch leaf below => exact hthrough ⟨leaf, below, hf⟩
    | objectAndArray place => exact hsplit ⟨place, hf⟩

/-- Checking a tree decides its shape. It is refused as empty exactly if it stores nothing, else for
a value without key exactly if it stores one at the root, else for a leaf on the way to another
path exactly if it has one, else for a place used both ways exactly if it has one. Otherwise it is
accepted as it is. Whatever it is refused for, the paths that the error names are those of a fault
that the tree has. -/
theorem validate_verdict (t : Tree α) (source : Option String) :
    let empty := t.keys = []
    let bare := Path.root ∈ t.keys
    let through := ∃ leaf below, t.LeadsThrough leaf below
    let split := ∃ place, t.Splits place
    (t.validate source = .error (.emptyConfig source) ↔ empty) ∧
    (t.validate source = .error (.invalidConfig "value without key") ↔ ¬ empty ∧ bare) ∧
    ((∃ leaf below, t.validate source = .error ((leafAndBranch leaf below).error source)) ↔
      ¬ empty ∧ ¬ bare ∧ through) ∧
    ((∃ place, t.validate source = .error ((objectAndArray place).error source)) ↔
      ¬ empty ∧ ¬ bare ∧ ¬ through ∧ split) ∧
    (∀ u, t.validate source = .ok u ↔ u = t ∧ ¬ empty ∧ ¬ bare ∧ ¬ through ∧ ¬ split) ∧
    ∀ e, t.validate source = .error e → ∃ f : ShapeFault, f.Holds t ∧ e = f.error source := by
  intro empty bare through split
  have hkind (n : Nat) := (refused_iff t source n).trans
    (and_congr_right' (forall_holds_iff (Q := (n ≤ ·))))
  simp only [exists_rank_iff] at hkind
  refine ⟨?_, ?_, ?_, ?_, fun u => ?_, fun e he => ?_⟩
  · simpa [Holds, error] using hkind 0
  · simpa [Holds, error, empty, bare, and_comm] using hkind 1
  · simpa [Holds, empty, bare, through, and_comm, and_assoc] using hkind 2
  · simpa [Holds, empty, bare, through, split, and_comm, and_left_comm] using hkind 3
  · have hnone : t.WellShaped ↔ ¬ empty ∧ ¬ bare ∧ ¬ through ∧ ¬ split :=
      wellShaped_iff_unfaulted.trans (forall_holds_iff (Q := fun _ => False))
    exact validate_ok_iff.trans (and_congr_right' hnone)
  · obtain ⟨f, hf, rfl⟩ := validate_error_iff.1 he
    exact ⟨f, (shapeFault?_eq_some hf).1, rfl⟩

/-- The first two paths use the root both ways, but a leaf on the way to another path comes
before that. -/
example :
    validate (OrderedMap.ofList [(⟨[.key "a"]⟩, 1), (⟨[.index 0]⟩, 2),
      (⟨[.key "a", .key "b"]⟩, 3)]) none =
        .error (.invalidConfig "'a' holds a value and is also the parent of 'a.b'") := by
  decide +kernel

end Tree

end LayeredConfig
