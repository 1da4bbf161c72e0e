import LayeredConfig.Proofs.Yaml.Merge

/-!
# Merging in place

The making of values replaces the merge keys of a mapping in the mapping itself, and in all that it
takes from. Whatever the order, a mapping only has pairs that it was written with or inherits
(`Kept`). A mapping on no circle of merge keys has at any time its pairs as written or exactly its
merged ones (`Settled`).
-/

namespace LayeredConfig.Yaml

variable {nodes now now' : Array Node} {n m x : Nat} {p : Nat × Nat} {pairs : List (Nat × Nat)}

-- ---------------------------------------------------------------------------
-- Changes of nodes
-- ---------------------------------------------------------------------------

/-- A tag, or the tag of strings in place of that of the key for a value. -/
def TagKept (before after : String) : Prop :=
  after = before ∨ before = Tag.value ∧ after = Tag.str

theorem TagKept.trans {s t u : String} (h : TagKept s t) (h' : TagKept t u) : TagKept s u := by
  rcases h with rfl | ⟨rfl, rfl⟩
  · exact h'
  · rcases h' with rfl | ⟨hstr, -⟩
    · exact .inr ⟨rfl, rfl⟩
    · exact absurd hstr (by decide)

theorem TagKept.merge_iff {s t : String} (h : TagKept s t) : t = Tag.merge ↔ s = Tag.merge := by
  rcases h with rfl | ⟨rfl, rfl⟩
  · rfl
  · exact iff_of_false (by decide) (by decide)

/-- The mapping `x` has other pairs, and keys for values may have become strings. -/
structure Rewritten (before after : Array Node) (x : Nat) (pairs : List (Nat × Nat)) : Prop where
  place : ∀ n, (after.getD n default).place = (before.getD n default).place
  tag : ∀ n, TagKept (before.getD n default).tag (after.getD n default).tag
  content : ∀ n, n ≠ x → (after.getD n default).content = (before.getD n default).content
  own : (after.getD x default).content = .mapping pairs

/-- What merging leaves of the nodes as written. -/
structure Kept (nodes now : Array Node) : Prop where
  place : ∀ n, (now.getD n default).place = (nodes.getD n default).place
  tag : ∀ n, TagKept (nodes.getD n default).tag (now.getD n default).tag
  content : ∀ n, ¬ IsMapping nodes n →
    (now.getD n default).content = (nodes.getD n default).content
  mapping : ∀ n, IsMapping nodes n → IsMapping now n
  pairs : ∀ n, ∀ p ∈ pairsIn now n, p ∈ pairsIn nodes n ∨ Inherits nodes n p

theorem Rewritten.pairsIn_self (h : Rewritten now now' x pairs) : pairsIn now' x = pairs := by
  simp only [pairsIn, h.own]

theorem Rewritten.pairsIn_of_ne (h : Rewritten now now' x pairs) (hn : n ≠ x) :
    pairsIn now' n = pairsIn now n := by
  simp only [pairsIn, h.content n hn]

theorem Kept.refl (nodes : Array Node) : Kept nodes nodes where
  place _ := rfl
  tag _ := .inl rfl
  content _ _ := rfl
  mapping _ := id
  pairs _ _ := .inl

theorem Kept.isMerge (h : Kept nodes now) (p : Nat × Nat) : isMerge now p = isMerge nodes p := by
  unfold Yaml.isMerge
  exact decide_eq_decide.2 (h.tag p.1).merge_iff

theorem Kept.isMapping_iff (h : Kept nodes now) : IsMapping now n ↔ IsMapping nodes n := by
  refine ⟨fun hn => ?_, h.mapping n⟩
  by_contra hno
  exact hno (by simpa only [IsMapping, h.content n hno] using hn)

theorem Kept.inherits (h : Kept nodes now) (hp : p ∈ pairsIn now n)
    (hno : Yaml.isMerge nodes p = false) : Inherits nodes n p := by
  rcases h.pairs n p hp with hw | hi
  · exact ⟨hno, n, .refl, hw⟩
  · exact hi

theorem Kept.rewrite (h : Kept nodes now) (hr : Rewritten now now' x pairs)
    (hx : IsMapping nodes x) (hpairs : ∀ p ∈ pairs, p ∈ pairsIn nodes x ∨ Inherits nodes x p) :
    Kept nodes now' where
  place n := (hr.place n).trans (h.place n)
  tag n := (h.tag n).trans (hr.tag n)
  content n hn := (hr.content n (by rintro rfl; exact hn hx)).trans (h.content n hn)
  mapping n hn := by
    by_cases hnx : n = x
    · subst hnx
      simp only [IsMapping, hr.own, Content.shape]
    · simpa only [IsMapping, hr.content n hnx] using h.mapping n hn
  pairs n p hp := by
    by_cases hnx : n = x
    · subst hnx
      rw [hr.pairsIn_self] at hp
      exact hpairs p hp
    · rw [hr.pairsIn_of_ne hnx] at hp
      exact h.pairs n p hp

theorem Kept.popped {q : Nat × Nat → Bool} (h : Kept nodes now) (hx : IsMapping nodes x)
    (hr : Rewritten now now' x ((pairsIn now x).eraseP q)) : Kept nodes now' :=
  h.rewrite hr hx fun p hp => h.pairs x p (List.mem_of_mem_eraseP hp)

/-- What is written is kept, and only what `x` reaches has other pairs than before. -/
structure Confined (nodes : Array Node) (x : Nat) (before now : Array Node) : Prop where
  kept : Kept nodes now
  frame : ∀ n, ¬ Reaches nodes x n → pairsIn now n = pairsIn before n

theorem Confined.rewrite {before : Array Node} (h : Confined nodes x before now)
    (hr : Rewritten now now' x pairs) (hkept : Kept nodes now') : Confined nodes x before now' where
  kept := hkept
  frame n hn := by rw [hr.pairsIn_of_ne (by rintro rfl; exact hn .refl), h.frame n hn]

theorem Confined.trans {before : Array Node} (h : Confined nodes x before now)
    (hm : Reaches nodes x m) (h' : Confined nodes m now now') : Confined nodes x before now' where
  kept := h'.kept
  frame n hn := by rw [h'.frame n fun hmn => hn (hm.trans hmn), h.frame n hn]

-- ---------------------------------------------------------------------------
-- Steps
-- ---------------------------------------------------------------------------

theorem getD_modify (nodes : Array Node) (x n : Nat) (f : Node → Node) :
    (nodes.modify x f).getD n default =
      if x = n ∧ n < nodes.size then f (nodes.getD n default) else nodes.getD n default := by
  simp only [Array.getD_eq_getD_getElem?, Array.getElem?_modify]
  by_cases hn : n < nodes.size
  · by_cases hx : x = n <;> simp [hn, hx]
  · simp [hn]

theorem IsMapping.lt_size (h : IsMapping nodes n) : n < nodes.size := by
  by_contra hn
  unfold IsMapping at h
  rw [Array.getD_eq_getD_getElem?, Array.getElem?_eq_none (Nat.le_of_not_lt hn)] at h
  cases h

theorem IsMapping.rewritten (h : IsMapping nodes x) (pairs : List (Nat × Nat)) :
    Rewritten nodes (nodes.modify x ({ · with content := .mapping pairs })) x pairs where
  place n := by rw [getD_modify]; split <;> rfl
  tag n := by rw [getD_modify]; split <;> exact .inl rfl
  content n hn := by rw [getD_modify, if_neg fun hx => hn hx.1.symm]
  own := by rw [getD_modify, if_pos ⟨rfl, h.lt_size⟩]

theorem Rewritten.trans {pairs' : List (Nat × Nat)} {now'' : Array Node}
    (h : Rewritten now now' x pairs) (h' : Rewritten now' now'' x pairs') :
    Rewritten now now'' x pairs' where
  place n := (h'.place n).trans (h.place n)
  tag n := (h.tag n).trans (h'.tag n)
  content n hn := (h'.content n hn).trans (h.content n hn)
  own := h'.own

theorem IsMapping.unchanged (h : IsMapping nodes x) :
    Rewritten nodes nodes x (pairsIn nodes x) where
  place _ := rfl
  tag _ := .inl rfl
  content _ _ := rfl
  own := h.content

theorem Rewritten.retag (h : Rewritten now now' x pairs) (key : Nat) :
    Rewritten now (now'.modify key fun n =>
      if n.tag = Tag.value then { n with tag := Tag.str } else n) x pairs := by
  have hcontent (n : Nat) : ((now'.modify key fun n =>
      if n.tag = Tag.value then { n with tag := Tag.str } else n).getD n default).content =
        (now'.getD n default).content := by
    rw [getD_modify]
    split_ifs <;> rfl
  refine h.trans ⟨fun n => ?_, fun n => ?_, fun n _ => hcontent n, (hcontent x).trans h.own⟩
  · rw [getD_modify]
    split_ifs <;> rfl
  · rw [getD_modify]
    split_ifs with _ hvalue
    · exact .inr ⟨hvalue, rfl⟩
    · exact .inl rfl
    · exact .inl rfl

namespace ValueMaker

variable {d : ValueDraft} {found : List (Nat × Nat)} {fuel : Nat}

theorem node_bind {α : Type} {f : Node → ValueMaker α} {R : α → ValueDraft → Prop}
    (h : Ends (f (d.nodes.getD n default)) d R) : Ends (node n >>= f) d R :=
  h

theorem pairsOf_ends {Q : List (Nat × Nat) → ValueDraft → Prop} (h : Q (pairsIn d.nodes n) d) :
    Ends (pairsOf n) d Q := by
  refine node_bind ?_
  unfold pairsIn at h
  split <;> simp_all [ends_pure]

theorem pairsOf_bind {α : Type} {f : List (Nat × Nat) → ValueMaker α}
    {R : α → ValueDraft → Prop} (h : Ends (f (pairsIn d.nodes n)) d R) :
    Ends (pairsOf n >>= f) d R :=
  (pairsOf_ends (Q := fun pairs t => pairs = pairsIn d.nodes n ∧ t = d) ⟨rfl, rfl⟩).bind
    fun _ _ ⟨hpairs, ht⟩ => by rwa [hpairs, ht]

theorem popMerge_ends (hx : IsMapping d.nodes x) :
    Ends (popMerge? x) d fun popped t =>
      popped = (pairsIn d.nodes x).find? (isMerge d.nodes) ∧ (popped = none → t = d) ∧
        (popped ≠ none →
          Rewritten d.nodes t.nodes x ((pairsIn d.nodes x).eraseP (isMerge d.nodes))) := by
  refine ends_get_bind (pairsOf_bind ?_)
  split
  · rename_i hnone
    exact ends_pure ⟨hnone.symm, fun _ => rfl, fun h => absurd rfl h⟩
  · rename_i p hp
    refine (ends_modify (Q := fun _ t => Rewritten _ t.nodes x _) (hx.rewritten _)).bind ?_
    intro _ t ht
    exact ends_pure ⟨hp.symm, nofun, fun _ => ht⟩

theorem closeMerge_ends (hx : IsMapping d.nodes x) :
    Ends (do
      let own ← pairsOf x
      own.forM fun p => retag p.1
      if !found.isEmpty then setPairs x (found ++ own)) d fun _ t =>
        Rewritten d.nodes t.nodes x (found ++ pairsIn d.nodes x) := by
  refine pairsOf_bind ?_
  have hretag : Ends ((pairsIn d.nodes x).forM fun p => retag p.1) d fun _ t =>
      Rewritten d.nodes t.nodes x (pairsIn d.nodes x) := by
    refine ends_forM (fun p (t : ValueDraft) ht => ?_) _ hx.unchanged
    exact ends_modify (ht.retag p.1)
  refine hretag.bind fun _ t ht => ?_
  split
  · refine ends_modify (ht.trans (IsMapping.rewritten ?_ _))
    simp only [IsMapping, ht.own, Content.shape]
  · rename_i hempty
    obtain rfl : found = [] := by simpa using hempty
    exact ends_pure ht

/-- The rule for merging `x`: what holds of the pairs found so far when a merge key leaves and its
source is merged, in the end holds of the mapping with the pairs found in front. -/
theorem merge_rule {S : List (Nat × Nat) → ValueDraft → Prop} {Q : ValueDraft → Prop}
    (hmapping : ∀ found d, S found d → IsMapping d.nodes x)
    (hpop : ∀ g < fuel, ∀ found d p d', S found d →
      (pairsIn d.nodes x).find? (isMerge d.nodes) = some p →
      Rewritten d.nodes d'.nodes x ((pairsIn d.nodes x).eraseP (isMerge d.nodes)) →
      Ends (mergeSource g p.2) d' fun brought t => S (found ++ brought) t)
    (hclose : ∀ found d d', S found d → (∀ p ∈ pairsIn d.nodes x, isMerge d.nodes p = false) →
      Rewritten d.nodes d'.nodes x (found ++ pairsIn d.nodes x) → Q d')
    (hs : S found d) : Ends (merge fuel found x) d fun _ t => Q t := by
  induction fuel generalizing found d with
  | zero => exact ends_throw
  | succ fuel ih =>
    have hpop' := fun g (hg : g < fuel) => hpop g (Nat.lt_succ_of_lt hg)
    refine (popMerge_ends (hmapping found d hs)).bind ?_
    rintro popped t ⟨hpopped, hkeep, hrewritten⟩
    split
    · rename_i key source
      refine (hpop fuel (Nat.lt_succ_self fuel) found d (key, source) t hs hpopped.symm
        (hrewritten (Option.some_ne_none _))).bind fun brought t ht => ?_
      exact ih hpop' ht
    · cases hkeep rfl
      refine (closeMerge_ends (hmapping found d hs)).imp fun _ t ht => ?_
      refine hclose found d t hs (fun p hp => ?_) ht
      simpa using List.find?_eq_none.1 hpopped.symm p hp

theorem mergeSource_rule {S : ValueDraft → Prop} {B : Nat → List (Nat × Nat) → Prop}
    {source : Nat} (hkept : ∀ d, S d → Kept nodes d.nodes)
    (hmerge : ∀ m ∈ sourcesOf nodes source, IsMapping nodes m → ∀ d, S d →
      Ends (merge fuel [] m) d fun _ t => S t ∧ B m (pairsIn t.nodes m)) (hs : S d) :
    Ends (mergeSource (fuel + 1) source) d fun brought t => S t ∧
      ∃ groups, List.Forall₂ B (sourcesOf nodes source).reverse groups ∧
        brought = groups.flatten := by
  have hone (m : Nat) (hm : m ∈ sourcesOf nodes source) (hmap : IsMapping nodes m)
      (d : ValueDraft) (hs : S d) :
      Ends (do merge fuel [] m; pairsOf m) d fun brought t => S t ∧ B m brought :=
    (hmerge m hm hmap d hs).bind fun _ t ht => pairsOf_ends ht
  refine node_bind ?_
  split
  · rename_i pairs hcontent
    have hmap : IsMapping nodes source := by
      refine (hkept d hs).isMapping_iff.1 ?_
      simp only [IsMapping, hcontent, Content.shape]
    have hsource : sourcesOf nodes source = [source] := by
      simp only [sourcesOf, hmap.content]
    rw [hsource] at hone ⊢
    refine (hone source List.mem_cons_self hmap d hs).imp fun brought t ht => ?_
    exact ⟨ht.1, [brought], .cons ht.2 .nil, by simp⟩
  · rename_i items hcontent
    have hno : ¬ IsMapping nodes source := fun hmap => by
      have hshape := (hkept d hs).isMapping_iff.2 hmap
      rw [IsMapping, hcontent] at hshape
      cases hshape
    rw [(hkept d hs).content source hno] at hcontent
    have hsource : sourcesOf nodes source = items := by simp only [sourcesOf, hcontent]
    rw [hsource] at hone ⊢
    refine (ends_mapM (B := B) (fun item hitem d hs => ?_) hs).bind fun groups t ht => ?_
    · refine node_bind ?_
      split
      · exact ends_throw.bind fun _ _ h => h
      · rename_i hshape
        refine hone item hitem ((hkept d hs).isMapping_iff.1 ?_) d hs
        simpa [IsMapping] using hshape
    · exact ends_pure ⟨ht.1, groups.reverse, List.rel_reverse ht.2, rfl⟩
  · exact ends_throw

-- ---------------------------------------------------------------------------
-- What merging keeps
-- ---------------------------------------------------------------------------

theorem mem_sources_of_find? (hd : Kept nodes d.nodes)
    (hp : (pairsIn d.nodes x).find? (isMerge d.nodes) = some p) (hm : m ∈ sourcesOf nodes p.2) :
    m ∈ sources nodes x := by
  have hmerge : isMerge nodes p = true := by
    rw [← hd.isMerge]
    exact List.find?_some hp
  rcases hd.pairs x p (List.mem_of_find?_eq_some hp) with hw | ⟨hno, -⟩
  · exact mem_sources hw hmerge hm
  · exact absurd (hmerge.symm.trans hno) nofun

/-- Merging changes only what the mapping reaches, and leaves it with inherited pairs. -/
theorem merge_confined (hd : Kept nodes d.nodes) (hx : IsMapping nodes x)
    (hfound : ∀ p ∈ found, Inherits nodes x p) :
    Ends (merge fuel found x) d fun _ t => Confined nodes x d.nodes t.nodes ∧
      ∀ p ∈ pairsIn t.nodes x, Inherits nodes x p := by
  -- From one mapping to the next the fuel falls by two, through the source of the merge key.
  induction fuel using Nat.strongRecOn generalizing found x d with
  | ind fuel ih =>
    refine merge_rule (S := fun found t => Confined nodes x d.nodes t.nodes ∧
      ∀ p ∈ found, Inherits nodes x p) (fun _ t ht => ht.1.kept.mapping x hx) ?_ ?_
      ⟨⟨hd, fun _ _ => rfl⟩, hfound⟩
    · rintro g hg found t p u ⟨ht, hfound⟩ hp hu
      cases g with
      | zero => exact ends_throw
      | succ g =>
        refine (mergeSource_rule (S := fun t => Confined nodes x d.nodes t.nodes)
          (B := fun _ pairs => ∀ p ∈ pairs, Inherits nodes x p) (fun _ h => h.kept)
          (fun m hm hmap v hv => ?_) (ht.rewrite hu (ht.kept.popped hx hu))).imp ?_
        · have hxm : Reaches nodes x m := .single (mem_sources_of_find? ht.kept hp hm)
          refine (ih g (Nat.lt_of_succ_lt hg) hv.kept hmap (by simp)).imp fun _ w hw => ?_
          exact ⟨hv.trans hxm hw.1, fun p hp => (hw.2 p hp).trans hxm⟩
        · rintro _ v ⟨hv, groups, hgroups, rfl⟩
          refine ⟨hv, fun p hp => (List.mem_append.1 hp).elim (hfound p) fun hp => ?_⟩
          obtain ⟨pairs, hpairs, hp⟩ := List.mem_flatten.1 hp
          obtain ⟨_, -, h⟩ := forall₂_mem_right hgroups hpairs
          exact h p hp
    · rintro found t u ⟨ht, hfound⟩ hno hu
      have hpairs (p : Nat × Nat) (hp : p ∈ found ++ pairsIn t.nodes x) : Inherits nodes x p := by
        refine (List.mem_append.1 hp).elim (hfound p) fun hp => ht.kept.inherits hp ?_
        rw [← ht.kept.isMerge]
        exact hno p hp
      refine ⟨ht.rewrite hu (ht.kept.rewrite hu hx fun p hp => .inr (hpairs p hp)), ?_⟩
      rwa [hu.pairsIn_self]

-- ---------------------------------------------------------------------------
-- What merging comes to
-- ---------------------------------------------------------------------------

/-- A mapping that can be merged has its pairs as written or as merged. -/
def Settled (nodes now : Array Node) (n : Nat) : Prop :=
  ∀ fuel l, merged? nodes fuel n = some l → pairsIn now n = pairsIn nodes n ∨ pairsIn now n = l

theorem Settled.of_eq (h : Settled nodes now n) (hn : pairsIn now' n = pairsIn now n) :
    Settled nodes now' n := by
  intro fuel l hl
  rw [hn]
  exact h fuel l hl

theorem mergeOrder_eraseP (hp : pairs.find? (isMerge nodes) = some p) :
    mergeOrder nodes pairs =
      (sourcesOf nodes p.2).reverse ++ mergeOrder nodes (pairs.eraseP (isMerge nodes)) := by
  obtain ⟨hmerge, before, after, rfl, hbefore⟩ := List.find?_eq_some_iff_append.1 hp
  have hno : before.filter (isMerge nodes) = [] := by simpa using hbefore
  have herase : (before ++ p :: after).eraseP (isMerge nodes) = before ++ after := by
    rw [List.eraseP_append_right _ (by simpa using hbefore), List.eraseP_cons_of_pos hmerge]
  simp [mergeOrder, herase, hno, hmerge]

theorem filter_not_eraseP {α : Type} (q : α → Bool) (l : List α) :
    (l.eraseP q).filter (!q ·) = l.filter (!q ·) := by
  induction l with
  | nil => rfl
  | cons a l ih => by_cases ha : q a <;> simp [ha, ih]

theorem forall₂_append_left {α β : Type} {R : α → β → Prop} {l l' : List α} {r : List β}
    (h : List.Forall₂ R (l ++ l') r) :
    ∃ s t, List.Forall₂ R l s ∧ List.Forall₂ R l' t ∧ r = s ++ t :=
  ⟨_, _, (List.forall₂_take_append _ _ _ h.flip).flip, (List.forall₂_drop_append _ _ _ h.flip).flip,
    (List.take_append_drop _ _).symm⟩

variable {l : List (Nat × Nat)} {bound : Nat}

theorem merge_ends_of_explicit (hd : Kept nodes d.nodes) (hx : IsMapping nodes x)
    (hno : ∀ p ∈ pairsIn d.nodes x, isMerge nodes p = false) :
    Ends (merge fuel [] x) d fun _ t => ∀ n, pairsIn t.nodes n = pairsIn d.nodes n := by
  refine merge_rule (S := fun found t => found = [] ∧ t = d)
    (fun _ _ ⟨_, ht⟩ => ht ▸ hd.mapping x hx) ?_ ?_ ⟨rfl, rfl⟩
  · rintro g hg found t p u ⟨rfl, rfl⟩ hp -
    have hmerge := List.find?_some hp
    rw [hd.isMerge, hno p (List.mem_of_find?_eq_some hp)] at hmerge
    cases hmerge
  · rintro found t u ⟨rfl, rfl⟩ - hu n
    by_cases hn : n = x
    · subst hn
      exact hu.pairsIn_self
    · exact hu.pairsIn_of_ne hn

/-- The state of merging `x` into `l`: the pairs of `x` are some of its own, the merge keys left
bring what is missing in front of them, and what they reach is settled. -/
structure Merging (nodes : Array Node) (bound x : Nat) (l found : List (Nat × Nat))
    (d : ValueDraft) : Prop where
  kept : Kept nodes d.nodes
  settled : ∀ n, n ≠ x → Reaches nodes x n → Settled nodes d.nodes n
  explicit : (pairsIn d.nodes x).filter (!isMerge nodes ·) = explicitPairs nodes x
  missing : ∃ groups, List.Forall₂ (fun m g => merged? nodes bound m = some g)
    (mergeOrder nodes (pairsIn d.nodes x)) groups ∧
      found ++ groups.flatten ++ explicitPairs nodes x = l

/-- A merge key leaves `x` and its source is merged: its pairs come behind those found so far. -/
theorem Merging.bring {d' : ValueDraft} (h : Merging nodes bound x l found d)
    (hx : IsMapping nodes x) (hl : merged? nodes (bound + 1) x = some l)
    (hmerge : ∀ m ∈ sources nodes x, ∀ {l d}, merged? nodes bound m = some l →
      Kept nodes d.nodes → IsMapping nodes m →
      (∀ n, Reaches nodes m n → Settled nodes d.nodes n) →
      Ends (merge fuel [] m) d fun _ t =>
        pairsIn t.nodes m = l ∧ ∀ n, Reaches nodes m n → Settled nodes t.nodes n)
    (hp : (pairsIn d.nodes x).find? (isMerge d.nodes) = some p)
    (hd' : Rewritten d.nodes d'.nodes x ((pairsIn d.nodes x).eraseP (isMerge d.nodes))) :
    Ends (mergeSource (fuel + 1) p.2) d' fun brought t =>
      Merging nodes bound x l (found ++ brought) t := by
  obtain ⟨hkept, hsettled, hexplicit, groups, hgroups, hflat⟩ := h
  have hsame : isMerge d.nodes = isMerge nodes := funext hkept.isMerge
  have hmem (m : Nat) (hm : m ∈ sourcesOf nodes p.2) : m ∈ sources nodes x :=
    mem_sources_of_find? hkept hp hm
  rw [hsame] at hp hd'
  rw [mergeOrder_eraseP hp] at hgroups
  obtain ⟨own, rest, hown, hrest, rfl⟩ := forall₂_append_left hgroups
  refine (mergeSource_rule (S := fun t => Kept nodes t.nodes ∧
    (∀ n, n ≠ x → Reaches nodes x n → Settled nodes t.nodes n) ∧
      pairsIn t.nodes x = (pairsIn d.nodes x).eraseP (isMerge nodes))
    (B := fun m pairs => merged? nodes bound m = some pairs) (fun _ h => h.1) ?_ ?_).imp ?_
  · rintro m hm hmap t ⟨hkept, hsettled, hleft⟩
    have hback : ¬ Reaches nodes m x := not_reaches_of_merged? hl (hmem m hm)
    have hreach : Reaches nodes x m := .single (hmem m hm)
    obtain ⟨g, hg⟩ := merged?_of_mem hl (hmem m hm)
    have hdone := hmerge m (hmem m hm) hg hkept hmap fun n hn =>
      hsettled n (by rintro rfl; exact hback hn) (hreach.trans hn)
    refine (hdone.and (merge_confined hkept hmap (by simp))).imp ?_
    rintro _ u ⟨⟨hpairs, hbehind⟩, ⟨hkept, hframe⟩, -⟩
    refine ⟨⟨hkept, fun n hnx hn => ?_, ?_⟩, by rw [hpairs, hg]⟩
    · by_cases hmn : Reaches nodes m n
      · exact hbehind n hmn
      · exact (hsettled n hnx hn).of_eq (hframe n hmn)
    · rw [hframe x hback, hleft]
  · exact ⟨hkept.popped hx hd',
      fun n hnx hn => (hsettled n hnx hn).of_eq (hd'.pairsIn_of_ne hnx), hd'.pairsIn_self⟩
  · rintro _ t ⟨⟨hkept, hsettled, hleft⟩, brought, hbrought, rfl⟩
    obtain rfl : own = brought :=
      Option.some.inj ((mapM_some.2 hown).symm.trans (mapM_some.2 hbrought))
    refine ⟨hkept, hsettled, ?_, rest, ?_, ?_⟩
    · rw [hleft, filter_not_eraseP, hexplicit]
    · rwa [hleft]
    · rw [← hflat]
      simp

/-- Merging in place gives a mapping its merged pairs, if it has any, and what it reaches is settled
before and after. -/
theorem merge_settles (hl : merged? nodes bound x = some l) (hd : Kept nodes d.nodes)
    (hx : IsMapping nodes x) (hs : ∀ n, Reaches nodes x n → Settled nodes d.nodes n) :
    Ends (merge fuel [] x) d fun _ t =>
      pairsIn t.nodes x = l ∧ ∀ n, Reaches nodes x n → Settled nodes t.nodes n := by
  -- By induction on how deep merge keys lie behind each other; `x` takes from nothing that leads
  -- back to it, so what its sources change leaves it alone.
  induction bound generalizing x l d fuel with
  | zero => cases hl
  | succ bound ih =>
    rcases hs x .refl _ l hl with hwritten | hmerged
    case inr =>
      have hno (p : Nat × Nat) (hp : p ∈ pairsIn d.nodes x) : isMerge nodes p = false :=
        isMerge_of_merged? hl (hmerged ▸ hp)
      refine (merge_ends_of_explicit hd hx hno).imp fun _ t ht => ?_
      exact ⟨(ht x).trans hmerged, fun n hn => (hs n hn).of_eq (ht n)⟩
    obtain ⟨groups, hgroups, hflat⟩ := merged?_succ.1 hl
    refine merge_rule (S := Merging nodes bound x l) (fun _ _ h => h.kept.mapping x hx) ?_ ?_ ?_
    · rintro g hg found t p u ht hp hu
      cases g with
      | zero => exact ends_throw
      | succ g => exact ht.bring hx hl (fun m hm => ih) hp hu
    · rintro found t u ⟨hkept, hsettled, hexplicit, groups, hgroups, rfl⟩ hno hu
      have hnone : (pairsIn t.nodes x).filter (isMerge nodes) = [] := by
        simpa [hkept.isMerge] using hno
      have hown : pairsIn t.nodes x = explicitPairs nodes x := by
        rw [← hexplicit, List.filter_eq_self.2]
        simpa [hkept.isMerge] using hno
      rw [mergeOrder, hnone] at hgroups
      cases hgroups
      have hself : pairsIn u.nodes x = found ++ explicitPairs nodes x := by
        rw [hu.pairsIn_self, hown]
      rw [List.flatten_nil, List.append_nil] at *
      refine ⟨hself, fun n hn => ?_⟩
      by_cases hnx : n = x
      · subst hnx
        exact fun _ _ h => .inr (hself.trans (merged?_unique hl h))
      · exact (hsettled n hnx hn).of_eq (hu.pairsIn_of_ne hnx)
    · refine ⟨hd, fun n _ => hs n, by rw [hwritten]; rfl, groups, ?_, by simpa using hflat⟩
      rwa [hwritten]

/-- Merging any mapping, also one on a circle of merge keys, leaves everything settled. -/
theorem merge_settled (hd : Kept nodes d.nodes) (hx : IsMapping nodes x)
    (hs : ∀ n, Settled nodes d.nodes n) :
    Ends (merge fuel [] x) d fun _ t => ∀ n, Settled nodes t.nodes n := by
  induction fuel using Nat.strongRecOn generalizing x d with
  | ind fuel ih =>
    by_cases hl : ∃ bound l, merged? nodes bound x = some l
    · obtain ⟨bound, l, hl⟩ := hl
      refine ((merge_settles hl hd hx fun n _ => hs n).and
        (merge_confined hd hx (by simp))).imp ?_
      rintro _ t ⟨⟨-, hbehind⟩, ⟨-, hframe⟩, -⟩ n
      by_cases hn : Reaches nodes x n
      · exact hbehind n hn
      · exact (hs n).of_eq (hframe n hn)
    -- Here `x` may be half merged: nothing is said of it, and all else is settled.
    have hself (now : Array Node) : Settled nodes now x := fun bound l h => absurd ⟨bound, l, h⟩ hl
    have hother {now now' : Array Node} {pairs : List (Nat × Nat)}
        (hr : Rewritten now now' x pairs) (hs : ∀ n, Settled nodes now n) (n : Nat) :
        Settled nodes now' n := by
      by_cases hn : n = x
      · exact hn ▸ hself now'
      · exact (hs n).of_eq (hr.pairsIn_of_ne hn)
    refine merge_rule (S := fun found t => Kept nodes t.nodes ∧ ∀ n, Settled nodes t.nodes n)
      (fun _ _ h => h.1.mapping x hx) ?_ (fun _ t u ht _ hu => hother hu ht.2) ⟨hd, hs⟩
    rintro g hg found t p u ⟨hkept, hs⟩ hp hu
    cases g with
    | zero => exact ends_throw
    | succ g =>
      refine (mergeSource_rule (S := fun t => Kept nodes t.nodes ∧ ∀ n, Settled nodes t.nodes n)
        (B := fun _ _ => True) (fun _ h => h.1) (fun m hm hmap t ht => ?_)
        ⟨hkept.popped hx hu, hother hu hs⟩).imp fun _ _ h => h.1
      have hdone := ih g (Nat.lt_of_succ_lt hg) ht.1 hmap ht.2
      refine (hdone.and (merge_confined ht.1 hmap (by simp))).imp ?_
      rintro _ u ⟨hs, ⟨hkept, -⟩, -⟩
      exact ⟨⟨hkept, hs⟩, trivial⟩

end ValueMaker

end LayeredConfig.Yaml
