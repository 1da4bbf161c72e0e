import LayeredConfig.Proofs.Yaml.Faults
import LayeredConfig.Proofs.Yaml.Rewriting

/-!
# Screening for repeated keys

A mapping is screened as it stands when its turn comes, and a mapping whose turn came before may
have merged it by then. So what is screened are the pairs as written, or all merged pairs where an
earlier turn has reached the mapping.
-/

namespace LayeredConfig.Yaml

-- ---------------------------------------------------------------------------
-- Keys as written
-- ---------------------------------------------------------------------------

section

variable (nodes : Array Node)

/-- A text that a node may stand for where a scalar is wanted. A mapping stands for the text under a
key for its value. -/
inductive TextOf : Nat → Text → Prop where
  | scalar {n : Nat} {text : Text} (h : (nodes.getD n default).content = .scalar text) :
    TextOf n text
  | mapping {n m : Nat} {p : Nat × Nat} {text : Text} (hm : Reaches nodes n m)
    (hp : p ∈ pairsIn nodes m) (htag : (nodes.getD p.1 default).tag = Tag.value)
    (h : TextOf p.2 text) : TextOf n text

def keyTag (n : Nat) : String :=
  if (nodes.getD n default).tag = Tag.value then Tag.str else (nodes.getD n default).tag

def Spells (n : Nat) (s : Scalar) : Prop :=
  ∃ text, TextOf nodes n text ∧
    readScalar? (keyTag nodes n) text (nodes.getD n default).place (n + 1) = some (.ok s)

def DistinctKeys (pairs : List (Nat × Nat)) : Prop :=
  pairs.Pairwise fun p q => ∀ s t, Spells nodes p.1 s → Spells nodes q.1 t → s.same t = false

end

variable {nodes now : Array Node} {n m : Nat} {p : Nat × Nat}

-- ---------------------------------------------------------------------------
-- Scalar keys
-- ---------------------------------------------------------------------------

def spelling? (nodes : Array Node) (n : Nat) : Option Scalar :=
  match (nodes.getD n default).content with
  | .scalar text =>
    match readScalar? (keyTag nodes n) text (nodes.getD n default).place (n + 1) with
    | some (.ok s) => some s
    | _ => none
  | _ => none

/-- Both keys are scalars, and not the same. -/
def ToldApart (nodes : Array Node) (p q : Nat × Nat) : Prop :=
  (nodes.getD p.1 default).content.shape = .scalar ∧
    (nodes.getD q.1 default).content.shape = .scalar ∧
      ∀ s ∈ spelling? nodes p.1, ∀ t ∈ spelling? nodes q.1, s.same t = false

instance (nodes : Array Node) (p q : Nat × Nat) : Decidable (ToldApart nodes p q) :=
  inferInstanceAs (Decidable (_ ∧ _ ∧
    ∀ s ∈ spelling? nodes p.1, ∀ t ∈ spelling? nodes q.1, s.same t = false))

theorem Reaches.eq_of_sources_nil (h : Reaches nodes n m) (hn : sources nodes n = []) : n = m := by
  rcases Relation.ReflTransGen.cases_head h with rfl | ⟨k, hk, -⟩
  · rfl
  · simp [hn] at hk

theorem spelling?_of_spells (hn : (nodes.getD n default).content.shape = .scalar) {s : Scalar}
    (h : Spells nodes n s) : spelling? nodes n = some s := by
  obtain ⟨text, htext, hread⟩ := h
  cases htext with
  | scalar hcontent => simp only [spelling?, hcontent, hread]
  | mapping hm hp htag htext =>
    cases hcontent : (nodes.getD n default).content with
    | scalar other =>
      have hnone : pairsIn nodes n = [] := by simp only [pairsIn, hcontent]
      have hsources : sources nodes n = [] := by simp [sources, mergeOrder, hnone]
      cases hm.eq_of_sources_nil hsources
      simp [hnone] at hp
    | sequence items =>
      rw [hcontent] at hn
      cases hn
    | mapping pairs =>
      rw [hcontent] at hn
      cases hn

theorem distinctKeys_of_toldApart {pairs : List (Nat × Nat)}
    (h : pairs.Pairwise (ToldApart nodes)) : DistinctKeys nodes pairs := by
  refine h.imp fun ⟨hp, hq, hapart⟩ s t hs ht => ?_
  exact hapart s (spelling?_of_spells hp hs) t (spelling?_of_spells hq ht)

theorem distinctKeys_of_lt
    (h : ∀ n < nodes.size, (explicitPairs nodes n).Pairwise (ToldApart nodes)) (n : Nat) :
    DistinctKeys nodes (explicitPairs nodes n) := by
  by_cases hn : n < nodes.size
  · exact distinctKeys_of_toldApart (h n hn)
  · -- Beyond the nodes there are no pairs.
    have hnone : pairsIn nodes n = [] := by
      rw [pairsIn, Array.getD_eq_getD_getElem?, Array.getElem?_eq_none (Nat.le_of_not_lt hn)]
      rfl
    simp [explicitPairs, hnone, DistinctKeys]

-- ---------------------------------------------------------------------------
-- Values
-- ---------------------------------------------------------------------------

namespace ValueMaker

variable {d : ValueDraft}

/-- The nodes are those as written but for what merging changes, and the values made so far that may
be keys are spelled by their nodes. -/
structure Faithful (nodes : Array Node) (d : ValueDraft) : Prop where
  kept : Kept nodes d.nodes
  spelled : ∀ n v, (n, v) ∈ d.values → ∀ s, key? v = some s → Spells nodes n s

theorem textOf_ends {fuel : Nat} (hd : Kept nodes d.nodes) :
    Ends (textOf fuel n) d fun text t => t = d ∧ TextOf nodes n text := by
  induction fuel generalizing n with
  | zero => exact ends_throw
  | succ fuel ih =>
    refine node_bind ?_
    split
    · rename_i text hcontent
      refine ends_pure ⟨rfl, .scalar ?_⟩
      rwa [← hd.content n]
      rintro hmap
      have hshape := hd.mapping n hmap
      rw [IsMapping, hcontent] at hshape
      cases hshape
    · exact ends_throw
    · rename_i pairs hcontent
      refine ends_get_bind ?_
      simp only
      split
      · rename_i key value hfind
        have hp : (key, value) ∈ pairsIn d.nodes n := by
          simpa only [pairsIn, hcontent] using List.mem_of_find?_eq_some hfind
        have htag : (nodes.getD key default).tag = Tag.value := by
          have hnow : (d.nodes.getD key default).tag = Tag.value := by
            simpa using List.find?_some hfind
          rcases hd.tag key with hsame | ⟨-, hstr⟩
          · rw [← hsame, hnow]
          · exact absurd (hstr.symm.trans hnow) (by decide)
        refine ih.imp ?_
        rintro text _ ⟨rfl, htext⟩
        rcases hd.pairs n _ hp with hw | ⟨-, m, hm, hw⟩
        · exact ⟨rfl, .mapping .refl hw htag htext⟩
        · exact ⟨rfl, .mapping hm hw htag htext⟩
      · exact ends_throw

theorem keyTag_eq (hd : Kept nodes now) {text : Text} {place : Location} {mark : Nat}
    {r : Except Stop Scalar}
    (h : readScalar? (now.getD n default).tag text place mark = some r) :
    keyTag nodes n = (now.getD n default).tag := by
  unfold keyTag
  split
  · -- No scalar is read by the tag of the key for a value, so this one has become a string.
    rename_i hvalue
    rcases hd.tag n with hsame | ⟨-, hstr⟩
    · rw [hsame, hvalue] at h
      cases h
    · exact hstr.symm
  · rename_i hvalue
    rcases hd.tag n with hsame | ⟨hv, -⟩
    · exact hsame.symm
    · exact absurd hv hvalue

theorem makeScalar_ends (hd : Kept nodes d.nodes) :
    Ends (makeScalar n) d fun v t => t = d ∧ ∃ s, v = .scalar s ∧ Spells nodes n s := by
  refine node_bind (ends_check fun _ => ends_get_bind ((textOf_ends hd).bind ?_))
  rintro text t ⟨rfl, htext⟩
  refine ends_check fun _ => ?_
  split
  · rename_i s hs
    refine ends_pure ⟨rfl, s, rfl, text, htext, ?_⟩
    rw [keyTag_eq hd hs, ← hd.place n, hs]
  · exact ends_throw
  · exact ends_throw

/-- From `d`, nothing that is written changes, and the nodes are left as they are. -/
def Stays (nodes : Array Node) (d t : ValueDraft) : Prop := Faithful nodes t ∧ t.nodes = d.nodes

theorem addContainer_ends {c : Graph.Container} (hd : Faithful nodes d) :
    Ends (addContainer c) d fun _ t => Stays nodes d t :=
  ends_modifyGet ⟨⟨hd.kept, hd.spelled⟩, rfl⟩

theorem makeCollection_ends {kind : CollectionKind} (hd : Faithful nodes d) :
    Ends (makeCollection kind n) d fun v t => Stays nodes d t ∧ key? v = none := by
  refine (addContainer_ends hd).bind fun container t ⟨ht, hnodes⟩ => ?_
  refine (ends_modify (Q := fun _ u => Stays nodes d u)
    ⟨⟨ht.kept, ht.spelled⟩, hnodes⟩).bind fun _ u hu => ?_
  refine ends_pure ⟨hu, ?_⟩
  split <;> rfl

theorem remember_ends {t : ValueDraft} {v : Graph.Value} (ht : Stays nodes d t)
    (hv : ∀ s, key? v = some s → Spells nodes n s) :
    Ends (do
      modify fun d => { d with values := (n, v) :: d.values }
      return v : ValueMaker Graph.Value) t fun w u =>
        Stays nodes d u ∧ ∀ s, key? w = some s → Spells nodes n s := by
  refine (ends_modify (Q := fun _ u => Stays nodes d u)
    ⟨⟨ht.1.kept, fun m w hw => ?_⟩, ht.2⟩).bind fun _ u hu => ends_pure ⟨hu, hv⟩
  rcases List.mem_cons.1 hw with hw | hw
  · cases hw
    exact hv
  · exact ht.1.spelled m w hw

theorem make_ends (hd : Faithful nodes d) :
    Ends (make n) d fun v t =>
      Stays nodes d t ∧ ∀ s, key? v = some s → Spells nodes n s := by
  refine ends_get_bind ?_
  split
  · rename_i v hv
    obtain ⟨_, _, hvalues, -⟩ := List.lookup_eq_some_iff.1 hv
    have hmem : (n, v) ∈ d.values := by simp [hvalues]
    exact ends_pure ⟨⟨hd, rfl⟩, hd.spelled n v hmem⟩
  · refine node_bind ?_
    simp only
    split
    · refine (makeCollection_ends hd).bind fun v t ⟨ht, hv⟩ => ?_
      exact remember_ends ht (by simp [hv])
    · refine (makeScalar_ends hd.kept).bind ?_
      rintro v t ⟨rfl, s, rfl, hs⟩
      refine remember_ends ⟨hd, rfl⟩ fun s' hs' => ?_
      obtain rfl : s = s' := by
        simp only [key?] at hs'
        split at hs' <;> simp_all
      exact hs

-- ---------------------------------------------------------------------------
-- Contents
-- ---------------------------------------------------------------------------

theorem make_stays (n : Nat) : FailsOnlyIn (Stays nodes d) Stop.Listed (make n) := by
  intro t ht
  refine ⟨(make_sound n t trivial).1, fun r hr => ?_⟩
  obtain ⟨hfaithful, hnodes⟩ := (make_ends ht.1 r hr).1
  exact ⟨hfaithful, hnodes.trans ht.2⟩

theorem addContainer_stays (c : Graph.Container) :
    FailsOnlyIn (Stays nodes d) Stop.Listed (addContainer c) :=
  failsOnlyIn_modifyGet fun _ h => ⟨⟨h.1.kept, h.1.spelled⟩, h.2⟩

theorem failsOnly_node_bind {α : Type} {P : Stop → Prop} {f : Node → ValueMaker α}
    (h : FailsOnly P ((f (d.nodes.getD n default)).run d)) : FailsOnly P ((node n >>= f).run d) :=
  h

theorem failsOnly_tagOf_bind {α : Type} {P : Stop → Prop} {f : String → ValueMaker α}
    (h : FailsOnly P ((f (d.nodes.getD n default).tag).run d)) :
    FailsOnly P ((tagOf n >>= f).run d) :=
  h

theorem checkKeys_listed {seen : List Scalar} {pairs : List (Nat × Nat)} (hd : Faithful nodes d)
    (hpairs : DistinctKeys nodes (pairs.filter (!isMerge nodes ·)))
    (hseen : ∀ s ∈ seen, ∀ p ∈ pairs.filter (!isMerge nodes ·), ∀ t, Spells nodes p.1 t →
      s.same t = false) :
    FailsOnly Stop.Listed ((checkKeys seen pairs).run d) := by
  induction pairs generalizing seen d with
  | nil => exact failsOnly_pure
  | cons p rest ih =>
    have hmerge : (d.nodes.getD p.1 default).tag = Tag.merge ↔ isMerge nodes p = true := by
      rw [← hd.kept.isMerge]
      exact decide_eq_true_iff.symm
    refine failsOnly_tagOf_bind ?_
    split
    · rename_i htag
      rw [List.filter_cons_of_neg (by simp [hmerge.1 htag])] at hpairs hseen
      exact ih hd hpairs hseen
    · rename_i htag
      rw [List.filter_cons_of_pos (by simpa using mt hmerge.2 htag)] at hpairs hseen
      obtain ⟨hfirst, hrest⟩ := List.pairwise_cons.1 hpairs
      have hseen' (s : Scalar) (hs : s ∈ seen) := List.forall_mem_cons.1 (hseen s hs)
      refine FailsOnly.run_bind (make_sound p.1 d trivial).1 (make_ends hd) ?_
      rintro v u ⟨⟨hu, -⟩, hv⟩
      split
      · exact ih hu hrest fun s hs => (hseen' s hs).2
      · rename_i s hs
        have hnew : seen.any (·.same s) = false := by
          simpa using fun a ha => (hseen' a ha).1 s (hv s hs)
        rw [if_neg (by simp [hnew])]
        refine ih hu hrest fun a ha q hq t ht => ?_
        rcases List.mem_cons.1 ha with rfl | ha
        · exact hfirst q hq a t (hv a hs) ht
        · exact (hseen' a ha).2 q hq t ht

theorem makeMapping_listed (hd : Faithful nodes d)
    (hkeys : DistinctKeys nodes ((pairsIn d.nodes n).filter (!isMerge nodes ·))) :
    FailsOnly Stop.Listed ((makeMapping n).run d) := by
  refine failsOnly_node_bind ?_
  unfold pairsIn at hkeys
  split
  · rename_i pairs hcontent
    rw [hcontent] at hkeys
    refine FailsOnly.run_bind (Q := fun _ _ => True) (checkKeys_listed hd hkeys nofun)
      (fun _ _ => trivial) fun _ t _ => ?_
    have hrest : Sound (do
        merge (2 * pairCount (← get).nodes + 2) [] n
        makeFields [] (← pairsOf n)) := by
      refine failsOnlyIn_get.bind fun u => (merge_sound (fun _ _ => id) _ _ _).bind fun _ => ?_
      exact (pairsOf_sound _).bind fun _ => makeFields_sound make_sound _ _
    exact (hrest t trivial).1
  · split <;> exact failsOnly_error.2 trivial
  · split <;> exact failsOnly_error.2 trivial

theorem makeContents_listed {t : Task} (hd : Faithful nodes d)
    (hkeys : DistinctKeys nodes ((pairsIn d.nodes t.node).filter (!isMerge nodes ·))) :
    FailsOnly Stop.Listed ((makeContents t).run d) := by
  have hmapping : FailsOnly Stop.Listed
      ((do return Graph.Container.map (← makeMapping t.node) : ValueMaker _).run d) :=
    FailsOnly.run_bind (Q := fun _ _ => True) (makeMapping_listed hd hkeys)
      (fun _ _ => trivial) fun _ _ _ => failsOnly_pure
  refine failsOnly_node_bind ?_
  split
  · exact ((FailsOnlyIn.mapM make_sound _).bind fun _ => failsOnlyIn_pure) d trivial |>.1
  · exact failsOnly_error.2 trivial
  · have hpair := makePair_sound make_sound addContainer_sound
    exact ((FailsOnlyIn.mapM hpair _).bind fun _ => failsOnlyIn_pure) d trivial |>.1
  · exact failsOnly_error.2 trivial
  · exact hmapping
  · exact hmapping

/-- What a turn of `x` leaves: what is written is kept, everything is settled, and nothing has
changed that `x` does not reach. -/
structure AfterTurn (nodes : Array Node) (x : Nat) (d t : ValueDraft) : Prop where
  faithful : Faithful nodes t
  settled : ∀ n, Settled nodes t.nodes n
  frame : ∀ n, ¬ Reaches nodes x n → pairsIn t.nodes n = pairsIn d.nodes n

theorem Stays.afterTurn {t : ValueDraft} (h : Stays nodes d t) (hs : ∀ n, Settled nodes d.nodes n) :
    AfterTurn nodes m d t where
  faithful := h.1
  settled n := (hs n).of_eq (by rw [h.2])
  frame n _ := by rw [h.2]

theorem makeMapping_ends (hd : Faithful nodes d) (hs : ∀ n, Settled nodes d.nodes n) :
    Ends (makeMapping n) d fun _ t => AfterTurn nodes n d t := by
  refine node_bind ?_
  split
  · rename_i pairs hcontent
    have hx : IsMapping nodes n := by
      refine hd.kept.isMapping_iff.1 ?_
      rw [IsMapping, hcontent, Content.shape]
    refine (checkKeys_screens make_stays [] pairs).ends ⟨hd, rfl⟩ |>.bind ?_
    rintro _ t ⟨ht, hnodes⟩
    refine ends_get_bind ?_
    have hsettled (m : Nat) : Settled nodes t.nodes m := (hs m).of_eq (by rw [hnodes])
    have hvalues := merge_sound (I := fun u => u.values = t.values) fun _ _ => id
    refine (((merge_confined ht.kept hx (by simp)).and (merge_settled ht.kept hx hsettled)).and
      ((hvalues _ [] n).ends rfl)).bind ?_
    rintro _ u ⟨⟨⟨⟨hkept, hframe⟩, -⟩, hsettled⟩, hvalues⟩
    refine pairsOf_bind ?_
    have hu : Faithful nodes u := ⟨hkept, by rw [hvalues]; exact ht.spelled⟩
    refine (makeFields_sound make_stays [] _).ends ⟨hu, rfl⟩ |>.imp fun _ v hv => ?_
    refine ⟨hv.1, fun m => (hsettled m).of_eq (by rw [hv.2]), fun m hm => ?_⟩
    rw [hv.2, hframe m hm, hnodes]
  · split <;> exact ends_throw
  · split <;> exact ends_throw

theorem makeContents_ends {t : Task} (hd : Faithful nodes d)
    (hs : ∀ n, Settled nodes d.nodes n) :
    Ends (makeContents t) d fun _ u => AfterTurn nodes t.node d u := by
  have hstay : Stays nodes d d := ⟨hd, rfl⟩
  refine node_bind ?_
  split
  · refine ((FailsOnlyIn.mapM make_stays _).ends hstay).bind fun _ u hu => ?_
    exact ends_pure (hu.afterTurn hs)
  · exact ends_throw
  · have hpair := makePair_sound (I := Stays nodes d) make_stays addContainer_stays
    refine ((FailsOnlyIn.mapM hpair _).ends hstay).bind fun _ u hu => ?_
    exact ends_pure (hu.afterTurn hs)
  · exact ends_throw
  · exact (makeMapping_ends hd hs).bind fun _ _ hu => ends_pure hu
  · exact (makeMapping_ends hd hs).bind fun _ _ hu => ends_pure hu

end ValueMaker

end LayeredConfig.Yaml
