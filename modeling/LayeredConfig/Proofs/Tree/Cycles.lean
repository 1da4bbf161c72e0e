import LayeredConfig.Proofs.Tree.Faults
import LayeredConfig.Proofs.Tree.Occurrences
import Mathlib.Logic.Relation

/-!
# Shared and cyclic containers

`flatten_graph`: the walk over a graph ends. A graph in which a container stands inside itself is
refused; any other is walked like the document in which every shared container is copied into each
of its places. What bounds the walk is that the containers on the way down are distinct.
-/

namespace LayeredConfig

namespace Graph

open Document Relation

mutual

/-- The walk at a value, with nothing that bounds it, comes to this outcome. -/
inductive Walks (g : Graph) :
    List Nat → Path → Tree Leaf → Value → Except Failure (Tree Leaf) → Prop
  | scalar {ancestors : List Nat} {path : Path} {found : Tree Leaf} (s : Scalar) :
    Walks g ancestors path found (.scalar s) (do return found.insert path (← s.toLeaf path))
  | ancestor {ancestors : List Nat} {path : Path} {found : Tree Leaf} {n : Nat}
    (h : n ∈ ancestors) : Walks g ancestors path found (.container n) (.error (recursive path))
  | container {ancestors : List Nat} {path : Path} {found : Tree Leaf} {n : Nat}
    {cs : List (Path × Value)} {r : Except Failure (Tree Leaf)} (hn : n ∉ ancestors)
    (hcs : (g.container n).children path = .ok cs) (hw : WalksAll g (n :: ancestors) found cs r) :
    Walks g ancestors path found (.container n) r

/-- The walk over values with their paths, one after the other until one fails. -/
inductive WalksAll (g : Graph) :
    List Nat → Tree Leaf → List (Path × Value) → Except Failure (Tree Leaf) → Prop
  | done {ancestors : List Nat} {found : Tree Leaf} : WalksAll g ancestors found [] (.ok found)
  | next {ancestors : List Nat} {found t : Tree Leaf} {c : Path × Value}
    {rest : List (Path × Value)} {r : Except Failure (Tree Leaf)}
    (hc : Walks g ancestors c.1 found c.2 (.ok t)) (hrest : WalksAll g ancestors t rest r) :
    WalksAll g ancestors found (c :: rest) r
  | stop {ancestors : List Nat} {found : Tree Leaf} {c : Path × Value}
    {rest : List (Path × Value)} {e : Failure}
    (hc : Walks g ancestors c.1 found c.2 (.error e)) :
    WalksAll g ancestors found (c :: rest) (.error e)

end

def Container.items? : Container → Option (List Value)
  | .list items | .tuple items => some items
  | .map _ => none

mutual

/-- The document stands for the value, with a copy of every container in each of its places. -/
inductive Expands (g : Graph) : Value → Document → Prop
  | scalar (s : Scalar) : Expands g (.scalar s) (.scalar s)
  | list {n : Nat} {items : List Value} {ds : List Document}
    (hn : (g.container n).items? = some items) (h : ExpandsItems g items ds) :
    Expands g (.container n) (.list ds)
  | map {n : Nat} {fields : List (Scalar × Value)} {es : List (Scalar × Document)}
    (hn : g.container n = .map fields) (h : ExpandsFields g fields es) :
    Expands g (.container n) (.map es)

inductive ExpandsItems (g : Graph) : List Value → List Document → Prop
  | nil : ExpandsItems g [] []
  | cons {v : Value} {d : Document} {items : List Value} {ds : List Document}
    (hd : Expands g v d) (h : ExpandsItems g items ds) : ExpandsItems g (v :: items) (d :: ds)

inductive ExpandsFields (g : Graph) : List (Scalar × Value) → List (Scalar × Document) → Prop
  | nil : ExpandsFields g [] []
  | cons {k : Scalar} {v : Value} {d : Document} {fields : List (Scalar × Value)}
    {es : List (Scalar × Document)} (hd : Expands g v d) (h : ExpandsFields g fields es) :
    ExpandsFields g ((k, v) :: fields) ((k, d) :: es)

end

variable {g : Graph} {fuel n : Nat} {ancestors : List Nat} {path : Path} {v w : Value}
  {found t : Tree Leaf}

-- ---------------------------------------------------------------------------
-- Values inside values
-- ---------------------------------------------------------------------------

/-- The second value stands directly in the first. -/
def Holds (g : Graph) (v w : Value) : Prop :=
  ∃ n, v = .container n ∧ w ∈ (g.container n).values

/-- The second value is the first, or stands somewhere inside it. -/
def Reaches (g : Graph) : Value → Value → Prop := ReflTransGen g.Holds

/-- A container that the root reaches stands inside itself. -/
def Cyclic (g : Graph) : Prop := ∃ v, g.Reaches g.root v ∧ TransGen g.Holds v v

theorem holds_container : g.Holds (.container n) w ↔ w ∈ (g.container n).values := by
  constructor
  · rintro ⟨_, hn, hw⟩
    cases hn
    exact hw
  · exact fun hw => ⟨n, rfl, hw⟩

theorem not_holds_scalar {s : Scalar} : ¬ g.Holds (.scalar s) w := by
  rintro ⟨_, h, -⟩
  cases h

theorem transGen_holds : TransGen g.Holds v w ↔ ∃ u, g.Holds v u ∧ g.Reaches u w :=
  TransGen.head'_iff

theorem apart_of_scalar {s : Scalar} (h : g.Reaches (.scalar s) w) :
    (∀ a ∈ ancestors, w ≠ .container a) ∧ ¬ TransGen g.Holds w w := by
  rcases ReflTransGen.cases_head h with rfl | ⟨u, hu, -⟩
  · refine ⟨fun a _ => nofun, fun hcycle => ?_⟩
    obtain ⟨u, hu, -⟩ := transGen_holds.1 hcycle
    exact not_holds_scalar hu
  · exact absurd hu not_holds_scalar

theorem lt_size_of_holds (h : g.Holds (.container n) w) : n < g.containers.size := by
  rw [holds_container, container, Array.getD] at h
  split at h
  · assumption
  · cases h

/-- All keys are texts. -/
def Container.TextKeys : Container → Prop
  | .map fields => ∀ f ∈ fields, ∃ name, f.1 = .str name
  | _ => True

def TextKeys (g : Graph) : Prop := ∀ c ∈ g.containers, c.TextKeys

theorem TextKeys.container (h : g.TextKeys) (n : Nat) : (g.container n).TextKeys := by
  rw [Graph.container, Array.getD]
  split
  · exact h _ (Array.getElem_mem _)
  · trivial

theorem Container.TextKeys.children {c : Container} (h : c.TextKeys) (path : Path) :
    ∃ cs, c.children path = .ok cs := by
  cases c with
  | list items | tuple items => exact ⟨_, rfl⟩
  | map fields =>
    induction fields with
    | nil => exact ⟨[], rfl⟩
    | cons f rest ih =>
      obtain ⟨⟨name, hname⟩, hrest⟩ := List.forall_mem_cons.1 h
      obtain ⟨cs, hcs⟩ := ih hrest
      refine ⟨(path.key name, f.2) :: cs, children_map.2 (.cons ⟨name, ?_, rfl⟩ ?_)⟩
      · rw [hname]
        rfl
      · exact children_map.1 hcs

theorem Container.mem_values_of_children {c : Container} {cs : List (Path × Value)}
    (h : c.children path = .ok cs) {e : Path × Value} (he : e ∈ cs) : e.2 ∈ c.values := by
  rw [← values_of_children h]
  exact List.mem_map_of_mem he

-- ---------------------------------------------------------------------------
-- The walk step by step
-- ---------------------------------------------------------------------------

theorem flattenFrom_scalar_eq (s : Scalar) :
    g.flattenFrom fuel ancestors path found (.scalar s) =
      (do return found.insert path (← s.toLeaf path)) := by
  cases fuel <;> rfl

theorem flattenFrom_ancestor (h : n ∈ ancestors) :
    g.flattenFrom fuel ancestors path found (.container n) = .error (recursive path) := by
  cases fuel with
  | zero => rfl
  | succ fuel => rw [flattenFrom, if_pos (List.contains_iff_mem.2 h)]

theorem flattenFrom_items {items : List Value} (hn : n ∉ ancestors)
    (hc : (g.container n).items? = some items) :
    g.flattenFrom (fuel + 1) ancestors path found (.container n) =
      items.zipIdx.foldlM (fun found (item, position) =>
        g.flattenFrom fuel (n :: ancestors) (path.index position) found item) found := by
  rw [flattenFrom, if_neg (mt List.contains_iff_mem.1 hn)]
  cases h : g.container n <;> rw [h] at hc <;> cases hc <;> rfl

theorem flattenFrom_fields {fields : List (Scalar × Value)} (hn : n ∉ ancestors)
    (hc : g.container n = .map fields) :
    g.flattenFrom (fuel + 1) ancestors path found (.container n) =
      fields.foldlM (fun found (key, value) => do
        g.flattenFrom fuel (n :: ancestors) (← fieldPath path key) found value) found := by
  rw [flattenFrom, if_neg (mt List.contains_iff_mem.1 hn), hc]

theorem flattenFrom_children {cs : List (Path × Value)} (hn : n ∉ ancestors)
    (hcs : (g.container n).children path = .ok cs) :
    g.flattenFrom (fuel + 1) ancestors path found (.container n) =
      cs.foldlM (fun found c => g.flattenFrom fuel (n :: ancestors) c.1 found c.2) found := by
  cases hc : g.container n with
  | map fields =>
    rw [hc] at hcs
    rw [flattenFrom_fields hn hc, ← foldlM_of_prepared hcs]
    simp only [bind_assoc, pure_bind]
  | list items | tuple items =>
    rw [hc] at hcs
    cases hcs
    rw [flattenFrom_items hn (congrArg Container.items? hc), List.foldlM_map]

-- ---------------------------------------------------------------------------
-- The way down
-- ---------------------------------------------------------------------------

/-- A walk that has come to `v`: the ancestors are different containers around it, and there is
fuel for every other container and one more. -/
structure Descent (g : Graph) (fuel : Nat) (ancestors : List Nat) (v : Value) : Prop where
  budget : fuel + ancestors.length = g.containers.size + 1
  distinct : ancestors.Nodup
  around : ∀ a ∈ ancestors, TransGen g.Holds (.container a) v

theorem descent_root (g : Graph) : g.Descent (g.containers.size + 1) [] g.root :=
  ⟨rfl, List.nodup_nil, nofun⟩

theorem Descent.pos (h : g.Descent fuel ancestors v) : 0 < fuel := by
  have hbound : ancestors ⊆ List.range g.containers.size := fun a ha => by
    obtain ⟨u, hu, -⟩ := transGen_holds.1 (h.around a ha)
    exact List.mem_range.2 (lt_size_of_holds hu)
  have hlength := (List.subperm_of_subset h.distinct hbound).length_le
  rw [List.length_range] at hlength
  have hbudget := h.budget
  omega

theorem Descent.child (h : g.Descent (fuel + 1) ancestors (.container n)) (hn : n ∉ ancestors)
    (hw : w ∈ (g.container n).values) : g.Descent fuel (n :: ancestors) w := by
  have hstep : g.Holds (.container n) w := holds_container.2 hw
  refine ⟨?_, List.nodup_cons.2 ⟨hn, h.distinct⟩, List.forall_mem_cons.2 ⟨.single hstep, ?_⟩⟩
  · rw [← h.budget, List.length_cons]
    omega
  · exact fun a ha => (h.around a ha).tail hstep

theorem walksAll_foldlM {step : Tree Leaf → Path × Value → Except Failure (Tree Leaf)}
    {cs : List (Path × Value)}
    (h : ∀ c ∈ cs, ∀ found, g.Walks ancestors c.1 found c.2 (step found c)) (found : Tree Leaf) :
    g.WalksAll ancestors found cs (cs.foldlM step found) := by
  induction cs generalizing found with
  | nil => exact .done
  | cons c rest ih =>
    obtain ⟨hc, hrest⟩ := List.forall_mem_cons.1 h
    have hstep := hc found
    rw [List.foldlM_cons]
    cases hr : step found c with
    | error e => exact .stop (hr ▸ hstep)
    | ok t => exact .next (hr ▸ hstep) (ih hrest t)

theorem walks_flattenFrom (hk : g.TextKeys) (hd : g.Descent fuel ancestors v) (path : Path)
    (found : Tree Leaf) :
    g.Walks ancestors path found v (g.flattenFrom fuel ancestors path found v) := by
  induction fuel generalizing ancestors v path found with
  | zero => exact absurd hd.pos (Nat.lt_irrefl 0)
  | succ fuel ih =>
    cases v with
    | scalar s =>
      rw [flattenFrom_scalar_eq]
      exact .scalar s
    | container n =>
      by_cases hn : n ∈ ancestors
      · rw [flattenFrom_ancestor hn]
        exact .ancestor hn
      · obtain ⟨cs, hcs⟩ := (hk.container n).children path
        rw [flattenFrom_children hn hcs]
        refine .container hn hcs (walksAll_foldlM (fun c hc found => ?_) found)
        exact ih (hd.child hn (Container.mem_values_of_children hcs hc)) c.1 found

mutual

theorem Walks.unique : {ancestors : List Nat} → {path : Path} → {found : Tree Leaf} → {v : Value} →
    {r r' : Except Failure (Tree Leaf)} → g.Walks ancestors path found v r →
    g.Walks ancestors path found v r' → r = r'
  | _, _, _, _, _, _, .scalar _, .scalar _ => rfl
  | _, _, _, _, _, _, .ancestor _, .ancestor _ => rfl
  | _, _, _, _, _, _, .ancestor h, .container hn _ _ => absurd h hn
  | _, _, _, _, _, _, .container hn _ _, .ancestor h => absurd h hn
  | _, _, _, _, _, _, .container _ hcs hw, .container _ hcs' hw' => by
    cases hcs.symm.trans hcs'
    exact hw.unique hw'

theorem WalksAll.unique : {ancestors : List Nat} → {found : Tree Leaf} →
    {cs : List (Path × Value)} → {r r' : Except Failure (Tree Leaf)} →
    g.WalksAll ancestors found cs r → g.WalksAll ancestors found cs r' → r = r'
  | _, _, _, _, _, .done, .done => rfl
  | _, _, _, _, _, .next hc hrest, .next hc' hrest' => by
    cases hc.unique hc'
    exact hrest.unique hrest'
  | _, _, _, _, _, .next hc _, .stop hc' => by cases hc.unique hc'
  | _, _, _, _, _, .stop hc, .next hc' _ => by cases hc.unique hc'
  | _, _, _, _, _, .stop hc, .stop hc' => congrArg _ (Except.error.inj (hc.unique hc'))

end

-- ---------------------------------------------------------------------------
-- Expansion
-- ---------------------------------------------------------------------------

theorem ExpandsItems.of_values {items : List Value} {unfolded : Value → Document}
    (h : ∀ v ∈ items, g.Expands v (unfolded v)) :
    g.ExpandsItems items (items.map unfolded) := by
  induction items with
  | nil => exact .nil
  | cons v rest ih =>
    obtain ⟨hv, hrest⟩ := List.forall_mem_cons.1 h
    exact .cons hv (ih hrest)

theorem ExpandsFields.of_values {fields : List (Scalar × Value)} {unfolded : Value → Document}
    (h : ∀ f ∈ fields, g.Expands f.2 (unfolded f.2)) :
    g.ExpandsFields fields (fields.map fun f => (f.1, unfolded f.2)) := by
  induction fields with
  | nil => exact .nil
  | cons f rest ih =>
    obtain ⟨hf, hrest⟩ := List.forall_mem_cons.1 h
    exact .cons hf (ih hrest)

mutual

theorem Expands.unique : {v : Value} → {d e : Document} → g.Expands v d → g.Expands v e → d = e
  | _, _, _, .scalar _, .scalar _ => rfl
  | _, _, _, .list hn h, .list hn' h' => by
    cases hn.symm.trans hn'
    rw [h.unique h']
  | _, _, _, .list hn _, .map hn' _ => by
    rw [hn'] at hn
    cases hn
  | _, _, _, .map hn _, .list hn' _ => by
    rw [hn] at hn'
    cases hn'
  | _, _, _, .map hn h, .map hn' h' => by
    cases hn.symm.trans hn'
    rw [h.unique h']

theorem ExpandsItems.unique : {items : List Value} → {ds es : List Document} →
    g.ExpandsItems items ds → g.ExpandsItems items es → ds = es
  | _, _, _, .nil, .nil => rfl
  | _, _, _, .cons hd h, .cons he h' => by rw [hd.unique he, h.unique h']

theorem ExpandsFields.unique : {fields : List (Scalar × Value)} →
    {ds es : List (Scalar × Document)} → g.ExpandsFields fields ds → g.ExpandsFields fields es →
    ds = es
  | _, _, _, .nil, .nil => rfl
  | _, _, _, .cons hd h, .cons he h' => by rw [hd.unique he, h.unique h']

end

theorem foldlM_zipIdx {f : Tree Leaf → Value × Nat → Except Failure (Tree Leaf)}
    {unfolded : Value → Document} {path : Path} (items : List Value) (position : Nat)
    (h : ∀ v ∈ items, ∀ n found, f found (v, n) = (unfolded v).flattenAt (path.index n) found)
    (found : Tree Leaf) :
    (items.zipIdx position).foldlM f found =
      flattenItems path position found (items.map unfolded) := by
  induction items generalizing position found with
  | nil => rfl
  | cons v rest ih =>
    obtain ⟨hv, hrest⟩ := List.forall_mem_cons.1 h
    rw [List.zipIdx_cons, List.foldlM_cons, List.map_cons, flattenItems, hv]
    congr 1
    funext found
    exact ih _ hrest found

theorem foldlM_fields {f : Tree Leaf → Scalar × Value → Except Failure (Tree Leaf)}
    {unfolded : Value → Document} {path : Path} (fields : List (Scalar × Value))
    (h : ∀ e ∈ fields, ∀ found, f found e = do
      (unfolded e.2).flattenAt (← fieldPath path e.1) found)
    (found : Tree Leaf) :
    fields.foldlM f found = flattenFields path found (fields.map fun e => (e.1, unfolded e.2)) := by
  induction fields generalizing found with
  | nil => rfl
  | cons e rest ih =>
    obtain ⟨he, hrest⟩ := List.forall_mem_cons.1 h
    rw [List.foldlM_cons, List.map_cons, flattenFields, he, bind_assoc]
    congr 1
    funext p
    congr 1
    funext found
    exact ih hrest found

theorem flattenFrom_expands (hd : g.Descent fuel ancestors v)
    (hv : ∀ w, g.Reaches v w → ¬ TransGen g.Holds w w) :
    ∃ d, g.Expands v d ∧
      ∀ path found, g.flattenFrom fuel ancestors path found v = d.flattenAt path found := by
  induction fuel generalizing ancestors v with
  | zero => exact absurd hd.pos (Nat.lt_irrefl 0)
  | succ fuel ih =>
    cases v with
    | scalar s => exact ⟨.scalar s, .scalar s, fun path found => by rw [flattenFrom, flattenAt]⟩
    | container n =>
      have hn : n ∉ ancestors := fun hn => hv _ .refl (hd.around n hn)
      have hvalues : ∀ w ∈ (g.container n).values, ∃ d, g.Expands w d ∧ ∀ path found,
          g.flattenFrom fuel (n :: ancestors) path found w = d.flattenAt path found := fun w hw =>
        ih (hd.child hn hw) fun u hu => hv u (.head (holds_container.2 hw) hu)
      -- The copy of a value does not depend on the place, only the walk over it does.
      choose! unfolded hexpands hflatten using hvalues
      cases hc : g.container n with
      | list items | tuple items =>
        have hitems := congrArg Container.items? hc
        rw [hc] at hexpands hflatten
        refine ⟨.list (items.map unfolded), .list hitems (.of_values hexpands),
          fun path found => ?_⟩
        rw [flattenFrom_items hn hitems, flattenAt]
        exact foldlM_zipIdx items 0 (fun v hv n found => hflatten v hv _ found) found
      | map fields =>
        rw [hc] at hexpands hflatten
        have hfields : ∀ f ∈ fields, f.2 ∈ (Container.map fields).values :=
          fun f hf => List.mem_map_of_mem hf
        refine ⟨.map (fields.map fun f => (f.1, unfolded f.2)), .map hc (.of_values fun f hf =>
          hexpands _ (hfields f hf)), fun path found => ?_⟩
        rw [flattenFrom_fields hn hc, flattenAt]
        refine foldlM_fields fields (fun f hf found => ?_) found
        exact congrArg (fieldPath path f.1 >>= ·)
          (funext fun p => hflatten f.2 (hfields f hf) p found)

-- ---------------------------------------------------------------------------
-- Cycles
-- ---------------------------------------------------------------------------

theorem exists_of_foldlM_ok {ε α β : Type} {step : β → α → Except ε β} {l : List α} {b b' : β}
    (h : l.foldlM step b = .ok b') : ∀ a ∈ l, ∃ c c', step c a = .ok c' := by
  induction l generalizing b with
  | nil => nofun
  | cons a l ih =>
    rw [List.foldlM_cons] at h
    obtain ⟨c, hc, h⟩ := bind_ok.1 h
    exact List.forall_mem_cons.2 ⟨⟨b, c, hc⟩, ih h⟩

theorem apart_of_flattenFrom (h : g.flattenFrom fuel ancestors path found v = .ok t)
    (hw : g.Reaches v w) : (∀ a ∈ ancestors, w ≠ .container a) ∧ ¬ TransGen g.Holds w w := by
  induction fuel generalizing ancestors path found v w t with
  | zero =>
    cases v with
    | scalar s => exact apart_of_scalar hw
    | container n => cases h
  | succ fuel ih =>
    cases v with
    | scalar s => exact apart_of_scalar hw
    | container n =>
      have hn : n ∉ ancestors := fun hn => by
        rw [flattenFrom_ancestor hn] at h
        cases h
      obtain ⟨cs, hcs, h⟩ := flattenFrom_container h
      -- What lies inside is walked with the container among the ancestors, so nothing in it leads
      -- back to the container.
      have hinside {u w : Value} (hu : g.Holds (.container n) u) (hw : g.Reaches u w) :
          (∀ a ∈ n :: ancestors, w ≠ .container a) ∧ ¬ TransGen g.Holds w w := by
        rw [holds_container, ← Container.values_of_children hcs] at hu
        obtain ⟨c, hc, rfl⟩ := List.mem_map.1 hu
        obtain ⟨_, _, hwalk⟩ := exists_of_foldlM_ok h c hc
        exact ih hwalk hw
      rcases ReflTransGen.cases_head hw with rfl | ⟨u, hu, hw⟩
      · refine ⟨fun a ha heq => ?_, fun hcycle => ?_⟩
        · cases heq
          exact hn ha
        · obtain ⟨u, hu, hback⟩ := transGen_holds.1 hcycle
          exact (hinside hu hback).1 n List.mem_cons_self rfl
      · obtain ⟨haround, hcycle⟩ := hinside hu hw
        exact ⟨fun a ha => haround a (List.mem_cons_of_mem n ha), hcycle⟩

/-- Every failure of the walk is due to what it meets: a container inside itself, or a scalar. -/
theorem flattenFrom_failsOnly_of_reaches (hk : g.TextKeys) {Q : Fault → Prop}
    (hs : ∀ s, g.Reaches v (.scalar s) → s.Writes Q) :
    FailsOnly (Failure.OfWalk Q) (g.flattenFrom fuel ancestors path found v) := by
  induction fuel generalizing ancestors path found v with
  | zero =>
    cases v with
    | scalar s => exact ((hs s .refl).toLeaf path).bind fun _ => failsOnly_pure
    | container n => exact failsOnly_error.2 (.recursive path)
  | succ fuel ih =>
    cases v with
    | scalar s => exact ((hs s .refl).toLeaf path).bind fun _ => failsOnly_pure
    | container n =>
      by_cases hn : n ∈ ancestors
      · rw [flattenFrom_ancestor hn]
        exact failsOnly_error.2 (.recursive path)
      · obtain ⟨cs, hcs⟩ := (hk.container n).children path
        rw [flattenFrom_children hn hcs]
        refine FailsOnly.foldlM_of_mem (fun c hc found => ih fun s hs' => hs s ?_) found
        exact .head (holds_container.2 (Container.mem_values_of_children hcs hc)) hs'

theorem writes_of_reaches (s : Scalar) (hs : g.Reaches v (.scalar s)) :
    s.Writes fun f => f = .integerTooLong ∧
      ∃ n : Int, g.Reaches v (.scalar (.leaf (.int n))) ∧
        10 ^ Integer.digitLimit ≤ n.natAbs := by
  rintro n rfl
  by_cases hlt : n.natAbs < 10 ^ Integer.digitLimit
  · exact (Scalar.short_int hlt n rfl).imp fun _ => False.elim
  · exact (Scalar.integerText_failsOnly n).imp fun f hf => ⟨hf, n, hs, Nat.le_of_not_lt hlt⟩

/-- The walk over a graph with texts as keys ends with one outcome. Where a container stands inside
itself it is an error of the structure, unless a whole number that is too long to be written comes
first. Otherwise it is that of the graph's expansion. -/
theorem flatten_graph (hk : g.TextKeys) :
    (∀ r, g.Walks [] Path.root .empty g.root r ↔ r = g.flatten) ∧
    (g.Cyclic → ∃ e, g.flatten = .error e ∧ ((∃ message, e = .config (.invalidStructure message)) ∨
      e = .fault .integerTooLong ∧ ∃ n : Int, g.Reaches g.root (.scalar (.leaf (.int n))) ∧
        10 ^ Integer.digitLimit ≤ n.natAbs)) ∧
    (¬ g.Cyclic → ∃ d, (∀ e, g.Expands g.root e ↔ e = d) ∧ g.flatten = d.flatten) := by
  refine ⟨fun r => ?_, fun ⟨v, hv, hcycle⟩ => ?_, fun hacyclic => ?_⟩
  · have hwalks : g.Walks [] Path.root .empty g.root g.flatten :=
      walks_flattenFrom hk (descent_root g) _ _
    refine ⟨fun hr => hr.unique hwalks, ?_⟩
    rintro rfl
    exact hwalks
  · cases hr : g.flatten with
    | ok t => exact absurd hcycle (apart_of_flattenFrom hr hv).2
    | error e =>
      refine ⟨e, rfl, ?_⟩
      cases flattenFrom_failsOnly_of_reaches hk writes_of_reaches e hr with
      | fault hf =>
        obtain ⟨rfl, hn⟩ := hf
        exact .inr ⟨rfl, hn⟩
      | recursive path | wide path digits | unsupported path typeName => exact .inl ⟨_, rfl⟩
  · have hroot : ∀ w, g.Reaches g.root w → ¬ TransGen g.Holds w w :=
      fun w hw hcycle => hacyclic ⟨w, hw, hcycle⟩
    obtain ⟨d, hd, hflatten⟩ := flattenFrom_expands (descent_root g) hroot
    refine ⟨d, fun e => ⟨fun he => he.unique hd, ?_⟩, hflatten _ _⟩
    rintro rfl
    exact hd

def looped : Graph where
  containers := #[.map [(.str "a", .scalar (.str "x")), (.str "b", .container 0)]]
  root := .container 0

theorem flatten_graph_shared_looped :
    (sharedList.TextKeys ∧ ¬ sharedList.Cyclic ∧
      ∃ d, sharedList.Expands sharedList.root d ∧ sharedList.flatten = d.flatten ∧
        d.scalarCount = 4) ∧
    (looped.TextKeys ∧ looped.Cyclic ∧
      ∃ message, looped.flatten = .error (.config (.invalidStructure message))) := by
  refine ⟨?_, ?_⟩
  · have hk : sharedList.TextKeys := by
      simp only [TextKeys, sharedList, List.mem_toArray, List.forall_mem_cons,
        Container.TextKeys]
      exact ⟨⟨⟨_, rfl⟩, ⟨_, rfl⟩, List.forall_mem_nil _⟩, trivial, List.forall_mem_nil _⟩
    have hacyclic : ¬ sharedList.Cyclic := fun hcyclic => by
      obtain ⟨e, he, -⟩ := (flatten_graph hk).2.1 hcyclic
      cases he
    obtain ⟨d, hd, hflatten⟩ := (flatten_graph hk).2.2 hacyclic
    have hlist : sharedList.Expands (.container 1) (.list [.str "x", .int 1]) :=
      .list rfl (.cons (.scalar _) (.cons (.scalar _) .nil))
    have hroot : sharedList.Expands sharedList.root
        (.map [(.str "a", .list [.str "x", .int 1]), (.str "b", .list [.str "x", .int 1])]) :=
      .map rfl (.cons hlist (.cons hlist .nil))
    cases (hd _).1 hroot
    exact ⟨hk, hacyclic, _, hroot, hflatten, by decide⟩
  · have hk : looped.TextKeys := by
      simp only [TextKeys, looped, List.mem_toArray, List.forall_mem_cons,
        Container.TextKeys]
      exact ⟨⟨⟨_, rfl⟩, ⟨_, rfl⟩, List.forall_mem_nil _⟩, List.forall_mem_nil _⟩
    have hcyclic : looped.Cyclic :=
      ⟨.container 0, .refl, .single ⟨0, rfl, List.mem_cons_of_mem _ List.mem_cons_self⟩⟩
    obtain ⟨e, he, ⟨message, rfl⟩ | ⟨rfl, -⟩⟩ := (flatten_graph hk).2.1 hcyclic
    · exact ⟨hk, hcyclic, message, he⟩
    · cases he

def overlong : Graph where
  containers := #[.list [.scalar (.leaf (.int (Nat.pow 16 3600 - 1 : Nat))), .container 0]]
  root := .container 0

theorem flatten_graph_overlong :
    overlong.TextKeys ∧ overlong.Cyclic ∧ overlong.flatten = .error (.fault .integerTooLong) := by
  have hcyclic : overlong.Cyclic :=
    ⟨.container 0, .refl, .single ⟨0, rfl, List.mem_cons_of_mem _ List.mem_cons_self⟩⟩
  have hmap : (overlong.flatten.map fun t => t.entries) = .error (.fault .integerTooLong) := by
    decide +kernel
  refine ⟨?_, hcyclic, map_error.1 hmap⟩
  simp only [TextKeys, overlong, List.mem_toArray, List.forall_mem_cons,
    Container.TextKeys]
  exact ⟨trivial, List.forall_mem_nil _⟩

end Graph

end LayeredConfig
