import LayeredConfig.Context.Override
import LayeredConfig.Proofs.Context.Provenance
import LayeredConfig.Proofs.Tree.Occurrences

/-!
# Overrides in turn

`override_append`: overriding twice is overriding once with all the values, and what an override
leaves is the last leaf emitted at each path. The values of an override are walked one by one, so
what is written for two lists of values is what is written for either. Whether the outcome has a
shape is then the only question, and a tree that lost its shape does not get it back by more leaves.
-/

namespace LayeredConfig

theorem Path.append_injective (p : Path) : Function.Injective (p ++ ·) := by
  intro q r h
  exact ext_segments (List.append_cancel_left (congrArg segments h))

-- ---------------------------------------------------------------------------
-- Layers from one source
-- ---------------------------------------------------------------------------

theorem Layer.origins_merge (profile path : Option String) (t u : Tree Leaf) :
    (Layer.mk profile (t.merge u) path).origins =
      (Layer.mk profile t path).origins.merge (Layer.mk profile u path).origins := by
  have hstored : ∀ p ∈ u.keys, decide (p ∉ t.keys) = false →
      (Layer.mk profile t path).origins.get? p.text = some ⟨profile, path, p.text⟩ := by
    intro p _ hp
    have hspells : (Layer.mk profile t path).spells p.text = true :=
      spells_iff.2 ⟨p, by simpa using hp, rfl⟩
    rw [get?_origins, if_pos hspells]
    rfl
  have hnew := OrderedMap.insertAll_filter (f := fun text => Origin.mk profile path text)
    (fun p => decide (p ∉ t.keys)) hstored
  simp only [origins, OrderedMap.keys_merge, List.map_append, OrderedMap.ofList_append]
  rw [OrderedMap.merge_ofList, OrderedMap.merge_ofList]
  exact hnew

namespace Context

variable {α : Type} {c c' d : Context} {values first second : List (Text × Graph)}
  {byPath : OrderedMap Path Graph} {entries : List (Path × Graph)} {paths : List Path}
  {written : Tree Leaf} {source : Option String}

/-- Leaves that come from no file. -/
def inMemory (t : Tree Leaf) : Layer := ⟨none, t, none⟩

theorem overlay_inMemory (c : Context) (t u : Tree Leaf) :
    (c.overlay (inMemory t)).overlay (inMemory u) = c.overlay (inMemory (t.merge u)) := by
  simp only [overlay, inMemory, Layer.origins_merge, OrderedMap.merge_assoc]

-- ---------------------------------------------------------------------------
-- Values by path
-- ---------------------------------------------------------------------------

def keyed (e : Text × α) : Except Failure (Path × α) := do
  return (← Path.read e.1, e.2)

theorem readOverrides_ok {values : List (Text × α)} {found byPath : OrderedMap Path α} :
    readOverrides values found = .ok byPath ↔
      ∃ entries, values.mapM keyed = .ok entries ∧ found.insertAll entries = byPath := by
  induction values generalizing found with
  | nil => simp [readOverrides, pure_ok]
  | cons e rest ih =>
    simp only [readOverrides, List.mapM_cons, keyed, bind_ok, pure_ok, ih]
    constructor
    · rintro ⟨p, hp, entries, hentries, rfl⟩
      exact ⟨_, ⟨_, ⟨p, hp, rfl⟩, entries, hentries, rfl⟩, rfl⟩
    · rintro ⟨_, ⟨_, ⟨p, hp, rfl⟩, entries, hentries, rfl⟩, rfl⟩
      exact ⟨p, hp, entries, hentries, rfl⟩

theorem keyed_of_paths {values : List (Text × α)}
    (h : values.mapM (fun e => Path.read e.1) = .ok paths) :
    values.mapM keyed = .ok (paths.zip (values.map Prod.snd)) ∧
      (paths.zip (values.map Prod.snd)).map Prod.fst = paths := by
  simp only [mapM_ok] at h ⊢
  induction h with
  | nil => exact ⟨.nil, rfl⟩
  | cons hp _ ih =>
    refine ⟨.cons ?_ ih.1, congrArg (List.cons _) ih.2⟩
    exact bind_ok.2 ⟨_, hp, rfl⟩

-- ---------------------------------------------------------------------------
-- What is written
-- ---------------------------------------------------------------------------

def below (p : Path) (o : Path × Leaf) : Path × Leaf := (p ++ o.1, o.2)

def leavesAt (e : Path × Graph) : Except Failure (List (Path × Leaf)) :=
  e.2.flatten.map fun t => t.entries.map (below e.1)

/-- The leaves that the walk over one value emits, each at its whole path. -/
def emittedAt (e : Path × Graph) : Except Failure (List (Path × Leaf)) :=
  e.2.occurrences.map fun es => es.map (below e.1)

/-- Every leaf that a walk over the values emits, in the order of the walk. -/
def emitted (entries : List (Path × Graph)) : Except Failure (List (Path × Leaf)) :=
  (entries.mapM emittedAt).map List.flatten

theorem leavesOf_eq (byPath : OrderedMap Path Graph) :
    leavesOf byPath = byPath.entries.foldlM
      (fun found e => do return found.insertAll (← leavesAt e)) OrderedMap.empty := by
  unfold leavesOf
  congr 1
  funext found e
  rw [leavesAt]
  cases e.2.flatten with
  | error f => rfl
  | ok t =>
    show _ = Except.ok (found.insertAll (t.entries.map (below e.1)))
    rw [OrderedMap.insertAll, List.foldl_map]
    rfl

theorem leavesOf_ok : leavesOf byPath = .ok written ↔
    ∃ ess, byPath.entries.mapM leavesAt = .ok ess ∧ OrderedMap.ofList ess.flatten = written := by
  have hwrite (ess : List (List (Path × Leaf))) :
      ess.foldlM (fun (found : Tree Leaf) es => (pure (found.insertAll es) : Except Failure _))
        OrderedMap.empty = .ok (OrderedMap.ofList ess.flatten) := by
    rw [List.foldlM_pure, OrderedMap.ofList, List.foldl_flatten]
    rfl
  rw [leavesOf_eq]
  constructor
  · intro h
    obtain ⟨ess, hess, hfold⟩ := foldlM_prepared h
    rw [hwrite] at hfold
    exact ⟨ess, hess, Except.ok.inj hfold⟩
  · rintro ⟨ess, hess, rfl⟩
    rw [foldlM_of_prepared hess, hwrite]

/-- A path that a walk emits twice keeps the later leaf only, so the leaves of a value write what
its emissions write. -/
theorem emittedAt_of_leavesAt {e : Path × Graph} {es : List (Path × Leaf)}
    (h : leavesAt e = .ok es) :
    ∃ os, emittedAt e = .ok os ∧ ∀ found : Tree Leaf, found.insertAll es = found.insertAll os := by
  obtain ⟨t, ht, rfl⟩ := map_ok.1 h
  obtain ⟨os, hos, rfl⟩ := Graph.flattenFrom_writes ht
  refine ⟨os.map (below e.1), map_ok.2 ⟨os, hos, rfl⟩, fun found => ?_⟩
  exact OrderedMap.insertAll_map_ofList e.1.append_injective found os

theorem emitted_of_leaves {ess : List (List (Path × Leaf))}
    (h : entries.mapM leavesAt = .ok ess) :
    ∃ es, emitted entries = .ok es ∧
      ∀ found : Tree Leaf, found.insertAll ess.flatten = found.insertAll es := by
  suffices hone : ∃ oss, entries.mapM emittedAt = .ok oss ∧
      ∀ found : Tree Leaf, found.insertAll ess.flatten = found.insertAll oss.flatten by
    obtain ⟨oss, hoss, hwrites⟩ := hone
    exact ⟨oss.flatten, map_ok.2 ⟨oss, hoss, rfl⟩, hwrites⟩
  simp only [mapM_ok] at h ⊢
  induction h with
  | nil => exact ⟨[], .nil, fun _ => rfl⟩
  | cons he _ ih =>
    obtain ⟨os, hos, hwrites⟩ := emittedAt_of_leavesAt he
    obtain ⟨oss, hoss, hrest⟩ := ih
    refine ⟨os :: oss, .cons hos hoss, fun found => ?_⟩
    simp only [List.flatten_cons, OrderedMap.insertAll_append, hwrites, hrest]

-- ---------------------------------------------------------------------------
-- One override
-- ---------------------------------------------------------------------------

/-- An override lays the leaves of its values over the context, if the tree then has a shape. -/
theorem override_ok : c.override values = .ok c' ↔
    ∃ byPath written, readOverrides values OrderedMap.empty = .ok byPath ∧
      leavesOf byPath = .ok written ∧ Tree.WellShaped (c.tree.merge written) ∧
      c.overlay (inMemory written) = c' := by
  have horigins (t : Tree Leaf) : (c.overlay (inMemory t)).origins =
      t.keys.foldl (fun found p => found.insert p.text ⟨none, none, p.text⟩) c.origins := by
    rw [overlay, inMemory, Layer.origins, OrderedMap.merge_ofList, OrderedMap.insertAll,
      List.foldl_map]
  simp only [override, bind_ok, pure_ok, mapError_ok, Tree.validate_ok_iff, ← horigins]
  constructor
  · rintro ⟨byPath, hread, written, hwritten, _, ⟨rfl, hshape⟩, rfl⟩
    exact ⟨byPath, written, hread, hwritten, hshape, rfl⟩
  · rintro ⟨byPath, written, hread, hwritten, hshape, rfl⟩
    exact ⟨byPath, hread, written, hwritten, _, ⟨rfl, hshape⟩, rfl⟩

theorem override_ok_of_keyed (hkeyed : values.mapM keyed = .ok entries)
    (hdistinct : (entries.map Prod.fst).Nodup) : c.override values = .ok c' ↔
      ∃ ess, entries.mapM leavesAt = .ok ess ∧
        Tree.WellShaped (c.tree.merge (OrderedMap.ofList ess.flatten)) ∧
        c.overlay (inMemory (OrderedMap.ofList ess.flatten)) = c' := by
  have hread : readOverrides values OrderedMap.empty = .ok (OrderedMap.ofList entries) :=
    readOverrides_ok.2 ⟨entries, hkeyed, rfl⟩
  simp only [override_ok, hread, leavesOf_ok, Except.ok.injEq]
  constructor
  · rintro ⟨_, _, rfl, ⟨ess, hess, rfl⟩, hshape, rfl⟩
    rw [OrderedMap.entries_ofList hdistinct] at hess
    exact ⟨ess, hess, hshape, rfl⟩
  · rintro ⟨ess, hess, hshape, rfl⟩
    refine ⟨_, _, rfl, ⟨ess, ?_, rfl⟩, hshape, rfl⟩
    rwa [OrderedMap.entries_ofList hdistinct]

/-- What an override leaves: at a path that its walk emits the last leaf emitted there, with an
origin in memory under the text of the path, and everything else as it was. -/
theorem override_writes (h : c.override values = .ok c') :
    ∃ byPath es, readOverrides values OrderedMap.empty = .ok byPath ∧
      emitted byPath.entries = .ok es ∧
      (∀ p, c'.tree.get? p = (es.reverse.lookup p).or (c.tree.get? p)) ∧
      ∀ text, c'.origins.get? text = if ∃ e ∈ es, e.1.text = text
        then some ⟨none, none, text⟩ else c.origins.get? text := by
  obtain ⟨byPath, written, hread, hwritten, -, rfl⟩ := override_ok.1 h
  obtain ⟨ess, hess, rfl⟩ := leavesOf_ok.1 hwritten
  obtain ⟨es, hes, hwrites⟩ := emitted_of_leaves hess
  have hlist : OrderedMap.ofList ess.flatten = OrderedMap.ofList es := hwrites OrderedMap.empty
  refine ⟨byPath, es, hread, hes, fun p => ?_, fun text => ?_⟩
  · rw [hlist, overlay, inMemory, OrderedMap.merge_ofList, OrderedMap.get?_insertAll_lookup]
  · have hspells : (inMemory (OrderedMap.ofList es)).spells text = true ↔
        ∃ e ∈ es, e.1.text = text := by
      simp only [Layer.spells_iff, inMemory, OrderedMap.ofList_eq_insertAll,
        OrderedMap.mem_keys_insertAll]
      simp
    rw [hlist, overlay, OrderedMap.get?_merge, Layer.get?_origins]
    simp only [hspells]
    split <;> rfl

-- ---------------------------------------------------------------------------
-- Two overrides
-- ---------------------------------------------------------------------------

theorem override_override {before after : List (Path × Graph)} (hc : c.tree.keys ≠ [])
    (hfirst : first.mapM keyed = .ok before) (hsecond : second.mapM keyed = .ok after)
    (hdistinct : ((before ++ after).map Prod.fst).Nodup) :
    (do (← c.override first).override second) = .ok c' ↔
      c.override (first ++ second) = .ok c' := by
  have hboth : (first ++ second).mapM keyed = .ok (before ++ after) :=
    mapM_append_ok.2 ⟨before, after, hfirst, hsecond, rfl⟩
  obtain ⟨hbefore, hafter, -⟩ := List.nodup_append.1 (List.map_append ▸ hdistinct)
  simp only [bind_ok, override_ok_of_keyed hfirst hbefore, override_ok_of_keyed hsecond hafter,
    override_ok_of_keyed hboth hdistinct, mapM_append_ok]
  constructor
  · rintro ⟨_, ⟨ess, hess, -, rfl⟩, fss, hfss, hshape, rfl⟩
    refine ⟨_, ⟨ess, fss, hess, hfss, rfl⟩, ?_, ?_⟩
    · rw [List.flatten_append, OrderedMap.ofList_append, ← OrderedMap.merge_assoc]
      exact hshape
    · rw [List.flatten_append, OrderedMap.ofList_append, overlay_inMemory]
  · rintro ⟨_, ⟨ess, fss, hess, hfss, rfl⟩, hshape, rfl⟩
    rw [List.flatten_append, OrderedMap.ofList_append] at hshape ⊢
    -- the tree in between has fewer paths, so it has a shape if the last one has
    have hbetween : Tree.WellShaped (c.tree.merge (OrderedMap.ofList ess.flatten)) := by
      rw [← OrderedMap.merge_assoc] at hshape
      refine hshape.mono ?_ fun p hp => OrderedMap.mem_keys_merge.2 (.inr hp)
      obtain ⟨p, hp⟩ := List.exists_mem_of_ne_nil _ hc
      exact List.ne_nil_of_mem (OrderedMap.mem_keys_merge.2 (.inr hp))
    refine ⟨_, ⟨ess, hess, hbetween, rfl⟩, fss, hfss, ?_, overlay_inMemory ..⟩
    rwa [overlay, OrderedMap.merge_assoc]

/-- Overriding twice comes to overriding once with all the values, where no two keys spell one
path: the one succeeds exactly if the other does, with the same context, down to the order of its
entries. An override that succeeds leaves at each path that a walk over its values emits the last
leaf emitted there, and the origin under the text of that path is then in memory. Other leaves and
other origins stay. The values are walked in the order of their keys, except that a key that spells
the path of an earlier one replaces that one's value before the walk. -/
theorem override_append (hc : c.tree.validate source = .ok c.tree)
    (hread : (first ++ second).mapM (fun e => Path.read e.1) = .ok paths)
    (hdistinct : paths.Nodup) :
    (∀ c', (do (← c.override first).override second) = .ok c' ↔
      c.override (first ++ second) = .ok c') ∧
    ∀ (d d' : Context) (values : List (Text × Graph)), d.override values = .ok d' →
      ∃ byPath es, readOverrides values OrderedMap.empty = .ok byPath ∧
        emitted byPath.entries = .ok es ∧
        (∀ p, d'.tree.get? p = (es.reverse.lookup p).or (d.tree.get? p)) ∧
        (∀ text, d'.origins.get? text = if ∃ e ∈ es, e.1.text = text
          then some ⟨none, none, text⟩ else d.origins.get? text) ∧
        ∀ paths, values.mapM (fun e => Path.read e.1) = .ok paths → paths.Nodup →
          byPath.entries = paths.zip (values.map Prod.snd) := by
  refine ⟨fun c' => ?_, fun d d' values hd => ?_⟩
  · obtain ⟨hkeyed, hfst⟩ := keyed_of_paths hread
    obtain ⟨before, after, hbefore, hafter, hboth⟩ := mapM_append_ok.1 hkeyed
    refine override_override (Tree.validate_ok_iff.1 hc).2.nonempty hbefore hafter ?_
    rwa [hboth, hfst]
  · obtain ⟨byPath, es, hbyPath, hes, htree, horigins⟩ := override_writes hd
    refine ⟨byPath, es, hbyPath, hes, htree, horigins, fun paths hpaths hnodup => ?_⟩
    obtain ⟨hkeyed, hfst⟩ := keyed_of_paths hpaths
    obtain ⟨entries, hentries, rfl⟩ := readOverrides_ok.1 hbyPath
    cases hkeyed.symm.trans hentries
    exact OrderedMap.entries_ofList (by rwa [hfst])

def served : Context := ofLayer ⟨none, OrderedMap.ofList
  [(⟨[.key "db", .key "port"]⟩, .int 1), (⟨[.key "debug"]⟩, .bool false)], some "d/config.json"⟩

def databaseValue : Graph where
  containers := #[.map [(.str "port", .scalar (.leaf (.int 2))), (.str "host", .scalar (.str "x"))]]
  root := .container 0

/-- A mapping over a branch, and then a leaf inside the branch and a new one. -/
theorem override_append_overlapping :
    let first : List (Text × Graph) := [("db", databaseValue)]
    let second : List (Text × Graph) := [("db.port", ⟨#[], .scalar (.leaf (.int 3))⟩),
      ("mode", ⟨#[], .scalar (.str "dev")⟩)]
    let paths : List Path := [⟨[.key "db"]⟩, ⟨[.key "db", .key "port"]⟩, ⟨[.key "mode"]⟩]
    served.tree.validate none = .ok served.tree ∧
      (first ++ second).mapM (fun e => Path.read e.1) = .ok paths ∧ paths.Nodup ∧
      ∃ c', (do (← served.override first).override second) = .ok c' ∧
        c'.tree.entries = [(⟨[.key "db", .key "port"]⟩, .int 3), (⟨[.key "debug"]⟩, .bool false),
          (⟨[.key "db", .key "host"]⟩, .str "x"), (⟨[.key "mode"]⟩, .str "dev")] ∧
        c'.origins.get? "db.port" = some ⟨none, none, "db.port"⟩ ∧
        c'.origins.get? "debug" = some ⟨none, some "d/config.json", "debug"⟩ := by
  intro first second paths
  have hvalid : Tree.validate served.tree none = .ok served.tree := by decide +kernel
  have hread : (first ++ second).mapM (fun e => Path.read e.1) = .ok paths := by decide +kernel
  have hdistinct : paths.Nodup := by decide +kernel
  have honce : ((served.override (first ++ second)).map fun d => (d.tree.entries,
      d.origins.get? "db.port", d.origins.get? "debug")) = .ok (
        [(⟨[.key "db", .key "port"]⟩, .int 3), (⟨[.key "debug"]⟩, .bool false),
          (⟨[.key "db", .key "host"]⟩, .str "x"), (⟨[.key "mode"]⟩, .str "dev")],
        some ⟨none, none, "db.port"⟩, some ⟨none, some "d/config.json", "debug"⟩) := by
    decide +kernel
  obtain ⟨c', hc', hresult⟩ := map_ok.1 honce
  simp only [Prod.mk.injEq] at hresult
  have htwice := ((override_append hvalid hread hdistinct).1 c').2 hc'
  exact ⟨hvalid, hread, hdistinct, c', htwice, hresult⟩

end Context

end LayeredConfig
