import LayeredConfig.Proofs.OrderedMap
import LayeredConfig.Proofs.Outcome
import LayeredConfig.Proofs.Tree.Shape
import LayeredConfig.Tree.Flatten
import LayeredConfig.Yaml.Value
import Mathlib.Algebra.GroupWithZero.Nat
import Mathlib.Data.List.Nodup

/-!
# Occurrences of scalars

The walk over a graph writes every occurrence of a scalar at the path that leads to it, a shared
container once in each of its places. A path that two occurrences have in common keeps the later
one only, which takes two keys with the same text in one mapping.
-/

namespace LayeredConfig

namespace OrderedMap

variable {κ α : Type} [DecidableEq κ]

theorem size_insert (m : OrderedMap κ α) (k : κ) (v : α) :
    (m.insert k v).size = if k ∈ m.keys then m.size else m.size + 1 := by
  have h := congrArg List.length (keys_insert m k v)
  rw [keys, List.length_map] at h
  rw [size, h]
  split <;> simp [size, keys]

theorem size_insertAll (m : OrderedMap κ α) (entries : List (κ × α)) :
    (m.insertAll entries).size ≤ m.size + entries.length ∧
      ((m.insertAll entries).size = m.size + entries.length ↔
        (m.keys ++ entries.map Prod.fst).Nodup) := by
  induction entries generalizing m with
  | nil => exact ⟨Nat.le_refl _, by simpa [keys] using m.distinct⟩
  | cons e rest ih =>
    obtain ⟨hle, hiff⟩ := ih (m.insert e.1 e.2)
    have hsize := size_insert m e.1 e.2
    rw [insertAll_cons, List.map_cons, List.length_cons]
    by_cases he : e.1 ∈ m.keys
    · rw [if_pos he] at hsize
      refine ⟨by omega, iff_of_false (by omega) fun hnd => ?_⟩
      exact (List.nodup_append.1 hnd).2.2 _ he _ List.mem_cons_self rfl
    · rw [if_neg he] at hsize
      rw [keys_insert, if_neg he, List.append_assoc, List.singleton_append] at hiff
      refine ⟨by omega, ?_⟩
      rw [← hiff]
      constructor <;> intro h <;> omega

end OrderedMap

namespace Graph

/-- The values of a container with the paths that lead to them when the container is at `path`. -/
def Container.children (path : Path) : Container → Except Failure (List (Path × Value))
  | .list items | .tuple items => .ok (items.zipIdx.map fun (v, n) => (path.index n, v))
  | .map fields => fields.mapM fun (key, v) => do return (← Document.fieldPath path key, v)

def Container.values : Container → List Value
  | .list items | .tuple items => items
  | .map fields => fields.map Prod.snd

/-- No two keys of the mapping have the same text. -/
def Container.DistinctTexts : Container → Prop
  | .map fields => (fields.map fun f => f.1.keyText).Nodup
  | _ => True

instance (c : Container) : Decidable c.DistinctTexts :=
  match c with
  | .map fields => inferInstanceAs (Decidable (fields.map fun f => f.1.keyText).Nodup)
  | .list _ | .tuple _ => inferInstanceAs (Decidable True)

/-- How many scalars stand at or inside a value. `fuel` bounds the containers inside each other. -/
def scalarCountFrom (g : Graph) : (fuel : Nat) → Value → Nat
  | _, .scalar _ => 1
  | 0, .container _ => 0
  | fuel + 1, .container n => ((g.container n).values.map (g.scalarCountFrom fuel)).sum

/-- How many scalars the graph holds as values, a shared container counted in each of its places. -/
def scalarCount (g : Graph) : Nat :=
  g.scalarCountFrom (g.containers.size + 1) g.root

/-- The scalars at or inside the value at `path`, in the order of the walk, as leaves with their
paths. -/
def occurrencesFrom (g : Graph) :
    (fuel : Nat) → Path → Value → Except Failure (List (Path × Leaf))
  | _, path, .scalar s => do return [(path, ← s.toLeaf path)]
  | 0, _, .container _ => .ok []
  | fuel + 1, path, .container n => do
    let found ← (← (g.container n).children path).mapM fun c => g.occurrencesFrom fuel c.1 c.2
    return found.flatten

def occurrences (g : Graph) : Except Failure (List (Path × Leaf)) :=
  g.occurrencesFrom (g.containers.size + 1) Path.root g.root

variable {g : Graph} {fuel n : Nat} {path : Path} {v : Value} {es : List (Path × Leaf)}

theorem occurrencesFrom_scalar {s : Scalar} :
    g.occurrencesFrom fuel path (.scalar s) = .ok es ↔
      ∃ w, s.toLeaf path = .ok w ∧ [(path, w)] = es := by
  cases fuel <;> simp only [occurrencesFrom, bind_ok, pure_ok]

theorem occurrencesFrom_container :
    g.occurrencesFrom (fuel + 1) path (.container n) = .ok es ↔
      ∃ cs, (g.container n).children path = .ok cs ∧
        ∃ ess, List.Forall₂ (fun c es => g.occurrencesFrom fuel c.1 c.2 = .ok es) cs ess ∧
          ess.flatten = es := by
  simp only [occurrencesFrom, bind_ok, pure_ok, mapM_ok]

/-- What holds of the leaf of a scalar, and of a container's occurrences when it holds of those of
its values, holds of all occurrences. -/
theorem occurrencesFrom_induction {P : Nat → Path → Value → List (Path × Leaf) → Prop}
    (scalar : ∀ fuel path s w, s.toLeaf path = .ok w → P fuel path (.scalar s) [(path, w)])
    (none : ∀ path n, P 0 path (.container n) [])
    (container : ∀ fuel path n cs ess, (g.container n).children path = .ok cs →
      List.Forall₂ (fun c es => g.occurrencesFrom fuel c.1 c.2 = .ok es ∧ P fuel c.1 c.2 es)
        cs ess →
      P (fuel + 1) path (.container n) ess.flatten)
    (h : g.occurrencesFrom fuel path v = .ok es) : P fuel path v es := by
  induction fuel generalizing path v es with
  | zero =>
    cases v with
    | scalar s =>
      obtain ⟨w, hw, rfl⟩ := occurrencesFrom_scalar.1 h
      exact scalar 0 path s w hw
    | container n =>
      cases h
      exact none path n
  | succ fuel ih =>
    cases v with
    | scalar s =>
      obtain ⟨w, hw, rfl⟩ := occurrencesFrom_scalar.1 h
      exact scalar (fuel + 1) path s w hw
    | container n =>
      obtain ⟨cs, hcs, ess, hess, rfl⟩ := occurrencesFrom_container.1 h
      exact container fuel path n cs ess hcs (hess.imp fun _ _ h => ⟨h, ih h⟩)

-- ---------------------------------------------------------------------------
-- The children of a container
-- ---------------------------------------------------------------------------

variable {c : Container} {cs : List (Path × Value)}

theorem fieldPath_ok {key : Scalar} {p : Path} :
    Document.fieldPath path key = .ok p ↔ ∃ name, key.keyText = .ok name ∧ path.key name = p := by
  simp only [Document.fieldPath, bind_ok, mapError_ok, pure_ok]

theorem Container.children_map {fields : List (Scalar × Value)} :
    (Container.map fields).children path = .ok cs ↔
      List.Forall₂ (fun f c => ∃ name, f.1.keyText = .ok name ∧ (path.key name, f.2) = c)
        fields cs := by
  simp only [children, mapM_ok, bind_ok, pure_ok, fieldPath_ok]
  constructor
  all_goals refine fun h => h.imp ?_
  · rintro f c ⟨_, ⟨name, hname, rfl⟩, rfl⟩
    exact ⟨name, hname, rfl⟩
  · rintro f c ⟨name, hname, rfl⟩
    exact ⟨_, ⟨name, hname, rfl⟩, rfl⟩

theorem Container.values_of_children (h : c.children path = .ok cs) :
    cs.map Prod.snd = c.values := by
  cases c with
  | map fields =>
    induction children_map.1 h with
    | nil => rfl
    | cons hc hrest ih =>
      obtain ⟨name, -, rfl⟩ := hc
      rw [List.map_cons, ih (children_map.2 hrest)]
      rfl
  | list items | tuple items =>
    cases h
    rw [List.map_map]
    exact List.zipIdx_map_fst 0 items

theorem Container.push_of_children (h : c.children path = .ok cs) :
    ∀ d ∈ cs, ∃ s, d.1 = path.push s := by
  cases c with
  | map fields =>
    induction children_map.1 h with
    | nil => nofun
    | cons hc hrest ih =>
      obtain ⟨name, -, rfl⟩ := hc
      exact List.forall_mem_cons.2 ⟨⟨.key name, rfl⟩, ih (children_map.2 hrest)⟩
  | list items | tuple items =>
    cases h
    intro d hd
    obtain ⟨⟨v, n⟩, -, rfl⟩ := List.mem_map.1 hd
    exact ⟨.index n, rfl⟩

theorem push_injective (path : Path) : Function.Injective path.push := by
  intro s t h
  simpa using congrArg Path.segments h

theorem Container.nodup_children (hd : c.DistinctTexts) (h : c.children path = .ok cs) :
    (cs.map Prod.fst).Nodup := by
  cases c with
  | map fields =>
    obtain ⟨names, hnames, hpaths⟩ : ∃ names : List Text,
        fields.map (·.1.keyText) = names.map Except.ok ∧ cs.map Prod.fst = names.map path.key := by
      induction children_map.1 h with
      | nil => exact ⟨[], rfl, rfl⟩
      | cons hc hrest ih =>
        obtain ⟨name, hname, rfl⟩ := hc
        obtain ⟨names, hnames, hpaths⟩ := ih (List.nodup_cons.1 hd).2 (children_map.2 hrest)
        refine ⟨name :: names, ?_, ?_⟩
        · rw [List.map_cons, hname, hnames, List.map_cons]
        · rw [List.map_cons, hpaths, List.map_cons]
    have hnd : names.Nodup := by
      refine List.Nodup.of_map (Except.ok (ε := Fault)) ?_
      rw [← hnames]
      exact hd
    rw [hpaths]
    refine hnd.map fun a b hab => ?_
    simpa using push_injective path hab
  | list items | tuple items =>
    cases h
    have hnd : (items.zipIdx.map Prod.snd).Nodup := by
      rw [List.zipIdx_map_snd]
      exact List.nodup_range'
    have hmap : (items.zipIdx.map fun (v, n) => (path.index n, v)).map Prod.fst =
        (items.zipIdx.map Prod.snd).map path.index := by
      rw [List.map_map, List.map_map]
      rfl
    rw [hmap]
    refine hnd.map fun a b hab => ?_
    simpa using push_injective path hab

-- ---------------------------------------------------------------------------
-- The walk as a list of writes
-- ---------------------------------------------------------------------------

theorem foldlM_writes {α : Type} {step : Tree Leaf → α → Except Failure (Tree Leaf)}
    {written : α → Except Failure (List (Path × Leaf))}
    (hstep : ∀ a found t, step found a = .ok t →
      ∃ es, written a = .ok es ∧ t = found.insertAll es)
    {l : List α} {found t : Tree Leaf} (h : l.foldlM step found = .ok t) :
    ∃ ess, List.Forall₂ (fun a es => written a = .ok es) l ess ∧
      t = found.insertAll ess.flatten := by
  induction l generalizing found with
  | nil => exact ⟨[], .nil, (pure_ok.1 h).symm⟩
  | cons a l ih =>
    rw [List.foldlM_cons] at h
    obtain ⟨u, hu, h⟩ := bind_ok.1 h
    obtain ⟨es, hes, rfl⟩ := hstep a found u hu
    obtain ⟨ess, hess, rfl⟩ := ih h
    refine ⟨es :: ess, .cons hes hess, ?_⟩
    simp only [OrderedMap.insertAll, List.flatten_cons, List.foldl_append]

variable {ancestors : List Nat} {found t : Tree Leaf}

theorem flattenFrom_scalar {s : Scalar} :
    g.flattenFrom fuel ancestors path found (.scalar s) = .ok t ↔
      ∃ w, s.toLeaf path = .ok w ∧ found.insert path w = t := by
  cases fuel <;> simp only [flattenFrom, bind_ok, pure_ok]

theorem flattenFrom_container
    (h : g.flattenFrom (fuel + 1) ancestors path found (.container n) = .ok t) :
    ∃ cs, (g.container n).children path = .ok cs ∧
      cs.foldlM (fun found c => g.flattenFrom fuel (n :: ancestors) c.1 found c.2) found =
        .ok t := by
  simp only [flattenFrom] at h
  split at h
  · cases h
  · cases hc : g.container n <;> simp only [hc] at h
    case map fields =>
      refine foldlM_prepared (l := fields) ?_
      simpa only [bind_assoc, pure_bind] using h
    all_goals
      refine ⟨_, rfl, ?_⟩
      rw [List.foldlM_map]
      exact h

theorem flattenFrom_writes (h : g.flattenFrom fuel ancestors path found v = .ok t) :
    ∃ es, g.occurrencesFrom fuel path v = .ok es ∧ t = found.insertAll es := by
  induction fuel generalizing ancestors path found t v with
  | zero =>
    cases v with
    | scalar s =>
      obtain ⟨w, hw, rfl⟩ := flattenFrom_scalar.1 h
      exact ⟨[(path, w)], occurrencesFrom_scalar.2 ⟨w, hw, rfl⟩, rfl⟩
    | container n => simp [flattenFrom] at h
  | succ fuel ih =>
    cases v with
    | scalar s =>
      obtain ⟨w, hw, rfl⟩ := flattenFrom_scalar.1 h
      exact ⟨[(path, w)], occurrencesFrom_scalar.2 ⟨w, hw, rfl⟩, rfl⟩
    | container n =>
      obtain ⟨cs, hcs, h⟩ := flattenFrom_container h
      obtain ⟨ess, hess, rfl⟩ := foldlM_writes (fun c found t h => ih h) h
      exact ⟨ess.flatten, occurrencesFrom_container.2 ⟨cs, hcs, ess, hess, rfl⟩, rfl⟩

-- ---------------------------------------------------------------------------
-- How many, and where
-- ---------------------------------------------------------------------------

theorem length_occurrencesFrom (h : g.occurrencesFrom fuel path v = .ok es) :
    es.length = g.scalarCountFrom fuel v := by
  refine occurrencesFrom_induction (P := fun fuel _ v es => es.length = g.scalarCountFrom fuel v)
    ?scalar ?none ?container h
  case scalar =>
    intro fuel path s w _
    cases fuel <;> rfl
  case none => exact fun _ _ => rfl
  case container =>
    intro fuel path n cs ess hcs hess
    rw [scalarCountFrom, ← Container.values_of_children hcs, List.map_map, List.length_flatten]
    refine congrArg List.sum ?_
    clear hcs
    induction hess with
    | nil => rfl
    | cons hc _ ih => rw [List.map_cons, hc.2, ih, List.map_cons, Function.comp_apply]

theorem prefix_of_mem_occurrencesFrom (h : g.occurrencesFrom fuel path v = .ok es) :
    ∀ e ∈ es, path.segments <+: e.1.segments := by
  refine occurrencesFrom_induction
    (P := fun _ path _ es => ∀ e ∈ es, path.segments <+: e.1.segments) ?scalar ?none ?container h
  case scalar =>
    intro fuel path s w _ e he
    cases List.mem_singleton.1 he
    exact List.prefix_refl _
  case none => exact fun _ _ => nofun
  case container =>
    intro fuel path n cs ess hcs hess e he
    obtain ⟨es, hes, he⟩ := List.mem_flatten.1 he
    obtain ⟨c, hc, -, hpre⟩ := forall₂_mem_right hess hes
    obtain ⟨s, hs⟩ := Container.push_of_children hcs c hc
    have hpre := hpre e he
    rw [hs, Path.push_segments] at hpre
    exact (List.prefix_append _ _).trans hpre

theorem nodup_flatten_of_children {ess : List (List (Path × Leaf))}
    (hpush : ∀ d ∈ cs, ∃ s, d.1 = path.push s) (hdistinct : (cs.map Prod.fst).Nodup)
    (hess : List.Forall₂ (fun c es => (es.map Prod.fst).Nodup ∧
      ∀ e ∈ es, c.1.segments <+: e.1.segments) cs ess) :
    (ess.flatten.map Prod.fst).Nodup := by
  induction hess with
  | nil => exact List.nodup_nil
  | @cons c es cs ess hc hess ih =>
    obtain ⟨hc', hcs⟩ := List.nodup_cons.1 hdistinct
    obtain ⟨hpushc, hpush⟩ := List.forall_mem_cons.1 hpush
    rw [List.flatten_cons, List.map_append]
    refine List.nodup_append.2 ⟨hc.1, ih hpush hcs, ?_⟩
    rintro _ hp _ hq heq
    obtain ⟨e, he, rfl⟩ := List.mem_map.1 hp
    obtain ⟨f, hf, hef⟩ := List.mem_map.1 hq
    obtain ⟨fs, hfs, hf⟩ := List.mem_flatten.1 hf
    obtain ⟨d, hd, -, hpre⟩ := forall₂_mem_right hess hfs
    obtain ⟨s, hs⟩ := hpushc
    obtain ⟨s', hs'⟩ := hpush d hd
    have hlength : c.1.segments.length = d.1.segments.length := by simp [hs, hs']
    have hcd := List.prefix_of_prefix_length_le (hc.2 e he) (heq ▸ hef ▸ hpre f hf)
      (Nat.le_of_eq hlength)
    refine hc' (List.mem_map.2 ⟨d, hd, ?_⟩)
    exact Path.ext_segments (hcd.eq_of_length hlength).symm

theorem nodup_occurrencesFrom (hd : ∀ n, (g.container n).DistinctTexts)
    (h : g.occurrencesFrom fuel path v = .ok es) : (es.map Prod.fst).Nodup := by
  refine occurrencesFrom_induction (P := fun _ _ _ es => (es.map Prod.fst).Nodup)
    ?scalar ?none ?container h
  case scalar => exact fun _ _ _ _ _ => List.nodup_singleton _
  case none => exact fun _ _ => List.nodup_nil
  case container =>
    intro fuel path n cs ess hcs hess
    refine nodup_flatten_of_children (Container.push_of_children hcs)
      (Container.nodup_children (hd n) hcs) ?_
    exact hess.imp fun c es h => ⟨h.2, prefix_of_mem_occurrencesFrom h.1⟩

/-- Every scalar that the graph holds is written once. The tree has one leaf less for each write to
a path written before, and as many leaves as there are scalars exactly if no path occurs twice. -/
theorem flatten_scalars (h : g.flatten = .ok t) :
    ∃ es, g.occurrences = .ok es ∧ es.length = g.scalarCount ∧ t = OrderedMap.ofList es ∧
      t.size ≤ g.scalarCount ∧ (t.size = g.scalarCount ↔ (es.map Prod.fst).Nodup) ∧
      ((∀ c ∈ g.containers, c.DistinctTexts) → t.size = g.scalarCount) := by
  obtain ⟨es, hes, rfl⟩ := flattenFrom_writes h
  have hlength : es.length = g.scalarCount := length_occurrencesFrom hes
  obtain ⟨hle, hiff⟩ := OrderedMap.size_insertAll OrderedMap.empty es
  rw [OrderedMap.keys_empty, List.nil_append, hlength] at hiff
  have hempty : (OrderedMap.empty : Tree Leaf).size = 0 := rfl
  rw [hempty, Nat.zero_add] at hle hiff
  refine ⟨es, hes, hlength, rfl, hlength ▸ hle, hiff, fun hd => hiff.2 ?_⟩
  refine nodup_occurrencesFrom (fun n => ?_) hes
  rw [container, Array.getD]
  split
  · exact hd _ (Array.getElem_mem _)
  · trivial

def sharedList : Graph where
  containers := #[
    .map [(.str "a", .container 1), (.str "b", .container 1)],
    .list [.scalar (.str "x"), .scalar (.leaf (.int 1))]]
  root := .container 0

theorem flatten_scalars_shared :
    ∃ t, sharedList.flatten = .ok t ∧ sharedList.scalarCount = 4 ∧ t.size = 4 := by
  have hflatten : (sharedList.flatten.map fun t => t.size) = .ok 4 := by decide +kernel
  obtain ⟨t, ht, hsize⟩ := map_ok.1 hflatten
  obtain ⟨-, -, -, -, -, -, hall⟩ := flatten_scalars ht
  have hcount : t.size = sharedList.scalarCount := hall (by decide +kernel)
  exact ⟨t, ht, hcount ▸ hsize, hsize⟩

/-- Two keys of one mapping that differ and have the same text. -/
theorem flatten_scalars_lost :
    (Scalar.leaf (.int 1)).same (.str "1") = false ∧
      ((Yaml.read "1: a\n\"1\": b\n").map fun g =>
        (g.scalarCount, (g.flatten.map fun t => t.entries))) =
          .ok (2, .ok [(⟨[.key "1"]⟩, .str "b")]) := by
  decide +kernel

end Graph

end LayeredConfig
