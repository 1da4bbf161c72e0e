import LayeredConfig.Proofs.Context.Compatible
import LayeredConfig.Proofs.Load.Directory
import Mathlib.Data.List.Perm.Basic

/-!
# Profiles in another order

`load_reordered`: the order in which profiles are requested decides only which file wins. In any
order a directory loads the same files, and it loads from all orders or from none. The paths are the
same, and so is the leaf of each path that a single file stores.
-/

namespace LayeredConfig

open Run

namespace Loader

variable {l : Loader} {first second : List String} {directory : String} {files : List ConfigFile}
  {file : ConfigFile} {layers : List Layer} {layer : Layer} {j k : Journal}

def requesting (l : Loader) (profiles : List String) : Loader :=
  { l with options := l.options.withProfiles profiles }

/-- No variable stands in for the profiles of the options. -/
def OwnProfiles (l : Loader) : Prop :=
  l.options.profileVariable = "" ∨ l.environment.value? l.options.profileVariable = none

-- ---------------------------------------------------------------------------
-- The same files
-- ---------------------------------------------------------------------------

theorem activeProfiles_requesting (h : l.OwnProfiles) (profiles : List String) :
    activeProfiles (l.requesting profiles).options l.environment = keepFirst profiles := by
  have hrequested : requestedProfiles (l.requesting profiles).options l.environment = profiles := by
    rcases h with h | h <;> simp [requestedProfiles, requesting, Options.withProfiles, h]
  rw [activeProfiles, hrequested]

theorem wanted_perm (h : l.OwnProfiles) (hperm : first.Perm second) :
    (Discovery.wanted (l.requesting first).options l.environment).Perm
      (Discovery.wanted (l.requesting second).options l.environment) := by
  unfold Discovery.wanted
  rw [activeProfiles_requesting h, activeProfiles_requesting h]
  exact ((keepFirst_perm hperm).map _).cons _

theorem outcome_discover (profiles : List String) (j : Journal) :
    (((l.requesting profiles).discover directory).start j).1 = (do
      let listing ← l.fileSystem.list directory
      let found ← (Discovery.assign l.options.baseName (Grammar.extensionsOf l.grammars)
        OrderedMap.empty (Discovery.sorted listing)).mapError Failure.config
      return Discovery.pick found
        (Discovery.wanted (l.requesting profiles).options l.environment)) := by
  refine (outcome_bind (fun _ => Discovery.select_steady _ _ _ _ _) j j).trans ?_
  congr 1
  funext listing
  exact Discovery.outcome_select directory listing _ _ _ j

theorem discover_perm (h : l.OwnProfiles) (hperm : first.Perm second)
    (hfiles : (((l.requesting first).discover directory).start j).1 = .ok files) :
    ∃ others, (((l.requesting second).discover directory).start k).1 = .ok others ∧
      files.Perm others := by
  rw [outcome_discover] at hfiles ⊢
  obtain ⟨listing, hlisting, hfiles⟩ := bind_ok.1 hfiles
  obtain ⟨found, hfound, hfiles⟩ := bind_ok.1 hfiles
  cases pure_ok.1 hfiles
  refine ⟨_, bind_ok.2 ⟨listing, hlisting, bind_ok.2 ⟨found, hfound, rfl⟩⟩, ?_⟩
  exact (wanted_perm h hperm).filterMap _

-- ---------------------------------------------------------------------------
-- The same layers
-- ---------------------------------------------------------------------------

theorem layer_requesting (profiles : List String) :
    (l.requesting profiles).layer j = l.layer k := by
  funext file
  have hread : (((l.requesting profiles).readLayer file.path).start j).1 =
      ((l.readLayer file.path).start k).1 :=
    l.readLayer_steady file.path j k
  rw [layer, hread]
  rfl

theorem finish_ok_iff {c : Context} : ((finish directory layers).start j).1 = .ok c ↔
    (Context.ofLayers layers).tree.WellShaped ∧ c = Context.ofLayers layers := by
  rw [outcome_finish, combine, ← Context.ofLayers_eq]
  simp only [bind_ok, mapError_ok, Tree.validate_ok_iff, pure_ok]
  constructor
  · rintro ⟨-, ⟨-, hshaped⟩, rfl⟩
    exact ⟨hshaped, rfl⟩
  · rintro ⟨hshaped, rfl⟩
    exact ⟨_, ⟨rfl, hshaped⟩, rfl⟩

/-- How a directory loads: from these files, whose layers lie over each other as one document. -/
structure LoadsFrom (l : Loader) (directory : String) (j : Journal) (files : List ConfigFile)
    (layers : List Layer) : Prop where
  discovered : ((l.discover directory).start j).1 = .ok files
  read : files.mapM (l.layer j) = .ok layers
  shaped : (Context.ofLayers layers).tree.WellShaped

theorem loadDirectory_ok_iff {c : Context} :
    ((l.loadDirectory directory).start j).1 = .ok c ↔
      ∃ files layers, l.LoadsFrom directory j files layers ∧ c = Context.ofLayers layers := by
  rw [loadDirectory_eq,
    outcome_bind (fun files => (l.readLayers_steady files).bind fun _ => finish_steady _) j j,
    bind_ok]
  simp only [outcome_bind finish_steady j j, outcome_readLayers_mapM, bind_ok, finish_ok_iff]
  constructor
  · rintro ⟨files, hfiles, layers, hlayers, hshaped, rfl⟩
    exact ⟨files, layers, ⟨hfiles, hlayers, hshaped⟩, rfl⟩
  · rintro ⟨files, layers, h, rfl⟩
    exact ⟨files, h.discovered, layers, h.read, h.shaped, rfl⟩

theorem mem_keys_perm {others : List Layer} (hperm : layers.Perm others) (p : Path) :
    p ∈ (Context.ofLayers layers).tree.keys ↔ p ∈ (Context.ofLayers others).tree.keys := by
  simp only [Context.mem_keys_ofLayers, List.mem_map, hperm.mem_iff]

theorem LoadsFrom.reordered (hown : l.OwnProfiles) (hperm : first.Perm second)
    (h : (l.requesting first).LoadsFrom directory j files layers) (k : Journal) :
    ∃ others layers', (l.requesting second).LoadsFrom directory k others layers' ∧
      files.Perm others ∧ layers.Perm layers' := by
  obtain ⟨others, hothers, hfiles⟩ := discover_perm (k := k) hown hperm h.discovered
  have hlayers := h.read
  rw [layer_requesting (k := k)] at hlayers
  obtain ⟨layers', hlayers', hsame⟩ := mapM_perm hfiles hlayers
  refine ⟨others, layers', ⟨hothers, ?_, h.shaped.congr (mem_keys_perm hsame)⟩, hfiles, hsame⟩
  rwa [layer_requesting (k := k)]

theorem loadDirectory_reordered (hown : l.OwnProfiles) (hperm : first.Perm second)
    (h : ∃ c, (((l.requesting first).loadDirectory directory).start j).1 = .ok c) (k : Journal) :
    ∃ d, (((l.requesting second).loadDirectory directory).start k).1 = .ok d := by
  obtain ⟨c, hc⟩ := h
  obtain ⟨files, layers, hfrom, -⟩ := loadDirectory_ok_iff.1 hc
  obtain ⟨others, layers', hfrom', -, -⟩ := hfrom.reordered hown hperm k
  exact ⟨_, loadDirectory_ok_iff.2 ⟨others, layers', hfrom', rfl⟩⟩

-- ---------------------------------------------------------------------------
-- Paths of a single file
-- ---------------------------------------------------------------------------

/-- The file, read by itself, stores a leaf at the path. -/
def Stores (l : Loader) (file : ConfigFile) (p : Path) : Prop :=
  ∃ tree, (l.readLayer file.path).Returns tree ∧ p ∈ tree.keys

variable {p : Path} {tree : Tree Leaf}

theorem layer_ok (h : l.layer j file = .ok layer) :
    ((l.readLayer file.path).start j).1 = .ok layer.tree := by
  obtain ⟨tree, htree, h⟩ := bind_ok.1 h
  cases pure_ok.1 h
  exact htree

theorem stores_of_layer (h : l.layer j file = .ok layer) (hp : layer.stores p = true) :
    l.Stores file p :=
  ⟨layer.tree, ⟨j, layer_ok h⟩, OrderedMap.contains_iff.1 hp⟩

theorem get?_ofLayers_of_alone (hlayers : files.mapM (l.layer j) = .ok layers)
    (hfile : file ∈ files) (hp : l.Stores file p)
    (halone : ∀ other ∈ files, l.Stores other p → other = file)
    (htree : ((l.readLayer file.path).start j).1 = .ok tree) :
    (Context.ofLayers layers).tree.get? p = tree.get? p := by
  have hall := mapM_ok.1 hlayers
  obtain ⟨layer, hmem, hlayer⟩ := forall₂_mem_right hall.flip hfile
  have hstores : layer.stores p = true := by
    obtain ⟨u, ⟨k, hu⟩, hp⟩ := hp
    rw [l.readLayer_steady file.path k j, layer_ok hlayer] at hu
    cases hu
    exact OrderedMap.contains_iff.2 hp
  rw [Context.get?_ofLayers]
  cases hlast : Context.lastStoring layers p with
  | none =>
    exact absurd hstores (List.find?_eq_none.1 hlast layer (List.mem_reverse.2 hmem))
  | some last =>
    -- the last layer with the path can only be that of the file
    obtain ⟨other, hother, hlayer'⟩ :=
      forall₂_mem_right hall (List.mem_reverse.1 (List.mem_of_find?_eq_some hlast))
    have hlastStores : last.stores p = true :=
      List.find?_some (p := fun m : Layer => m.stores p) hlast
    cases halone other hother (stores_of_layer hlayer' hlastStores)
    cases (layer_ok hlayer').symm.trans htree
    rfl

end Loader

/-- Where no variable replaces them, the requested profiles may come in any order. A directory loads
with one order of them exactly if it does with another. Then the same files were loaded, the same
paths are stored, and a path that exactly one of the files stores has the same leaf both times. -/
theorem load_reordered {l : Loader} {first second : List String} (hperm : first.Perm second)
    (hown : l.OwnProfiles) {directory : String} {source : Source}
    (hopens : l.Opens directory source) (j k : Journal) :
    let one := (((l.requesting first).load source).start j).1
    let other := (((l.requesting second).load source).start k).1
    ((∃ c, one = .ok c) ↔ ∃ d, other = .ok d) ∧
    ∀ c d, one = .ok c → other = .ok d →
      (∀ p, p ∈ c.tree.keys ↔ p ∈ d.tree.keys) ∧
      ∃ files others, (((l.requesting first).discover directory).start j).1 = .ok files ∧
        (((l.requesting second).discover directory).start k).1 = .ok others ∧
        files.Perm others ∧
        ∀ p, (∃! file, file ∈ files ∧ l.Stores file p) → c.tree.get? p = d.tree.get? p := by
  intro one other
  have hone : one = (((l.requesting first).loadDirectory directory).start j).1 :=
    Loader.outcome_load_opens (l := l.requesting first) hopens j
  have hother : other = (((l.requesting second).loadDirectory directory).start k).1 :=
    Loader.outcome_load_opens (l := l.requesting second) hopens k
  rw [hone, hother]
  refine ⟨⟨fun hc => Loader.loadDirectory_reordered hown hperm hc k,
    fun hd => Loader.loadDirectory_reordered hown hperm.symm hd j⟩, fun c d hc hd => ?_⟩
  obtain ⟨files, layers, hfrom, rfl⟩ := Loader.loadDirectory_ok_iff.1 hc
  obtain ⟨others, layers', hfrom', hfiles, hlayers⟩ := hfrom.reordered hown hperm k
  cases hd.symm.trans (Loader.loadDirectory_ok_iff.2 ⟨others, layers', hfrom', rfl⟩)
  refine ⟨Loader.mem_keys_perm hlayers, files, others, hfrom.discovered, hfrom'.discovered,
    hfiles, ?_⟩
  rintro p ⟨file, ⟨hfile, hp⟩, halone⟩
  obtain ⟨tree, ⟨i, htree⟩, -⟩ := id hp
  rw [l.readLayer_steady file.path i j] at htree
  have hread := hfrom.read
  have hread' := hfrom'.read
  rw [Loader.layer_requesting (k := j)] at hread hread'
  have hfirst := Loader.get?_ofLayers_of_alone hread hfile hp
    (fun other ho hs => halone other ⟨ho, hs⟩) htree
  have hsecond := Loader.get?_ofLayers_of_alone hread' (hfiles.mem_iff.1 hfile) hp
    (fun other ho hs => halone other ⟨hfiles.mem_iff.2 ho, hs⟩) htree
  exact hfirst.trans hsecond.symm

def rivalOverlays : FileSystem where
  isDirectory path := path = "d"
  isFile path := path = "d/config-dev.toml" || path = "d/config-eu.toml"
  read path :=
    ⟨.ok (if path = "d/config-dev.toml" then "a = 1\nb = 1\n" else "a = 2\nc = 2\n"), []⟩
  list _ := .ok ["d/config-dev.toml", "d/config-eu.toml"]

/-- Both overlays load, the second over the first, and so they do the other way round. -/
theorem load_reordered_overlays :
    let l : Loader := { fileSystem := rivalOverlays, environment := .empty }
    ["dev", "eu"].Perm ["eu", "dev"] ∧ l.OwnProfiles ∧ l.Opens "d" (.path "d") ∧
      (∃ c, (((l.requesting ["dev", "eu"]).load (.path "d")).start {}).1 = .ok c ∧
        c.tree.get? ⟨[.key "a"]⟩ = some (.int 2)) ∧
      ∃ d, (((l.requesting ["eu", "dev"]).load (.path "d")).start {}).1 = .ok d := by
  intro l
  have hperm : ["dev", "eu"].Perm ["eu", "dev"] := List.Perm.swap "eu" "dev" []
  have hopens : l.Opens "d" (.path "d") := ⟨rfl, rfl⟩
  let dev : ConfigFile := ⟨"d/config-dev.toml", .profile "dev"⟩
  let eu : ConfigFile := ⟨"d/config-eu.toml", .profile "eu"⟩
  have hsorted : Discovery.sorted [dev.path, eu.path] = [dev.path, eu.path] :=
    List.mergeSort_of_pairwise (by decide +kernel)
  have hdiscovered : (((l.requesting ["dev", "eu"]).discover "d").start {}).1 = .ok [dev, eu] := by
    rw [Loader.outcome_discover]
    change (do
      let found ← (Discovery.assign l.options.baseName (Grammar.extensionsOf l.grammars)
        OrderedMap.empty (Discovery.sorted [dev.path, eu.path])).mapError Failure.config
      return Discovery.pick found
        (Discovery.wanted (l.requesting ["dev", "eu"]).options l.environment)) = _
    rw [hsorted]
    decide +kernel
  let ab : Tree Leaf := .ofList [(⟨[.key "a"]⟩, .int 1), (⟨[.key "b"]⟩, .int 1)]
  let ac : Tree Leaf := .ofList [(⟨[.key "a"]⟩, .int 2), (⟨[.key "c"]⟩, .int 2)]
  have hdev : ((l.readLayer dev.path).start {}).1 = .ok ab := by decide +kernel
  have heu : ((l.readLayer eu.path).start {}).1 = .ok ac := by decide +kernel
  have hread : [dev, eu].mapM (l.layer {}) =
      .ok [⟨some "dev", ab, some dev.path⟩, ⟨some "eu", ac, some eu.path⟩] := by
    refine mapM_ok.2 (.cons ?_ (.cons ?_ .nil))
    · rw [Loader.layer, hdev]
      rfl
    · rw [Loader.layer, heu]
      rfl
  have hshaped : (Context.ofLayers [⟨some "dev", ab, some dev.path⟩,
      ⟨some "eu", ac, some eu.path⟩]).tree.WellShaped := by
    refine Tree.shapeFault?_eq_none_iff.1 ?_
    decide +kernel
  rw [← Loader.layer_requesting (l := l) (j := {}) ["dev", "eu"]] at hread
  have hone := Loader.loadDirectory_ok_iff.2 ⟨_, _, ⟨hdiscovered, hread, hshaped⟩, rfl⟩
  have hopens' : (l.requesting ["dev", "eu"]).Opens "d" (.path "d") := ⟨rfl, rfl⟩
  rw [← Loader.outcome_load_opens hopens'] at hone
  refine ⟨hperm, .inr rfl, hopens, ⟨_, hone, by decide +kernel⟩, ?_⟩
  exact (load_reordered hperm (.inr rfl) hopens {} {}).1.1 ⟨_, hone⟩

end LayeredConfig
