import LayeredConfig.Proofs.Load.Directory

/-!
# Files that a load does not use

`load_unused`: how a directory loads is settled by its listing and by what reading the base file
and the files of the active profiles gives. What stands in any other file, or goes wrong when it is
read, has no part in it.
-/

namespace LayeredConfig

open Run

namespace Loader

variable {l : Loader} {fs : FileSystem} {directory path content : String} {source : Source}
  {files : List ConfigFile}

/-- The file is that of a slot: the only listed one whose name fills it. -/
def Fills (l : Loader) (listing : List String) (path : String) (slot : Slot) : Prop :=
  ∀ other, other ∈ listing ∧ Slot.ofFileName? l.options.baseName
    (Grammar.extensionsOf l.grammars) (FilePath.read other).name = some slot ↔ other = path

/-- The file is the base file or that of an active profile. -/
def Uses (l : Loader) (listing : List String) (path : String) : Prop :=
  ∃ slot ∈ .base :: (activeProfiles l.options l.environment).map .profile,
    l.Fills listing path slot

def mount (l : Loader) (fs : FileSystem) : Loader := { l with fileSystem := fs }

/-- Two file systems give the loader the same directory: both have it, list it alike, and agree on
how reading the base file and the files of the active profiles ends. -/
structure Agrees (l : Loader) (fs : FileSystem) (directory : String) : Prop where
  here : l.fileSystem.isDirectory directory = true
  there : fs.isDirectory directory = true
  list : fs.list directory = l.fileSystem.list directory
  read : ∀ listing, l.fileSystem.list directory = .ok listing → ∀ path, l.Uses listing path →
    (fs.read path).outcome = (l.fileSystem.read path).outcome

-- ---------------------------------------------------------------------------
-- Stages
-- ---------------------------------------------------------------------------

theorem mount_loadContent : (l.mount fs).loadContent content = l.loadContent content := rfl

theorem outcome_readLayer (l : Loader) (path : String) (j : Journal) :
    ((l.readLayer path).start j).1 =
      (do ((l.readDocument (← (l.fileSystem.read path).outcome) (some path)).start j).1) :=
  outcome_bind (fun _ => l.readDocument_steady _ _) j j

theorem outcome_mount_readLayer
    (h : (fs.read path).outcome = (l.fileSystem.read path).outcome) (j : Journal) :
    (((l.mount fs).readLayer path).start j).1 = ((l.readLayer path).start j).1 := by
  rw [outcome_readLayer, outcome_readLayer, ← h]
  rfl

theorem outcome_mount_readLayers
    (h : ∀ file ∈ files, (fs.read file.path).outcome = (l.fileSystem.read file.path).outcome)
    (j : Journal) :
    (((l.mount fs).readLayers files).start j).1 = ((l.readLayers files).start j).1 := by
  induction files with
  | nil => rfl
  | cons file rest ih =>
    obtain ⟨hfile, hrest⟩ := List.forall_mem_cons.1 h
    rw [outcome_readLayers_cons, outcome_readLayers_cons, outcome_mount_readLayer hfile, ih hrest]

theorem mount_discover (h : fs.list directory = l.fileSystem.list directory) :
    (l.mount fs).discover directory = l.discover directory := by
  unfold discover mount
  rw [h]

theorem uses_of_discover (h : (l.discover directory).Returns files) :
    ∃ listing, l.fileSystem.list directory = .ok listing ∧
      ∀ file ∈ files, l.Uses listing file.path := by
  obtain ⟨listing, hlist, h⟩ := h.bind
  refine ⟨listing, returns_ofExcept.1 hlist, fun file hfile => ?_⟩
  exact ⟨file.slot, Discovery.select_ok h file hfile⟩

theorem outcome_mount_loadDirectory (h : l.Agrees fs directory) (j : Journal) :
    (((l.mount fs).loadDirectory directory).start j).1 =
      ((l.loadDirectory directory).start j).1 := by
  have hsteady (l : Loader) (files : List ConfigFile) :
      (l.readLayers files >>= finish directory).Steady :=
    (l.readLayers_steady files).bind finish_steady
  rw [loadDirectory_eq, loadDirectory_eq, outcome_bind (hsteady _) j j,
    outcome_bind (hsteady _) j j, mount_discover h.list]
  cases hfiles : ((l.discover directory).start j).1 with
  | error e => rfl
  | ok files =>
    obtain ⟨listing, hlist, hused⟩ := uses_of_discover ⟨j, hfiles⟩
    have hread : ∀ file ∈ files,
        (fs.read file.path).outcome = (l.fileSystem.read file.path).outcome :=
      fun file hfile => h.read listing hlist file.path (hused file hfile)
    change (((l.mount fs).readLayers files >>= finish directory).start j).1 =
      ((l.readLayers files >>= finish directory).start j).1
    rw [outcome_bind finish_steady j j, outcome_bind finish_steady j j,
      outcome_mount_readLayers hread]

end Loader

-- ---------------------------------------------------------------------------
-- Whole loads
-- ---------------------------------------------------------------------------

theorem Loader.mount_load_text {l : Loader} {fs : FileSystem} {content : String}
    (h : Text.isBlankText content = true ∨ Loader.mayBePath content = false) :
    (l.mount fs).load (.text content) = l.load (.text content) := by
  unfold Loader.load
  rcases h with hb | hp
  · simp only [hb, if_true]
  · simp only [hp, Bool.false_and, Bool.false_eq_true, if_false, Loader.mount_loadContent]

/-- Over two file systems that have the directory, list it alike and agree on how reading the base
file and the files of the active profiles ends, the directory loads with the same outcome: the same
tree in the same order and the same provenance, or the same failure. It may be given as a path or
as a text, and nothing recorded before makes a difference. -/
theorem load_unused {l : Loader} {fs : FileSystem} {directory : String}
    (h : l.Agrees fs directory) {source : Source}
    (hsource : source = .path directory ∨ source = .text directory) (j k : Journal) :
    (({ l with fileSystem := fs }.load source).start j).1 = ((l.load source).start k).1 := by
  have hmount : (((l.mount fs).load source).start k).1 = ((l.load source).start k).1 := by
    have hdirectory (hopens : l.Opens directory source)
        (hopens' : (l.mount fs).Opens directory source) :
        (((l.mount fs).load source).start k).1 = ((l.load source).start k).1 := by
      rw [Loader.outcome_load_opens hopens', Loader.outcome_load_opens hopens,
        Loader.outcome_mount_loadDirectory h]
    rcases hsource with rfl | rfl
    · exact hdirectory ⟨rfl, h.here⟩ ⟨rfl, h.there⟩
    · cases hb : Text.isBlankText directory with
      | true => rw [Loader.mount_load_text (.inl hb)]
      | false =>
        cases hp : Loader.mayBePath directory with
        | false => rw [Loader.mount_load_text (.inr hp)]
        | true => exact hdirectory ⟨rfl, hb, hp, h.here⟩ ⟨rfl, hb, hp, h.there⟩
  exact ((l.mount fs).load_steady source j k).trans hmount

def oneOverlay (overlay : Except Failure String) : FileSystem where
  isDirectory path := path = "d"
  isFile path := path = "d/config.json" || path = "d/config-dev.json"
  read path := ⟨if path = "d/config.json" then .ok "\x7b\"a\": 1\x7d" else overlay, []⟩
  list _ := .ok ["d/config-dev.json", "d/config.json"]

theorem load_unused_overlay :
    let l : Loader := { fileSystem := oneOverlay (.ok "\x7b\"a\": 2\x7d"), environment := .empty }
    let refused := oneOverlay (.error (.config (.permissionDenied "d/config-dev.json")))
    l.Agrees refused "d" ∧
      (({ l with fileSystem := refused }.load (.path "d")).start {}).1 =
        ((l.load (.path "d")).start {}).1 := by
  intro l refused
  have hagrees : l.Agrees refused "d" := by
    refine ⟨rfl, rfl, rfl, ?_⟩
    rintro _ hlist path ⟨slot, hslot, hfills⟩
    cases hlist
    obtain ⟨hpath, hname⟩ := (hfills path).2 rfl
    rcases List.mem_cons.1 hpath with rfl | hpath
    · have hdev : Slot.ofFileName? "config" (Grammar.extensionsOf Grammar.all)
          (FilePath.read "d/config-dev.json").name = some (.profile "dev") := by
        decide +kernel
      cases hdev.symm.trans hname
      exact absurd hslot (by decide)
    · rw [List.mem_singleton.1 hpath]
      rfl
  exact ⟨hagrees, load_unused hagrees (.inl rfl) {} {}⟩

end LayeredConfig
