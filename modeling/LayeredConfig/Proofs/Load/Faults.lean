import LayeredConfig.FileSystem.Disk
import LayeredConfig.Proofs.Load.Directory
import LayeredConfig.Proofs.Toml.Faults
import LayeredConfig.Proofs.Yaml.Faults

/-!
# Faults of loads

`load_faults`: every stage of a load but the reading of values turns what goes wrong into an error
of the library. So a fault that leaves a load was raised by the reader of a grammar, on a text that
the source supplies; which faults a reader raises is known for each grammar. The only other ones
come from looking at what is in a directory that has been listed.
-/

namespace LayeredConfig

-- ---------------------------------------------------------------------------
-- Runs
-- ---------------------------------------------------------------------------

namespace Run

variable {α β : Type} {Q : Fault → Prop} {x : Run α}

/-- Every failure of the run is an error of the library, or one of these faults. -/
def Within (Q : Fault → Prop) (x : Run α) : Prop :=
  ∀ j, FailsOnly (Failure.Within Q) (x.start j).1

theorem within_pure {a : α} : (pure a : Run α).Within Q := fun _ => failsOnly_ok

theorem within_throw {e : ConfigError} : (throw (.config e) : Run α).Within Q :=
  fun _ => failsOnly_error.2 trivial

theorem within_ofExcept {r : Except Failure α} (h : FailsOnly (Failure.Within Q) r) :
    (ofExcept r).Within Q :=
  fun _ => h

theorem within_report {level : Level} {message stage : String} {path : Option String}
    {more : List (String × Document)} : (report level message stage path more).Within Q :=
  fun _ => failsOnly_ok

theorem Within.imp {Q' : Fault → Prop} (h : x.Within Q) (hQ : ∀ f, Q f → Q' f) : x.Within Q' :=
  fun j => (h j).imp fun _ he => he.imp hQ

theorem Within.bind_of {f : α → Run β} (hx : x.Within Q) (hf : ∀ a, x.Returns a → (f a).Within Q) :
    (x >>= f).Within Q := by
  intro j
  have hj := hx j
  rw [start_bind]
  cases hr : x.start j with
  | mk r k =>
    rw [hr] at hj
    cases r with
    | error e => exact failsOnly_error.2 (failsOnly_error.1 hj)
    | ok a => exact hf a ⟨j, by rw [hr]⟩ k

theorem Within.bind {f : α → Run β} (hx : x.Within Q) (hf : ∀ a, (f a).Within Q) :
    (x >>= f).Within Q :=
  hx.bind_of fun a _ => hf a

theorem Within.tryCatch {handle : Failure → Run α} (hx : x.Within Q)
    (hh : ∀ e, Failure.Within Q e → (handle e).Within Q) : (tryCatch x handle).Within Q := by
  intro j
  have hj := hx j
  rw [start_tryCatch]
  cases hr : x.start j with
  | mk r k =>
    rw [hr] at hj
    cases r with
    | ok a => exact failsOnly_ok
    | error e => exact hh e (failsOnly_error.1 hj) k

theorem Within.observed (hx : x.Within Q) (hs : x.Steady) :
    x.Within fun f => Q f ∧ (x.start {}).1 = .error (.fault f) := by
  intro j e he
  cases e with
  | config e => trivial
  | fault f => exact ⟨hx j _ he, hs j {} ▸ he⟩

end Run

open Run

-- ---------------------------------------------------------------------------
-- Grammars
-- ---------------------------------------------------------------------------

namespace Grammar

def Raises : Grammar → Fault → Prop
  | .json => Json.Raises
  | .toml => Toml.Raises
  | .yaml => Yaml.Raises

theorem read_failsOnly (g : Grammar) (text : String) :
    FailsOnly (Refusal.Within g.Raises) (g.read text) := by
  cases g with
  | json => exact (Json.read_failsOnly text).map _
  | toml => exact (Toml.read_failsOnly text).map _
  | yaml => exact (Yaml.read_failsOnly text).map _

theorem tree_failsOnly {g : Grammar} {text : String} {tree : Except Failure (Tree Leaf)}
    (h : g.read text = .ok tree) : FailsOnly (Failure.Within g.Raises) tree := by
  have htooLong (s : Scalar) := s.writes_integerTooLong
  cases g with
  | json =>
    obtain ⟨d, hd, rfl⟩ := map_ok.1 h
    refine (Document.flatten_failsOnly (Json.read_short hd)).imp fun e he => ?_
    exact he.within.imp fun _ => False.elim
  | toml =>
    obtain ⟨d, -, rfl⟩ := map_ok.1 h
    refine (Document.flatten_failsOnly (Document.all_of_forall htooLong d)).imp fun e he => ?_
    exact he.within.imp fun f hf => .inr hf
  | yaml =>
    obtain ⟨graph, -, rfl⟩ := map_ok.1 h
    refine (Graph.flatten_failsOnly htooLong graph).imp fun e he => ?_
    exact he.within.imp fun f hf => hf ▸ trivial

theorem fail_within {α : Type} {g : Grammar} {r : Refusal} (h : r.Within g.Raises) :
    (g.fail r : Run α).Within g.Raises := by
  cases r with
  | malformed location message => exact within_report.bind fun _ => within_throw
  | duplicateKey key =>
    refine (within_ofExcept (FailsOnly.fault h)).bind fun shown => ?_
    exact within_report.bind fun _ => within_throw
  | fault f => exact fun _ => failsOnly_error.2 h

theorem parse_within (g : Grammar) (text : String) : (g.parse text).Within g.Raises := by
  unfold parse
  split
  · exact within_pure
  · split
    · rename_i hr
      exact fail_within (g.read_failsOnly text _ hr)
    · rename_i hr
      refine (within_ofExcept (tree_failsOnly hr)).bind fun tree => ?_
      exact within_report.bind fun _ => within_pure

end Grammar

-- ---------------------------------------------------------------------------
-- Disks
-- ---------------------------------------------------------------------------

namespace Disk

variable {d : Disk} {path : String} {paths listing : List String} {f : Fault}

theorem read_failsOnly (d : Disk) (encoding : Encoding)
    (h : ∃ place, d.look path = .ok (some place)) {Q : Fault → Prop} :
    FailsOnly (Failure.Within Q) (d.read encoding path).outcome := by
  obtain ⟨place, hlook⟩ := h
  have hnul : FilePath.hasNul path = false := by
    cases hnul : FilePath.hasNul path with
    | false => rfl
    | true => simp [look, hnul] at hlook
  unfold read
  rw [hlook, hnul]
  split
  · rename_i he
    cases he
  · exact failsOnly_error.2 trivial
  · rw [if_neg Bool.false_ne_true]
    split
    · rename_i trouble _
      cases trouble <;> exact failsOnly_error.2 trivial
    · exact failsOnly_error.2 trivial
    · unfold Reading.ofBytes
      split
      · exact failsOnly_error.2 trivial
      · exact failsOnly_ok
    · exact failsOnly_error.2 trivial
    · exact failsOnly_error.2 trivial
    · exact failsOnly_error.2 trivial

theorem exists_place_of_isFile (h : d.isFile path = true) :
    ∃ place, d.look path = .ok (some place) := by
  unfold isFile at h
  split at h
  · exact ⟨_, ‹_›⟩
  · cases h

theorem exists_place_of_pickFiles (h : d.pickFiles paths = .ok listing) :
    ∀ path ∈ listing, ∃ place, d.look path = .ok (some place) := by
  induction paths generalizing listing with
  | nil =>
    cases h
    exact nofun
  | cons first rest ih =>
    obtain ⟨place, hlook, h⟩ := bind_ok.1 h
    split at h
    · obtain ⟨others, hothers, h⟩ := bind_ok.1 h
      cases pure_ok.1 h
      exact List.forall_mem_cons.2 ⟨⟨_, hlook⟩, ih hothers⟩
    · exact ih h

theorem exists_place_of_list (h : d.list path = .ok listing) :
    ∀ file ∈ listing, ∃ place, d.look file = .ok (some place) := by
  unfold list at h
  split at h
  · cases h
  · split at h
    · cases h
    · split at h
      case h_5 => exact exists_place_of_pickFiles (mapError_ok.1 h)
      all_goals cases h

/-- Something in the directory at the path raises the fault when it is looked at. -/
def RaisesIn (d : Disk) (path : String) (f : Fault) : Prop :=
  ∃ parts, d.find (FilePath.read path) = .ok (.directory parts) ∧
    ∃ entry ∈ d.entryPaths path parts, d.look entry = .error f

theorem pickFiles_failsOnly (d : Disk) (paths : List String) :
    FailsOnly (fun f => ∃ path ∈ paths, d.look path = .error f) (d.pickFiles paths) := by
  induction paths with
  | nil => exact failsOnly_ok
  | cons first rest ih =>
    have hrest : FailsOnly (fun f => ∃ path ∈ first :: rest, d.look path = .error f)
        (d.pickFiles rest) :=
      ih.imp fun f ⟨path, hpath, hlook⟩ => ⟨path, List.mem_cons_of_mem _ hpath, hlook⟩
    refine FailsOnly.bind (fun f hf => ⟨first, List.mem_cons_self, hf⟩) fun place => ?_
    split
    · exact hrest.bind fun _ => failsOnly_pure
    · exact hrest

theorem list_failsOnly (h : d.isDirectory path = true) :
    FailsOnly (Failure.Within (d.RaisesIn path)) (d.list path) := by
  have hnul : FilePath.hasNul path = false := by
    cases hnul : FilePath.hasNul path with
    | false => rfl
    | true => simp [isDirectory, look, hnul] at h
  unfold list
  rw [hnul]
  split
  · exact failsOnly_error.2 trivial
  · rw [if_neg Bool.false_ne_true]
    split
    case h_5 parts hparts =>
      exact failsOnly_mapError.2 fun f hf => ⟨parts, hparts, d.pickFiles_failsOnly _ f hf⟩
    all_goals exact failsOnly_error.2 trivial

end Disk

theorem FileSystem.fetch_returns {fs : FileSystem} {path content : String} :
    (fs.fetch path).Returns content ↔ (fs.read path).outcome = .ok content := by
  refine ⟨fun h => ?_, fun h => ⟨{}, h⟩⟩
  obtain ⟨_, -, h⟩ := h.bind
  exact returns_ofExcept.1 h

namespace Loader

variable {l : Loader} {source : Source} {content path : String} {d : Disk} {encoding : Encoding}

-- ---------------------------------------------------------------------------
-- Texts
-- ---------------------------------------------------------------------------

/-- A source as it is written. -/
def sourceText : Source → String
  | .text content => content
  | .path path => path

/-- The files that loading a source may read: the one that it names, and those that are listed in
the directory that it names. -/
def Reaches (l : Loader) (source : Source) (path : String) : Prop :=
  path = sourceText source ∨
    ∃ listing, l.fileSystem.list (sourceText source) = .ok listing ∧ path ∈ listing

/-- The texts that a source supplies: itself, or what the files hold that it leads to. -/
def Supplies (l : Loader) (source : Source) (content : String) : Prop :=
  source = .text content ∨
    ∃ path, l.Reaches source path ∧ (l.fileSystem.read path).outcome = .ok content

/-- A reader raises the fault on a text that the source supplies, once its placeholders are
resolved. -/
def RaisedByReader (l : Loader) (source : Source) (f : Fault) : Prop :=
  ∃ g ∈ l.grammars, g.Raises f ∧ ∃ content text, l.Supplies source content ∧
    (Placeholder.resolve content l.options l.environment).Returns text ∧
      ((g.parse text).start {}).1 = .error (.fault f)

theorem detect_within {Q : Fault → Prop} (options : Options) (asked : List Grammar)
    (content : String) (path : Option String) :
    (Format.detect options asked content path).Within Q := by
  unfold Format.detect
  split
  · exact within_pure
  · exact within_report.bind fun _ => within_pure

theorem resolve_within {Q : Fault → Prop} (text : String) (options : Options)
    (environment : Environment) : (Placeholder.resolve text options environment).Within Q := by
  unfold Placeholder.resolve
  split
  · exact within_pure
  · split
    · split
      · exact within_report.bind fun _ => within_pure
      · exact within_pure
    · split
      · exact within_report.bind fun _ => within_throw
      · exact within_throw

theorem readText_within (h : l.Supplies source content) (path : Option String) :
    (l.readText content path).Within (l.RaisedByReader source) := by
  refine (detect_within _ _ _ _).bind fun format => ?_
  refine (resolve_within _ _ _).bind_of fun text htext => ?_
  unfold parse
  split
  · exact within_throw
  · rename_i g
    split
    · rename_i hg
      refine ((g.parse_within text).observed (g.parse_steady text)).imp fun f hf => ?_
      exact ⟨g, List.contains_iff_mem.1 hg, hf.1, content, text, h, htext, hf.2⟩
    · exact within_throw

theorem readDocument_within (h : l.Supplies source content) (path : Option String) :
    (l.readDocument content path).Within (l.RaisedByReader source) := by
  refine (readText_within h path).bind fun tree => within_ofExcept (failsOnly_config _)

theorem hinted_within {Q : Fault → Prop} {e : Failure} (h : e.Within Q) :
    (l.hinted content e).Within Q := by
  unfold hinted
  split
  · split <;> trivial
  · exact h

-- ---------------------------------------------------------------------------
-- Files
-- ---------------------------------------------------------------------------

theorem fetch_within {Q : Fault → Prop} {fs : FileSystem}
    (h : FailsOnly (Failure.Within Q) (fs.read path).outcome) : (fs.fetch path).Within Q :=
  Within.bind (fun _ => failsOnly_ok) fun _ => within_ofExcept h

theorem select_within {Q : Fault → Prop} {directory : String} {listing extensions : List String}
    {options : Options} {environment : Environment} :
    (Discovery.select directory listing options environment extensions).Within Q := by
  refine (within_ofExcept (failsOnly_config _)).bind fun _ => ?_
  exact within_report.bind fun _ => within_pure

def AtFault (l : Loader) (d : Disk) (source : Source) (f : Fault) : Prop :=
  l.RaisedByReader source f ∨ d.RaisesIn (sourceText source) f

theorem readLayer_within (hl : l.fileSystem = d.fileSystem encoding) (hp : l.Reaches source path)
    (hplace : ∃ place, d.look path = .ok (some place)) :
    (l.readLayer path).Within (l.AtFault d source) := by
  have hread :
      FailsOnly (Failure.Within (l.AtFault d source)) (l.fileSystem.read path).outcome := by
    rw [hl]
    exact d.read_failsOnly encoding hplace
  refine (fetch_within hread).bind_of fun content hcontent => ?_
  refine (readDocument_within ?_ _).imp fun f => .inl
  exact .inr ⟨path, hp, FileSystem.fetch_returns.1 hcontent⟩

theorem loadFile_within (hl : l.fileSystem = d.fileSystem encoding)
    (hfile : l.fileSystem.isFile (sourceText source) = true) :
    (l.loadFile (sourceText source)).Within (l.AtFault d source) := by
  rw [hl] at hfile
  refine (readLayer_within hl (.inl rfl) (Disk.exists_place_of_isFile hfile)).bind fun tree => ?_
  exact within_report.bind fun _ => within_pure

theorem readLayers_within {files : List ConfigFile}
    (h : ∀ file ∈ files, (l.readLayer file.path).Within (l.AtFault d source)) :
    (l.readLayers files).Within (l.AtFault d source) := by
  induction files with
  | nil => exact within_pure
  | cons file rest ih =>
    refine (h file List.mem_cons_self).bind fun tree => within_report.bind fun _ => ?_
    exact (ih fun f hf => h f (List.mem_cons_of_mem _ hf)).bind fun _ => within_pure

theorem finish_within {Q : Fault → Prop} (directory : String) (layers : List Layer) :
    (finish directory layers).Within Q := by
  refine (within_ofExcept (failsOnly_config _)).bind fun _ => ?_
  exact within_report.bind fun _ => within_report.bind fun _ => within_pure

theorem loadDirectory_within (hl : l.fileSystem = d.fileSystem encoding)
    (hdirectory : l.fileSystem.isDirectory (sourceText source) = true) :
    (l.loadDirectory (sourceText source)).Within (l.AtFault d source) := by
  rw [loadDirectory_eq]
  have hdiscover : (l.discover (sourceText source)).Within (l.AtFault d source) := by
    rw [hl] at hdirectory
    refine (within_ofExcept ?_).bind fun listing => select_within
    rw [hl]
    exact (Disk.list_failsOnly hdirectory).imp fun _ he => he.imp fun _ => .inr
  refine hdiscover.bind_of fun files hfiles => ?_
  obtain ⟨listing, hlist, hmem⟩ := discover_ok hfiles
  refine Within.bind (readLayers_within fun file hfile => ?_) (finish_within _)
  refine readLayer_within hl (.inr ⟨listing, hlist, hmem file hfile⟩) ?_
  rw [hl] at hlist
  exact Disk.exists_place_of_list hlist _ (hmem file hfile)

theorem loadContent_within (content : String) :
    (l.loadContent content).Within (l.AtFault d (.text content)) := by
  have hread : (l.readDocument content none).Within (l.AtFault d (.text content)) :=
    (readDocument_within (.inl rfl) none).imp fun _ => .inl
  refine (hread.tryCatch fun e he => ?_).bind fun tree => ?_
  · exact fun _ => failsOnly_error.2 (hinted_within he)
  · exact within_report.bind fun _ => within_pure

theorem load_within (hl : l.fileSystem = d.fileSystem encoding) (source : Source) :
    (l.load source).Within (l.AtFault d source) := by
  refine Within.bind (fun _ => failsOnly_ok) fun _ => ?_
  cases source with
  | path path =>
    simp only
    split
    · exact loadDirectory_within hl ‹_›
    · split
      · exact loadFile_within hl ‹_›
      · exact within_throw
  | text content =>
    simp only
    split
    · exact within_throw
    · split
      · rename_i h
        exact loadDirectory_within hl (Bool.and_eq_true_iff.1 h).2
      · split
        · rename_i h
          exact loadFile_within hl (Bool.and_eq_true_iff.1 h).2
        · exact loadContent_within content

end Loader

/-- A load from a disk ends with an error of the library, or with a fault that the reader of a
grammar raises on a text that the source supplies, after its placeholders are resolved, or with one
of looking at what is in the directory that the source names. -/
theorem load_faults {l : Loader} {d : Disk} {encoding : Encoding}
    (hl : l.fileSystem = d.fileSystem encoding) {source : Source} {j : Journal} {e : Failure}
    (h : ((l.load source).start j).1 = .error e) :
    (∃ error, e = .config error) ∨
      ∃ f, e = .fault f ∧
        (l.RaisedByReader source f ∨ d.RaisesIn (Loader.sourceText source) f) := by
  have he : e.Within (l.AtFault d source) := Loader.load_within hl source j e h
  cases e with
  | config error => exact .inl ⟨error, rfl⟩
  | fault f => exact .inr ⟨f, rfl, he⟩

theorem load_faults_month :
    textLoader.RaisedByReader (.text "a: 2024-13-01\n") .monthOutOfRange := by
  have hkeys : ((Context.ofText "a: 2024-13-01\n").map Context.keys) =
      .error (.fault .monthOutOfRange) := by
    decide +kernel
  rcases load_faults rfl (map_error.1 hkeys) with ⟨_, herror⟩ | ⟨f, hf, hreader | ⟨_, hfind, -⟩⟩
  · cases herror
  · cases hf
    exact hreader
  · have hnone : (Disk.find { workingDirectory := [] }
        (FilePath.read "a: 2024-13-01\n")).toOption.isSome = false := by
      decide +kernel
    rw [Loader.sourceText] at hfind
    rw [hfind] at hnone
    cases hnone

/-- Texts whose values are at fault: a date, a tag and an escape. -/
theorem load_faults_uncaught :
    ((Context.ofText "a: 2024-13-01\n").map Context.keys) = .error (.fault .monthOutOfRange) ∧
    ((Context.ofText "a: !!bool x\n").map Context.keys) = .error (.fault .unknownTruth) ∧
    ((Context.ofText "a: \"\\U00110000\"\n").map Context.keys) =
      .error (.fault .codeOutOfRange) := by
  decide +kernel

/-- A directory that may be listed but not entered, with a file in it. -/
def shutDirectory : Disk where
  workingDirectory := []
  files := .singleton ["d", "config.json"] []
  obstacles := .singleton "d/config.json" .denied

/-- A file that may not be looked at ends the load with no error of the library either. -/
theorem load_faults_shut :
    (({ textLoader with
        fileSystem := shutDirectory.fileSystem .utf8 }.load (.path "d")).start {}).1 =
      .error (.fault .notPermitted) := by
  have hnames : shutDirectory.entryNames ["d"] = ["config.json"] :=
    List.mergeSort_of_pairwise (by decide +kernel)
  have hpaths : shutDirectory.entryPaths "d" ["d"] = ["d/config.json"] := by
    rw [Disk.entryPaths, hnames]
    decide +kernel
  have hpick : shutDirectory.pickFiles ["d/config.json"] = .error .notPermitted := by
    decide +kernel
  have hlist : shutDirectory.list "d" = .error (.fault .notPermitted) := by
    have htrouble : shutDirectory.troubleAt? "d" = none := by decide +kernel
    have hfind : shutDirectory.find (FilePath.read "d") = .ok (.directory ["d"]) := rfl
    have hnul : FilePath.hasNul "d" = false := by decide +kernel
    rw [Disk.list, htrouble, hnul, hfind]
    simp only [Bool.false_eq_true, if_false, hpaths, hpick]
    rfl
  have hdirectory : (shutDirectory.fileSystem .utf8).isDirectory "d" = true := by decide +kernel
  rw [Loader.outcome_load, Loader.unboundLoad]
  simp only [hdirectory, if_true]
  have hlisted : (shutDirectory.fileSystem .utf8).list "d" = .error (.fault .notPermitted) := hlist
  rw [Loader.loadDirectory, hlisted]
  rfl

end LayeredConfig
