import LayeredConfig.FileSystem.Disk
import LayeredConfig.Proofs.Journal
import LayeredConfig.Proofs.Load.Directory

/-!
# What a load reports

`load_events`: the records of a load tell what became of it. It is reported as loaded if and only
if it returns, at the very end and with the numbers of its leaves and layers; and the files of a
directory are listed as they are read, up to the first that fails.
-/

namespace LayeredConfig

open Run

-- ---------------------------------------------------------------------------
-- Events of a stage
-- ---------------------------------------------------------------------------

/-- An event of a stage, before a layer or the whole load is done. -/
structure Event.Interim (e : Event) : Prop where
  untraced : e.fields.get? "trace_id" = none
  notLoaded : e.message ≠ "configuration_loaded"
  notLayer : e.message ≠ "layer_loaded"

def FileSystem.Interim (fs : FileSystem) : Prop := ∀ path, ∀ e ∈ (fs.read path).events, e.Interim

section

variable {level : Level} {message stage key : String} {path : Option String}
  {fields : List (String × Document)} {value : Document}

theorem untraced_event (h : "trace_id" ∉ fields.map Prod.fst) :
    (Fields.event stage path (OrderedMap.ofList fields)).get? "trace_id" = none := by
  have hfields : (OrderedMap.ofList fields).get? "trace_id" = none := by
    rw [OrderedMap.get?_eq_none_iff, OrderedMap.ofList_eq_insertAll, OrderedMap.mem_keys_insertAll]
    simpa using h
  rw [Fields.get?_event, hfields]
  rfl

theorem interim_event (hmessage : message ∉ ["configuration_loaded", "layer_loaded"])
    (h : "trace_id" ∉ fields.map Prod.fst) :
    Event.Interim ⟨level, message, Fields.event stage path (OrderedMap.ofList fields)⟩ := by
  simp only [List.mem_cons, List.not_mem_nil, or_false, not_or] at hmessage
  exact ⟨untraced_event h, hmessage.1, hmessage.2⟩

theorem interim_detail (hmessage : message ∉ ["configuration_loaded", "layer_loaded"])
    (hkey : "trace_id" ≠ key) :
    Event.Interim ⟨level, message, Fields.event stage path (OrderedMap.singleton key value)⟩ := by
  have hsingle : OrderedMap.singleton key value = OrderedMap.ofList [(key, value)] := rfl
  rw [hsingle]
  exact interim_event hmessage (by simpa using hkey)

theorem interim_report (hmessage : message ∉ ["configuration_loaded", "layer_loaded"])
    (h : "trace_id" ∉ fields.map Prod.fst) :
    (report level message stage path fields).WritesOnly Event.Interim :=
  .report (interim_event hmessage h)

end

-- ---------------------------------------------------------------------------
-- Stages
-- ---------------------------------------------------------------------------

theorem Reading.unreadable_interim (path problem reason : String) :
    ∀ e ∈ (Reading.unreadable path problem reason).events, e.Interim :=
  List.forall_mem_singleton.2 (interim_detail (by decide) (by decide))

theorem Disk.fileSystem_interim (d : Disk) (encoding : Encoding) :
    (d.fileSystem encoding).Interim := by
  intro path
  change ∀ e ∈ (d.read encoding path).events, e.Interim
  unfold Disk.read
  split
  · exact nofun
  · exact nofun
  · split
    · exact nofun
    · split
      · rename_i trouble _
        cases trouble with
        | denied => exact nofun
        | vanished => exact nofun
        | directory => exact nofun
        | device => exact Reading.unreadable_interim _ _ _
        | other text => exact Reading.unreadable_interim _ _ _
      · exact nofun
      · unfold Reading.ofBytes
        split
        · exact Reading.unreadable_interim _ _ _
        · exact List.forall_mem_singleton.2 (interim_detail (by decide) (by decide))
      · exact nofun
      · exact Reading.unreadable_interim _ _ _
      · exact Reading.unreadable_interim _ _ _

theorem Format.detect_interim (options : Options) (asked : List Grammar) (content : String)
    (path : Option String) :
    (Format.detect options asked content path).WritesOnly Event.Interim := by
  unfold Format.detect
  split
  · exact .pure _
  · exact (interim_report (by decide) (by simp)).bind fun _ => .pure _

theorem Placeholder.resolve_interim (text : String) (options : Options)
    (environment : Environment) :
    (Placeholder.resolve text options environment).WritesOnly Event.Interim := by
  unfold Placeholder.resolve
  split
  · exact .pure _
  · split
    · split
      · exact (interim_report (by decide) (by simp)).bind fun _ => .pure _
      · exact .pure _
    · split
      · exact (interim_report (by decide) (by simp)).bind fun _ => .throw _
      · exact .throw _

theorem Grammar.refuse_interim {α : Type} (g : Grammar) (message : Text) (e : ConfigError) :
    (g.refuse message e : Run α).WritesOnly Event.Interim :=
  (interim_report (by decide) (by simp)).bind fun _ => .throw _

theorem Grammar.fail_interim {α : Type} (g : Grammar) (r : Refusal) :
    (g.fail r : Run α).WritesOnly Event.Interim := by
  cases r with
  | malformed location message => exact g.refuse_interim _ _
  | duplicateKey key => exact (WritesOnly.ofExcept _).bind fun _ => g.refuse_interim _ _
  | fault f => exact .throw _

theorem Grammar.parse_interim (g : Grammar) (text : String) :
    (g.parse text).WritesOnly Event.Interim := by
  unfold Grammar.parse
  split
  · exact .pure _
  · split
    · exact g.fail_interim _
    · exact (WritesOnly.ofExcept _).bind fun _ =>
        (interim_report (by decide) (by simp)).bind fun _ => .pure _

namespace Loader

variable {l : Loader} {directory : String} {source : Source} {files later : List ConfigFile}
  {es more : List Event} {r : Except Failure Context} {merged : Nat}

theorem parse_interim (format : Format) (content : String) (path : Option String) :
    (l.parse format content path).WritesOnly Event.Interim := by
  unfold parse
  split
  · exact .throw _
  · split
    · exact Grammar.parse_interim _ _
    · exact .throw _

theorem readDocument_interim (content : String) (path : Option String) :
    (l.readDocument content path).WritesOnly Event.Interim :=
  WritesOnly.bind ((Format.detect_interim _ _ _ _).bind fun _ =>
    (Placeholder.resolve_interim _ _ _).bind fun _ => parse_interim _ _ _) fun _ => .ofExcept _

theorem readLayer_interim (hfs : l.fileSystem.Interim) (path : String) :
    (l.readLayer path).WritesOnly Event.Interim :=
  (FileSystem.fetch_writesOnly (hfs path)).bind fun _ => readDocument_interim _ _

theorem discover_interim (directory : String) :
    (l.discover directory).WritesOnly Event.Interim :=
  (WritesOnly.ofExcept _).bind fun _ => (WritesOnly.ofExcept _).bind fun _ =>
    (interim_report (by decide) (by simp)).bind fun _ => .pure _

-- ---------------------------------------------------------------------------
-- Layers
-- ---------------------------------------------------------------------------

def layerPaths (es : List Event) : List (Option Document) :=
  (es.filter (·.message = "layer_loaded")).map (·.fields.get? "path")

theorem layerPaths_append (es more : List Event) :
    layerPaths (es ++ more) = layerPaths es ++ layerPaths more := by
  simp [layerPaths]

/-- Events from before the end of a load, which list these files as layers. -/
structure Lists (files : List ConfigFile) (es : List Event) : Prop where
  untraced : ∀ e ∈ es, e.fields.get? "trace_id" = none
  notLoaded : ∀ e ∈ es, e.message ≠ "configuration_loaded"
  layers : layerPaths es = files.map fun file => some (Document.str file.path)

theorem lists_of_interim (h : ∀ e ∈ es, e.Interim) : Lists [] es where
  untraced e he := (h e he).untraced
  notLoaded e he := (h e he).notLoaded
  layers := by
    have hnone : es.filter (·.message = "layer_loaded") = [] :=
      List.filter_eq_nil_iff.2 fun e he => by simpa using (h e he).notLayer
    rw [layerPaths, hnone]
    rfl

theorem lists_layer (file : ConfigFile) (leaves : Document) :
    Lists [file] [⟨.debug, "layer_loaded", Fields.event file.slot.label (some file.path)
      (OrderedMap.ofList [("leaves", leaves)])⟩] where
  untraced := List.forall_mem_singleton.2 (untraced_event (by simp))
  notLoaded := by simp
  layers := by
    simp [layerPaths, Fields.get?_event, OrderedMap.ofList, OrderedMap.get?_insert,
      Document.optional]

theorem Lists.append (h : Lists files es) (h' : Lists later more) :
    Lists (files ++ later) (es ++ more) where
  untraced := List.forall_mem_append.2 ⟨h.untraced, h'.untraced⟩
  notLoaded := List.forall_mem_append.2 ⟨h.notLoaded, h'.notLoaded⟩
  layers := by rw [layerPaths_append, h.layers, h'.layers, List.map_append]

/-- The file reads as a document. -/
def reads (l : Loader) (file : ConfigFile) : Bool :=
  ((l.readLayer file.path).start {}).1.isOk

theorem readLayers_lists (hfs : l.fileSystem.Interim) (files : List ConfigFile) :
    (l.readLayers files).Writes fun _ es => Lists (files.takeWhile l.reads) es := by
  induction files with
  | nil => exact writes_pure (lists_of_interim nofun)
  | cons file rest ih =>
    refine ((readLayer_interim hfs file.path).steady (l.readLayer_steady file.path)).bind ?_ ?_
    · rintro e es ⟨he, hes⟩
      have hreads : ¬ l.reads file = true := by
        rw [reads, ← he]
        nofun
      rw [List.takeWhile_cons_of_neg hreads]
      exact lists_of_interim hes
    · rintro tree es ⟨htree, hes⟩
      have hreads : l.reads file = true := by
        rw [reads, ← htree]
        rfl
      rw [List.takeWhile_cons_of_pos hreads]
      have hfile (more : List Event) (hmore : Lists (rest.takeWhile l.reads) more) :=
        (lists_of_interim hes).append ((lists_layer file (.int tree.size)).append hmore)
      refine writes_report_bind (ih.bind (fun _ => hfile) fun _ more hmore => writes_pure ?_)
      rw [List.append_nil]
      exact hfile more hmore

theorem reads_of_layer {j : Journal} {file : ConfigFile} {layer : Layer}
    (h : l.layer j file = .ok layer) : l.reads file = true := by
  obtain ⟨tree, htree, -⟩ := bind_ok.1 h
  rw [reads, l.readLayer_steady file.path {} j, htree]
  rfl

theorem takeWhile_reads {layers : List Layer} (h : (l.readLayers files).Returns layers) :
    files.takeWhile l.reads = files ∧ layers.length = files.length := by
  obtain ⟨j, h⟩ := h
  rw [outcome_readLayers_mapM] at h
  have hlayers := mapM_ok.1 h
  refine ⟨?_, hlayers.length_eq.symm⟩
  clear h
  induction hlayers with
  | nil => rfl
  | cons hfile _ ih => rw [List.takeWhile_cons_of_pos (reads_of_layer hfile), ih]

-- ---------------------------------------------------------------------------
-- Whole loads
-- ---------------------------------------------------------------------------

def loadedEvent (path : Option String) (c : Context) (merged : Nat) : Event :=
  ⟨.info, "configuration_loaded", Fields.event "load" path
    (OrderedMap.ofList [("leaves", .int c.tree.size), ("layers", .int merged)])⟩

/-- What the events of a load tell: the files that they list as layers, and at the end whether it
was finished, with how many files merged. -/
inductive Tells (files : List ConfigFile) (merged : Nat) :
    Except Failure Context → List Event → Prop
  | failed {e : Failure} {es : List Event} (h : Lists files es) : Tells files merged (.error e) es
  | loaded {c : Context} {es : List Event} (path : Option String) (h : Lists files es) :
    Tells files merged (.ok c) (es ++ [loadedEvent path c merged])

namespace Tells

theorem after (h : Tells later merged r more) (hes : Lists files es) :
    Tells (files ++ later) merged r (es ++ more) := by
  cases h with
  | failed h => exact .failed (hes.append h)
  | loaded path h =>
    rw [← List.append_assoc]
    exact .loaded path (hes.append h)

theorem untraced (h : Tells files merged r es) : ∀ e ∈ es, e.fields.get? "trace_id" = none := by
  cases h with
  | failed h => exact h.untraced
  | loaded path h =>
    exact List.forall_mem_append.2
      ⟨h.untraced, List.forall_mem_singleton.2 (untraced_event (by simp))⟩

theorem layers (h : Tells files merged r es) :
    layerPaths es = files.map fun file => some (Document.str file.path) := by
  cases h with
  | failed h => exact h.layers
  | loaded path h =>
    rw [layerPaths_append, h.layers]
    exact List.append_nil _

theorem loaded_iff (h : Tells files merged r es) :
    (∃ c, r = .ok c) ↔ ∃ e ∈ es, e.message = "configuration_loaded" := by
  cases h with
  | failed h => exact iff_of_false nofun fun ⟨e, he, hloaded⟩ => h.notLoaded e he hloaded
  | loaded path h =>
    exact iff_of_true ⟨_, rfl⟩ ⟨_, List.mem_append_right _ List.mem_cons_self, rfl⟩

theorem last {c : Context} (h : Tells files merged (.ok c) es) :
    ∃ before path, es = before ++ [loadedEvent path c merged] ∧
      ∀ e ∈ before, e.message ≠ "configuration_loaded" := by
  cases h with
  | loaded path h => exact ⟨_, path, rfl, h.notLoaded⟩

end Tells

theorem finish_tells (directory : String) (layers : List Layer) :
    (finish directory layers).Writes (Tells [] layers.length) := by
  refine Writes.bind (WritesOnly.ofExcept _ (P := Event.Interim)) ?_ ?_
  · exact fun e es hes => .failed (lists_of_interim hes)
  · intro _ es hes
    have hmerged : Event.Interim ⟨.info, "configuration_merged",
        Fields.event "merge" (some directory) (OrderedMap.ofList [("layers", .int layers.length),
          ("leaves", .int (Context.ofLayers layers).tree.size)])⟩ :=
      interim_event (by decide) (by simp)
    have hbefore : Lists [] (es ++ [_]) := (lists_of_interim hes).append
      (lists_of_interim (List.forall_mem_singleton.2 hmerged))
    refine writes_report_bind (writes_report_bind (writes_pure ?_))
    rw [List.append_cons]
    exact .loaded (some directory) hbefore

theorem report_tells {x : Run (Tree Leaf)} (h : x.WritesOnly Event.Interim)
    (path : Option String) :
    (do
      let tree ← x
      let c := Context.ofLayer ⟨none, tree, path⟩
      reportLoaded path c 1
      return c : Run Context).Writes (Tells [] 1) := by
  refine Writes.bind h (fun e es hes => .failed (lists_of_interim hes)) fun tree es hes => ?_
  exact writes_report_bind (writes_pure (.loaded path (lists_of_interim hes)))

theorem loadFile_tells (hfs : l.fileSystem.Interim) (path : String) :
    (l.loadFile path).Writes (Tells [] 1) :=
  report_tells (readLayer_interim hfs path) (some path)

theorem loadContent_tells (content : String) : (l.loadContent content).Writes (Tells [] 1) :=
  report_tells ((readDocument_interim content none).tryCatch fun _ => .throw _) none

theorem loadDirectory_tells (hfs : l.fileSystem.Interim)
    (hfiles : (l.discover directory).Returns files) :
    (l.loadDirectory directory).Writes (Tells (files.takeWhile l.reads) files.length) := by
  have hstart := ((discover_steady directory).returns_iff {}).1 hfiles
  rw [loadDirectory_eq]
  refine ((discover_interim directory).steady (discover_steady directory)).bind ?_ ?_
  · rintro e es ⟨he, -⟩
    cases hstart.symm.trans he.symm
  · rintro found es ⟨hfound, hes⟩
    cases hstart.symm.trans hfound.symm
    refine ((readLayers_lists hfs files).steady (l.readLayers_steady files)).bind ?_ ?_
    · rintro e more ⟨-, hmore⟩
      exact .failed ((lists_of_interim hes).append hmore)
    · rintro layers more ⟨hlayers, hmore⟩
      rw [← (takeWhile_reads ⟨{}, hlayers.symm⟩).2]
      refine (finish_tells directory layers).imp fun r last hlast => ?_
      have htells := (hlast.after hmore).after (lists_of_interim hes)
      rwa [List.nil_append, List.append_nil] at htells

theorem loadDirectory_lists_nil (hnone : ∀ files, ¬ (l.discover directory).Returns files) :
    (l.loadDirectory directory).Writes fun r es => (∃ e, r = .error e) ∧ Lists [] es := by
  rw [loadDirectory_eq]
  refine ((discover_interim directory).steady (discover_steady directory)).bind ?_ ?_
  · rintro e es ⟨-, hes⟩
    exact ⟨⟨e, rfl⟩, lists_of_interim hes⟩
  · rintro files es ⟨hfiles, -⟩
    exact absurd ⟨{}, hfiles.symm⟩ (hnone files)

theorem unboundLoad_tells (hfs : l.fileSystem.Interim)
    (h : ∀ directory, ¬ l.Opens directory source) :
    (l.unboundLoad source).Writes (Tells [] 1) := by
  have hthrow (e : Failure) : (throw e : Run Context).Writes (Tells [] 1) :=
    writes_throw (.failed (lists_of_interim nofun))
  cases source with
  | path path =>
    have hd : ¬ l.fileSystem.isDirectory path = true := fun hd => h path ⟨rfl, hd⟩
    rw [unboundLoad, if_neg hd]
    split
    · exact loadFile_tells hfs path
    · exact hthrow _
  | text content =>
    rw [unboundLoad]
    split
    · exact hthrow _
    · rename_i hb
      have hd : ¬ (mayBePath content && l.fileSystem.isDirectory content) = true := by
        rw [Bool.and_eq_true]
        exact fun hd => h content ⟨rfl, Bool.eq_false_iff.2 hb, hd⟩
      rw [if_neg hd]
      split
      · exact loadFile_tells hfs content
      · exact loadContent_tells content

end Loader

-- ---------------------------------------------------------------------------
-- Records
-- ---------------------------------------------------------------------------

def Record.layerPaths (records : List Record) : List (Option Document) :=
  (records.filter (·.event.message = "layer_loaded")).map (·.context.get? "path")

theorem Record.layerPaths_map (es : List Event) :
    Record.layerPaths (es.map (Record.mk none)) = Loader.layerPaths es := by
  simp [Record.layerPaths, Loader.layerPaths, List.filter_map, Function.comp_def,
    Record.get?_context]

theorem Record.trace_of_untraced {e : Event} (h : e.fields.get? "trace_id" = none) :
    (Record.mk none e).context.get? "trace_id" = some .null := by
  simp [Record.get?_context, h, Document.optional]

namespace Loader

variable {l : Loader} {source : Source} {files : List ConfigFile} {es : List Event}
  {r : Except Failure Context} {merged : Nat}

/-- How many files a load merges: all that are discovered in a directory, and one otherwise. -/
inductive Merges (l : Loader) (source : Source) : Nat → Prop
  | alone (h : ∀ directory, ¬ l.Opens directory source) : l.Merges source 1
  | discovered {directory : String} {files : List ConfigFile} (h : l.Opens directory source)
    (hfiles : (l.discover directory).Returns files) : l.Merges source files.length

/-- The last of the records reports the context as loaded, and no other does. -/
structure Announces (c : Context) (merged : Nat) (before : List Record) (last : Record) :
    Prop where
  loaded : last.event.message = "configuration_loaded"
  leaves : last.context.get? "leaves" = some (.int c.tree.size)
  layers : last.context.get? "layers" = some (.int merged)
  once : ∀ earlier ∈ before, earlier.event.message ≠ "configuration_loaded"

theorem announces_loadedEvent (path : Option String) (c : Context) (merged : Nat)
    {before : List Event} (h : ∀ e ∈ before, e.message ≠ "configuration_loaded") :
    Announces c merged (before.map (Record.mk none)) ⟨none, loadedEvent path c merged⟩ where
  loaded := rfl
  leaves := by
    simp [Record.get?_context, loadedEvent, Fields.get?_event, OrderedMap.ofList,
      OrderedMap.get?_insert]
  layers := by
    simp [Record.get?_context, loadedEvent, Fields.get?_event, OrderedMap.ofList,
      OrderedMap.get?_insert]
  once := List.forall_mem_map.2 h

/-- The records of a load tell the truth about it. -/
structure Recounts (l : Loader) (source : Source) (r : Except Failure Context)
    (records : List Record) : Prop where
  untraced : ∀ entry ∈ records, entry.context.get? "trace_id" = some .null
  loaded : (∃ c, r = .ok c) ↔ ∃ entry ∈ records, entry.event.message = "configuration_loaded"
  last : ∀ c, r = .ok c → ∃ before last merged,
    records = before ++ [last] ∧ Announces c merged before last ∧ l.Merges source merged
  /-- The files of a directory are listed up to the first that does not read as a document. -/
  layers : ∀ directory files, l.Opens directory source → (l.discover directory).Returns files →
    Record.layerPaths records =
      (files.takeWhile l.reads).map fun file => some (Document.str file.path)
  /-- They are all listed once the load gets past the layers. -/
  allLayers : ∀ directory files, l.Opens directory source →
    (l.discover directory).Returns files → (∃ layers, (l.readLayers files).Returns layers) →
      Record.layerPaths records = files.map fun file => some (Document.str file.path)
  noLayers : ∀ directory, l.Opens directory source →
    (∀ files, ¬ (l.discover directory).Returns files) → Record.layerPaths records = []

theorem Opens.unique {first second : String} (h : l.Opens first source)
    (h' : l.Opens second source) : first = second := by
  cases source <;> exact h.1.symm.trans h'.1

/-- Events that tell of a load recount it, if what they list is what was read of the directory. -/
theorem Tells.recounts (h : Tells files merged r es)
    (hmerges : ∀ c, r = .ok c → l.Merges source merged)
    (hfiles : ∀ directory found, l.Opens directory source →
      (l.discover directory).Returns found → files = found.takeWhile l.reads)
    (hnone : ∀ directory, l.Opens directory source →
      (∀ found, ¬ (l.discover directory).Returns found) → files = []) :
    l.Recounts source r (es.map (Record.mk none)) where
  untraced := List.forall_mem_map.2 fun e he => Record.trace_of_untraced (h.untraced e he)
  loaded := by simpa using h.loaded_iff
  last := by
    rintro c rfl
    obtain ⟨before, path, rfl, hbefore⟩ := h.last
    exact ⟨_, _, merged, List.map_append, announces_loadedEvent path c merged hbefore,
      hmerges c rfl⟩
  layers directory found hopens hfound := by
    rw [Record.layerPaths_map, h.layers, hfiles directory found hopens hfound]
  allLayers directory found hopens hfound hread := by
    obtain ⟨layers, hread⟩ := hread
    rw [Record.layerPaths_map, h.layers, hfiles directory found hopens hfound,
      (takeWhile_reads hread).1]
  noLayers directory hopens hfound := by
    rw [Record.layerPaths_map, h.layers, hnone directory hopens hfound]
    rfl

theorem unboundLoad_recounts (hfs : l.fileSystem.Interim) (source : Source) :
    (l.unboundLoad source).Writes fun r es => l.Recounts source r (es.map (Record.mk none)) := by
  by_cases hopens : ∃ directory, l.Opens directory source
  · obtain ⟨directory, hopens⟩ := hopens
    rw [unboundLoad_of_opens hopens]
    by_cases hfound : ∃ files, (l.discover directory).Returns files
    · obtain ⟨files, hfound⟩ := hfound
      refine (loadDirectory_tells hfs hfound).imp fun r es h => ?_
      refine h.recounts (fun c _ => .discovered hopens hfound) ?_ ?_
      · intro other found hother hreturns
        cases hopens.unique hother
        rw [(discover_steady directory).returns_unique hfound hreturns]
      · intro other hother hreturns
        cases hopens.unique hother
        exact absurd hfound (hreturns files)
    · refine (loadDirectory_lists_nil (not_exists.1 hfound)).imp fun r es h => ?_
      obtain ⟨⟨e, rfl⟩, hlists⟩ := h
      have htells : Tells [] 0 (.error e) es := .failed hlists
      refine htells.recounts nofun ?_ fun _ _ _ => rfl
      intro other found hother hreturns
      cases hopens.unique hother
      exact absurd ⟨found, hreturns⟩ hfound
  · have hno : ∀ directory, ¬ l.Opens directory source := not_exists.1 hopens
    refine (unboundLoad_tells hfs hno).imp fun r es h => ?_
    exact h.recounts (fun c _ => .alone hno) (fun _ _ hd => absurd hd (hno _))
      fun _ hd => absurd hd (hno _)

theorem load_recounts (hfs : l.fileSystem.Interim) (source : Source) (j : Journal) :
    ∃ records, ((l.load source).start j).2.heard .debug = j.heard .debug ++ records ∧
      l.Recounts source ((l.load source).start j).1 records := by
  have hstart : (l.load source).start j =
      (l.unboundLoad source).start { j with trace := none } := by
    rw [load_eq, start_bind]
    rfl
  obtain ⟨es, hj, hrecounts⟩ := unboundLoad_recounts hfs source { j with trace := none }
  refine ⟨es.map (Record.mk none), ?_, hstart ▸ hrecounts⟩
  rw [hstart, hj, Journal.heard_debug, Journal.heard_debug]
  rfl

end Loader

/-- Over any disk, with whatever troubles, and whatever trace was bound before: a load adds records
to what a listener hears at the lowest level, and they tell the truth about it. None has a trace.
One reports the configuration as loaded if and only if the load returns, and then it is the last
one and the only one of its kind. -/
theorem load_events (l : Loader) (d : Disk) (encoding : Encoding) (source : Source) (j : Journal) :
    let l := { l with fileSystem := d.fileSystem encoding }
    ∃ records, ((l.load source).start j).2.heard .debug = j.heard .debug ++ records ∧
      l.Recounts source ((l.load source).start j).1 records :=
  Loader.load_recounts (d.fileSystem_interim encoding) source j

example : ((textLoader.load (.text "a = 1\n")).start { trace := some "t" }).2.records.map
    (fun entry => (entry.trace, entry.event.message)) =
      [(none, "format_detected"), (none, "config_parsed"), (none, "configuration_loaded")] := by
  decide +kernel

end LayeredConfig
