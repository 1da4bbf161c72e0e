import LayeredConfig.Proofs.Load.Literal
import LayeredConfig.Proofs.Text.Encoding

/-!
# A text and the file that holds it

`load_written`: a text of several lines and a file with its bytes load alike, if the grammar is
chosen. The stages in between are the same; only a document that turns out empty is reported with
the path of the file.
-/

namespace LayeredConfig

open Run

/-- A regular file of a disk with these bytes, which nothing keeps from being looked at or read. -/
structure Disk.HasFile (d : Disk) (path : String) (bytes : List UInt8) : Prop where
  found : d.look path = .ok (some (.file bytes))
  untroubled : d.troubleAt? path = none

theorem Disk.look_place {d : Disk} {path : String} {place : Place}
    (h : d.look path = .ok (some place)) :
    FilePath.hasNul path = false ∧ d.find (FilePath.read path) = .ok place := by
  unfold look at h
  split at h
  · cases h
  · rename_i hnul
    refine ⟨by simpa using hnul, ?_⟩
    split at h
    · cases h
    · cases h
    · cases h
    · split at h
      · cases h
        assumption
      · cases h
      · cases h

theorem Disk.HasFile.read {d : Disk} {path : String} {bytes : List UInt8}
    (h : d.HasFile path bytes) (encoding : Encoding) :
    d.read encoding path = Reading.ofBytes encoding path bytes := by
  obtain ⟨hnul, hfind⟩ := look_place h.found
  simp only [Disk.read, h.found, hnul, hfind, h.untroubled, Bool.false_eq_true, if_false]

/-- The source is this path: given as one, or as a text that is looked up. -/
def Source.Names (path : String) : Source → Prop
  | .path p => p = path
  | .text content => content = path ∧ Text.isBlankText content = false ∧
      Loader.mayBePath content = true

theorem Tree.validate_source {α : Type} (tree : Tree α) (path : String) :
    tree.validate (some path) = tree.validate none ∨
      tree.validate none = .error (.emptyConfig none) ∧
        tree.validate (some path) = .error (.emptyConfig (some path)) := by
  unfold Tree.validate
  cases tree.shapeFault? with
  | none => exact .inl rfl
  | some f =>
    cases f with
    | empty => exact .inr ⟨rfl, rfl⟩
    | valueWithoutKey => exact .inl rfl
    | leafAndBranch leaf below => exact .inl rfl
    | objectAndArray place => exact .inl rfl

namespace Loader

variable {l : Loader} {d : Disk} {g : Grammar} {path content : String} {source : Source}

theorem isRegular_of_hasFile {bytes : List UInt8} {encoding : Encoding}
    (h : d.HasFile path bytes) (hl : l.fileSystem = d.fileSystem encoding) : l.IsRegular path := by
  unfold IsRegular
  rw [hl]
  simp [Disk.fileSystem, Disk.isDirectory, Disk.isFile, h.found]

def Chooses (l : Loader) (g : Grammar) : Prop := l.options.format = some g ∧ g ∈ l.grammars

theorem Chooses.readText (h : l.Chooses g) (content : String) (path path' : Option String) :
    l.readText content path = l.readText content path' := by
  unfold Loader.readText Format.detect Loader.parse
  simp [h.1, h.2]

theorem outcome_readDocument (content : String) (path : Option String) (j : Journal) :
    ((l.readDocument content path).start j).1 = (do
      let tree ← ((l.readText content path).start j).1
      (Tree.validate tree path).mapError Failure.config) :=
  outcome_bind (fun _ => Steady.ofExcept _) j j

theorem Chooses.outcome_readDocument (h : l.Chooses g) (content path : String) (j k : Journal) :
    ((l.readDocument content (some path)).start k).1 =
        ((l.readDocument content none).start j).1 ∨
      ((l.readDocument content none).start j).1 = .error (.config (.emptyConfig none)) ∧
        ((l.readDocument content (some path)).start k).1 =
          .error (.config (.emptyConfig (some path))) := by
  rw [Loader.outcome_readDocument, Loader.outcome_readDocument, h.readText content (some path) none,
    l.readText_steady content none k j]
  cases ((l.readText content none).start j).1 with
  | error e => exact .inl rfl
  | ok tree =>
    have hlift {x y : Except ConfigError (Tree Leaf)} (hxy : x = y) :
        x.mapError Failure.config = y.mapError Failure.config := congrArg _ hxy
    exact (tree.validate_source path).imp hlift (And.imp hlift hlift)

-- ---------------------------------------------------------------------------
-- Both ways in
-- ---------------------------------------------------------------------------

theorem hinted_of_line (h : '\n' ∈ content.toList) (e : Failure) : l.hinted content e = e := by
  have hlooks : l.looksLikePath content = false := by simp [looksLikePath, mayBePath_of_line h]
  unfold hinted
  split
  · rw [hlooks]
    rfl
  · rfl

theorem outcome_loadContent_of_line (h : '\n' ∈ content.toList) (j : Journal) :
    ((l.loadContent content).start j).1 = do
      return Context.ofLayer ⟨none, ← ((l.readDocument content none).start j).1, none⟩ := by
  have hcatch : ((tryCatch (l.readDocument content none) fun e =>
      throw (l.hinted content e)).start j).1 = ((l.readDocument content none).start j).1 := by
    rw [start_tryCatch]
    cases (l.readDocument content none).start j with
    | mk r k =>
      cases r with
      | ok tree => rfl
      | error e => exact congrArg Except.error (hinted_of_line h e)
  rw [← hcatch]
  exact outcome_bind (fun _ => (Steady.report _ _ _ _ _).bind fun _ => Steady.pure _) j j

theorem outcome_load_of_line (hline : '\n' ∈ content.toList)
    (hblank : Text.isBlankText content = false) (j : Journal) :
    ((l.load (.text content)).start j).1 = do
      return Context.ofLayer ⟨none, ← ((l.readDocument content none).start j).1, none⟩ := by
  rw [outcome_load, unboundLoad]
  simp only [hblank, mayBePath_of_line hline, Bool.false_and, Bool.false_eq_true, if_false]
  exact outcome_loadContent_of_line hline j

theorem outcome_load_names (hn : source.Names path) (hr : l.IsRegular path) (j : Journal) :
    ((l.load source).start j).1 = ((l.loadFile path).start j).1 := by
  cases source with
  | path p =>
    cases hn
    exact outcome_load_file hr j
  | text content =>
    obtain ⟨rfl, hb, hp⟩ := hn
    rw [outcome_load, unboundLoad]
    simp only [hb, hp, hr.1, hr.2, Bool.false_eq_true, Bool.and_false, Bool.and_self, if_false,
      if_true]

theorem outcome_loadFile_of_read (h : (l.fileSystem.read path).outcome = .ok content)
    (j : Journal) : ((l.loadFile path).start j).1 = do
      return Context.ofLayer
        ⟨none, ← ((l.readDocument content (some path)).start j).1, some path⟩ := by
  rw [outcome_loadFile, outcome_readLayer, h]
  rfl

/-- The outcome of a text and that of the file that holds it: contexts of one tree, or one failure.
An empty document is reported without a place for the text, and with the path for the file. -/
inductive Alike (path : String) : (text file : Except Failure Context) → Prop
  | loaded (tree : Tree Leaf) : Alike path (.ok (Context.ofLayer ⟨none, tree, none⟩))
      (.ok (Context.ofLayer ⟨none, tree, some path⟩))
  | failed (e : Failure) : Alike path (.error e) (.error e)
  | empty : Alike path (.error (.config (.emptyConfig none)))
      (.error (.config (.emptyConfig (some path))))

theorem Chooses.alike (h : l.Chooses g) {fs : FileSystem} (hline : '\n' ∈ content.toList)
    (hblank : Text.isBlankText content = false) (hread : (fs.read path).outcome = .ok content)
    (hsource : source.Names path) (hregular : (l.mount fs).IsRegular path) (j k : Journal) :
    Alike path ((l.load (.text content)).start j).1 (((l.mount fs).load source).start k).1 := by
  have hfile : (((l.mount fs).load source).start k).1 = (do
      return Context.ofLayer
        ⟨none, ← ((l.readDocument content (some path)).start k).1, some path⟩) :=
    (outcome_load_names hsource hregular k).trans (outcome_loadFile_of_read hread k)
  rw [outcome_load_of_line hline hblank, hfile]
  rcases h.outcome_readDocument content path j k with hsame | ⟨hnone, hpath⟩
  · rw [hsame]
    cases ((l.readDocument content none).start j).1 with
    | error e => exact .failed e
    | ok tree => exact .loaded tree
  · rw [hnone, hpath]
    exact .empty

end Loader

/-- A text of several lines that is not blank and does not start with a byte order mark, and a file
of a disk that holds its UTF-8 bytes, with or without such a mark in front: with a chosen grammar
that can be read, both load as the same tree, or both fail with the same error. Only the error of an
empty document tells them apart, by naming the file. -/
theorem load_written {l : Loader} {g : Grammar} (hg : l.Chooses g) {content : String}
    (hline : '\n' ∈ content.toList) (hblank : Text.isBlankText content = false)
    (hmark : content.toList.head? ≠ some '\ufeff') {d : Disk} {path : String} {bytes : List UInt8}
    (hbytes : Encoding.Holds bytes content) (hfile : d.HasFile path bytes) {source : Source}
    (hsource : source.Names path) (j k : Journal) :
    Loader.Alike path ((l.load (.text content)).start j).1
      (({ l with fileSystem := d.fileSystem .utf8 }.load source).start k).1 := by
  have hread : ((d.fileSystem .utf8).read path).outcome = .ok content := by
    change (d.read .utf8 path).outcome = .ok content
    rw [hfile.read, Reading.ofBytes_held hmark hbytes]
  have hregular : (l.mount (d.fileSystem .utf8)).IsRegular path :=
    Loader.isRegular_of_hasFile hfile rfl
  exact hg.alike hline hblank hread hsource hregular j k

/-- A text of several lines. One of its characters takes two bytes, and its value depends on the
environment. -/
def accentedText : String := "\x7b\n  \"città\": \"$\x7bTOWN:x\x7d\"\n\x7d\n"

theorem load_written_marked :
    let bytes := Encoding.byteOrderMark ++ accentedText.toUTF8.toList
    let d : Disk := { workingDirectory := [], files := .singleton ["town.txt"] bytes }
    let l : Loader := { textLoader with options := { format := some .json } }
    l.Chooses .json ∧ d.HasFile "town.txt" bytes ∧
      Loader.Alike "town.txt" ((l.load (.text accentedText)).start {}).1
        (({ l with fileSystem := d.fileSystem .utf8 }.load (.path "town.txt")).start {}).1 := by
  intro bytes d l
  have hchooses : l.Chooses .json := ⟨rfl, by decide⟩
  have hfile : d.HasFile "town.txt" bytes := ⟨rfl, by decide +kernel⟩
  have hnames : (Source.path "town.txt").Names "town.txt" := rfl
  exact ⟨hchooses, hfile, load_written hchooses (by decide +kernel) (by decide +kernel)
    (by decide +kernel) (.inr rfl) hfile hnames {} {}⟩

end LayeredConfig
