import LayeredConfig.Proofs.Discovery.Naming
import LayeredConfig.Proofs.Grammar.Detect
import LayeredConfig.Proofs.Load.Directory
import LayeredConfig.Proofs.Tree.Faults

/-!
# Discovered files reach their grammar

`select_dispatch`: a file that is selected from a directory is read by the one grammar that claims
its extension, and by one of those that can be read. Its content is never asked. Selecting looks at
the name of a file for the extensions of all grammars that can be read, detecting at its whole path
for the extensions of one grammar after the other; both come to the last dot of the same name.
-/

namespace LayeredConfig

open Run

-- ---------------------------------------------------------------------------
-- Names and extensions
-- ---------------------------------------------------------------------------

theorem Text.not_mem_of_mem_splitOn {mark : Char} {cs part : List Char}
    (h : part ∈ Text.splitOn mark cs) : mark ∉ part := by
  induction cs generalizing part with
  | nil => simp_all [Text.splitOn]
  | cons c rest ih =>
    rw [Text.splitOn] at h
    split at h
    · rcases List.mem_cons.1 h with rfl | h
      · exact List.not_mem_nil
      · exact ih h
    · rename_i hc
      split at h
      · cases List.mem_singleton.1 h
        simpa using Ne.symm hc
      · rename_i first parts hparts
        rw [hparts] at ih
        rcases List.mem_cons.1 h with rfl | h
        · simpa [Ne.symm hc] using ih List.mem_cons_self
        · exact ih (List.mem_cons_of_mem _ h)

theorem FilePath.name_read_name (text : String) :
    (read (read text).name).name = (read text).name := by
  cases hparts : (read text).parts.getLast? with
  | none =>
    rw [show (read text).name = "" by rw [name, hparts]; rfl]
    rfl
  | some part =>
    have hname : (read text).name = part := by rw [name, hparts]; rfl
    obtain ⟨cs, hcs, rfl⟩ := List.mem_map.1 (List.mem_of_getLast? hparts)
    obtain ⟨hmem, hpart⟩ := List.mem_filter.1 hcs
    have hslash : '/' ∉ (String.ofList cs).toList := by
      rw [String.toList_ofList]
      exact Text.not_mem_of_mem_splitOn hmem
    rw [hname, name_read hslash, String.toList_ofList, if_pos hpart]

namespace Grammar

variable {g other : Grammar} {extension path : String} {grammars : List Grammar}

/-- The file that a path leads to has an extension of the grammar, in capitals or not: it stands
behind the last dot of the name, and something stands before the dot. -/
def Claims (g : Grammar) (path : String) : Prop :=
  ∃ before extension : String, before ≠ "" ∧ '.' ∉ extension.toList ∧
    Text.lower extension ∈ g.extensions ∧
    (FilePath.read path).name = before ++ "." ++ extension

theorem empty_not_mem_extensions (g : Grammar) : "" ∉ g.extensions := by
  cases g <;> decide

theorem mem_extensionsOf : extension ∈ extensionsOf grammars ↔
    ∃ g ∈ grammars, extension ∈ g.extensions :=
  List.mem_flatMap

theorem eq_of_mem_extensions (hg : extension ∈ g.extensions)
    (hother : extension ∈ other.extensions) : g = other := by
  cases g <;> cases other <;> grind [extensions]

theorem claims_iff : g.Claims path ↔ ∃ before after,
    FilePath.splitName (FilePath.read path).name.toList = (before, some after) ∧
      Text.lower (String.ofList after) ∈ g.extensions := by
  simp only [FilePath.splitName_eq_some_iff]
  constructor
  · rintro ⟨before, e, hbefore, hdot, hlisted, hname⟩
    have he : e.toList ≠ [] := by
      intro h
      rw [String.toList_eq_nil_iff.1 h] at hlisted
      exact g.empty_not_mem_extensions hlisted
    exact ⟨before.toList, e.toList, ⟨by simp [hname], hdot, by simpa using hbefore, he⟩,
      by simpa using hlisted⟩
  · rintro ⟨before, after, ⟨hname, hdot, hbefore, -⟩, hlisted⟩
    refine ⟨String.ofList before, String.ofList after, by simpa using hbefore, by simpa using hdot,
      hlisted, ?_⟩
    rw [← String.toList_inj, hname]
    simp

theorem extension_of_claims (h : g.Claims path) :
    ∃ e, (FilePath.read path).extension? = some e ∧ e ∈ g.extensions := by
  obtain ⟨before, after, hsplit, hlisted⟩ := claims_iff.1 h
  exact ⟨_, by rw [FilePath.extension?, hsplit]; rfl, hlisted⟩

theorem Claims.unique (hg : g.Claims path) (hother : other.Claims path) : other = g := by
  obtain ⟨e, he, hlisted⟩ := extension_of_claims hg
  obtain ⟨e', he', hlisted'⟩ := extension_of_claims hother
  cases he.symm.trans he'
  exact eq_of_mem_extensions hlisted' hlisted

end Grammar

-- ---------------------------------------------------------------------------
-- Selecting and detecting
-- ---------------------------------------------------------------------------

theorem Discovery.claims_of_slot? {baseName path : String} {grammars : List Grammar} {slot : Slot}
    (h : slot? baseName (Grammar.extensionsOf grammars) path = some slot) :
    ∃ g ∈ grammars, g.Claims path := by
  have hempty : "" ∉ Grammar.extensionsOf grammars := fun hmem => by
    obtain ⟨g, -, hg⟩ := Grammar.mem_extensionsOf.1 hmem
    exact g.empty_not_mem_extensions hg
  obtain ⟨before, after, hsplit, hlisted, -⟩ := (Slot.ofFileName?_eq_some_iff hempty).1 h
  rw [FilePath.name_read_name] at hsplit
  obtain ⟨g, hg, hextension⟩ := Grammar.mem_extensionsOf.1 hlisted
  exact ⟨g, hg, Grammar.claims_iff.2 ⟨before, after, hsplit, hextension⟩⟩

theorem Format.guess_of_claims {g : Grammar} {path : String} {asked : List Grammar}
    (hasked : g ∈ asked) (h : g.Claims path) (content : String) :
    Format.guess asked content (some path) = some g := by
  obtain ⟨e, he, hlisted⟩ := Grammar.extension_of_claims h
  have hclaims (other : Grammar) : other.claimsExtension e = true ↔ e ∈ other.extensions :=
    List.contains_iff_mem
  have hfind : asked.find? (·.claimsExtension e) = some g := by
    cases hfirst : asked.find? (·.claimsExtension e) with
    | none => exact absurd ((hclaims g).2 hlisted) (List.find?_eq_none.1 hfirst g hasked)
    | some other =>
      have hother := List.find?_some hfirst
      exact congrArg some (Grammar.eq_of_mem_extensions ((hclaims other).1 hother) hlisted)
  rw [guess, Option.bind_some, he, Option.bind_some, hfind]
  rfl

-- ---------------------------------------------------------------------------
-- Failures of reading
-- ---------------------------------------------------------------------------

def Failure.IsUnknownFormat : Failure → Prop
  | .config (.unknownFormat _ _) => True
  | _ => False

theorem Failure.OfWalk.not_isUnknownFormat {P : Fault → Prop} {e : Failure} (h : e.OfWalk P) :
    ¬ e.IsUnknownFormat := by
  rcases h.fault_or_message with ⟨f, rfl, -⟩ | ⟨message, rfl, -⟩
  · exact id
  · exact id

namespace Grammar

variable {g : Grammar} {text : String}

theorem fail_knows {α : Type} (g : Grammar) (r : Refusal) (j : Journal) :
    FailsOnly (¬ ·.IsUnknownFormat) ((g.fail r : Run α).start j).1 := by
  cases r with
  | malformed location message => exact failsOnly_error.2 id
  | duplicateKey key =>
    rw [fail, outcome_bind (fun _ => g.refuse_steady _ _) j j]
    refine FailsOnly.bind ?_ fun shown => failsOnly_error.2 id
    exact failsOnly_mapError.2 fun _ _ => id
  | fault f => exact failsOnly_error.2 id

theorem tree_knows {tree : Except Failure (Tree Leaf)} (h : g.read text = .ok tree) :
    FailsOnly (¬ ·.IsUnknownFormat) tree := by
  have hwrites (s : Scalar) := s.writes_integerTooLong
  cases g with
  | json =>
    obtain ⟨d, -, rfl⟩ := map_ok.1 h
    exact (Document.flatten_failsOnly (Document.all_of_forall hwrites d)).imp
      fun _ he => he.not_isUnknownFormat
  | toml =>
    obtain ⟨d, -, rfl⟩ := map_ok.1 h
    exact (Document.flatten_failsOnly (Document.all_of_forall hwrites d)).imp
      fun _ he => he.not_isUnknownFormat
  | yaml =>
    obtain ⟨graph, -, rfl⟩ := map_ok.1 h
    exact (Graph.flatten_failsOnly hwrites graph).imp fun _ he => he.not_isUnknownFormat

theorem parse_knows (g : Grammar) (text : String) (j : Journal) :
    FailsOnly (¬ ·.IsUnknownFormat) ((g.parse text).start j).1 := by
  unfold parse
  split
  · exact failsOnly_ok
  · split
    · exact g.fail_knows _ j
    · rename_i hread
      rw [outcome_bind (fun _ => (Steady.report _ _ _ _ _).bind fun _ => .pure _) j j]
      exact (tree_knows hread).bind fun _ => failsOnly_ok

end Grammar

theorem Placeholder.resolve_knows (text : String) (options : Options) (environment : Environment)
    (j : Journal) :
    FailsOnly (¬ ·.IsUnknownFormat) ((Placeholder.resolve text options environment).start j).1 := by
  unfold Placeholder.resolve
  split
  · exact failsOnly_ok
  · split
    · split
      · exact failsOnly_ok
      · exact failsOnly_ok
    · rename_i e he
      obtain ⟨_, -, rfl⟩ := mapError_error.1 he
      exact failsOnly_error.2 id

-- ---------------------------------------------------------------------------
-- From the directory to the reader
-- ---------------------------------------------------------------------------

namespace Loader

variable {l : Loader} {g : Grammar} {path directory : String} {listing : List String}
  {files : List ConfigFile}

theorem outcome_readText (content : String) (path : Option String) (j : Journal) :
    ((l.readText content path).start j).1 = (do
      let format ← ((Format.detect l.options l.asked content path).start j).1
      let text ← ((Placeholder.resolve content l.options l.environment).start j).1
      ((l.parse format text path).start j).1) := by
  have hparse (format : Format) (text : String) := l.parse_steady format text path
  have hresolve := Placeholder.resolve_steady content l.options l.environment
  rw [readText, outcome_bind (fun _ => hresolve.bind fun _ => hparse _ _) j j]
  congr 1
  funext format
  exact outcome_bind (hparse format) j j

theorem parse_of_mem (h : g ∈ l.grammars) (text : String) (path : Option String) :
    l.parse (some g) text path = g.parse text :=
  if_pos (List.contains_iff_mem.2 h)

/-- Where nothing but the files decides on their grammar, each selected file is claimed by exactly
one grammar, which can be read, and whatever the file holds it is detected and read in that one. So
no selected file ends with an unknown grammar. -/
theorem select_dispatch (hauto : l.options.format = Format.auto) (hasked : l.asked = Grammar.all)
    (h : (Discovery.select directory listing l.options l.environment
      (Grammar.extensionsOf l.grammars)).Returns files) :
    ∀ file ∈ files, ∃ g ∈ l.grammars, g.Claims file.path ∧
      (∀ other : Grammar, other.Claims file.path → other = g) ∧
      ∀ (content : String) (j : Journal),
        ((Format.detect l.options l.asked content (some file.path)).start j).1 = .ok (some g) ∧
        ((l.readText content (some file.path)).start j).1 = (do
          let text ← ((Placeholder.resolve content l.options l.environment).start j).1
          ((g.parse text).start j).1) ∧
        ∀ source hint,
          ((l.readText content (some file.path)).start j).1 ≠
            .error (.config (.unknownFormat source hint)) := by
  intro file hfile
  have hslot := (((Discovery.select_ok h file hfile).2 file.path).2 rfl).2
  obtain ⟨g, hg, hclaims⟩ := Discovery.claims_of_slot? hslot
  refine ⟨g, hg, hclaims, fun other => hclaims.unique, fun content j => ?_⟩
  have hall : g ∈ l.asked := by
    rw [hasked]
    cases g <;> decide
  have hdetect : ((Format.detect l.options l.asked content (some file.path)).start j).1 =
      .ok (some g) :=
    (Format.outcome_detect hauto _ _ _ j).trans
      (congrArg Except.ok (Format.guess_of_claims hall hclaims content))
  have hread : ((l.readText content (some file.path)).start j).1 = (do
      let text ← ((Placeholder.resolve content l.options l.environment).start j).1
      ((g.parse text).start j).1) := by
    rw [outcome_readText, hdetect]
    show (do
      let text ← ((Placeholder.resolve content l.options l.environment).start j).1
      ((l.parse (some g) text (some file.path)).start j).1) = _
    simp only [parse_of_mem hg]
  refine ⟨hdetect, hread, fun source hint hunknown => ?_⟩
  rw [hread] at hunknown
  have hknows := (Placeholder.resolve_knows content l.options l.environment j).bind
    fun text => g.parse_knows text j
  exact hknows _ hunknown trivial

/-- Only YAML can be read. One of the files has its extension in capitals, and one would be JSON; a
content like that of TOML leads nowhere else. -/
theorem select_dispatch_misleading :
    let l : Loader := { textLoader with options := { profiles := ["dev"] }, grammars := [.yaml] }
    let listing := ["d/config-dev.YML", "d/config-dev.v2.YML", "d/config.json", "d/config.yaml"]
    let dev : ConfigFile := ⟨"d/config-dev.YML", .profile "dev"⟩
    l.options.format = Format.auto ∧ l.asked = Grammar.all ∧
      (Discovery.select "d" listing l.options l.environment
        (Grammar.extensionsOf l.grammars)).Returns [⟨"d/config.yaml", .base⟩, dev] ∧
      ((Format.detect l.options l.asked "a = 1\n" (some dev.path)).start {}).1 =
        .ok (some .yaml) := by
  intro l listing dev
  have hsorted : Discovery.sorted listing = listing :=
    List.mergeSort_of_pairwise (by decide +kernel)
  have hselect : (Discovery.select "d" listing l.options l.environment
      (Grammar.extensionsOf l.grammars)).Returns [⟨"d/config.yaml", .base⟩, dev] := by
    refine ⟨{}, ?_⟩
    rw [Discovery.outcome_select, hsorted]
    decide +kernel
  obtain ⟨g, hg, -, -, hread⟩ := select_dispatch rfl rfl hselect dev (by simp)
  cases List.mem_singleton.1 hg
  exact ⟨rfl, rfl, hselect, (hread "a = 1\n" {}).1⟩

end Loader

end LayeredConfig
