import LayeredConfig.Discovery.Slot
import LayeredConfig.Proofs.Text.Scan
import Mathlib.Data.List.TakeWhile

/-!
# Names of configuration files

`ofFileName?_convention`: the slot that a file name fills is the one it is named for. The convention
reads a name from left to right: base name, profile, extension. The program goes the other way, from
the last dot back, which comes to the same because no extension holds a dot.
-/

namespace LayeredConfig

namespace FilePath

variable {text : String} {name before after : List Char}

theorem ne_dot_of_mem_reverse (h : '.' ∉ name) : ∀ c ∈ name.reverse, decide (c ≠ '.') = true := by
  intro c hc
  have hne : c ≠ '.' := by
    rintro rfl
    exact h (List.mem_reverse.1 hc)
  simpa using hne

theorem splitName_no_dot (h : '.' ∉ name) : splitName name = (name, none) := by
  simp only [splitName, List.dropWhile_eq_nil_iff.2 (ne_dot_of_mem_reverse h)]
  simp

theorem splitName_dot (h : '.' ∉ after) : splitName (before ++ '.' :: after) =
    if before.isEmpty || after.isEmpty then (before ++ '.' :: after, none)
    else (before, some after) := by
  have hreverse : (before ++ '.' :: after).reverse = after.reverse ++ '.' :: before.reverse := by
    simp
  have hbody := ne_dot_of_mem_reverse h
  have hstops : ∀ c, ('.' :: before.reverse).head? = some c → decide (c ≠ '.') = false := by simp
  simp only [splitName, hreverse, Text.takeWhile_body hbody hstops,
    Text.dropWhile_body hbody hstops]
  simp

theorem splitName_eq_some_iff : splitName name = (before, some after) ↔
    name = before ++ '.' :: after ∧ '.' ∉ after ∧ before ≠ [] ∧ after ≠ [] := by
  constructor
  · intro h
    by_cases hdot : '.' ∈ name
    · obtain ⟨back, front, hreverse, hback⟩ := List.eq_append_cons_of_mem (List.mem_reverse.2 hdot)
      obtain rfl : name = front.reverse ++ '.' :: back.reverse := by
        simpa using congrArg List.reverse hreverse
      have hlast : '.' ∉ back.reverse := by simpa using hback
      rw [splitName_dot hlast] at h
      split at h
      · cases h
      · cases h
        simp_all
    · rw [splitName_no_dot hdot] at h
      cases h
  · rintro ⟨rfl, hdot, hbefore, hafter⟩
    simp [splitName_dot hdot, hbefore, hafter]

theorem name_read (h : '/' ∉ text.toList) :
    (read text).name = if isPart text.toList then text else "" := by
  rw [name, read, Text.splitOn_eq, List.splitOn_eq_singleton h]
  cases hpart : isPart text.toList <;> simp [hpart]

end FilePath

namespace Slot

variable {baseName fileName : String} {extensions : List String} {slot other : Slot}
  {cs : List Char}

/-- What the convention puts behind the base name. -/
def tail : Slot → List Char
  | .base => []
  | .profile name => '-' :: name.toList

theorem ofTail?_eq_some_iff : ofTail? cs = some slot ↔ slot ≠ .profile "" ∧ cs = slot.tail := by
  constructor
  · intro h
    unfold ofTail? at h
    split at h
    · cases h
      exact ⟨nofun, rfl⟩
    · cases h
      simp [tail]
    · cases h
  · rintro ⟨hname, rfl⟩
    cases slot with
    | base => rfl
    | profile name =>
      obtain ⟨chars, rfl⟩ : ∃ chars, name = String.ofList chars := ⟨_, String.ofList_toList.symm⟩
      cases chars with
      | nil => exact absurd rfl hname
      | cons c rest => simp [tail, ofTail?]

theorem ofTail?_drop_iff : (if baseName.toList.isPrefixOf cs then
    ofTail? (cs.drop baseName.length) else none) = some slot ↔
      slot ≠ .profile "" ∧ cs = baseName.toList ++ slot.tail := by
  constructor
  · intro h
    split at h
    · rename_i hstarts
      obtain ⟨rest, rfl⟩ := List.isPrefixOf_iff_prefix.1 hstarts
      rw [← String.length_toList, List.drop_left, ofTail?_eq_some_iff] at h
      exact ⟨h.1, by rw [h.2]⟩
    · cases h
  · rintro ⟨hslot, rfl⟩
    simp [← String.length_toList, ofTail?_eq_some_iff, hslot]

theorem ofFileName?_eq_some_iff (hextensions : "" ∉ extensions) :
    ofFileName? baseName extensions fileName = some slot ↔
      ∃ before after, FilePath.splitName (FilePath.read fileName).name.toList =
          (before, some after) ∧ Text.lower (String.ofList after) ∈ extensions ∧
        slot ≠ .profile "" ∧ before = baseName.toList ++ slot.tail := by
  simp only [ofFileName?, FilePath.extension?, FilePath.stem, String.toList_ofList,
    List.contains_iff_mem]
  cases FilePath.splitName (FilePath.read fileName).name.toList with
  | mk before after? =>
    cases after? with
    | none => simp [hextensions]
    | some after =>
      by_cases hlisted : Text.lower (String.ofList after) ∈ extensions
      · simp only [Option.map_some, Option.getD_some, if_pos hlisted, ofTail?_drop_iff]
        constructor
        · rintro ⟨hslot, hbefore⟩
          exact ⟨before, after, rfl, hlisted, hslot, hbefore⟩
        · rintro ⟨_, _, ⟨⟩, -, hslot, hbefore⟩
          exact ⟨hslot, hbefore⟩
      · simp only [Option.map_some, Option.getD_some, if_neg hlisted]
        refine iff_of_false nofun ?_
        rintro ⟨_, _, ⟨⟩, hafter, -⟩
        exact hlisted hafter

/-- The file is named for the slot: base name, then a hyphen and the profile if it is an overlay,
then a dot and one of the extensions, in capitals or not. -/
def NamedFor (baseName : String) (extensions : List String) (fileName : String) : Slot → Prop
  | .base => ∃ e : String, '.' ∉ e.toList ∧ Text.lower e ∈ extensions ∧
      fileName = baseName ++ "." ++ e
  | .profile name => name ≠ "" ∧ ∃ e : String, '.' ∉ e.toList ∧ Text.lower e ∈ extensions ∧
      fileName = baseName ++ "-" ++ name ++ "." ++ e

theorem namedFor_iff : NamedFor baseName extensions fileName slot ↔
    slot ≠ .profile "" ∧ ∃ e : String, '.' ∉ e.toList ∧ Text.lower e ∈ extensions ∧
      fileName.toList = baseName.toList ++ slot.tail ++ '.' :: e.toList := by
  have hfront (front e : String) : fileName = front ++ "." ++ e ↔
      fileName.toList = front.toList ++ '.' :: e.toList := by
    rw [← String.toList_inj]
    simp
  cases slot with
  | base => simp [NamedFor, tail, hfront]
  | profile name => simp [NamedFor, tail, hfront]

theorem ofFileName?_iff_namedFor (hbase : baseName ≠ "") (hextensions : "" ∉ extensions) :
    ofFileName? baseName extensions fileName = some slot ↔
      NamedFor baseName extensions (FilePath.read fileName).name slot := by
  rw [ofFileName?_eq_some_iff hextensions, namedFor_iff]
  simp only [FilePath.splitName_eq_some_iff]
  constructor
  · rintro ⟨before, after, ⟨hname, hdot, -, -⟩, hlisted, hslot, rfl⟩
    exact ⟨hslot, String.ofList after, by simpa using hdot, hlisted, by simpa using hname⟩
  · rintro ⟨hslot, e, hdot, hlisted, hname⟩
    have he : e.toList ≠ [] := by
      intro h
      rw [String.toList_eq_nil_iff.1 h] at hlisted
      exact hextensions hlisted
    exact ⟨_, e.toList, ⟨hname, hdot, by simp [hbase], he⟩, by simpa using hlisted, hslot, rfl⟩

theorem NamedFor.isPart (hbase : baseName ≠ "") (h : NamedFor baseName extensions fileName slot) :
    FilePath.isPart fileName.toList = true := by
  obtain ⟨-, e, -, -, hname⟩ := namedFor_iff.1 h
  obtain ⟨c, rest, hcons⟩ := List.exists_cons_of_ne_nil (mt String.toList_eq_nil_iff.1 hbase)
  simp [FilePath.isPart, hname, hcons]

/-- A single name fills the slot that it is named for. It fills none exactly if it is named for
none, and it is never named for two. -/
theorem ofFileName?_convention (hbase : baseName ≠ "") (hextensions : "" ∉ extensions)
    (hname : '/' ∉ fileName.toList) :
    (∀ slot, ofFileName? baseName extensions fileName = some slot ↔
      NamedFor baseName extensions fileName slot) ∧
    (ofFileName? baseName extensions fileName = none ↔
      ∀ slot, ¬ NamedFor baseName extensions fileName slot) ∧
    ∀ slot other, NamedFor baseName extensions fileName slot →
      NamedFor baseName extensions fileName other → slot = other := by
  have hfills (slot : Slot) : ofFileName? baseName extensions fileName = some slot ↔
      NamedFor baseName extensions fileName slot := by
    rw [ofFileName?_iff_namedFor hbase hextensions, FilePath.name_read hname]
    split
    · rfl
    · rename_i hpart
      exact iff_of_false (fun h => absurd (h.isPart hbase) (by decide))
        (fun h => hpart (h.isPart hbase))
  refine ⟨hfills, ?_, fun slot other hslot hother => ?_⟩
  · simp only [Option.eq_none_iff_forall_ne_some, ne_eq, hfills]
  · exact Option.some.inj (((hfills slot).2 hslot).symm.trans ((hfills other).2 hother))

/-- A base name with a dot, a profile that repeats it, and an extension in capitals. -/
theorem ofFileName?_convention_repeated :
    let extensions := ["yaml", "yml"]
    "app.v1" ≠ "" ∧ "" ∉ extensions ∧ '/' ∉ "app.v1-app.v1-eu.west.YAML".toList ∧
      ofFileName? "app.v1" extensions "app.v1-app.v1-eu.west.YAML" =
        some (.profile "app.v1-eu.west") := by
  intro extensions
  have hextensions : "" ∉ extensions := by decide
  have hname : '/' ∉ "app.v1-app.v1-eu.west.YAML".toList := by decide
  have hnamed : NamedFor "app.v1" extensions "app.v1-app.v1-eu.west.YAML"
      (.profile "app.v1-eu.west") :=
    ⟨by decide, "YAML", by decide, by decide +kernel, by decide⟩
  exact ⟨by decide, hextensions, hname,
    ((ofFileName?_convention (by decide) hextensions hname).1 _).2 hnamed⟩

end Slot

end LayeredConfig
