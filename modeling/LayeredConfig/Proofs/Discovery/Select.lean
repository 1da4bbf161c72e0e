import LayeredConfig.Discovery.Select
import LayeredConfig.Proofs.OrderedMap
import LayeredConfig.Proofs.Outcome
import Mathlib.Data.List.Perm.Subperm

/-!
# Selected files

`select_listing`: selecting from a listing fails exactly if two of its files fill one slot, and the
error names two such files. Otherwise the selection is the base file and the files of the active
profiles in their order, as far as they are listed. The order of the listing plays no part.
-/

namespace LayeredConfig

open Run

theorem nodup_keepFirst (names : List String) : (keepFirst names).Nodup := by
  induction names with
  | nil => exact List.nodup_nil
  | cons name rest ih =>
    rw [keepFirst, List.nodup_cons]
    exact ⟨fun h => by simpa using List.of_mem_filter h, ih.filter _⟩

@[simp] theorem mem_keepFirst {name : String} {names : List String} :
    name ∈ keepFirst names ↔ name ∈ names := by
  induction names with
  | nil => simp [keepFirst]
  | cons first rest ih => by_cases h : name = first <;> simp [keepFirst, ih, h]

theorem keepFirst_perm {names others : List String} (h : names.Perm others) :
    (keepFirst names).Perm (keepFirst others) := by
  refine (List.perm_ext_iff_of_nodup (nodup_keepFirst names) (nodup_keepFirst others)).2
    fun name => ?_
  rw [mem_keepFirst, mem_keepFirst, h.mem_iff]

namespace Discovery

variable {baseName directory path first second : String}
  {extensions listing others before rest : List String} {slot : Slot}
  {found assigned : OrderedMap Slot String} {options : Options} {environment : Environment}

def slot? (baseName : String) (extensions : List String) (path : String) : Option Slot :=
  Slot.ofFileName? baseName extensions (FilePath.read path).name

-- ---------------------------------------------------------------------------
-- Listings in any order
-- ---------------------------------------------------------------------------

theorem sorted_perm (texts : List String) : (sorted texts).Perm texts :=
  List.mergeSort_perm texts _

theorem pairwise_sorted (texts : List String) : (sorted texts).Pairwise (· ≤ ·) := by
  have h : (sorted texts).Pairwise fun a b => decide (a ≤ b) = true :=
    List.pairwise_mergeSort (by simpa using fun a b c => String.le_trans)
      (by simpa using String.le_total) texts
  simpa using h

theorem sorted_congr (h : listing.Perm others) : sorted listing = sorted others := by
  have hperm : (sorted listing).Perm (sorted others) :=
    (sorted_perm listing).trans (h.trans (sorted_perm others).symm)
  exact hperm.eq_of_pairwise (fun _ _ _ _ => String.le_antisymm)
    (pairwise_sorted listing) (pairwise_sorted others)

/-- Two files of a listing, at different places of it, that fill one slot. -/
structure Rivals (baseName : String) (extensions listing : List String) (slot : Slot)
    (first second : String) : Prop where
  listed : [first, second].Subperm listing
  first : slot? baseName extensions first = some slot
  second : slot? baseName extensions second = some slot

theorem Rivals.perm (h : Rivals baseName extensions listing slot first second)
    (hperm : listing.Perm others) : Rivals baseName extensions others slot first second :=
  ⟨h.listed.trans hperm.subperm, h.first, h.second⟩

theorem Rivals.not_nodup (h : Rivals baseName extensions listing slot first second) :
    ¬ (listing.filterMap (slot? baseName extensions)).Nodup := by
  intro hnodup
  obtain ⟨pair, hperm, hsub⟩ := h.listed
  have hslots := (hnodup.sublist (hsub.filterMap _)).perm (hperm.filterMap _)
  simp [h.first, h.second] at hslots

-- ---------------------------------------------------------------------------
-- Assigning slots
-- ---------------------------------------------------------------------------

theorem assign_ok (h : assign baseName extensions found listing = .ok assigned) :
    assigned.get? slot = some path ↔
      found.get? slot = some path ∨
        path ∈ listing ∧ slot? baseName extensions path = some slot := by
  fun_induction assign baseName extensions found listing with
  | case1 found =>
    cases h
    simp
  | case2 found first rest hnone ih =>
    rw [ih h, List.mem_cons]
    refine or_congr_right ⟨And.imp_left .inr, ?_⟩
    rintro ⟨rfl | hpath, hname⟩
    · cases hnone.symm.trans hname
    · exact ⟨hpath, hname⟩
  | case3 => cases h
  | case4 found first rest filled hfilled hopen ih =>
    rw [ih h, OrderedMap.get?_insert, List.mem_cons]
    by_cases hslot : slot = filled
    · subst hslot
      rw [if_pos rfl, hopen, or_iff_right (Option.some_ne_none path).symm, or_and_right]
      refine or_congr_left ⟨fun heq => ?_, fun heq => congrArg some heq.1.symm⟩
      cases heq
      exact ⟨rfl, hfilled⟩
    · rw [if_neg (Ne.symm hslot)]
      refine or_congr_right ⟨And.imp_left .inr, ?_⟩
      rintro ⟨rfl | hpath, hname⟩
      · exact absurd (Option.some.inj (hname.symm.trans hfilled)) hslot
      · exact ⟨hpath, hname⟩

theorem assign_nodup (h : assign baseName extensions found listing = .ok assigned) :
    (listing.filterMap (slot? baseName extensions)).Nodup ∧
      ∀ slot ∈ listing.filterMap (slot? baseName extensions), found.get? slot = none := by
  fun_induction assign baseName extensions found listing with
  | case1 => exact ⟨List.nodup_nil, nofun⟩
  | case2 found path rest hnone ih =>
    rw [List.filterMap_cons_none (f := slot? baseName extensions) hnone]
    exact ih h
  | case3 => cases h
  | case4 found path rest slot hslot hopen ih =>
    obtain ⟨hnodup, hrest⟩ := ih h
    have hne : ∀ other ∈ rest.filterMap (slot? baseName extensions),
        slot ≠ other ∧ found.get? other = none := by
      intro other hother
      have hget := hrest other hother
      rw [OrderedMap.get?_insert] at hget
      split at hget
      · cases hget
      · exact ⟨‹_›, hget⟩
    rw [List.filterMap_cons_some (f := slot? baseName extensions) hslot]
    refine ⟨List.nodup_cons.2 ⟨fun hmem => (hne slot hmem).1 rfl, hnodup⟩, fun other hother => ?_⟩
    rcases List.mem_cons.1 hother with rfl | hother
    · exact hopen
    · exact (hne other hother).2

theorem assign_error {e : ConfigError}
    (hfound : ∀ slot path, found.get? slot = some path →
      path ∈ before ∧ slot? baseName extensions path = some slot)
    (h : assign baseName extensions found rest = .error e) :
    ∃ slot first second, Rivals baseName extensions (before ++ rest) slot first second ∧
      e = .invalidConfig (slot.conflict first second) := by
  -- what is passed over or found moves from the rest to what was before
  fun_induction assign baseName extensions found rest generalizing before with
  | case1 => cases h
  | case2 found path rest _ ih =>
    rw [List.append_cons]
    refine ih (fun slot first hfirst => ?_) h
    exact ⟨List.mem_append_left _ (hfound slot first hfirst).1, (hfound slot first hfirst).2⟩
  | case3 found path rest slot hslot first hfirst =>
    cases h
    obtain ⟨hmem, hname⟩ := hfound slot first hfirst
    have hpair : ([first] ++ [path]).Sublist (before ++ path :: rest) :=
      (List.singleton_sublist.2 hmem).append (List.singleton_sublist.2 List.mem_cons_self)
    exact ⟨slot, first, path, ⟨hpair.subperm, hname, hslot⟩, rfl⟩
  | case4 found path rest slot hslot _ ih =>
    rw [List.append_cons]
    refine ih (fun other first hfirst => ?_) h
    rw [OrderedMap.get?_insert] at hfirst
    split at hfirst
    · rename_i heq
      cases hfirst
      exact ⟨List.mem_append_right _ (List.mem_singleton.2 rfl), heq ▸ hslot⟩
    · have hother := hfound other first hfirst
      exact ⟨List.mem_append_left _ hother.1, hother.2⟩

/-- Assigning the slots of a listing fails with a conflict between two of its files. -/
theorem assign_sorted_error {e : ConfigError}
    (h : assign baseName extensions OrderedMap.empty (sorted listing) = .error e) :
    ∃ slot first second, Rivals baseName extensions listing slot first second ∧
      e = .invalidConfig (slot.conflict first second) := by
  have hempty : ∀ slot path, (OrderedMap.empty : OrderedMap Slot String).get? slot = some path →
      path ∈ [] ∧ slot? baseName extensions path = some slot := nofun
  obtain ⟨slot, first, second, hrivals, he⟩ := assign_error hempty h
  exact ⟨slot, first, second, hrivals.perm (sorted_perm listing), he⟩

theorem not_rivals_of_assign_sorted
    (h : assign baseName extensions OrderedMap.empty (sorted listing) = .ok found) :
    ¬ Rivals baseName extensions listing slot first second :=
  fun hrivals => (hrivals.perm (sorted_perm listing).symm).not_nodup (assign_nodup h).1

-- ---------------------------------------------------------------------------
-- The files of slots
-- ---------------------------------------------------------------------------

def filesOf (baseName : String) (extensions listing : List String) (slots : List Slot) :
    List ConfigFile :=
  slots.filterMap fun slot =>
    (listing.find? fun path => slot? baseName extensions path = some slot).map (⟨·, slot⟩)

theorem get?_assign_sorted
    (h : assign baseName extensions OrderedMap.empty (sorted listing) = .ok found) :
    found.get? slot = listing.find? fun path => slot? baseName extensions path = some slot := by
  have hget (path : String) : found.get? slot = some path ↔
      path ∈ listing ∧ slot? baseName extensions path = some slot := by
    rw [assign_ok h, OrderedMap.get?_empty, (sorted_perm listing).mem_iff]
    exact or_iff_right nofun
  cases hfind : listing.find? fun path => slot? baseName extensions path = some slot with
  | some path =>
    exact (hget path).2 ⟨List.mem_of_find?_eq_some hfind, by simpa using List.find?_some hfind⟩
  | none =>
    refine Option.eq_none_iff_forall_ne_some.2 fun path hpath => ?_
    obtain ⟨hmem, hslot⟩ := (hget path).1 hpath
    exact List.find?_eq_none.1 hfind path hmem (by simpa using hslot)

theorem pick_eq_filesOf
    (h : assign baseName extensions OrderedMap.empty (sorted listing) = .ok found)
    (slots : List Slot) : pick found slots = filesOf baseName extensions listing slots := by
  unfold pick filesOf
  simp only [get?_assign_sorted h]

theorem slot?_of_mem_filesOf {slots : List Slot} {file : ConfigFile}
    (h : file ∈ filesOf baseName extensions listing slots) :
    slot? baseName extensions file.path = some file.slot := by
  obtain ⟨slot, -, hslot⟩ := List.mem_filterMap.1 h
  obtain ⟨path, hpath, rfl⟩ := Option.map_eq_some_iff.1 hslot
  simpa using List.find?_some hpath

theorem map_slot_filesOf_sublist (baseName : String) (extensions listing : List String)
    (slots : List Slot) :
    ((filesOf baseName extensions listing slots).map (·.slot)).Sublist slots := by
  induction slots with
  | nil => exact List.Sublist.refl []
  | cons slot rest ih =>
    unfold filesOf at ih ⊢
    rw [List.filterMap_cons]
    split
    · exact ih.cons slot
    · rename_i file hfile
      obtain ⟨path, -, rfl⟩ := Option.map_eq_some_iff.1 hfile
      exact ih.cons_cons slot

theorem nodup_path_filesOf {slots : List Slot} (h : slots.Nodup) :
    ((filesOf baseName extensions listing slots).map (·.path)).Nodup := by
  have hslots := (h.sublist (map_slot_filesOf_sublist baseName extensions listing slots)).map
    fun _ _ => Option.some.inj
  have hpaths : ((filesOf baseName extensions listing slots).map (·.path)).map
      (slot? baseName extensions) =
        ((filesOf baseName extensions listing slots).map (·.slot)).map some := by
    rw [List.map_map, List.map_map]
    exact List.map_congr_left fun file => slot?_of_mem_filesOf
  exact List.Nodup.of_map (slot? baseName extensions) (hpaths ▸ hslots)

-- ---------------------------------------------------------------------------
-- Selecting
-- ---------------------------------------------------------------------------

/-- The slots whose files take part: the base and the active profiles. -/
def wanted (options : Options) (environment : Environment) : List Slot :=
  .base :: (activeProfiles options environment).map .profile

theorem nodup_wanted (options : Options) (environment : Environment) :
    (wanted options environment).Nodup := by
  have hprofiles : ((activeProfiles options environment).map Slot.profile).Nodup :=
    (nodup_keepFirst _).map fun _ _ => Slot.profile.inj
  exact List.nodup_cons.2 ⟨by simp, hprofiles⟩

theorem outcome_select (directory : String) (listing extensions : List String) (options : Options)
    (environment : Environment) (j : Journal) :
    ((select directory listing options environment extensions).start j).1 = (do
      let found ← (assign options.baseName extensions OrderedMap.empty
        (sorted listing)).mapError Failure.config
      return pick found (wanted options environment)) :=
  outcome_bind (fun _ => (Steady.report _ _ _ _ _).bind fun _ => Steady.pure _) j j

theorem select_ok {files : List ConfigFile}
    (h : (select directory listing options environment extensions).Returns files) :
    ∀ file ∈ files, file.slot ∈ .base :: (activeProfiles options environment).map .profile ∧
      ∀ path, path ∈ listing ∧
        Slot.ofFileName? options.baseName extensions (FilePath.read path).name = some file.slot ↔
          path = file.path := by
  obtain ⟨found, hfound, h⟩ := h.bind
  obtain ⟨_, -, h⟩ := h.bind
  cases returns_pure.1 h
  intro file hfile
  obtain ⟨slot, hwanted, hslot⟩ := List.mem_filterMap.1 hfile
  obtain ⟨path, hpath, rfl⟩ := Option.map_eq_some_iff.1 hslot
  refine ⟨hwanted, fun other => ?_⟩
  have hother : found.get? slot = some other ↔ _ :=
    assign_ok (mapError_ok.1 (returns_ofExcept.1 hfound))
  rw [hpath] at hother
  simpa [OrderedMap.get?_empty, sorted, slot?, eq_comm] using hother.symm

theorem select_congr (h : listing.Perm others) :
    select directory listing options environment extensions =
      select directory others options environment extensions := by
  unfold select
  rw [sorted_congr h]

/-- Selecting from a listing fails for its configuration exactly if two listed files fill one slot,
wanted or not. It fails in no other way, and the error names two such files with their slot. Without
such files it yields those of the wanted slots: the base file if one is listed, then for each active
profile its file if one is listed, none of them twice. A listing in another order is selected from
alike, in outcome and records. -/
theorem select_listing (directory : String) (listing extensions : List String) (options : Options)
    (environment : Environment) (j : Journal) :
    let outcome := ((select directory listing options environment extensions).start j).1
    let rivals := Rivals options.baseName extensions listing
    let files := filesOf options.baseName extensions listing
      (.base :: (activeProfiles options environment).map .profile)
    ((∃ reason, outcome = .error (.config (.invalidConfig reason))) ↔
      ∃ slot first second, rivals slot first second) ∧
    (∀ e, outcome = .error e → ∃ slot first second, rivals slot first second ∧
      e = .config (.invalidConfig (slot.conflict first second))) ∧
    ((¬ ∃ slot first second, rivals slot first second) →
      outcome = .ok files ∧ (files.map (·.path)).Nodup) ∧
    ∀ others, listing.Perm others → select directory others options environment extensions =
      select directory listing options environment extensions := by
  intro outcome rivals files
  have houtcome : outcome = _ := outcome_select directory listing extensions options environment j
  cases hassign : assign options.baseName extensions OrderedMap.empty (sorted listing) with
  | error e =>
    have herror : outcome = .error (.config e) := by rw [houtcome, hassign]; rfl
    obtain ⟨slot, first, second, hrivals, rfl⟩ := assign_sorted_error hassign
    refine ⟨⟨fun _ => ⟨slot, first, second, hrivals⟩, fun _ => ⟨_, herror⟩⟩, fun e he => ?_,
      fun hno => absurd ⟨slot, first, second, hrivals⟩ hno, fun _ h => (select_congr h).symm⟩
    exact ⟨slot, first, second, hrivals, Except.error.inj (he.symm.trans herror)⟩
  | ok found =>
    have hok : outcome = .ok files := by
      rw [houtcome, hassign]
      exact congrArg Except.ok (pick_eq_filesOf hassign _)
    have hno : ¬ ∃ slot first second, rivals slot first second :=
      fun ⟨_, _, _, hrivals⟩ => not_rivals_of_assign_sorted hassign hrivals
    refine ⟨iff_of_false (fun ⟨_, he⟩ => ?_) hno, fun e he => ?_, fun _ => ⟨hok, ?_⟩,
      fun _ h => (select_congr h).symm⟩
    · cases hok.symm.trans he
    · cases hok.symm.trans he
    · exact nodup_path_filesOf (nodup_wanted options environment)

/-- Overlays of two profiles, a base file and a file of neither kind; one profile is requested
twice, and one has no file. -/
theorem select_listing_overlays :
    let listing := ["d/config-prod.yaml", "d/config-dev.toml", "d/notes.txt", "d/config.json"]
    let options : Options := { profiles := ["dev", "qa", "dev"] }
    let extensions := ["json", "toml", "yaml"]
    (¬ ∃ slot first second, Rivals options.baseName extensions listing slot first second) ∧
      ((select "d" listing options .empty extensions).start {}).1 =
        .ok [⟨"d/config.json", .base⟩, ⟨"d/config-dev.toml", .profile "dev"⟩] := by
  intro listing options extensions
  have hno : ¬ ∃ slot first second,
      Rivals options.baseName extensions listing slot first second := by
    rintro ⟨slot, first, second, h⟩
    exact h.not_nodup (by decide +kernel)
  have hfiles : filesOf options.baseName extensions listing
      (.base :: (activeProfiles options .empty).map .profile) =
        [⟨"d/config.json", .base⟩, ⟨"d/config-dev.toml", .profile "dev"⟩] := by
    decide +kernel
  exact ⟨hno, hfiles ▸ ((select_listing "d" listing extensions options .empty {}).2.2.1 hno).1⟩

end Discovery

end LayeredConfig
