import LayeredConfig.Proofs.Discovery.Select
import LayeredConfig.Proofs.Text.Scan
import Mathlib.Data.List.TakeWhile

/-!
# Requested profiles

`activeProfiles_requested`: a variable that lists profiles between commas asks for the same as
options with a list of them, down to the files that are selected. Blanks around a name and items
without a name add nothing, and a name that comes again keeps its first place.
-/

namespace LayeredConfig

/-- The items of a list of names: each name in its turn, perhaps between blanks, and blank items
anywhere. -/
inductive Requests : List String → List String → Prop where
  | nil : Requests [] []
  | blank {names items : List String} {item : String} (hblank : Text.isBlankText item = true)
      (rest : Requests names items) : Requests names (item :: items)
  | name {names items : List String} {name : String} (before after : String)
      (hbefore : Text.isBlankText before = true) (hafter : Text.isBlankText after = true)
      (rest : Requests names items) : Requests (name :: names) ((before ++ name ++ after) :: items)

/-- A name that stands in a list as it is. -/
structure IsProfileName (name : String) : Prop where
  nonempty : name ≠ ""
  noComma : ',' ∉ name.toList
  trimmed : Text.strip name = name

-- ---------------------------------------------------------------------------
-- The names of a list
-- ---------------------------------------------------------------------------

variable {names items profiles listing extensions : List String} {item text : String}
  {options : Options} {e f : Environment}

theorem IsProfileName.padded {name before after : String} (h : IsProfileName name)
    (hbefore : Text.isBlankText before = true) (hafter : Text.isBlankText after = true) :
    Text.trim (before ++ name ++ after).toList = name.toList := by
  have htrimmed : Text.trim name.toList = name.toList := by
    rw [← String.toList_ofList (l := Text.trim name.toList)]
    exact congrArg String.toList h.trimmed
  simp only [String.toList_append]
  exact Text.trim_padded (List.all_eq_true.1 hbefore) (List.all_eq_true.1 hafter)
    (mt String.toList_eq_nil_iff.1 h.nonempty) htrimmed

theorem comma_not_mem_of_blank (h : Text.isBlankText text = true) : ',' ∉ text.toList := by
  intro hmem
  exact absurd (List.all_eq_true.1 h _ hmem) (by decide)

theorem Requests.comma_not_mem (h : Requests names items)
    (hnames : ∀ name ∈ names, IsProfileName name) : ∀ item ∈ items, ',' ∉ item.toList := by
  induction h with
  | nil => simp
  | blank hblank _ ih => simpa [comma_not_mem_of_blank hblank] using ih hnames
  | name _ _ hbefore hafter _ ih =>
    rw [List.forall_mem_cons] at hnames
    simpa [comma_not_mem_of_blank hbefore, comma_not_mem_of_blank hafter, hnames.1.noComma]
      using ih hnames.2

theorem Requests.read (h : Requests names items) (hnames : ∀ name ∈ names, IsProfileName name) :
    (((items.map String.toList).map Text.trim).filter (!·.isEmpty)).map String.ofList = names := by
  induction h with
  | nil => rfl
  | blank hblank _ ih => simpa [Text.trim_of_blank (List.all_eq_true.1 hblank)] using ih hnames
  | @name _ _ name _ _ hbefore hafter _ ih =>
    rw [List.forall_mem_cons] at hnames
    have hkept : (!name.toList.isEmpty) = true := by simpa using hnames.1.nonempty
    rw [List.map_cons, List.map_cons, hnames.1.padded hbefore hafter, List.filter_cons,
      if_pos hkept, List.map_cons, String.ofList_toList, ih hnames.2]

/-- Reading a list of names undoes joining them, whatever blanks come between. -/
theorem profileList_requests (h : Requests names items)
    (hnames : ∀ name ∈ names, IsProfileName name) :
    profileList (",".intercalate items) = names := by
  have hread := h.read hnames
  by_cases hitems : items = []
  · subst hitems
    exact hread
  · have hcommas : ∀ part ∈ items.map String.toList, ',' ∉ part := by
      simpa using h.comma_not_mem hnames
    have hparts : Text.splitOn ',' (",".intercalate items).toList = items.map String.toList := by
      rw [Text.splitOn_eq, String.toList_intercalate]
      exact List.splitOn_intercalate ',' hcommas (by simpa using hitems)
    rw [profileList, hparts, hread]

theorem keepFirst_inOrder (names : List String) :
    (keepFirst names).Pairwise fun a b => names.idxOf a < names.idxOf b := by
  induction names with
  | nil => exact List.Pairwise.nil
  | cons first rest ih =>
    rw [keepFirst, List.pairwise_cons, List.pairwise_filter]
    constructor
    · intro b hb
      have hne : b ≠ first := by simpa using List.of_mem_filter hb
      simp [hne.symm]
    · refine ih.imp fun {a b} hlt ha hb => ?_
      simp only [decide_eq_true_eq] at ha hb
      simpa [List.idxOf_cons, Ne.symm ha, Ne.symm hb] using hlt

-- ---------------------------------------------------------------------------
-- Two ways to request profiles
-- ---------------------------------------------------------------------------

theorem requestedProfiles_set (hvariable : options.profileVariable ≠ "")
    (h : e.value? options.profileVariable = some text) :
    requestedProfiles options e = profileList text := by
  simp [requestedProfiles, hvariable, h]

theorem requestedProfiles_unset (h : f.value? options.profileVariable = none) :
    requestedProfiles (options.withProfiles profiles) f = profiles := by
  simp [requestedProfiles, Options.withProfiles, h]

theorem Discovery.select_congr_active {others : Options} (directory : String)
    (hbase : options.baseName = others.baseName)
    (hactive : activeProfiles options e = activeProfiles others f) :
    select directory listing options e extensions =
      select directory listing others f extensions := by
  simp only [select, hbase, hactive]

/-- A set variable that lists names, with any blanks around them and any blank items between, asks
for the same profiles as options with a list of the names where the variable is not set, and the
same files are selected. Each name is active once, in the order of first requests. The list of the
options plays no part while the variable is set, whatever its text. -/
theorem activeProfiles_requested (hnames : ∀ name ∈ names, IsProfileName name)
    (hvariable : options.profileVariable ≠ "") (hitems : Requests names items)
    (hset : e.value? options.profileVariable = some (",".intercalate items))
    (hunset : f.value? options.profileVariable = none) :
    let active := activeProfiles options e
    active = activeProfiles (options.withProfiles names) f ∧
    (∀ directory listing extensions, Discovery.select directory listing options e extensions =
      Discovery.select directory listing (options.withProfiles names) f extensions) ∧
    active.Nodup ∧ (∀ name, name ∈ active ↔ name ∈ names) ∧
    active.Pairwise (fun a b => names.idxOf a < names.idxOf b) ∧
    ∀ (g : Environment) (profiles : List String), g.isSet options.profileVariable = true →
      activeProfiles (options.withProfiles profiles) g = activeProfiles options g ∧
      ∀ directory listing extensions,
        Discovery.select directory listing (options.withProfiles profiles) g extensions =
          Discovery.select directory listing options g extensions := by
  intro active
  have hactive : active = keepFirst names := by
    show keepFirst (requestedProfiles options e) = keepFirst names
    rw [requestedProfiles_set hvariable hset, profileList_requests hitems hnames]
  have hroutes : active = activeProfiles (options.withProfiles names) f := by
    rw [hactive, activeProfiles]
    exact congrArg keepFirst (requestedProfiles_unset hunset).symm
  refine ⟨hroutes, fun directory _ _ => Discovery.select_congr_active directory rfl hroutes, ?_⟩
  rw [hactive]
  refine ⟨nodup_keepFirst names, fun _ => mem_keepFirst, keepFirst_inOrder names, ?_⟩
  intro g profiles hg
  obtain ⟨text, htext⟩ := Option.isSome_iff_exists.1 hg
  have hread : requestedProfiles (options.withProfiles profiles) g = profileList text :=
    requestedProfiles_set hvariable htext
  have hignored : activeProfiles (options.withProfiles profiles) g = activeProfiles options g := by
    rw [activeProfiles, activeProfiles, requestedProfiles_set hvariable htext, hread]
  exact ⟨hignored, fun directory _ _ => Discovery.select_congr_active directory rfl hignored⟩

/-- Blanks around names, a blank item, one without characters, and a name that comes again. -/
theorem activeProfiles_requested_padded :
    let options : Options := { profiles := ["qa"] }
    let names := ["dev", "prod", "dev"]
    let items := [" dev", "", " prod ", "\t", "dev"]
    let e := Environment.ofList [("YODEL_PROFILES", " dev,, prod ,\t,dev")]
    (∀ name ∈ names, IsProfileName name) ∧ options.profileVariable ≠ "" ∧ Requests names items ∧
      e.value? options.profileVariable = some (",".intercalate items) ∧
      Environment.empty.value? options.profileVariable = none ∧
      activeProfiles options e = activeProfiles (options.withProfiles names) .empty ∧
      activeProfiles options e = ["dev", "prod"] := by
  intro options names items e
  have hnames : ∀ name ∈ names, IsProfileName name := by
    simp only [names, List.forall_mem_cons, List.not_mem_nil, false_imp_iff, implies_true, and_true]
    exact ⟨⟨by decide, by decide, by decide⟩, ⟨by decide, by decide, by decide⟩,
      ⟨by decide, by decide, by decide⟩⟩
  have hitems : Requests names items :=
    .name " " "" rfl rfl <| .blank rfl <| .name " " " " rfl rfl <| .blank rfl <|
      .name "" "" rfl rfl .nil
  have hset : e.value? options.profileVariable = some (",".intercalate items) := by decide +kernel
  exact ⟨hnames, by decide, hitems, hset, rfl,
    (activeProfiles_requested hnames (by decide) hitems hset rfl).1, by decide +kernel⟩

end LayeredConfig
