import LayeredConfig.Proofs.Tree.Named
import LayeredConfig.Toml.Read

/-!
# Names in TOML documents

Every table of a TOML document has distinct texts as keys: tables only ever get fields by name, each
written in the place of the same name.
-/

namespace LayeredConfig.Toml

-- ---------------------------------------------------------------------------
-- Tables
-- ---------------------------------------------------------------------------

namespace Table

variable {t u : Table} {name : String}

/-- The keys of the table and of those below it are distinct texts. -/
def Named (t : Table) : Prop := (Document.map t).Named

theorem Named.set {d : Document} (ht : t.Named) (hd : d.Named) : (t.set name d).Named :=
  Document.Named.putField hd ht

theorem Named.get? {d : Document} (ht : t.Named) (h : t.get? name = some d) : d.Named :=
  Document.Named.field ht h

theorem Named.alter {change : Table → Option Table} {throughArrays : Bool}
    (hchange : ∀ t u, Named t → change t = some u → Named u) {key : List String} (ht : t.Named)
    (h : alter change throughArrays key t = some u) : u.Named := by
  induction key generalizing t u with
  | nil => exact hchange t u ht h
  | cons name rest ih =>
    rw [Table.alter] at h
    split at h
    · obtain ⟨inner, hinner, hu⟩ := Option.bind_eq_some_iff.1 h
      cases hu
      exact ht.set (ih Document.named_map_nil hinner)
    · rename_i inner hget
      obtain ⟨inner', hinner, hu⟩ := Option.bind_eq_some_iff.1 h
      cases hu
      exact ht.set (ih (ht.get? hget) hinner)
    · rename_i items hget
      have hitems := Document.named_list.1 (ht.get? hget)
      split at h
      · rename_i inner hlast
        obtain ⟨inner', hinner, hu⟩ := Option.bind_eq_some_iff.1 h
        cases hu
        refine ht.set (Document.named_list.2 (List.forall_mem_append.2 ⟨fun d hd => ?_, ?_⟩))
        · exact hitems d (List.dropLast_subset items hd)
        · exact List.forall_mem_singleton.2
            (ih (hitems _ (List.mem_of_getLast? hlast)) hinner)
      · cases h
    · cases h

theorem Named.add {d : Document} (hd : d.Named) (ht : t.Named) (h : t.add name d = some u) :
    u.Named := by
  unfold Table.add at h
  split at h
  · cases h
    exact ht.set hd
  · cases h

theorem Named.append (ht : t.Named) (h : t.append name = some u) : u.Named := by
  unfold Table.append at h
  split at h
  · cases h
    refine ht.set (Document.named_list.2 (List.forall_mem_singleton.2 Document.named_map_nil))
  · rename_i items hget
    cases h
    refine ht.set (Document.named_list.2 (List.forall_mem_append.2 ⟨?_, ?_⟩))
    · exact Document.named_list.1 (ht.get? hget)
    · exact List.forall_mem_singleton.2 Document.named_map_nil
  · cases h

end Table

-- ---------------------------------------------------------------------------
-- Drafts
-- ---------------------------------------------------------------------------

namespace Draft

variable {d d' : Draft} {key : List String}

theorem declareTable_named (hd : d.table.Named) (h : d.declareTable key = .ok d') :
    d'.table.Named := by
  unfold declareTable at h
  split at h
  · cases h
  · split at h
    · cases h
    · rename_i table halter
      cases h
      exact hd.alter (fun t u ht hu => Option.some.inj hu ▸ ht) halter

theorem declareItem_named (hd : d.table.Named) (h : d.declareItem key = .ok d') :
    d'.table.Named := by
  unfold declareItem at h
  split at h
  · cases h
  · split at h
    · cases h
    · rename_i table halter
      cases h
      exact hd.alter (fun _ _ => Table.Named.append) halter

theorem assign_named {value : Document} (hd : d.table.Named) (hv : value.Named)
    (h : d.assign key value = .ok d') : d'.table.Named := by
  simp only [assign] at h
  split at h
  · cases h
  · split at h
    · cases h
    · split at h
      · cases h
      · rename_i table halter
        cases h
        exact hd.alter (fun _ _ => Table.Named.add hv) halter

end Draft

-- ---------------------------------------------------------------------------
-- Values
-- ---------------------------------------------------------------------------

variable {cs rest : List Char}

theorem takeSimple_named {d : Document} (h : takeSimple cs = .ok (d, rest)) : d.Named := by
  suffices hscalar : ∃ s, d = .scalar s by
    obtain ⟨s, rfl⟩ := hscalar
    rw [Document.Named]
    trivial
  unfold takeSimple at h
  split at h
  · obtain ⟨_, -, hd⟩ := map_ok.1 h
    cases hd
    exact ⟨_, rfl⟩
  · split at h
    · cases h
      exact ⟨_, rfl⟩
    · cases h
      exact ⟨_, rfl⟩
    · split at h
      · obtain ⟨_, -, hd⟩ := map_ok.1 h
        cases hd
        exact ⟨_, rfl⟩
      · split at h
        · obtain ⟨_, -, hd⟩ := map_ok.1 h
          cases hd
          exact ⟨_, rfl⟩
        · cases h
          exact ⟨_, rfl⟩
        · cases h

theorem addInline_named {table table' : Table} {frozen : List (List String)} {key : List String}
    {value : Document} (ht : table.Named) (hv : value.Named)
    (h : addInline table frozen key value = .ok table') : table'.Named := by
  unfold addInline at h
  split at h
  · cases h
  · simp only at h
    split at h
    · cases h
    · split at h
      · cases h
      · rename_i halter
        cases h
        exact ht.alter (fun _ _ => Table.Named.add hv) halter

/-- The statement for values, items and fields at once, as they read each other. -/
theorem take_named (fuel : Nat) :
    (∀ {cs rest d}, takeValue fuel cs = .ok (d, rest) → d.Named) ∧
      (∀ {cs rest items}, takeItems fuel cs = .ok (items, rest) → ∀ d ∈ items, d.Named) ∧
      ∀ {table frozen cs rest table'}, table.Named →
        takeFields fuel table frozen cs = .ok (table', rest) → table'.Named := by
  induction fuel with
  | zero =>
    refine ⟨fun {cs rest d} h => ?_, fun {cs rest items} h => ?_,
      fun {table frozen cs rest table'} ht h => ?_⟩ <;> cases h
  | succ fuel ih =>
    obtain ⟨ihValue, ihItems, ihFields⟩ := ih
    refine ⟨fun {cs rest d} h => ?_, fun {cs rest items} h => ?_,
      fun {table frozen cs rest table'} ht h => ?_⟩
    · -- a list, an inline table or what takes one scan
      unfold takeValue at h
      split at h
      · cases h
      · rename_i heq
        cases heq
        obtain ⟨after, -, h⟩ := bind_ok.1 h
        split at h
        · cases h
          exact Document.named_list.2 (List.forall_mem_nil _)
        · obtain ⟨⟨items, _⟩, hi, h⟩ := bind_ok.1 h
          cases h
          exact Document.named_list.2 (ihItems hi)
      · rename_i heq
        cases heq
        split at h
        · cases h
          exact Document.named_map_nil
        · obtain ⟨⟨table, _⟩, ht, h⟩ := bind_ok.1 h
          cases h
          exact ihFields Document.named_map_nil ht
      · exact takeSimple_named h
    · rw [takeItems] at h
      obtain ⟨⟨value, _⟩, hv, h⟩ := bind_ok.1 h
      obtain ⟨after, -, h⟩ := bind_ok.1 h
      split at h
      · cases h
        exact List.forall_mem_singleton.2 (ihValue hv)
      · obtain ⟨after, -, h⟩ := bind_ok.1 h
        split at h
        · cases h
          exact List.forall_mem_singleton.2 (ihValue hv)
        · obtain ⟨⟨items, _⟩, hi, h⟩ := bind_ok.1 h
          cases h
          exact List.forall_mem_cons.2 ⟨ihValue hv, ihItems hi⟩
      · cases h
    · rw [takeFields] at h
      obtain ⟨⟨key, _⟩, -, h⟩ := bind_ok.1 h
      obtain ⟨after, -, h⟩ := bind_ok.1 h
      obtain ⟨⟨value, _⟩, hv, h⟩ := bind_ok.1 h
      obtain ⟨table, hadd, h⟩ := bind_ok.1 h
      have htable := addInline_named ht (ihValue hv) (mapError_ok.1 hadd)
      split at h
      · cases h
        exact htable
      · exact ihFields htable h
      · cases h

-- ---------------------------------------------------------------------------
-- Statements
-- ---------------------------------------------------------------------------

variable {d d' : Draft}

theorem takeAssignment_named (hd : d.table.Named) (h : takeAssignment d cs = .ok (d', rest)) :
    d'.table.Named := by
  obtain ⟨⟨key, _⟩, -, h⟩ := bind_ok.1 h
  obtain ⟨after, -, h⟩ := bind_ok.1 h
  obtain ⟨⟨value, _⟩, hv, h⟩ := bind_ok.1 h
  obtain ⟨d'', hassign, h⟩ := bind_ok.1 h
  cases h
  exact Draft.assign_named hd ((take_named _).1 hv) (mapError_ok.1 hassign)

theorem takeHeader_named (hd : d.table.Named) (h : takeHeader d cs = .ok (d', rest)) :
    d'.table.Named := by
  unfold takeHeader at h
  simp only at h
  split at h
  · obtain ⟨⟨key, _⟩, -, h⟩ := bind_ok.1 h
    obtain ⟨d'', hdeclare, h⟩ := bind_ok.1 h
    have htable := Draft.declareItem_named (d := d.endSection) hd (mapError_ok.1 hdeclare)
    split at h
    · cases h
      exact htable
    · cases h
  · obtain ⟨⟨key, _⟩, -, h⟩ := bind_ok.1 h
    obtain ⟨d'', hdeclare, h⟩ := bind_ok.1 h
    have htable := Draft.declareTable_named (d := d.endSection) hd (mapError_ok.1 hdeclare)
    split at h
    · cases h
      exact htable
    · cases h

theorem takeStatement_named (hd : d.table.Named) (h : takeStatement d cs = .ok (d', rest)) :
    d'.table.Named := by
  unfold takeStatement at h
  split at h
  · cases h
    exact hd
  · split at h
    · exact takeAssignment_named hd h
    · split at h
      · exact takeHeader_named hd h
      · split at h
        · cases h
          exact hd
        · cases h

theorem takeStatements_named {fuel : Nat} (hd : d.table.Named)
    (h : takeStatements fuel d cs = .ok d') : d'.table.Named := by
  induction fuel generalizing d cs with
  | zero =>
    cases h
    exact hd
  | succ fuel ih =>
    obtain ⟨⟨d'', _⟩, hstatement, h⟩ := bind_ok.1 h
    have htable := takeStatement_named hd hstatement
    obtain ⟨after, -, h⟩ := bind_ok.1 h
    split at h
    · cases h
      exact htable
    · exact ih htable h
    · cases h

theorem read_named {text : String} {d : Document} (h : read text = .ok d) : d.Named := by
  simp only [read] at h
  split at h
  · rename_i hstatements
    cases h
    exact takeStatements_named (d := {}) Document.named_map_nil hstatements
  · cases h

end LayeredConfig.Toml
