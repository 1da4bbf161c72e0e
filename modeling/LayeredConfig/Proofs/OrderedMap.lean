import LayeredConfig.OrderedMap
import Mathlib.Data.List.Nodup

/-!
# Laws of maps in insertion order

What lookups find after one write and after a list of writes. Merging and building from a list are
lists of writes, so their laws are instances.
-/

namespace LayeredConfig.OrderedMap

variable {κ α β : Type}

-- ---------------------------------------------------------------------------
-- Entries, keys and lookups
-- ---------------------------------------------------------------------------

theorem mem_keys_of_mem {m : OrderedMap κ α} {e : κ × α} (h : e ∈ m.entries) : e.1 ∈ m.keys :=
  List.mem_map_of_mem h

theorem isEmpty_iff {m : OrderedMap κ α} : m.isEmpty = true ↔ m.keys = [] := by
  simp [isEmpty, keys]

variable [DecidableEq κ]

@[simp] theorem get?_empty (k : κ) : (empty : OrderedMap κ α).get? k = none := rfl

theorem find?_eq_some_iff {entries : List (κ × α)} (hd : (entries.map Prod.fst).Nodup) {k : κ}
    {v : α} : (entries.find? (·.1 = k)).map Prod.snd = some v ↔ (k, v) ∈ entries := by
  induction entries with
  | nil => simp
  | cons e rest ih =>
    obtain ⟨l, w⟩ := e
    have hnd := List.nodup_cons.1 hd
    by_cases h : l = k
    · subst h
      have hl : (l, v) ∉ rest := fun hm =>
        hnd.1 (List.mem_map.2 ⟨_, hm, rfl⟩)
      simp [hl, eq_comm]
    · have h' : k ≠ l := fun e => h e.symm
      simpa [List.find?_cons, h, h'] using ih hnd.2

theorem get?_eq_some_iff {m : OrderedMap κ α} {k : κ} {v : α} :
    m.get? k = some v ↔ (k, v) ∈ m.entries :=
  find?_eq_some_iff m.distinct

theorem contains_iff {m : OrderedMap κ α} {k : κ} : m.contains k = true ↔ k ∈ m.keys := by
  rw [contains, Option.isSome_iff_exists]
  constructor
  · rintro ⟨v, h⟩
    exact mem_keys_of_mem (get?_eq_some_iff.1 h)
  · intro h
    obtain ⟨⟨_, v⟩, hm, rfl⟩ := List.mem_map.1 h
    exact ⟨v, get?_eq_some_iff.2 hm⟩

theorem get?_eq_none_iff {m : OrderedMap κ α} {k : κ} : m.get? k = none ↔ k ∉ m.keys := by
  rw [← contains_iff, contains]
  cases m.get? k <;> simp

theorem mem_keys_insert {m : OrderedMap κ α} {k l : κ} {v : α} :
    l ∈ (m.insert k v).keys ↔ l = k ∨ l ∈ m.keys := by
  rw [keys_insert]
  split
  · constructor
    · exact .inr
    · rintro (rfl | h) <;> assumption
  · simp [or_comm]

theorem mem_entries_insert {m : OrderedMap κ α} {k : κ} {v : α} {e : κ × α}
    (h : e ∈ (m.insert k v).entries) : e = (k, v) ∨ e ∈ m.entries := by
  have hg := get?_eq_some_iff.2 h
  rw [get?_insert] at hg
  split at hg
  · rename_i hk
    cases hg
    exact .inl (Prod.ext hk.symm rfl)
  · exact .inr (get?_eq_some_iff.1 hg)

-- ---------------------------------------------------------------------------
-- Lists of writes
-- ---------------------------------------------------------------------------

def insertAll (m : OrderedMap κ α) (entries : List (κ × α)) : OrderedMap κ α :=
  entries.foldl (fun m e => m.insert e.1 e.2) m

@[simp] theorem insertAll_nil (m : OrderedMap κ α) : m.insertAll [] = m := rfl

@[simp] theorem insertAll_cons (m : OrderedMap κ α) (e : κ × α) (entries : List (κ × α)) :
    m.insertAll (e :: entries) = (m.insert e.1 e.2).insertAll entries := rfl

theorem insertAll_append (m : OrderedMap κ α) (entries more : List (κ × α)) :
    m.insertAll (entries ++ more) = (m.insertAll entries).insertAll more :=
  List.foldl_append

theorem merge_eq_insertAll (m n : OrderedMap κ α) : m.merge n = m.insertAll n.entries := rfl

theorem ofList_eq_insertAll (entries : List (κ × α)) : ofList entries = empty.insertAll entries :=
  rfl

theorem mem_keys_insertAll {m : OrderedMap κ α} {entries : List (κ × α)} {k : κ} :
    k ∈ (m.insertAll entries).keys ↔ k ∈ entries.map Prod.fst ∨ k ∈ m.keys := by
  induction entries generalizing m with
  | nil => simp
  | cons e rest ih =>
    rw [insertAll_cons, ih, mem_keys_insert, List.map_cons, List.mem_cons, ← or_assoc,
      @or_comm (k = e.1)]

theorem mem_entries_insertAll {m : OrderedMap κ α} {entries : List (κ × α)} {e : κ × α}
    (h : e ∈ (m.insertAll entries).entries) : e ∈ entries ∨ e ∈ m.entries := by
  induction entries generalizing m with
  | nil => exact .inr h
  | cons f rest ih =>
    rcases ih h with h | h
    · exact .inl (List.mem_cons_of_mem _ h)
    · rcases mem_entries_insert h with rfl | h
      · exact .inl List.mem_cons_self
      · exact .inr h

theorem get?_insertAll {m : OrderedMap κ α} {entries : List (κ × α)} {f : κ → Option α}
    (hf : ∀ e ∈ entries, f e.1 = some e.2) (k : κ) :
    (m.insertAll entries).get? k = if k ∈ entries.map Prod.fst then f k else m.get? k := by
  induction entries generalizing m with
  | nil => simp
  | cons e rest ih =>
    rw [insertAll_cons, ih fun e he => hf e (List.mem_cons_of_mem _ he), get?_insert]
    by_cases hr : k ∈ rest.map Prod.fst
    · simp [hr]
    · by_cases he : e.1 = k
      · subst he
        simp [hf e List.mem_cons_self]
      · have he' : k ≠ e.1 := fun h => he h.symm
        rw [if_neg hr, if_neg he, List.map_cons, if_neg (by simp_all)]

theorem put_of_not_mem {k : κ} {v : α} {entries : List (κ × α)} (h : k ∉ entries.map Prod.fst) :
    put k v entries = entries ++ [(k, v)] := by
  induction entries with
  | nil => rfl
  | cons e rest ih =>
    rw [List.map_cons, List.mem_cons, not_or] at h
    rw [put, if_neg (Ne.symm h.1), ih h.2, List.cons_append]

theorem entries_insertAll {m : OrderedMap κ α} {entries : List (κ × α)}
    (h : ((m.entries ++ entries).map Prod.fst).Nodup) :
    (m.insertAll entries).entries = m.entries ++ entries := by
  induction entries generalizing m with
  | nil => rw [insertAll_nil, List.append_nil]
  | cons e rest ih =>
    have hnew : e.1 ∉ m.entries.map Prod.fst := by
      rw [List.map_append, List.map_cons] at h
      exact fun hm => List.disjoint_of_nodup_append h hm List.mem_cons_self
    have hput : (m.insert e.1 e.2).entries = m.entries ++ [e] := put_of_not_mem hnew
    rw [insertAll_cons, ih (by rwa [hput, List.append_assoc]), hput, List.append_assoc]
    rfl

theorem entries_ofList {entries : List (κ × α)} (h : (entries.map Prod.fst).Nodup) :
    (ofList entries).entries = entries :=
  entries_insertAll h

-- ---------------------------------------------------------------------------
-- Merging
-- ---------------------------------------------------------------------------

theorem mem_keys_merge {m n : OrderedMap κ α} {k : κ} :
    k ∈ (m.merge n).keys ↔ k ∈ n.keys ∨ k ∈ m.keys :=
  mem_keys_insertAll

theorem mem_entries_merge {m n : OrderedMap κ α} {e : κ × α} (h : e ∈ (m.merge n).entries) :
    e ∈ n.entries ∨ e ∈ m.entries :=
  mem_entries_insertAll h

theorem get?_merge (m n : OrderedMap κ α) (k : κ) :
    (m.merge n).get? k = (n.get? k).or (m.get? k) := by
  rw [merge_eq_insertAll, get?_insertAll (f := n.get?) fun e he => get?_eq_some_iff.2 he]
  split
  · rename_i h
    obtain ⟨v, hv⟩ := Option.isSome_iff_exists.1 (contains_iff.2 h)
    rw [hv, Option.some_or]
  · rename_i h
    rw [get?_eq_none_iff.2 h, Option.none_or]

theorem ext_get? {m n : OrderedMap κ α} (hkeys : m.keys = n.keys)
    (hget : ∀ k, m.get? k = n.get? k) : m = n := by
  have hentries (m : OrderedMap κ α) :
      m.entries = m.keys.filterMap fun k => (m.get? k).map (k, ·) := by
    rw [keys, List.filterMap_map]
    refine (List.filterMap_some.symm).trans (List.filterMap_congr fun e he => ?_)
    simp [get?_eq_some_iff.2 (show (e.1, e.2) ∈ m.entries from he)]
  refine ext_entries ?_
  simp only [hentries, hkeys, hget]

theorem keys_insertAll {m : OrderedMap κ α} {entries : List (κ × α)}
    (h : (entries.map Prod.fst).Nodup) :
    (m.insertAll entries).keys = m.keys ++ (entries.map Prod.fst).filter (· ∉ m.keys) := by
  induction entries generalizing m with
  | nil => simp
  | cons e rest ih =>
    obtain ⟨hnew, hrest⟩ := List.nodup_cons.1 h
    rw [insertAll_cons, ih hrest, keys_insert, List.map_cons]
    by_cases he : e.1 ∈ m.keys
    · simp [he]
    · have hfilter : (rest.map Prod.fst).filter (· ∉ m.keys ++ [e.1]) =
          (rest.map Prod.fst).filter (· ∉ m.keys) := by
        refine List.filter_congr fun k hk => ?_
        have hne : k ≠ e.1 := fun h => hnew (h ▸ hk)
        simp [hne]
      rw [if_neg he, hfilter, List.filter_cons_of_pos (by simpa using he), List.append_assoc]
      rfl

theorem keys_merge (m n : OrderedMap κ α) :
    (m.merge n).keys = m.keys ++ n.keys.filter (· ∉ m.keys) :=
  keys_insertAll n.distinct

theorem merge_assoc (m n o : OrderedMap κ α) : (m.merge n).merge o = m.merge (n.merge o) := by
  refine ext_get? ?_ fun k => ?_
  · simp only [keys_merge, List.filter_append, List.filter_filter, List.append_assoc]
    congr 2
    refine List.filter_congr fun k _ => ?_
    simp only [List.mem_append, List.mem_filter]
    by_cases hk : k ∈ m.keys <;> simp [hk]
  · simp only [get?_merge, Option.or_assoc]

@[simp] theorem merge_empty (m : OrderedMap κ α) : m.merge empty = m := rfl

@[simp] theorem empty_merge (m : OrderedMap κ α) : empty.merge m = m := by
  refine ext_get? ?_ fun k => ?_
  · simp [keys_merge]
  · rw [get?_merge, get?_empty, Option.or_none]

@[simp] theorem merge_self (m : OrderedMap κ α) : m.merge m = m := by
  refine ext_get? ?_ fun k => ?_
  · rw [keys_merge, List.filter_eq_nil_iff.2 (by simp), List.append_nil]
  · rw [get?_merge, Option.or_self]

theorem insert_of_get? {m : OrderedMap κ α} {k : κ} {v : α} (h : m.get? k = some v) :
    m.insert k v = m := by
  refine ext_get? ?_ fun l => ?_
  · rw [keys_insert, if_pos (contains_iff.1 (by rw [contains, h]; rfl))]
  · rw [get?_insert]
    split
    · rename_i hl
      rw [← hl, h]
    · rfl

/-- Where the value follows from the key, writes of what is stored already may be left out. -/
theorem insertAll_filter {γ : Type} {f : κ → α} {key : γ → κ} (keep : γ → Bool)
    {m : OrderedMap κ α} {sources : List γ}
    (h : ∀ s ∈ sources, keep s = false → m.get? (key s) = some (f (key s))) :
    m.insertAll ((sources.filter keep).map fun s => (key s, f (key s))) =
      m.insertAll (sources.map fun s => (key s, f (key s))) := by
  induction sources generalizing m with
  | nil => rfl
  | cons s rest ih =>
    obtain ⟨hs, hrest⟩ := List.forall_mem_cons.1 h
    cases hkeep : keep s with
    | false =>
      rw [List.filter_cons_of_neg (by simp [hkeep]), ih hrest, List.map_cons, insertAll_cons,
        insert_of_get? (hs hkeep)]
    | true =>
      rw [List.filter_cons_of_pos hkeep, List.map_cons, insertAll_cons, List.map_cons,
        insertAll_cons]
      refine ih fun r hr hskip => ?_
      rw [get?_insert]
      split
      · rename_i heq
        exact congrArg (fun k => some (f k)) heq
      · exact hrest r hr hskip

theorem insert_eq_merge (m : OrderedMap κ α) (k : κ) (v : α) :
    m.insert k v = m.merge (singleton k v) := rfl

theorem merge_insert (m n : OrderedMap κ α) (k : κ) (v : α) :
    m.merge (n.insert k v) = (m.merge n).insert k v := by
  rw [insert_eq_merge, insert_eq_merge, merge_assoc]

theorem merge_insertAll (m n : OrderedMap κ α) (entries : List (κ × α)) :
    m.merge (n.insertAll entries) = (m.merge n).insertAll entries := by
  induction entries generalizing n with
  | nil => rfl
  | cons e rest ih => rw [insertAll_cons, ih, merge_insert, insertAll_cons]

theorem merge_ofList (m : OrderedMap κ α) (entries : List (κ × α)) :
    m.merge (ofList entries) = m.insertAll entries := by
  rw [ofList_eq_insertAll, merge_insertAll, merge_empty]

theorem ofList_append (entries more : List (κ × α)) :
    ofList (entries ++ more) = (ofList entries).merge (ofList more) := by
  rw [merge_ofList, ofList_eq_insertAll, ofList_eq_insertAll, insertAll_append]

theorem get?_insertAll_lookup (m : OrderedMap κ α) (entries : List (κ × α)) (k : κ) :
    (m.insertAll entries).get? k = (entries.reverse.lookup k).or (m.get? k) := by
  induction entries generalizing m with
  | nil => rfl
  | cons e rest ih =>
    obtain ⟨l, w⟩ := e
    rw [insertAll_cons, ih, get?_insert, List.reverse_cons, List.lookup_append, Option.or_assoc]
    by_cases h : l = k
    · simp [h]
    · simp [List.lookup_cons, h, beq_eq_false_iff_ne.2 (Ne.symm h)]

/-- Maps without a common key have the same values over each other either way. -/
theorem get?_merge_comm {m n : OrderedMap κ α} (h : ∀ k ∈ m.keys, k ∉ n.keys) (k : κ) :
    (m.merge n).get? k = (n.merge m).get? k := by
  rw [get?_merge, get?_merge]
  by_cases hk : k ∈ m.keys
  · rw [get?_eq_none_iff.2 (h k hk), Option.none_or, Option.or_none]
  · rw [get?_eq_none_iff.2 hk, Option.none_or, Option.or_none]

-- ---------------------------------------------------------------------------
-- Changing every key or value
-- ---------------------------------------------------------------------------

omit [DecidableEq κ] in
@[simp] theorem entries_mapValues (f : α → β) (m : OrderedMap κ α) :
    (m.mapValues f).entries = m.entries.map fun e => (e.1, f e.2) := rfl

theorem put_map {μ : Type} [DecidableEq μ] {key : κ → μ} (hkey : Function.Injective key)
    (value : α → β) (k : κ) (v : α) (entries : List (κ × α)) :
    put (key k) (value v) (entries.map fun e => (key e.1, value e.2)) =
      (put k v entries).map fun e => (key e.1, value e.2) := by
  induction entries with
  | nil => rfl
  | cons e rest ih =>
    by_cases h : e.1 = k
    · simp [put, h]
    · simp [put, h, hkey.ne h, ih]

theorem entries_insertAll_map {μ : Type} [DecidableEq μ] {key : κ → μ}
    (hkey : Function.Injective key) {m : OrderedMap κ α} {n : OrderedMap μ α}
    (h : n.entries = m.entries.map fun e => (key e.1, e.2)) (entries : List (κ × α)) :
    (n.insertAll (entries.map fun e => (key e.1, e.2))).entries =
      (m.insertAll entries).entries.map fun e => (key e.1, e.2) := by
  induction entries generalizing m n with
  | nil => exact h
  | cons e rest ih =>
    refine ih ?_
    show put (key e.1) e.2 n.entries = _
    rw [h]
    exact put_map hkey id e.1 e.2 m.entries

/-- Of several writes to a key only the last needs to be made, under whatever key. -/
theorem insertAll_map_ofList {μ : Type} [DecidableEq μ] {key : κ → μ}
    (hkey : Function.Injective key) (m : OrderedMap μ α) (entries : List (κ × α)) :
    m.insertAll ((ofList entries).entries.map fun e => (key e.1, e.2)) =
      m.insertAll (entries.map fun e => (key e.1, e.2)) := by
  have hentries : (ofList (entries.map fun e => (key e.1, e.2))).entries =
      (ofList entries).entries.map fun e => (key e.1, e.2) :=
    entries_insertAll_map hkey rfl entries
  rw [← hentries, ← merge_eq_insertAll, merge_ofList]

theorem mapValues_insert (f : α → β) (m : OrderedMap κ α) (k : κ) (v : α) :
    (m.insert k v).mapValues f = (m.mapValues f).insert k (f v) :=
  ext_entries (put_map Function.injective_id f k v m.entries).symm

theorem mapValues_insertAll (f : α → β) (m : OrderedMap κ α) (entries : List (κ × α)) :
    (m.insertAll entries).mapValues f =
      (m.mapValues f).insertAll (entries.map fun e => (e.1, f e.2)) := by
  induction entries generalizing m with
  | nil => rfl
  | cons e rest ih => rw [insertAll_cons, ih, mapValues_insert, List.map_cons, insertAll_cons]

theorem mapValues_ofList (f : α → β) (entries : List (κ × α)) :
    (ofList entries).mapValues f = ofList (entries.map fun e => (e.1, f e.2)) :=
  mapValues_insertAll f empty entries

end LayeredConfig.OrderedMap
