import LayeredConfig.Json.Read
import LayeredConfig.Proofs.Outcome

/-!
# Parts of JSON documents

A property of documents that goes from the parts to the whole holds of every document that is read.
The names of an object's members are distinct, as repeated ones are refused.
-/

namespace LayeredConfig.Json

/-- No name is repeated exactly if the names are distinct, and distinct from those before. -/
theorem repeated?_eq_none_iff {before : List Text} {members : List (Text × Document)} :
    repeated? before members = none ↔
      (members.map Prod.fst).Nodup ∧ ∀ m ∈ members, m.1 ∉ before := by
  induction members generalizing before with
  | nil => simp [repeated?]
  | cons m rest ih =>
    obtain ⟨name, d⟩ := m
    rw [repeated?, List.contains_eq_mem, List.map_cons, List.nodup_cons, List.forall_mem_cons]
    by_cases hname : name ∈ before
    · simp [hname]
    · simp only [hname, decide_false, Bool.false_eq_true, if_false, ih, List.mem_cons, not_or]
      simp only [List.mem_map, not_exists, not_and, not_false_eq_true, true_and]
      constructor
      · rintro ⟨hn, hr⟩
        exact ⟨⟨fun m hm e => (hr m hm).1 e, hn⟩, fun m hm => (hr m hm).2⟩
      · rintro ⟨⟨hne, hn⟩, hr⟩
        exact ⟨hn, fun m hm => ⟨hne m hm, hr m hm⟩⟩

theorem close_ok {members : List (Text × Document)} {d : Document} :
    close members = .ok d ↔ (members.map Prod.fst).Nodup ∧ Document.object members = d := by
  have hiff : repeated? [] members = none ↔ (members.map Prod.fst).Nodup := by
    simp [repeated?_eq_none_iff]
  unfold close
  split
  · rename_i name heq
    exact iff_of_false nofun fun h => by simp [hiff.2 h.1] at heq
  · rename_i heq
    exact ⟨fun h => ⟨hiff.1 heq, Except.ok.inj h⟩, fun h => congrArg _ h.2⟩

/-- A property that documents have as their parts have it. -/
structure Inherited (P : Document → Prop) : Prop where
  str : ∀ s, P (.str s)
  word : ∀ {cs rest v}, takeWord? cs = some (v, rest) → P (.leaf v)
  number : ∀ {cs rest v}, takeNumber cs = .ok (v, rest) → P (.leaf v)
  list : ∀ {items}, (∀ d ∈ items, P d) → P (.list items)
  object : ∀ {members : List (Text × Document)}, (members.map Prod.fst).Nodup →
    (∀ m ∈ members, P m.2) → P (Document.object members)

variable {P : Document → Prop} {cs rest : List Char}

mutual

theorem takeValue_inherited (hP : Inherited P) : (fuel : Nat) → {cs rest : List Char} →
    {d : Document} → takeValue fuel cs = .ok (d, rest) → P d
  | 0, cs, rest, d, h => by cases cs <;> cases h
  | fuel + 1, cs, rest, d, h => by
    unfold takeValue at h
    split at h
    · cases h
    · cases h
    · obtain ⟨⟨s, _⟩, -, h⟩ := bind_ok.1 h
      cases h
      exact hP.str s
    · rename_i heq
      cases heq
      split at h
      · cases h
        exact hP.object List.nodup_nil (List.forall_mem_nil _)
      · obtain ⟨⟨members, _⟩, hm, h⟩ := bind_ok.1 h
        obtain ⟨object, ho, h⟩ := bind_ok.1 h
        cases h
        obtain ⟨hn, rfl⟩ := close_ok.1 ho
        exact hP.object hn (takeMembers_inherited hP fuel hm)
    · rename_i heq
      cases heq
      split at h
      · cases h
        exact hP.list (List.forall_mem_nil _)
      · obtain ⟨⟨items, _⟩, hi, h⟩ := bind_ok.1 h
        cases h
        exact hP.list (takeItems_inherited hP fuel hi)
    · split at h
      · rename_i hw
        cases h
        exact hP.word hw
      · obtain ⟨⟨v, _⟩, hv, h⟩ := bind_ok.1 h
        cases h
        exact hP.number hv

theorem takeMembers_inherited (hP : Inherited P) : (fuel : Nat) → {cs rest : List Char} →
    {members : List (Text × Document)} → takeMembers fuel cs = .ok (members, rest) →
    ∀ m ∈ members, P m.2
  | 0, cs, rest, members, h => by cases h
  | fuel + 1, cs, rest, members, h => by
    unfold takeMembers at h
    split at h
    · cases h
    · rename_i heq
      cases heq
      obtain ⟨⟨name, _⟩, -, h⟩ := bind_ok.1 h
      simp only at h
      split at h
      · obtain ⟨⟨value, _⟩, hv, h⟩ := bind_ok.1 h
        have hvalue := takeValue_inherited hP fuel hv
        simp only at h
        split at h
        · cases h
          exact List.forall_mem_singleton.2 hvalue
        · obtain ⟨⟨later, _⟩, hl, h⟩ := bind_ok.1 h
          cases h
          exact List.forall_mem_cons.2 ⟨hvalue, takeMembers_inherited hP fuel hl⟩
        · cases h
      · cases h
    · cases h

theorem takeItems_inherited (hP : Inherited P) : (fuel : Nat) → {cs rest : List Char} →
    {items : List Document} → takeItems fuel cs = .ok (items, rest) → ∀ d ∈ items, P d
  | 0, cs, rest, items, h => by cases h
  | fuel + 1, cs, rest, items, h => by
    unfold takeItems at h
    obtain ⟨⟨value, _⟩, hv, h⟩ := bind_ok.1 h
    have hvalue := takeValue_inherited hP fuel hv
    simp only at h
    split at h
    · cases h
      exact List.forall_mem_singleton.2 hvalue
    · obtain ⟨⟨later, _⟩, hl, h⟩ := bind_ok.1 h
      cases h
      exact List.forall_mem_cons.2 ⟨hvalue, takeItems_inherited hP fuel hl⟩
    · cases h

end

theorem read_inherited (hP : Inherited P) {text : String} {d : Document} (h : read text = .ok d) :
    P d := by
  have h : readChars text.toList = .ok d := mapError_ok.1 h
  unfold readChars at h
  split at h
  · cases h
  · obtain ⟨⟨value, _⟩, hv, h⟩ := bind_ok.1 h
    simp only at h
    split at h
    · cases h
      exact takeValue_inherited hP _ hv
    · cases h

end LayeredConfig.Json
