import LayeredConfig.Proofs.Json.Leaf
import LayeredConfig.Proofs.Json.Parts
import LayeredConfig.Proofs.Tree.Proper

/-!
# JSON texts read back

`readChars_write`: a document that is written is read back as it is, on one line or with any
indentation. Items and members are read one by one; between two of them stands a separator, and
behind the last one the end of the container.
-/

namespace LayeredConfig.Json

open Text

-- ---------------------------------------------------------------------------
-- Space
-- ---------------------------------------------------------------------------

theorem skipSpace_cons {c : Char} (h : isSpace c = false) (cs : List Char) :
    skipSpace (c :: cs) = c :: cs :=
  List.dropWhile_cons_of_neg (by rw [h]; exact Bool.false_ne_true)

theorem skipSpace_append {cs : List Char} (h : ∀ c ∈ cs, isSpace c = true) (rest : List Char) :
    skipSpace (cs ++ rest) = skipSpace rest :=
  List.dropWhile_append_of_pos h

theorem isSpace_of_mem_lineBreak {indent : Option Nat} {depth : Nat} {c : Char}
    (h : c ∈ lineBreak indent depth) : isSpace c = true := by
  cases indent with
  | none => cases h
  | some width =>
    rcases List.mem_cons.1 h with rfl | h
    · rfl
    · cases List.eq_of_mem_replicate h
      rfl

@[simp] theorem skipSpace_lineBreak (indent : Option Nat) (depth : Nat) (rest : List Char) :
    skipSpace (lineBreak indent depth ++ rest) = skipSpace rest :=
  skipSpace_append (fun _ => isSpace_of_mem_lineBreak) rest

theorem exists_separator (indent : Option Nat) (depth : Nat) :
    ∃ space, separator indent depth = ',' :: space ∧ ∀ c ∈ space, isSpace c = true := by
  cases indent with
  | none => exact ⟨[' '], rfl, by simp [isSpace]⟩
  | some width => exact ⟨lineBreak (some width) depth, rfl, fun _ => isSpace_of_mem_lineBreak⟩

-- ---------------------------------------------------------------------------
-- One step of the reader
-- ---------------------------------------------------------------------------

variable {fuel : Nat} {cs rest after more : List Char} {d : Document} {name : Text}

theorem takeItems_last (hd : takeValue fuel cs = .ok (d, rest))
    (h : skipSpace rest = ']' :: after) : takeItems (fuel + 1) cs = .ok ([d], after) := by
  rw [takeItems, hd]
  simp only [bind, Except.bind, h]
  rfl

theorem takeItems_more (hd : takeValue fuel cs = .ok (d, rest))
    (h : skipSpace rest = ',' :: more) :
    takeItems (fuel + 1) cs =
      (takeItems fuel (skipSpace more)).map fun r => (d :: r.1, r.2) := by
  rw [takeItems, hd]
  simp only [bind, Except.bind, h]
  cases takeItems fuel (skipSpace more) <;> rfl

theorem takeValue_list (hc : (skipSpace cs).head? ≠ some ']') :
    takeValue (fuel + 1) ('[' :: cs) =
      (takeItems fuel (skipSpace cs)).map fun r => (.list r.1, r.2) := by
  unfold takeValue
  simp only
  split
  · rw [‹skipSpace cs = _›] at hc
    exact absurd rfl hc
  · cases takeItems fuel (skipSpace cs) <;> rfl

/-- A member at the front of a text: a name, a colon and a value. -/
def Member (fuel : Nat) (cs : List Char) (name : Text) (d : Document) (rest : List Char) : Prop :=
  ∃ behindName behindColon, takeString cs = .ok (name, behindName) ∧
    skipSpace behindName = ':' :: behindColon ∧
    takeValue fuel (skipSpace behindColon) = .ok (d, rest)

theorem takeMembers_last (hm : Member fuel cs name d rest) (h : skipSpace rest = '}' :: after) :
    takeMembers (fuel + 1) ('"' :: cs) = .ok ([(name, d)], after) := by
  obtain ⟨_, _, hname, hcolon, hd⟩ := hm
  rw [takeMembers, hname]
  simp only [bind, Except.bind, hcolon, hd, h]
  rfl

theorem takeMembers_more (hm : Member fuel cs name d rest) (h : skipSpace rest = ',' :: more) :
    takeMembers (fuel + 1) ('"' :: cs) =
      (takeMembers fuel (skipSpace more)).map fun r => ((name, d) :: r.1, r.2) := by
  obtain ⟨_, _, hname, hcolon, hd⟩ := hm
  rw [takeMembers, hname]
  simp only [bind, Except.bind, hcolon, hd, h]
  cases takeMembers fuel (skipSpace more) <;> rfl

theorem takeValue_map (hc : (skipSpace cs).head? ≠ some '}') :
    takeValue (fuel + 1) ('{' :: cs) =
      takeMembers fuel (skipSpace cs) >>= fun r => (close r.1).map fun d => (d, r.2) := by
  unfold takeValue
  simp only
  split
  · rw [‹skipSpace cs = _›] at hc
    exact absurd rfl hc
  · cases takeMembers fuel (skipSpace cs) with
    | error e => rfl
    | ok r => cases hr : close r.1 <;> simp [bind, Except.bind, hr, Except.map, pure, Except.pure]

-- ---------------------------------------------------------------------------
-- What is written
-- ---------------------------------------------------------------------------

mutual

/-- A document that a JSON text gives back: its mappings have distinct strings as keys, and its
scalars are leaves that a JSON text gives back. -/
def Writable : Document → Prop
  | .scalar s => ∃ v, s = .leaf v ∧ v.Exact
  | .list items => WritableItems items
  | .map fields => (fields.map Prod.fst).Nodup ∧ WritableFields fields

def WritableItems : List Document → Prop
  | [] => True
  | d :: rest => Writable d ∧ WritableItems rest

def WritableFields : List (Scalar × Document) → Prop
  | [] => True
  | (k, d) :: rest => (∃ name : String, k = .str name) ∧ Writable d ∧ WritableFields rest

end

variable {indent : Option Nat} {depth : Nat}

theorem exists_write {d : Document} (hd : Writable d) (indent : Option Nat) (depth : Nat) :
    ∃ c cs, write indent depth d = c :: cs ∧ Opens c := by
  match d with
  | .scalar s =>
    rw [Writable] at hd
    obtain ⟨v, rfl, hv⟩ := hd
    rw [write]
    exact exists_writeLeaf hv
  | .list [] | .map [] => exact ⟨_, _, by rw [write], rfl, by decide⟩
  | .list (d :: rest) | .map ((k, d) :: rest) => exact ⟨_, _, by rw [write]; rfl, rfl, by decide⟩

theorem skipSpace_write {d : Document} (hd : Writable d) (rest : List Char) :
    skipSpace (write indent depth d ++ rest) = write indent depth d ++ rest := by
  obtain ⟨c, cs, hw, hc, -⟩ := exists_write hd indent depth
  rw [hw, List.cons_append, skipSpace_cons hc]

theorem ends_cons {c : Char} (h : isDigit c = false ∧ c ≠ '.' ∧ c ≠ 'e' ∧ c ≠ 'E')
    (cs : List Char) : Ends (c :: cs) := by
  intro d hd
  cases hd
  exact h

theorem ends_lineBreak (h : Ends rest) : Ends (lineBreak indent depth ++ rest) := by
  cases indent with
  | none => exact h
  | some width => exact ends_cons (by decide) _

theorem ends_separator : Ends (separator indent depth ++ rest) := by
  cases indent with
  | none => exact ends_cons (by decide) _
  | some width => exact ends_cons (by decide) _

theorem skipSpace_separator (indent : Option Nat) (depth : Nat) (rest : List Char) :
    ∃ more, skipSpace (separator indent depth ++ rest) = ',' :: more ∧
      skipSpace more = skipSpace rest := by
  obtain ⟨space, hsep, hspace⟩ := exists_separator indent depth
  exact ⟨space ++ rest, by rw [hsep]; rfl, skipSpace_append hspace rest⟩

theorem length_separator (indent : Option Nat) (depth : Nat) :
    0 < (separator indent depth).length := by
  obtain ⟨space, hsep, -⟩ := exists_separator indent depth
  rw [hsep]
  exact Nat.succ_pos _

def writeList (indent : Option Nat) (depth : Nat) : List Document → List Char
  | [] => []
  | d :: rest => write indent depth d ++ writeItems indent depth rest

def writeMembers (indent : Option Nat) (depth : Nat) : List (Scalar × Document) → List Char
  | [] => []
  | (k, d) :: rest =>
    writeName k ++ (':' :: ' ' :: (write indent depth d ++ writeFields indent depth rest))

theorem writeMembers_str (name : String) (d : Document) (fields : List (Scalar × Document)) :
    writeMembers indent depth ((.str name, d) :: fields) =
      '"' :: (name.toList.flatMap writeChar ++
        ('"' :: ':' :: ' ' :: (write indent depth d ++ writeFields indent depth fields))) := by
  simp [writeMembers, writeName, Scalar.str, writeString_string]

theorem writeItems_cons (d : Document) (items : List Document) :
    writeItems indent depth (d :: items) =
      separator indent depth ++ writeList indent depth (d :: items) := by
  rw [writeItems, writeList, List.append_assoc]

theorem writeFields_cons (f : Scalar × Document) (fields : List (Scalar × Document)) :
    writeFields indent depth (f :: fields) =
      separator indent depth ++ writeMembers indent depth (f :: fields) := by
  obtain ⟨k, d⟩ := f
  rw [writeFields, writeMembers]
  simp only [List.append_assoc, List.cons_append, List.nil_append]

theorem write_list (d : Document) (items : List Document) :
    write indent depth (.list (d :: items)) =
      '[' :: (lineBreak indent (depth + 1) ++ (writeList indent (depth + 1) (d :: items) ++
        (lineBreak indent depth ++ [']']))) := by
  rw [write, writeList]
  simp only [List.append_assoc, List.cons_append]

theorem write_map (f : Scalar × Document) (fields : List (Scalar × Document)) :
    write indent depth (.map (f :: fields)) =
      '{' :: (lineBreak indent (depth + 1) ++ (writeMembers indent (depth + 1) (f :: fields) ++
        (lineBreak indent depth ++ ['}']))) := by
  obtain ⟨k, d⟩ := f
  rw [write, writeMembers]
  simp only [List.append_assoc, List.cons_append, List.nil_append]

theorem skipSpace_writeList {d : Document} (hd : Writable d) (indent : Option Nat)
    (depth : Nat) (items : List Document) (rest : List Char) :
    skipSpace (writeList indent depth (d :: items) ++ rest) =
      writeList indent depth (d :: items) ++ rest ∧
    (writeList indent depth (d :: items) ++ rest).head? ≠ some ']' := by
  obtain ⟨c, cs, hw, hc, hne, -⟩ := exists_write hd indent depth
  rw [writeList, hw, List.cons_append, List.cons_append, skipSpace_cons hc]
  exact ⟨rfl, fun h => hne (Option.some.inj h)⟩

theorem skipSpace_writeMembers (indent : Option Nat) (depth : Nat) (name : String) (d : Document)
    (fields : List (Scalar × Document)) (rest : List Char) :
    skipSpace (writeMembers indent depth ((.str name, d) :: fields) ++ rest) =
      writeMembers indent depth ((.str name, d) :: fields) ++ rest ∧
    (writeMembers indent depth ((.str name, d) :: fields) ++ rest).head? ≠ some '}' := by
  have hhead : ∃ cs, writeMembers indent depth ((.str name, d) :: fields) ++ rest = '"' :: cs :=
    ⟨_, rfl⟩
  obtain ⟨cs, hcs⟩ := hhead
  rw [hcs]
  exact ⟨skipSpace_cons rfl cs, nofun⟩

theorem member_written {name : String} {d : Document} (hd : Writable d) {rest : List Char}
    (h : takeValue fuel (write indent depth d ++ rest) = .ok (d, rest)) :
    Member fuel
      (name.toList.flatMap writeChar ++ '"' :: ':' :: ' ' :: (write indent depth d ++ rest))
      name d rest := by
  refine ⟨_, _, takeString_written name _, skipSpace_cons rfl _, ?_⟩
  have hspace : skipSpace (' ' :: (write indent depth d ++ rest)) = write indent depth d ++ rest :=
    skipSpace_write hd rest
  rwa [hspace]

-- ---------------------------------------------------------------------------
-- Documents
-- ---------------------------------------------------------------------------

theorem nodup_names {members : List (Text × Document)}
    (h : ((members.map fun m => (Scalar.str m.1, m.2)).map Prod.fst).Nodup) :
    (members.map Prod.fst).Nodup := by
  rw [List.map_map] at h
  rw [List.nodup_iff_pairwise_ne, List.pairwise_map] at h ⊢
  exact h.imp fun hne e => hne (congrArg Scalar.str e)

mutual

-- The length of the text bounds the fuel. An item or a member is read with one unit less than the
-- one before it, and what is left of the text is shorter by a separator.

/-- A document that is written is read back. -/
theorem takeValue_write : (d : Document) → Writable d → (depth fuel : Nat) →
    (rest : List Char) → (write indent depth d).length ≤ fuel → Ends rest →
    takeValue fuel (write indent depth d ++ rest) = .ok (d, rest)
  | .scalar s, hd, depth, fuel, rest, hfuel, hrest => by
    rw [Writable] at hd
    obtain ⟨v, rfl, hv⟩ := hd
    obtain ⟨c, cs, hw, -⟩ := exists_writeLeaf hv
    rw [write, writeScalar] at hfuel ⊢
    obtain ⟨fuel, rfl⟩ : ∃ k, fuel = k + 1 := Nat.exists_eq_succ_of_ne_zero <| by
      rintro rfl
      rw [hw] at hfuel
      cases hfuel
    exact takeValue_leaf hv hrest
  | .list [], _, depth, fuel, rest, hfuel, _ => by
    rw [write] at hfuel ⊢
    obtain ⟨fuel, rfl⟩ := Nat.exists_eq_add_one.2 (Nat.lt_of_lt_of_le (Nat.succ_pos _) hfuel)
    rfl
  | .list (d :: items), hd, depth, fuel, rest, hfuel, _ => by
    rw [Writable] at hd
    rw [write_list] at hfuel ⊢
    obtain ⟨fuel, rfl⟩ := Nat.exists_eq_add_one.2 (Nat.lt_of_lt_of_le (Nat.succ_pos _) hfuel)
    simp only [List.length_cons, List.length_append] at hfuel
    simp only [List.cons_append, List.append_assoc, List.nil_append]
    obtain ⟨hskip, hhead⟩ := skipSpace_writeList hd.1 indent (depth + 1) items
      (lineBreak indent depth ++ ']' :: rest)
    rw [takeValue_list (by rwa [skipSpace_lineBreak, hskip]), skipSpace_lineBreak, hskip,
      takeItems_write (d :: items) hd _ fuel _ rest (List.cons_ne_nil _ _) (by omega)]
    rfl
  | .map [], _, depth, fuel, rest, hfuel, _ => by
    rw [write] at hfuel ⊢
    obtain ⟨fuel, rfl⟩ := Nat.exists_eq_add_one.2 (Nat.lt_of_lt_of_le (Nat.succ_pos _) hfuel)
    rfl
  | .map ((k, d) :: fields), hd, depth, fuel, rest, hfuel, _ => by
    rw [Writable] at hd
    rw [write_map] at hfuel ⊢
    obtain ⟨fuel, rfl⟩ := Nat.exists_eq_add_one.2 (Nat.lt_of_lt_of_le (Nat.succ_pos _) hfuel)
    simp only [List.length_cons, List.length_append] at hfuel
    simp only [List.cons_append, List.append_assoc, List.nil_append]
    obtain ⟨members, hmembers, htake⟩ := takeMembers_write ((k, d) :: fields) hd.2 (depth + 1) fuel
      depth rest (List.cons_ne_nil _ _) (by omega)
    have hnodup : (members.map Prod.fst).Nodup := nodup_names (hmembers ▸ hd.1)
    have hfields := hd.2
    rw [WritableFields] at hfields
    obtain ⟨⟨name, rfl⟩, -⟩ := hfields
    obtain ⟨hskip, hhead⟩ := skipSpace_writeMembers indent (depth + 1) name d fields
      (lineBreak indent depth ++ '}' :: rest)
    rw [← hskip] at hhead htake
    rw [hmembers, ← Document.object, ← hmembers]
    refine (takeValue_map ?_).trans ?_
    · rwa [skipSpace_lineBreak]
    · rw [skipSpace_lineBreak, htake]
      simp only [bind, Except.bind, close_ok.2 ⟨hnodup, rfl⟩]
      rfl

theorem takeItems_write : (items : List Document) → WritableItems items →
    (depth fuel outer : Nat) → (rest : List Char) → items ≠ [] →
    (writeList indent depth items).length < fuel →
    takeItems fuel (writeList indent depth items ++ (lineBreak indent outer ++ ']' :: rest)) =
      .ok (items, rest)
  | [], _, _, _, _, _, hne, _ => absurd rfl hne
  | [d], hd, depth, fuel, outer, rest, _, hfuel => by
    rw [WritableItems] at hd
    obtain ⟨fuel, rfl⟩ := Nat.exists_eq_add_one.2 (Nat.zero_lt_of_lt hfuel)
    rw [writeList, writeItems, List.append_nil] at hfuel ⊢
    have hend : Ends (lineBreak indent outer ++ ']' :: rest) :=
      ends_lineBreak (ends_cons (by decide) _)
    refine takeItems_last (takeValue_write d hd.1 _ _ _ (Nat.le_of_lt_succ hfuel) hend) ?_
    rw [skipSpace_lineBreak, skipSpace_cons rfl]
  | d :: e :: items, hd, depth, fuel, outer, rest, _, hfuel => by
    rw [WritableItems] at hd
    obtain ⟨fuel, rfl⟩ := Nat.exists_eq_add_one.2 (Nat.zero_lt_of_lt hfuel)
    rw [writeList, writeItems_cons] at hfuel ⊢
    simp only [List.append_assoc] at hfuel ⊢
    simp only [List.length_append] at hfuel
    have hsep := length_separator indent depth
    obtain ⟨more, hcomma, hmore⟩ := skipSpace_separator indent depth
      (writeList indent depth (e :: items) ++ (lineBreak indent outer ++ ']' :: rest))
    have hitems := hd.2
    rw [WritableItems] at hitems
    refine (takeItems_more (takeValue_write d hd.1 _ _ _ (by omega) ends_separator) hcomma).trans ?_
    rw [hmore, (skipSpace_writeList hitems.1 indent depth items _).1,
      takeItems_write (e :: items) hd.2 _ _ _ _ (List.cons_ne_nil _ _) (by omega)]
    rfl

theorem takeMembers_write : (fields : List (Scalar × Document)) →
    WritableFields fields → (depth fuel outer : Nat) → (rest : List Char) →
    fields ≠ [] → (writeMembers indent depth fields).length < fuel →
    ∃ members : List (Text × Document),
      fields = members.map (fun m => (Scalar.str m.1, m.2)) ∧
      takeMembers fuel
        (writeMembers indent depth fields ++ (lineBreak indent outer ++ '}' :: rest)) =
          .ok (members, rest)
  | [], _, _, _, _, _, hne, _ => absurd rfl hne
  | [(k, d)], hd, depth, fuel, outer, rest, _, hfuel => by
    rw [WritableFields] at hd
    obtain ⟨⟨name, rfl⟩, hd, -⟩ := hd
    obtain ⟨fuel, rfl⟩ := Nat.exists_eq_add_one.2 (Nat.zero_lt_of_lt hfuel)
    refine ⟨[(name, d)], rfl, ?_⟩
    rw [writeMembers_str, writeFields, List.append_nil] at hfuel ⊢
    simp only [List.length_cons, List.length_append] at hfuel
    simp only [List.cons_append, List.append_assoc]
    have hend : Ends (lineBreak indent outer ++ '}' :: rest) :=
      ends_lineBreak (ends_cons (by decide) _)
    refine takeMembers_last (member_written hd ?_) ?_
    · exact takeValue_write d hd _ _ _ (by omega) hend
    · rw [skipSpace_lineBreak, skipSpace_cons rfl]
  | (k, d) :: e :: fields, hd, depth, fuel, outer, rest, _, hfuel => by
    rw [WritableFields] at hd
    obtain ⟨⟨name, rfl⟩, hd, hfields⟩ := hd
    obtain ⟨fuel, rfl⟩ := Nat.exists_eq_add_one.2 (Nat.zero_lt_of_lt hfuel)
    rw [writeMembers_str, writeFields_cons] at hfuel ⊢
    simp only [List.length_cons, List.length_append] at hfuel
    simp only [List.cons_append, List.append_assoc]
    have hsep := length_separator indent depth
    obtain ⟨members, hmembers, htake⟩ := takeMembers_write (e :: fields) hfields depth fuel outer
      rest (List.cons_ne_nil _ _) (by omega)
    obtain ⟨more, hcomma, hmore⟩ := skipSpace_separator indent depth
      (writeMembers indent depth (e :: fields) ++ (lineBreak indent outer ++ '}' :: rest))
    refine ⟨(name, d) :: members, by rw [hmembers]; rfl, ?_⟩
    refine (takeMembers_more (member_written hd ?_) hcomma).trans ?_
    · exact takeValue_write d hd _ _ _ (by omega) ends_separator
    · obtain ⟨k, x⟩ := e
      rw [WritableFields] at hfields
      obtain ⟨⟨other, rfl⟩, -⟩ := hfields
      rw [hmore, (skipSpace_writeMembers indent depth other x fields _).1, htake]
      rfl

end

theorem ends_space {ending : List Char} (h : ∀ c ∈ ending, isSpace c = true) : Ends ending := by
  intro c hc
  have hspace := h c (List.mem_of_mem_head? hc)
  simp only [isSpace, Bool.or_eq_true, decide_eq_true_iff] at hspace
  rcases hspace with ((rfl | rfl) | rfl) | rfl <;> decide

theorem readChars_write {d : Document} (hd : Writable d) (indent : Option Nat)
    {ending : List Char} (h : ∀ c ∈ ending, isSpace c = true) :
    readChars (write indent 0 d ++ ending) = .ok d := by
  obtain ⟨c, cs, hw, -, -, hbom⟩ := exists_write hd indent 0
  have hhead : (write indent 0 d ++ ending).head? ≠ some '\ufeff' := by
    rw [hw]
    exact fun e => hbom (Option.some.inj e)
  have hfuel : (write indent 0 d).length ≤ 2 * (write indent 0 d ++ ending).length + 1 := by
    rw [List.length_append]
    omega
  have hend : skipSpace ending = [] := List.dropWhile_eq_nil_iff.2 h
  rw [readChars, if_neg hhead, skipSpace_write hd,
    takeValue_write d hd 0 _ ending hfuel (ends_space h)]
  simp only [bind, Except.bind, hend]
  rfl

end LayeredConfig.Json
