import LayeredConfig.Proofs.Json.Meaning
import Mathlib.Data.List.Duplicate

/-!
# Repeated names in JSON texts

`readChars_chars`: a text is read as the document that it describes, unless some object in it
repeats a name; then reading stops at a name that one repeats.
-/

namespace LayeredConfig.Json

open Text

variable {α β : Type} {objects later : List (List Text)} {fuel : Nat}
  {cs rest after more : List Char} {d : Document}

/-- Reading finds `a` with `rest` behind it, or stops at a name that one of the objects repeats.
It finds `a` only if none of them repeats a name. -/
inductive Screens (objects : List (List Text)) (a : α) (rest : List Char) :
    Except Stop (α × List Char) → Prop
  | found (h : ∀ names ∈ objects, names.Nodup) : Screens objects a rest (.ok (a, rest))
  | repeated {names : List Text} {name : Text} (hnames : names ∈ objects)
    (hname : names.Duplicate name) : Screens objects a rest (.error (.duplicateKey name))

theorem Screens.andThen {a : α} {b : β} {x : Except Stop (α × List Char)}
    {y : Except Stop (β × List Char)} (hx : Screens objects a rest x)
    (hfound : x = .ok (a, rest) → Screens later b after y)
    (hstops : ∀ e, x = .error e → y = .error e) : Screens (objects ++ later) b after y := by
  cases hx with
  | found h =>
    cases hfound rfl with
    | found hlater => exact .found (List.forall_mem_append.2 ⟨h, hlater⟩)
    | repeated hnames hname => exact .repeated (List.mem_append_right _ hnames) hname
  | repeated hnames hname =>
    rw [hstops _ rfl]
    exact .repeated (List.mem_append_left _ hnames) hname

theorem Screens.part {a : α} {b : β} {x : Except Stop (α × List Char)}
    {y : Except Stop (β × List Char)} (hx : Screens objects a rest x)
    (hfound : x = .ok (a, rest) → y = .ok (b, after))
    (hstops : ∀ e, x = .error e → y = .error e) : Screens objects b after y := by
  rw [← List.append_nil objects]
  refine hx.andThen (fun h => ?_) hstops
  rw [hfound h]
  exact .found (List.forall_mem_nil _)

theorem Screens.map {a : α} {x : Except Stop (α × List Char)} (hx : Screens objects a rest x)
    (f : α → β) : Screens objects (f a) rest (x.map fun r => (f r.1, r.2)) := by
  refine hx.part (fun h => ?_) fun e h => ?_
  · rw [h]
    rfl
  · rw [h]
    rfl

-- ---------------------------------------------------------------------------
-- One step of the reader
-- ---------------------------------------------------------------------------

theorem takeItems_stops {e : Stop} (h : takeValue fuel cs = .error e) :
    takeItems (fuel + 1) cs = .error e := by
  rw [takeItems, h]
  rfl

variable {name : Text} {behindName behindColon : List Char}

theorem takeMembers_stops {e : Stop} (hname : takeString cs = .ok (name, behindName))
    (hcolon : skipSpace behindName = ':' :: behindColon)
    (h : takeValue fuel (skipSpace behindColon) = .error e) :
    takeMembers (fuel + 1) ('"' :: cs) = .error e := by
  rw [takeMembers, hname]
  simp only [bind, Except.bind, hcolon, h]

/-- A name that is refused stands twice among the members, or also among those before them. -/
theorem repeated?_eq_some {before : List Text} {members : List (Text × Document)}
    (h : repeated? before members = some name) :
    name ∈ before ∧ name ∈ members.map Prod.fst ∨ (members.map Prod.fst).Duplicate name := by
  induction members generalizing before with
  | nil => cases h
  | cons m members ih =>
    obtain ⟨first, d⟩ := m
    rw [repeated?] at h
    split at h
    · rename_i hfirst
      cases h
      exact .inl ⟨by simpa using hfirst, List.mem_cons_self⟩
    · rcases ih h with ⟨hbefore, hmem⟩ | hdup
      · rcases List.mem_cons.1 hbefore with rfl | hbefore
        · exact .inr hmem.duplicate_cons_self
        · exact .inl ⟨hbefore, List.mem_cons_of_mem _ hmem⟩
      · exact .inr (hdup.duplicate_cons _)

theorem Screens.close {members : List (Text × Document)}
    {x : Except Stop (List (Text × Document) × List Char)}
    (hx : Screens objects members rest x) :
    Screens (members.map Prod.fst :: objects) (Document.object members) rest
      (x >>= fun r => (Json.close r.1).map fun d => (d, r.2)) := by
  cases hx with
  | repeated hnames hname => exact .repeated (List.mem_cons_of_mem _ hnames) hname
  | found h =>
    -- No object inside repeats a name, so the members themselves decide.
    cases hclose : Json.close members with
    | ok d =>
      obtain ⟨hn, rfl⟩ := close_ok.1 hclose
      simp only [bind, Except.bind, hclose, Except.map]
      exact .found (List.forall_mem_cons.2 ⟨hn, h⟩)
    | error e =>
      simp only [bind, Except.bind, hclose, Except.map]
      unfold Json.close at hclose
      split at hclose
      · rename_i name hrepeated
        cases hclose
        rcases repeated?_eq_some hrepeated with ⟨hnil, -⟩ | hdup
        · cases hnil
        · exact .repeated List.mem_cons_self hdup
      · cases hclose

-- ---------------------------------------------------------------------------
-- Where tokens start and end
-- ---------------------------------------------------------------------------

theorem Space.skip (s : Space) (rest : List Char) : skipSpace (s.chars ++ rest) = skipSpace rest :=
  skipSpace_append s.isSpace rest

theorem Space.ends (s : Space) (h : Ends rest) : Ends (s.chars ++ rest) := by
  intro c hc
  cases hs : s.chars with
  | nil =>
    rw [hs] at hc
    exact h c hc
  | cons d ds =>
    rw [hs] at hc
    cases hc
    exact ends_space s.isSpace c (by rw [hs]; rfl)

theorem isBlank_of_isDigit {c : Char} (h : isDigit c = true) : isBlank c = false := by
  have hc := isDigit_iff.1 h
  simp only [isBlank, Bool.or_eq_false_iff, Bool.and_eq_false_iff, decide_eq_false_iff_not,
    beq_eq_false_iff_ne]
  omega

theorem Value.exists_cons (v : Value) :
    ∃ c cs, v.chars = c :: cs ∧ Opens c ∧ isBlank c = false := by
  cases v with
  | word w =>
    cases w with
    | null => exact ⟨_, _, rfl, ⟨rfl, by decide⟩, rfl⟩
    | bool b => cases b <;> exact ⟨_, _, rfl, ⟨rfl, by decide⟩, rfl⟩
  | number n =>
    obtain ⟨c, cs, hcs, hc, -⟩ := n.exists_cons
    rcases hc with rfl | hc
    · exact ⟨_, cs, hcs, ⟨rfl, by decide⟩, rfl⟩
    · exact ⟨c, cs, hcs, opens_digit hc, isBlank_of_isDigit hc⟩
  | string _ | emptyArray _ | array _ | emptyObject _ | object _ =>
    exact ⟨_, _, by rw [chars]; rfl, ⟨rfl, by decide⟩, rfl⟩

theorem Value.skip (v : Value) (rest : List Char) :
    skipSpace (v.chars ++ rest) = v.chars ++ rest := by
  obtain ⟨c, cs, hcs, ⟨hc, -⟩, -⟩ := v.exists_cons
  rw [hcs, List.cons_append, skipSpace_cons hc]

theorem Space.skip_to {c : Char} (s : Space) (hc : Json.isSpace c = false) (rest : List Char) :
    skipSpace (s.chars ++ c :: rest) = c :: rest := by
  rw [s.skip, skipSpace_cons hc]

theorem Label.skip (l : Label) (rest : List Char) :
    skipSpace (l.chars ++ rest) =
      '"' :: inside l.name.pieces (l.beforeColon.chars ++ ':' :: (l.afterColon.chars ++ rest)) := by
  have hchars : l.chars ++ rest = l.before.chars ++
      '"' :: inside l.name.pieces (l.beforeColon.chars ++ ':' :: (l.afterColon.chars ++ rest)) := by
    simp [Label.chars, Quoted.chars, inside]
  rw [hchars, l.before.skip_to rfl]

theorem Items.skip (items : Items) (rest : List Char) :
    ∃ c cs, skipSpace (items.chars ++ rest) = c :: cs ∧ c ≠ ']' := by
  cases items with
  | last before value after | more before value after later =>
    obtain ⟨c, cs, hcs, ⟨-, hc, -⟩, -⟩ := value.exists_cons
    rw [chars]
    simp only [List.append_assoc, Space.skip, Value.skip]
    rw [hcs]
    exact ⟨c, _, rfl, hc⟩

/-- A label and the value behind it are read as a member, or reading stops with the value. -/
theorem Label.member (l : Label) (v : Value) (rest : List Char) (fuel : Nat) :
    ∃ cs, skipSpace (l.chars ++ (v.chars ++ rest)) = '"' :: cs ∧
      (∀ d after, takeValue fuel (v.chars ++ rest) = .ok (d, after) →
        Member fuel cs l.name.content d after) ∧
      ∀ e, takeValue fuel (v.chars ++ rest) = .error e →
        takeMembers (fuel + 1) ('"' :: cs) = .error e := by
  have hname := takeString_inside l.name
    (l.beforeColon.chars ++ ':' :: (l.afterColon.chars ++ (v.chars ++ rest)))
  have hcolon := l.beforeColon.skip_to (c := ':') rfl (l.afterColon.chars ++ (v.chars ++ rest))
  have hvalue : skipSpace (l.afterColon.chars ++ (v.chars ++ rest)) = v.chars ++ rest := by
    rw [l.afterColon.skip, v.skip]
  refine ⟨_, l.skip _, fun d after h => ⟨_, _, hname, hcolon, ?_⟩, fun e h => ?_⟩
  · rwa [hvalue]
  · exact takeMembers_stops hname hcolon (by rwa [hvalue])

theorem Members.skip (members : Members) (rest : List Char) :
    ∃ cs, skipSpace (members.chars ++ rest) = '"' :: cs := by
  cases members with
  | last label value after | more label value after later =>
    rw [chars]
    simp only [List.append_assoc, Label.skip]
    exact ⟨_, rfl⟩

-- ---------------------------------------------------------------------------
-- Values
-- ---------------------------------------------------------------------------

theorem takeValue_word (w : Word) (rest : List Char) :
    takeValue (fuel + 1) (w.chars ++ rest) = .ok (.leaf w.leaf, rest) := by
  cases w with
  | null => rfl
  | bool b => cases b <;> rfl

theorem takeValue_number {n : Number} (hn : n.Moderate) (h : Ends rest) :
    takeValue (fuel + 1) (n.chars ++ rest) = .ok (.leaf n.leaf, rest) := by
  obtain ⟨c, cs, hcs, hc, hword⟩ := n.exists_cons
  have hplain : StartsPlain c := by
    rcases hc with rfl | hc
    · exact ⟨by decide, by decide, by decide⟩
    · exact startsPlain_digit hc
  have hread := takeNumber_chars hn h
  replace hword := hword rest
  rw [hcs, List.cons_append] at hread hword ⊢
  rw [takeValue_plain hplain, hword, hread]
  rfl

theorem takeValue_quoted (s : Quoted) (rest : List Char) :
    takeValue (fuel + 1) (s.chars ++ rest) = .ok (.str s.content, rest) := by
  have hchars : s.chars ++ rest = '"' :: inside s.pieces rest := by
    simp [Quoted.chars, inside]
  rw [hchars, takeValue, takeString_inside]
  rfl

mutual

-- The length of the text bounds the fuel, as it does for documents that are written.

theorem takeValue_chars : (v : Value) → (∀ n ∈ v.numbers, n.Moderate) → (fuel : Nat) →
    (rest : List Char) → v.chars.length ≤ fuel → Ends rest →
    Screens v.objects v.document rest (takeValue fuel (v.chars ++ rest))
  | v, hn, 0, rest, hfuel, _ => by
    obtain ⟨c, cs, hcs, -⟩ := v.exists_cons
    rw [hcs] at hfuel
    cases hfuel
  | .word w, _, fuel + 1, rest, _, _ => by
    rw [Value.chars, takeValue_word, Value.document, Value.objects]
    exact .found (List.forall_mem_nil _)
  | .number n, hn, fuel + 1, rest, _, hrest => by
    rw [Value.chars, takeValue_number (hn n List.mem_cons_self) hrest, Value.document,
      Value.objects]
    exact .found (List.forall_mem_nil _)
  | .string s, _, fuel + 1, rest, _, _ => by
    rw [Value.chars, takeValue_quoted, Value.document, Value.objects]
    exact .found (List.forall_mem_nil _)
  | .emptyArray inside, _, fuel + 1, rest, _, _ => by
    rw [Value.chars, Value.document, Value.objects]
    simp only [List.append_assoc, List.cons_append, List.nil_append]
    rw [takeValue, inside.skip_to rfl]
    exact .found (List.forall_mem_nil _)
  | .emptyObject inside, _, fuel + 1, rest, _, _ => by
    rw [Value.chars, Value.document, Value.objects]
    simp only [List.append_assoc, List.cons_append, List.nil_append]
    rw [takeValue, inside.skip_to rfl]
    exact .found (List.forall_mem_singleton.2 List.nodup_nil)
  | .array items, hn, fuel + 1, rest, hfuel, _ => by
    rw [Value.numbers] at hn
    rw [Value.chars] at hfuel
    rw [Value.chars, Value.document, Value.objects]
    simp only [List.length_append, List.length_cons, List.length_nil] at hfuel
    simp only [List.append_assoc, List.cons_append, List.nil_append]
    obtain ⟨c, cs, hskip, hc⟩ := items.skip (']' :: rest)
    have hhead : (skipSpace (items.chars ++ ']' :: rest)).head? ≠ some ']' := by
      rw [hskip]
      exact fun h => hc (Option.some.inj h)
    rw [takeValue_list hhead]
    exact (takeItems_chars items hn fuel rest (by omega)).map _
  | .object members, hn, fuel + 1, rest, hfuel, _ => by
    rw [Value.numbers] at hn
    rw [Value.chars] at hfuel
    rw [Value.chars, Value.document, Value.objects]
    simp only [List.length_append, List.length_cons, List.length_nil] at hfuel
    simp only [List.append_assoc, List.cons_append, List.nil_append]
    obtain ⟨cs, hskip⟩ := members.skip ('}' :: rest)
    have hhead : (skipSpace (members.chars ++ '}' :: rest)).head? ≠ some '}' := by
      rw [hskip]
      exact nofun
    rw [takeValue_map hhead]
    exact (takeMembers_chars members hn fuel rest (by omega)).close

theorem takeItems_chars : (items : Items) → (∀ n ∈ items.numbers, n.Moderate) → (fuel : Nat) →
    (rest : List Char) → items.chars.length < fuel →
    Screens items.objects items.documents rest
      (takeItems fuel (skipSpace (items.chars ++ ']' :: rest)))
  | _, _, 0, _, hfuel => by cases hfuel
  | .last before value after, hn, fuel + 1, rest, hfuel => by
    rw [Items.numbers] at hn
    rw [Items.chars] at hfuel
    rw [Items.chars, Items.documents, Items.objects]
    simp only [List.length_append] at hfuel
    simp only [List.append_assoc, Space.skip, Value.skip]
    have hvalue := takeValue_chars value hn fuel (after.chars ++ ']' :: rest) (by omega)
      (after.ends (ends_cons (by decide) _))
    exact hvalue.part (fun h => takeItems_last h (after.skip_to rfl rest)) fun _ => takeItems_stops
  | .more before value after later, hn, fuel + 1, rest, hfuel => by
    rw [Items.numbers] at hn
    rw [Items.chars] at hfuel
    rw [Items.chars, Items.documents, Items.objects]
    obtain ⟨hvalue, hlater⟩ := List.forall_mem_append.1 hn
    simp only [List.length_append, List.length_cons] at hfuel
    simp only [List.append_assoc, List.cons_append, Space.skip, Value.skip]
    have hcomma := after.skip_to (c := ',') rfl (later.chars ++ ']' :: rest)
    refine (takeValue_chars value hvalue fuel _ (by omega)
      (after.ends (ends_cons (by decide) _))).andThen (fun h => ?_) fun _ => takeItems_stops
    rw [takeItems_more h hcomma]
    exact (takeItems_chars later hlater fuel rest (by omega)).map _

theorem takeMembers_chars : (members : Members) → (∀ n ∈ members.numbers, n.Moderate) →
    (fuel : Nat) → (rest : List Char) → members.chars.length < fuel →
    Screens members.objects members.entries rest
      (takeMembers fuel (skipSpace (members.chars ++ '}' :: rest)))
  | _, _, 0, _, hfuel => by cases hfuel
  | .last label value after, hn, fuel + 1, rest, hfuel => by
    rw [Members.numbers] at hn
    rw [Members.chars] at hfuel
    rw [Members.chars, Members.entries, Members.objects]
    simp only [List.length_append] at hfuel
    simp only [List.append_assoc]
    have hvalue := takeValue_chars value hn fuel (after.chars ++ '}' :: rest) (by omega)
      (after.ends (ends_cons (by decide) _))
    obtain ⟨cs, hcs, hfound, hstops⟩ := label.member value (after.chars ++ '}' :: rest) fuel
    rw [hcs]
    exact hvalue.part (fun h => takeMembers_last (hfound _ _ h) (after.skip_to rfl rest)) hstops
  | .more label value after later, hn, fuel + 1, rest, hfuel => by
    rw [Members.numbers] at hn
    rw [Members.chars] at hfuel
    rw [Members.chars, Members.entries, Members.objects]
    obtain ⟨hvalue, hlater⟩ := List.forall_mem_append.1 hn
    simp only [List.length_append, List.length_cons] at hfuel
    simp only [List.append_assoc, List.cons_append]
    have hcomma := after.skip_to (c := ',') rfl (later.chars ++ '}' :: rest)
    have hfirst := takeValue_chars value hvalue fuel
      (after.chars ++ ',' :: (later.chars ++ '}' :: rest)) (by omega)
      (after.ends (ends_cons (by decide) _))
    obtain ⟨cs, hcs, hfound, hstops⟩ :=
      label.member value (after.chars ++ ',' :: (later.chars ++ '}' :: rest)) fuel
    rw [hcs]
    refine hfirst.andThen (fun h => ?_) hstops
    rw [takeMembers_more (hfound _ _ h) hcomma]
    exact (takeMembers_chars later hlater fuel rest (by omega)).map _

end

-- ---------------------------------------------------------------------------
-- Texts
-- ---------------------------------------------------------------------------

theorem Written.skip (t : Written) : skipSpace t.chars = t.value.chars ++ t.after.chars := by
  rw [Written.chars, List.append_assoc, t.before.skip, t.value.skip]

theorem Written.head_ne_mark (t : Written) : t.chars.head? ≠ some '\ufeff' := by
  obtain ⟨c, cs, hcs, ⟨-, -, hc⟩, -⟩ := t.value.exists_cons
  have hspace := t.before.isSpace
  rw [Written.chars, List.append_assoc, hcs]
  cases hbefore : t.before.chars with
  | nil => exact fun h => hc (Option.some.inj h)
  | cons d ds =>
    intro h
    cases Option.some.inj h
    exact Bool.false_ne_true (hspace '\ufeff' (hbefore ▸ List.mem_cons_self))

/-- A text is read as the document that it describes, unless some object in it repeats a name. -/
theorem readChars_chars (t : Written) (hn : ∀ n ∈ t.value.numbers, n.Moderate) :
    (∀ names ∈ t.value.objects, names.Nodup) ∧ readChars t.chars = .ok t.value.document ∨
      ∃ name, readChars t.chars = .error (.duplicateKey name) ∧
        ∃ names ∈ t.value.objects, names.Duplicate name := by
  have hfuel : t.value.chars.length ≤ 2 * t.chars.length + 1 := by
    simp only [Written.chars, List.length_append]
    omega
  have hafter : skipSpace t.after.chars = [] := List.dropWhile_eq_nil_iff.2 t.after.isSpace
  have hvalue := takeValue_chars t.value hn _ _ hfuel (ends_space t.after.isSpace)
  unfold readChars
  rw [if_neg t.head_ne_mark, t.skip]
  cases hread : takeValue (2 * t.chars.length + 1) (t.value.chars ++ t.after.chars) with
  | ok r =>
    rw [hread] at hvalue
    cases hvalue with
    | found h =>
      refine .inl ⟨h, ?_⟩
      simp only [bind, Except.bind, hafter]
      rfl
  | error e =>
    rw [hread] at hvalue
    cases hvalue with
    | repeated hnames hname => exact .inr ⟨_, rfl, _, hnames, hname⟩

end LayeredConfig.Json
