import LayeredConfig.Proofs.Path.Text

/-!
# The grammar of paths

`read_grammar`: which texts are paths, which path each of them is, and how the others fail. A text
is a path if it spells one step after the other, with a dot before each key but the first. Reading
is looser than that in one place only: it passes over a dot before a bracket. A text that is no path
is refused as one, unless its steps lead up to a position with more digits than are read.
-/

namespace LayeredConfig.Path

open CodePoint (char)

-- ---------------------------------------------------------------------------
-- Texts of paths
-- ---------------------------------------------------------------------------

/-- Decimal digits, and some of them. -/
def Decimal (digits : List Char) : Prop :=
  digits ≠ [] ∧ ∀ c ∈ digits, Text.isDigit c = true

/-- The code points of a step by itself. -/
inductive Spelled : Segment → List CodePoint → Prop
  | key {cs : List CodePoint} : cs ≠ [] → (∀ c ∈ cs, c ≠ '.' ∧ c ≠ '[' ∧ c ≠ ']') →
      Spelled (.key ⟨cs⟩) cs
  | index {digits : List Char} : Decimal digits → digits.length ≤ Integer.digitLimit →
      Spelled (.index (Nat.ofDigitChars 10 digits 0))
        (char '[' :: (digits.map char ++ [char ']']))

/-- The code points of a step behind another one: a key has a dot before it. -/
inductive Joined : Segment → List CodePoint → Prop
  | key {name : Text} {cs : List CodePoint} :
      Spelled (.key name) cs → Joined (.key name) (char '.' :: cs)
  | index {n : Nat} {cs : List CodePoint} : Spelled (.index n) cs → Joined (.index n) cs

/-- The same if a position may have a dot before it too. -/
inductive LooselyJoined : Segment → List CodePoint → Prop
  | joined {s : Segment} {cs : List CodePoint} : Joined s cs → LooselyJoined s cs
  | dotted {n : Nat} {cs : List CodePoint} :
      Spelled (.index n) cs → LooselyJoined (.index n) (char '.' :: cs)

/-- Any number of steps behind another one, each joined to what is before it as `J` says. -/
inductive Tail (J : Segment → List CodePoint → Prop) : List Segment → List CodePoint → Prop
  | nil : Tail J [] []
  | cons {s : Segment} {rest : List Segment} {cs after : List CodePoint} :
      J s cs → Tail J rest after → Tail J (s :: rest) (cs ++ after)

/-- The texts of a path: nothing, or its first step by itself and the others behind it. -/
inductive Denotes (J : Segment → List CodePoint → Prop) : Path → List CodePoint → Prop
  | root : Denotes J root []
  | steps {s : Segment} {rest : List Segment} {cs after : List CodePoint} : Spelled s cs →
      Tail J rest after → Denotes J ⟨s :: rest⟩ (cs ++ after)

/-- A position of `n` digits, which are too many, and whatever comes behind it. -/
inductive TooLong (n : Nat) : List CodePoint → Prop
  | brackets {digits : List Char} {rest : List CodePoint} :
      (∀ c ∈ digits, Text.isDigit c = true) → digits.length = n → Integer.digitLimit < n →
      TooLong n (char '[' :: (digits.map char ++ char ']' :: rest))

/-- Steps behind another one that lead up to a position that is too long. -/
inductive TailTooLong (n : Nat) : List CodePoint → Prop
  | here {cs : List CodePoint} : TooLong n cs → TailTooLong n cs
  | dotted {cs : List CodePoint} : TooLong n cs → TailTooLong n (char '.' :: cs)
  | behind {s : Segment} {cs after : List CodePoint} : LooselyJoined s cs → TailTooLong n after →
      TailTooLong n (cs ++ after)

/-- A text whose steps lead up to a position of `n` digits, which are too many. -/
inductive Overlong (n : Nat) : List CodePoint → Prop
  | here {cs : List CodePoint} : TooLong n cs → Overlong n cs
  | behind {s : Segment} {cs after : List CodePoint} : Spelled s cs → TailTooLong n after →
      Overlong n (cs ++ after)

/-- A dot without a key before or behind it: the first or the last character, or one of two dots in
a row. -/
def LacksKey (cs : List CodePoint) : Prop :=
  [char '.'] <+: cs ∨ [char '.'] <:+ cs ∨ [char '.', char '.'] <:+: cs

variable {s : Segment} {segments : List Segment} {p : Path} {cs after : List CodePoint}
  {digits : List Char} {text : Text} {n : Nat} {e : Expected}

-- ---------------------------------------------------------------------------
-- Positions
-- ---------------------------------------------------------------------------

theorem decimal_iff : Decimal digits ↔ (digits.isEmpty || !digits.all Text.isDigit) = false := by
  simp [Decimal]

theorem readIndex_decimal (h : Decimal digits) :
    readIndex ⟨digits.map char⟩ =
      if Integer.digitLimit < digits.length then .error (.indexTooLong digits.length)
      else .ok (Nat.ofDigitChars 10 digits 0) := by
  rw [readIndex, Text.legible_chars, decimal_iff.1 h, Text.ofDigits_filterMap h.2]
  rfl

/-- A text that does not consist of digits is no position. -/
theorem readIndex_cases (text : Text) :
    (∃ digits, text = ⟨digits.map char⟩ ∧ Decimal digits) ∨
      readIndex text = .error (.badIndex text) := by
  by_cases h : Decimal text.legible
  · refine .inl ⟨_, Text.ext (Text.points_eq_of_legible fun hmem => ?_), h⟩
    exact absurd (h.2 _ hmem) (by decide)
  · rw [decimal_iff, Bool.not_eq_false] at h
    exact .inr (by rw [readIndex, if_pos h])

theorem readIndex_ok_iff :
    readIndex text = .ok n ↔ ∃ digits : List Char, text = ⟨digits.map char⟩ ∧ Decimal digits ∧
      digits.length ≤ Integer.digitLimit ∧ Nat.ofDigitChars 10 digits 0 = n := by
  constructor
  · intro hread
    rcases readIndex_cases text with ⟨digits, rfl, hd⟩ | hbad
    · rw [readIndex_decimal hd] at hread
      split at hread
      · cases hread
      · exact ⟨digits, rfl, hd, Nat.le_of_not_lt ‹_›, Except.ok.inj hread⟩
    · cases hbad.symm.trans hread
  · rintro ⟨digits, rfl, hd, hlen, rfl⟩
    rw [readIndex_decimal hd, if_neg (Nat.not_lt.2 hlen)]

theorem readIndex_tooLong_iff :
    readIndex text = .error (.indexTooLong n) ↔ ∃ digits : List Char,
      text = ⟨digits.map char⟩ ∧ (∀ c ∈ digits, Text.isDigit c = true) ∧ digits.length = n ∧
        Integer.digitLimit < n := by
  constructor
  · intro hread
    rcases readIndex_cases text with ⟨digits, rfl, hd⟩ | hbad
    · rw [readIndex_decimal hd] at hread
      split at hread
      · cases hread
        exact ⟨digits, rfl, hd.2, rfl, ‹_›⟩
      · cases hread
    · cases hbad.symm.trans hread
  · rintro ⟨digits, rfl, hdigits, rfl, hlong⟩
    have hne : digits ≠ [] := List.ne_nil_of_length_pos (Nat.zero_lt_of_lt hlong)
    rw [readIndex_decimal ⟨hne, hdigits⟩, if_pos hlong]

theorem eq_brackets {rest : List CodePoint} {c : CodePoint}
    (h : rest.drop (rest.takeWhile (· ≠ char ']')).length = c :: after) :
    char '[' :: rest = char '[' :: (rest.takeWhile (· ≠ char ']') ++ char ']' :: after) := by
  have happend := (rest.takeWhile_append_dropWhile (p := (· ≠ char ']'))).symm
  have hdrop : rest.dropWhile (· ≠ char ']') = c :: after := by
    rw [← h]
    nth_rewrite 3 [happend]
    exact List.drop_left.symm
  have hstop := rest.head?_dropWhile_not (· ≠ char ']')
  rw [hdrop] at hstop happend
  have hc : c = ']' := by simpa using hstop
  exact congrArg _ (hc ▸ happend)

-- ---------------------------------------------------------------------------
-- Texts of the grammar are read
-- ---------------------------------------------------------------------------

/-- The rest of a text may begin behind a step. -/
def Follows (after : List CodePoint) : Prop := ∀ c, after.head? = some c → c = '.' ∨ c = '['

theorem follows_dot (cs : List CodePoint) : Follows (char '.' :: cs) :=
  fun _ hc => .inl (Option.some.inj hc).symm

theorem follows_bracket (cs : List CodePoint) : Follows (char '[' :: cs) :=
  fun _ hc => .inr (Option.some.inj hc).symm

theorem LooselyJoined.follows (h : LooselyJoined s cs) (after : List CodePoint) :
    Follows (cs ++ after) := by
  cases h with
  | joined h =>
    cases h with
    | key => exact follows_dot _
    | index h =>
      cases h
      exact follows_bracket _
  | dotted => exact follows_dot _

theorem Tail.follows (h : Tail LooselyJoined segments cs) : Follows cs := by
  cases h with
  | nil => exact nofun
  | cons h _ => exact h.follows _

theorem TailTooLong.follows (h : TailTooLong n cs) : Follows cs := by
  cases h with
  | here h =>
    cases h
    exact follows_bracket _
  | dotted => exact follows_dot _
  | behind h _ => exact h.follows _

theorem Spelled.ne_nil (h : Spelled s cs) : cs ≠ [] := by
  cases h with
  | key hne _ => exact hne
  | index => exact List.cons_ne_nil _ _

theorem readSegments_position (h : Spelled (.index n) cs) (e : Expected)
    (after : List CodePoint) :
    readSegments e (cs ++ after) = (readSegments .separator after).map (.index n :: ·) := by
  cases h with
  | index hdigits hlen =>
    have hread := readIndex_ok_iff.2 ⟨_, rfl, hdigits, hlen, rfl⟩
    rw [List.cons_append, List.append_assoc, List.singleton_append,
      readSegments_brackets (ne_close_of_isDigit hdigits.2), hread]
    rfl

theorem readSegments_spelled (h : Spelled s cs) (ha : Follows after) :
    readSegments .key (cs ++ after) = (readSegments .separator after).map (s :: ·) := by
  cases h with
  | key hne hplain =>
    have hreadable : (Segment.key ⟨cs⟩).Readable :=
      ⟨fun h => hne (Text.points_eq_nil_iff.2 h), fun c hc => endsKey_eq_false_iff.2 (hplain c hc)⟩
    exact readSegments_key hreadable ha
  | index hdigits hlen => exact readSegments_position (.index hdigits hlen) _ _

theorem Spelled.dotted (h : Spelled s cs) : LooselyJoined s (char '.' :: cs) := by
  cases h with
  | key hne hplain => exact .joined (.key (.key hne hplain))
  | index hdigits hlen => exact .dotted (.index hdigits hlen)

theorem readSegments_dot (h : cs ≠ []) :
    readSegments .separator (char '.' :: cs) = readSegments .key cs := by
  rw [readSegments, if_neg (by simpa using h)]

theorem readSegments_joined (h : LooselyJoined s cs) (ha : Follows after) :
    readSegments .separator (cs ++ after) = (readSegments .separator after).map (s :: ·) := by
  have hdot {s : Segment} {cs : List CodePoint} (h : Spelled s cs) :
      readSegments .separator (char '.' :: cs ++ after) =
        (readSegments .separator after).map (s :: ·) := by
    rw [List.cons_append, readSegments_dot (List.append_ne_nil_of_left_ne_nil h.ne_nil _),
      readSegments_spelled h ha]
  cases h with
  | joined h =>
    cases h with
    | key h => exact hdot h
    | index h => exact readSegments_position h _ _
  | dotted h => exact hdot h

theorem Tail.read (h : Tail LooselyJoined segments cs) :
    readSegments .separator cs = .ok segments := by
  induction h with
  | nil => rw [readSegments]
  | cons hs hrest ih =>
    rw [readSegments_joined hs hrest.follows, ih]
    rfl

theorem Denotes.read (h : Denotes LooselyJoined p cs) : readSegments .key cs = .ok p.segments := by
  cases h with
  | root =>
    rw [readSegments]
    rfl
  | steps hs hrest =>
    rw [readSegments_spelled hs hrest.follows, hrest.read]
    rfl

theorem TooLong.read (h : TooLong n cs) (e : Expected) :
    readSegments e cs = .error (.indexTooLong n) := by
  cases h with
  | brackets hdigits hlen hlong =>
    rw [readSegments_brackets (ne_close_of_isDigit hdigits),
      readIndex_tooLong_iff.2 ⟨_, rfl, hdigits, hlen, hlong⟩]
    rfl

theorem TailTooLong.read (h : TailTooLong n cs) :
    readSegments .separator cs = .error (.indexTooLong n) := by
  induction h with
  | here h => exact h.read _
  | dotted h =>
    have hread := h.read .key
    cases h
    rw [readSegments_dot (List.cons_ne_nil _ _), hread]
  | behind hs hrest ih =>
    rw [readSegments_joined hs hrest.follows, ih]
    rfl

theorem Overlong.read (h : Overlong n cs) : readSegments .key cs = .error (.indexTooLong n) := by
  cases h with
  | here h => exact h.read _
  | behind hs hrest =>
    rw [readSegments_spelled hs hrest.follows, hrest.read]
    rfl

theorem Overlong.lt_length (h : Overlong n cs) : Integer.digitLimit + 2 < cs.length := by
  have hlong {cs : List CodePoint} (h : TooLong n cs) : Integer.digitLimit + 2 < cs.length := by
    cases h with
    | brackets _ hlen hlimit =>
      simp only [List.length_cons, List.length_append, List.length_map]
      omega
  have htail {cs : List CodePoint} (h : TailTooLong n cs) : Integer.digitLimit + 2 < cs.length := by
    induction h with
    | here h => exact hlong h
    | dotted h => exact Nat.lt_succ_of_lt (hlong h)
    | behind _ _ ih => exact List.length_append ▸ Nat.lt_add_left _ ih
  cases h with
  | here h => exact hlong h
  | behind _ h => exact List.length_append ▸ Nat.lt_add_left _ (htail h)

-- ---------------------------------------------------------------------------
-- Texts that are read are of the grammar
-- ---------------------------------------------------------------------------

/-- What the rest of a text is that reads as these segments, by what may come next. -/
def Reads : Expected → List Segment → List CodePoint → Prop
  | .key, segments, cs => Denotes LooselyJoined ⟨segments⟩ cs
  | .separator, segments, cs => Tail LooselyJoined segments cs

/-- What the rest of a text is that leads up to a position of `n` digits. -/
def ReadsTooLong (n : Nat) : Expected → List CodePoint → Prop
  | .key, cs => Overlong n cs
  | .separator, cs => TailTooLong n cs

theorem Denotes.dotted (h : Denotes LooselyJoined p cs) (hne : cs ≠ []) :
    Tail LooselyJoined p.segments (char '.' :: cs) := by
  cases h with
  | root => exact absurd rfl hne
  | steps hs hrest => exact .cons hs.dotted hrest

theorem Overlong.dotted (h : Overlong n cs) : TailTooLong n (char '.' :: cs) := by
  cases h with
  | here h => exact .dotted h
  | behind hs hrest => exact .behind hs.dotted hrest

theorem spelled_name {c : CodePoint} {rest : List CodePoint} (hopen : c ≠ '[') (hdot : c ≠ '.')
    (hclose : c ≠ ']') :
    Spelled (.key ⟨c :: rest.takeWhile (!endsKey ·)⟩)
      (c :: rest.takeWhile (!endsKey ·)) := by
  refine .key (List.cons_ne_nil _ _) fun d hd => ?_
  rcases List.mem_cons.1 hd with rfl | hd
  · exact ⟨hdot, hopen, hclose⟩
  · exact endsKey_eq_false_iff.1 (by simpa using List.mem_takeWhile_imp hd)

-- Both inductions are on what reading does: it stops, reads a position, passes over a dot or
-- reads a key. Only a position is read whatever is expected.
theorem readSegments_ok (h : readSegments e cs = .ok segments) : Reads e segments cs := by
  fun_induction readSegments e cs generalizing segments with
  | case1 e =>
    cases h
    cases e with
    | key => exact .root
    | separator => exact .nil
  | case2 | case4 | case6 | case7 => cases h
  | case3 e rest digits c after heq hlt =>
    rename_i ih
    simp only [bind_ok, pure_ok] at h
    obtain ⟨n, hn, more, hmore, rfl⟩ := h
    obtain ⟨ds, hds, hdigits, hlen, rfl⟩ := readIndex_ok_iff.1 hn
    have hds : rest.takeWhile (· ≠ char ']') = ds.map char := Text.mk.inj hds
    rw [eq_brackets heq, hds, List.append_cons, ← List.cons_append]
    cases e with
    | key => exact .steps (.index hdigits hlen) (ih hmore)
    | separator => exact .cons (.joined (.index (.index hdigits hlen))) (ih hmore)
  | case5 e rest he ih =>
    simp only [Bool.or_eq_true, decide_eq_true_eq, List.isEmpty_iff, not_or] at he
    cases e with
    | key => exact absurd rfl he.1
    | separator => exact (ih h).dotted he.2
  | case8 e c rest hopen hdot he name hclose hle =>
    rename_i ih
    simp only [bind_ok, pure_ok] at h
    obtain ⟨more, hmore, rfl⟩ := h
    simp only [Bool.or_eq_true, decide_eq_true_eq, not_or] at hclose
    rw [← rest.takeWhile_append_dropWhile (p := (!endsKey ·)), ← List.cons_append]
    cases e with
    | key => exact .steps (spelled_name hopen hdot hclose.1) (ih hmore)
    | separator => exact absurd rfl he

theorem readSegments_tooLong (h : readSegments e cs = .error (.indexTooLong n)) :
    ReadsTooLong n e cs := by
  fun_induction readSegments e cs with
  | case1 | case2 | case4 | case6 | case7 => cases h
  | case3 e rest digits c after heq hlt =>
    rename_i ih
    rw [eq_brackets heq]
    simp only [bind_error] at h
    rcases h with hlong | ⟨m, hm, hmore | ⟨more, -, hmore⟩⟩
    · obtain ⟨ds, hds, hdigits, hlen, hlimit⟩ := readIndex_tooLong_iff.1 hlong
      have hds : rest.takeWhile (· ≠ char ']') = ds.map char := Text.mk.inj hds
      rw [hds]
      cases e with
      | key => exact .here (.brackets hdigits hlen hlimit)
      | separator => exact .here (.brackets hdigits hlen hlimit)
    · obtain ⟨ds, hds, hdigits, hlen, rfl⟩ := readIndex_ok_iff.1 hm
      have hds : rest.takeWhile (· ≠ char ']') = ds.map char := Text.mk.inj hds
      rw [hds, List.append_cons, ← List.cons_append]
      cases e with
      | key => exact .behind (.index hdigits hlen) (ih hmore)
      | separator => exact .behind (.joined (.index (.index hdigits hlen))) (ih hmore)
    · cases hmore
  | case5 e rest he ih =>
    simp only [Bool.or_eq_true, decide_eq_true_eq, not_or] at he
    cases e with
    | key => exact absurd rfl he.1
    | separator => exact (ih h).dotted
  | case8 e c rest hopen hdot he name hclose hle =>
    rename_i ih
    simp only [bind_error] at h
    rcases h with hmore | ⟨more, -, hmore⟩
    · simp only [Bool.or_eq_true, decide_eq_true_eq, not_or] at hclose
      rw [← rest.takeWhile_append_dropWhile (p := (!endsKey ·)), ← List.cons_append]
      cases e with
      | key => exact .behind (spelled_name hopen hdot hclose.1) (ih hmore)
      | separator => exact absurd rfl he
    · cases hmore

-- ---------------------------------------------------------------------------
-- What comes behind a dot
-- ---------------------------------------------------------------------------

/-- Every dot has a character behind it, and `P` holds of that. -/
def DotsBefore (P : CodePoint → Prop) (cs : List CodePoint) : Prop :=
  ∀ front rest, cs = front ++ char '.' :: rest → ∃ c, rest.head? = some c ∧ P c

variable {P : CodePoint → Prop} {J J' : Segment → List CodePoint → Prop}

theorem dotsBefore_of_not_mem (h : char '.' ∉ cs) : DotsBefore P cs := by
  rintro front rest rfl
  exact absurd (List.mem_append_right _ List.mem_cons_self) h

theorem dotsBefore_dot {c : CodePoint} (h : char '.' ∉ cs) (hc : cs.head? = some c) (hP : P c) :
    DotsBefore P (char '.' :: cs) := by
  intro front rest heq
  cases front with
  | nil =>
    cases heq
    exact ⟨c, hc, hP⟩
  | cons d front =>
    cases heq
    exact absurd (List.mem_append_right _ List.mem_cons_self) h

theorem DotsBefore.append (h : DotsBefore P cs) (h' : DotsBefore P after) :
    DotsBefore P (cs ++ after) := by
  intro front rest heq
  rcases List.append_eq_append_iff.1 heq with ⟨mid, -, hafter⟩ | ⟨mid, hcs, hrest⟩
  · exact h' mid rest hafter
  · cases mid with
    | nil => exact h' [] rest hrest.symm
    | cons d mid =>
      rw [List.cons_append, List.cons.injEq] at hrest
      obtain ⟨rfl, rfl⟩ := hrest
      obtain ⟨c, hc, hP⟩ := h front mid hcs
      exact ⟨c, by simp [hc], hP⟩

theorem Tail.dotsBefore (hJ : ∀ {s cs}, J s cs → DotsBefore P cs) (h : Tail J segments cs) :
    DotsBefore P cs := by
  induction h with
  | nil => exact dotsBefore_of_not_mem List.not_mem_nil
  | cons hs _ ih => exact (hJ hs).append ih

theorem Spelled.not_mem_dot (h : Spelled s cs) : char '.' ∉ cs := by
  cases h with
  | key _ hplain => exact fun hdot => (hplain _ hdot).1 rfl
  | @index digits hdigits _ =>
    intro hdot
    have hmem : '.' ∈ digits := by simpa using hdot
    exact absurd (hdigits.2 _ hmem) (by decide)

theorem Denotes.dotsBefore (hJ : ∀ {s cs}, J s cs → DotsBefore P cs) (h : Denotes J p cs) :
    DotsBefore P cs := by
  cases h with
  | root => exact dotsBefore_of_not_mem List.not_mem_nil
  | steps hs hrest =>
    exact (dotsBefore_of_not_mem hs.not_mem_dot).append (hrest.dotsBefore hJ)

theorem Spelled.dotsBefore_dot (h : Spelled s cs) : DotsBefore (· ≠ '.') (char '.' :: cs) := by
  obtain ⟨c, more, rfl⟩ := List.exists_cons_of_ne_nil h.ne_nil
  refine Path.dotsBefore_dot h.not_mem_dot rfl ?_
  rintro rfl
  exact h.not_mem_dot List.mem_cons_self

theorem Joined.dotsBefore (h : Joined s cs) : DotsBefore (· ≠ '[') cs := by
  cases h with
  | key h =>
    have hdot := h.not_mem_dot
    cases h with
    | key hne hplain =>
      obtain ⟨c, more, rfl⟩ := List.exists_cons_of_ne_nil hne
      exact dotsBefore_dot hdot rfl (hplain c List.mem_cons_self).2.1
  | index h => exact dotsBefore_of_not_mem h.not_mem_dot

theorem LooselyJoined.dotsBefore (h : LooselyJoined s cs) : DotsBefore (· ≠ '.') cs := by
  cases h with
  | joined h =>
    cases h with
    | key h => exact h.dotsBefore_dot
    | index h => exact dotsBefore_of_not_mem h.not_mem_dot
  | dotted h => exact h.dotsBefore_dot

theorem DotsBefore.not_within {c : CodePoint} (h : DotsBefore P cs) (hc : ¬ P c) :
    ¬ [char '.', c] <:+: cs := by
  rintro ⟨front, rest, heq⟩
  obtain ⟨d, hd, hP⟩ := h front (c :: rest) (by simp [← heq])
  cases hd
  exact hc hP

theorem Denotes.not_lacksKey (h : Denotes LooselyJoined p cs) : ¬ LacksKey cs := by
  have hdots := h.dotsBefore fun h => h.dotsBefore
  rintro (⟨rest, hfirst⟩ | ⟨front, hlast⟩ | htwo)
  · cases h with
    | root => cases hfirst
    | steps hs _ =>
      obtain ⟨c, more, rfl⟩ := List.exists_cons_of_ne_nil hs.ne_nil
      cases hfirst
      exact hs.not_mem_dot List.mem_cons_self
  · obtain ⟨c, hc, -⟩ := hdots front [] hlast.symm
    cases hc
  · exact hdots.not_within (fun h => h rfl) htwo

theorem Tail.mono (hJ : ∀ {s cs}, J s cs → J' s cs) (h : Tail J segments cs) :
    Tail J' segments cs := by
  induction h with
  | nil => exact .nil
  | cons hs _ ih => exact .cons (hJ hs) ih

theorem Tail.joined (h : Tail LooselyJoined segments cs) (hno : ¬ [char '.', char '['] <:+: cs) :
    Tail Joined segments cs := by
  induction h with
  | nil => exact .nil
  | cons hs _ ih =>
    refine .cons ?_ (ih fun h => hno (h.trans (List.suffix_append _ _).isInfix))
    cases hs with
    | joined hs => exact hs
    | dotted hs =>
      cases hs
      exact absurd ⟨[], _, rfl⟩ hno

theorem denotes_joined_iff :
    Denotes Joined p cs ↔ Denotes LooselyJoined p cs ∧ ¬ [char '.', char '['] <:+: cs := by
  constructor
  · intro h
    refine ⟨?_, (h.dotsBefore fun h => h.dotsBefore).not_within fun h => h rfl⟩
    cases h with
    | root => exact .root
    | steps hs hrest => exact .steps hs (hrest.mono .joined)
  · rintro ⟨h, hno⟩
    cases h with
    | root => exact .root
    | steps hs hrest =>
      exact .steps hs (hrest.joined fun h => hno (h.trans (List.suffix_append _ _).isInfix))

-- ---------------------------------------------------------------------------
-- Reading
-- ---------------------------------------------------------------------------

variable {text : Text}

theorem read_ok_iff : read text = .ok p ↔ Denotes LooselyJoined p text.points := by
  unfold read
  constructor
  · intro h
    split at h
    · rename_i segments hs
      cases h
      exact readSegments_ok hs
    · cases h
  · intro h
    rw [h.read]

theorem read_digitsTooMany_iff :
    read text = .error (.fault (.digitsTooMany n)) ↔ Overlong n text.points := by
  unfold read
  constructor
  · intro h
    split at h
    · cases h
    · rename_i e he
      cases e with
      | indexTooLong m =>
        cases h
        exact readSegments_tooLong he
      | _ => cases h
  · intro h
    rw [h.read]
    rfl

theorem read_error {f : Failure} (h : read text = .error f) :
    (∃ n, f = .fault (.digitsTooMany n)) ∨ ∃ reason, f = .config (.invalidPath text reason) := by
  unfold read at h
  split at h
  · cases h
  · rename_i e _
    cases h
    cases e with
    | indexTooLong n => exact .inl ⟨n, rfl⟩
    | _ => exact .inr ⟨_, rfl⟩

/-- A text is read as a path exactly if it denotes the path, where a position may have a dot before
it. The texts that denote a path without such dots are the ones that are read and have no dot before
a bracket. A text with an empty key at either end or between two dots is not read. What is not read
is refused as no path, unless its steps lead up to a position with too many digits: then reading
fails on the digits. -/
theorem read_grammar (text : Text) :
    (∀ p, read text = .ok p ↔ Denotes LooselyJoined p text.points) ∧
    (∀ p, Denotes Joined p text.points ↔
      read text = .ok p ∧ ¬ [char '.', char '['] <:+: text.points) ∧
    (LacksKey text.points → ∀ p, read text ≠ .ok p) ∧
    (∀ n, read text = .error (.fault (.digitsTooMany n)) ↔ Overlong n text.points) ∧
    ((∃ p, read text = .ok p) ∨ (∃ n, Overlong n text.points) ∨
      ∃ reason, read text = .error (.config (.invalidPath text reason))) := by
  refine ⟨fun p => read_ok_iff, fun p => ?_, fun h p hp => ?_, fun n => read_digitsTooMany_iff, ?_⟩
  · rw [read_ok_iff, denotes_joined_iff]
  · exact (read_ok_iff.1 hp).not_lacksKey h
  · cases hread : read text with
    | ok p => exact .inl ⟨p, rfl⟩
    | error e =>
      rcases read_error hread with ⟨n, rfl⟩ | ⟨reason, rfl⟩
      · exact .inr (.inl ⟨n, read_digitsTooMany_iff.1 hread⟩)
      · exact .inr (.inr ⟨reason, rfl⟩)

theorem read_grammar_nested :
    Denotes Joined ⟨[.key "a b", .index 7, .index 0, .key "c"]⟩ (Text.points "a b[007][0].c") := by
  refine ((read_grammar "a b[007][0].c").2.1 _).2 ⟨by decide +kernel, by decide +kernel⟩

/-- A position behind a dot is read, though the dot calls for a key. -/
theorem read_dotted :
    read "a.[0]" = .ok ⟨[.key "a", .index 0]⟩ ∧ ∀ p, ¬ Denotes Joined p (Text.points "a.[0]") :=
  ⟨by decide +kernel, fun _ h => (denotes_joined_iff.1 h).2 (by decide +kernel)⟩

end LayeredConfig.Path
