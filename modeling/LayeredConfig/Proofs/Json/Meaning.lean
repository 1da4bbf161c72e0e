import LayeredConfig.Proofs.Json.RoundTrip
import LayeredConfig.Proofs.Json.Syntax
import LayeredConfig.Proofs.Number.Decimal
import LayeredConfig.Proofs.Tree.Faults

/-!
# What JSON texts mean

The text that a string stands for, the number that a literal denotes and the document that a value
describes. The reader finds the first two: `takeString_inside`, `takeNumber_chars`. Escapes by code
stand for a code point each, but for the two halves of a surrogate pair, which stand for one.
-/

namespace LayeredConfig.Json

open Text

-- ---------------------------------------------------------------------------
-- Strings
-- ---------------------------------------------------------------------------

/-- The code points that the pieces of a string stand for; half a surrogate pair alone stands for
itself. -/
def contentOf : List Piece → List CodePoint
  | [] => []
  | .plain c _ _ _ :: rest => c :: contentOf rest
  | .letter c h :: rest => (unescape? c).get h :: contentOf rest
  | .code ds _ _ :: .code es four hexadecimal :: rest =>
    if isHighSurrogate (codeOf ds) && isLowSurrogate (codeOf es) then
      .ofNat (joinSurrogates (codeOf ds) (codeOf es)) :: contentOf rest
    else .ofNat (codeOf ds) :: contentOf (.code es four hexadecimal :: rest)
  | .code ds _ _ :: rest => .ofNat (codeOf ds) :: contentOf rest

def Quoted.content (s : Quoted) : Text := ⟨contentOf s.pieces⟩

/-- The characters from behind the opening quote on, with what follows the string. -/
def inside (pieces : List Piece) (rest : List Char) : List Char :=
  pieces.flatMap Piece.chars ++ '"' :: rest

variable {start fuel : Nat} {cs rest more : List Char} {n m : Nat}

theorem inside_ne_nil (pieces : List Piece) (rest : List Char) : inside pieces rest ≠ [] := by
  simp [inside]

theorem inside_cons (p : Piece) (pieces : List Piece) (rest : List Char) :
    inside (p :: pieces) rest = p.chars ++ inside pieces rest := by
  rw [inside, inside, List.flatMap_cons, List.append_assoc]

theorem inside_plain {c : Char} (hq : c ≠ '"') (hb : c ≠ '\\') (hc : ¬ c < ' ')
    (pieces : List Piece) (rest : List Char) :
    inside (.plain c hq hb hc :: pieces) rest = c :: inside pieces rest :=
  inside_cons _ _ _

theorem inside_letter {c : Char} (h : (unescape? c).isSome) (pieces : List Piece)
    (rest : List Char) :
    inside (.letter c h :: pieces) rest = '\\' :: c :: inside pieces rest :=
  inside_cons _ _ _

theorem inside_code (ds : List Char) (four : ds.length = 4)
    (h : ∀ c ∈ ds, (hexValue? c).isSome) (pieces : List Piece) (rest : List Char) :
    inside (.code ds four h :: pieces) rest = '\\' :: 'u' :: (ds ++ inside pieces rest) :=
  inside_cons _ _ _

theorem takeEscape_letter {c e : Char} (h : unescape? c = some e) (rest : List Char) :
    takeEscape start (c :: rest) = .ok (e, rest) := by
  have hu : c ≠ 'u' := by
    rintro rfl
    cases h
  unfold takeEscape
  split
  · cases ‹_ :: _ = []›
  · rename_i heq
    cases heq
    exact absurd rfl hu
  · rename_i heq
    cases heq
    rw [h]

theorem takePoints_code {p : CodePoint} (h : takeCodeEscape cs = .ok (p, rest)) :
    takePoints start (fuel + 1) ('\\' :: 'u' :: cs) =
      (takePoints start fuel rest).map fun r => (p :: r.1, r.2) :=
  takePoints_escape h

theorem inside_ne_code {pieces : List Piece}
    (h : ∀ ds four hexadecimal later, pieces ≠ .code ds four hexadecimal :: later)
    (rest next : List Char) : inside pieces rest ≠ '\\' :: 'u' :: next := by
  intro heq
  match pieces with
  | [] => cases heq
  | .plain c _ hb _ :: later =>
    rw [inside_plain] at heq
    exact hb (List.cons.inj heq).1
  | .letter c hc :: later =>
    rw [inside_letter] at heq
    cases (List.cons.inj (List.cons.inj heq).2).1
    cases hc
  | .code ds four hexadecimal :: later => exact h ds four hexadecimal later rfl

/-- The reader finds what the pieces of a string stand for, up to the closing quote. -/
theorem takePoints_inside (pieces : List Piece) (rest : List Char) (hfuel : pieces.length < fuel) :
    takePoints start fuel (inside pieces rest) = .ok (contentOf pieces, rest) := by
  induction pieces using contentOf.induct generalizing fuel with
  | case1 =>
    obtain ⟨fuel, rfl⟩ := Nat.exists_eq_add_one.2 hfuel
    rfl
  | case2 c hq hb hc later ih =>
    obtain ⟨fuel, rfl⟩ := Nat.exists_eq_add_one.2 (Nat.zero_lt_of_lt hfuel)
    rw [inside_plain, contentOf, takePoints_plain hq hb hc, ih (Nat.lt_of_succ_lt_succ hfuel)]
    rfl
  | case3 c h later ih =>
    obtain ⟨fuel, rfl⟩ := Nat.exists_eq_add_one.2 (Nat.zero_lt_of_lt hfuel)
    rw [inside_letter, contentOf, takePoints_escape (takeEscape_letter (Option.some_get h).symm _),
      ih (Nat.lt_of_succ_lt_succ hfuel)]
    rfl
  | case4 ds hds kds es hes kes later hpair ih =>
    obtain ⟨fuel, rfl⟩ := Nat.exists_eq_add_one.2 (Nat.zero_lt_of_lt hfuel)
    have hfirst := takeCode_digits hds kds (inside (.code es hes kes :: later) rest)
    have hsecond := takeCode_digits hes kes (inside later rest)
    rw [inside_code es hes kes] at hfirst
    have hescape := takeCodeEscape_code hfirst hsecond (inside_ne_nil _ _)
    rw [if_pos hpair] at hescape
    rw [inside_code, inside_code, contentOf, if_pos hpair, takePoints_code hescape,
      ih (by simp only [List.length_cons] at hfuel; omega)]
    rfl
  | case5 ds hds kds es hes kes later hpair ih =>
    obtain ⟨fuel, rfl⟩ := Nat.exists_eq_add_one.2 (Nat.zero_lt_of_lt hfuel)
    have hfirst := takeCode_digits hds kds (inside (.code es hes kes :: later) rest)
    have hsecond := takeCode_digits hes kes (inside later rest)
    rw [inside_code es hes kes] at hfirst
    have hescape := takeCodeEscape_code hfirst hsecond (inside_ne_nil _ _)
    rw [if_neg hpair, ← inside_code es hes kes] at hescape
    rw [inside_code, contentOf, if_neg hpair, takePoints_code hescape,
      ih (Nat.lt_of_succ_lt_succ hfuel)]
    rfl
  | case6 ds hds kds later hlater ih =>
    obtain ⟨fuel, rfl⟩ := Nat.exists_eq_add_one.2 (Nat.zero_lt_of_lt hfuel)
    have hescape := takeCodeEscape_alone (takeCode_digits hds kds (inside later rest))
      (inside_ne_nil _ _) (.inr (inside_ne_code hlater rest))
    rw [inside_code, contentOf, takePoints_code hescape, ih (Nat.lt_of_succ_lt_succ hfuel)]
    · rfl
    · exact hlater

theorem length_le_inside (pieces : List Piece) (rest : List Char) :
    pieces.length < (inside pieces rest).length := by
  induction pieces with
  | nil => exact Nat.succ_pos _
  | cons p later ih =>
    have hp : 0 < p.chars.length := by cases p <;> exact Nat.succ_pos _
    rw [inside_cons, List.length_append, List.length_cons]
    omega

theorem takeString_inside (s : Quoted) (rest : List Char) :
    takeString (inside s.pieces rest) = .ok (s.content, rest) := by
  have hfuel : s.pieces.length < (inside s.pieces rest).length + 1 :=
    Nat.lt_succ_of_lt (length_le_inside _ _)
  rw [takeString, takePoints_inside _ _ hfuel]
  rfl

-- ---------------------------------------------------------------------------
-- Numbers
-- ---------------------------------------------------------------------------

namespace Number

def sign (n : Number) : List Char := if n.negative then ['-'] else []

def fractionChars (n : Number) : List Char := n.fraction.elim [] fun digits => '.' :: digits.chars

def exponentChars (n : Number) : List Char := n.exponent.elim [] Exponent.chars

def isWhole (n : Number) : Bool := n.fraction.isNone && n.exponent.isNone

/-- The whole number that the sign and the digits before the point denote. -/
def integer (n : Number) : Int :=
  if n.negative then -(ofDigits 10 (n.whole.chars.filterMap hexValue?) : Int)
  else ofDigits 10 (n.whole.chars.filterMap hexValue?)

/-- The leaf that a literal denotes: a whole number, or the floating-point number next to it. -/
def leaf (n : Number) : Leaf :=
  if n.isWhole then .int n.integer else .float ((Binary64.read n.chars).getD (.nan 0))

end Number

variable {n : Number}

theorem Digits.exists_cons (d : Digits) : ∃ c cs, d.chars = c :: cs ∧ Text.isDigit c = true := by
  obtain ⟨c, cs, hcs⟩ := List.exists_cons_of_ne_nil d.nonempty
  exact ⟨c, cs, hcs, d.isDigit c (hcs ▸ List.mem_cons_self)⟩

theorem Digits.separated (d : Digits) : Separated Text.isDigit d.chars := by
  have hdigit := d.isDigit
  have hne := d.nonempty
  generalize d.chars = cs at hdigit hne
  induction cs with
  | nil => exact absurd rfl hne
  | cons c cs ih =>
    obtain ⟨hc, hcs⟩ := List.forall_mem_cons.1 hdigit
    cases cs with
    | nil => exact .one hc
    | cons d cs => exact .next hc (ih hcs (List.cons_ne_nil d cs))

theorem takeWhole_chars (n : Number) (h : ∀ c, rest.head? = some c → isDigit c = false) :
    takeWhole (n.whole.chars ++ rest) = (n.whole.chars, rest) := by
  unfold takeWhole
  split
  · rename_i tail heq
    -- a leading zero is the whole number
    obtain ⟨c, cs, hcs, -⟩ := n.whole.exists_cons
    rw [hcs, List.cons_append] at heq
    cases heq
    have hzero := n.leading (by rw [hcs]; rfl)
    rw [hcs] at hzero ⊢
    cases hzero
    rfl
  · rw [takeWhile_body n.whole.isDigit h, dropWhile_body n.whole.isDigit h]

theorem takeFraction_chars (n : Number)
    (h : ∀ c, rest.head? = some c → isDigit c = false ∧ c ≠ '.') :
    takeFraction (n.fractionChars ++ rest) = (n.fractionChars, rest) := by
  unfold Number.fractionChars
  cases n.fraction with
  | none =>
    rw [Option.elim_none, List.nil_append]
    unfold takeFraction
    split
    · exact absurd rfl (h '.' rfl).2
    · rfl
  | some d =>
    have hdigits (c : Char) (hc : rest.head? = some c) : isDigit c = false := (h c hc).1
    obtain ⟨c, cs, hcs, hc⟩ := d.exists_cons
    have hbody : ∀ c ∈ cs, isDigit c = true := fun c hc =>
      d.isDigit c (hcs ▸ List.mem_cons_of_mem _ hc)
    simp only [Option.elim_some, hcs, List.cons_append, takeFraction, hc, if_true,
      takeWhile_body hbody hdigits, dropWhile_body hbody hdigits]

theorem takeExponent_chars (n : Number) (h : Ends rest) :
    takeExponent (n.exponentChars ++ rest) = (n.exponentChars, rest) := by
  unfold Number.exponentChars
  cases n.exponent with
  | none => exact takeExponent_of_ends h
  | some e =>
    have hdigits (c : Char) (hc : rest.head? = some c) : isDigit c = false := (h c hc).1
    have hbody := e.digits.isDigit
    have hmark : (e.mark = 'e' || e.mark = 'E') = true := by simpa using e.isMark
    have hnonempty : e.digits.chars.isEmpty = false :=
      Bool.eq_false_iff.2 (mt List.isEmpty_iff.1 e.digits.nonempty)
    obtain ⟨c, cs, hcs, hc⟩ := e.digits.exists_cons
    have hsign := e.isSign
    simp only [List.mem_cons, List.not_mem_nil, or_false] at hsign
    rw [Option.elim_some, Exponent.chars]
    rcases hsign with hs | hs | hs
    · rw [hs]
      simp only [List.cons_append, List.nil_append, takeExponent]
      split
      · rename_i heq
        rw [hcs] at heq
        cases heq
        cases hc
      · rename_i heq
        rw [hcs] at heq
        cases heq
        cases hc
      · simp [takeWhile_body hbody hdigits, dropWhile_body hbody hdigits, hmark, hnonempty]
    · rw [hs]
      simp [takeExponent, takeWhile_body hbody hdigits, dropWhile_body hbody hdigits, hmark,
        hnonempty]
    · rw [hs]
      simp [takeExponent, takeWhile_body hbody hdigits, dropWhile_body hbody hdigits, hmark,
        hnonempty]

namespace Number

theorem chars_eq (n : Number) :
    n.chars = n.sign ++ (n.whole.chars ++ (n.fractionChars ++ n.exponentChars)) := by
  rw [chars, List.append_assoc, List.append_assoc]
  rfl

theorem sign_eq (n : Number) : n.sign = [] ∨ n.sign = ['-'] := by
  unfold sign
  split
  · exact .inr rfl
  · exact .inl rfl

theorem sign_eq_minus_iff {n : Number} : n.sign = ['-'] ↔ n.negative = true := by
  unfold sign
  split
  · exact iff_of_true rfl ‹_›
  · exact iff_of_false nofun ‹_›

theorem isSign_sign (n : Number) : Integer.IsSign n.sign :=
  n.sign_eq.imp_right .inr

theorem isFraction_fractionChars (n : Number) : Binary64.IsFraction n.fractionChars := by
  unfold fractionChars
  cases n.fraction with
  | none => exact .inl rfl
  | some d => exact .inr ⟨_, d.separated, rfl⟩

theorem isExponent_exponentChars (n : Number) : Binary64.IsExponent n.exponentChars := by
  unfold exponentChars
  cases n.exponent with
  | none => exact .inl rfl
  | some e =>
    have hsign := e.isSign
    simp only [List.mem_cons, List.not_mem_nil, or_false] at hsign
    exact .inr ⟨_, _, _, e.isMark, hsign, e.digits.separated, rfl⟩

theorem head_exponentChars (n : Number) (h : Ends rest) (c : Char)
    (hc : (n.exponentChars ++ rest).head? = some c) : Text.isDigit c = false ∧ c ≠ '.' := by
  unfold exponentChars at hc
  cases he : n.exponent with
  | none =>
    rw [he] at hc
    exact ⟨(h c hc).1, (h c hc).2.1⟩
  | some e =>
    rw [he] at hc
    cases hc
    rcases e.isMark with hm | hm <;> rw [hm] <;> decide

theorem head_fractionChars (n : Number) (h : Ends rest) (c : Char)
    (hc : (n.fractionChars ++ (n.exponentChars ++ rest)).head? = some c) :
    Text.isDigit c = false := by
  unfold fractionChars at hc
  cases hf : n.fraction with
  | none =>
    rw [hf] at hc
    exact (n.head_exponentChars h c hc).1
  | some d =>
    rw [hf] at hc
    cases hc
    decide

theorem isWhole_iff {n : Number} :
    n.isWhole = true ↔ n.fractionChars.isEmpty && n.exponentChars.isEmpty := by
  unfold isWhole fractionChars exponentChars
  cases n.fraction <;> cases n.exponent <;> exact Iff.rfl

theorem exists_cons (n : Number) :
    ∃ c cs, n.chars = c :: cs ∧ (c = '-' ∨ Text.isDigit c = true) ∧
      ∀ rest, takeWord? (n.chars ++ rest) = none := by
  obtain ⟨c, cs, hcs, hc⟩ := n.whole.exists_cons
  have hchars := n.chars_eq
  rcases n.sign_eq with hs | hs <;> rw [hs, hcs] at hchars
  · refine ⟨c, _, hchars, .inr hc, fun rest => ?_⟩
    rw [hchars]
    exact (takeWord?_digit hc _).1
  · refine ⟨'-', _, hchars, .inl rfl, fun rest => ?_⟩
    rw [hchars]
    exact (takeWord?_digit hc _).2

end Number

/-- A literal of a whole number is short enough to be read. -/
def Number.Moderate (n : Number) : Prop :=
  n.isWhole = true → n.whole.chars.length ≤ Integer.digitLimit

theorem takeNumber_whole (hn : n.isWhole = true)
    (hlength : n.whole.chars.length ≤ Integer.digitLimit) (h : Ends rest) :
    takeNumber (n.chars ++ rest) = .ok (.int n.integer, rest) := by
  have hempty := Number.isWhole_iff.1 hn
  rw [Bool.and_eq_true, List.isEmpty_iff, List.isEmpty_iff] at hempty
  have hread := Integer.read_decimal n.isSign_sign n.whole.nonempty n.whole.isDigit hlength
  simp only [Number.sign_eq_minus_iff] at hread
  refine takeNumber_digits ?_ n.sign_eq n.whole.isDigit n.whole.nonempty
    (takeWhole_chars n fun c hc => (h c hc).1) h hread
  rw [n.chars_eq, hempty.1, hempty.2, List.append_nil, List.append_nil, List.append_assoc]

theorem takeNumber_float (hn : n.isWhole = false) (h : Ends rest) :
    takeNumber (n.chars ++ rest) =
      .ok (.float ((Binary64.read n.chars).getD (.nan 0)), rest) := by
  have hwhole := takeWhole_chars n (n.head_fractionChars h)
  have hfraction := takeFraction_chars n (n.head_exponentChars h)
  have hexponent := takeExponent_chars n h
  have hdigits : n.whole.chars.isEmpty = false :=
    Bool.eq_false_iff.2 (mt List.isEmpty_iff.1 n.whole.nonempty)
  have hempty : (n.fractionChars.isEmpty && n.exponentChars.isEmpty) = false :=
    Bool.eq_false_iff.2 (mt Number.isWhole_iff.2 (Bool.eq_false_iff.1 hn))
  obtain ⟨x, hx⟩ := Option.isSome_iff_exists.1 (Binary64.read_isSome n.isSign_sign
    n.whole.separated n.isFraction_fractionChars n.isExponent_exponentChars)
  simp only [List.append_assoc] at hx
  rw [n.chars_eq, hx]
  simp only [List.append_assoc]
  rcases n.sign_eq with hs | hs <;> rw [hs] at hx ⊢
  · obtain ⟨c, cs, hcs, hc⟩ := n.whole.exists_cons
    rw [List.nil_append] at hx
    unfold takeNumber
    split
    rename_i heq
    split at heq
    · rename_i hminus
      rw [hcs] at hminus
      cases hminus
      cases hc
    · cases heq
      simp [hwhole, hfraction, hexponent, hdigits, hempty, hx]
  · rw [List.singleton_append] at hx
    simp [takeNumber, hwhole, hfraction, hexponent, hdigits, hempty, hx]

theorem takeNumber_chars (hn : n.Moderate) (h : Ends rest) :
    takeNumber (n.chars ++ rest) = .ok (n.leaf, rest) := by
  unfold Number.leaf
  split
  · exact takeNumber_whole ‹_› (hn ‹_›) h
  · exact takeNumber_float (Bool.eq_false_iff.2 ‹_›) h

-- ---------------------------------------------------------------------------
-- Values
-- ---------------------------------------------------------------------------

def Word.leaf : Word → Leaf
  | .null => .null
  | .bool b => .bool b

mutual

/-- The document that a value describes, with every member of its objects. -/
def Value.document : Value → Document
  | .word w => .leaf w.leaf
  | .number n => .leaf n.leaf
  | .string s => .str s.content
  | .emptyArray _ => .list []
  | .array items => .list items.documents
  | .emptyObject _ => .object []
  | .object members => .object members.entries

def Items.documents : Items → List Document
  | .last _ value _ => [value.document]
  | .more _ value _ rest => value.document :: rest.documents

def Members.entries : Members → List (Text × Document)
  | .last label value _ => [(label.name.content, value.document)]
  | .more label value _ rest => (label.name.content, value.document) :: rest.entries

end

mutual

/-- The names of the members of every object, at any depth. -/
def Value.objects : Value → List (List Text)
  | .array items => items.objects
  | .emptyObject _ => [[]]
  | .object members => members.entries.map Prod.fst :: members.objects
  | .word _ | .number _ | .string _ | .emptyArray _ => []

def Items.objects : Items → List (List Text)
  | .last _ value _ => value.objects
  | .more _ value _ rest => value.objects ++ rest.objects

def Members.objects : Members → List (List Text)
  | .last _ value _ => value.objects
  | .more _ value _ rest => value.objects ++ rest.objects

end

mutual

/-- The numbers of a value in their order. -/
def Value.numbers : Value → List Number
  | .number n => [n]
  | .array items => items.numbers
  | .object members => members.numbers
  | .word _ | .string _ | .emptyArray _ | .emptyObject _ => []

def Items.numbers : Items → List Number
  | .last _ value _ => value.numbers
  | .more _ value _ rest => value.numbers ++ rest.numbers

def Members.numbers : Members → List Number
  | .last _ value _ => value.numbers
  | .more _ value _ rest => value.numbers ++ rest.numbers

end

mutual

theorem Value.all_document {P : Scalar → Prop} (hs : ∀ s, P (.str s))
    (hw : ∀ w : Word, P w.leaf) :
    (v : Value) → (v.document.All P ↔ ∀ n ∈ v.numbers, P n.leaf)
  | .word w => by
    rw [Value.document, Document.leaf, Document.All, Value.numbers]
    exact iff_of_true (hw w) (List.forall_mem_nil _)
  | .number n => by
    rw [Value.document, Document.leaf, Document.All, Value.numbers, List.forall_mem_singleton]
  | .string s => by
    rw [Value.document, Document.str, Document.leaf, Document.All, Value.numbers]
    exact iff_of_true (hs _) (List.forall_mem_nil _)
  | .emptyArray _ => by
    rw [Value.document, Document.All, Value.numbers]
    exact iff_of_true trivial (List.forall_mem_nil _)
  | .emptyObject _ => by
    rw [Value.document, Document.object, Document.All, Value.numbers]
    exact iff_of_true trivial (List.forall_mem_nil _)
  | .array items => by
    rw [Value.document, Document.All, Value.numbers, Document.allItems_iff,
      items.all_documents hs hw]
  | .object members => by
    rw [Value.document, Document.object, Document.All, Value.numbers, Document.allFields_iff,
      List.forall_mem_map, ← members.all_entries hs hw]
    exact ⟨fun h m hm => (h m hm).2, fun h m hm => ⟨hs m.1, h m hm⟩⟩

theorem Items.all_documents {P : Scalar → Prop} (hs : ∀ s, P (.str s))
    (hw : ∀ w : Word, P w.leaf) :
    (items : Items) → ((∀ d ∈ items.documents, d.All P) ↔ ∀ n ∈ items.numbers, P n.leaf)
  | .last _ value _ => by
    rw [Items.documents, Items.numbers, List.forall_mem_singleton, value.all_document hs hw]
  | .more _ value _ rest => by
    rw [Items.documents, Items.numbers, List.forall_mem_cons, List.forall_mem_append,
      value.all_document hs hw, rest.all_documents hs hw]

theorem Members.all_entries {P : Scalar → Prop} (hs : ∀ s, P (.str s))
    (hw : ∀ w : Word, P w.leaf) :
    (members : Members) →
      ((∀ m ∈ members.entries, m.2.All P) ↔ ∀ n ∈ members.numbers, P n.leaf)
  | .last _ value _ => by
    rw [Members.entries, Members.numbers, List.forall_mem_singleton, value.all_document hs hw]
  | .more _ value _ rest => by
    rw [Members.entries, Members.numbers, List.forall_mem_cons, List.forall_mem_append,
      value.all_document hs hw, rest.all_entries hs hw]

end

end LayeredConfig.Json
