import LayeredConfig.Json.Text
import LayeredConfig.Text.Digit

/-!
# JSON texts as data

Every text that the standard admits, token by token: values with the space around them, numbers and
strings as they are written. An object may repeat a name. `Value.mem_chars_iff`: a character that no
other token has stands in a text only where it stands in one of its strings.
-/

namespace LayeredConfig.Json

-- ---------------------------------------------------------------------------
-- Tokens
-- ---------------------------------------------------------------------------

/-- What may stand between two tokens. -/
structure Space where
  chars : List Char
  isSpace : ∀ c ∈ chars, isSpace c = true

/-- A character of a string, written as it is or escaped by a letter or by a code. -/
inductive Piece where
  | plain (c : Char) (notQuote : c ≠ '"') (notBackslash : c ≠ '\\') (notControl : ¬ c < ' ')
  | letter (c : Char) (escapes : (unescape? c).isSome)
  | code (digits : List Char) (four : digits.length = 4)
    (hexadecimal : ∀ c ∈ digits, (Text.hexValue? c).isSome)

def Piece.chars : Piece → List Char
  | .plain c .. => [c]
  | .letter c _ => ['\\', c]
  | .code digits .. => '\\' :: 'u' :: digits

/-- A string with its quotes. -/
structure Quoted where
  pieces : List Piece

def Quoted.chars (s : Quoted) : List Char := '"' :: s.pieces.flatMap Piece.chars ++ ['"']

/-- One digit or more. -/
structure Digits where
  chars : List Char
  nonempty : chars ≠ []
  isDigit : ∀ c ∈ chars, Text.isDigit c = true

structure Exponent where
  mark : Char
  isMark : mark = 'e' ∨ mark = 'E'
  sign : List Char
  isSign : sign ∈ [[], ['+'], ['-']]
  digits : Digits

structure Number where
  negative : Bool
  whole : Digits
  /-- Only zero itself starts with a zero. -/
  leading : whole.chars.head? = some '0' → whole.chars = ['0']
  fraction : Option Digits
  exponent : Option Exponent

def Exponent.chars (e : Exponent) : List Char := e.mark :: e.sign ++ e.digits.chars

def Number.chars (n : Number) : List Char :=
  (if n.negative then ['-'] else []) ++ n.whole.chars ++
    (n.fraction.elim [] fun digits => '.' :: digits.chars) ++ n.exponent.elim [] Exponent.chars

inductive Word where
  | null
  | bool (b : Bool)
  deriving DecidableEq, Repr

def Word.chars : Word → List Char
  | .null => ['n', 'u', 'l', 'l']
  | .bool true => ['t', 'r', 'u', 'e']
  | .bool false => ['f', 'a', 'l', 's', 'e']

-- ---------------------------------------------------------------------------
-- Values
-- ---------------------------------------------------------------------------

structure Label where
  before : Space
  name : Quoted
  beforeColon : Space
  afterColon : Space

def Label.chars (l : Label) : List Char :=
  l.before.chars ++ l.name.chars ++ l.beforeColon.chars ++ ':' :: l.afterColon.chars

mutual

inductive Value where
  | word (w : Word)
  | number (n : Number)
  | string (s : Quoted)
  | emptyArray (inside : Space)
  | array (items : Items)
  | emptyObject (inside : Space)
  | object (members : Members)

/-- The items of an array, each with the space around it. -/
inductive Items where
  | last (before : Space) (value : Value) (after : Space)
  | more (before : Space) (value : Value) (after : Space) (rest : Items)

inductive Members where
  | last (label : Label) (value : Value) (after : Space)
  | more (label : Label) (value : Value) (after : Space) (rest : Members)

end

mutual

def Value.chars : Value → List Char
  | .word w => w.chars
  | .number n => n.chars
  | .string s => s.chars
  | .emptyArray inside => '[' :: inside.chars ++ [']']
  | .array items => '[' :: items.chars ++ [']']
  | .emptyObject inside => '{' :: inside.chars ++ ['}']
  | .object members => '{' :: members.chars ++ ['}']

def Items.chars : Items → List Char
  | .last before value after => before.chars ++ value.chars ++ after.chars
  | .more before value after rest =>
    before.chars ++ value.chars ++ after.chars ++ ',' :: rest.chars

def Members.chars : Members → List Char
  | .last label value after => label.chars ++ value.chars ++ after.chars
  | .more label value after rest =>
    label.chars ++ value.chars ++ after.chars ++ ',' :: rest.chars

end

mutual

/-- The strings of a value in their order, names among them. -/
def Value.strings : Value → List Quoted
  | .string s => [s]
  | .array items => items.strings
  | .object members => members.strings
  | _ => []

def Items.strings : Items → List Quoted
  | .last _ value _ => value.strings
  | .more _ value _ rest => value.strings ++ rest.strings

def Members.strings : Members → List Quoted
  | .last label value _ => label.name :: value.strings
  | .more label value _ rest => label.name :: value.strings ++ rest.strings

end

/-- Arrays and objects. -/
def Value.isContainer : Value → Bool
  | .emptyArray _ | .array _ | .emptyObject _ | .object _ => true
  | _ => false

/-- A whole text: a value with space around it. -/
structure Written where
  before : Space
  value : Value
  after : Space

namespace Written

def chars (t : Written) : List Char := t.before.chars ++ t.value.chars ++ t.after.chars

def text (t : Written) : String := String.ofList t.chars

end Written

-- ---------------------------------------------------------------------------
-- Characters of tokens
-- ---------------------------------------------------------------------------

/-- Whether some token that is no string has the character, or space has. -/
def isTokenChar (c : Char) : Bool :=
  isSpace c || Text.isDigit c || "[]\x7b\x7d:,-+.eEnulltruefalse".toList.contains c

variable {c : Char}

theorem Space.not_mem (h : isTokenChar c = false) (s : Space) : c ∉ s.chars := by
  intro hc
  simp [isTokenChar, s.isSpace c hc] at h

theorem Digits.not_mem (h : isTokenChar c = false) (d : Digits) : c ∉ d.chars := by
  intro hc
  simp [isTokenChar, d.isDigit c hc] at h

theorem ne_of_isTokenChar {d : Char} (h : isTokenChar c = false) (hd : isTokenChar d = true) :
    c ≠ d := by
  rintro rfl
  cases h.symm.trans hd

theorem not_mem_of_tokens {cs : List Char} (h : isTokenChar c = false)
    (hcs : cs.all isTokenChar = true) : c ∉ cs :=
  fun hc => ne_of_isTokenChar h (List.all_eq_true.1 hcs c hc) rfl

theorem Exponent.not_mem (h : isTokenChar c = false) (e : Exponent) : c ∉ e.chars := by
  have hmark : isTokenChar e.mark = true := by
    rcases e.isMark with hm | hm <;> rw [hm] <;> decide
  have hsign : c ∉ e.sign := by
    refine not_mem_of_tokens h ?_
    have hs := e.isSign
    simp only [List.mem_cons, List.not_mem_nil, or_false] at hs
    rcases hs with hs | hs | hs <;> rw [hs] <;> decide
  simp [Exponent.chars, ne_of_isTokenChar h hmark, hsign, e.digits.not_mem h]

theorem Number.not_mem (h : isTokenChar c = false) (n : Number) : c ∉ n.chars := by
  have hsign : c ∉ (if n.negative then ['-'] else []) := by
    refine not_mem_of_tokens h ?_
    split <;> decide
  have hfraction : c ∉ n.fraction.elim [] fun digits => '.' :: digits.chars := by
    have hpoint : c ≠ '.' := ne_of_isTokenChar h (by decide)
    cases n.fraction with
    | none => exact List.not_mem_nil
    | some digits => simp [hpoint, digits.not_mem h]
  have hexponent : c ∉ n.exponent.elim [] Exponent.chars := by
    cases n.exponent with
    | none => exact List.not_mem_nil
    | some e => exact e.not_mem h
  simp only [Number.chars, List.mem_append, not_or]
  exact ⟨⟨⟨hsign, n.whole.not_mem h⟩, hfraction⟩, hexponent⟩

theorem Word.not_mem (h : isTokenChar c = false) : (w : Word) → c ∉ w.chars
  | .null => not_mem_of_tokens h (by decide)
  | .bool true => not_mem_of_tokens h (by decide)
  | .bool false => not_mem_of_tokens h (by decide)

theorem Label.mem_chars_iff (h : isTokenChar c = false) (l : Label) :
    c ∈ l.chars ↔ c ∈ l.name.chars := by
  have hcolon : c ≠ ':' := ne_of_isTokenChar h (by decide)
  simp [Label.chars, Space.not_mem h, hcolon]

theorem mem_enclosed {first last : Char} (h : isTokenChar c = false)
    (hfirst : isTokenChar first = true) (hlast : isTokenChar last = true) (cs : List Char) :
    c ∈ first :: cs ++ [last] ↔ c ∈ cs := by
  simp [ne_of_isTokenChar h hfirst, ne_of_isTokenChar h hlast]

mutual

theorem Value.mem_chars_iff (h : isTokenChar c = false) :
    (v : Value) → (c ∈ v.chars ↔ ∃ s ∈ v.strings, c ∈ s.chars)
  | .word w => by simp [Value.chars, Value.strings, w.not_mem h]
  | .number n => by simp [Value.chars, Value.strings, n.not_mem h]
  | .string s => by simp [Value.chars, Value.strings]
  | .emptyArray inside => by
    rw [Value.chars, mem_enclosed h (by decide) (by decide)]
    simp [Value.strings, inside.not_mem h]
  | .array items => by
    rw [Value.chars, mem_enclosed h (by decide) (by decide), items.mem_chars_iff h, Value.strings]
  | .emptyObject inside => by
    rw [Value.chars, mem_enclosed h (by decide) (by decide)]
    simp [Value.strings, inside.not_mem h]
  | .object members => by
    rw [Value.chars, mem_enclosed h (by decide) (by decide), members.mem_chars_iff h,
      Value.strings]

theorem Items.mem_chars_iff (h : isTokenChar c = false) :
    (items : Items) → (c ∈ items.chars ↔ ∃ s ∈ items.strings, c ∈ s.chars)
  | .last before value after => by
    simp [Items.chars, Items.strings, Space.not_mem h, value.mem_chars_iff h]
  | .more before value after rest => by
    have hcomma : c ≠ ',' := ne_of_isTokenChar h (by decide)
    simp [Items.chars, Items.strings, Space.not_mem h, value.mem_chars_iff h,
      rest.mem_chars_iff h, hcomma, or_and_right, exists_or]

theorem Members.mem_chars_iff (h : isTokenChar c = false) :
    (members : Members) → (c ∈ members.chars ↔ ∃ s ∈ members.strings, c ∈ s.chars)
  | .last label value after => by
    simp [Members.chars, Members.strings, Space.not_mem h, label.mem_chars_iff h,
      value.mem_chars_iff h]
  | .more label value after rest => by
    have hcomma : c ≠ ',' := ne_of_isTokenChar h (by decide)
    simp [Members.chars, Members.strings, Space.not_mem h, label.mem_chars_iff h,
      value.mem_chars_iff h, rest.mem_chars_iff h, hcomma, or_and_right, exists_or]

end

theorem Written.mem_chars_iff (h : isTokenChar c = false) (t : Written) :
    c ∈ t.chars ↔ ∃ s ∈ t.value.strings, c ∈ s.chars := by
  simp [Written.chars, Space.not_mem h, t.value.mem_chars_iff h]

end LayeredConfig.Json
