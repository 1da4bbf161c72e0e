import LayeredConfig.Placeholder.Resolve

/-!
# Templates

A text with placeholders as data: literals with placeholders between them, whose defaults are
templates again. A template has a text and, in an environment, a meaning. Strict resolving cares
besides for the first placeholder that has neither value nor default.
-/

namespace LayeredConfig.Placeholder

/-- No placeholder opens in these characters. -/
def OpensNothing (cs : List Char) : Prop := ¬ ['$', '{'] <:+: cs

/-- Characters between placeholders. In a default they also hold no closing brace. -/
structure Literal (inDefault : Bool) where
  chars : List Char
  opensNothing : OpensNothing chars
  closesNothing : inDefault → '}' ∉ chars

/-- What stands between the opening and the first colon or the closing brace. -/
structure Name where
  chars : List Char
  opensNothing : OpensNothing chars
  closesNothing : '}' ∉ chars
  noColon : ':' ∉ chars

/-- Literals and placeholders in turn; the literals may be empty, so no two of them meet. -/
inductive Template : (inDefault : Bool) → Type where
  | literal {inDefault : Bool} (text : Literal inDefault) : Template inDefault
  | bare {inDefault : Bool} (before : Literal inDefault) (name : Name)
      (after : Template inDefault) : Template inDefault
  | defaulted {inDefault : Bool} (before : Literal inDefault) (name : Name)
      (default : Template true) (after : Template inDefault) : Template inDefault

def enclosed (body : List Char) : List Char := '$' :: '{' :: body ++ ['}']

@[simp] theorem length_enclosed (body : List Char) :
    (enclosed body).length = body.length + 3 := by
  simp [enclosed]

namespace Name

def trimmed (n : Name) : String := String.ofList (Text.trim n.chars)

def value? (environment : Environment) (n : Name) : Option String :=
  if n.trimmed.isEmpty then none else environment.value? n.trimmed

end Name

namespace Template

variable {inDefault : Bool}

def chars : {inDefault : Bool} → Template inDefault → List Char
  | _, .literal l => l.chars
  | _, .bare before name after => before.chars ++ (enclosed name.chars ++ after.chars)
  | _, .defaulted before name default after =>
    before.chars ++ (enclosed (name.chars ++ ':' :: default.chars) ++ after.chars)

def text (t : Template inDefault) : String := String.ofList t.chars

/-- What lenient resolving makes of a template: values go in as they are, defaults by their own
meaning, and a placeholder without either stays as it is written. -/
def meaning (environment : Environment) : {inDefault : Bool} → Template inDefault → List Char
  | _, .literal l => l.chars
  | _, .bare before name after =>
    let here := match name.value? environment with
      | some value => value.toList
      | none => enclosed name.chars
    before.chars ++ (here ++ after.meaning environment)
  | _, .defaulted before name default after =>
    let here := match name.value? environment with
      | some value => value.toList
      | none => default.meaning environment
    before.chars ++ (here ++ after.meaning environment)

/-- A placeholder that evaluation gets stuck at: its name, and how many characters stand before the
outermost placeholder around it. -/
structure Stuck where
  name : Name
  start : Nat

def Stuck.behind (n : Nat) (s : Stuck) : Stuck := { s with start := n + s.start }

/-- The first placeholder, from left to right, without value and default. A default counts only if
its own placeholder has no value. -/
def stuck? (environment : Environment) : {inDefault : Bool} → Template inDefault → Option Stuck
  | _, .literal _ => none
  | _, .bare before name after =>
    match name.value? environment with
    | some _ =>
      (after.stuck? environment).map (.behind (before.chars.length + (enclosed name.chars).length))
    | none => some ⟨name, before.chars.length⟩
  | _, .defaulted before name default after =>
    let width := before.chars.length + (enclosed (name.chars ++ ':' :: default.chars)).length
    let later := (after.stuck? environment).map (.behind width)
    match name.value? environment, default.stuck? environment with
    | none, some s => some ⟨s.name, before.chars.length⟩
    | _, _ => later

theorem stuck?_start_le {environment : Environment} {t : Template inDefault} {s : Stuck}
    (h : t.stuck? environment = some s) : s.start ≤ t.chars.length := by
  induction t generalizing s with
  | literal => simp [stuck?] at h
  | bare before name after ih =>
    simp only [stuck?] at h
    split at h
    · obtain ⟨s', hs, rfl⟩ := Option.map_eq_some_iff.1 h
      have := ih hs
      simp only [Stuck.behind, chars, List.length_append]
      omega
    · cases h
      simp [chars]
  | defaulted before name default after _ ih =>
    simp only [stuck?] at h
    split at h
    · cases h
      simp [chars]
    · obtain ⟨s', hs, rfl⟩ := Option.map_eq_some_iff.1 h
      have := ih hs
      simp only [Stuck.behind, chars, List.length_append]
      omega

end Template

end LayeredConfig.Placeholder
