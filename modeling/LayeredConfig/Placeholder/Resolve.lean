import LayeredConfig.Environment
import LayeredConfig.Journal
import LayeredConfig.Options
import LayeredConfig.Placeholder.Braces
import LayeredConfig.Text.Blank
import LayeredConfig.Text.Scan

/-!
# Placeholders

Replaces `${NAME}` and `${NAME:DEFAULT}` in a text by what an environment sets for the name. A name
that is empty or unset takes the default, in which placeholders are resolved in turn. Without a
default the placeholder stays, or in strict mode ends the resolving. What the environment sets is
inserted as it is. An opening without its closing brace is plain text.
-/

namespace LayeredConfig.Placeholder

/-- A text with its placeholders replaced, and how many of them were read. -/
structure Resolved where
  text : List Char
  tokens : Nat
  deriving DecidableEq, Repr

/-- A placeholder with neither value nor default. `left` counts the characters from the outermost
placeholder around it to the end of the text. -/
structure Missing where
  name : String
  left : Nat
  deriving DecidableEq, Repr

/-- The trimmed name before the first colon of a body, and the default behind it. -/
def nameAndDefault (body : List Char) : String × Option (List Char) :=
  let (name, default?) := Text.cut ':' body
  (String.ofList (Text.trim name), default?)

/-- What the environment sets for a name; nothing is set for the empty one. -/
def value? (environment : Environment) (name : String) : Option String :=
  if name.isEmpty then none else environment.value? name

theorem length_default_lt {body rest : List Char} (h : (nameAndDefault body).2 = some rest) :
    rest.length < body.length :=
  Text.length_lt_of_cut h

/-- The outcome in front of which some characters stand. -/
def Resolved.after (cs : List Char) (r : Resolved) : Resolved := ⟨cs ++ r.text, r.tokens⟩

def resolveChars (environment : Environment) (mode : ResolveMode) :
    List Char → Except Missing Resolved
  | [] => .ok ⟨[], 0⟩
  | '$' :: '{' :: rest =>
    match _hn : bodyLength? 0 rest with
    | none => (resolveChars environment mode rest).map (·.after ['$', '{'])
    | some n => do
      let body := rest.take n
      let name := (nameAndDefault body).1
      let here ← match value? environment name, _hd : (nameAndDefault body).2 with
        | some value, _ => pure ⟨value.toList, 0⟩
        | none, some inner =>
          (resolveChars environment mode inner).mapError ({ · with left := rest.length + 2 })
        | none, none =>
          match mode with
          | .lenient => pure ⟨'$' :: '{' :: rest.take (n + 1), 0⟩
          | .strict => throw ⟨name, rest.length + 2⟩
      let after ← resolveChars environment mode (rest.drop (n + 1))
      return ⟨here.text ++ after.text, here.tokens + 1 + after.tokens⟩
  | c :: rest => (resolveChars environment mode rest).map (·.after [c])
termination_by cs => cs.length
decreasing_by
  · simp only [List.length_cons]
    omega
  · have := Text.length_drop_le (n + 1) rest
    simp only [List.length_cons]
    omega
  · have := length_default_lt _hd
    have : body.length ≤ rest.length := Text.length_take_le n rest
    simp only [List.length_cons]
    omega
  · simp

/-- The trimmed line of a text that holds its character number `position`. -/
def lineAt (text : List Char) (position : Nat) : String :=
  let before := (text.take position).reverse.takeWhile (· ≠ '\n')
  let after := (text.drop position).takeWhile (· ≠ '\n')
  String.ofList (Text.trim (before.reverse ++ after))

def resolveText (text : String) (environment : Environment) (mode : ResolveMode) :
    Except ConfigError Resolved :=
  let cs := text.toList
  (resolveChars environment mode cs).mapError fun e =>
    .unresolvedPlaceholder e.name (lineAt cs (cs.length - e.left))

/-- Replaces the placeholders of a text, unless the options leave them alone. -/
def resolve (text : String) (options : Options) (environment : Environment) : Run String := do
  if !options.placeholders then return text
  match resolveText text environment options.mode with
  | .ok r =>
    if r.tokens ≠ 0 then
      Run.report .debug "placeholders_resolved" "resolve" none
        [("tokens", .int r.tokens), ("mode", .str options.mode.name)]
    return String.ofList r.text
  | .error e =>
    if let .unresolvedPlaceholder name _ := e then
      Run.report .debug "placeholder_unresolved" "resolve" none [("name", .str name)]
    throw (.config e)

end LayeredConfig.Placeholder
