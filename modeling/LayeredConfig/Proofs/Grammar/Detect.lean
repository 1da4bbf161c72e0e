import LayeredConfig.Grammar.Detect
import LayeredConfig.Proofs.Json.Syntax
import LayeredConfig.Proofs.Outcome
import LayeredConfig.Proofs.Text.Scan

/-!
# The detected grammar

`detect_container`: a JSON array or object is taken for JSON, unless a string in it has an equals
sign and nowhere a space follows a colon. Then it is taken for TOML, which is asked first.
-/

namespace LayeredConfig

open Run

namespace Json

theorem isBlank_of_isSpace {c : Char} (h : isSpace c = true) : Text.isBlank c = true := by
  simp only [isSpace, Bool.or_eq_true, decide_eq_true_eq] at h
  rcases h with ((rfl | rfl) | rfl) | rfl <;> decide

theorem Written.trimStart_chars {t : Written} (h : t.value.isContainer = true) :
    ∃ c rest, Text.trimStart t.chars = c :: rest ∧ (c = '{' ∨ c = '[') := by
  obtain ⟨c, rest, hvalue, hc⟩ : ∃ c rest, t.value.chars = c :: rest ∧ (c = '{' ∨ c = '[') := by
    cases hv : t.value with
    | word w => rw [hv] at h; cases h
    | number n => rw [hv] at h; cases h
    | string s => rw [hv] at h; cases h
    | emptyArray inside => exact ⟨_, _, rfl, .inr rfl⟩
    | array items => exact ⟨_, _, rfl, .inr rfl⟩
    | emptyObject inside => exact ⟨_, _, rfl, .inl rfl⟩
    | object members => exact ⟨_, _, rfl, .inl rfl⟩
  have hchars : t.chars = t.before.chars ++ c :: (rest ++ t.after.chars) := by
    simp [Written.chars, hvalue]
  have hblank : Text.isBlank c = false := by
    rcases hc with rfl | rfl <;> decide
  refine ⟨c, rest ++ t.after.chars, ?_, hc⟩
  rw [Text.trimStart, hchars]
  refine Text.dropWhile_body (fun d hd => isBlank_of_isSpace (t.before.isSpace d hd)) ?_
  rintro _ ⟨⟩
  exact hblank

end Json

namespace Grammar

variable {t : Json.Written}

theorem json_claimsText (h : t.value.isContainer = true) :
    Grammar.json.claimsText t.chars = true := by
  obtain ⟨c, rest, hstart, hc⟩ := Json.Written.trimStart_chars h
  rcases hc with rfl | rfl <;> simp [claimsText, hstart]

theorem toml_claimsText_iff (h : t.value.isContainer = true) :
    Grammar.toml.claimsText t.chars = true ↔
      (∃ s ∈ t.value.strings, '=' ∈ s.chars) ∧ ¬ [':', ' '] <:+: t.chars := by
  obtain ⟨c, rest, hstart, hc⟩ := Json.Written.trimStart_chars h
  have hmarker : startsDocument (c :: rest) = false := by
    rcases hc with rfl | rfl <;> rfl
  have hequals : '=' ∈ t.chars ↔ ∃ s ∈ t.value.strings, '=' ∈ s.chars :=
    t.mem_chars_iff (by decide)
  have hspaced : Text.mentions ": ".toList t.chars = true ↔ [':', ' '] <:+: t.chars :=
    Text.mentions_iff
  simp [claimsText, hstart, hmarker, hequals, ← hspaced]

end Grammar

namespace Format

variable {options : Options}

theorem outcome_detect (hauto : options.format = auto) (asked : List Grammar) (content : String)
    (path : Option String) (j : Journal) :
    ((detect options asked content path).start j).1 = .ok (guess asked content path) := by
  simp only [detect, hauto, auto]
  rfl

theorem guess_text (asked : List Grammar) (content : String) :
    guess asked content none = asked.find? (·.claimsText content.toList) := rfl

/-- JSON is asked second, and claims every container. -/
theorem guess_container {t : Json.Written} (h : t.value.isContainer = true) :
    guess Grammar.all t.text none =
      if Grammar.toml.claimsText t.chars then some .toml else some .json := by
  have htext : t.text.toList = t.chars := String.toList_ofList
  rw [guess_text, htext, Grammar.all]
  simp only [List.find?_cons, Grammar.json_claimsText h]
  cases Grammar.toml.claimsText t.chars <;> rfl

/-- A JSON array or object without a path, whose grammar is to be found out, is taken for JSON
exactly if no string in it has an equals sign or somewhere a space follows a colon. Otherwise it is
taken for TOML. -/
theorem detect_container {t : Json.Written} (h : t.value.isContainer = true)
    (hauto : options.format = auto) (j : Journal) :
    let outcome := ((detect options Grammar.all t.text none).start j).1
    (outcome = .ok (some .json) ↔
      (∀ s ∈ t.value.strings, '=' ∉ s.chars) ∨ [':', ' '] <:+: t.chars) ∧
    (outcome = .ok (some .json) ∨ outcome = .ok (some .toml)) := by
  intro outcome
  have houtcome : outcome =
      .ok (if Grammar.toml.claimsText t.chars then some .toml else some .json) :=
    (outcome_detect hauto _ _ _ j).trans (congrArg Except.ok (guess_container h))
  rw [houtcome]
  by_cases hclaims : Grammar.toml.claimsText t.chars = true
  · obtain ⟨⟨s, hs, hequals⟩, hspaced⟩ := (Grammar.toml_claimsText_iff h).1 hclaims
    rw [if_pos hclaims]
    exact ⟨iff_of_false nofun (not_or.2 ⟨fun hnone => hnone s hs hequals, hspaced⟩), .inr rfl⟩
  · have hneither := mt (Grammar.toml_claimsText_iff h).2 hclaims
    rw [if_neg hclaims]
    refine ⟨iff_of_true rfl ?_, .inl rfl⟩
    by_cases hspaced : [':', ' '] <:+: t.chars
    · exact .inr hspaced
    · exact .inl fun s hs hequals => hneither ⟨⟨s, hs, hequals⟩, hspaced⟩

end Format

namespace Json

def Quoted.ofPlain (cs : List Char) (h : ∀ c ∈ cs, c ≠ '"' ∧ c ≠ '\\' ∧ ¬ c < ' ') : Quoted :=
  ⟨cs.attach.map fun c => .plain c.1 (h c.1 c.2).1 (h c.1 c.2).2.1 (h c.1 c.2).2.2⟩

/-- The object with the single member `"a"`, the string `b=c`, and some space behind the colon. -/
def equation (afterColon : Space) : Written :=
  let none : Space := ⟨[], nofun⟩
  ⟨none, .object (.last ⟨none, .ofPlain ['a'] (by simp), none, afterColon⟩
    (.string (.ofPlain ['b', '=', 'c'] (by simp))) none), none⟩

end Json

namespace Format

theorem detect_container_spaced :
    let t := Json.equation ⟨[' '], by simp [Json.isSpace]⟩
    t.text = "\x7b\"a\": \"b=c\"\x7d" ∧ t.value.isContainer = true ∧
      ((detect {} Grammar.all t.text none).start {}).1 = .ok (some .json) := by
  intro t
  have hspaced : [':', ' '] <:+: t.chars := by decide +kernel
  exact ⟨by decide +kernel, rfl, (detect_container rfl rfl {}).1.2 (.inr hspaced)⟩

/-- Without the space the same object is taken for TOML. -/
theorem detect_container_unspaced :
    let t := Json.equation ⟨[], nofun⟩
    t.text = "\x7b\"a\":\"b=c\"\x7d" ∧ t.value.isContainer = true ∧
      ((detect {} Grammar.all t.text none).start {}).1 = .ok (some .toml) := by
  decide +kernel

end Format

end LayeredConfig
