import LayeredConfig.Proofs.Failures
import LayeredConfig.Yaml.Lexer

/-!
# Faults of cutting YAML texts

Cutting a text into tokens stops with a problem of the grammar, or with one of the faults of YAML
texts: the number of a version that has too many digits, or the code of an escape that is none.
-/

namespace LayeredConfig.Yaml

/-- The faults of YAML texts: numbers, dates and times that cannot be made, tags that do not suit
their nodes, escapes beyond the characters, and nodes that contain themselves as their own text. -/
def Raises : Fault → Prop
  | .digitsTooMany _ | .integerTooLong | .malformedInteger .. | .malformedFloat _ | .noDigits
  | .beyondFloat | .unknownTruth => True
  | .notATimestamp | .mappingForTimestamp | .yearOutOfRange _ | .monthOutOfRange | .dayOutOfRange
  | .hourOutOfRange | .minuteOutOfRange | .secondOutOfRange | .offsetOutOfRange _ => True
  | .codeTooLarge | .codeOutOfRange | .textForEntries | .nodeForEntry | .tooDeep => True
  | _ => False

/-- A problem, or one of the faults of YAML texts. Repeated keys are no problem of this kind. -/
def Stop.Listed : Stop → Prop
  | .fault f => Raises f
  | .duplicateKey _ => False
  | _ => True

theorem Cursor.stop_failsOnly {α : Type} (c : Cursor) (p : Problem) :
    FailsOnly Stop.Listed (c.stop p : Except Stop α) :=
  failsOnly_error.2 trivial

theorem Cursor.skipRestOfLine_failsOnly (c : Cursor) :
    FailsOnly Stop.Listed c.skipRestOfLine := by
  simp only [Cursor.skipRestOfLine]
  split
  · exact failsOnly_ok
  · exact Cursor.stop_failsOnly _ _

open Cursor

-- ---------------------------------------------------------------------------
-- Names, tags and directives
-- ---------------------------------------------------------------------------

theorem takeName_failsOnly (c : Cursor) : FailsOnly Stop.Listed (takeName c) := by
  simp only [takeName]
  split
  · exact stop_failsOnly _ _
  · exact failsOnly_ok

theorem takeAnchor_failsOnly (symbol : String → Symbol) (c : Cursor) :
    FailsOnly Stop.Listed (takeAnchor symbol c) := by
  refine (takeName_failsOnly _).bind fun (name, rest) => ?_
  simp only
  split
  · exact failsOnly_pure
  · exact stop_failsOnly _ _

theorem takeEscapedBytes_failsOnly (fuel : Nat) (c : Cursor) :
    FailsOnly Stop.Listed (takeEscapedBytes fuel c) := by
  induction fuel generalizing c with
  | zero => exact failsOnly_ok
  | succ fuel ih =>
    simp only [takeEscapedBytes]
    split
    · exact failsOnly_ok
    · split
      · exact stop_failsOnly _ _
      · exact stop_failsOnly _ _
      · exact (ih _).bind fun _ => failsOnly_pure

theorem takeUriParts_failsOnly (fuel : Nat) (c : Cursor) :
    FailsOnly Stop.Listed (takeUriParts fuel c) := by
  induction fuel generalizing c with
  | zero => exact failsOnly_ok
  | succ fuel ih =>
    simp only [takeUriParts]
    split
    · exact failsOnly_pure
    · refine (takeEscapedBytes_failsOnly _ _).bind fun (bytes, after) => ?_
      simp only
      split
      · exact stop_failsOnly _ _
      · exact (ih _).bind fun _ => failsOnly_pure

theorem takeUri_failsOnly (c : Cursor) : FailsOnly Stop.Listed (takeUri c) := by
  unfold takeUri
  refine (stop_failsOnly _ _).check ?_
  exact (takeUriParts_failsOnly _ _).bind fun _ => failsOnly_pure

theorem takeHandle_failsOnly (c : Cursor) : FailsOnly Stop.Listed (takeHandle c) := by
  simp only [takeHandle]
  split
  · exact stop_failsOnly _ _
  · split
    · exact failsOnly_ok
    · split
      · exact failsOnly_ok
      · exact stop_failsOnly _ _

theorem takeTag_failsOnly (c : Cursor) : FailsOnly Stop.Listed (takeTag c) := by
  have hend (tag : Option String × String × Cursor) : FailsOnly Stop.Listed (do
      if !isSpaceOrEnd tag.2.2.peek then tag.2.2.stop (.expectedSpace tag.2.2.peek)
      return ((⟨.tag tag.1 tag.2.1, c.place, tag.2.2.place⟩ : Token), tag.2.2)) :=
    (stop_failsOnly _ _).check failsOnly_pure
  simp only [takeTag]
  split
  · refine (takeUri_failsOnly _).bind fun (uri, rest) => ?_
    exact (stop_failsOnly _ _).check (failsOnly_pure.bind hend)
  · split
    · exact failsOnly_pure.bind hend
    · split
      · refine (takeHandle_failsOnly _).bind fun (handle, rest) => ?_
        exact (takeUri_failsOnly _).bind fun _ => failsOnly_pure.bind hend
      · refine failsOnly_pure.bind fun (handle, rest) => ?_
        exact (takeUri_failsOnly _).bind fun _ => failsOnly_pure.bind hend

theorem takeVersionNumber_failsOnly (c : Cursor) :
    FailsOnly Stop.Listed (takeVersionNumber c) := by
  simp only [takeVersionNumber]
  split
  · exact stop_failsOnly _ _
  · split
    · exact failsOnly_ok
    · exact failsOnly_error.2 trivial
    · exact failsOnly_error.2 trivial

theorem takeVersion_failsOnly (c : Cursor) : FailsOnly Stop.Listed (takeVersion c) := by
  refine (takeVersionNumber_failsOnly _).bind fun (major, c) => ?_
  refine (stop_failsOnly _ _).check ?_
  refine (takeVersionNumber_failsOnly _).bind fun (minor, c) => ?_
  exact (stop_failsOnly _ _).check failsOnly_pure

theorem takeHandleDefinition_failsOnly (c : Cursor) :
    FailsOnly Stop.Listed (takeHandleDefinition c) := by
  refine (takeHandle_failsOnly _).bind fun (handle, c) => ?_
  refine (stop_failsOnly _ _).check ?_
  refine (takeUri_failsOnly _).bind fun (uri, c) => ?_
  exact (stop_failsOnly _ _).check failsOnly_pure

theorem takeDirective_failsOnly (c : Cursor) : FailsOnly Stop.Listed (takeDirective c) := by
  refine (takeName_failsOnly _).bind fun (name, rest) => ?_
  refine (stop_failsOnly _ _).check ?_
  have hend (found : Directive × Cursor) : FailsOnly Stop.Listed (do
      return ((⟨.directive found.1, c.place, found.2.place⟩ : Token),
        ← found.2.skipRestOfLine)) :=
    (skipRestOfLine_failsOnly _).bind fun _ => failsOnly_pure
  split
  · exact (takeVersion_failsOnly _).bind hend
  · split
    · exact (takeHandleDefinition_failsOnly _).bind hend
    · exact failsOnly_pure.bind hend

-- ---------------------------------------------------------------------------
-- Scalars in quotes
-- ---------------------------------------------------------------------------

theorem pointOfCode_failsOnly (n : Nat) : FailsOnly Raises (pointOfCode n) := by
  unfold pointOfCode
  split
  · exact failsOnly_error.2 trivial
  · split
    · exact failsOnly_error.2 trivial
    · exact failsOnly_ok

theorem takeCode_failsOnly (width : Nat) (c : Cursor) :
    FailsOnly Stop.Listed (takeCode width c) := by
  simp only [takeCode]
  split
  · exact stop_failsOnly _ _
  · split
    · exact failsOnly_ok
    · exact failsOnly_error.2 (pointOfCode_failsOnly _ _ ‹_›)

theorem takeQuotedBreaks_failsOnly (fuel : Nat) (c : Cursor) :
    FailsOnly Stop.Listed (takeQuotedBreaks fuel c) := by
  induction fuel generalizing c with
  | zero => exact failsOnly_ok
  | succ fuel ih =>
    simp only [takeQuotedBreaks]
    split
    · exact stop_failsOnly _ _
    · split
      · exact (ih _).bind fun _ => failsOnly_pure
      · exact failsOnly_ok

theorem takeEscape_failsOnly (c : Cursor) : FailsOnly Stop.Listed (takeEscape c) := by
  unfold takeEscape
  split
  · exact failsOnly_ok
  · exact (takeCode_failsOnly _ _).bind fun _ => failsOnly_pure
  · split
    · exact (takeQuotedBreaks_failsOnly _ _).bind fun _ => failsOnly_pure
    · exact stop_failsOnly _ _

theorem takeQuotedWord_failsOnly (double : Bool) (fuel : Nat) (c : Cursor) :
    FailsOnly Stop.Listed (takeQuotedWord double fuel c) := by
  induction fuel generalizing c with
  | zero => exact failsOnly_ok
  | succ fuel ih =>
    simp only [takeQuotedWord]
    split
    · exact (ih _).bind fun _ => failsOnly_pure
    · split
      · exact (ih _).bind fun _ => failsOnly_pure
      · split
        · refine (takeEscape_failsOnly _).bind fun _ => ?_
          exact (ih _).bind fun _ => failsOnly_pure
        · exact failsOnly_pure

theorem takeQuotedGap_failsOnly (c : Cursor) : FailsOnly Stop.Listed (takeQuotedGap c) := by
  simp only [takeQuotedGap]
  split
  · exact stop_failsOnly _ _
  · split
    · exact (takeQuotedBreaks_failsOnly _ _).bind fun _ => failsOnly_pure
    · exact failsOnly_pure

theorem takeQuotedText_failsOnly (quote : Char) (fuel : Nat) (c : Cursor) :
    FailsOnly Stop.Listed (takeQuotedText quote fuel c) := by
  induction fuel generalizing c with
  | zero => exact stop_failsOnly _ _
  | succ fuel ih =>
    refine (takeQuotedWord_failsOnly _ _ _).bind fun (word, c) => ?_
    simp only
    split
    · exact failsOnly_pure
    · refine (takeQuotedGap_failsOnly _).bind fun (gap, c) => ?_
      exact (ih _).bind fun _ => failsOnly_pure

theorem takeQuoted_failsOnly (c : Cursor) : FailsOnly Stop.Listed (takeQuoted c) :=
  (takeQuotedText_failsOnly _ _ _).bind fun _ => failsOnly_pure

-- ---------------------------------------------------------------------------
-- Block scalars
-- ---------------------------------------------------------------------------

theorem takeIncrement_failsOnly (c : Cursor) : FailsOnly Stop.Listed (takeIncrement c) := by
  unfold takeIncrement
  split
  · exact failsOnly_ok
  · split
    · exact stop_failsOnly _ _
    · exact failsOnly_ok

theorem takeIndicators_failsOnly (c : Cursor) : FailsOnly Stop.Listed (takeIndicators c) := by
  refine (takeIncrement_failsOnly _).bind fun (increment, c) => ?_
  exact (stop_failsOnly _ _).check failsOnly_pure

theorem takeBlock_failsOnly (outer : Int) (c : Cursor) :
    FailsOnly Stop.Listed (takeBlock outer c) := by
  refine (takeIndicators_failsOnly _).bind fun ((chomping, increment), header) => ?_
  exact (skipRestOfLine_failsOnly _).bind fun _ => failsOnly_pure

-- ---------------------------------------------------------------------------
-- Tokens
-- ---------------------------------------------------------------------------

namespace Lexer

variable (l : Lexer)

theorem stop_failsOnly {α : Type} (p : Problem) :
    FailsOnly Stop.Listed (l.stop p : Except Stop α) :=
  Cursor.stop_failsOnly _ _

theorem dropStale_failsOnly : FailsOnly Stop.Listed l.dropStale := by
  unfold dropStale
  split
  · exact stop_failsOnly _ _
  · exact failsOnly_ok

theorem dropKey_failsOnly : FailsOnly Stop.Listed l.dropKey := by
  unfold dropKey
  split
  · exact failsOnly_ok
  · split
    · exact stop_failsOnly _ _
    · exact failsOnly_ok

theorem saveKey_failsOnly : FailsOnly Stop.Listed l.saveKey := by
  unfold saveKey
  split
  · exact failsOnly_pure
  · exact (dropKey_failsOnly _).bind fun _ => failsOnly_pure

theorem addEnd_failsOnly : FailsOnly Stop.Listed l.addEnd :=
  (dropKey_failsOnly _).bind fun _ => failsOnly_pure

theorem addSeparator_failsOnly (symbol : Symbol) :
    FailsOnly Stop.Listed (l.addSeparator symbol) :=
  (dropKey_failsOnly _).bind fun _ => failsOnly_pure

theorem addFlowEnd_failsOnly (symbol : Symbol) : FailsOnly Stop.Listed (l.addFlowEnd symbol) :=
  (dropKey_failsOnly _).bind fun _ => failsOnly_pure

theorem addFlowEntry_failsOnly : FailsOnly Stop.Listed l.addFlowEntry :=
  (dropKey_failsOnly _).bind fun _ => failsOnly_pure

theorem addDirective_failsOnly : FailsOnly Stop.Listed l.addDirective := by
  refine (dropKey_failsOnly _).bind fun l => ?_
  exact (takeDirective_failsOnly _).bind fun _ => failsOnly_pure

theorem addFlowStart_failsOnly (symbol : Symbol) : FailsOnly Stop.Listed (l.addFlowStart symbol) :=
  (saveKey_failsOnly _).bind fun _ => failsOnly_pure

theorem addBlockEntry_failsOnly : FailsOnly Stop.Listed l.addBlockEntry := by
  unfold addBlockEntry
  refine (stop_failsOnly _ _).check ?_
  exact (dropKey_failsOnly _).bind fun _ => failsOnly_pure

theorem addKey_failsOnly : FailsOnly Stop.Listed l.addKey := by
  unfold addKey
  refine (stop_failsOnly _ _).check ?_
  exact (dropKey_failsOnly _).bind fun _ => failsOnly_pure

theorem addValue_failsOnly : FailsOnly Stop.Listed l.addValue := by
  unfold addValue
  split
  · exact failsOnly_pure
  · refine (stop_failsOnly _ _).check ?_
    exact (dropKey_failsOnly _).bind fun _ => failsOnly_pure

theorem addPossibleKey_failsOnly {take : Cursor → Except Stop (Token × Cursor)}
    (h : ∀ c, FailsOnly Stop.Listed (take c)) : FailsOnly Stop.Listed (l.addPossibleKey take) := by
  refine (saveKey_failsOnly _).bind fun l => ?_
  exact (h _).bind fun _ => failsOnly_pure

theorem addBlockScalar_failsOnly : FailsOnly Stop.Listed l.addBlockScalar := by
  refine (dropKey_failsOnly _).bind fun l => ?_
  exact (takeBlock_failsOnly _ _).bind fun _ => failsOnly_pure

theorem addPlain_failsOnly : FailsOnly Stop.Listed l.addPlain :=
  (saveKey_failsOnly _).bind fun _ => failsOnly_pure

theorem fetch_failsOnly : FailsOnly Stop.Listed l.fetch := by
  refine (dropStale_failsOnly _).bind fun l => ?_
  refine .ite (addEnd_failsOnly _) ?_
  refine .ite (addDirective_failsOnly _) ?_
  refine .ite (addSeparator_failsOnly _ _) ?_
  refine .ite (addSeparator_failsOnly _ _) ?_
  refine .ite (addFlowStart_failsOnly _ _) ?_
  refine .ite (addFlowStart_failsOnly _ _) ?_
  refine .ite (addFlowEnd_failsOnly _ _) ?_
  refine .ite (addFlowEnd_failsOnly _ _) ?_
  refine .ite (addFlowEntry_failsOnly _) ?_
  refine .ite (addBlockEntry_failsOnly _) ?_
  refine .ite (addKey_failsOnly _) ?_
  refine .ite (addValue_failsOnly _) ?_
  refine .ite (addPossibleKey_failsOnly _ (takeAnchor_failsOnly _)) ?_
  refine .ite (addPossibleKey_failsOnly _ (takeAnchor_failsOnly _)) ?_
  refine .ite (addPossibleKey_failsOnly _ takeTag_failsOnly) ?_
  refine .ite (addBlockScalar_failsOnly _) ?_
  refine .ite (addPossibleKey_failsOnly _ takeQuoted_failsOnly) ?_
  exact .ite (addPlain_failsOnly _) (stop_failsOnly _ _)

theorem step_failsOnly : FailsOnly Stop.Listed l.step := by
  unfold step
  split
  · exact (fetch_failsOnly _).map _
  · refine .ite failsOnly_ok ((dropStale_failsOnly _).bind fun l => ?_)
    exact .ite ((fetch_failsOnly _).bind fun _ => failsOnly_pure) failsOnly_pure

theorem run_listed (fuel : Nat) (l : Lexer) {e : Stop} (h : (run fuel l).2 = some e) :
    e.Listed := by
  induction fuel generalizing l with
  | zero => cases h
  | succ fuel ih =>
    unfold run at h
    split at h
    · cases h
    · split at h
      · rename_i hstep
        cases h
        exact step_failsOnly l _ hstep
      · exact ih _ h

end Lexer

theorem tokens_listed {cs : List Char} {e : Stop} (h : (tokens cs).2 = some e) : e.Listed :=
  Lexer.run_listed _ _ h

end LayeredConfig.Yaml
