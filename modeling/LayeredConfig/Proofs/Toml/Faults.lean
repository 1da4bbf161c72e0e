import LayeredConfig.Proofs.Json.Faults
import LayeredConfig.Proofs.Number.Decimal
import LayeredConfig.Toml.Read

/-!
# Faults of TOML texts

A TOML text is at fault only for a number: a decimal one with too many digits, or one in another
base that is too long to be written in the message that refuses it.
-/

namespace LayeredConfig.Toml

def Raises (f : Fault) : Prop := (∃ digits, f = .digitsTooMany digits) ∨ f = .integerTooLong

def Stop.Listed : Stop → Prop
  | .problem _ _ => True
  | .fault f => Raises f

variable {cs : List Char}

theorem problemAt_failsOnly {α : Type} (p : Problem) (cs : List Char) :
    FailsOnly Stop.Listed (problemAt p cs : Except Stop α) :=
  failsOnly_error.2 trivial

-- ---------------------------------------------------------------------------
-- Comments and strings
-- ---------------------------------------------------------------------------

theorem refuse_failsOnly (isIllegal : Char → Bool) (span cs : List Char) :
    FailsOnly Stop.Listed (refuse isIllegal span cs) := by
  unfold refuse
  split
  · exact failsOnly_ok
  · exact problemAt_failsOnly _ _

theorem skipComment_failsOnly (cs : List Char) : FailsOnly Stop.Listed (skipComment cs) := by
  unfold skipComment
  split
  · exact (refuse_failsOnly _ _ _).bind fun _ => failsOnly_pure
  · exact failsOnly_ok

theorem skipBetween_failsOnly (fuel : Nat) (cs : List Char) :
    FailsOnly Stop.Listed (skipBetween fuel cs) := by
  induction fuel generalizing cs with
  | zero => exact failsOnly_ok
  | succ fuel ih =>
    refine (skipComment_failsOnly _).bind fun rest => ?_
    split
    · exact failsOnly_pure
    · exact ih rest

theorem skipItemSpace_failsOnly (cs : List Char) : FailsOnly Stop.Listed (skipItemSpace cs) :=
  skipBetween_failsOnly _ _

theorem takeCode_failsOnly (width : Nat) (cs : List Char) :
    FailsOnly Stop.Listed (takeCode width cs) := by
  simp only [takeCode]
  split
  · exact problemAt_failsOnly _ _
  · split
    · exact failsOnly_ok
    · exact problemAt_failsOnly _ _

theorem joinLines_failsOnly (cs : List Char) : FailsOnly Stop.Listed (joinLines cs) := by
  unfold joinLines
  split
  · exact failsOnly_ok
  · exact failsOnly_ok
  · exact problemAt_failsOnly _ _

theorem takeEscape_failsOnly (multiline : Bool) (cs : List Char) :
    FailsOnly Stop.Listed (takeEscape multiline cs) := by
  unfold takeEscape
  split
  · exact problemAt_failsOnly _ _
  · exact takeCode_failsOnly _ _
  · exact takeCode_failsOnly _ _
  · split
    · exact failsOnly_ok
    · split
      · exact joinLines_failsOnly _
      · split
        · exact failsOnly_ok
        · exact problemAt_failsOnly _ _

theorem takeBasic_failsOnly (multiline : Bool) (fuel : Nat) (cs : List Char) :
    FailsOnly Stop.Listed (takeBasic multiline fuel cs) := by
  fun_induction takeBasic multiline fuel cs with
  | case1 | case2 | case7 => exact problemAt_failsOnly _ _
  | case3 | case4 => exact failsOnly_ok
  | case5 fuel hm rest hrest ih => exact ih.bind fun _ => failsOnly_pure
  | case6 fuel rest ih =>
    exact (takeEscape_failsOnly _ _).bind fun r => (ih r.2).bind fun _ => failsOnly_pure
  | case8 fuel c rest hq hb hc ih => exact ih.bind fun _ => failsOnly_pure

theorem takeLiteral_failsOnly (delimiter : List Char) (isIllegal : Char → Bool) (cs : List Char) :
    FailsOnly Stop.Listed (takeLiteral delimiter isIllegal cs) := by
  unfold takeLiteral
  split
  · exact problemAt_failsOnly _ _
  · exact (refuse_failsOnly _ _ _).bind fun _ => failsOnly_pure

theorem takeLine_failsOnly {x : Except Stop (List Char × List Char)} (h : takeLine? cs = some x) :
    FailsOnly Stop.Listed x := by
  unfold takeLine? at h
  split at h
  · cases h
    exact takeBasic_failsOnly _ _ _
  · cases h
    exact takeLiteral_failsOnly _ _ _
  · cases h

theorem takeString_failsOnly {x : Except Stop (List Char × List Char)}
    (h : takeString? cs = some x) : FailsOnly Stop.Listed x := by
  unfold takeString? at h
  split at h
  · cases h
    exact (takeBasic_failsOnly _ _ _).map _
  · cases h
    exact (takeLiteral_failsOnly _ _ _).map _
  · exact takeLine_failsOnly h

-- ---------------------------------------------------------------------------
-- Simple values
-- ---------------------------------------------------------------------------

theorem takeMoreDigits_separated {p : Char → Bool} {c : Char} (hc : p c = true) (cs : List Char) :
    Separated p (c :: (takeMoreDigits p cs).1) := by
  fun_induction takeMoreDigits p cs generalizing c with
  | case1 d rest hd digits after hmore ih => exact .spaced hc (by simpa [hmore] using ih hd)
  | case3 d rest hd hs digits after hmore ih => exact .next hc (by simpa [hmore] using ih hs)
  | case2 | case4 | case5 => exact .one hc

theorem takeDigits_separated {p : Char → Bool} {ds rest : List Char}
    (h : takeDigits? p cs = some (ds, rest)) : Separated p ds := by
  unfold takeDigits? at h
  split at h
  · cases h
  · split at h
    · cases h
      exact takeMoreDigits_separated ‹_› _
    · cases h

theorem takeSign_isSign (cs : List Char) : Integer.IsSign (takeSign cs).1 := by
  unfold takeSign
  split
  · exact .inr (.inl rfl)
  · exact .inr (.inr rfl)
  · exact .inl rfl

theorem takeWhole_separated {ds rest : List Char} (h : takeWhole? cs = some (ds, rest)) :
    Separated Text.isDigit ds := by
  unfold takeWhole? at h
  split at h
  · cases h
    exact .one rfl
  · exact takeDigits_separated h

theorem takeFraction_isFraction (cs : List Char) : Binary64.IsFraction (takeFraction cs).1 := by
  unfold takeFraction
  split
  · split
    · exact .inr ⟨_, takeDigits_separated ‹_›, rfl⟩
    · exact .inl rfl
  · exact .inl rfl

theorem takeExponent_isExponent (cs : List Char) : Binary64.IsExponent (takeExponent cs).1 := by
  unfold takeExponent
  split
  · simp only
    split
    · rename_i hmark
      split
      · exact .inr ⟨_, _, _, by simpa using hmark, takeSign_isSign _, takeDigits_separated ‹_›, rfl⟩
      · exact .inl rfl
    · exact .inl rfl
  · exact .inl rfl

theorem readInteger_failsOnly {base : Nat} (h : Integer.read base cs ≠ .error .malformed) :
    FailsOnly Stop.Listed (readInteger base cs) := by
  unfold readInteger
  split
  · exact failsOnly_ok
  · exact failsOnly_error.2 (.inl ⟨_, rfl⟩)
  · exact absurd ‹_› h

theorem readFloat_failsOnly (h : (Binary64.read cs).isSome = true) :
    FailsOnly Stop.Listed (readFloat cs) := by
  unfold readFloat
  split
  · exact failsOnly_ok
  · rename_i hnone
    rw [hnone] at h
    cases h

theorem dropBaseMark_marked {base : Nat} {mark : Char} {ds : List Char}
    (hb : baseOf? mark = some base) (hd : Separated (Integer.isDigitOf base) ds) :
    Integer.dropBaseMark base ('0' :: mark :: ds) = ds := by
  obtain ⟨c, rest, rfl, hc⟩ := hd.head
  have hne : c ≠ '_' := by
    rintro rfl
    rw [Integer.isDigitOf_underscore] at hc
    cases hc
  have hletter : Integer.baseLetter? base = some mark.toLower := by
    unfold baseOf? at hb
    split at hb <;> cases hb <;> rfl
  rw [Integer.dropBaseMark, if_pos hletter]
  exact fun _ h => hne (List.cons.inj h).1

theorem takeMarked_read {base : Nat} {ds rest : List Char}
    (h : takeMarked? cs = some ((base, ds), rest)) : Integer.read base ds ≠ .error .malformed := by
  unfold takeMarked? at h
  split at h
  · rename_i mark digits
    obtain ⟨b, hb, ⟨ds', rest'⟩, hd, h⟩ : ∃ b, baseOf? mark = some b ∧ ∃ found,
        takeDigits? (Integer.isDigitOf b) digits = some found ∧
          pure ((b, '0' :: mark :: found.1), found.2) = some ((base, ds), rest) := by
      simpa only [Option.bind_eq_bind, Option.bind_eq_some_iff] using h
    cases h
    have hsep := takeDigits_separated hd
    have hunsigned : Integer.IsSign [] := .inl rfl
    rw [← List.nil_append ('0' :: mark :: ds')]
    refine Integer.read_separated hunsigned ?_ ⟨'0', _, rfl, rfl⟩
      (dropBaseMark_marked hb hsep) hsep
    refine List.forall_mem_cons.2 ⟨by decide, List.forall_mem_cons.2 ⟨?_, ?_⟩⟩
    · unfold baseOf? at hb
      split at hb <;> cases hb <;> decide
    · exact hsep.ascii fun _ => Integer.isDigitOf_ascii
  · cases h

theorem takeNumber_failsOnly {x : Except Stop (Leaf × List Char)} (h : takeNumber? cs = some x) :
    FailsOnly Stop.Listed x := by
  unfold takeNumber? at h
  split at h
  · cases h
    exact (readInteger_failsOnly (takeMarked_read ‹_›)).map _
  · simp only [Option.bind_eq_bind, Option.bind_eq_some_iff] at h
    obtain ⟨⟨whole, rest⟩, hw, h⟩ := h
    have hs := takeSign_isSign cs
    have hsep := takeWhole_separated hw
    split at h
    · cases h
      refine (readInteger_failsOnly ?_).map _
      refine Integer.read_separated hs ?_ ?_ (Integer.dropBaseMark_ten _) ?_
      · exact hsep.ascii fun _ => Integer.isDigit_ascii
      · exact hsep.head
      · exact hsep.mono fun _ => Integer.isDigitOf_of_isDigit
    · cases h
      refine (readFloat_failsOnly ?_).map _
      exact Binary64.read_isSome hs hsep (takeFraction_isFraction _) (takeExponent_isExponent _)

theorem takeMoment_failsOnly {x : Except Stop (Moment × List Char)} (h : takeMoment? cs = some x) :
    FailsOnly Stop.Listed x := by
  simp only [takeMoment?] at h
  split at h
  · cases h
    exact problemAt_failsOnly _ _
  · split at h
    · cases h
      exact failsOnly_ok
    · cases h
      exact failsOnly_ok
  · obtain ⟨_, -, rfl⟩ := Option.map_eq_some_iff.1 h
    exact failsOnly_ok

theorem takeSimple_failsOnly (cs : List Char) : FailsOnly Stop.Listed (takeSimple cs) := by
  unfold takeSimple
  split
  · rename_i h
    exact (takeString_failsOnly h).map _
  · split
    · exact failsOnly_ok
    · exact failsOnly_ok
    · split
      · rename_i h
        exact (takeMoment_failsOnly h).map _
      · split
        · rename_i h
          exact (takeNumber_failsOnly h).map _
        · exact failsOnly_ok
        · exact problemAt_failsOnly _ _

-- ---------------------------------------------------------------------------
-- Keys and values
-- ---------------------------------------------------------------------------

theorem takeKeyPart_failsOnly (cs : List Char) : FailsOnly Stop.Listed (takeKeyPart cs) := by
  unfold takeKeyPart
  split
  · rename_i h
    exact (takeLine_failsOnly h).map _
  · simp only
    split
    · exact problemAt_failsOnly _ _
    · exact failsOnly_ok

theorem takeKeyParts_failsOnly (fuel : Nat) (cs : List Char) :
    FailsOnly Stop.Listed (takeKeyParts fuel cs) := by
  induction fuel generalizing cs with
  | zero => exact problemAt_failsOnly _ _
  | succ fuel ih =>
    refine (takeKeyPart_failsOnly _).bind fun (part, rest) => ?_
    simp only
    split
    · exact (ih _).bind fun _ => failsOnly_pure
    · exact failsOnly_pure

theorem takeEquals_failsOnly (cs : List Char) : FailsOnly Stop.Listed (takeEquals cs) := by
  unfold takeEquals
  split
  · exact failsOnly_ok
  · exact problemAt_failsOnly _ _

theorem orProblem_failsOnly {α : Type} (x : Except Problem α) (cs : List Char) :
    FailsOnly Stop.Listed (orProblem x cs) :=
  failsOnly_mapError.2 fun _ _ => trivial

/-- The statement for values, items and fields at once, as they read each other. -/
theorem take_failsOnly (fuel : Nat) :
    (∀ cs, FailsOnly Stop.Listed (takeValue fuel cs)) ∧
      (∀ cs, FailsOnly Stop.Listed (takeItems fuel cs)) ∧
      ∀ table frozen cs, FailsOnly Stop.Listed (takeFields fuel table frozen cs) := by
  induction fuel with
  | zero =>
    exact ⟨fun cs => problemAt_failsOnly _ _, fun cs => problemAt_failsOnly _ _,
      fun _ _ cs => problemAt_failsOnly _ _⟩
  | succ fuel ih =>
    obtain ⟨ihValue, ihItems, ihFields⟩ := ih
    refine ⟨fun cs => ?_, fun cs => ?_, fun table frozen cs => ?_⟩
    · unfold takeValue
      split
      · cases ‹fuel + 1 = 0›
      · rename_i heq
        cases heq
        refine (skipItemSpace_failsOnly _).bind fun rest => ?_
        split
        · exact failsOnly_pure
        · exact (ihItems _).bind fun _ => failsOnly_pure
      · rename_i heq
        cases heq
        split
        · exact failsOnly_ok
        · exact (ihFields _ _ _).bind fun _ => failsOnly_pure
      · exact takeSimple_failsOnly _
    · refine (ihValue cs).bind fun r => ?_
      refine (skipItemSpace_failsOnly _).bind fun rest => ?_
      split
      · exact failsOnly_pure
      · refine (skipItemSpace_failsOnly _).bind fun rest => ?_
        split
        · exact failsOnly_pure
        · exact (ihItems _).bind fun _ => failsOnly_pure
      · exact problemAt_failsOnly _ _
    · refine (takeKeyParts_failsOnly _ _).bind fun r => ?_
      refine (takeEquals_failsOnly _).bind fun rest => ?_
      refine (ihValue _).bind fun v => ?_
      refine (orProblem_failsOnly _ _).bind fun table => ?_
      split
      · exact failsOnly_pure
      · exact ihFields _ _ _
      · exact problemAt_failsOnly _ _

-- ---------------------------------------------------------------------------
-- Statements
-- ---------------------------------------------------------------------------

theorem takeAssignment_failsOnly (d : Draft) (cs : List Char) :
    FailsOnly Stop.Listed (takeAssignment d cs) := by
  refine (takeKeyParts_failsOnly _ _).bind fun r => ?_
  refine (takeEquals_failsOnly _).bind fun value => ?_
  refine ((take_failsOnly _).1 _).bind fun v => ?_
  exact (orProblem_failsOnly _ _).bind fun _ => failsOnly_pure

theorem takeHeader_failsOnly (d : Draft) (cs : List Char) :
    FailsOnly Stop.Listed (takeHeader d cs) := by
  unfold takeHeader
  simp only
  split
  · refine (takeKeyParts_failsOnly _ _).bind fun r => ?_
    refine (orProblem_failsOnly _ _).bind fun d => ?_
    split
    · exact failsOnly_pure
    · exact problemAt_failsOnly _ _
  · refine (takeKeyParts_failsOnly _ _).bind fun r => ?_
    refine (orProblem_failsOnly _ _).bind fun d => ?_
    split
    · exact failsOnly_pure
    · exact problemAt_failsOnly _ _

theorem takeStatement_failsOnly (d : Draft) (cs : List Char) :
    FailsOnly Stop.Listed (takeStatement d cs) := by
  unfold takeStatement
  split
  · exact failsOnly_ok
  · split
    · exact takeAssignment_failsOnly _ _
    · split
      · exact takeHeader_failsOnly _ _
      · split
        · exact failsOnly_ok
        · exact problemAt_failsOnly _ _

theorem takeStatements_failsOnly (fuel : Nat) (d : Draft) (cs : List Char) :
    FailsOnly Stop.Listed (takeStatements fuel d cs) := by
  induction fuel generalizing d cs with
  | zero => exact failsOnly_ok
  | succ fuel ih =>
    refine (takeStatement_failsOnly _ _).bind fun r => ?_
    refine (skipComment_failsOnly _).bind fun rest => ?_
    split
    · exact failsOnly_pure
    · exact ih _ _
    · exact problemAt_failsOnly _ _

theorem read_failsOnly (text : String) : FailsOnly (Refusal.Within Raises) (read text) := by
  simp only [read]
  split
  · exact failsOnly_ok
  · rename_i e he
    refine failsOnly_error.2 ?_
    have hlisted := takeStatements_failsOnly _ _ _ e he
    cases e with
    | problem p left => cases left <;> trivial
    | fault f => exact hlisted

end LayeredConfig.Toml
