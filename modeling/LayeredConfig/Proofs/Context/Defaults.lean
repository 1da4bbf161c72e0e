import LayeredConfig.Proofs.Context.Overridden

/-!
# Defaults in place of answers

`answers_or_defaults`: for every key, a defaulting getter answers what the exact one does, or the
default where that fails. All failures of an exact getter are lookup failures, which the defaulting
ones answer, with one exception: a position in the key with more digits than are read is a fault,
and it comes out of all of them.
-/

namespace LayeredConfig

namespace Context

variable {α β : Type} {c : Context} {key : Text} {f : Failure}

-- ---------------------------------------------------------------------------
-- Defaults
-- ---------------------------------------------------------------------------

def answerOr (answer : Except Failure α) (default : β) : α ⊕ β :=
  match answer with
  | .ok v => .inl v
  | .error _ => .inr default

theorem orElse_ok {answer : Except Failure α} (h : OnlyLookup answer) (default : α) :
    orElse answer default = .ok (answer.toOption.getD default) := by
  cases answer with
  | ok v => rfl
  | error f => exact if_pos (h f rfl)

theorem orElse_error (hf : f.isLookup = false) (default : α) :
    orElse (.error f) default = .error f := by
  simp [orElse, hf]

theorem orDefault_ok {answer : Except Failure α} (h : OnlyLookup answer) (default : β) :
    orDefault answer default = .ok (answerOr answer default) := by
  rw [orDefault, orElse_ok (FailsOnly.map h _)]
  cases answer <;> rfl

theorem contains_eq (h : OnlyLookup (c.lookup key)) :
    c.contains key = .ok (c.lookup key).isOk := by
  rw [contains, orElse_ok (FailsOnly.map h _)]
  cases c.lookup key <;> rfl

theorem orDefault_error {answer : Except Failure α} (hf : f.isLookup = false)
    (h : answer = .error f) (default : β) : orDefault answer default = .error f := by
  rw [orDefault, h]
  exact orElse_error hf _

theorem contains_error (hf : f.isLookup = false) (h : c.lookup key = .error f) :
    c.contains key = .error f := by
  rw [contains, h]
  exact orElse_error hf _

/-- At a key without an overlong position, a context contains the key exactly if looking it up
succeeds, and every defaulting getter answers what the exact one answers, or the default if that
fails. At a key with an overlong position all of them fail on its digits. -/
theorem answers_or_defaults (c : Context) (key : Text) :
    ((∀ n, ¬ Path.Overlong n key.points) →
      c.contains key = .ok (c.lookup key).isOk ∧
      ∀ {β : Type} (default : β),
        c.get key default = .ok (answerOr (c.lookup key) default) ∧
        c.getStringOr key default = .ok (answerOr (c.getString key) default) ∧
        c.getIntOr key default = .ok (answerOr (c.getInt key) default) ∧
        c.getFloatOr key default = .ok (answerOr (c.getFloat key) default) ∧
        c.getBoolOr key default = .ok (answerOr (c.getBool key) default)) ∧
    ∀ n, Path.Overlong n key.points →
      c.contains key = .error (.fault (.digitsTooMany n)) ∧
      ∀ {β : Type} (default : β),
        c.get key default = .error (.fault (.digitsTooMany n)) ∧
        c.getStringOr key default = .error (.fault (.digitsTooMany n)) ∧
        c.getIntOr key default = .error (.fault (.digitsTooMany n)) ∧
        c.getFloatOr key default = .error (.fault (.digitsTooMany n)) ∧
        c.getBoolOr key default = .error (.fault (.digitsTooMany n)) := by
  refine ⟨fun h => ?_, fun n h => ?_⟩
  · have hread := Path.read_onlyLookup h
    have hlookup : OnlyLookup (c.lookup key) := lookup_onlyLookup hread
    refine ⟨contains_eq hlookup, fun default => ?_⟩
    have hget {α : Type} (expected : Kind) (read : Leaf → Option α) :
        orDefault (c.getWith expected read key) default =
          .ok (answerOr (c.getWith expected read key) default) :=
      orDefault_ok (getWith_onlyLookup hread expected read) default
    exact ⟨orDefault_ok hlookup default, hget _ _, hget _ _, hget _ _, hget _ _⟩
  · have hread := Path.read_digitsTooMany_iff.2 h
    have hlookup : c.lookup key = .error (.fault (.digitsTooMany n)) := lookup_error hread
    refine ⟨contains_error rfl hlookup, fun default => ?_⟩
    have hget {α : Type} (expected : Kind) (read : Leaf → Option α) :
        orDefault (c.getWith expected read key) default = .error (.fault (.digitsTooMany n)) :=
      orDefault_error rfl (getWith_error hread expected read) default
    exact ⟨orDefault_error rfl hlookup default, hget _ _, hget _ _, hget _ _, hget _ _⟩

def numbered : String := "\x7b\"a\":[1]\x7d"

theorem exists_numbered : ∃ c, ofText numbered = .ok c := by
  have hload : (ofText numbered).isOk = true := by decide +kernel
  cases hc : ofText numbered with
  | error e => rw [hc] at hload; cases hload
  | ok c => exact ⟨c, rfl⟩

theorem answers_or_defaults_malformed :
    ∃ c, ofText numbered = .ok c ∧ (∀ n, ¬ Path.Overlong n (Text.points "a[x]")) ∧
      c.contains "a[x]" = .ok false ∧ c.getIntOr "a[x]" "none" = .ok (.inr "none") := by
  obtain ⟨c, hc⟩ := exists_numbered
  have hshort : ∀ n, ¬ Path.Overlong n (Text.points "a[x]") := by
    intro n h
    exact absurd h.lt_length (by decide +kernel)
  have hread : Path.read "a[x]" = .error (.config (.invalidPath "a[x]"
      "index must be a non-negative integer, got 'x'")) := by
    decide +kernel
  obtain ⟨hcontains, hanswer⟩ := (answers_or_defaults c "a[x]").1 hshort
  refine ⟨c, hc, hshort, ?_, ?_⟩
  · rw [hcontains, lookup_error hread]
    rfl
  · rw [(hanswer "none").2.2.1, getInt, getWith_error hread]
    rfl

/-- No default stands in for an answer at a key with one digit more than are read. -/
theorem answers_or_defaults_overlong :
    ∃ c, ofText numbered = .ok c ∧
      c.contains (ones 4301) = .error (.fault (.digitsTooMany 4301)) ∧
      c.get (ones 4301) "none" = .error (.fault (.digitsTooMany 4301)) ∧
      c.getIntOr (ones 4301) "none" = .error (.fault (.digitsTooMany 4301)) := by
  obtain ⟨c, hc⟩ := exists_numbered
  have hread := Path.read_digitsTooMany_iff.2 (overlong_ones (n := 4301) (by decide))
  refine ⟨c, hc, contains_error rfl (lookup_error hread), ?_, ?_⟩
  · exact orDefault_error rfl (lookup_error hread) "none"
  · exact orDefault_error rfl (getWith_error hread _ _) "none"

end Context

end LayeredConfig
