import LayeredConfig.Proofs.Json.Faults
import LayeredConfig.Proofs.Yaml.Nodes
import LayeredConfig.Yaml.Value

/-!
# Faults of YAML texts

What the values of a YAML text add to the faults of cutting it: scalars that their tags do not
admit, and tags that do not suit the shapes of their nodes.
-/

namespace LayeredConfig.Yaml

-- ---------------------------------------------------------------------------
-- Scalars
-- ---------------------------------------------------------------------------

theorem readInBase_failsOnly (base : Nat) (text : Text) :
    FailsOnly Raises (readInBase base text) := by
  unfold readInBase
  split
  · exact failsOnly_ok
  · exact failsOnly_error.2 trivial
  · exact failsOnly_error.2 trivial

theorem readInt_failsOnly (text : Text) : FailsOnly Raises (readInt text) := by
  simp only [readInt]
  refine FailsOnly.map ?_ _
  split
  · exact failsOnly_error.2 trivial
  · exact failsOnly_ok
  · exact readInBase_failsOnly _ _
  · exact readInBase_failsOnly _ _
  · exact readInBase_failsOnly _ _
  · refine .ite ?_ (readInBase_failsOnly _ _)
    exact (FailsOnly.mapM (fun ps => readInBase_failsOnly 10 ⟨ps⟩) _).bind fun _ => failsOnly_pure

theorem readDecimal_failsOnly (mark : Nat) (text : Text) :
    FailsOnly Raises (readDecimal mark text) := by
  unfold readDecimal
  split
  · exact failsOnly_ok
  · exact failsOnly_ok
  · exact failsOnly_error.2 trivial

theorem sumSixties_failsOnly (sum : Binary64) (unit : Nat) (groups : List Binary64) :
    FailsOnly Raises (sumSixties sum unit groups) := by
  induction groups generalizing sum unit with
  | nil => exact failsOnly_ok
  | cons x rest ih =>
    unfold sumSixties
    split
    · exact failsOnly_error.2 trivial
    · exact ih _ _

theorem readFloat_failsOnly (mark : Nat) (text : Text) :
    FailsOnly Raises (readFloat mark text) := by
  simp only [readFloat]
  refine .ite (failsOnly_error.2 trivial) (.ite failsOnly_ok (.ite failsOnly_ok (.ite ?_ ?_)))
  · refine (FailsOnly.mapM (fun ps => readDecimal_failsOnly mark ⟨ps⟩) _).bind fun groups => ?_
    exact (sumSixties_failsOnly _ _ _).bind fun _ => failsOnly_pure
  · exact (readDecimal_failsOnly _ _).map _

theorem readBool_failsOnly (text : Text) : FailsOnly Raises (readBool text) := by
  unfold readBool
  split
  case h_7 => exact failsOnly_error.2 trivial
  all_goals exact failsOnly_ok

theorem checkDate_failsOnly (year month day : Nat) :
    FailsOnly Raises (Date.check year month day) := by
  unfold Date.check
  refine .ite (failsOnly_error.2 trivial) (.ite (failsOnly_error.2 trivial) ?_)
  exact .ite (failsOnly_error.2 trivial) failsOnly_ok

theorem checkClock_failsOnly (hour minute second micro : Nat) :
    FailsOnly Raises (Clock.check hour minute second micro) := by
  unfold Clock.check
  refine .ite (failsOnly_error.2 trivial) (.ite (failsOnly_error.2 trivial) ?_)
  exact .ite (failsOnly_error.2 trivial) failsOnly_ok

theorem moment_failsOnly (t : Timestamp) : FailsOnly Raises t.moment := by
  unfold Timestamp.moment
  split
  · exact (checkDate_failsOnly _ _ _).bind fun _ => failsOnly_pure
  · rename_i hour minute second micro _
    have hvalid : FailsOnly Raises (do
        let day ← Date.check t.year t.month t.day
        let clock ← Clock.check hour minute second micro
        return Moment.dateTime day clock (t.offset.map (· * 60000000))) := by
      refine (checkDate_failsOnly _ _ _).bind fun day => ?_
      exact (checkClock_failsOnly _ _ _ _).bind fun clock => failsOnly_pure
    split
    · exact FailsOnly.check (failsOnly_throw.2 trivial) hvalid
    · exact hvalid

theorem readMoment_failsOnly (text : List Char) : FailsOnly Raises (readMoment text) := by
  unfold readMoment
  split
  · exact moment_failsOnly _
  · exact failsOnly_error.2 trivial

theorem readBinary_failsOnly (place : Location) (text : Text) :
    FailsOnly Stop.Listed (readBinary place text) := by
  unfold readBinary
  split
  · exact failsOnly_error.2 trivial
  · split
    · exact failsOnly_ok
    · exact failsOnly_error.2 trivial

theorem readScalar_failsOnly {tag : String} {text : Text} {place : Location} {mark : Nat}
    {x : Except Stop Scalar} (h : readScalar? tag text place mark = some x) :
    FailsOnly Stop.Listed x := by
  have hvalue {α : Type} {y : Except Fault α} {f : α → Scalar} (hy : FailsOnly Raises y) :
      FailsOnly Stop.Listed ((y.map f).mapError Stop.fault) :=
    failsOnly_mapError.2 (hy.map f)
  unfold readScalar? at h
  split_ifs at h
  · cases h
    exact failsOnly_ok
  · cases h
    exact failsOnly_ok
  · exact Option.some.inj h ▸ hvalue (readBool_failsOnly _)
  · exact Option.some.inj h ▸ hvalue (readInt_failsOnly _)
  · exact Option.some.inj h ▸ hvalue (readFloat_failsOnly _ _)
  · exact Option.some.inj h ▸ hvalue (readMoment_failsOnly _)
  · exact Option.some.inj h ▸ readBinary_failsOnly _ _

-- ---------------------------------------------------------------------------
-- Values
-- ---------------------------------------------------------------------------

def Stop.Expected (e : Stop) : Prop := e.Listed ∨ ∃ key, e = .duplicateKey key

theorem screens {α : Type} {I : ValueDraft → Prop} {x : ValueMaker α}
    (h : FailsOnlyIn I Stop.Listed x) : FailsOnlyIn I Stop.Expected x :=
  h.imp fun _ => .inl

namespace ValueMaker

variable {α : Type} {I : ValueDraft → Prop}

abbrev Sound (x : ValueMaker α) : Prop := FailsOnlyIn (fun _ => True) Stop.Listed x

abbrev Screens (x : ValueMaker α) : Prop := FailsOnlyIn (fun _ => True) Stop.Expected x

theorem stop_sound (p : Problem) (place : Location) :
    FailsOnlyIn I Stop.Listed (stop p place : ValueMaker α) :=
  failsOnlyIn_throw trivial

theorem modify_sound (f : ValueDraft → ValueDraft) : Sound (modify f) :=
  failsOnlyIn_modify fun _ => id

theorem node_sound (number : Nat) : FailsOnlyIn I Stop.Listed (node number) :=
  failsOnlyIn_get.bind fun _ => failsOnlyIn_pure

theorem textOf_sound (fuel number : Nat) : Sound (textOf fuel number) := by
  induction fuel generalizing number with
  | zero => exact failsOnlyIn_throw trivial
  | succ fuel ih =>
    refine (node_sound _).bind fun n => ?_
    split
    · exact failsOnlyIn_pure
    · exact stop_sound _ _
    · refine failsOnlyIn_get.bind fun d => ?_
      simp only
      split
      · exact ih _
      · exact stop_sound _ _

theorem makeScalar_sound (number : Nat) : Sound (makeScalar number) := by
  refine (node_sound _).bind fun n => (stop_sound _ _).check ?_
  refine failsOnlyIn_get.bind fun d => (textOf_sound _ _).bind fun text => ?_
  refine FailsOnlyIn.check (failsOnlyIn_throw trivial) ?_
  split
  · exact failsOnlyIn_pure
  · rename_i h
    exact failsOnlyIn_throw (failsOnly_error.1 (readScalar_failsOnly h))
  · exact stop_sound _ _

theorem addContainer_sound (c : Graph.Container) : Sound (addContainer c) :=
  failsOnlyIn_modifyGet fun _ => id

theorem makeCollection_sound (kind : CollectionKind) (number : Nat) :
    Sound (makeCollection kind number) :=
  (addContainer_sound _).bind fun _ => (modify_sound _).bind fun _ => failsOnlyIn_pure

theorem make_sound (number : Nat) : Sound (make number) := by
  refine failsOnlyIn_get.bind fun d => ?_
  split
  · exact failsOnlyIn_pure
  · have hend (v : Graph.Value) : Sound (do
        modify fun d => { d with values := (number, v) :: d.values }
        return v) :=
      (modify_sound _).bind fun _ => failsOnlyIn_pure
    refine (node_sound _).bind fun n => ?_
    split
    · exact (makeCollection_sound _ _).bind hend
    · exact (makeScalar_sound _).bind hend

theorem tagOf_sound (number : Nat) : FailsOnlyIn I Stop.Listed (tagOf number) :=
  (node_sound _).bind fun _ => failsOnlyIn_pure

theorem pairsOf_sound (number : Nat) : FailsOnlyIn I Stop.Listed (pairsOf number) := by
  refine (node_sound _).bind fun n => ?_
  split <;> exact failsOnlyIn_pure

-- ---------------------------------------------------------------------------
-- Mappings
-- ---------------------------------------------------------------------------

/-- An invariant that does not depend on the nodes, which are all that merging changes. -/
def IgnoresNodes (I : ValueDraft → Prop) : Prop := ∀ d nodes, I d → I { d with nodes }

theorem popMerge_sound (hI : IgnoresNodes I) (number : Nat) :
    FailsOnlyIn I Stop.Listed (popMerge? number) := by
  refine failsOnlyIn_get.bind fun d => (pairsOf_sound _).bind fun pairs => ?_
  split
  · exact failsOnlyIn_pure
  · exact (failsOnlyIn_modify fun d => hI d _).bind fun _ => failsOnlyIn_pure

mutual

theorem merge_sound (hI : IgnoresNodes I) : (fuel : Nat) → (found : List (Nat × Nat)) →
    (number : Nat) → FailsOnlyIn I Stop.Listed (merge fuel found number)
  | 0, _, _ => failsOnlyIn_throw trivial
  | fuel + 1, found, number => by
    refine (popMerge_sound hI _).bind fun merged? => ?_
    split
    · refine (mergeSource_sound hI fuel _).bind fun brought => ?_
      exact merge_sound hI fuel _ number
    · refine (pairsOf_sound _).bind fun own => ?_
      refine (FailsOnlyIn.forM (fun p => failsOnlyIn_modify fun d => hI d _) own).bind fun _ => ?_
      exact .ite (failsOnlyIn_modify fun d => hI d _) failsOnlyIn_pure

theorem mergeSource_sound (hI : IgnoresNodes I) : (fuel : Nat) → (source : Nat) →
    FailsOnlyIn I Stop.Listed (mergeSource fuel source)
  | 0, _ => failsOnlyIn_throw trivial
  | fuel + 1, source => by
    refine (node_sound _).bind fun n => ?_
    split
    · exact (merge_sound hI fuel _ _).bind fun _ => pairsOf_sound _
    · refine (FailsOnlyIn.mapM (fun item => ?_) _).bind fun _ => failsOnlyIn_pure
      refine (node_sound _).bind fun m => (stop_sound _ _).check ?_
      exact (merge_sound hI fuel _ _).bind fun _ => pairsOf_sound _
    · exact stop_sound _ _

end

theorem checkKeys_screens (hmake : ∀ number, FailsOnlyIn I Stop.Listed (make number))
    (seen : List Scalar) (pairs : List (Nat × Nat)) :
    FailsOnlyIn I Stop.Expected (checkKeys seen pairs) := by
  induction pairs generalizing seen with
  | nil => exact failsOnlyIn_pure
  | cons p rest ih =>
    refine (screens (tagOf_sound _)).bind fun tag => .ite (ih _) ?_
    refine (screens (hmake _)).bind fun v => ?_
    split
    · exact ih _
    · exact FailsOnlyIn.check (failsOnlyIn_throw (.inr ⟨_, rfl⟩)) (ih _)

theorem makeFields_sound (hmake : ∀ number, FailsOnlyIn I Stop.Listed (make number))
    (fields : List (Scalar × Graph.Value)) (pairs : List (Nat × Nat)) :
    FailsOnlyIn I Stop.Listed (makeFields fields pairs) := by
  induction pairs generalizing fields with
  | nil => exact failsOnlyIn_pure
  | cons p rest ih =>
    refine (hmake _).bind fun v => ?_
    split
    · exact (node_sound _).bind fun _ => stop_sound _ _
    · exact (hmake _).bind fun _ => ih _

theorem makeMapping_screens (number : Nat) : Screens (makeMapping number) := by
  refine (screens (node_sound _)).bind fun n => ?_
  split
  · refine (checkKeys_screens make_sound _ _).bind fun _ => failsOnlyIn_get.bind fun d => ?_
    refine (screens (merge_sound (fun _ _ => id) _ _ _)).bind fun _ => ?_
    refine (screens (pairsOf_sound _)).bind fun _ => ?_
    exact screens (makeFields_sound make_sound _ _)
  · exact .ite (screens (stop_sound _ _)) (failsOnlyIn_throw (.inl trivial))
  · exact .ite (screens (stop_sound _ _)) (failsOnlyIn_throw (.inl trivial))

-- ---------------------------------------------------------------------------
-- Contents
-- ---------------------------------------------------------------------------

theorem makePair_sound (hmake : ∀ number, FailsOnlyIn I Stop.Listed (make number))
    (hadd : ∀ c, FailsOnlyIn I Stop.Listed (addContainer c)) (number : Nat) :
    FailsOnlyIn I Stop.Listed (makePair number) := by
  refine (node_sound _).bind fun n => ?_
  split
  · refine (hmake _).bind fun k => (hmake _).bind fun v => ?_
    exact (hadd _).bind fun _ => failsOnlyIn_pure
  · exact stop_sound _ _
  · exact stop_sound _ _

theorem makeContents_screens (t : Task) : Screens (makeContents t) := by
  refine (screens (node_sound _)).bind fun n => ?_
  split
  · exact (screens (.mapM make_sound _)).bind fun _ => failsOnlyIn_pure
  · exact screens (stop_sound _ _)
  · have hpair := makePair_sound make_sound addContainer_sound
    exact (screens (.mapM hpair _)).bind fun _ => failsOnlyIn_pure
  · exact screens (stop_sound _ _)
  · exact (makeMapping_screens _).bind fun _ => failsOnlyIn_pure
  · exact (makeMapping_screens _).bind fun _ => failsOnlyIn_pure

theorem finish_screens (fuel : Nat) : Screens (finish fuel) := by
  induction fuel with
  | zero => exact failsOnlyIn_pure
  | succ fuel ih =>
    refine failsOnlyIn_get.bind fun d => ?_
    split
    · exact failsOnlyIn_pure
    · refine (screens (modify_sound _)).bind fun _ => ?_
      refine (makeContents_screens _).bind fun contents => ?_
      exact (screens (modify_sound _)).bind fun _ => ih

theorem makeAll_screens (number : Nat) : Screens (makeAll number) := by
  refine (screens (make_sound _)).bind fun v => failsOnlyIn_get.bind fun d => ?_
  exact (finish_screens _).bind fun _ => failsOnlyIn_pure

end ValueMaker

-- ---------------------------------------------------------------------------
-- Texts
-- ---------------------------------------------------------------------------

theorem makeGraph_failsOnly (nodes : Array Node) (root? : Option Nat) :
    FailsOnly Stop.Expected (makeGraph nodes root?) := by
  simp only [makeGraph]
  split
  · exact failsOnly_pure
  · refine FailsOnly.bind (ValueMaker.makeAll_screens _ _ trivial).1 fun r => ?_
    exact .ite failsOnly_pure failsOnly_pure

theorem readChars_failsOnly (cs : List Char) : FailsOnly Stop.Expected (readChars cs) := by
  unfold readChars
  split
  · exact failsOnly_error.2 (.inl trivial)
  · exact ((readNodes_failsOnly _).imp fun _ => .inl).bind fun r => makeGraph_failsOnly _ _

theorem Stop.Expected.refusal {e : Stop} (h : e.Expected) : e.refusal.Within Raises := by
  cases e with
  | problem p place => trivial
  | unacceptable code position => trivial
  | duplicateKey key =>
    refine key.writes_integerTooLong.plainText.imp ?_
    rintro _ rfl
    trivial
  | fault f =>
    rcases h with h | ⟨_, h⟩
    · exact h
    · cases h

theorem read_failsOnly (text : String) : FailsOnly (Refusal.Within Raises) (read text) :=
  failsOnly_mapError.2 fun e he => (readChars_failsOnly _ e he).refusal

end LayeredConfig.Yaml
