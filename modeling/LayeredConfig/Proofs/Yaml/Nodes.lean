import LayeredConfig.Proofs.Yaml.Tokens
import LayeredConfig.Yaml.Node

/-!
# Faults of reading YAML nodes

Putting tokens together stops as cutting them does: by a problem of its own, or, where the tokens
run out, with what ended them.
-/

namespace LayeredConfig.Yaml

def NodeDraft.Sound (d : NodeDraft) : Prop := ∀ e, d.problem = some e → e.Listed

namespace NodeReader

variable {α : Type}

abbrev Sound (x : NodeReader α) : Prop := FailsOnlyIn NodeDraft.Sound Stop.Listed x

theorem stop_sound (p : Problem) (place : Location) : Sound (stop p place : NodeReader α) :=
  failsOnlyIn_throw trivial

theorem peek_sound : Sound peek := by
  rintro ⟨tokens, problem, nodes, anchors, handles⟩ hd
  cases tokens with
  | cons t rest => exact failsOnlyIn_pure _ hd
  | nil =>
    refine failsOnlyIn_throw ?_ _ hd
    cases problem with
    | none => trivial
    | some e => exact hd e rfl

theorem modify_sound {f : NodeDraft → NodeDraft} (hf : ∀ d, (f d).problem = d.problem) :
    Sound (modify f) := by
  refine failsOnlyIn_modify fun d hd e he => ?_
  rw [hf] at he
  exact hd e he

theorem pop_sound : Sound pop := by
  refine peek_sound.bind fun t => ?_
  exact .bind (modify_sound fun _ => rfl) fun _ => failsOnlyIn_pure

theorem nextIsIn_sound (symbols : List Symbol) : Sound (nextIsIn symbols) :=
  peek_sound.bind fun _ => failsOnlyIn_pure

theorem add_sound (anchor : Option String) (node : Node) : Sound (add anchor node) := by
  refine failsOnlyIn_get.bind fun d => ?_
  have hpush : Sound (do
      modify fun d => { d with nodes := d.nodes.push node }
      return d.nodes.size) :=
    .bind (modify_sound fun _ => rfl) fun _ => failsOnlyIn_pure
  split
  · refine (stop_sound _ _).check ?_
    exact .bind (modify_sound fun _ => rfl) fun _ => hpush
  · exact hpush

theorem setContent_sound (number : Nat) (content : Content) : Sound (setContent number content) :=
  modify_sound fun _ => rfl

theorem addEmpty_sound (place : Location) : Sound (addEmpty place) := add_sound _ _

theorem takeAlias_sound (name : String) : Sound (takeAlias name) := by
  refine pop_sound.bind fun t => failsOnlyIn_get.bind fun d => ?_
  split
  · exact failsOnlyIn_pure
  · exact stop_sound _ _

theorem fullTag_sound (handle : Option String) (suffix : String) (place : Location) :
    Sound (fullTag handle suffix place) := by
  unfold fullTag
  split
  · exact failsOnlyIn_pure
  · refine failsOnlyIn_get.bind fun d => ?_
    split
    · exact failsOnlyIn_pure
    · exact stop_sound _ _

theorem takeProperties_sound : Sound takeProperties := by
  refine peek_sound.bind fun first => ?_
  split
  · refine pop_sound.discard.bind fun _ => peek_sound.bind fun second => ?_
    split
    · refine pop_sound.discard.bind fun _ => ?_
      exact (fullTag_sound _ _ _).bind fun _ => failsOnlyIn_pure
    · exact failsOnlyIn_pure
  · rename_i handle suffix _
    refine pop_sound.discard.bind fun _ => peek_sound.bind fun second => ?_
    have hend (anchor : Option String) :  Sound (do
        return (⟨anchor, ← fullTag handle suffix first.start, some first.start⟩ : Properties)) :=
      (fullTag_sound _ _ _).bind fun _ => failsOnlyIn_pure
    split
    · exact pop_sound.discard.bind fun _ => failsOnlyIn_pure.bind hend
    · exact failsOnlyIn_pure.bind hend
  · exact failsOnlyIn_pure

theorem fill_sound {β : Type} {contents : NodeReader β} (h : Sound contents) (number : Nat)
    (content : β → Content) :
    Sound (do setContent number (content (← contents)); return number) :=
  h.bind fun _ => (setContent_sound _ _).bind fun _ => failsOnlyIn_pure

theorem separator_sound {c : Prop} {_ : Decidable c} {t : Token} {p : Problem} {place : Location}
    {k : PUnit → NodeReader α} (hk : Sound (k ⟨⟩)) :
    Sound (if c then
        if t.symbol = .flowEntry then discard pop >>= k else stop p place >>= k
      else k ⟨⟩) := by
  refine .ite (.ite ?_ ?_) hk
  · exact pop_sound.discard.bind fun _ => hk
  · exact (stop_sound _ _).bind fun _ => hk

-- ---------------------------------------------------------------------------
-- Collections
-- ---------------------------------------------------------------------------

mutual

theorem takeNode_sound : (fuel : Nat) → (position : Position) → Sound (takeNode fuel position)
  | 0, _ => failsOnlyIn_throw trivial
  | fuel + 1, position => by
    refine peek_sound.bind fun t => ?_
    split
    · exact takeAlias_sound _
    · refine takeProperties_sound.bind fun properties => ?_
      refine peek_sound.bind fun t => ?_
      simp only
      split
      · exact pop_sound.discard.bind fun _ => add_sound _ _
      · refine (add_sound _ _).bind fun number => pop_sound.discard.bind fun _ => ?_
        exact fill_sound (takeFlowItems_sound fuel true) _ _
      · refine (add_sound _ _).bind fun number => pop_sound.discard.bind fun _ => ?_
        exact fill_sound (takeFlowPairs_sound fuel true) _ _
      · refine .ite ?_ (.ite ?_ (.ite ?_ (.ite (add_sound _ _) (stop_sound _ _))))
        · exact (add_sound _ _).bind fun _ => fill_sound (takeIndentlessItems_sound fuel) _ _
        · refine (add_sound _ _).bind fun number => pop_sound.discard.bind fun _ => ?_
          exact fill_sound (takeBlockItems_sound fuel) _ _
        · refine (add_sound _ _).bind fun number => pop_sound.discard.bind fun _ => ?_
          exact fill_sound (takeBlockPairs_sound fuel) _ _

theorem takeNodeUnless_sound : (fuel : Nat) → (ends : List Symbol) → (place : Location) →
    (position : Position) → Sound (takeNodeUnless fuel ends place position)
  | 0, _, _, _ => failsOnlyIn_throw trivial
  | fuel + 1, _, _, position =>
    (nextIsIn_sound _).bind fun _ => .ite (addEmpty_sound _) (takeNode_sound fuel position)

theorem takeValueNode_sound : (fuel : Nat) → (ends : List Symbol) → (position : Position) →
    Sound (takeValueNode fuel ends position)
  | 0, _, _ => failsOnlyIn_throw trivial
  | fuel + 1, ends, position => by
    refine (nextIsIn_sound _).bind fun _ => .ite ?_ ?_
    · exact pop_sound.bind fun _ => takeNodeUnless_sound fuel ends _ position
    · exact peek_sound.bind fun _ => addEmpty_sound _

theorem takeBlockItems_sound : (fuel : Nat) → Sound (takeBlockItems fuel)
  | 0 => failsOnlyIn_throw trivial
  | fuel + 1 => by
    refine peek_sound.bind fun t => ?_
    split
    · refine pop_sound.discard.bind fun _ => ?_
      refine (takeNodeUnless_sound fuel _ _ _).bind fun _ => ?_
      exact (takeBlockItems_sound fuel).bind fun _ => failsOnlyIn_pure
    · exact pop_sound.discard.bind fun _ => failsOnlyIn_pure
    · exact stop_sound _ _

theorem takeIndentlessItems_sound : (fuel : Nat) → Sound (takeIndentlessItems fuel)
  | 0 => failsOnlyIn_throw trivial
  | fuel + 1 => by
    refine peek_sound.bind fun t => ?_
    split
    · refine pop_sound.discard.bind fun _ => ?_
      refine (takeNodeUnless_sound fuel _ _ _).bind fun _ => ?_
      exact (takeIndentlessItems_sound fuel).bind fun _ => failsOnlyIn_pure
    · exact failsOnlyIn_pure

theorem takeBlockPairs_sound : (fuel : Nat) → Sound (takeBlockPairs fuel)
  | 0 => failsOnlyIn_throw trivial
  | fuel + 1 => by
    refine peek_sound.bind fun t => ?_
    split
    · refine pop_sound.discard.bind fun _ => ?_
      refine (takeNodeUnless_sound fuel _ _ _).bind fun _ => ?_
      refine (takeValueNode_sound fuel _ _).bind fun _ => ?_
      exact (takeBlockPairs_sound fuel).bind fun _ => failsOnlyIn_pure
    · exact pop_sound.discard.bind fun _ => failsOnlyIn_pure
    · exact stop_sound _ _

theorem takeFlowItems_sound : (fuel : Nat) → (isFirst : Bool) → Sound (takeFlowItems fuel isFirst)
  | 0, _ => failsOnlyIn_throw trivial
  | fuel + 1, _ => by
    have hlater (number : Nat) : Sound (do return number :: (← takeFlowItems fuel false)) :=
      (takeFlowItems_sound fuel false).bind fun _ => failsOnlyIn_pure
    refine peek_sound.bind fun _ => separator_sound ?_
    refine peek_sound.bind fun t => ?_
    split
    · exact pop_sound.discard.bind fun _ => failsOnlyIn_pure
    · refine (add_sound _ _).bind fun number => pop_sound.discard.bind fun _ => ?_
      refine (takeNodeUnless_sound fuel _ _ _).bind fun key => ?_
      refine (takeValueNode_sound fuel _ _).bind fun value => ?_
      refine peek_sound.discard.bind fun _ => ?_
      exact (setContent_sound _ _).bind fun _ => hlater _
    · exact (takeNode_sound fuel _).bind hlater

theorem takeFlowPairs_sound : (fuel : Nat) → (isFirst : Bool) → Sound (takeFlowPairs fuel isFirst)
  | 0, _ => failsOnlyIn_throw trivial
  | fuel + 1, _ => by
    have hlater (pair : Nat × Nat) : Sound (do return pair :: (← takeFlowPairs fuel false)) :=
      (takeFlowPairs_sound fuel false).bind fun _ => failsOnlyIn_pure
    refine peek_sound.bind fun _ => separator_sound ?_
    refine peek_sound.bind fun t => ?_
    split
    · exact pop_sound.discard.bind fun _ => failsOnlyIn_pure
    · refine pop_sound.discard.bind fun _ => ?_
      refine (takeNodeUnless_sound fuel _ _ _).bind fun key => ?_
      exact (takeValueNode_sound fuel _ _).bind fun value => hlater _
    · refine (takeNode_sound fuel _).bind fun key => ?_
      exact peek_sound.bind fun _ => (addEmpty_sound _).bind fun value => hlater _

end

-- ---------------------------------------------------------------------------
-- Documents
-- ---------------------------------------------------------------------------

theorem takeDirectives_sound (fuel : Nat) (hasVersion : Bool) (handles : List (String × String)) :
    Sound (takeDirectives fuel hasVersion handles) := by
  induction fuel generalizing hasVersion handles with
  | zero => exact failsOnlyIn_pure
  | succ fuel ih =>
    refine peek_sound.bind fun t => ?_
    split
    · refine pop_sound.discard.bind fun _ => ?_
      exact (stop_sound _ _).check ((stop_sound _ _).check (ih _ _))
    · refine pop_sound.discard.bind fun _ => ?_
      exact (stop_sound _ _).check (ih _ _)
    · exact pop_sound.discard.bind fun _ => ih _ _
    · exact failsOnlyIn_pure

theorem skipDocumentEnds_sound (fuel : Nat) : Sound (skipDocumentEnds fuel) := by
  induction fuel with
  | zero => exact failsOnlyIn_pure
  | succ fuel ih =>
    refine (nextIsIn_sound _).bind fun _ => .ite ?_ failsOnlyIn_pure
    exact pop_sound.discard.bind fun _ => ih

theorem takeDocumentStart_sound (fuel : Nat) : Sound (takeDocumentStart? fuel) := by
  refine (skipDocumentEnds_sound fuel).bind fun _ => peek_sound.bind fun first => ?_
  refine .ite failsOnlyIn_pure ?_
  refine (takeDirectives_sound _ _ _).bind fun handles => ?_
  refine .bind (modify_sound fun _ => rfl) fun _ => peek_sound.bind fun t => ?_
  refine (stop_sound _ _).check ?_
  exact pop_sound.discard.bind fun _ => failsOnlyIn_pure

theorem takeMarkedRoot_sound (fuel : Nat) : Sound (takeMarkedRoot fuel) :=
  peek_sound.bind fun _ => .ite (addEmpty_sound _) (takeNode_sound fuel _)

theorem takeRoot_sound (fuel : Nat) : Sound (takeRoot? fuel) := by
  refine pop_sound.discard.bind fun _ => peek_sound.bind fun t => .ite ?marked ?bare
  case' marked =>
    refine (takeDocumentStart_sound fuel).bind fun start? => ?_
    split
  case' bare =>
    refine .bind (modify_sound fun _ => rfl) fun _ => ?_
    refine ((takeNode_sound fuel _).map _).bind ?_
  case' h_1 => refine failsOnlyIn_pure.bind ?_
  case' h_2 => refine ((takeMarkedRoot_sound fuel).map _).bind ?_
  -- what follows the root is the same in every case
  all_goals
    refine fun root? => .ite ?_ failsOnlyIn_pure
    refine (nextIsIn_sound _).bind fun _ => pop_sound.discard.check ?_
    refine (takeDocumentStart_sound fuel).bind fun place? => ?_
    split
    · exact (stop_sound _ _).bind fun _ => failsOnlyIn_pure
    · exact failsOnlyIn_pure

end NodeReader

theorem readNodes_failsOnly (cs : List Char) : FailsOnly Stop.Listed (readNodes cs) := by
  rcases hcut : tokens cs with ⟨ts, problem⟩
  have hproblem : NodeDraft.Sound { tokens := ts, problem } := by
    rintro e rfl
    exact tokens_listed (congrArg Prod.snd hcut)
  simp only [readNodes, hcut]
  exact FailsOnly.bind (NodeReader.takeRoot_sound _ _ hproblem).1 fun _ => failsOnly_pure

end LayeredConfig.Yaml
