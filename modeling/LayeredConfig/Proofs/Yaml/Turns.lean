import LayeredConfig.Grammar.Parse
import LayeredConfig.Proofs.Yaml.Screening

/-!
# Turns of YAML mappings

Collections are filled in turns, and a turn merges in place whatever its mapping takes from. So a
text is not refused for a repeated key (`parse_ne_repeatsKey`) if no mapping repeats one as written,
and none that an earlier turn merges repeats one among its merged pairs. The latter is needed: a
mapping may override what it takes, but not if it is merged by an earlier turn.
-/

namespace LayeredConfig.Yaml

open ValueMaker

-- ---------------------------------------------------------------------------
-- Turns
-- ---------------------------------------------------------------------------

section

variable (nodes : Array Node) (root : Nat)

def stateAt (turn : Nat) : Except Stop ValueDraft := do
  let (_, d) ← (make root).run { nodes }
  let (_, d) ← (finish turn).run d
  return d

def turn? (turn : Nat) : Option Nat :=
  match stateAt nodes root turn with
  | .ok d => d.tasks.head?.map (·.node)
  | .error _ => none

def fillOrder : List Nat := (List.range (nodes.size + 1)).filterMap (turn? nodes root)

/-- No mapping repeats an explicit key as written, and none that one filled before it takes from
repeats a key among its merged pairs. -/
structure Unrepeated : Prop where
  written : ∀ n, DistinctKeys nodes (explicitPairs nodes n)
  merged : (fillOrder nodes root).Pairwise fun n m => Reaches nodes n m →
    ∃ fuel pairs, merged? nodes fuel m = some pairs ∧ DistinctKeys nodes pairs

end

variable {nodes : Array Node} {root turn : Nat} {d t : ValueDraft}

-- ---------------------------------------------------------------------------
-- Checks
-- ---------------------------------------------------------------------------

/-- The document of a text passes a check of its root and its nodes. -/
def passes (text : String) (check : Nat → Array Node → Bool) : Bool :=
  (readNodes text.toList).toOption.any fun r => r.1.any (check · r.2)

theorem check_of_passes {text : String} {check : Nat → Array Node → Bool} {nodes : Array Node}
    (h : passes text check = true) (hread : readNodes text.toList = .ok (some root, nodes)) :
    check root nodes = true := by
  simpa [passes, hread, Except.toOption] using h

theorem exists_of_passes {text : String} {check : Nat → Array Node → Bool}
    (h : passes text check = true) : ∃ root nodes,
      readNodes text.toList = .ok (some root, nodes) ∧ check root nodes = true := by
  cases hread : readNodes text.toList with
  | error e => simp [passes, hread, Except.toOption] at h
  | ok r =>
    obtain ⟨root?, nodes⟩ := r
    cases root? with
    | none => simp [passes, hread, Except.toOption] at h
    | some root => exact ⟨root, nodes, rfl, check_of_passes h hread⟩

/-- A check that no mapping repeats a key: keys are scalars that are told apart, also among the
merged pairs of a mapping where one that is filled before it takes from any. -/
def ToldApartIn (nodes : Array Node) (root : Nat) : Prop :=
  (∀ n < nodes.size, (explicitPairs nodes n).Pairwise (ToldApart nodes)) ∧
    (fillOrder nodes root).Pairwise fun n m => sources nodes n = [] ∧ n ≠ m ∨
      ∃ pairs ∈ merged? nodes nodes.size m, pairs.Pairwise (ToldApart nodes)

instance (nodes : Array Node) (root : Nat) : Decidable (ToldApartIn nodes root) :=
  inferInstanceAs (Decidable (_ ∧ _))

theorem ToldApartIn.unrepeated (h : ToldApartIn nodes root) : Unrepeated nodes root := by
  refine ⟨distinctKeys_of_lt h.1, h.2.imp fun hpair hreach => ?_⟩
  rcases hpair with ⟨hnone, hne⟩ | ⟨pairs, hpairs, hapart⟩
  · exact absurd (hreach.eq_of_sources_nil hnone) hne
  · exact ⟨_, pairs, hpairs, distinctKeys_of_toldApart hapart⟩

-- ---------------------------------------------------------------------------
-- Runs of turns
-- ---------------------------------------------------------------------------

theorem finish_run_nil (h : d.tasks = []) (turn : Nat) : (finish turn).run d = .ok ((), d) := by
  cases turn with
  | zero => rfl
  | succ turn =>
    simp only [finish, StateT.run_bind, StateT.run_get, pure_bind, h]
    rfl

theorem finish_run_cons {task : Task} {rest : List Task} (h : d.tasks = task :: rest)
    (turn : Nat) :
    (finish (turn + 1)).run d = (makeContents task).run { d with tasks := rest } >>= fun r =>
      (finish turn).run
        { r.2 with containers := r.2.containers.setIfInBounds task.container r.1 } := by
  simp only [finish, StateT.run_bind, StateT.run_get, pure_bind, h]
  rfl

theorem finish_succ (turn : Nat) (d : ValueDraft) :
    (finish (turn + 1)).run d = (finish turn).run d >>= fun r => (finish 1).run r.2 := by
  induction turn generalizing d with
  | zero => rfl
  | succ turn ih =>
    cases htasks : d.tasks with
    | nil =>
      rw [finish_run_nil htasks, finish_run_nil htasks]
      exact (finish_run_nil htasks 1).symm
    | cons task rest =>
      rw [finish_run_cons htasks, finish_run_cons htasks, bind_assoc]
      exact bind_congr fun r => ih _

theorem stateAt_succ (turn : Nat) :
    stateAt nodes root (turn + 1) = stateAt nodes root turn >>= fun d =>
      (finish 1).run d >>= fun r => pure r.2 := by
  simp only [stateAt, finish_succ turn, bind_assoc, pure_bind]

/-- What holds before a turn: a mapping whose pairs have changed is one that an earlier turn
reached. -/
structure BeforeTurn (nodes : Array Node) (root turn : Nat) (d : ValueDraft) : Prop where
  faithful : Faithful nodes d
  settled : ∀ n, Settled nodes d.nodes n
  changed : ∀ n, pairsIn d.nodes n ≠ pairsIn nodes n →
    ∃ i < turn, ∃ m, turn? nodes root i = some m ∧ Reaches nodes m n

theorem faithful_start (nodes : Array Node) : Faithful nodes { nodes } :=
  ⟨.refl nodes, fun _ _ h => absurd h List.not_mem_nil⟩

theorem BeforeTurn.start (h : Stays nodes { nodes } d) : BeforeTurn nodes root 0 d where
  faithful := h.1
  settled n _ _ _ := .inl (by rw [h.2])
  changed n hn := absurd (by rw [h.2]) hn

theorem BeforeTurn.step (h : BeforeTurn nodes root turn d) (hd : stateAt nodes root turn = .ok d) :
    Ends (finish 1) d fun _ t => BeforeTurn nodes root (turn + 1) t := by
  intro r hr
  cases htasks : d.tasks with
  | nil =>
    rw [finish_run_nil htasks] at hr
    cases hr
    refine ⟨h.faithful, h.settled, fun n hn => ?_⟩
    obtain ⟨i, hi, m⟩ := h.changed n hn
    exact ⟨i, Nat.lt_succ_of_lt hi, m⟩
  | cons task rest =>
    rw [finish_run_cons htasks] at hr
    obtain ⟨⟨contents, u⟩, hu, hr⟩ := bind_ok.1 hr
    cases hr
    have hfaithful : Faithful nodes { d with tasks := rest } :=
      ⟨h.faithful.kept, h.faithful.spelled⟩
    obtain ⟨hkept, hsettled, hframe⟩ := makeContents_ends hfaithful h.settled _ hu
    refine ⟨⟨hkept.kept, hkept.spelled⟩, hsettled, fun n hn => ?_⟩
    by_cases hreach : Reaches nodes task.node n
    · refine ⟨turn, Nat.lt_succ_self turn, task.node, ?_, hreach⟩
      simp only [turn?, hd, htasks, List.head?_cons, Option.map_some]
    · obtain ⟨i, hi, m⟩ := h.changed n fun hsame => hn ((hframe n hreach).trans hsame)
      exact ⟨i, Nat.lt_succ_of_lt hi, m⟩

theorem beforeTurn_of_stateAt (h : stateAt nodes root turn = .ok d) :
    BeforeTurn nodes root turn d := by
  induction turn generalizing d with
  | zero =>
    obtain ⟨⟨v, t⟩, hmake, h⟩ := bind_ok.1 h
    cases h
    exact .start (make_ends (faithful_start nodes) _ hmake).1
  | succ turn ih =>
    rw [stateAt_succ] at h
    obtain ⟨t, ht, h⟩ := bind_ok.1 h
    obtain ⟨r, hr, h⟩ := bind_ok.1 h
    cases h
    exact (ih ht).step ht r hr

-- ---------------------------------------------------------------------------
-- Documents
-- ---------------------------------------------------------------------------

theorem Unrepeated.distinctKeys (h : Unrepeated nodes root) (hturn : turn ≤ nodes.size)
    (hd : stateAt nodes root turn = .ok d) {n : Nat} (hn : turn? nodes root turn = some n) :
    DistinctKeys nodes ((pairsIn d.nodes n).filter (!isMerge nodes ·)) := by
  have hbefore := beforeTurn_of_stateAt hd
  by_cases hsame : pairsIn d.nodes n = pairsIn nodes n
  · rw [hsame]
    exact h.written n
  · obtain ⟨i, hi, m, hm, hreach⟩ := hbefore.changed n hsame
    have horder := List.pairwise_iff_getElem.1 (List.pairwise_filterMap.1 h.merged) i turn
      (by simp; omega) (by simp; omega) hi m (by simpa using hm) n (by simpa using hn)
    obtain ⟨fuel, pairs, hpairs, hdistinct⟩ := horder hreach
    -- An earlier turn has reached `n`, so its pairs are the merged ones by now.
    rcases hbefore.settled n fuel pairs hpairs with hw | hw
    · exact absurd hw hsame
    · rw [hw]
      exact hdistinct.filter _

theorem finish_listed (h : Unrepeated nodes root) (hturn : turn ≤ nodes.size)
    (hd : stateAt nodes root turn = .ok d) : FailsOnly Stop.Listed ((finish 1).run d) := by
  cases htasks : d.tasks with
  | nil =>
    rw [finish_run_nil htasks]
    exact failsOnly_ok
  | cons task rest =>
    have hfaithful : Faithful nodes { d with tasks := rest } :=
      ⟨(beforeTurn_of_stateAt hd).faithful.kept, (beforeTurn_of_stateAt hd).faithful.spelled⟩
    have hn : turn? nodes root turn = some task.node := by
      simp only [turn?, hd, htasks, List.head?_cons, Option.map_some]
    rw [finish_run_cons htasks]
    exact (makeContents_listed hfaithful (h.distinctKeys hturn hd hn)).bind fun _ => failsOnly_ok

theorem stateAt_listed (h : Unrepeated nodes root) (hturn : turn ≤ nodes.size + 1) :
    FailsOnly Stop.Listed (stateAt nodes root turn) := by
  induction turn with
  | zero => exact (make_sound root _ trivial).1.bind fun _ => failsOnly_ok
  | succ turn ih =>
    rw [stateAt_succ]
    refine (ih (Nat.le_of_succ_le hturn)).bind_of fun d hd => ?_
    exact (finish_listed h (Nat.le_of_succ_le_succ hturn) hd).bind fun _ => failsOnly_pure

theorem makeAll_listed (h : Unrepeated nodes root) :
    FailsOnly Stop.Listed ((makeAll root).run { nodes }) := by
  refine FailsOnly.run_bind (Q := fun v d => (make root).run { nodes } = .ok (v, d))
    (make_sound root _ trivial).1 (fun r hr => hr) fun v d hmake => ?_
  have hnodes : d.nodes = nodes := (make_ends (faithful_start nodes) _ hmake).1.2
  have hfinish : FailsOnly Stop.Listed ((finish (d.nodes.size + 1)).run d) := by
    intro e he
    refine stateAt_listed h (Nat.le_refl (nodes.size + 1)) e ?_
    rw [stateAt, hmake, ← hnodes]
    change (finish (d.nodes.size + 1)).run d >>= _ = _
    rw [he]
    rfl
  exact FailsOnly.run_bind (f := fun _ => pure v) (Q := fun _ _ => True) hfinish
    (fun _ _ => trivial) fun _ _ _ => failsOnly_pure

theorem makeGraph_listed (h : Unrepeated nodes root) :
    FailsOnly Stop.Listed (makeGraph nodes (some root)) :=
  (makeAll_listed h).bind fun _ => .ite failsOnly_pure failsOnly_pure

theorem readChars_listed {cs : List Char}
    (h : ∀ root nodes, readNodes cs = .ok (some root, nodes) → Unrepeated nodes root) :
    FailsOnly Stop.Listed (readChars cs) := by
  unfold readChars
  split
  · exact failsOnly_error.2 trivial
  · refine (readNodes_failsOnly cs).bind_of fun (root?, nodes) hr => ?_
    cases root? with
    | none => exact failsOnly_pure
    | some root => exact makeGraph_listed (h root nodes hr)

-- ---------------------------------------------------------------------------
-- Texts
-- ---------------------------------------------------------------------------

theorem read_ne_duplicateKey {text : String}
    (h : ∀ root nodes, readNodes text.toList = .ok (some root, nodes) → Unrepeated nodes root)
    (key : Scalar) : read text ≠ .error (.duplicateKey key) := by
  have hread : FailsOnly (· ≠ .duplicateKey key) (read text) := by
    refine failsOnly_mapError.2 fun e he => ?_
    have hlisted := readChars_listed h e he
    cases e with
    | duplicateKey _ => exact hlisted.elim
    | problem _ _ => exact nofun
    | unacceptable _ _ => exact nofun
    | fault _ => exact nofun
  exact fun hdup => hread _ hdup rfl

def repeatsKey (shown : Text) : Failure :=
  .config (.invalidStructure ("duplicate key '" ++ shown ++ "' in yaml document"))

theorem ne_repeatsKey_of_ofWalk {P : Fault → Prop} {e : Failure} (h : e.OfWalk P)
    (shown : Text) : e ≠ repeatsKey shown := by
  rcases h.fault_or_message with ⟨f, rfl, -⟩ | ⟨message, rfl, hmessage⟩
  · exact nofun
  · intro heq
    cases heq
    simp at hmessage

/-- A text is not refused for a repeated key if no mapping repeats one. -/
theorem parse_ne_repeatsKey {text : String}
    (h : ∀ root nodes, readNodes text.toList = .ok (some root, nodes) → Unrepeated nodes root)
    (shown : Text) (j : Journal) :
    ((Grammar.yaml.parse text).start j).1 ≠ .error (repeatsKey shown) := by
  unfold Grammar.parse
  split
  · exact nofun
  split
  · rename_i r hr
    have hr : read text = .error r := map_error.1 hr
    cases r with
    | malformed location message => exact nofun
    | duplicateKey key => exact absurd hr (read_ne_duplicateKey h key)
    | fault f => exact nofun
  · rename_i tree htree
    obtain ⟨graph, -, rfl⟩ := map_ok.1 htree
    have hwalk := Graph.flatten_failsOnly (fun s => s.writes_integerTooLong) graph
    have hfails : FailsOnly (· ≠ repeatsKey shown) graph.flatten :=
      hwalk.imp fun e he => ne_repeatsKey_of_ofWalk he shown
    rw [Run.outcome_bind (fun _ => (Run.Steady.report _ _ _ _ _).bind fun _ => .pure _) j j]
    exact fun hfail => (hfails.bind fun _ => failsOnly_ok) _ hfail rfl

/-- A mapping with a merge key that is merged before its turn, by one that overrides a key. -/
def nestedAnchor : String := "a:\n  b: &b \x7b<<: \x7bx: 1\x7d, y: 2\x7d\nc: \x7b<<: *b, x: 3\x7d\n"

theorem parse_ne_repeatsKey_nestedAnchor :
    (∀ root nodes, readNodes nestedAnchor.toList = .ok (some root, nodes) →
      Unrepeated nodes root) ∧
    ((Grammar.yaml.parse nestedAnchor).start {}).1 ≠ .error (repeatsKey "x") := by
  have hcheck : passes nestedAnchor (fun root nodes => decide (ToldApartIn nodes root)) = true := by
    decide +kernel
  have hunrepeated (root : Nat) (nodes : Array Node)
      (h : readNodes nestedAnchor.toList = .ok (some root, nodes)) : Unrepeated nodes root :=
    (of_decide_eq_true (check_of_passes hcheck h)).unrepeated
  exact ⟨hunrepeated, parse_ne_repeatsKey hunrepeated "x" {}⟩

/-- A mapping that overrides what it takes, and is merged before its turn by one further out. -/
def overridingAnchor : String := "a:\n  b: &b\n    <<: \x7bx: 1\x7d\n    x: 2\nc:\n  <<: *b\n"

/-- As written no mapping repeats a key, but the text is refused for one. -/
theorem parse_repeatsKey_overridingAnchor :
    (∃ root nodes, readNodes overridingAnchor.toList = .ok (some root, nodes) ∧
      ∀ n, DistinctKeys nodes (explicitPairs nodes n)) ∧
    ((Grammar.yaml.parse overridingAnchor).start {}).1 = .error (repeatsKey "x") := by
  have hcheck : passes overridingAnchor (fun _ nodes =>
      decide (∀ n < nodes.size, (explicitPairs nodes n).Pairwise (ToldApart nodes))) = true := by
    decide +kernel
  have hrefused : ((Grammar.yaml.parse overridingAnchor).start {}).1.map OrderedMap.size =
      .error (repeatsKey "x") := by
    decide +kernel
  obtain ⟨root, nodes, hread, hapart⟩ := exists_of_passes hcheck
  exact ⟨⟨root, nodes, hread, distinctKeys_of_lt (of_decide_eq_true hapart)⟩,
    map_error.1 hrefused⟩

end LayeredConfig.Yaml
