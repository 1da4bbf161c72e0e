import LayeredConfig.Proofs.Grammar.Detect
import LayeredConfig.Proofs.Grammar.Unambiguous
import LayeredConfig.Proofs.Json.Duplicates
import LayeredConfig.Proofs.Json.Faults

/-!
# The trees of JSON texts

`parse_written`: a text is refused for a repeated name exactly if some object in it repeats one.
Otherwise only a whole number of more than 64 bits can stop the walk, and the tree lists the scalars
of the document in their order, each at the path that leads to it.
-/

namespace LayeredConfig.Json

open Text

def repeatsName (name : Text) : Failure :=
  .config (.invalidStructure ("duplicate key '" ++ name ++ "' in json document"))

theorem repeatsName_injective : Function.Injective repeatsName := by
  intro a b h
  simp only [repeatsName, Failure.config.injEq, ConfigError.invalidStructure.injEq] at h
  have h := congrArg Text.points h
  simp only [append_points, List.append_cancel_left_eq, List.append_cancel_right_eq] at h
  exact Text.ext h

-- ---------------------------------------------------------------------------
-- Texts and documents
-- ---------------------------------------------------------------------------

theorem Written.isBlankText_text (t : Written) : isBlankText t.text = false := by
  obtain ⟨c, cs, hcs, -, hblank⟩ := t.value.exists_cons
  rw [isBlankText, Written.text, String.toList_ofList, Written.chars, hcs]
  simp [hblank]

theorem read_text (t : Written) (hn : ∀ n ∈ t.value.numbers, n.Moderate) :
    (∀ names ∈ t.value.objects, names.Nodup) ∧ read t.text = .ok t.value.document ∨
      ∃ name, read t.text = .error (.duplicateKey (.str name)) ∧
        ∃ names ∈ t.value.objects, names.Duplicate name := by
  have hread : read t.text = (readChars t.chars).mapError (·.refusal t.chars) := by
    rw [read, Written.text, String.toList_ofList]
  rw [hread]
  rcases readChars_chars t hn with ⟨h, hok⟩ | ⟨name, herror, h⟩
  · exact .inl ⟨h, by rw [hok]; rfl⟩
  · exact .inr ⟨name, by rw [herror]; rfl, h⟩

theorem parse_repeated {text : String} {name : Text} (hb : isBlankText text = false)
    (h : read text = .error (.duplicateKey (.str name))) (j : Journal) :
    ((Grammar.json.parse text).start j).1 = .error (repeatsName name) := by
  have hread : Grammar.json.read text = .error (.duplicateKey (.str name)) := by
    rw [Grammar.read, h]
    rfl
  have hmessage : "duplicate key '" ++ name ++ "' in " ++ "json" ++ " document" =
      "duplicate key '" ++ name ++ "' in json document" := by
    rw [Text.append_assoc, Text.append_assoc]
    rfl
  unfold Grammar.parse
  rw [hb, hread, repeatsName, ← hmessage]
  rfl

theorem Number.fits_leaf_iff {n : Number} :
    n.leaf.Fits ↔ (n.isWhole = true → Leaf.inRange n.integer = true) := by
  unfold leaf
  split
  · rw [Leaf.fits_int_iff]
    exact ⟨fun h _ => h, fun h => h ‹_›⟩
  · exact iff_of_true trivial fun h => absurd h ‹_›

theorem Word.fits_leaf (w : Word) : w.leaf.Fits := by
  cases w <;> trivial

/-- The walk over a document that is read succeeds exactly if the whole numbers fit; then it leaves
out no scalar. It fails with a message only. -/
theorem flatten_document {t : Written} (hread : read t.text = .ok t.value.document) :
    ((∃ tree, t.value.document.flatten = .ok tree) ↔ ∀ n ∈ t.value.numbers, n.leaf.Fits) ∧
      (∀ tree, t.value.document.flatten = .ok tree →
        tree.entries = t.value.document.leaves.map (fun e => (⟨e.1⟩, e.2)) ∧
          tree.size = t.value.document.scalarCount) ∧
      FailsOnly (Failure.OfWalk fun _ => False) t.value.document.flatten := by
  have hnamed : t.value.document.Named := read_inherited inherited_named hread
  have hproper (h : ∀ n ∈ t.value.numbers, n.leaf.Fits) : t.value.document.Proper Leaf.Fits := by
    refine Document.proper_of_named _ hnamed ((Value.all_document ?_ ?_ _).2 fun n hn => ?_)
    · exact fun s => ⟨.str s, rfl, trivial⟩
    · exact fun w => ⟨w.leaf, rfl, w.fits_leaf⟩
    · exact ⟨n.leaf, rfl, h n hn⟩
  have hfits {tree : Tree Leaf} (h : t.value.document.flatten = .ok tree) :
      ∀ n ∈ t.value.numbers, n.leaf.Fits :=
    (Value.all_document (fun _ => trivial) Word.fits_leaf _).1
      (Document.kept_of_flattenAt _ hnamed h)
  refine ⟨⟨fun ⟨tree, h⟩ => hfits h, fun h => ?_⟩, fun tree h => ?_,
    Document.flatten_failsOnly (read_short hread)⟩
  · obtain ⟨tree, htree, -⟩ := Document.flatten_proper (fun _ h => h) (hproper h)
    exact ⟨tree, htree⟩
  · obtain ⟨other, hother, hentries⟩ := Document.flatten_proper (fun _ h => h) (hproper (hfits h))
    cases hother.symm.trans h
    refine ⟨hentries, ?_⟩
    rw [OrderedMap.size, hentries, List.length_map, Document.length_leaves _ (hproper (hfits h))]

-- ---------------------------------------------------------------------------
-- Texts and trees
-- ---------------------------------------------------------------------------

/-- What the parse of a text comes to. -/
structure Written.Outcome (t : Written) (x : Except Failure (Tree Leaf)) : Prop where
  /-- It is refused for a repeated name exactly if some object repeats one. -/
  repeats_iff : (∃ name, x = .error (repeatsName name)) ↔
    ∃ names ∈ t.value.objects, ¬ names.Nodup
  duplicate : ∀ name, x = .error (repeatsName name) →
    ∃ names ∈ t.value.objects, names.Duplicate name
  /-- Otherwise it has a tree exactly if all whole numbers have 64 bits. -/
  tree_iff : (∀ names ∈ t.value.objects, names.Nodup) →
    ((∃ tree, x = .ok tree) ↔
      ∀ n ∈ t.value.numbers, n.isWhole = true → Leaf.inRange n.integer = true)
  invalid : ∀ e, x = .error e → ∃ message, e = .config (.invalidStructure message)
  /-- The tree has the leaves of the document in their order, one for each scalar. -/
  entries : ∀ tree, x = .ok tree →
    tree.entries = t.value.document.leaves.map (fun e => (⟨e.1⟩, e.2)) ∧
      tree.size = t.value.document.scalarCount

/-- Every text whose whole numbers are not too long to be read is screened for repeated names and
numbers of more than 64 bits, and for nothing else. -/
theorem parse_written (t : Written) (hn : ∀ n ∈ t.value.numbers, n.Moderate) (j : Journal) :
    t.Outcome ((Grammar.json.parse t.text).start j).1 := by
  rcases read_text t hn with ⟨hnodup, hread⟩ | ⟨name, hread, names, hnames, hname⟩
  · obtain ⟨htree, hentries, hfails⟩ := flatten_document hread
    have hparse : ((Grammar.json.parse t.text).start j).1 = t.value.document.flatten := by
      refine Grammar.parse_of_read t.isBlankText_text ?_ j
      rw [Grammar.read, hread]
      rfl
    rw [hparse]
    have hmessage {e : Failure} (he : t.value.document.flatten = .error e) :
        ∃ message, e = .config (.invalidStructure message) ∧
          message.points.head? ≠ some (.char 'd') :=
      (hfails e he).fault_or_message.resolve_left fun ⟨_, _, h⟩ => h
    -- The messages of the walk start otherwise than the one for a repeated name.
    have hrefused (name : Text) : t.value.document.flatten ≠ .error (repeatsName name) := by
      intro h
      obtain ⟨message, heq, hd⟩ := hmessage h
      cases heq
      simp at hd
    constructor
    · exact iff_of_false (fun ⟨name, h⟩ => hrefused name h) fun ⟨names, hnames, h⟩ =>
        h (hnodup names hnames)
    · exact fun name h => absurd h (hrefused name)
    · exact fun _ => htree.trans (forall₂_congr fun _ _ => Number.fits_leaf_iff)
    · exact fun e he => (hmessage he).imp fun _ h => h.1
    · exact hentries
  · have hdup : ¬ names.Nodup := List.exists_duplicate_iff_not_nodup.1 ⟨name, hname⟩
    rw [parse_repeated t.isBlankText_text hread j]
    constructor
    · exact iff_of_true ⟨name, rfl⟩ ⟨names, hnames, hdup⟩
    · intro other h
      cases repeatsName_injective (Except.error.inj h)
      exact ⟨names, hnames, hname⟩
    · exact fun h => absurd (h names hnames) hdup
    · intro e he
      cases he
      exact ⟨_, rfl⟩
    · exact fun tree h => by cases h

/-- The object with 1 as its first member and 2 as its second one, with the same space
everywhere. -/
def pair (space : Space) (first second : Quoted) : Written :=
  let number (digit : Char) (h : isDigit digit = true) : Value :=
    .number ⟨false, ⟨[digit], List.cons_ne_nil _ _, List.forall_mem_singleton.2 h⟩,
      fun h => congrArg (fun c => [c]) (Option.some.inj h), none, none⟩
  let label (name : Quoted) : Label := ⟨space, name, space, space⟩
  ⟨space, .object (.more (label first) (number '1' rfl) space
    (.last (label second) (number '2' rfl) space)), space⟩

/-- An escape does not hide that a name is repeated, and two halves of surrogate pairs are two
names. -/
theorem parse_written_pair :
    let space : Space := ⟨[' '], List.all_eq_true.1 rfl⟩
    let plain : Quoted := .ofPlain ['k'] (List.forall_mem_singleton.2 (by decide))
    let escaped : Quoted := ⟨[.code ['0', '0', '6', 'b'] rfl (List.all_eq_true.1 rfl)]⟩
    let first : Quoted := ⟨[.code ['d', '8', '0', '0'] rfl (List.all_eq_true.1 rfl)]⟩
    let last : Quoted := ⟨[.code ['d', 'b', 'f', 'f'] rfl (List.all_eq_true.1 rfl)]⟩
    let same := pair space plain escaped
    let halves := pair space first last
    (∀ n ∈ same.value.numbers, n.Moderate) ∧ (∀ n ∈ halves.value.numbers, n.Moderate) ∧
      same.text = " \x7b \"k\" : 1 , \"\\u006b\" : 2 \x7d " ∧
      halves.text = " \x7b \"\\ud800\" : 1 , \"\\udbff\" : 2 \x7d " ∧
      ((Grammar.json.parse same.text).start {}).1 = .error (repeatsName "k") ∧
      ∃ tree, ((Grammar.json.parse halves.text).start {}).1 = .ok tree ∧
        tree.entries =
          [(⟨[.key ⟨[.half 0]⟩]⟩, .int 1), (⟨[.key ⟨[.half 0x3ff]⟩]⟩, .int 2)] := by
  intro space plain escaped first last same halves
  have hmoderate (first second : Quoted) :
      ∀ n ∈ (pair space first second).value.numbers, n.Moderate := by
    intro n hn _
    simp only [pair, Value.numbers, Members.numbers, List.mem_append, List.mem_singleton] at hn
    rcases hn with rfl | rfl <;> decide
  have hsame := parse_written same (hmoderate _ _) {}
  have hhalves := parse_written halves (hmoderate _ _) {}
  refine ⟨hmoderate _ _, hmoderate _ _, by decide, by decide, ?_, ?_⟩
  · obtain ⟨name, hname⟩ := hsame.repeats_iff.2 ⟨["k", "k"], List.mem_cons_self, by decide⟩
    obtain ⟨names, hnames, hdup⟩ := hsame.duplicate name hname
    have hnames : names = (["k", "k"] : List Text) := List.mem_singleton.1 hnames
    have hmem : name ∈ (["k", "k"] : List Text) := hnames ▸ hdup.mem
    have hk : name = "k" := by simpa using hmem
    rw [hname, hk]
  · obtain ⟨tree, htree⟩ := (hhalves.tree_iff (by decide)).2 (by decide)
    exact ⟨tree, htree, (hhalves.entries tree htree).1⟩

end LayeredConfig.Json
