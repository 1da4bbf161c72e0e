import LayeredConfig.CommandLine.Run
import LayeredConfig.Proofs.Json.RoundTrip
import LayeredConfig.Proofs.Load.Sound
import LayeredConfig.Proofs.Tree.Gaps
import LayeredConfig.Proofs.Tree.Rebuild

/-!
# Contexts printed and loaded again

`print_reload`: the text that a context is printed as is a configuration with the same leaves. Only
the gaps of arrays are filled: they are printed as null, and null is read as a leaf. A second round
changes nothing any more.
-/

namespace LayeredConfig

/-- A leaf that printing and reading keep: no floating-point number, which they may round, and no
text with halves of surrogate pairs, which they may join. -/
def Leaf.Plain (v : Leaf) : Prop :=
  v.Fits ∧ (∀ x, v ≠ .float x) ∧ ∀ s, v = .str s → s.IsString

theorem Leaf.Plain.exact {v : Leaf} (h : v.Plain) : v.Exact := by
  cases v with
  | null => trivial
  | bool b => trivial
  | int n => exact h.1.natAbs_lt
  | float x => exact h.2.1 x rfl
  | str s => exact h.2.2 s rfl

namespace Document

theorem exists_outermost {P : Leaf → Prop} {d : Document} (hp : d.Proper P)
    (h : ∀ v, leafAt? [] d ≠ some v) : ∃ c, d.outermost? = some c := by
  cases ho : d.outermost? with
  | some c => exact ⟨c, rfl⟩
  | none =>
    obtain ⟨v, rfl⟩ := eq_leaf_of_outermost hp ho
    exact absurd rfl (h v)

end Document

namespace Json

variable {P : Leaf → Prop}

mutual

-- Without an empty container every key of the document leads to some leaf.

theorem writable_of_leaves (hP : ∀ v, P v → v.Exact) : (d : Document) → d.Proper P → d.Filled →
    (∀ e ∈ d.leaves, ∀ name, .key name ∈ e.1 → name.IsString) → Writable d
  | .scalar s, hp, _, _ => by
    rw [Document.Proper] at hp
    obtain ⟨v, rfl, hv⟩ := hp
    exact ⟨v, rfl, hP v hv⟩
  | .list items, hp, hf, hnames => by
    rw [Document.Proper] at hp
    rw [Document.Filled] at hf
    rw [Document.leaves] at hnames
    exact writableItems_of_leaves hP items hp hf.2 hnames
  | .map fields, hp, hf, hnames => by
    rw [Document.Proper] at hp
    rw [Document.Filled] at hf
    rw [Document.leaves] at hnames
    exact ⟨hp.1, writableFields_of_leaves hP fields hp.2 hf.2 hnames⟩

theorem writableItems_of_leaves (hP : ∀ v, P v → v.Exact) : (items : List Document) →
    Document.ProperItems P items → Document.FilledItems items → {position : Nat} →
    (∀ e ∈ Document.leavesOfItems position items, ∀ name, .key name ∈ e.1 → name.IsString) →
    WritableItems items
  | [], _, _, _, _ => trivial
  | d :: rest, hp, hf, position, hnames => by
    rw [Document.ProperItems] at hp
    rw [Document.FilledItems] at hf
    rw [Document.leavesOfItems] at hnames
    obtain ⟨hfirst, hrest⟩ := List.forall_mem_append.1 hnames
    rw [List.forall_mem_map] at hfirst
    refine ⟨writable_of_leaves hP d hp.1 hf.1 fun e he name hname => ?_,
      writableItems_of_leaves hP rest hp.2 hf.2 hrest⟩
    exact hfirst e he name (List.mem_cons_of_mem _ hname)

theorem writableFields_of_leaves (hP : ∀ v, P v → v.Exact) : (fields : List (Scalar × Document)) →
    Document.ProperFields P fields → Document.FilledFields fields →
    (∀ e ∈ Document.leavesOfFields fields, ∀ name, .key name ∈ e.1 → name.IsString) →
    WritableFields fields
  | [], _, _, _ => trivial
  | (k, d) :: rest, hp, hf, hnames => by
    rw [Document.ProperFields] at hp
    rw [Document.FilledFields] at hf
    obtain ⟨⟨name, rfl⟩, hd, hp⟩ := hp
    rw [Document.leavesOfFields_str] at hnames
    obtain ⟨hfirst, hrest⟩ := List.forall_mem_append.1 hnames
    rw [List.forall_mem_map] at hfirst
    obtain ⟨e, he⟩ := List.exists_mem_of_ne_nil _ (Document.leaves_ne_nil d hd hf.1)
    obtain ⟨s, rfl⟩ := hfirst e he name List.mem_cons_self
    refine ⟨⟨s, rfl⟩, writable_of_leaves hP d hd hf.1 fun e he name hname => ?_,
      writableFields_of_leaves hP rest hp hf.2 hrest⟩
    exact hfirst e he name (List.mem_cons_of_mem _ hname)

end

theorem read_print {d : Document} (hd : Writable d) (indent : Option Int) {ending : String}
    (h : ∀ c ∈ ending.toList, isSpace c = true) : read (print indent d ++ ending) = .ok d := by
  have htext : (print indent d ++ ending).toList =
      write (indent.map Int.toNat) 0 d ++ ending.toList := by
    rw [print, String.toList_append, String.toList_ofList]
  rw [read, htext, readChars_write hd _ h]
  rfl

theorem isBlankText_print {c d : Document} (h : d.outermost? = some c) (indent : Option Int)
    (ending : String) : Text.isBlankText (print indent d ++ ending) = false := by
  have hbracket : ∃ bracket cs, write (indent.map Int.toNat) 0 d = bracket :: cs ∧
      Text.isBlank bracket = false := by
    match d with
    | .scalar s => cases h
    | .list [] | .map [] => exact ⟨_, _, by rw [write], rfl⟩
    | .list (d :: rest) | .map ((k, d) :: rest) => exact ⟨_, _, by rw [write]; rfl, rfl⟩
  obtain ⟨bracket, cs, hw, hblank⟩ := hbracket
  rw [Text.isBlankText, print, String.toList_append, String.toList_ofList, hw]
  simp [hblank]

end Json

namespace Context

open CommandLine

/-- Whatever loads as the context is printed as the text of its document. -/
theorem run_read {c : Context} {d : Document} (hd : c.document = .ok d) {w : World}
    {source : String} {choices : Choices} (hc : w.load source choices = .ok c)
    (indent : Option Int) :
    ((Command.read source choices indent false).run w).outcome =
      .printed (Json.print indent d ++ "\n") := by
  have hmap : c.document.mapError Failure.fault = .ok d := mapError_ok.2 hd
  have hrun : runRead w source choices indent false = .ok (Json.print indent d) := by
    rw [runRead, hc]
    change (c.document.mapError Failure.fault >>= fun document => _) = _
    rw [hmap]
    rfl
  rw [Command.run, hrun]
  rfl

/-- A context whose tree is accepted and holds no floating-point numbers and no halves of surrogate
pairs is printed, with any indentation, as a text that is read back. The tree that is read stores
the leaves of the context at their paths, null in every gap of an array, and nothing else; and it is
printed as the same text again. -/
theorem print_reload {c : Context} {source : Option String}
    (hvalid : c.tree.validate source = .ok c.tree) (hleaf : ∀ e ∈ c.tree.entries, e.2.Plain)
    (hnames : ∀ p ∈ c.tree.keys, ∀ name, .key name ∈ p.segments → name.IsString)
    (indent : Option Int) :
    ∃ d u, c.document = .ok d ∧
      (∀ w from_ choices, w.load from_ choices = .ok c →
        ((Command.read from_ choices indent false).run w).outcome =
          .printed (Json.print indent d ++ "\n")) ∧
      (∀ ending, (∀ ch ∈ ending.toList, Json.isSpace ch = true) → ∀ j,
        ((Grammar.json.parse (Json.print indent d ++ ending)).start j).1 = .ok u) ∧
      (∀ p v, u.get? p = some v ↔ c.tree.get? p = some v ∨ v = .null ∧ c.tree.Gap p) ∧
      ∀ origins, (Context.mk u origins).document = .ok d := by
  have hw := (Tree.validate_ok_iff.1 hvalid).2
  have hnull : Leaf.Plain .null := ⟨trivial, nofun, nofun⟩
  obtain ⟨d, hd, hproper, hfilled, hleaves⟩ := hw.nested_leaves hnull hleaf
  obtain ⟨u, hu, -⟩ := Document.flatten_proper (fun _ h => h.1) hproper
  obtain ⟨o, ho⟩ := Document.exists_outermost hproper fun v hv => by
    rcases (hleaves [] v).1 hv with hroot | ⟨-, place, i, n, hroot, -⟩
    · exact hw.rootFree (OrderedMap.mem_keys_of_mem (OrderedMap.get?_eq_some_iff.1 hroot))
    · simpa [Path.index] using congrArg Path.segments hroot
  have hwritable : Json.Writable d := by
    refine Json.writable_of_leaves (fun _ h => h.exact) d hproper hfilled fun e he name hname => ?_
    rcases (hleaves _ _).1 ((Document.mem_leaves d hproper).1 he) with hstored | ⟨-, hgap⟩
    · exact hnames _ (OrderedMap.mem_keys_of_mem (OrderedMap.get?_eq_some_iff.1 hstored)) name hname
    · obtain ⟨q, hq, hname⟩ := hgap.exists_key hname
      exact hnames q hq name hname
  refine ⟨d, u, hd, fun w from_ choices hc => run_read hd hc indent, fun ending hending j => ?_,
    fun p v => ?_, fun origins => ?_⟩
  · refine Grammar.parse_of_read (Json.isBlankText_print ho indent ending) ?_ j
    rw [Grammar.read, Json.read_print hwritable indent hending, ← hu]
    rfl
  · rw [Document.get?_flatten (fun _ h => h.1) hproper hu, hleaves]
  · exact Document.nested_flatten_filled (fun _ h => h.1) hproper hfilled ho hu

def sparse : Context := ⟨OrderedMap.ofList [(⟨[.key "a", .index 2]⟩, .str "x")], .empty⟩

theorem print_reload_sparse :
    sparse.tree.validate none = .ok sparse.tree ∧ (∀ e ∈ sparse.tree.entries, e.2.Plain) ∧
      (∀ p ∈ sparse.tree.keys, ∀ name, .key name ∈ p.segments → name.IsString) ∧
      ∃ d u, sparse.document = .ok d ∧
        Json.print none d ++ "\n" = "\x7b\"a\": [null, null, \"x\"]\x7d\n" ∧
        ((Grammar.json.parse (Json.print none d ++ "\n")).start {}).1 = .ok u ∧
        u.get? ⟨[.key "a", .index 1]⟩ = some .null ∧
        u.get? ⟨[.key "a", .index 2]⟩ = some (.str "x") := by
  have hvalid : sparse.tree.validate none = .ok sparse.tree := rfl
  have hleaf : ∀ e ∈ sparse.tree.entries, e.2.Plain := by
    intro e he
    rw [List.mem_singleton.1 he]
    exact ⟨trivial, nofun, fun s hs => ⟨"x", (Leaf.str.inj hs).symm⟩⟩
  have hnames : ∀ p ∈ sparse.tree.keys, ∀ name, .key name ∈ p.segments → name.IsString := by
    intro p hp name hname
    rw [List.mem_singleton.1 hp] at hname
    exact ⟨"a", by simpa using hname⟩
  have hend : ∀ ch ∈ "\n".toList, Json.isSpace ch = true := List.forall_mem_singleton.2 rfl
  obtain ⟨d, u, hd, -, hread, hget, -⟩ := print_reload hvalid hleaf hnames none
  refine ⟨hvalid, hleaf, hnames, d, u, hd, ?_, hread "\n" hend {}, ?_, ?_⟩
  · cases hd
    rfl
  · refine (hget _ _).2 (.inr ⟨rfl, ⟨[.key "a"]⟩, 1, 2, rfl, by decide, ?_, ?_⟩)
    · exact ⟨_, List.mem_singleton_self _, List.prefix_refl _⟩
    · intro q hq
      rw [List.mem_singleton.1 hq]
      decide
  · exact (hget _ _).2 (.inl rfl)

end Context

end LayeredConfig
