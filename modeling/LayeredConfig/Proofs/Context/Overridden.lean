import LayeredConfig.Proofs.Context.Overrides
import LayeredConfig.Proofs.Failures
import LayeredConfig.Proofs.Load.Sound
import LayeredConfig.Proofs.Load.Steady
import LayeredConfig.Proofs.Path.Grammar

/-!
# Overridden contexts

`load_overridden`: what holds of every context that a program can hold after a load, whichever
overrides it has tried since. One override keeps a context `Sound`, so any number of them does. The
getters fail with lookup errors, unless the key has a position with more digits than are read. Even
the text of a stored path may: a name can look like such a position.
-/

namespace LayeredConfig

open Run

/-- Only lookup errors come out. -/
def OnlyLookup {α : Type} (answer : Except Failure α) : Prop :=
  ∀ e, answer = .error e → e.isLookup = true

theorem OnlyLookup.bind {α β : Type} {x : Except Failure α} {f : α → Except Failure β}
    (hx : OnlyLookup x) (hf : ∀ a, OnlyLookup (f a)) : OnlyLookup (x >>= f) :=
  FailsOnly.bind hx hf

theorem Path.read_onlyLookup {text : Text} (h : ∀ n, ¬ Overlong n text.points) :
    OnlyLookup (read text) := by
  intro f hf
  rcases read_error hf with ⟨n, rfl⟩ | ⟨reason, rfl⟩
  · exact absurd (read_digitsTooMany_iff.1 hf) (h n)
  · rfl

namespace Context

variable {α : Type} {c c' : Context} {key : Text} {f : Failure}

-- ---------------------------------------------------------------------------
-- Overrides
-- ---------------------------------------------------------------------------

theorem leavesOf_fits {values : OrderedMap Path Graph} {t : Tree Leaf}
    (h : leavesOf values = .ok t) : t.Fits := by
  refine foldlM_ok (fun found e t _ hf h => ?_) Tree.fits_empty h
  simp only [bind_ok, pure_ok] at h
  obtain ⟨below, hb, rfl⟩ := h
  exact hf.foldl_insert (e.1 ++ ·) (Graph.flatten_fits hb)

theorem override_sound {values : List (Text × Graph)} (hc : c.Sound)
    (h : c.override values = .ok c') : c'.Sound := by
  obtain ⟨byPath, written, -, hwritten, hshape, rfl⟩ := override_ok.1 h
  exact ⟨hshape, hc.fits.merge (leavesOf_fits hwritten)⟩

/-- The context after an attempt to override: the old one if that fails. -/
def overrideOrKeep (c : Context) (values : List (Text × Graph)) : Context :=
  match c.override values with
  | .ok c' => c'
  | .error _ => c

theorem overrideOrKeep_sound (hc : c.Sound) (values : List (Text × Graph)) :
    (c.overrideOrKeep values).Sound := by
  unfold overrideOrKeep
  split
  · rename_i h
    exact override_sound hc h
  · exact hc

theorem foldl_overrideOrKeep_sound (hc : c.Sound) (calls : List (List (Text × Graph))) :
    (calls.foldl overrideOrKeep c).Sound := by
  induction calls generalizing c with
  | nil => exact hc
  | cons values rest ih => exact ih (overrideOrKeep_sound hc values)

-- ---------------------------------------------------------------------------
-- Use
-- ---------------------------------------------------------------------------

theorem Sound.document_ok (hc : c.Sound) : ∃ d, c.document = .ok d :=
  hc.shaped.nested_ok

-- ---------------------------------------------------------------------------
-- How getters fail
-- ---------------------------------------------------------------------------

theorem lookup_onlyLookup (h : OnlyLookup (Path.read key)) : OnlyLookup (c.lookup key) := by
  refine h.bind fun p => ?_
  split
  · exact failsOnly_pure
  · exact failsOnly_throw.2 rfl

theorem getWith_onlyLookup (h : OnlyLookup (Path.read key)) (expected : Kind)
    (read : Leaf → Option α) : OnlyLookup (c.getWith expected read key) := by
  refine (lookup_onlyLookup h).bind fun v => ?_
  split
  · exact failsOnly_pure
  · exact failsOnly_throw.2 rfl

theorem lookup_error (h : Path.read key = .error f) : c.lookup key = .error f := by
  rw [lookup, h]
  rfl

theorem getWith_lookup_error (h : c.lookup key = .error f) (expected : Kind)
    (read : Leaf → Option α) : c.getWith expected read key = .error f := by
  rw [getWith, h]
  rfl

theorem getWith_error (h : Path.read key = .error f) (expected : Kind) (read : Leaf → Option α) :
    c.getWith expected read key = .error f :=
  getWith_lookup_error (lookup_error h) expected read

/-- No getter fails at the key but with a lookup error. -/
structure OnlyLooksUp (c : Context) (key : Text) : Prop where
  getString : OnlyLookup (c.getString key)
  parseString : OnlyLookup (c.parseString key)
  getInt : OnlyLookup (c.getInt key)
  parseInt : OnlyLookup (c.parseInt key)
  getFloat : OnlyLookup (c.getFloat key)
  parseFloat : OnlyLookup (c.parseFloat key)
  getBool : OnlyLookup (c.getBool key)
  parseBool : OnlyLookup (c.parseBool key)

/-- All getters fail at the key, the exact and the coercing one of a kind alike. -/
structure Refuses (c : Context) (key : Text) (e : Kind → Failure) : Prop where
  getString : c.getString key = .error (e .string)
  parseString : c.parseString key = .error (e .string)
  getInt : c.getInt key = .error (e .int)
  parseInt : c.parseInt key = .error (e .int)
  getFloat : c.getFloat key = .error (e .float)
  parseFloat : c.parseFloat key = .error (e .float)
  getBool : c.getBool key = .error (e .bool)
  parseBool : c.parseBool key = .error (e .bool)

theorem onlyLooksUp (c : Context) (h : ∀ n, ¬ Path.Overlong n key.points) : c.OnlyLooksUp key := by
  constructor <;> exact getWith_onlyLookup (Path.read_onlyLookup h) _ _

theorem refuses_of_lookup (h : c.lookup key = .error f) : c.Refuses key fun _ => f := by
  constructor <;> exact getWith_lookup_error h _ _

theorem refuses_overlong (c : Context) {n : Nat} (h : Path.Overlong n key.points) :
    c.Refuses key fun _ => .fault (.digitsTooMany n) :=
  refuses_of_lookup (lookup_error (Path.read_digitsTooMany_iff.2 h))

/-- A key of one position, written with `n` digits. -/
def ones (n : Nat) : Text := ⟨.char '[' :: ((List.replicate n '1').map .char ++ [.char ']'])⟩

theorem overlong_ones {n : Nat} (h : Integer.digitLimit < n) :
    Path.Overlong n (ones n).points := by
  refine .here (.brackets (fun c hc => ?_) List.length_replicate h)
  rw [List.eq_of_mem_replicate hc]
  rfl

end Context

-- ---------------------------------------------------------------------------
-- From a load on
-- ---------------------------------------------------------------------------

/-- A loaded context, and every context that overrides make of it, describes a document of leaves
that fit, and it can be rebuilt. At the text of a stored path every getter either answers or fails
with a lookup error, unless that text has an overlong position, on the digits of which all of them
fail. -/
theorem load_overridden {l : Loader} {source : Source} {j : Journal} {c : Context}
    (h : ((l.load source).start j).1 = .ok c) (calls : List (List (Text × Graph))) :
    let now := calls.foldl Context.overrideOrKeep c
    now.tree.WellShaped ∧ now.tree.Fits ∧ (∃ d, now.document = .ok d) ∧
      ∀ p ∈ now.tree.keys,
        ((∀ n, ¬ Path.Overlong n p.text.points) → now.OnlyLooksUp p.text) ∧
        ∀ n, Path.Overlong n p.text.points →
          now.Refuses p.text fun _ => .fault (.digitsTooMany n) := by
  intro now
  have hnow : now.Sound := Context.foldl_overrideOrKeep_sound (Loader.load_sound ⟨j, h⟩) calls
  refine ⟨hnow.shaped, hnow.fits, hnow.document_ok,
    fun p _ => ⟨fun hshort => ?_, fun n hlong => ?_⟩⟩
  · exact now.onlyLooksUp hshort
  · exact now.refuses_overlong hlong

-- The first override is refused, as it stores a value above another one.
theorem load_overridden_text :
    let number : Graph := ⟨#[], .scalar (.leaf (.int 2))⟩
    let calls : List (List (Text × Graph)) := [[("[0]", number)], [("[0][1]", number)]]
    ∃ c, Context.ofText "[[1]]\n" = .ok c ∧
      let now := calls.foldl Context.overrideOrKeep c
      (∃ d, now.document = .ok d) ∧ now.getInt "[0][1]" = .ok 2 ∧ now.OnlyLooksUp "[0][1]" := by
  intro number calls
  have hrun : ((Context.ofText "[[1]]\n").map fun c =>
      let now := calls.foldl Context.overrideOrKeep c
      (now.tree.keys, now.getInt "[0][1]")) =
      .ok ([⟨[.index 0, .index 0]⟩, ⟨[.index 0, .index 1]⟩], .ok 2) := by
    decide +kernel
  obtain ⟨c, hc, hnow⟩ := map_ok.1 hrun
  obtain ⟨hkeys, hget⟩ := Prod.mk.inj hnow
  obtain ⟨-, -, hdocument, hgetters⟩ := load_overridden hc calls
  refine ⟨c, hc, hdocument, hget, (hgetters ⟨[.index 0, .index 1]⟩ ?_).1 fun n hlong => ?_⟩
  · rw [hkeys]
    decide
  · exact absurd hlong.lt_length (by decide +kernel)

theorem Tree.wellShaped_of_flat {t : Tree Leaf} (hne : t.keys ≠ [])
    (h : ∀ p ∈ t.keys, ∃ name, p = ⟨[.key name]⟩) : t.WellShaped where
  nonempty := hne
  rootFree hroot := by
    obtain ⟨name, hname⟩ := h _ hroot
    cases hname
  prefixFree p hp q hq hinitial := by
    obtain ⟨name, rfl⟩ := h p hp
    obtain ⟨other, rfl⟩ := h q hq
    exact Path.ext_segments (hinitial.eq_of_length rfl)
  oneKind p hp q hq place s u after further hs hu := by
    obtain ⟨name, rfl⟩ := h p hp
    obtain ⟨other, rfl⟩ := h q hq
    cases place with
    | nil =>
      cases hs
      cases hu
      rfl
    | cons first rest => simp at hs

namespace Context

/-- A mapping with a truth value under a name. -/
def named (name : Text) : Graph :=
  ⟨#[.map [(.str name, .scalar (.leaf (.bool true)))]], .container 0⟩

theorem override_named {c : Context} (hc : c.tree.keys = [⟨[.key "a"]⟩]) (name : Text) :
    ⟨[.key name]⟩ ∈ (c.overrideOrKeep [("", named name)]).tree.keys := by
  let written : Tree Leaf := OrderedMap.empty.insert ⟨[.key name]⟩ (.bool true)
  have hshape : Tree.WellShaped (c.tree.merge written) := by
    have hkeys (p : Path) : p ∈ (c.tree.merge written).keys → ∃ name, p = ⟨[.key name]⟩ := by
      rw [OrderedMap.mem_keys_merge, hc, OrderedMap.mem_keys_insert]
      rintro ((rfl | h) | h)
      · exact ⟨name, rfl⟩
      · cases h
      · exact ⟨"a", List.mem_singleton.1 h⟩
    refine Tree.wellShaped_of_flat ?_ hkeys
    rw [OrderedMap.keys_merge, hc]
    exact List.cons_ne_nil _ _
  have hroot : Path.read "" = .ok Path.root := by decide +kernel
  have hoverride : c.override [("", named name)] = .ok (c.overlay (inMemory written)) := by
    refine override_ok.2 ⟨.singleton Path.root (named name), written, ?_, rfl, hshape, rfl⟩
    rw [readOverrides, hroot]
    rfl
  rw [overrideOrKeep, hoverride]
  exact OrderedMap.mem_keys_merge.2 (.inl (OrderedMap.mem_keys_insert.2 (.inl rfl)))

end Context

/-- The name of a stored path looks like a position with one digit more than are read. -/
theorem load_overridden_bracketed :
    ∃ c, Context.ofText "\x7b\"a\":1\x7d" = .ok c ∧
      let now := c.overrideOrKeep [("", Context.named (Context.ones 4301))]
      ∃ p ∈ now.tree.keys, now.getBool p.text = .error (.fault (.digitsTooMany 4301)) := by
  have hload : ((Context.ofText "\x7b\"a\":1\x7d").map fun c => c.tree.keys) =
      .ok [⟨[.key "a"]⟩] := by
    decide +kernel
  obtain ⟨c, hc, hkeys⟩ := map_ok.1 hload
  refine ⟨c, hc, _, Context.override_named hkeys _, ?_⟩
  have hlong := Context.overlong_ones (n := 4301) (by decide)
  generalize Context.ones 4301 = name at hlong ⊢
  have htext : Path.text ⟨[.key name]⟩ = name := Text.ext (List.append_nil _)
  rw [htext]
  exact (Context.refuses_overlong _ hlong).getBool

end LayeredConfig
