import LayeredConfig.Proofs.Context.Defaults
import LayeredConfig.Proofs.Context.Keys
import LayeredConfig.Proofs.Number.Integer

/-!
# Exact and coercing getters

`load_getters`: a coercing getter answers whatever the exact one of its kind does, and both fail
alike where the key leads to no leaf or to null. A leaf has one kind, so of text, whole number and
truth value a key gives at most one. What a whole number or a truth value is rendered as reads back
as that value, with any blanks around it.
-/

namespace LayeredConfig

namespace Leaf

variable {α : Type} {before after : String}

/-- Whatever the one reader makes of a leaf, the other makes of it, too. -/
def Widens (exact coercing : Leaf → Option α) : Prop :=
  ∀ v a, exact v = some a → coercing v = some a

theorem string_widens : Widens string? toString? := by
  intro v a h
  cases v with
  | str s => exact h
  | _ => cases h

theorem int_widens : Widens int? toInt? := by
  intro v a h
  cases v with
  | int n => exact h
  | _ => cases h

theorem float_widens : Widens float? toFloat? := by
  intro v a h
  cases v with
  | float x => exact h
  | int n => exact h
  | _ => cases h

theorem bool_widens : Widens bool? toBool? := by
  intro v a h
  cases v with
  | bool b => exact h
  | _ => cases h

theorem kind_of_string? (v : Leaf) (s : Text) (h : v.string? = some s) : v.kind = .string := by
  cases v with
  | str s => rfl
  | _ => cases h

theorem kind_of_int? (v : Leaf) (n : Int) (h : v.int? = some n) : v.kind = .int := by
  cases v with
  | int n => rfl
  | _ => cases h

theorem kind_of_bool? (v : Leaf) (b : Bool) (h : v.bool? = some b) : v.kind = .bool := by
  cases v with
  | bool b => rfl
  | _ => cases h

theorem toInt?_padded {n : Int} (hn : (Leaf.int n).Fits) (hbefore : Text.isBlankText before = true)
    (hafter : Text.isBlankText after = true) :
    (Leaf.str (before ++ Integer.text n ++ after)).toInt? = some n := by
  simp only [toInt?, Text.legible_append, Text.legible_ofString]
  rw [Integer.read_trim_text hn.natAbs_lt (List.all_eq_true.1 hbefore) (List.all_eq_true.1 hafter)]
  rfl

theorem toBool?_padded (b : Bool) (hbefore : Text.isBlankText before = true)
    (hafter : Text.isBlankText after = true) :
    (Leaf.str (before ++ (if b then "true" else "false" : Text) ++ after)).toBool? = some b := by
  have hword : ∀ word ∈ ["true", "false"],
      Text.trim (Text.legible (before ++ word ++ after)) = word.toList := by
    intro word hword
    simp only [Text.legible_append, Text.legible_ofString]
    refine Text.trim_padded (List.all_eq_true.1 hbefore) (List.all_eq_true.1 hafter) ?_ ?_
    · revert word
      decide
    · revert word
      decide
  cases b with
  | true =>
    rw [if_pos rfl, toBool?, hword "true" (by simp)]
    rfl
  | false =>
    rw [if_neg (by decide), toBool?, hword "false" (by simp)]
    rfl

end Leaf

namespace Context

variable {α β : Type} {c : Context} {key : Text} {v : Leaf} {a : α} {b : β} {e : Failure}
  {expected expected' : Kind} {read exact coercing : Leaf → Option α} {other : Leaf → Option β}

theorem getWith_ok_iff :
    c.getWith expected read key = .ok a ↔ ∃ v, c.lookup key = .ok v ∧ read v = some a := by
  rw [getWith, bind_ok]
  refine exists_congr fun v => and_congr_right fun _ => ?_
  cases read v with
  | some b => exact pure_ok.trans (Option.some_inj).symm
  | none =>
    refine iff_of_false (fun h => ?_) fun h => ?_
    · cases h
    · cases h

theorem getWith_widens (h : Leaf.Widens exact coercing)
    (ha : c.getWith expected exact key = .ok a) : c.getWith expected coercing key = .ok a := by
  obtain ⟨v, hv, hread⟩ := getWith_ok_iff.1 ha
  exact getWith_ok_iff.2 ⟨v, hv, h v a hread⟩

theorem getWith_exclusive (hread : ∀ v a, read v = some a → v.kind = expected)
    (hother : ∀ v b, other v = some b → v.kind = expected') (hne : expected ≠ expected')
    (ha : c.getWith expected read key = .ok a) : c.getWith expected' other key ≠ .ok b := by
  intro hb
  obtain ⟨v, hv, hva⟩ := getWith_ok_iff.1 ha
  obtain ⟨w, hw, hwb⟩ := getWith_ok_iff.1 hb
  cases hv.symm.trans hw
  exact hne ((hread v a hva).symm.trans (hother v b hwb))

theorem getWith_mismatch (h : c.lookup key = .ok v) (hread : read v = none) :
    c.getWith expected read key = .error (.config (.typeMismatch key expected.name v)) := by
  rw [getWith, h]
  simp only [bind, Except.bind, hread]
  rfl

theorem lookup_absent {p : Path} (hp : Path.read key = .ok p) (h : p ∉ c.tree.keys) :
    c.lookup key = .error (.config (.pathNotFound key)) := by
  rw [lookup, hp]
  simp only [bind, Except.bind, OrderedMap.get?_eq_none_iff.2 h]
  rfl

theorem refuses_null (h : c.lookup key = .ok .null) :
    c.Refuses key fun kind => .config (.typeMismatch key kind.name .null) := by
  constructor <;> exact getWith_mismatch h rfl

/-- How the exact and the coercing getters stand to each other at a key. -/
structure GettersAgree (c : Context) (key : Text) : Prop where
  string : ∀ s, c.getString key = .ok s → c.parseString key = .ok s
  int : ∀ n, c.getInt key = .ok n → c.parseInt key = .ok n
  float : ∀ x, c.getFloat key = .ok x → c.parseFloat key = .ok x
  bool : ∀ b, c.getBool key = .ok b → c.parseBool key = .ok b
  malformed : ∀ e, Path.read key = .error e → c.Refuses key fun _ => e
  absent : ∀ p, Path.read key = .ok p → p ∉ c.tree.keys →
    c.Refuses key fun _ => .config (.pathNotFound key)
  null : c.lookup key = .ok .null →
    c.Refuses key fun kind => .config (.typeMismatch key kind.name .null)
  stringOrInt : ∀ s n, c.getString key = .ok s → c.getInt key ≠ .ok n
  stringOrBool : ∀ s b, c.getString key = .ok s → c.getBool key ≠ .ok b
  intOrBool : ∀ n b, c.getInt key = .ok n → c.getBool key ≠ .ok b

theorem gettersAgree (c : Context) (key : Text) : c.GettersAgree key where
  string _ := getWith_widens Leaf.string_widens
  int _ := getWith_widens Leaf.int_widens
  float _ := getWith_widens Leaf.float_widens
  bool _ := getWith_widens Leaf.bool_widens
  malformed _ h := refuses_of_lookup (lookup_error h)
  absent _ hp h := refuses_of_lookup (lookup_absent hp h)
  null := refuses_null
  stringOrInt _ _ := getWith_exclusive Leaf.kind_of_string? Leaf.kind_of_int? (by decide)
  stringOrBool _ _ := getWith_exclusive Leaf.kind_of_string? Leaf.kind_of_bool? (by decide)
  intOrBool _ _ := getWith_exclusive Leaf.kind_of_int? Leaf.kind_of_bool? (by decide)

end Context

/-- At every key of a loaded context, and of every context that overrides make of it, each coercing
getter answers what the exact one of its kind answers, and both fail with the same error at a
malformed or absent key; at a null they all fail for their kind. At most one of the exact getters
for text, whole numbers and truth values answers. Where a whole number or a truth value is stored, a
context that stores its rendered text in its place, with any blanks around it, gives it back. -/
theorem load_getters {l : Loader} {source : Source} {j : Journal} {c : Context}
    (h : ((l.load source).start j).1 = .ok c) (calls : List (List (Text × Graph)))
    (key : Text) :
    let now := calls.foldl Context.overrideOrKeep c
    now.GettersAgree key ∧
    (∀ n, now.lookup key = .ok (.int n) → ∃ s, now.parseString key = .ok s ∧
      ∀ before after, Text.isBlankText before = true → Text.isBlankText after = true →
        ∀ d : Context, d.lookup key = .ok (.str (before ++ s ++ after)) →
          d.parseInt key = .ok n) ∧
    ∀ b, now.lookup key = .ok (.bool b) → ∃ s, now.parseString key = .ok s ∧
      ∀ before after, Text.isBlankText before = true → Text.isBlankText after = true →
        ∀ d : Context, d.lookup key = .ok (.str (before ++ s ++ after)) →
          d.parseBool key = .ok b := by
  intro now
  have hnow : now.Sound := Context.foldl_overrideOrKeep_sound (Loader.load_sound ⟨j, h⟩) calls
  refine ⟨now.gettersAgree key, fun n hn => ?_, fun b hb => ?_⟩
  · obtain ⟨p, -, hp⟩ := Context.lookup_ok_iff.1 hn
    have hfits : (Leaf.int n).Fits := hnow.fits _ (OrderedMap.get?_eq_some_iff.1 hp)
    refine ⟨_, Context.getWith_ok_iff.2 ⟨_, hn, rfl⟩, fun before after hbefore hafter d hd => ?_⟩
    exact Context.getWith_ok_iff.2 ⟨_, hd, Leaf.toInt?_padded hfits hbefore hafter⟩
  · refine ⟨_, Context.getWith_ok_iff.2 ⟨_, hb, rfl⟩, fun before after hbefore hafter d hd => ?_⟩
    exact Context.getWith_ok_iff.2 ⟨_, hd, Leaf.toBool?_padded b hbefore hafter⟩

/-- The least whole number, overridden by its text between a tab and a no-break space. -/
theorem load_getters_padded :
    let text := "\x7b\"a\":-9223372036854775808\x7d"
    let padded : Graph := ⟨#[], .scalar (.str "\t-9223372036854775808\u00a0")⟩
    ∃ c, ((textLoader.load (.text text)).start {}).1 = .ok c ∧
      c.lookup "a" = .ok (.int (-9223372036854775808)) ∧
      ∃ d, c.override [("a", padded)] = .ok d ∧ d.parseInt "a" = .ok (-9223372036854775808) := by
  intro text padded
  have hrun : (do
      let c ← Context.ofText text
      let d ← c.override [("a", padded)]
      return (← c.lookup "a", ← c.parseString "a", ← d.lookup "a")) =
      .ok (.int (-9223372036854775808), "-9223372036854775808",
        .str "\t-9223372036854775808\u00a0") := by
    decide +kernel
  simp only [bind_ok, pure_ok, Prod.mk.injEq] at hrun
  obtain ⟨c, hc, d, hd, _, hn, _, hs, _, hpadded, rfl, rfl, rfl⟩ := hrun
  obtain ⟨s, hrendered, hback⟩ := (load_getters hc [] "a").2.1 _ hn
  cases hs.symm.trans hrendered
  exact ⟨c, hc, hn, d, hd, hback "\t" "\u00a0" rfl (by decide) d hpadded⟩

end LayeredConfig
