import LayeredConfig.Proofs.Outcome
import LayeredConfig.Proofs.Placeholder.Lookups

/-!
# Strict and lenient resolving

`resolveText_modes`: lenient resolving always yields a text. Strict resolving yields the same text,
or stops at a placeholder that lenient resolving leaves as it is written. More names that are set
can only make strict resolving succeed. The text need not be a template: both modes, and both
environments, take the same steps through it until one of them stops.
-/

namespace LayeredConfig

def Environment.CoveredBy (e f : Environment) : Prop :=
  ∀ name, e.isSet name = true → f.isSet name = true

namespace Placeholder

variable {environment e f : Environment} {cs body : List Char} {left : Nat}

-- ---------------------------------------------------------------------------
-- Two modes
-- ---------------------------------------------------------------------------

/-- How strict resolving ends where lenient resolving yields `r`: with the same, or at a name
without a value whose placeholder is left in the text. -/
def Follows (environment : Environment) (r : Resolved) : Except Missing Resolved → Prop
  | .ok s => s = r
  | .error m => value? environment m.name = none ∧ ['$', '{'] <:+: r.text

section

variable {r : Resolved} {x y : Except Missing Resolved}

theorem Follows.after (h : Follows environment r x) (cs : List Char) :
    Follows environment (r.after cs) (x.map (·.after cs)) := by
  cases x with
  | ok s => exact congrArg (·.after cs) h
  | error m => exact ⟨h.1, h.2.trans (List.suffix_append cs r.text).isInfix⟩

theorem Follows.bind {here later : Resolved} (hhere : Follows environment here x)
    (hlater : Follows environment later y) :
    Follows environment ⟨here.text ++ later.text, here.tokens + 1 + later.tokens⟩ (do
      let here ← x
      let later ← y
      return ⟨here.text ++ later.text, here.tokens + 1 + later.tokens⟩) := by
  cases x with
  | error m => exact ⟨hhere.1, hhere.2.trans (List.prefix_append here.text later.text).isInfix⟩
  | ok s =>
    obtain rfl : s = here := hhere
    cases y with
    | error m => exact ⟨hlater.1, hlater.2.trans (List.suffix_append s.text later.text).isInfix⟩
    | ok s =>
      obtain rfl : s = later := hlater
      rfl

theorem Follows.mapError (h : Follows environment r x) (left : Nat) :
    Follows environment r (x.mapError ({ · with left })) := by
  cases x with
  | ok s => exact h
  | error m => exact h

end

theorem replacement_follows (left : Nat)
    (hdefault : ∀ default, (nameAndDefault body).2 = some default →
      ∃ r, resolveChars environment .lenient default = .ok r ∧
        Follows environment r (resolveChars environment .strict default)) :
    ∃ r, replacement environment .lenient body left = .ok r ∧
      Follows environment r (replacement environment .strict body left) := by
  unfold replacement
  split
  · exact ⟨_, rfl, rfl⟩
  · rename_i hinner
    obtain ⟨r, hr, hfollows⟩ := hdefault _ hinner
    exact ⟨r, by rw [hr]; rfl, hfollows.mapError left⟩
  · -- lenient resolving leaves the placeholder as it is written
    rename_i hvalue _
    exact ⟨_, rfl, hvalue, (List.prefix_append ['$', '{'] (body ++ ['}'])).isInfix⟩

theorem resolveChars_follows (environment : Environment) (cs : List Char) :
    ∃ r, resolveChars environment .lenient cs = .ok r ∧
      Follows environment r (resolveChars environment .strict cs) := by
  induction cs using resolving_induction with
  | nil => exact ⟨⟨[], 0⟩, by simp only [resolveChars], by simp only [resolveChars, Follows]⟩
  | unclosed rest hn ih =>
    obtain ⟨r, hr, hfollows⟩ := ih
    refine ⟨r.after ['$', '{'], ?_, ?_⟩
    · rw [resolveChars_unclosed hn, hr]
      rfl
    · rw [resolveChars_unclosed hn]
      exact Follows.after hfollows _
  | placeholder rest n hn ihdefault ih =>
    obtain ⟨here, hhere, hfollows⟩ := replacement_follows (rest.length + 2) ihdefault
    obtain ⟨later, hlater, hfollowsLater⟩ := ih
    refine ⟨⟨here.text ++ later.text, here.tokens + 1 + later.tokens⟩, ?_, ?_⟩
    · rw [resolveChars_placeholder hn, hhere, hlater]
      rfl
    · rw [resolveChars_placeholder hn]
      exact hfollows.bind hfollowsLater
  | plain c rest hopen ih =>
    obtain ⟨r, hr, hfollows⟩ := ih
    refine ⟨r.after [c], ?_, ?_⟩
    · rw [resolveChars_cons hopen, hr]
      rfl
    · rw [resolveChars_cons hopen]
      exact Follows.after hfollows _

-- ---------------------------------------------------------------------------
-- Two environments
-- ---------------------------------------------------------------------------

theorem value?_eq_none_of_coveredBy (h : e.CoveredBy f) {name : String}
    (hf : value? f name = none) : value? e name = none := by
  unfold value? at hf ⊢
  split
  · rfl
  · rename_i hname
    rw [if_neg hname] at hf
    have hset := h name
    rw [Environment.isSet, Environment.isSet, hf] at hset
    exact Option.not_isSome_iff_eq_none.1 fun hsome => Bool.false_ne_true (hset hsome)

theorem replacement_strict_ok (h : e.CoveredBy f)
    (hdefault : ∀ default, (nameAndDefault body).2 = some default →
      (∃ r, resolveChars e .strict default = .ok r) → ∃ r, resolveChars f .strict default = .ok r)
    (hr : ∃ r, replacement e .strict body left = .ok r) :
    ∃ r, replacement f .strict body left = .ok r := by
  unfold replacement at hr ⊢
  split
  · exact ⟨_, rfl⟩
  · rename_i hnone hinner
    rw [value?_eq_none_of_coveredBy h hnone, hinner] at hr
    obtain ⟨r, hr⟩ := hr
    obtain ⟨s, hs⟩ := hdefault _ hinner ⟨r, mapError_ok.1 hr⟩
    exact ⟨s, mapError_ok.2 hs⟩
  · rename_i hnone hinner
    rw [value?_eq_none_of_coveredBy h hnone, hinner] at hr
    obtain ⟨r, hr⟩ := hr
    cases hr

theorem resolveChars_strict_ok (h : e.CoveredBy f) (cs : List Char)
    (hr : ∃ r, resolveChars e .strict cs = .ok r) : ∃ r, resolveChars f .strict cs = .ok r := by
  induction cs using resolving_induction with
  | nil => exact ⟨⟨[], 0⟩, by simp only [resolveChars]⟩
  | unclosed rest hn ih =>
    obtain ⟨r, hr⟩ := hr
    rw [resolveChars_unclosed hn] at hr
    obtain ⟨s, hs, -⟩ := map_ok.1 hr
    obtain ⟨t, ht⟩ := ih ⟨s, hs⟩
    exact ⟨_, by rw [resolveChars_unclosed hn]; exact map_ok.2 ⟨t, ht, rfl⟩⟩
  | placeholder rest n hn ihdefault ih =>
    obtain ⟨r, hr⟩ := hr
    rw [resolveChars_placeholder hn] at hr
    obtain ⟨here, hhere, hr⟩ := bind_ok.1 hr
    obtain ⟨later, hlater, -⟩ := bind_ok.1 hr
    obtain ⟨s, hs⟩ := replacement_strict_ok h ihdefault ⟨here, hhere⟩
    obtain ⟨t, ht⟩ := ih ⟨later, hlater⟩
    exact ⟨_, by rw [resolveChars_placeholder hn, hs, ht]; rfl⟩
  | plain c rest hopen ih =>
    obtain ⟨r, hr⟩ := hr
    rw [resolveChars_cons hopen] at hr
    obtain ⟨s, hs, -⟩ := map_ok.1 hr
    obtain ⟨t, ht⟩ := ih ⟨s, hs⟩
    exact ⟨_, by rw [resolveChars_cons hopen]; exact map_ok.2 ⟨t, ht, rfl⟩⟩

-- ---------------------------------------------------------------------------
-- Texts
-- ---------------------------------------------------------------------------

theorem value?_eq_none_iff {name : String} :
    value? e name = none ↔ name = "" ∨ e.value? name = none := by
  unfold value?
  by_cases hname : name = ""
  · simp [hname]
  · simp [hname]

/-- Lenient resolving never fails. Strict resolving ends with the same, or names a placeholder
whose name is empty or not set, and an opening is left in what lenient resolving yields. Where it
succeeds, it does so in every environment that sets the same names and perhaps more. -/
theorem resolveText_modes (text : String) (environment : Environment) :
    ∃ r, resolveText text environment .lenient = .ok r ∧
      (∀ s, resolveText text environment .strict = .ok s → s = r) ∧
      (∀ e, resolveText text environment .strict = .error e →
        ∃ name line, e = .unresolvedPlaceholder name line ∧
          (name = "" ∨ environment.value? name = none) ∧ ['$', '{'] <:+: r.text) ∧
      ∀ more, environment.CoveredBy more →
        (∃ s, resolveText text environment .strict = .ok s) →
        ∃ s, resolveText text more .strict = .ok s := by
  obtain ⟨r, hr, hfollows⟩ := resolveChars_follows environment text.toList
  refine ⟨r, mapError_ok.2 hr, fun s hs => ?_, fun e he => ?_, fun more hmore ⟨s, hs⟩ => ?_⟩
  · rw [mapError_ok.1 hs] at hfollows
    exact hfollows
  · obtain ⟨m, hm, rfl⟩ := mapError_error.1 he
    rw [hm] at hfollows
    exact ⟨_, _, rfl, value?_eq_none_iff.1 hfollows.1, hfollows.2⟩
  · obtain ⟨t, ht⟩ := resolveChars_strict_ok hmore text.toList ⟨s, mapError_ok.1 hs⟩
    exact ⟨t, mapError_ok.2 ht⟩

end Placeholder

end LayeredConfig
