import LayeredConfig.Proofs.Placeholder.Meaning
import LayeredConfig.Proofs.Text.Scan

/-!
# What resolving looks up

`resolve_congr`: resolving asks an environment only for names that occur in the text itself, so two
environments that agree on those resolve it alike. Values are never asked about: they are inserted
as they are. The text is followed in the steps of the resolver, whatever stands in it.
-/

namespace LayeredConfig

def Environment.AgreesOn (e f : Environment) (cs : List Char) : Prop :=
  ∀ name, name ≠ "" → name.toList <:+: cs → e.value? name = f.value? name

theorem Environment.AgreesOn.mono {e f : Environment} {cs part : List Char} (h : e.AgreesOn f cs)
    (hpart : part <:+: cs) : e.AgreesOn f part :=
  fun name hname hin => h name hname (hin.trans hpart)

namespace Placeholder

variable {environment e f : Environment} {mode : ResolveMode} {rest cs body : List Char} {n : Nat}

-- ---------------------------------------------------------------------------
-- The steps of the resolver
-- ---------------------------------------------------------------------------

theorem getElem?_bodyLength? {depth : Nat} (h : bodyLength? depth cs = some n) :
    cs[n]? = some '}' := by
  induction depth, cs using scan_induction generalizing n with
  | nil depth => cases h
  | opening depth rest ih =>
    rw [bodyLength?_open, Option.map_eq_some_iff] at h
    obtain ⟨m, hm, rfl⟩ := h
    exact ih hm
  | last rest =>
    cases (h : some 0 = some n)
    rfl
  | closing depth rest ih =>
    rw [bodyLength?_close, Option.map_eq_some_iff] at h
    obtain ⟨m, hm, rfl⟩ := h
    exact ih hm
  | plain depth c rest ho hc ih =>
    rw [bodyLength?_cons depth ho hc, Option.map_eq_some_iff] at h
    obtain ⟨m, hm, rfl⟩ := h
    exact ih hm

theorem take_bodyLength? (h : bodyLength? 0 rest = some n) :
    rest.take (n + 1) = rest.take n ++ ['}'] := by
  rw [List.take_add_one, getElem?_bodyLength? h]
  rfl

theorem resolveChars_unclosed (h : bodyLength? 0 rest = none) :
    resolveChars environment mode ('$' :: '{' :: rest) =
      (resolveChars environment mode rest).map (·.after ['$', '{']) := by
  rw [resolveChars]
  split
  · rfl
  · rename_i n hn
    cases h.symm.trans hn

theorem resolveChars_placeholder (h : bodyLength? 0 rest = some n) :
    resolveChars environment mode ('$' :: '{' :: rest) = (do
      let here ← replacement environment mode (rest.take n) (rest.length + 2)
      let after ← resolveChars environment mode (rest.drop (n + 1))
      return ⟨here.text ++ after.text, here.tokens + 1 + after.tokens⟩) := by
  have henclosed : '$' :: '{' :: rest.take (n + 1) = enclosed (rest.take n) := by
    rw [take_bodyLength? h]
    rfl
  rw [resolveChars]
  split
  · rename_i hnone
    cases h.symm.trans hnone
  · rename_i m hm
    cases h.symm.trans hm
    simp only [replacement, henclosed]
    split
    · rename_i hvalue
      simp only [hvalue]
      rfl
    · rename_i hvalue hdefault
      simp only [hvalue, hdefault]
    · rename_i hvalue hdefault
      simp only [hvalue, hdefault]
      cases mode <;> rfl

/-- Texts as the resolver takes them: an opening that is never closed, a placeholder with perhaps a
default in it, or any other character, and then the rest. -/
@[elab_as_elim]
theorem resolving_induction {motive : List Char → Prop} (nil : motive [])
    (unclosed : ∀ rest, bodyLength? 0 rest = none → motive rest → motive ('$' :: '{' :: rest))
    (placeholder : ∀ rest n, bodyLength? 0 rest = some n →
      (∀ default, (nameAndDefault (rest.take n)).2 = some default → motive default) →
      motive (rest.drop (n + 1)) → motive ('$' :: '{' :: rest))
    (plain : ∀ c rest, ¬ ['$', '{'] <+: c :: rest → motive rest → motive (c :: rest))
    (cs : List Char) : motive cs := by
  induction hlength : cs.length using Nat.strong_induction_on generalizing cs with
  | _ length ih =>
    subst hlength
    cases cs with
    | nil => exact nil
    | cons c rest =>
      by_cases hopen : ['$', '{'] <+: c :: rest
      · obtain ⟨inside, heq⟩ := hopen
        have hcs : c :: rest = '$' :: '{' :: inside := heq.symm
        rw [hcs] at ih ⊢
        cases hn : bodyLength? 0 inside with
        | none =>
          refine unclosed _ hn (ih _ ?_ _ rfl)
          simp only [List.length_cons]
          omega
        | some n =>
          refine placeholder _ n hn (fun default hdefault => ih _ ?_ _ rfl) (ih _ ?_ _ rfl)
          · have hshort := length_default_lt hdefault
            simp only [List.length_take, List.length_cons] at hshort ⊢
            omega
          · simp only [List.length_drop, List.length_cons]
            omega
      · exact plain c rest hopen (ih _ (by simp) _ rfl)

-- ---------------------------------------------------------------------------
-- Names
-- ---------------------------------------------------------------------------

theorem nameAndDefault_fst_within (body : List Char) :
    (nameAndDefault body).1.toList <:+: body := by
  simp only [nameAndDefault, String.toList_ofList]
  exact (Text.trim_within _).trans (Text.cut_fst_starts ':' body).isInfix

theorem nameAndDefault_snd_within {default : List Char}
    (h : (nameAndDefault body).2 = some default) : default <:+: body :=
  (Text.cut_snd_ends h).isInfix

theorem value?_congr {name : String} (h : name ≠ "" → e.value? name = f.value? name) :
    value? e name = value? f name := by
  unfold value?
  split
  · rfl
  · rename_i hname
    exact h fun heq => hname (heq ▸ rfl)

-- ---------------------------------------------------------------------------
-- Two environments
-- ---------------------------------------------------------------------------

theorem replacement_congr (left : Nat) (h : e.AgreesOn f body)
    (hdefault : ∀ default, (nameAndDefault body).2 = some default →
      resolveChars e mode default = resolveChars f mode default) :
    replacement e mode body left = replacement f mode body left := by
  have hvalue : value? e (nameAndDefault body).1 = value? f (nameAndDefault body).1 :=
    value?_congr fun hname => h _ hname (nameAndDefault_fst_within body)
  unfold replacement
  rw [hvalue]
  split
  · rfl
  · rename_i hinner
    rw [hdefault _ hinner]
  · rfl

theorem resolveChars_congr (h : e.AgreesOn f cs) :
    resolveChars e mode cs = resolveChars f mode cs := by
  induction cs using resolving_induction with
  | nil => simp only [resolveChars]
  | unclosed rest hn ih =>
    have hrest : rest <:+: '$' :: '{' :: rest := (List.suffix_append ['$', '{'] rest).isInfix
    rw [resolveChars_unclosed hn, resolveChars_unclosed hn, ih (h.mono hrest)]
  | placeholder rest n hn ihdefault ih =>
    have hrest : rest <:+: '$' :: '{' :: rest := (List.suffix_append ['$', '{'] rest).isInfix
    have hbody : rest.take n <:+: '$' :: '{' :: rest :=
      (List.take_prefix n rest).isInfix.trans hrest
    have hafter : rest.drop (n + 1) <:+: '$' :: '{' :: rest :=
      (List.drop_suffix (n + 1) rest).isInfix.trans hrest
    have hhere : replacement e mode (rest.take n) (rest.length + 2) =
        replacement f mode (rest.take n) (rest.length + 2) :=
      replacement_congr _ (h.mono hbody) fun default hdefault => ihdefault default hdefault
        (h.mono ((nameAndDefault_snd_within hdefault).trans hbody))
    rw [resolveChars_placeholder hn, resolveChars_placeholder hn, hhere, ih (h.mono hafter)]
  | plain c rest hopen ih =>
    rw [resolveChars_cons hopen, resolveChars_cons hopen,
      ih (h.mono (List.suffix_cons c rest).isInfix)]

theorem resolve_congr {text : String} {options : Options} (h : e.AgreesOn f text.toList) :
    resolve text options e = resolve text options f := by
  have htext : resolveText text e options.mode = resolveText text f options.mode := by
    simp only [resolveText, resolveChars_congr h]
  simp only [resolve, htext]

end Placeholder

end LayeredConfig
