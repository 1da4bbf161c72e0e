import LayeredConfig.Proofs.Placeholder.Modes

/-!
# Resolving is local

`resolveText_local`: a text whose placeholders all close is resolved without regard to what follows
it, however broken that is, and an opening that never closes is passed over as two plain characters.
The scanner looks ahead for closing braces only, and those it finds it finds in any longer text; so
the steps that it takes through the first part are the ones that it takes through the whole.
-/

namespace LayeredConfig.Placeholder

variable {environment : Environment} {cs first second rest more : List Char} {depth n : Nat}

-- ---------------------------------------------------------------------------
-- Placeholders that close
-- ---------------------------------------------------------------------------

/-- Every placeholder that opens in the characters also closes in them. -/
def ClosesAll (cs : List Char) : Prop :=
  ∀ start, ['$', '{'] <+: cs.drop start → (closingBrace? cs start).isSome = true

theorem isSome_closingBrace? (start : Nat) (h : cs.drop start = '$' :: '{' :: rest) :
    (closingBrace? cs start).isSome = (bodyLength? 0 rest).isSome := by
  rw [closingBrace?_eq h, Option.isSome_map]

theorem closesAll_iff :
    ClosesAll cs ↔ ∀ rest, '$' :: '{' :: rest <:+ cs → (bodyLength? 0 rest).isSome = true := by
  constructor
  · intro h rest hrest
    have hdrop := List.suffix_iff_eq_drop.1 hrest
    rw [← isSome_closingBrace? _ hdrop.symm]
    apply h
    rw [← hdrop]
    exact List.prefix_append ['$', '{'] rest
  · rintro h start ⟨rest, hrest⟩
    have hdrop : cs.drop start = '$' :: '{' :: rest := hrest.symm
    rw [isSome_closingBrace? start hdrop]
    exact h rest (hdrop ▸ List.drop_suffix start cs)

theorem ClosesAll.suffix (h : ClosesAll cs) (hrest : rest <:+ cs) : ClosesAll rest :=
  closesAll_iff.2 fun inside hinside => closesAll_iff.1 h inside (hinside.trans hrest)

instance (cs : List Char) : Decidable (ClosesAll cs) :=
  decidable_of_iff
    (∀ start < cs.length, ['$', '{'] <+: cs.drop start →
      (closingBrace? cs start).isSome = true) <| by
    refine ⟨fun h start hopen => h start ?_ hopen, fun h start _ => h start⟩
    have hlength := hopen.length_le
    simp only [List.length_cons, List.length_drop] at hlength
    omega

theorem bodyLength?_append (h : bodyLength? depth cs = some n) (more : List Char) :
    bodyLength? depth (cs ++ more) = some n := by
  induction depth, cs using scan_induction generalizing n with
  | nil depth => cases h
  | opening depth rest ih =>
    rw [bodyLength?_open, Option.map_eq_some_iff] at h
    obtain ⟨m, hm, rfl⟩ := h
    simp [bodyLength?_open, ih hm]
  | last rest => simpa [bodyLength?] using h
  | closing depth rest ih =>
    rw [bodyLength?_close, Option.map_eq_some_iff] at h
    obtain ⟨m, hm, rfl⟩ := h
    simp [bodyLength?_close, ih hm]
  | plain depth c rest ho hc ih =>
    rw [bodyLength?_cons depth ho hc, Option.map_eq_some_iff] at h
    obtain ⟨m, hm, rfl⟩ := h
    cases rest with
    | nil => cases hm
    | cons d rest =>
      -- the character after this one is there already, so nothing that follows makes an opening
      have hplain (rest : List Char) : ¬ ['$', '{'] <+: c :: d :: rest := by
        rintro ⟨_, heq⟩
        cases heq
        exact ho (List.prefix_append ['$', '{'] _)
      rw [List.cons_append, List.cons_append, bodyLength?_cons depth (hplain _) hc,
        ← List.cons_append, ih hm]
      rfl

-- ---------------------------------------------------------------------------
-- Two parts of a text
-- ---------------------------------------------------------------------------

/-- No opening stands half in the one and half in the other part. -/
def Parted (first second : List Char) : Prop := ¬ (['$'] <:+ first ∧ ['{'] <+: second)

instance (first second : List Char) : Decidable (Parted first second) :=
  inferInstanceAs (Decidable (¬ _))

theorem Parted.suffix (h : Parted first second) (hrest : rest <:+ first) : Parted rest second :=
  fun hseam => h ⟨hseam.1.trans hrest, hseam.2⟩

theorem Parted.not_prefix {c : Char} (h : Parted (c :: rest) second)
    (hopen : ¬ ['$', '{'] <+: c :: rest) : ¬ ['$', '{'] <+: c :: (rest ++ second) := by
  cases rest with
  | nil =>
    rintro hboth
    obtain ⟨rfl, hbrace⟩ := List.cons_prefix_cons.1 hboth
    exact h ⟨List.suffix_refl _, hbrace⟩
  | cons d rest => simpa using hopen

/-- Texts next to each other, as far as they are resolved. -/
def Resolved.append (r s : Resolved) : Resolved := ⟨r.text ++ s.text, r.tokens + s.tokens⟩

theorem replacement_lenient (body : List Char) (left right : Nat) :
    replacement environment .lenient body left = replacement environment .lenient body right := by
  unfold replacement
  split
  · rfl
  · rename_i default _ _
    obtain ⟨r, hr, -⟩ := resolveChars_follows environment default
    simp [hr, Except.mapError]
  · rfl

theorem resolveChars_append {r s : Resolved} (hclosed : ClosesAll first)
    (hparted : Parted first second) (hr : resolveChars environment .lenient first = .ok r)
    (hs : resolveChars environment .lenient second = .ok s) :
    resolveChars environment .lenient (first ++ second) = .ok (r.append s) := by
  induction first using resolving_induction generalizing r with
  | nil =>
    simp only [resolveChars] at hr
    cases hr
    simpa [Resolved.append] using hs
  | unclosed rest hn ih =>
    have hsome := closesAll_iff.1 hclosed rest (List.suffix_refl _)
    simp [hn] at hsome
  | placeholder rest n hn _ ih =>
    have hlength := bodyLength?_lt hn
    have hlater : rest.drop (n + 1) <:+ '$' :: '{' :: rest :=
      (List.drop_suffix (n + 1) rest).trans (List.suffix_append ['$', '{'] rest)
    rw [resolveChars_placeholder hn] at hr
    obtain ⟨here, hhere, hr⟩ := bind_ok.1 hr
    obtain ⟨later, hrest, hr⟩ := bind_ok.1 hr
    cases hr
    have happend := ih (hclosed.suffix hlater) (hparted.suffix hlater) hrest
    rw [List.cons_append, List.cons_append, resolveChars_placeholder (bodyLength?_append hn second),
      List.take_append_of_le_length (by omega), List.drop_append_of_le_length (by omega), happend,
      replacement_lenient _ _ (rest.length + 2), hhere]
    simp [bind, Except.bind, pure, Except.pure, Resolved.append, Nat.add_assoc]
  | plain c rest hopen ih =>
    have hrest : rest <:+ c :: rest := List.suffix_cons c rest
    rw [resolveChars_cons hopen, map_ok] at hr
    obtain ⟨r, hr, rfl⟩ := hr
    rw [List.cons_append, resolveChars_cons (hparted.not_prefix hopen),
      ih (hclosed.suffix hrest) (hparted.suffix hrest) hr]
    simp [Except.map, Resolved.append, Resolved.after]

-- ---------------------------------------------------------------------------
-- Texts
-- ---------------------------------------------------------------------------

theorem exists_resolved (environment : Environment) (text : String) :
    ∃ r, resolveText text environment .lenient = .ok r ∧
      resolveChars environment .lenient text.toList = .ok r := by
  obtain ⟨r, hr, -⟩ := resolveChars_follows environment text.toList
  exact ⟨r, mapError_ok.2 hr, hr⟩

/-- A text whose placeholders all close in it resolves to the same whatever follows it, and so does
what follows, unless an opening stands half in each. An opening that never closes stays as it is
written, and what is behind it resolves as if it were not there. -/
theorem resolveText_local (environment : Environment) :
    (∀ first second : String, ClosesAll first.toList → Parted first.toList second.toList →
      ∃ r s, resolveText first environment .lenient = .ok r ∧
        resolveText second environment .lenient = .ok s ∧
        resolveText (first ++ second) environment .lenient = .ok (r.append s)) ∧
    (∀ rest : String, closingBrace? ("$\x7b" ++ rest).toList 0 = none →
      ∃ r, resolveText rest environment .lenient = .ok r ∧
        resolveText ("$\x7b" ++ rest) environment .lenient = .ok (r.after ['$', '{'])) ∧
    ∀ first rest : String, ClosesAll first.toList →
      closingBrace? ("$\x7b" ++ rest).toList 0 = none →
      ∃ r s, resolveText first environment .lenient = .ok r ∧
        resolveText rest environment .lenient = .ok s ∧
        resolveText (first ++ ("$\x7b" ++ rest)) environment .lenient =
          .ok (r.append (s.after ['$', '{'])) := by
  have hparts (first second : String) (hclosed : ClosesAll first.toList)
      (hparted : Parted first.toList second.toList) :
      ∃ r s, resolveText first environment .lenient = .ok r ∧
        resolveText second environment .lenient = .ok s ∧
        resolveText (first ++ second) environment .lenient = .ok (r.append s) := by
    obtain ⟨r, hr, hr'⟩ := exists_resolved environment first
    obtain ⟨s, hs, hs'⟩ := exists_resolved environment second
    refine ⟨r, s, hr, hs, mapError_ok.2 ?_⟩
    simpa using resolveChars_append hclosed hparted hr' hs'
  have hopen (rest : String) (hnone : closingBrace? ("$\x7b" ++ rest).toList 0 = none) :
      ∃ r, resolveText rest environment .lenient = .ok r ∧
        resolveText ("$\x7b" ++ rest) environment .lenient = .ok (r.after ['$', '{']) := by
    obtain ⟨r, hr, hr'⟩ := exists_resolved environment rest
    refine ⟨r, hr, mapError_ok.2 ?_⟩
    have hn : bodyLength? 0 rest.toList = none := by simpa [closingBrace?] using hnone
    simp [resolveChars_unclosed hn, hr', Except.map]
  refine ⟨hparts, hopen, fun first rest hclosed hnone => ?_⟩
  obtain ⟨s, hs, hs'⟩ := hopen rest hnone
  obtain ⟨r, t, hr, ht, hboth⟩ := hparts first ("$\x7b" ++ rest) hclosed (by simp [Parted])
  cases hs'.symm.trans ht
  exact ⟨r, s, hr, hs, hboth⟩

/-- A default inside a default and a lone dollar sign, and then a typo with a placeholder in it. -/
theorem resolveText_local_typo :
    let environment := Environment.ofList [("Z", "z")]
    let first := "a$\x7bX:$\x7bY:b\x7d\x7d$"
    let rest := "oops $\x7bZ\x7d"
    ClosesAll first.toList ∧ closingBrace? ("$\x7b" ++ rest).toList 0 = none ∧
      resolveText (first ++ ("$\x7b" ++ rest)) environment .lenient =
        .ok ⟨"ab$$\x7boops z".toList, 3⟩ := by
  intro environment first rest
  have hclosed : ClosesAll first.toList := by decide +kernel
  have hnone : closingBrace? ("$\x7b" ++ rest).toList 0 = none := by decide +kernel
  refine ⟨hclosed, hnone, ?_⟩
  obtain ⟨r, s, hr, hs, hboth⟩ := (resolveText_local environment).2.2 first rest hclosed hnone
  have hfirst : resolveText first environment .lenient = .ok ⟨"ab$".toList, 2⟩ := by decide +kernel
  have hrest : resolveText rest environment .lenient = .ok ⟨"oops z".toList, 1⟩ := by
    decide +kernel
  cases hr.symm.trans hfirst
  cases hs.symm.trans hrest
  exact hboth

end LayeredConfig.Placeholder
