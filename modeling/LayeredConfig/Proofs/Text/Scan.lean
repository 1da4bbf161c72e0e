import LayeredConfig.Text.Blank
import LayeredConfig.Text.Scan
import Mathlib.Data.List.TakeWhile

/-!
# Where a scan stops

A scan over some characters that it accepts and a rest that it does not takes exactly the former.
What trimming and cutting leave are pieces of the text.
-/

namespace LayeredConfig.Text

variable {α : Type} {p : α → Bool} {body rest : List α}

theorem takeWhile_body (hb : ∀ c ∈ body, p c = true) (hr : ∀ c, rest.head? = some c → p c = false) :
    (body ++ rest).takeWhile p = body := by
  rw [List.takeWhile_append_of_pos hb]
  cases rest with
  | nil => simp
  | cons c rest => simp [hr c rfl]

theorem dropWhile_body (hb : ∀ c ∈ body, p c = true) (hr : ∀ c, rest.head? = some c → p c = false) :
    (body ++ rest).dropWhile p = rest := by
  rw [List.dropWhile_append_of_pos hb]
  cases rest with
  | nil => rfl
  | cons c rest => simp [hr c rfl]

-- ---------------------------------------------------------------------------
-- Pieces
-- ---------------------------------------------------------------------------

variable {mark : Char} {cs before after : List Char}

theorem trim_starts (cs : List Char) : trim cs <+: trimStart cs := by
  have hback : trimStart (trimStart cs).reverse <:+ (trimStart cs).reverse :=
    List.dropWhile_suffix _
  exact List.reverse_suffix.1 (by simpa [trim] using hback)

theorem trim_within (cs : List Char) : trim cs <:+: cs := by
  have hfront : trimStart cs <:+ cs := List.dropWhile_suffix _
  exact (trim_starts cs).isInfix.trans hfront.isInfix

-- ---------------------------------------------------------------------------
-- Blanks at the ends
-- ---------------------------------------------------------------------------

theorem trim_of_blank (h : ∀ c ∈ cs, isBlank c = true) : trim cs = [] := by
  have hstart : trimStart cs = [] := List.dropWhile_eq_nil_iff.2 h
  rw [trim, hstart]
  rfl

theorem head_trimStart {c : Char} (h : (trimStart cs).head? = some c) : isBlank c = false := by
  have hhead := List.head?_dropWhile_not isBlank cs
  rw [show (cs.dropWhile isBlank).head? = some c from h] at hhead
  exact hhead

theorem trim_padded (hbefore : ∀ c ∈ before, isBlank c = true)
    (hafter : ∀ c ∈ after, isBlank c = true) (hne : cs ≠ []) (h : trim cs = cs) :
    trim (before ++ cs ++ after) = cs := by
  have hfirst : ∀ c, (cs ++ after).head? = some c → isBlank c = false := by
    obtain ⟨rest, hrest⟩ := h ▸ trim_starts cs
    obtain ⟨d, ds, rfl⟩ := List.exists_cons_of_ne_nil hne
    intro c hc
    have hhead : (trimStart (d :: ds)).head? = some c := by
      rw [← hrest]
      simpa using hc
    exact head_trimStart hhead
  have hlast : ∀ c, cs.reverse.head? = some c → isBlank c = false := by
    intro c hc
    rw [← h, trim, List.reverse_reverse] at hc
    exact head_trimStart hc
  have hstart : trimStart (before ++ (cs ++ after)) = cs ++ after := dropWhile_body hbefore hfirst
  have hback : trimStart (after.reverse ++ cs.reverse) = cs.reverse :=
    dropWhile_body (by simpa using hafter) hlast
  rw [List.append_assoc, trim, hstart, List.reverse_append, hback, List.reverse_reverse]

theorem trim_of_unblank (h : ∀ c ∈ cs, isBlank c = false) : trim cs = cs := by
  have hstart {cs : List Char} (h : ∀ c ∈ cs, isBlank c = false) : trimStart cs = cs := by
    refine List.dropWhile_eq_self_iff.2 fun hpos => ?_
    simp [h _ (List.getElem_mem hpos)]
  rw [trim, hstart h, hstart (by simpa using h), List.reverse_reverse]

-- ---------------------------------------------------------------------------
-- Marks
-- ---------------------------------------------------------------------------

theorem splitAt?_isSome_iff {mark cs : List Char} :
    (splitAt? mark cs).isSome = true ↔ mark <:+: cs := by
  induction cs with
  | nil => cases mark <;> simp [splitAt?]
  | cons c rest ih =>
    rw [splitAt?, List.infix_cons_iff, ← ih]
    by_cases h : mark <+: c :: rest
    · simp [h]
    · simp [h, Option.isSome_map]

theorem mentions_iff {mark cs : List Char} : mentions mark cs = true ↔ mark <:+: cs :=
  splitAt?_isSome_iff

theorem cut_fst_starts (mark : Char) (cs : List Char) : (cut mark cs).1 <+: cs := by
  unfold cut
  split
  · exact List.prefix_rfl
  · exact List.takeWhile_prefix _

theorem cut_snd_ends (h : (cut mark cs).2 = some after) : after <:+ cs := by
  unfold cut at h
  split at h
  · cases h
  · rename_i c _ heq
    cases h
    have hdrop : c :: after <:+ cs := heq ▸ List.dropWhile_suffix _
    exact (List.suffix_cons c after).trans hdrop

theorem splitOn_eq (mark : Char) (cs : List Char) : splitOn mark cs = cs.splitOn mark := by
  rw [List.splitOn_eq_splitOnP]
  induction cs with
  | nil => rfl
  | cons c rest ih =>
    rw [splitOn, List.splitOnP_cons_eq_if_modifyHead, ← ih]
    by_cases h : c = mark
    · simp [h]
    · cases hparts : splitOn mark rest with
      | nil => exact absurd (ih ▸ hparts) (List.splitOnP_ne_nil _ _)
      | cons part parts => simp [h]

end LayeredConfig.Text
