import LayeredConfig.Json.Text
import LayeredConfig.Proofs.Number.Digits
import LayeredConfig.Proofs.Outcome

/-!
# JSON strings read back

`takeString_written`: a string of characters that is written is read back as it is, whatever follows
it. A character is read back from the one escape, or from the pair of escapes, that it is written
with.
-/

namespace LayeredConfig.Json

open Text

-- ---------------------------------------------------------------------------
-- Escapes by code
-- ---------------------------------------------------------------------------

/-- The number that the digits of an escape denote. -/
def codeOf (digits : List Char) : Nat := ofDigits 16 (digits.filterMap hexValue?)

variable {cs rest more : List Char} {n m : Nat}

theorem takeCode_digits {ds : List Char} (four : ds.length = 4)
    (h : ∀ c ∈ ds, (hexValue? c).isSome) (rest : List Char) :
    takeCode (ds ++ rest) = some (codeOf ds, rest) := by
  match ds, four with
  | [a, b, c, d], _ =>
    obtain ⟨x, hx⟩ := Option.isSome_iff_exists.1 (h a (by simp))
    obtain ⟨y, hy⟩ := Option.isSome_iff_exists.1 (h b (by simp))
    obtain ⟨z, hz⟩ := Option.isSome_iff_exists.1 (h c (by simp))
    obtain ⟨w, hw⟩ := Option.isSome_iff_exists.1 (h d (by simp))
    simp [takeCode, codeOf, hx, hy, hz, hw]

theorem length_hexDigits {n : Nat} (h : n < 0x10000) : (hexDigits 4 n).length = 4 := by
  have hlength : (Nat.toDigits 16 n).length ≤ 4 :=
    (Nat.length_toDigits_le_iff (by decide) (by decide)).2 h
  simp only [hexDigits, List.length_append, List.length_replicate]
  omega

theorem hexValue?_of_mem_hexDigits {width n : Nat} {c : Char} (h : c ∈ hexDigits width n) :
    ∃ d, hexValue? c = some d := by
  rcases List.mem_append.1 h with h | h
  · cases List.eq_of_mem_replicate h
    exact ⟨0, rfl⟩
  · exact hexValue?_of_mem_toDigits (by decide) (by decide) h

theorem ofDigits_hexDigits (width n : Nat) :
    ofDigits 16 ((hexDigits width n).filterMap hexValue?) = n := by
  have hzero : hexValue? '0' = some 0 := rfl
  rw [hexDigits, List.filterMap_append, List.filterMap_replicate_of_some hzero, ofDigits_zeros]
  exact ofDigits_toDigits (by decide) (by decide) n

theorem takeCode_hexDigits {n : Nat} (h : n < 0x10000) (rest : List Char) :
    takeCode (hexDigits 4 n ++ rest) = some (n, rest) := by
  have hdigits (c : Char) (hc : c ∈ hexDigits 4 n) : (hexValue? c).isSome :=
    Option.isSome_iff_exists.2 (hexValue?_of_mem_hexDigits hc)
  rw [takeCode_digits (length_hexDigits h) hdigits, codeOf, ofDigits_hexDigits]

theorem takeCodeEscape_alone (h : takeCode cs = some (n, rest)) (hrest : rest ≠ [])
    (halone : isHighSurrogate n = false ∨ ∀ next, rest ≠ '\\' :: 'u' :: next) :
    takeCodeEscape cs = .ok (.ofNat n, rest) := by
  simp only [takeCodeEscape, h]
  split
  · cases ‹some _ = none›
  · rename_i heq
    cases heq
    exact absurd rfl hrest
  · rename_i heq
    cases heq
    have hhigh := halone.resolve_right fun hcode => hcode _ rfl
    rw [hhigh, Bool.false_and, if_neg Bool.false_ne_true]
  · rename_i heq
    cases heq
    rfl

/-- An escape with another one behind it: they are the halves of a pair, or the second is left. -/
theorem takeCodeEscape_code {next : List Char} (h : takeCode cs = some (n, '\\' :: 'u' :: next))
    (hnext : takeCode next = some (m, more)) (hmore : more ≠ []) :
    takeCodeEscape cs = .ok (if isHighSurrogate n && isLowSurrogate m then
      (.ofNat (joinSurrogates n m), more) else (.ofNat n, '\\' :: 'u' :: next)) := by
  have hlength : 4 < next.length := by
    unfold takeCode at hnext
    split at hnext
    · simp only [Option.bind_eq_bind, Option.bind_eq_some_iff, pure, Option.some.injEq,
        Prod.mk.injEq] at hnext
      obtain ⟨_, -, _, -, _, -, _, -, -, rfl⟩ := hnext
      simpa using List.length_pos_iff.2 hmore
    · cases hnext
  simp only [takeCodeEscape, h, hnext, hlength, decide_true, Bool.and_true]
  cases isHighSurrogate n <;> cases isLowSurrogate m <;> rfl

theorem takeCodeEscape_pair {high low : Nat} (hhigh : isHighSurrogate high = true)
    (hlow : isLowSurrogate low = true) {rest : List Char} (hrest : rest ≠ []) :
    takeCodeEscape (hexDigits 4 high ++ (escapeUnit low ++ rest)) =
      .ok (.ofNat (joinSurrogates high low), rest) := by
  have hh : high < 0x10000 := by
    simp only [isHighSurrogate, Bool.and_eq_true, decide_eq_true_iff] at hhigh
    omega
  have hl : low < 0x10000 := by
    simp only [isLowSurrogate, Bool.and_eq_true, decide_eq_true_iff] at hlow
    omega
  have hread := takeCodeEscape_code (takeCode_hexDigits hh (escapeUnit low ++ rest))
    (takeCode_hexDigits hl rest) hrest
  rwa [hhigh, hlow, Bool.and_true, if_pos rfl] at hread

-- ---------------------------------------------------------------------------
-- Characters
-- ---------------------------------------------------------------------------

theorem takePoints_escape {start fuel : Nat} {p : CodePoint} {cs rest : List Char}
    (h : takeEscape start cs = .ok (p, rest)) :
    takePoints start (fuel + 1) ('\\' :: cs) =
      (takePoints start fuel rest).map fun r => (p :: r.1, r.2) := by
  rw [takePoints, h]
  change (takePoints start fuel rest >>= fun r => pure (p :: r.1, r.2)) = _
  cases takePoints start fuel rest <;> rfl

theorem takePoints_pair {start fuel high low : Nat} (hhigh : isHighSurrogate high = true)
    (hlow : isLowSurrogate low = true) {rest : List Char} (hrest : rest ≠ []) :
    takePoints start (fuel + 1) (escapeUnit high ++ (escapeUnit low ++ rest)) =
      (takePoints start fuel rest).map
        fun r => (.ofNat (joinSurrogates high low) :: r.1, r.2) :=
  takePoints_escape (takeCodeEscape_pair hhigh hlow hrest)

theorem takePoints_plain {start fuel : Nat} {c : Char} (hq : c ≠ '"') (hb : c ≠ '\\')
    (hc : ¬ c < ' ') (rest : List Char) :
    takePoints start (fuel + 1) (c :: rest) =
      (takePoints start fuel rest).map fun r => (.char c :: r.1, r.2) := by
  rw [takePoints, if_neg hc]
  · cases takePoints start fuel rest <;> rfl
  · exact hq
  · exact hb

theorem not_high_surrogate (c : Char) : isHighSurrogate c.toNat = false := by
  have hvalid := CodePoint.toNat_valid c
  simp only [isHighSurrogate, Bool.and_eq_false_iff, decide_eq_false_iff_not]
  omega

/-- The halves of a pair stand for the character that they are made from. -/
theorem halves {c : Char} (h : 0x10000 ≤ c.toNat) {n : Nat} (hn : c.toNat - 0x10000 = n) :
    isHighSurrogate (0xd800 + n / 0x400) = true ∧ isLowSurrogate (0xdc00 + n % 0x400) = true ∧
      joinSurrogates (0xd800 + n / 0x400) (0xdc00 + n % 0x400) = c.toNat := by
  have hvalid := CodePoint.toNat_valid c
  simp only [isHighSurrogate, isLowSurrogate, Bool.and_eq_true, decide_eq_true_iff]
  unfold joinSurrogates
  omega

theorem takePoints_writeChar (start fuel : Nat) (c : Char) {rest : List Char} (hrest : rest ≠ []) :
    takePoints start (fuel + 1) (writeChar c ++ rest) =
      (takePoints start fuel rest).map fun r => (.char c :: r.1, r.2) := by
  unfold writeChar
  split_ifs with hself hplain hn hr ht hf hb hcode
  · refine takePoints_escape ?_
    rcases (by simpa using hself : c = '"' ∨ c = '\\') with rfl | rfl <;> rfl
  · simp only [Bool.or_eq_true, decide_eq_true_iff, not_or] at hself
    simp only [Bool.and_eq_true, decide_eq_true_iff] at hplain
    exact takePoints_plain hself.1 hself.2 (Char.not_lt.2 hplain.1) rest
  · subst hn
    exact takePoints_escape rfl
  · subst hr
    exact takePoints_escape rfl
  · subst ht
    exact takePoints_escape rfl
  · subst hf
    exact takePoints_escape rfl
  · subst hb
    exact takePoints_escape rfl
  · have hread := takeCodeEscape_alone (takeCode_hexDigits hcode rest) hrest
      (.inl (not_high_surrogate c))
    rw [CodePoint.ofNat_toNat] at hread
    exact takePoints_escape hread
  · obtain ⟨hhigh, hlow, hjoin⟩ := halves (Nat.le_of_not_lt hcode) rfl
    rw [List.append_assoc, takePoints_pair hhigh hlow hrest, hjoin, CodePoint.ofNat_toNat]

-- ---------------------------------------------------------------------------
-- Strings
-- ---------------------------------------------------------------------------

theorem takePoints_written (start : Nat) {fuel : Nat} (cs rest : List Char)
    (hfuel : cs.length < fuel) :
    takePoints start fuel (cs.flatMap writeChar ++ '"' :: rest) = .ok (cs.map .char, rest) := by
  induction cs generalizing fuel with
  | nil =>
    obtain ⟨fuel, rfl⟩ := Nat.exists_eq_succ_of_ne_zero (Nat.ne_of_gt hfuel)
    rfl
  | cons c cs ih =>
    obtain ⟨fuel, rfl⟩ := Nat.exists_eq_succ_of_ne_zero (Nat.ne_of_gt (Nat.zero_lt_of_lt hfuel))
    rw [List.flatMap_cons, List.append_assoc, takePoints_writeChar _ _ _ (by simp),
      ih (Nat.lt_of_succ_lt_succ hfuel)]
    rfl

theorem writeChar_ne_nil (c : Char) : writeChar c ≠ [] := by
  have hunit (n : Nat) : escapeUnit n ≠ [] := List.cons_ne_nil _ _
  unfold writeChar
  split_ifs
  iterate 7 exact List.cons_ne_nil _ _
  · exact hunit _
  · exact List.append_ne_nil_of_left_ne_nil (hunit _) _

theorem length_le_flatMap (cs : List Char) : cs.length ≤ (cs.flatMap writeChar).length := by
  induction cs with
  | nil => exact Nat.le_refl 0
  | cons c cs ih =>
    have := List.length_pos_iff.2 (writeChar_ne_nil c)
    rw [List.flatMap_cons, List.length_append, List.length_cons]
    omega

theorem writeString_string (s : String) :
    writeString s = '"' :: s.toList.flatMap writeChar ++ ['"'] := by
  rw [writeString, ofString_points, List.flatMap_map]
  rfl

theorem takeString_written (s : String) (rest : List Char) :
    takeString (s.toList.flatMap writeChar ++ '"' :: rest) = .ok (s, rest) := by
  have hfuel : s.toList.length < (s.toList.flatMap writeChar ++ '"' :: rest).length + 1 := by
    have := length_le_flatMap s.toList
    rw [List.length_append]
    omega
  rw [takeString, takePoints_written _ _ _ hfuel]
  rfl

end LayeredConfig.Json
