import LayeredConfig.Document.Scalar
import LayeredConfig.Proofs.Number.Digits
import LayeredConfig.Proofs.Text.Scan
import Mathlib.Data.List.TakeWhile

/-!
# Whole numbers read and written

A number that is read from decimal digits is short enough to be written again, and reading what was
written gives the number back.
-/

namespace LayeredConfig.Integer

open Text (isDigit hexValue? ofDigits)

theorem isDigitOf_ten {c : Char} (h : isDigitOf 10 c = true) : isDigit c = true := by
  unfold isDigitOf hexValue? at h
  split at h
  · assumption
  · split at h
    · simp at h
    · split at h <;> simp at h

theorem isDigit_ascii {c : Char} (h : isDigit c = true) : c.toNat < 128 := by
  have := Text.isDigit_iff.1 h
  omega

theorem isDigitOf_ascii {base : Nat} {c : Char} (h : isDigitOf base c = true) :
    c.toNat < 128 := by
  have hle {c d : Char} (h : c ≤ d) : c.toNat ≤ d.toNat := h
  unfold isDigitOf hexValue? at h
  split at h
  · exact isDigit_ascii ‹_›
  · split at h
    · rename_i hc
      rw [Bool.and_eq_true, decide_eq_true_iff, decide_eq_true_iff] at hc
      exact Nat.lt_of_le_of_lt (hle hc.2) (by decide)
    · split at h
      · rename_i hc
        rw [Bool.and_eq_true, decide_eq_true_iff, decide_eq_true_iff] at hc
        exact Nat.lt_of_le_of_lt (hle hc.2) (by decide)
      · cases h

theorem natAbs_lt_of_read {cs : List Char} {n : Int} (h : read 10 cs = .ok n) :
    n.natAbs < 10 ^ digitLimit := by
  unfold read at h
  generalize takeSign _ = sign at h
  simp only at h
  generalize hrun : List.takeWhile _ (dropBaseMark 10 sign.2) = run at h
  split at h
  · cases h
  · split at h
    · cases h
    · split at h
      · cases h
      · rename_i hlength _
        have hall : (run.filter (· ≠ '_')).all isDigit = true := by
          refine List.all_eq_true.2 fun c hc => ?_
          obtain ⟨hc, hne⟩ := List.mem_filter.1 hc
          rw [← hrun] at hc
          have hp := List.mem_takeWhile_imp hc
          simp only [ne_eq, decide_not, Bool.not_eq_true', decide_eq_false_iff_not] at hne
          rw [Bool.or_eq_true, decide_eq_true_iff] at hp
          exact isDigitOf_ten (hp.resolve_left hne)
        have hle : (run.filter (· ≠ '_')).length ≤ digitLimit := by
          simpa using hlength
        have hlt := Text.ofDigits_lt_pow hall
        have hn : n.natAbs = ofDigits 10 ((run.filter (· ≠ '_')).filterMap hexValue?) := by
          cases h
          split <;> simp
        rw [hn]
        exact Nat.lt_of_lt_of_le hlt (Nat.pow_le_pow_right (by decide) hle)

theorem text?_of_lt {n : Int} (h : n.natAbs < 10 ^ digitLimit) : text? n = some (text n) := by
  simp only [text?, Nat.pow_eq, h, if_true]

-- ---------------------------------------------------------------------------
-- Texts that are read
-- ---------------------------------------------------------------------------

theorem wellSeparated_of_digits {cs : List Char} (h : cs ≠ []) (hd : ∀ c ∈ cs, c ≠ '_') :
    wellSeparated cs = true := by
  fun_induction wellSeparated cs with
  | case1 => exact absurd rfl h
  | case2 | case4 => simp at hd
  | case3 => rfl
  | case5 | case6 => simp at hd
  | case7 a c rest _ _ _ ih =>
    exact ih (List.cons_ne_nil _ _) fun d hm => hd d (List.mem_cons_of_mem _ hm)

@[simp] theorem dropBaseMark_ten (cs : List Char) : dropBaseMark 10 cs = cs := by
  unfold dropBaseMark
  split
  · simp [baseLetter?]
  · rfl

theorem not_blank_of_isDigit {c : Char} (h : isDigit c = true) : isAsciiBlank c = false := by
  have hc := Text.isDigit_iff.1 h
  have hle : ¬ c ≤ '\r' := fun hle => by
    have : c.toNat ≤ '\r'.toNat := hle
    have : '\r'.toNat = 13 := rfl
    omega
  have hne : c ≠ ' ' := by
    rintro rfl
    exact absurd hc.1 (by decide)
  simp [isAsciiBlank, hle, hne]

def IsSign (cs : List Char) : Prop := cs = [] ∨ cs = ['+'] ∨ cs = ['-']

theorem takeSign_append {sign rest : List Char} (hs : IsSign sign) {c : Char}
    (hc : isDigit c = true) :
    takeSign (sign ++ c :: rest) = (decide (sign = ['-']), c :: rest) := by
  rcases hs with rfl | rfl | rfl
  · have hplus : c ≠ '+' := by rintro rfl; simp [isDigit] at hc
    have hminus : c ≠ '-' := by rintro rfl; simp [isDigit] at hc
    simp [takeSign, hplus, hminus]
  · rfl
  · rfl

theorem dropWhile_blank_sign {sign rest : List Char} (hs : IsSign sign) {c : Char}
    (hc : isDigit c = true) :
    (sign ++ c :: rest).dropWhile isAsciiBlank = sign ++ c :: rest := by
  rcases hs with rfl | rfl | rfl
  · exact List.dropWhile_cons_of_neg (by simp [not_blank_of_isDigit hc])
  · rfl
  · rfl

/-- A sign, perhaps the mark of the base, and digits with single underscores between them are a
number, unless the digits are decimal and too many. -/
theorem read_digits {base : Nat} {sign marked run : List Char} (hs : IsSign sign)
    (hascii : ∀ c ∈ marked, c.toNat < 128) (hhead : ∃ c rest, marked = c :: rest ∧ isDigit c = true)
    (hmark : dropBaseMark base marked = run)
    (hrun : ∀ c ∈ run, (c = '_' || isDigitOf base c) = true) (hsep : wellSeparated run = true) :
    read base (sign ++ marked) =
      if base = 10 && digitLimit < (run.filter (· ≠ '_')).length then
        .error (.tooLong (run.filter (· ≠ '_')).length)
      else
        let n := ofDigits base ((run.filter (· ≠ '_')).filterMap hexValue?)
        .ok (if sign = ['-'] then -(n : Int) else n) := by
  obtain ⟨c, rest, rfl, hc⟩ := hhead
  have hall : (sign ++ c :: rest).all (·.toNat < 128) = true := by
    rw [List.all_append, Bool.and_eq_true]
    refine ⟨?_, List.all_eq_true.2 fun d hd => decide_eq_true (hascii d hd)⟩
    rcases hs with rfl | rfl | rfl <;> rfl
  have htake : (run.takeWhile fun c => c = '_' || isDigitOf base c) = run :=
    List.takeWhile_eq_self_iff.2 hrun
  unfold read
  rw [toAscii, if_pos hall, dropWhile_blank_sign hs hc, takeSign_append hs hc]
  simp only [hmark, htake, hsep, Bool.not_true, Bool.false_eq_true, if_false, List.drop_length,
    List.all_nil, decide_eq_true_eq]

theorem isDigitOf_of_isDigit {c : Char} (h : isDigit c = true) : isDigitOf 10 c = true := by
  obtain ⟨d, hd, hv⟩ := Text.hexValue?_of_isDigit h
  simp [isDigitOf, hv, hd]

theorem read_decimal {sign digits : List Char} (hs : IsSign sign) (hne : digits ≠ [])
    (hd : ∀ c ∈ digits, isDigit c = true) (hlen : digits.length ≤ digitLimit) :
    read 10 (sign ++ digits) =
      .ok (if sign = ['-'] then -(ofDigits 10 (digits.filterMap hexValue?) : Int)
        else ofDigits 10 (digits.filterMap hexValue?)) := by
  have hunder : ∀ c ∈ digits, c ≠ '_' := by
    rintro _ hc rfl
    exact absurd (hd _ hc) (by decide)
  have hfilter : digits.filter (· ≠ '_') = digits :=
    List.filter_eq_self.2 fun c hc => decide_eq_true (hunder c hc)
  have hhead : ∃ c rest, digits = c :: rest ∧ isDigit c = true := by
    obtain ⟨c, rest, rfl⟩ := List.exists_cons_of_ne_nil hne
    exact ⟨c, rest, rfl, hd c List.mem_cons_self⟩
  rw [read_digits hs (fun c hc => isDigit_ascii (hd c hc)) hhead (dropBaseMark_ten digits)
    (fun c hc => by simp [isDigitOf_of_isDigit (hd c hc)])
    (wellSeparated_of_digits hne hunder), hfilter, if_neg (by simp; omega)]

def signText (n : Int) : List Char := if n < 0 then ['-'] else []

theorem isSign_signText (n : Int) : IsSign (signText n) := by
  unfold signText
  split
  · exact .inr (.inr rfl)
  · exact .inl rfl

theorem toList_text (n : Int) : (text n).toList = signText n ++ Nat.toDigits 10 n.natAbs := by
  unfold text signText
  split <;> simp

theorem read_text {n : Int} (h : n.natAbs < 10 ^ digitLimit) : read 10 (text n).toList = .ok n := by
  have hlen : (Nat.toDigits 10 n.natAbs).length ≤ digitLimit :=
    (Nat.length_toDigits_le_iff (by decide) (by decide)).2 h
  rw [toList_text, read_decimal (isSign_signText n) Nat.toDigits_ne_nil
    (fun c hc => Text.isDigit_of_mem_toDigits hc) hlen,
    Text.ofDigits_toDigits (by decide) (by decide), signText]
  refine congrArg Except.ok ?_
  split
  · rw [if_pos rfl]
    omega
  · rw [if_neg (by decide)]
    omega

theorem isBlank_of_mem_text {n : Int} {c : Char} (h : c ∈ (text n).toList) :
    Text.isBlank c = false := by
  rw [toList_text] at h
  rcases List.mem_append.1 h with h | h
  · unfold signText at h
    split at h
    · cases List.mem_singleton.1 h
      rfl
    · cases h
  · have hc := Text.isDigit_iff.1 (Text.isDigit_of_mem_toDigits h)
    simp [Text.isBlank]
    omega

theorem read_trim_text {n : Int} (h : n.natAbs < 10 ^ digitLimit) {before after : List Char}
    (hbefore : ∀ c ∈ before, Text.isBlank c = true) (hafter : ∀ c ∈ after, Text.isBlank c = true) :
    read 10 (Text.trim (before ++ (text n).toList ++ after)) = .ok n := by
  have hne : (text n).toList ≠ [] := by
    rw [toList_text]
    exact List.append_ne_nil_of_right_ne_nil _ Nat.toDigits_ne_nil
  have htrim : Text.trim (text n).toList = (text n).toList :=
    Text.trim_of_unblank fun _ => isBlank_of_mem_text
  rw [Text.trim_padded hbefore hafter hne htrim, read_text h]

end LayeredConfig.Integer
