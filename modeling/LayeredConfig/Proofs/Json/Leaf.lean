import LayeredConfig.Json.Print
import LayeredConfig.Json.Read
import LayeredConfig.Proofs.Json.String
import LayeredConfig.Proofs.Number.Integer
import LayeredConfig.Proofs.Text.Scan

/-!
# JSON leaves read back

`takeValue_leaf`: a leaf that is written is read back, unless it is a floating-point number. What
follows it must not be taken for more of it, which matters for numbers only.
-/

namespace LayeredConfig

/-- A leaf that a JSON text gives back: anything but a floating-point number or a text with halves
of surrogate pairs, two of which may be read as one character. -/
def Leaf.Exact : Leaf → Prop
  | .float _ => False
  | .int n => n.natAbs < 10 ^ Integer.digitLimit
  | .str s => s.IsString
  | _ => True

namespace Json

open Text

-- ---------------------------------------------------------------------------
-- Numbers
-- ---------------------------------------------------------------------------

/-- A rest that does not go on with a number that ends before it. -/
def Ends (rest : List Char) : Prop :=
  ∀ c, rest.head? = some c → isDigit c = false ∧ c ≠ '.' ∧ c ≠ 'e' ∧ c ≠ 'E'

theorem takeFraction_of_ends {rest : List Char} (h : Ends rest) :
    takeFraction rest = ([], rest) := by
  unfold takeFraction
  split
  · exact absurd rfl (h '.' rfl).2.1
  · rfl

theorem takeExponent_of_ends {rest : List Char} (h : Ends rest) :
    takeExponent rest = ([], rest) := by
  cases rest with
  | nil => rfl
  | cons c rest =>
    obtain ⟨-, -, he, hE⟩ := h c rfl
    simp [takeExponent, he, hE]

theorem exists_toDigits (n : Nat) : ∃ c ds, Nat.toDigits 10 n = c :: ds ∧ isDigit c = true := by
  obtain ⟨c, ds, hds⟩ := List.exists_cons_of_ne_nil (Nat.toDigits_ne_nil (n := n) (b := 10))
  exact ⟨c, ds, hds, isDigit_of_mem_toDigits (hds ▸ List.mem_cons_self)⟩

theorem eq_nil_of_toDigits {n : Nat} {ds : List Char} (h : Nat.toDigits 10 n = '0' :: ds) :
    ds = [] := by
  by_contra hne
  have hdigits : ds.all isDigit = true := by
    refine List.all_eq_true.2 fun c hc => isDigit_of_mem_toDigits (n := n) ?_
    exact h ▸ List.mem_cons_of_mem _ hc
  have hvalue : ofDigits 10 (ds.filterMap hexValue?) = n := by
    have hzero : hexValue? '0' = some 0 := rfl
    have hn := ofDigits_toDigits (b := 10) (by decide) (by decide) n
    rw [h, List.filterMap_cons_some hzero] at hn
    rwa [← ofDigits_zeros 10 1]
  have hlt : n < 10 ^ ds.length := hvalue ▸ ofDigits_lt_pow hdigits
  have hle := (Nat.length_toDigits_le_iff (by decide) (List.length_pos_iff.2 hne)).2 hlt
  rw [h, List.length_cons] at hle
  omega

theorem takeWhole_toDigits (n : Nat) {rest : List Char} (h : Ends rest) :
    takeWhole (Nat.toDigits 10 n ++ rest) = (Nat.toDigits 10 n, rest) := by
  have hbody (c : Char) (hc : c ∈ Nat.toDigits 10 n) : isDigit c = true :=
    isDigit_of_mem_toDigits hc
  have hrest (c : Char) (hc : rest.head? = some c) : isDigit c = false := (h c hc).1
  unfold takeWhole
  split
  · rename_i tail heq
    -- a leading zero is the whole number
    obtain ⟨c, ds, hds, -⟩ := exists_toDigits n
    rw [hds, List.cons_append] at heq
    cases heq
    cases eq_nil_of_toDigits hds
    rw [hds]
    rfl
  · rw [takeWhile_body hbody hrest, dropWhile_body hbody hrest]

theorem takeNumber_digits {cs sign digits rest : List Char} {n : Int}
    (hcs : cs = sign ++ (digits ++ rest)) (hsign : sign = [] ∨ sign = ['-'])
    (hdigits : ∀ c ∈ digits, isDigit c = true) (hne : digits ≠ [])
    (hwhole : takeWhole (digits ++ rest) = (digits, rest)) (h : Ends rest)
    (hread : Integer.read 10 (sign ++ digits) = .ok n) : takeNumber cs = .ok (.int n, rest) := by
  have hempty : digits.isEmpty = false := Bool.eq_false_iff.2 (mt List.isEmpty_iff.1 hne)
  subst hcs
  rcases hsign with rfl | rfl
  · obtain ⟨c, ds, rfl⟩ := List.exists_cons_of_ne_nil hne
    unfold takeNumber
    split
    rename_i heq
    split at heq
    · rename_i hminus
      cases hminus
      exact absurd (hdigits '-' List.mem_cons_self) (by decide)
    · cases heq
      rw [List.cons_append] at hwhole
      rw [List.nil_append] at hread
      simp [hwhole, takeFraction_of_ends h, takeExponent_of_ends h, hread]
  · rw [List.singleton_append] at hread
    simp [takeNumber, hwhole, takeFraction_of_ends h, takeExponent_of_ends h, hempty, hread]

theorem takeNumber_text {n : Int} (hn : n.natAbs < 10 ^ Integer.digitLimit) {rest : List Char}
    (h : Ends rest) : takeNumber ((Integer.text n).toList ++ rest) = .ok (.int n, rest) := by
  have hread := Integer.read_text hn
  rw [Integer.toList_text] at hread ⊢
  refine takeNumber_digits (List.append_assoc _ _ _) ?_ (fun c => isDigit_of_mem_toDigits)
    Nat.toDigits_ne_nil (takeWhole_toDigits _ h) h hread
  unfold Integer.signText
  split
  · exact .inr rfl
  · exact .inl rfl

-- ---------------------------------------------------------------------------
-- Leaves
-- ---------------------------------------------------------------------------

variable {fuel : Nat} {cs rest : List Char}

theorem takeValue_string (s : String) (rest : List Char) :
    takeValue (fuel + 1) (writeString s ++ rest) = .ok (Document.str s, rest) := by
  have htext : writeString s ++ rest = '"' :: (s.toList.flatMap writeChar ++ '"' :: rest) := by
    simp [writeString_string]
  rw [htext, takeValue, takeString_written]
  rfl

/-- A character that no string and no container starts with. -/
def StartsPlain (c : Char) : Prop := c ≠ '"' ∧ c ≠ '[' ∧ c ≠ '{'

theorem takeValue_plain {c : Char} (hc : StartsPlain c) : takeValue (fuel + 1) (c :: cs) =
    match takeWord? (c :: cs) with
    | some (v, rest) => .ok (.leaf v, rest)
    | none => (takeNumber (c :: cs)).map fun r => (.leaf r.1, r.2) := by
  obtain ⟨hq, hl, ho⟩ := hc
  rw [takeValue]
  · cases takeWord? (c :: cs) with
    | some w => rfl
    | none => cases takeNumber (c :: cs) <;> rfl
  · exact List.cons_ne_nil _ _
  · exact fun _ e => hq (List.cons.inj e).1
  · exact fun _ e => ho (List.cons.inj e).1
  · exact fun _ e => hl (List.cons.inj e).1

theorem digit_ne {c : Char} (h : isDigit c = true) {d : Char} (hd : isDigit d = false) : c ≠ d := by
  rintro rfl
  rw [h] at hd
  cases hd

theorem startsPlain_digit {c : Char} (h : isDigit c = true) : StartsPlain c :=
  ⟨digit_ne h rfl, digit_ne h rfl, digit_ne h rfl⟩

theorem takeWord?_digit {c : Char} (h : isDigit c = true) (cs : List Char) :
    takeWord? (c :: cs) = none ∧ takeWord? ('-' :: c :: cs) = none := by
  have hne {d : Char} (hd : isDigit d = false) : d ≠ c := (digit_ne h hd).symm
  have hnone {cs : List Char} (h : ∀ w ∈ words, ¬ w.1.isPrefixOf cs = true) : takeWord? cs = none :=
    Option.map_eq_none_iff.2 (List.find?_eq_none.2 h)
  constructor
  · refine hnone ?_
    simp [words, hne (d := 'n') rfl, hne (d := 't') rfl, hne (d := 'f') rfl, hne (d := 'N') rfl,
      hne (d := 'I') rfl, hne (d := '-') rfl]
  · refine hnone ?_
    simp [words, hne (d := 'I') rfl]

theorem takeValue_int {n : Int} (hn : n.natAbs < 10 ^ Integer.digitLimit) (h : Ends rest) :
    takeValue (fuel + 1) ((Integer.text n).toList ++ rest) = .ok (Document.int n, rest) := by
  have hread := takeNumber_text hn h
  obtain ⟨c, ds, hds, hc⟩ := exists_toDigits n.natAbs
  rw [Integer.toList_text, hds] at hread ⊢
  unfold Integer.signText at hread ⊢
  split
  · rw [if_pos ‹_›] at hread
    simp only [List.nil_append, List.cons_append] at hread ⊢
    have hminus : StartsPlain '-' := ⟨by decide, by decide, by decide⟩
    rw [takeValue_plain hminus, (takeWord?_digit hc _).2, hread]
    rfl
  · rw [if_neg ‹_›] at hread
    simp only [List.nil_append, List.cons_append] at hread ⊢
    rw [takeValue_plain (startsPlain_digit hc), (takeWord?_digit hc _).1, hread]
    rfl

theorem takeValue_leaf {v : Leaf} (hv : v.Exact) (h : Ends rest) :
    takeValue (fuel + 1) (writeLeaf v ++ rest) = .ok (Document.leaf v, rest) := by
  cases v with
  | null => rfl
  | bool b => cases b <;> rfl
  | int n => exact takeValue_int hv h
  | float x => exact hv.elim
  | str s =>
    obtain ⟨s, rfl⟩ := hv
    exact takeValue_string s rest

/-- A character that no space, no end of an array and no mark of a byte order is taken for. -/
def Opens (c : Char) : Prop := isSpace c = false ∧ c ≠ ']' ∧ c ≠ '\ufeff'

theorem opens_digit {c : Char} (h : isDigit c = true) : Opens c := by
  refine ⟨?_, digit_ne h rfl, digit_ne h rfl⟩
  simp [isSpace, digit_ne h (d := ' ') rfl, digit_ne h (d := '\t') rfl,
    digit_ne h (d := '\n') rfl, digit_ne h (d := '\r') rfl]

theorem exists_writeLeaf {v : Leaf} (hv : v.Exact) :
    ∃ c cs, writeLeaf v = c :: cs ∧ Opens c := by
  cases v with
  | null => exact ⟨_, _, rfl, rfl, by decide⟩
  | bool b => cases b <;> exact ⟨_, _, rfl, rfl, by decide⟩
  | int n =>
    obtain ⟨c, ds, hds, hc⟩ := exists_toDigits n.natAbs
    rw [writeLeaf, Integer.toList_text, hds, Integer.signText]
    split
    · exact ⟨'-', _, rfl, rfl, by decide⟩
    · exact ⟨c, _, rfl, opens_digit hc⟩
  | float x => exact hv.elim
  | str s => exact ⟨_, _, rfl, rfl, by decide⟩

end Json

end LayeredConfig
