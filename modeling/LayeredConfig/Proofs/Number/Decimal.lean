import LayeredConfig.Number.Decimal
import LayeredConfig.Proofs.Number.Integer
import LayeredConfig.Proofs.Text.Scan

/-!
# Numbers with separated digits

Digits with single underscores between them are read as whole numbers in every base, and with a
fraction or an exponent as floating-point numbers.
-/

namespace LayeredConfig

open Text (isDigit hexValue? ofDigits)
open Integer (IsSign)

/-- Characters that `p` accepts, with at most one underscore between two of them. -/
inductive Separated (p : Char → Bool) : List Char → Prop where
  | one {c : Char} (hc : p c = true) : Separated p [c]
  | next {c : Char} {cs : List Char} (hc : p c = true) (h : Separated p cs) : Separated p (c :: cs)
  | spaced {c : Char} {cs : List Char} (hc : p c = true) (h : Separated p cs) :
    Separated p (c :: '_' :: cs)

namespace Separated

variable {p : Char → Bool} {cs : List Char}

theorem head (h : Separated p cs) : ∃ c rest, cs = c :: rest ∧ p c = true := by
  cases h with
  | one hc | next hc _ | spaced hc _ => exact ⟨_, _, rfl, hc⟩

theorem last (h : Separated p cs) : ∃ init c, cs = init ++ [c] ∧ p c = true := by
  induction h with
  | @one c hc => exact ⟨[], c, rfl, hc⟩
  | @next c cs hc h ih =>
    obtain ⟨init, d, rfl, hd⟩ := ih
    exact ⟨c :: init, d, rfl, hd⟩
  | @spaced c cs hc h ih =>
    obtain ⟨init, d, rfl, hd⟩ := ih
    exact ⟨c :: '_' :: init, d, rfl, hd⟩

theorem mem (h : Separated p cs) : ∀ c ∈ cs, (c = '_' || p c) = true := by
  induction h with
  | one hc => simp [hc]
  | next hc _ ih => simpa [hc] using ih
  | spaced hc _ ih => simpa [hc] using ih

theorem mono {q : Char → Bool} (hpq : ∀ c, p c = true → q c = true) (h : Separated p cs) :
    Separated q cs := by
  induction h with
  | one hc => exact .one (hpq _ hc)
  | next hc _ ih => exact .next (hpq _ hc) ih
  | spaced hc _ ih => exact .spaced (hpq _ hc) ih

theorem ascii (hp : ∀ c, p c = true → c.toNat < 128) (h : Separated p cs) :
    ∀ c ∈ cs, c.toNat < 128 := by
  intro c hc
  have hm := h.mem c hc
  rw [Bool.or_eq_true, decide_eq_true_iff] at hm
  rcases hm with rfl | hm
  · decide
  · exact hp c hm

theorem filter (hp : p '_' = false) (h : Separated p cs) :
    cs.filter (· ≠ '_') ≠ [] ∧ ∀ c ∈ cs.filter (· ≠ '_'), p c = true := by
  refine ⟨?_, fun c hc => ?_⟩
  · obtain ⟨c, rest, rfl, hc⟩ := h.head
    have hne : c ≠ '_' := by
      rintro rfl
      rw [hp] at hc
      cases hc
    simp [hne]
  · obtain ⟨hc, hne⟩ := List.mem_filter.1 hc
    have hm := h.mem c hc
    simp only [ne_eq, decide_not, Bool.not_eq_true', decide_eq_false_iff_not] at hne
    simpa [hne] using hm

theorem wellSeparated (hp : p '_' = false) (h : Separated p cs) :
    Integer.wellSeparated cs = true := by
  have hne {c : Char} (hc : p c = true) : c ≠ '_' := by
    rintro rfl
    rw [hp] at hc
    cases hc
  induction h with
  | one hc =>
    rw [Integer.wellSeparated]
    simp [hne hc]
  | next hc h ih =>
    obtain ⟨d, rest, rfl, hd⟩ := h.head
    rw [Integer.wellSeparated] <;> simp [hne hc, hne hd, ih]
  | spaced hc h ih =>
    obtain ⟨d, rest, rfl, hd⟩ := h.head
    rw [Integer.wellSeparated] <;> simp [hne hc, hne hd, ih]

end Separated

-- ---------------------------------------------------------------------------
-- Whole numbers
-- ---------------------------------------------------------------------------

namespace Integer

theorem isDigitOf_underscore (base : Nat) : isDigitOf base '_' = false := by
  have h : hexValue? '_' = none := by decide
  rw [isDigitOf, h]
  rfl

theorem read_separated {base : Nat} {sign marked run : List Char} (hs : IsSign sign)
    (hascii : ∀ c ∈ marked, c.toNat < 128) (hhead : ∃ c rest, marked = c :: rest ∧ isDigit c = true)
    (hmark : dropBaseMark base marked = run) (hrun : Separated (isDigitOf base) run) :
    read base (sign ++ marked) ≠ .error .malformed := by
  rw [read_digits hs hascii hhead hmark hrun.mem
    (hrun.wellSeparated (isDigitOf_underscore base))]
  split <;> nofun

end Integer

-- ---------------------------------------------------------------------------
-- Floating-point numbers
-- ---------------------------------------------------------------------------

namespace Binary64

def bare (cs : List Char) : List Char := cs.filter (· ≠ '_')

theorem dropSeparators_cons {c : Char} (hc : c ≠ '_') (before : Option Char) (rest : List Char) :
    dropSeparators before (c :: rest) = (dropSeparators (some c) rest).map (c :: ·) := by
  rw [dropSeparators]
  exact fun h => hc h

theorem ne_underscore_of_isDigit {c : Char} (hc : isDigit c = true) : c ≠ '_' := by
  rintro rfl
  exact absurd hc (by decide)

/-- Dropping the underscores of these characters never fails, whatever stands around them. -/
def Divided (cs : List Char) : Prop :=
  ∀ before rest, ∃ last, dropSeparators before (cs ++ rest) =
    (dropSeparators last rest).map (bare cs ++ ·)

theorem divided_nil : Divided [] := fun before rest => ⟨before, by simp [bare]⟩

theorem Divided.append {cs ds : List Char} (hc : Divided cs) (hd : Divided ds) :
    Divided (cs ++ ds) := by
  intro before rest
  obtain ⟨middle, hm⟩ := hc before (ds ++ rest)
  obtain ⟨last, hl⟩ := hd middle rest
  refine ⟨last, ?_⟩
  rw [List.append_assoc, hm, hl, Option.map_map]
  simp [bare, Function.comp_def]

theorem Divided.cons {c : Char} {cs : List Char} (hc : c ≠ '_') (hd : Divided cs) :
    Divided (c :: cs) := by
  intro before rest
  obtain ⟨last, hl⟩ := hd (some c) rest
  refine ⟨last, ?_⟩
  rw [List.cons_append, dropSeparators_cons hc, hl, Option.map_map]
  simp [bare, hc, Function.comp_def]

theorem divided_sign {sign : List Char} (h : IsSign sign) : Divided sign := by
  rcases h with rfl | rfl | rfl
  · exact divided_nil
  · exact divided_nil.cons (by decide)
  · exact divided_nil.cons (by decide)

theorem divided_separated {ds : List Char} (h : Separated isDigit ds) : Divided ds := by
  induction h with
  | one hc => exact divided_nil.cons (ne_underscore_of_isDigit hc)
  | next hc h ih => exact ih.cons (ne_underscore_of_isDigit hc)
  | @spaced c cs hc h ih =>
    have hne := ne_underscore_of_isDigit hc
    obtain ⟨d, more, rfl, hd⟩ := h.head
    intro before rest
    obtain ⟨last, hl⟩ := ih (some '_') rest
    refine ⟨last, ?_⟩
    rw [List.cons_append, dropSeparators_cons hne, List.cons_append, dropSeparators, if_pos, hl,
      Option.map_map]
    · simp [bare, hne, Function.comp_def]
    · simp [hc, hd]

theorem Divided.dropSeparators {cs : List Char} (h : Divided cs) :
    dropSeparators none cs = some (bare cs) := by
  obtain ⟨last, hl⟩ := h none []
  simpa [Binary64.dropSeparators] using hl

/-- A fraction of separated digits, or none. -/
def IsFraction (cs : List Char) : Prop :=
  cs = [] ∨ ∃ ds, Separated isDigit ds ∧ cs = '.' :: ds

/-- An exponent of separated digits, or none. -/
def IsExponent (cs : List Char) : Prop :=
  cs = [] ∨ ∃ mark sign ds, (mark = 'e' ∨ mark = 'E') ∧ IsSign sign ∧ Separated isDigit ds ∧
    cs = mark :: (sign ++ ds)

theorem IsFraction.divided {cs : List Char} (h : IsFraction cs) : Divided cs := by
  rcases h with rfl | ⟨ds, hd, rfl⟩
  · exact divided_nil
  · exact (divided_separated hd).cons (by decide)

theorem IsExponent.divided {cs : List Char} (h : IsExponent cs) : Divided cs := by
  rcases h with rfl | ⟨mark, sign, ds, hm, hs, hd, rfl⟩
  · exact divided_nil
  · refine ((divided_sign hs).append (divided_separated hd)).cons ?_
    rcases hm with rfl | rfl <;> decide

theorem bare_append (cs ds : List Char) : bare (cs ++ ds) = bare cs ++ bare ds :=
  List.filter_append cs ds

theorem bare_sign {sign : List Char} (h : IsSign sign) : bare sign = sign := by
  rcases h with rfl | rfl | rfl <;> decide

theorem bare_separated {ds : List Char} (h : Separated isDigit ds) :
    bare ds ≠ [] ∧ ∀ c ∈ bare ds, isDigit c = true :=
  h.filter (by decide)

theorem readExponent_isSome {cs : List Char} (h : IsExponent cs) :
    (readExponent (bare cs)).isSome = true := by
  rcases h with rfl | ⟨mark, sign, ds, hm, hs, hd, rfl⟩
  · rfl
  · obtain ⟨hne, hall⟩ := bare_separated hd
    obtain ⟨c, rest, hc⟩ := List.exists_cons_of_ne_nil hne
    have hbare : bare (mark :: (sign ++ ds)) = mark :: (sign ++ c :: rest) := by
      rw [← List.singleton_append, bare_append, bare_append, bare_sign hs, hc]
      rcases hm with rfl | rfl <;> rfl
    have hcd : isDigit c = true := hall c (hc ▸ List.mem_cons_self)
    have hm' : mark = 'e' ∨ mark = 'E' := hm
    rw [hbare, readExponent, if_pos (by simpa using hm'), Integer.takeSign_append hs hcd]
    have hdigits : (c :: rest).all isDigit = true := List.all_eq_true.2 (hc ▸ hall)
    simp [hdigits]

theorem isSign_ascii {sign : List Char} (h : IsSign sign) : ∀ c ∈ sign, c.toNat < 128 := by
  rcases h with rfl | rfl | rfl
  · exact nofun
  · exact List.forall_mem_singleton.2 (by decide)
  · exact List.forall_mem_singleton.2 (by decide)

theorem IsFraction.ascii {cs : List Char} (h : IsFraction cs) : ∀ c ∈ cs, c.toNat < 128 := by
  rcases h with rfl | ⟨ds, hd, rfl⟩
  · exact nofun
  · exact List.forall_mem_cons.2 ⟨by decide, hd.ascii fun _ => Integer.isDigit_ascii⟩

theorem IsExponent.ascii {cs : List Char} (h : IsExponent cs) : ∀ c ∈ cs, c.toNat < 128 := by
  rcases h with rfl | ⟨mark, sign, ds, hm, hs, hd, rfl⟩
  · exact nofun
  · refine List.forall_mem_cons.2 ⟨?_, List.forall_mem_append.2
      ⟨isSign_ascii hs, hd.ascii fun _ => Integer.isDigit_ascii⟩⟩
    rcases hm with rfl | rfl <;> decide

theorem not_isDigit_head_exponent {cs : List Char} (h : IsExponent cs) {c : Char}
    (hc : (bare cs).head? = some c) : isDigit c = false ∧ c ≠ '.' := by
  rcases h with rfl | ⟨mark, sign, ds, hm, hs, hd, rfl⟩
  · cases hc
  · rcases hm with rfl | rfl
    all_goals
      cases hc
      decide

theorem readMagnitude_isSome {whole fraction exponent : List Char} (negative : Bool)
    (hw : Separated isDigit whole) (hf : IsFraction fraction) (he : IsExponent exponent) :
    (readMagnitude negative (bare whole ++ (bare fraction ++ bare exponent))).isSome = true := by
  obtain ⟨hne, hall⟩ := bare_separated hw
  have hexp : ∀ c, (bare exponent).head? = some c → isDigit c = false :=
    fun c hc => (not_isDigit_head_exponent he hc).1
  rcases hf with rfl | ⟨ds, hd, rfl⟩
  · have hpoint : ∀ rest, bare exponent ≠ '.' :: rest := fun rest h =>
      (not_isDigit_head_exponent he (by rw [h]; rfl)).2 rfl
    have htake : (bare whole ++ bare exponent).takeWhile isDigit = bare whole :=
      Text.takeWhile_body hall hexp
    have hbare : bare [] = [] := rfl
    simp only [readMagnitude, hbare, List.nil_append, htake, List.drop_left]
    simp [hne, readExponent_isSome he]
  · have hbare : bare ('.' :: ds) = '.' :: bare ds := rfl
    have htake : (bare whole ++ '.' :: (bare ds ++ bare exponent)).takeWhile isDigit = bare whole :=
      Text.takeWhile_body hall fun c hc => by
        cases hc
        rfl
    have hdigits := (bare_separated hd).2
    simp only [readMagnitude, hbare, List.cons_append, htake, List.drop_left,
      Text.dropWhile_body hdigits hexp]
    simp [hne, readExponent_isSome he]

theorem last_digit (sign : List Char) {whole fraction exponent : List Char}
    (hw : Separated isDigit whole) (hf : IsFraction fraction) (he : IsExponent exponent) :
    ∃ init d, sign ++ whole ++ fraction ++ exponent = init ++ [d] ∧ isDigit d = true := by
  rcases he with rfl | ⟨mark, s, ds, -, -, hd, rfl⟩
  · rw [List.append_nil]
    rcases hf with rfl | ⟨ds, hd, rfl⟩
    · obtain ⟨init, d, rfl, hlast⟩ := hw.last
      exact ⟨sign ++ init, d, by simp, hlast⟩
    · obtain ⟨init, d, rfl, hlast⟩ := hd.last
      exact ⟨sign ++ whole ++ '.' :: init, d, by simp, hlast⟩
  · obtain ⟨init, d, rfl, hlast⟩ := hd.last
    exact ⟨sign ++ whole ++ fraction ++ mark :: (s ++ init), d, by simp, hlast⟩

theorem read_isSome {sign whole fraction exponent : List Char} (hs : IsSign sign)
    (hw : Separated isDigit whole) (hf : IsFraction fraction) (he : IsExponent exponent) :
    (read (sign ++ whole ++ fraction ++ exponent)).isSome = true := by
  have hdrop := (((divided_sign hs).append (divided_separated hw)).append
    hf.divided).append he.divided |>.dropSeparators
  have hbare : bare (sign ++ whole ++ fraction ++ exponent) =
      sign ++ (bare whole ++ (bare fraction ++ bare exponent)) := by
    simp only [bare_append, bare_sign hs, List.append_assoc]
  obtain ⟨c, rest, hwhole⟩ := List.exists_cons_of_ne_nil (bare_separated hw).1
  have hc : isDigit c = true := (bare_separated hw).2 c (hwhole ▸ List.mem_cons_self)
  have hascii : Integer.toAscii (sign ++ whole ++ fraction ++ exponent) =
      sign ++ whole ++ fraction ++ exponent := by
    refine if_pos (List.all_eq_true.2 fun d hd => decide_eq_true ?_)
    simp only [List.mem_append] at hd
    rcases hd with ((hd | hd) | hd) | hd
    · exact isSign_ascii hs d hd
    · exact hw.ascii (fun _ => Integer.isDigit_ascii) d hd
    · exact hf.ascii d hd
    · exact he.ascii d hd
  have hstart : (sign ++ whole ++ fraction ++ exponent).dropWhile Integer.isAsciiBlank =
      sign ++ whole ++ fraction ++ exponent := by
    obtain ⟨w, more, rfl, hfirst⟩ := hw.head
    simpa only [List.append_assoc, List.cons_append] using Integer.dropWhile_blank_sign hs hfirst
  have hend : ((sign ++ whole ++ fraction ++ exponent).reverse.dropWhile
      Integer.isAsciiBlank).reverse = sign ++ whole ++ fraction ++ exponent := by
    obtain ⟨init, d, hlast, hd⟩ := last_digit sign hw hf he
    rw [hlast, List.reverse_append, List.reverse_singleton, List.singleton_append,
      List.dropWhile_cons_of_neg (by simp [Integer.not_blank_of_isDigit hd]), List.reverse_cons,
      List.reverse_reverse]
  unfold read
  simp only [hascii, hstart, hend, hdrop, hbare]
  rw [hwhole]
  simp only [Option.bind_eq_bind, Option.bind_some, List.cons_append, Integer.takeSign_append hs hc]
  split
  · rfl
  · rfl
  · rfl
  · rw [← List.cons_append, ← hwhole]
    exact readMagnitude_isSome _ hw hf he

end Binary64

end LayeredConfig
