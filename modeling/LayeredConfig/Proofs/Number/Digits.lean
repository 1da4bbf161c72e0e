import LayeredConfig.Number.Integer
import Mathlib.Data.List.Induction
import Mathlib.Tactic.IntervalCases

/-!
# Digits read back

`ofDigits_toDigits`: the digits that a number is written with denote that number, in every base up
to sixteen. With it come the facts that readers ask of decimal digits: they are ASCII digits, and
their number bounds the value.
-/

namespace LayeredConfig.Text

-- ---------------------------------------------------------------------------
-- Single digits
-- ---------------------------------------------------------------------------

theorem hexValue?_digitChar {d : Nat} (h : d < 16) : hexValue? (Nat.digitChar d) = some d := by
  interval_cases d <;> rfl

theorem isDigit_iff {c : Char} : isDigit c = true ↔ 48 ≤ c.toNat ∧ c.toNat ≤ 57 := by
  rw [isDigit, Bool.and_eq_true, decide_eq_true_iff, decide_eq_true_iff]
  exact Iff.rfl

theorem isDigit_of_mem_toDigits {n : Nat} {c : Char} (h : c ∈ Nat.toDigits 10 n) :
    isDigit c = true := by
  have := Nat.isDigit_of_mem_toDigits (by decide) (Nat.le_refl 10) h
  rw [Char.isDigit, Bool.and_eq_true, decide_eq_true_iff, decide_eq_true_iff] at this
  exact isDigit_iff.2 this

theorem hexValue?_of_isDigit {c : Char} (h : isDigit c = true) :
    ∃ d, d < 10 ∧ hexValue? c = some d := by
  have hc := isDigit_iff.1 h
  refine ⟨c.toNat - 48, by omega, ?_⟩
  rw [hexValue?, if_pos h]
  rfl

-- ---------------------------------------------------------------------------
-- Runs of digits
-- ---------------------------------------------------------------------------

theorem ofDigits_append (b : Nat) (ds : List Nat) (d : Nat) :
    ofDigits b (ds ++ [d]) = ofDigits b ds * b + d := by
  simp [ofDigits]

theorem ofDigits_toDigits {b : Nat} (h : 1 < b) (h' : b ≤ 16) (n : Nat) :
    ofDigits b ((Nat.toDigits b n).filterMap hexValue?) = n := by
  induction n using Nat.strongRecOn with
  | ind n ih =>
    have hd (d : Nat) (hd : d < b) : [Nat.digitChar d].filterMap hexValue? = [d] := by
      simp [hexValue?_digitChar (Nat.lt_of_lt_of_le hd h')]
    rw [Nat.toDigits_eq_if h]
    split
    · rename_i hn
      simp [hd n hn, ofDigits]
    · rename_i hn
      have hlt : n / b < n := Nat.div_lt_self (by omega) h
      rw [List.filterMap_append, hd _ (Nat.mod_lt _ (by omega)), ofDigits_append, ih _ hlt]
      exact Nat.div_add_mod' n b

theorem hexValue?_of_mem_toDigits {b : Nat} (h : 1 < b) (h' : b ≤ 16) {n : Nat} {c : Char}
    (hc : c ∈ Nat.toDigits b n) : ∃ d, hexValue? c = some d := by
  induction n using Nat.strongRecOn with
  | ind n ih =>
    have hd (d : Nat) (hd : d < b) : hexValue? (Nat.digitChar d) = some d :=
      hexValue?_digitChar (Nat.lt_of_lt_of_le hd h')
    rw [Nat.toDigits_eq_if h] at hc
    split at hc
    · rename_i hn
      cases List.mem_singleton.1 hc
      exact ⟨n, hd n hn⟩
    · rename_i hn
      rcases List.mem_append.1 hc with hc | hc
      · exact ih (n / b) (Nat.div_lt_self (by omega) h) hc
      · cases List.mem_singleton.1 hc
        exact ⟨n % b, hd _ (Nat.mod_lt _ (by omega))⟩

theorem ofDigits_filterMap {cs : List Char} (h : ∀ c ∈ cs, isDigit c = true) :
    ofDigits 10 (cs.filterMap hexValue?) = Nat.ofDigitChars 10 cs 0 := by
  suffices hfrom : ∀ n, (cs.filterMap hexValue?).foldl (fun n d => n * 10 + d) n =
      Nat.ofDigitChars 10 cs n from hfrom 0
  induction cs with
  | nil => exact fun n => rfl
  | cons c cs ih =>
    intro n
    have hc : hexValue? c = some (c.toNat - '0'.toNat) := by
      rw [hexValue?, if_pos (h c List.mem_cons_self)]
    rw [List.filterMap_cons_some hc, List.foldl_cons, Nat.ofDigitChars_cons, Nat.mul_comm 10]
    exact ih (fun d hd => h d (List.mem_cons_of_mem _ hd)) _

theorem ofDigits_zeros (b k : Nat) (ds : List Nat) :
    ofDigits b (List.replicate k 0 ++ ds) = ofDigits b ds := by
  induction k with
  | zero => rfl
  | succ k ih =>
    rw [← ih, List.replicate_succ, ofDigits, List.cons_append, List.foldl_cons, Nat.zero_mul]
    rfl

theorem ofDigits_lt {b : Nat} {ds : List Nat} (h : ∀ d ∈ ds, d < b) :
    ofDigits b ds < b ^ ds.length := by
  induction ds using List.reverseRecOn with
  | nil => simp [ofDigits]
  | append_singleton ds d ih =>
    have hd : d < b := h d (by simp)
    have hds := ih fun e he => h e (List.mem_append_left _ he)
    rw [ofDigits_append, List.length_append, List.length_singleton, Nat.pow_succ]
    calc ofDigits b ds * b + d < (ofDigits b ds + 1) * b := by rw [Nat.add_mul]; omega
      _ ≤ b ^ ds.length * b := Nat.mul_le_mul_right b hds

theorem ofDigits_lt_pow {cs : List Char} (h : cs.all isDigit = true) :
    ofDigits 10 (cs.filterMap hexValue?) < 10 ^ cs.length := by
  have hlt : ∀ d ∈ cs.filterMap hexValue?, d < 10 := by
    intro d hd
    obtain ⟨c, hc, hv⟩ := List.mem_filterMap.1 hd
    obtain ⟨e, he, hce⟩ := hexValue?_of_isDigit (List.all_eq_true.1 h c hc)
    cases hv.symm.trans hce
    exact he
  calc ofDigits 10 (cs.filterMap hexValue?) < 10 ^ (cs.filterMap hexValue?).length :=
        ofDigits_lt hlt
    _ ≤ 10 ^ cs.length := Nat.pow_le_pow_right (by decide) (List.length_filterMap_le _ _)

end LayeredConfig.Text
