import LayeredConfig.Proofs.Placeholder.Meaning
import Mathlib.Data.Nat.Count
import Mathlib.Order.Interval.Finset.Nat

/-!
# Matching braces by counting

`closingBrace?_least`: the brace that closes a placeholder is the first one up to which as many
braces close as placeholders open, counted from its own opening on. The scanner does not count: it
keeps the depth that it has reached, and passes over both characters of an opening at once. What
opens inside a placeholder therefore closes inside it.
-/

namespace LayeredConfig.Placeholder

variable {text cs rest inner : List Char} {c : Char} {depth start i k m n p : Nat}

def OpensAt (text : List Char) (p : Nat) : Prop := ['$', '{'] <+: text.drop p

def BraceAt (text : List Char) (p : Nat) : Prop := text[p]? = some '}'

instance (text : List Char) : DecidablePred (OpensAt text) :=
  fun p => inferInstanceAs (Decidable (['$', '{'] <+: text.drop p))

instance (text : List Char) : DecidablePred (BraceAt text) :=
  fun p => inferInstanceAs (Decidable (text[p]? = some '}'))

/-- How many placeholders open between two positions, both included. -/
def openings (text : List Char) (first last : Nat) : Nat :=
  ((Finset.Icc first last).filter (OpensAt text)).card

/-- How many closing braces stand between two positions, both included. -/
def braces (text : List Char) (first last : Nat) : Nat :=
  ((Finset.Icc first last).filter (BraceAt text)).card

-- ---------------------------------------------------------------------------
-- Counting along the scan
-- ---------------------------------------------------------------------------

/-- Inside `depth` placeholders around an open one, the brace at position `n` closes that one as far
as the numbers of openings and braces go. -/
def Balances (depth : Nat) (cs : List Char) (n : Nat) : Prop :=
  BraceAt cs n ∧ Nat.count (OpensAt cs) (n + 1) + (depth + 1) = Nat.count (BraceAt cs) (n + 1)

theorem opensAt_iff : OpensAt text p ↔ ∃ rest, text.drop p = '$' :: '{' :: rest :=
  ⟨fun ⟨rest, h⟩ => ⟨rest, h.symm⟩, fun ⟨rest, h⟩ => ⟨rest, h.symm⟩⟩

theorem count_opensAt_cons (c : Char) (rest : List Char) (n : Nat) :
    Nat.count (OpensAt (c :: rest)) (n + 1) =
      Nat.count (OpensAt rest) n + if ['$', '{'] <+: c :: rest then 1 else 0 :=
  Nat.count_succ' _ n

theorem count_braceAt_cons (c : Char) (rest : List Char) (n : Nat) :
    Nat.count (BraceAt (c :: rest)) (n + 1) =
      Nat.count (BraceAt rest) n + if c = '}' then 1 else 0 := by
  have hcount := Nat.count_succ' (BraceAt (c :: rest)) n
  simp only [BraceAt, List.getElem?_cons_zero, Option.some.injEq] at hcount
  exact hcount

theorem not_balances_zero (hc : c ≠ '}') : ¬ Balances depth (c :: rest) 0 :=
  fun h => hc (Option.some.inj h.1)

theorem not_balances_open (hm : m < 2) : ¬ Balances depth ('$' :: '{' :: rest) m := by
  rintro ⟨hbrace, -⟩
  rcases m with _ | _ | m
  · simp [BraceAt] at hbrace
  · simp [BraceAt] at hbrace
  · omega

theorem not_balances_close (hm : m < 1) : ¬ Balances (depth + 1) ('}' :: rest) m := by
  obtain rfl := Nat.lt_one_iff.1 hm
  rintro ⟨-, heven⟩
  simp [count_opensAt_cons, count_braceAt_cons] at heven

theorem balances_open :
    Balances depth ('$' :: '{' :: rest) (n + 2) ↔ Balances (depth + 1) rest n := by
  have hopen : ['$', '{'] <+: '$' :: '{' :: rest := List.prefix_append ['$', '{'] rest
  have hplain : ¬ ['$', '{'] <+: '{' :: rest := by simp
  simp only [Balances, count_opensAt_cons, count_braceAt_cons, if_pos hopen, if_neg hplain]
  refine and_congr Iff.rfl ?_
  rw [if_neg (by decide), if_neg (by decide)]
  omega

theorem balances_close :
    Balances (depth + 1) ('}' :: rest) (n + 1) ↔ Balances depth rest n := by
  have hplain : ¬ ['$', '{'] <+: '}' :: rest := by simp
  simp only [Balances, count_opensAt_cons, count_braceAt_cons, if_neg hplain, if_true]
  refine and_congr Iff.rfl ?_
  omega

theorem balances_cons (ho : ¬ ['$', '{'] <+: c :: rest) (hc : c ≠ '}') :
    Balances depth (c :: rest) (n + 1) ↔ Balances depth rest n := by
  simp only [Balances, count_opensAt_cons, count_braceAt_cons, if_neg ho, if_neg hc]
  exact Iff.rfl

theorem isLeast_add_iff {P Q : Nat → Prop} (hbefore : ∀ m < k, ¬ P m)
    (hfrom : ∀ m, P (m + k) ↔ Q m) :
    IsLeast {n | P n} n ↔ ∃ m, IsLeast {m | Q m} m ∧ m + k = n := by
  constructor
  · rintro ⟨hn, hleast⟩
    have hk : k ≤ n := Nat.le_of_not_lt fun hlt => hbefore n hlt hn
    obtain ⟨m, rfl⟩ := Nat.exists_eq_add_of_le' hk
    refine ⟨m, ⟨(hfrom m).1 hn, fun l hl => ?_⟩, rfl⟩
    exact Nat.le_of_add_le_add_right (hleast ((hfrom l).2 hl))
  · rintro ⟨m, ⟨hm, hleast⟩, rfl⟩
    refine ⟨(hfrom m).2 hm, fun l hl => ?_⟩
    have hk : k ≤ l := Nat.le_of_not_lt fun hlt => hbefore l hlt hl
    obtain ⟨l, rfl⟩ := Nat.exists_eq_add_of_le' hk
    exact Nat.add_le_add_right (hleast ((hfrom l).1 hl)) k

/-- The scanner stops at the first brace that balances the depth it starts from. -/
theorem bodyLength?_eq_some_iff :
    bodyLength? depth cs = some n ↔ IsLeast {n | Balances depth cs n} n := by
  induction depth, cs using scan_induction generalizing n with
  | nil depth =>
    refine iff_of_false (fun h => ?_) fun h => ?_
    · cases h
    · cases h.1.1
  | opening depth rest ih =>
    rw [bodyLength?_open, Option.map_eq_some_iff,
      isLeast_add_iff (fun _ => not_balances_open) fun _ => balances_open]
    simp only [ih]
  | last rest =>
    have hzero : Balances 0 ('}' :: rest) 0 :=
      ⟨rfl, by simp [count_opensAt_cons, count_braceAt_cons]⟩
    have hleast : IsLeast {n | Balances 0 ('}' :: rest) n} 0 := ⟨hzero, fun _ _ => Nat.zero_le _⟩
    rw [bodyLength?, Option.some.injEq]
    exact ⟨fun h => h ▸ hleast, hleast.unique⟩
  | closing depth rest ih =>
    rw [bodyLength?_close, Option.map_eq_some_iff,
      isLeast_add_iff (fun _ => not_balances_close) fun _ => balances_close]
    simp only [ih]
  | plain depth c rest ho hc ih =>
    have hbefore : ∀ m < 1, ¬ Balances depth (c :: rest) m := fun m hm =>
      Nat.lt_one_iff.1 hm ▸ not_balances_zero hc
    rw [bodyLength?_cons depth ho hc, Option.map_eq_some_iff,
      isLeast_add_iff hbefore fun _ => balances_cons ho hc]
    simp only [ih]

-- ---------------------------------------------------------------------------
-- Counting in the whole text
-- ---------------------------------------------------------------------------

/-- A brace up to which, from `start` on, as many braces stand as placeholders open. -/
structure EvensOut (text : List Char) (start i : Nat) : Prop where
  behind : start ≤ i
  brace : BraceAt text i
  even : openings text start i = braces text start i

theorem card_filter_Icc {P Q : Nat → Prop} [DecidablePred P] [DecidablePred Q]
    (h : ∀ k, P (start + k) ↔ Q k) (n : Nat) :
    ((Finset.Icc start (start + n)).filter P).card = Nat.count Q (n + 1) := by
  rw [Nat.count_eq_card_filter_range]
  symm
  refine Finset.card_bij (fun k _ => start + k) (fun k hk => ?_)
    (fun k _ l _ heq => Nat.add_left_cancel heq) fun i hi => ?_
  · rw [Finset.mem_filter, Finset.mem_range] at hk
    rw [Finset.mem_filter, Finset.mem_Icc]
    exact ⟨by omega, (h k).2 hk.2⟩
  · rw [Finset.mem_filter, Finset.mem_Icc] at hi
    obtain ⟨k, rfl⟩ := Nat.exists_eq_add_of_le hi.1.1
    refine ⟨k, ?_, rfl⟩
    rw [Finset.mem_filter, Finset.mem_range]
    exact ⟨by omega, (h k).1 hi.2⟩

theorem openings_eq (text : List Char) (start n : Nat) :
    openings text start (start + n) = Nat.count (OpensAt (text.drop start)) (n + 1) :=
  card_filter_Icc (fun k => by rw [OpensAt, OpensAt, List.drop_drop]) n

theorem braces_eq (text : List Char) (start n : Nat) :
    braces text start (start + n) = Nat.count (BraceAt (text.drop start)) (n + 1) :=
  card_filter_Icc (fun k => by rw [BraceAt, BraceAt, List.getElem?_drop]) n

theorem evensOut_iff (h : text.drop start = '$' :: '{' :: rest) (n : Nat) :
    EvensOut text start (n + (start + 2)) ↔ Balances 0 rest n := by
  have hposition : n + (start + 2) = start + (n + 2) := by omega
  have hopen : ['$', '{'] <+: '$' :: '{' :: rest := List.prefix_append ['$', '{'] rest
  have hplain : ¬ ['$', '{'] <+: '{' :: rest := by simp
  have hbrace : BraceAt text (start + (n + 2)) ↔ BraceAt rest n := by
    rw [BraceAt, ← List.getElem?_drop, h]
    rfl
  have heven : openings text start (start + (n + 2)) = braces text start (start + (n + 2)) ↔
      Nat.count (OpensAt rest) (n + 1) + (0 + 1) = Nat.count (BraceAt rest) (n + 1) := by
    rw [openings_eq, braces_eq, h]
    simp only [count_opensAt_cons, count_braceAt_cons, if_pos hopen, if_neg hplain]
    rw [if_neg (by decide), if_neg (by decide)]
    omega
  rw [hposition]
  exact ⟨fun ⟨_, hb, he⟩ => ⟨hbrace.1 hb, heven.1 he⟩,
    fun ⟨hb, he⟩ => ⟨Nat.le_add_right .., hbrace.2 hb, heven.2 he⟩⟩

theorem not_evensOut (h : text.drop start = '$' :: '{' :: rest) (hi : i < start + 2) :
    ¬ EvensOut text start i := by
  rintro ⟨hle, hbrace, -⟩
  obtain ⟨k, rfl⟩ := Nat.exists_eq_add_of_le hle
  rw [BraceAt, ← List.getElem?_drop, h] at hbrace
  match k with
  | 0 => cases hbrace
  | 1 => cases hbrace
  | k + 2 => omega

-- ---------------------------------------------------------------------------
-- Placeholders inside others
-- ---------------------------------------------------------------------------

theorem bodyLength?_shallower (h : bodyLength? (depth + 1) cs = some n) :
    ∃ m < n, bodyLength? depth cs = some m := by
  induction depth, cs using scan_induction generalizing n with
  | nil depth => cases h
  | opening depth rest ih =>
    rw [bodyLength?_open, Option.map_eq_some_iff] at h
    obtain ⟨k, hk, rfl⟩ := h
    obtain ⟨m, hlt, hm⟩ := ih hk
    exact ⟨m + 2, by omega, by rw [bodyLength?_open, hm]; rfl⟩
  | last rest =>
    rw [bodyLength?_close, Option.map_eq_some_iff] at h
    obtain ⟨k, -, rfl⟩ := h
    exact ⟨0, Nat.succ_pos k, by rw [bodyLength?]⟩
  | closing depth rest ih =>
    rw [bodyLength?_close, Option.map_eq_some_iff] at h
    obtain ⟨k, hk, rfl⟩ := h
    obtain ⟨m, hlt, hm⟩ := ih hk
    exact ⟨m + 1, by omega, by rw [bodyLength?_close, hm]; rfl⟩
  | plain depth c rest ho hc ih =>
    rw [bodyLength?_cons _ ho hc, Option.map_eq_some_iff] at h
    obtain ⟨k, hk, rfl⟩ := h
    obtain ⟨m, hlt, hm⟩ := ih hk
    exact ⟨m + 1, by omega, by rw [bodyLength?_cons _ ho hc, hm]; rfl⟩

theorem bodyLength?_outermost (h : bodyLength? depth cs = some n) :
    ∃ m ≤ n, bodyLength? 0 cs = some m := by
  induction depth generalizing n with
  | zero => exact ⟨n, Nat.le_refl n, h⟩
  | succ depth ih =>
    obtain ⟨k, hlt, hk⟩ := bodyLength?_shallower h
    obtain ⟨m, hle, hm⟩ := ih hk
    exact ⟨m, by omega, hm⟩

theorem bodyLength?_inside (h : bodyLength? depth cs = some n) (hp : p < n)
    (hopen : cs.drop p = '$' :: '{' :: inner) :
    ∃ m, bodyLength? 0 inner = some m ∧ p + 2 + m < n := by
  induction depth, cs using scan_induction generalizing n p with
  | nil depth => cases h
  | opening depth rest ih =>
    rw [bodyLength?_open, Option.map_eq_some_iff] at h
    obtain ⟨k, hk, rfl⟩ := h
    match p with
    | 0 =>
      cases hopen
      obtain ⟨l, hlt, hl⟩ := bodyLength?_shallower hk
      obtain ⟨m, hle, hm⟩ := bodyLength?_outermost hl
      exact ⟨m, hm, by omega⟩
    | 1 => cases hopen
    | p + 2 =>
      obtain ⟨m, hm, hlt⟩ := ih hk (by omega) hopen
      exact ⟨m, hm, by omega⟩
  | last rest =>
    cases (h : some 0 = some n)
    cases hp
  | closing depth rest ih =>
    rw [bodyLength?_close, Option.map_eq_some_iff] at h
    obtain ⟨k, hk, rfl⟩ := h
    match p with
    | 0 => cases hopen
    | p + 1 =>
      obtain ⟨m, hm, hlt⟩ := ih hk (by omega) hopen
      exact ⟨m, hm, by omega⟩
  | plain depth c rest ho hc ih =>
    rw [bodyLength?_cons depth ho hc, Option.map_eq_some_iff] at h
    obtain ⟨k, hk, rfl⟩ := h
    match p with
    | 0 => exact absurd ⟨inner, hopen.symm⟩ ho
    | p + 1 =>
      obtain ⟨m, hm, hlt⟩ := ih hk (by omega) hopen
      exact ⟨m, hm, by omega⟩

-- ---------------------------------------------------------------------------
-- The matching brace
-- ---------------------------------------------------------------------------

theorem closingBrace?_eq_some_iff (h : text.drop start = '$' :: '{' :: rest) :
    closingBrace? text start = some i ↔ IsLeast {i | EvensOut text start i} i := by
  rw [isLeast_add_iff (fun m hm => not_evensOut h hm) (evensOut_iff h), closingBrace?_eq h,
    Option.map_eq_some_iff]
  simp only [bodyLength?_eq_some_iff, Nat.add_comm (start + 2)]

theorem closingBrace?_inside (h : text.drop start = '$' :: '{' :: rest)
    (hi : closingBrace? text start = some i) (hstart : start < p) (hp : p < i)
    (hopen : OpensAt text p) : ∃ j, closingBrace? text p = some j ∧ p < j ∧ j < i := by
  obtain ⟨inner, hinner⟩ := opensAt_iff.1 hopen
  rw [closingBrace?_eq h, Option.map_eq_some_iff] at hi
  obtain ⟨n, hn, rfl⟩ := hi
  obtain ⟨k, rfl⟩ := Nat.exists_eq_add_of_lt hstart
  rw [Nat.add_assoc, ← List.drop_drop, h] at hinner
  match k with
  | 0 => cases hinner -- the second character of the outer opening opens nothing
  | k + 1 =>
    obtain ⟨m, hm, hlt⟩ := bodyLength?_inside hn (p := k) (by omega) hinner
    refine ⟨start + (k + 1) + 1 + 2 + m, ?_, by omega, by omega⟩
    have hdrop : text.drop (start + (k + 1) + 1) = '$' :: '{' :: inner := by
      rw [Nat.add_assoc, ← List.drop_drop, h]
      exact hinner
    rw [closingBrace?_eq hdrop, hm]
    rfl

/-- The brace that closes a placeholder is the first one up to which, from its opening on, as many
braces stand as placeholders open. There is none exactly if the placeholder does not close. Every
placeholder that opens inside one that closes is closed inside it, too. -/
theorem closingBrace?_least (h : OpensAt text start) :
    (∀ i, closingBrace? text start = some i ↔ IsLeast {i | EvensOut text start i} i) ∧
    (closingBrace? text start = none ↔ ¬ ∃ i, EvensOut text start i) ∧
    ∀ i, closingBrace? text start = some i → ∀ p, start < p → p < i → OpensAt text p →
      ∃ j, closingBrace? text p = some j ∧ p < j ∧ j < i := by
  obtain ⟨rest, hrest⟩ := opensAt_iff.1 h
  have hleast (i : Nat) := closingBrace?_eq_some_iff (i := i) hrest
  refine ⟨hleast, ⟨fun hnone => ?_, fun hno => ?_⟩, fun i hi p hstart hp hopen => ?_⟩
  · rintro ⟨i, hi⟩
    classical
    have hfirst : closingBrace? text start = some (Nat.find ⟨i, hi⟩) :=
      (hleast _).2 ⟨Nat.find_spec ⟨i, hi⟩, fun j hj => Nat.find_min' _ hj⟩
    cases hnone.symm.trans hfirst
  · refine Option.eq_none_iff_forall_ne_some.2 fun i hi => ?_
    exact hno ⟨i, ((hleast i).1 hi).1⟩
  · exact closingBrace?_inside hrest hi hstart hp hopen

/-- A dollar sign before the opening, one in front of a brace, and a placeholder inside. -/
theorem closingBrace?_least_nested :
    let text := "x$$\x7bA:$\x7bB\x7d$\x7d\x7d".toList
    OpensAt text 2 ∧ IsLeast {i | EvensOut text 2 i} 11 ∧
      ∃ j, closingBrace? text 6 = some j ∧ 6 < j ∧ j < 11 := by
  intro text
  have hopen : OpensAt text 2 := by decide
  have hclose : closingBrace? text 2 = some 11 := by decide
  obtain ⟨hleast, -, hinside⟩ := closingBrace?_least hopen
  exact ⟨hopen, (hleast 11).1 hclose, hinside 11 hclose 6 (by decide) (by decide) (by decide)⟩

end LayeredConfig.Placeholder
