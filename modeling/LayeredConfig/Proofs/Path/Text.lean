import LayeredConfig.Path.Text
import LayeredConfig.Proofs.Number.Digits
import LayeredConfig.Proofs.Outcome
import LayeredConfig.Proofs.Text.Scan
import Mathlib.Data.List.TakeWhile

/-!
# Paths that can be read back

`read_text_iff`: reading the text of a path gives the path exactly if the path is `Readable`. A key
is if it has some characters and none that ends a key, a position if it is not too long to be
written between brackets. Reading never makes any other steps, so `read_text_plainKeys`: of the
paths whose positions can be written, those with plain keys are the ones that are told apart by
their texts.
-/

namespace LayeredConfig

namespace Segment

/-- A step that reading makes of its text. -/
def Readable : Segment → Prop
  | .key name => name ≠ "" ∧ ∀ c ∈ name.points, Path.endsKey c = false
  | .index position => position < 10 ^ Integer.digitLimit

instance : DecidablePred Readable
  | .key name => @instDecidableAnd (name ≠ ("" : String)) _ _ (List.decidableBAll _ _)
  | .index position => inferInstanceAs (Decidable (position < _))

end Segment

namespace Path

open CodePoint (char)

def Readable (p : Path) : Prop := ∀ s ∈ p.segments, s.Readable

instance : DecidablePred Readable := fun p => List.decidableBAll _ p.segments

-- ---------------------------------------------------------------------------
-- Texts as code points
-- ---------------------------------------------------------------------------

theorem points_index_text (n : Nat) :
    (Segment.index n).text.points = char '[' :: (Nat.toDigits 10 n).map char ++ [char ']'] := by
  simp [Segment.text, Integer.text]

@[simp] theorem points_textAfter_key (name : Text) (rest : List Segment) :
    (textAfter (.key name :: rest)).points =
      char '.' :: (name.points ++ (textAfter rest).points) := by
  simp [textAfter]

@[simp] theorem points_textAfter_index (n : Nat) (rest : List Segment) :
    (textAfter (.index n :: rest)).points =
      char '[' :: ((Nat.toDigits 10 n).map char ++ char ']' :: (textAfter rest).points) := by
  rw [textAfter, Text.append_points, points_index_text]
  simp

theorem head_textAfter {rest : List Segment} {c : CodePoint}
    (h : (textAfter rest).points.head? = some c) : c = '.' ∨ c = '[' := by
  cases rest with
  | nil => simp [textAfter] at h
  | cons s rest =>
    cases s with
    | key name =>
      rw [points_textAfter_key] at h
      exact .inl (Option.some.inj h).symm
    | index n =>
      rw [points_textAfter_index] at h
      exact .inr (Option.some.inj h).symm

-- ---------------------------------------------------------------------------
-- Reading what was written
-- ---------------------------------------------------------------------------

theorem readIndex_toDigits {n : Nat} (h : n < 10 ^ Integer.digitLimit) :
    readIndex ⟨(Nat.toDigits 10 n).map char⟩ = .ok n := by
  have hall : (Nat.toDigits 10 n).all Text.isDigit = true :=
    List.all_eq_true.2 fun c hc => Text.isDigit_of_mem_toDigits hc
  have hlen : (Nat.toDigits 10 n).length ≤ Integer.digitLimit :=
    (Nat.length_toDigits_le_iff (by decide) (by decide)).2 h
  rw [readIndex, Text.legible_chars, if_neg (by simp [hall, Nat.toDigits_ne_nil]),
    if_neg (by omega), Text.ofDigits_toDigits (by decide) (by decide)]

theorem readSegments_brackets {digits : List CodePoint} (h : ∀ c ∈ digits, c ≠ ']') (e : Expected)
    (after : List CodePoint) :
    readSegments e (char '[' :: (digits ++ char ']' :: after)) =
      readIndex ⟨digits⟩ >>= fun n => (readSegments .separator after).map (.index n :: ·) := by
  have htake : (digits ++ char ']' :: after).takeWhile (· ≠ char ']') = digits :=
    Text.takeWhile_body (by simpa using h) (by simp)
  have hdrop : (digits ++ char ']' :: after).drop
      ((digits ++ char ']' :: after).takeWhile (· ≠ char ']')).length = char ']' :: after := by
    rw [htake, List.drop_left]
  rw [readSegments]
  split
  · rename_i hd
    cases hdrop.symm.trans hd
  · rename_i hd
    cases hdrop.symm.trans hd
    simp only [htake]
    cases readIndex ⟨digits⟩ with
    | error e => rfl
    | ok n => cases readSegments .separator after <;> rfl

theorem ne_close_of_isDigit {digits : List Char} (h : ∀ c ∈ digits, Text.isDigit c = true) :
    ∀ c ∈ digits.map char, c ≠ ']' := by
  simp only [List.forall_mem_map, ne_eq, char.injEq]
  rintro c hc rfl
  exact absurd (h _ hc) (by decide)

theorem readSegments_index {n : Nat} (h : n < 10 ^ Integer.digitLimit) (e : Expected)
    (after : List CodePoint) :
    readSegments e (char '[' :: ((Nat.toDigits 10 n).map char ++ char ']' :: after)) =
      (readSegments .separator after).map (.index n :: ·) := by
  rw [readSegments_brackets (ne_close_of_isDigit fun c => Text.isDigit_of_mem_toDigits),
    readIndex_toDigits h]
  rfl

theorem readSegments_key {name : Text} (h : (Segment.key name).Readable) {after : List CodePoint}
    (ha : ∀ c, after.head? = some c → c = '.' ∨ c = '[') :
    readSegments .key (name.points ++ after) =
      (readSegments .separator after).map (.key name :: ·) := by
  obtain ⟨hne, hends⟩ := h
  cases hname : name.points with
  | nil => exact absurd (Text.points_eq_nil_iff.1 hname) hne
  | cons c cs =>
    rw [hname] at hends
    have hc : endsKey c = false := hends c List.mem_cons_self
    have hcs : ∀ d ∈ cs, (!endsKey d) = true := fun d hd => by
      simp [hends d (List.mem_cons_of_mem _ hd)]
    have hstop : ∀ d, after.head? = some d → (!endsKey d) = false := by
      intro d hd
      rcases ha d hd with rfl | rfl <;> rfl
    have htake := Text.takeWhile_body hcs hstop
    have hdrop := Text.dropWhile_body hcs hstop
    have hofPoints : Text.mk (c :: cs) = name := Text.ext hname.symm
    simp only [endsKey, Bool.or_eq_false_iff, decide_eq_false_iff_not] at hc
    obtain ⟨⟨hdot, hopen⟩, hclose⟩ := hc
    have hhead : ¬ after.head? = some (char ']') := fun h => by simpa using ha _ h
    rw [List.cons_append, readSegments.eq_4 _ _ _ (by simpa using hopen) (by simpa using hdot)]
    simp only [htake, hdrop, hclose, hhead, hofPoints]
    cases readSegments .separator after <;> rfl

theorem readSegments_textAfter {segments : List Segment} (h : ∀ s ∈ segments, s.Readable) :
    readSegments .separator (textAfter segments).points = .ok segments := by
  induction segments with
  | nil => simp [textAfter, readSegments]
  | cons s rest ih =>
    have hs := h s List.mem_cons_self
    have hrest := ih fun t ht => h t (List.mem_cons_of_mem _ ht)
    cases s with
    | key name =>
      have hname : name.points ≠ [] := fun e => hs.1 (Text.points_eq_nil_iff.1 e)
      rw [points_textAfter_key, readSegments, if_neg (by simp [hname]),
        readSegments_key hs fun c => head_textAfter, hrest]
      rfl
    | index n =>
      rw [points_textAfter_index, readSegments_index hs, hrest]
      rfl

theorem read_text {p : Path} (h : p.Readable) : read p.text = .ok p := by
  have hread : readSegments .key p.text.points = .ok p.segments := by
    unfold text
    cases hp : p.segments with
    | nil => simp [readSegments]
    | cons s rest =>
      rw [Readable, hp] at h
      have hs := h s List.mem_cons_self
      have hrest := readSegments_textAfter fun t ht => h t (List.mem_cons_of_mem _ ht)
      simp only [Text.append_points]
      cases s with
      | key name =>
        rw [Segment.text, readSegments_key hs fun c => head_textAfter, hrest]
        rfl
      | index n =>
        rw [points_index_text, List.cons_append, List.cons_append, List.append_assoc,
          List.singleton_append, readSegments_index hs, hrest]
        rfl
  rw [read, hread]

-- ---------------------------------------------------------------------------
-- What reading makes
-- ---------------------------------------------------------------------------

theorem readIndex_lt {text : Text} {n : Nat} (h : readIndex text = .ok n) :
    n < 10 ^ Integer.digitLimit := by
  simp only [readIndex] at h
  split at h
  · cases h
  · split at h
    · cases h
    · rename_i hd hl
      cases h
      have hall : text.legible.all Text.isDigit = true := by
        simp only [Bool.or_eq_true, not_or, Bool.not_eq_true', Bool.not_eq_false] at hd
        exact hd.2
      exact Nat.lt_of_lt_of_le (Text.ofDigits_lt_pow hall)
        (Nat.pow_le_pow_right (by decide) (Nat.le_of_not_lt hl))

theorem readSegments_readable {e : Expected} {cs : List CodePoint} {segments : List Segment}
    (h : readSegments e cs = .ok segments) : ∀ s ∈ segments, s.Readable := by
  fun_induction readSegments e cs generalizing segments with
  | case1 => cases h; exact nofun
  | case2 | case4 | case6 | case7 => cases h
  | case3 e rest digits c after heq hlt =>
    rename_i ih
    simp only [bind_ok, pure_ok] at h
    obtain ⟨n, hn, more, hmore, rfl⟩ := h
    rintro s (_ | ⟨_, hs⟩)
    · exact readIndex_lt hn
    · exact ih hmore s hs
  | case5 e rest he ih => exact ih h
  | case8 e c rest hopen hdot he name hclose hle =>
    rename_i ih
    simp only [bind_ok, pure_ok] at h
    obtain ⟨more, hmore, rfl⟩ := h
    rintro s (_ | ⟨_, hs⟩)
    · refine ⟨Text.mk_cons_ne_empty _ _, fun d hd => ?_⟩
      rcases List.mem_cons.1 hd with rfl | hd
      · simp only [Bool.or_eq_true, decide_eq_true_eq, not_or] at hclose
        have hopen : ¬ d = '[' := hopen
        have hdot : ¬ d = '.' := hdot
        simp [endsKey, hclose.1, hopen, hdot]
      · simpa using List.mem_takeWhile_imp hd
    · exact ih hmore s hs

theorem read_readable {text : Text} {p : Path} (h : read text = .ok p) : p.Readable := by
  unfold read at h
  split at h
  · rename_i segments hs
    cases h
    exact readSegments_readable hs
  · cases h

theorem read_text_iff {p : Path} : read p.text = .ok p ↔ p.Readable :=
  ⟨read_readable, read_text⟩

-- ---------------------------------------------------------------------------
-- Keys and positions apart
-- ---------------------------------------------------------------------------

/-- The positions of the path are short enough for brackets. -/
def Bracketed (p : Path) : Prop :=
  ∀ n, .index n ∈ p.segments → n < 10 ^ Integer.digitLimit

/-- The keys of the path are not empty and have no dots or brackets in them. -/
def PlainKeys (p : Path) : Prop :=
  ∀ name : Text, .key name ∈ p.segments → name ≠ "" ∧
    ∀ c ∈ name.points, c ≠ '.' ∧ c ≠ '[' ∧ c ≠ ']'

variable {p q : Path}

theorem endsKey_eq_false_iff {c : CodePoint} : endsKey c = false ↔ c ≠ '.' ∧ c ≠ '[' ∧ c ≠ ']' := by
  simp [endsKey, and_assoc]

theorem readable_iff : p.Readable ↔ p.Bracketed ∧ p.PlainKeys := by
  simp only [← endsKey_eq_false_iff, PlainKeys]
  constructor
  · intro h
    exact ⟨fun n hn => h _ hn, fun name hname => h _ hname⟩
  · rintro ⟨hpositions, hkeys⟩ s hs
    cases s with
    | key name => exact hkeys name hs
    | index n => exact hpositions n hs

theorem eq_of_text_eq (hp : p.Readable) (hq : q.Readable) (h : p.text = q.text) : p = q := by
  have hread := read_text hp
  rw [h, read_text hq] at hread
  exact (Except.ok.inj hread).symm

/-- Of the paths whose positions can be written in brackets, those with plain keys are the ones that
are read back from their texts, and no two of them have one text. Every path that is read from any
text is of this kind, so its own text leads to it again. -/
theorem read_text_plainKeys :
    (∀ p : Path, p.Bracketed → (read p.text = .ok p ↔ p.PlainKeys)) ∧
    (∀ p q : Path, p.Bracketed → p.PlainKeys → q.Bracketed → q.PlainKeys →
      p.text = q.text → p = q) ∧
    ∀ text p, read text = .ok p → p.Bracketed ∧ p.PlainKeys ∧ read p.text = .ok p := by
  refine ⟨fun p hp => ?_, fun p q hp hpk hq hqk => ?_, fun text p h => ?_⟩
  · rw [read_text_iff, readable_iff, and_iff_right hp]
  · exact eq_of_text_eq (readable_iff.2 ⟨hp, hpk⟩) (readable_iff.2 ⟨hq, hqk⟩)
  · have hp := read_readable h
    exact ⟨(readable_iff.1 hp).1, (readable_iff.1 hp).2, read_text hp⟩

/-- An array of arrays under a key. -/
def grid : Path := ⟨[.key "grid", .index 1, .index 20, .key "x-1"]⟩

theorem read_text_plainKeys_grid :
    grid.Bracketed ∧ grid.PlainKeys ∧ grid.text = "grid[1][20].x-1" ∧
      read grid.text = .ok grid := by
  have hpositions : grid.Bracketed := (readable_iff.1 (by decide +kernel)).1
  have hkeys : grid.PlainKeys := (readable_iff.1 (by decide +kernel)).2
  exact ⟨hpositions, hkeys, by decide +kernel, (read_text_plainKeys.1 grid hpositions).2 hkeys⟩

end Path

end LayeredConfig
