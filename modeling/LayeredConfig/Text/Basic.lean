/-!
# Texts

The texts that a configuration holds and that its errors speak of: sequences of code points. A code
point is a character or half of a surrogate pair that stands by itself. Files, the environment and
the command line hold strings of characters; every string is a text. Halves come from escapes only.
-/

namespace LayeredConfig

inductive CodePoint where
  | char (c : Char)
  /-- A half by its number among all halves, of which the upper ones come first. -/
  | half (number : Fin 0x800)
  deriving DecidableEq, Repr

namespace CodePoint

/-- The code of the first half. -/
def firstHalf : Nat := 0xd800

instance : Coe Char CodePoint := ⟨.char⟩

/-- The code point with a code. -/
def ofNat (n : Nat) : CodePoint :=
  if h : firstHalf ≤ n ∧ n - firstHalf < 0x800 then .half ⟨n - firstHalf, h.2⟩
  else .char (Char.ofNat n)

theorem toNat_valid (c : Char) : c.toNat < 0xd800 ∨ 0xdfff < c.toNat ∧ c.toNat < 0x110000 :=
  c.valid

theorem ofNat_toNat (c : Char) : ofNat c.toNat = .char c := by
  have hvalid := toNat_valid c
  rw [ofNat, dif_neg (by rw [firstHalf]; omega), Char.ofNat_toNat]

def toNat : CodePoint → Nat
  | .char c => c.toNat
  | .half n => firstHalf + n

/-- The character that a code point counts as where a text is taken for a number or a word. No half
is part of any, and no more is the replacement character. -/
def legible : CodePoint → Char
  | .char c => c
  | .half _ => '\ufffd'

end CodePoint

@[ext]
structure Text where
  points : List CodePoint
  deriving DecidableEq, Repr

namespace Text

def ofString (s : String) : Text := ⟨s.toList.map .char⟩

instance : Coe String Text := ⟨ofString⟩

instance : Inhabited Text := ⟨⟨[]⟩⟩

instance : Append Text := ⟨fun t u => ⟨t.points ++ u.points⟩⟩

@[simp] theorem ofString_points (s : String) : (ofString s).points = s.toList.map .char := rfl

@[simp] theorem append_points (t u : Text) : (t ++ u).points = t.points ++ u.points := rfl

theorem append_assoc (t u v : Text) : t ++ u ++ v = t ++ (u ++ v) :=
  Text.ext (List.append_assoc _ _ _)

/-- A text without halves. -/
def IsString (t : Text) : Prop := ∃ s : String, t = s

@[simp] theorem ofString_inj {s t : String} : ofString s = ofString t ↔ s = t := by
  rw [Text.ext_iff, ofString_points, ofString_points,
    List.map_inj_right fun _ _ => CodePoint.char.inj, String.toList_inj]

theorem points_eq_nil_iff {t : Text} : t.points = [] ↔ t = "" :=
  ⟨fun h => Text.ext h, fun h => congrArg points h⟩

theorem mk_cons_ne_empty (p : CodePoint) (ps : List CodePoint) : Text.mk (p :: ps) ≠ "" :=
  fun h => List.cons_ne_nil p ps (points_eq_nil_iff.2 h)

def legible (t : Text) : List Char := t.points.map CodePoint.legible

@[simp] theorem legible_chars (cs : List Char) : (Text.mk (cs.map .char)).legible = cs := by
  simp [legible, CodePoint.legible, Function.comp_def]

theorem points_eq_of_legible {t : Text} (h : '\ufffd' ∉ t.legible) :
    t.points = t.legible.map .char := by
  obtain ⟨ps⟩ := t
  induction ps with
  | nil => rfl
  | cons p ps ih =>
    simp only [legible, List.map_cons, List.mem_cons, not_or] at h ih ⊢
    cases p with
    | char c => exact congrArg _ (ih h.2)
    | half n => exact absurd rfl h.1

@[simp] theorem legible_ofString (s : String) : (ofString s).legible = s.toList :=
  legible_chars s.toList

@[simp] theorem legible_append (t u : Text) : (t ++ u).legible = t.legible ++ u.legible :=
  List.map_append

def isEmpty (t : Text) : Bool := t.points.isEmpty

end Text

end LayeredConfig
