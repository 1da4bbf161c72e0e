/-!
# Matching braces

A placeholder opens with a dollar sign and a brace. It closes with the brace that ends as many
placeholders as were opened since; a brace without a dollar sign opens nothing.
-/

namespace LayeredConfig.Placeholder

/-- How many characters stand before the brace that closes the last of `depth` placeholders around
an open one. -/
def bodyLength? : (depth : Nat) → List Char → Option Nat
  | _, [] => none
  | depth, '$' :: '{' :: rest => (bodyLength? (depth + 1) rest).map (· + 2)
  | 0, '}' :: _ => some 0
  | depth + 1, '}' :: rest => (bodyLength? depth rest).map (· + 1)
  | depth, _ :: rest => (bodyLength? depth rest).map (· + 1)

def closingBrace? (text : List Char) (start : Nat) : Option Nat :=
  match text.drop start with
  | '$' :: '{' :: rest => (bodyLength? 0 rest).map (start + 2 + ·)
  | _ => none

theorem bodyLength?_lt {depth n : Nat} {cs : List Char} (h : bodyLength? depth cs = some n) :
    n < cs.length := by
  induction depth, cs using bodyLength?.induct generalizing n with
  | case1 => simp [bodyLength?] at h
  | case2 depth rest ih =>
    simp only [bodyLength?, Option.map_eq_some_iff] at h
    obtain ⟨m, hm, rfl⟩ := h
    have := ih hm
    simp only [List.length_cons]
    omega
  | case3 rest =>
    simp only [bodyLength?, Option.some.injEq] at h
    simp [← h]
  | case4 depth rest ih =>
    simp only [bodyLength?, Option.map_eq_some_iff] at h
    obtain ⟨m, hm, rfl⟩ := h
    have := ih hm
    simp only [List.length_cons]
    omega
  | case5 depth c rest h₁ h₂ h₃ ih =>
    rw [bodyLength?] at h
    · simp only [Option.map_eq_some_iff] at h
      obtain ⟨m, hm, rfl⟩ := h
      have := ih hm
      simp only [List.length_cons]
      omega
    all_goals assumption

end LayeredConfig.Placeholder
