import LayeredConfig.Proofs.Placeholder.Template
import Mathlib.Data.List.TakeWhile

/-!
# Resolving a template gives its meaning

`resolveText_template`: on the text of a template, lenient resolving yields the meaning, and strict
resolving yields it too or fails at the placeholder where evaluation gets stuck. The scanner is
followed piece by piece: it passes over literals, finds the brace that closes a placeholder behind
a whole template, and cuts the body at the colon behind the name.
-/

namespace LayeredConfig.Placeholder

variable {inDefault : Bool} {environment : Environment} {mode : ResolveMode}

-- ---------------------------------------------------------------------------
-- One step of the scanner
-- ---------------------------------------------------------------------------

theorem bodyLength?_open (depth : Nat) (rest : List Char) :
    bodyLength? depth ('$' :: '{' :: rest) = (bodyLength? (depth + 1) rest).map (· + 2) := by
  simp only [bodyLength?]

theorem bodyLength?_close (depth : Nat) (rest : List Char) :
    bodyLength? (depth + 1) ('}' :: rest) = (bodyLength? depth rest).map (· + 1) := by
  simp only [bodyLength?]

theorem bodyLength?_cons {c : Char} {rest : List Char} (depth : Nat)
    (ho : ¬ ['$', '{'] <+: c :: rest) (hc : c ≠ '}') :
    bodyLength? depth (c :: rest) = (bodyLength? depth rest).map (· + 1) := by
  rw [bodyLength?.eq_def]
  split
  · contradiction
  · rename_i h
    exact absurd (by simp [h]) ho
  · simp_all
  · simp_all
  · simp_all

theorem closingBrace?_eq {text rest : List Char} {start : Nat}
    (h : text.drop start = '$' :: '{' :: rest) :
    closingBrace? text start = (bodyLength? 0 rest).map (start + 2 + ·) := by
  simp only [closingBrace?, h]

/-- Induction along the scan: over an opening, the brace that ends it, the brace of a placeholder
inside, or a character of no account. -/
theorem scan_induction {motive : Nat → List Char → Prop} (nil : ∀ depth, motive depth [])
    (opening : ∀ depth rest, motive (depth + 1) rest → motive depth ('$' :: '{' :: rest))
    (last : ∀ rest, motive 0 ('}' :: rest))
    (closing : ∀ depth rest, motive depth rest → motive (depth + 1) ('}' :: rest))
    (plain : ∀ depth c rest, ¬ ['$', '{'] <+: c :: rest → c ≠ '}' → motive depth rest →
      motive depth (c :: rest)) (depth : Nat) (cs : List Char) : motive depth cs := by
  induction depth, cs using bodyLength?.induct with
  | case1 depth => exact nil depth
  | case2 depth rest ih => exact opening depth rest ih
  | case3 rest => exact last rest
  | case4 depth rest ih => exact closing depth rest ih
  | case5 depth c rest hopen hzero hclose ih =>
    refine plain depth c rest ?_ ?_ ih
    · rintro ⟨rest', heq⟩
      cases heq
      exact hopen rest' rfl rfl
    · rintro rfl
      cases depth with
      | zero => exact hzero rfl rfl
      | succ depth => exact hclose depth rfl rfl

theorem resolveChars_cons {c : Char} {rest : List Char} (ho : ¬ ['$', '{'] <+: c :: rest) :
    resolveChars environment mode (c :: rest) =
      (resolveChars environment mode rest).map (·.after [c]) := by
  rw [resolveChars.eq_def]
  split
  · contradiction
  · rename_i h
    exact absurd (by simp [h]) ho
  · simp_all

-- ---------------------------------------------------------------------------
-- Literals
-- ---------------------------------------------------------------------------

theorem OpensNothing.tail {c : Char} {cs : List Char} (h : OpensNothing (c :: cs)) :
    OpensNothing cs :=
  fun hi => h (hi.trans (List.suffix_cons c cs).isInfix)

theorem OpensNothing.not_prefix {c : Char} {cs rest : List Char} (h : OpensNothing (c :: cs))
    (hr : rest.head? ≠ some '{') : ¬ ['$', '{'] <+: c :: (cs ++ rest) := by
  intro hp
  obtain ⟨rfl, ht⟩ := List.cons_prefix_cons.1 hp
  cases cs with
  | nil =>
    cases rest with
    | nil => simp at ht
    | cons d rest => exact hr (by rw [(List.cons_prefix_cons.1 ht).1]; rfl)
  | cons d cs =>
    rw [List.cons_append] at ht
    obtain ⟨rfl, -⟩ := List.cons_prefix_cons.1 ht
    exact h (List.prefix_append ['$', '{'] cs).isInfix

theorem bodyLength?_plain {cs rest : List Char} (depth : Nat) (ho : OpensNothing cs)
    (hc : '}' ∉ cs) (hr : rest.head? ≠ some '{') :
    bodyLength? depth (cs ++ rest) = (bodyLength? depth rest).map (· + cs.length) := by
  induction cs with
  | nil => simp
  | cons c cs ih =>
    have hne : c ≠ '}' := fun h => hc (h ▸ List.mem_cons_self)
    rw [List.cons_append, bodyLength?_cons depth (ho.not_prefix hr) hne,
      ih ho.tail fun h => hc (List.mem_cons_of_mem _ h), Option.map_map]
    rfl

theorem resolveChars_plain {cs rest : List Char} (ho : OpensNothing cs)
    (hr : rest.head? ≠ some '{') :
    resolveChars environment mode (cs ++ rest) =
      (resolveChars environment mode rest).map (·.after cs) := by
  induction cs with
  | nil =>
    rw [List.nil_append]
    cases resolveChars environment mode rest <;> rfl
  | cons c cs ih =>
    rw [List.cons_append, resolveChars_cons (ho.not_prefix hr), ih ho.tail]
    cases resolveChars environment mode rest <;> rfl

theorem resolveChars_literal (l : Literal inDefault) :
    resolveChars environment mode l.chars = .ok ⟨l.chars, 0⟩ := by
  have h : resolveChars environment mode (l.chars ++ []) =
      (resolveChars environment mode []).map (·.after l.chars) :=
    resolveChars_plain l.opensNothing (by simp)
  simpa [resolveChars, Except.map, Resolved.after] using h

-- ---------------------------------------------------------------------------
-- Bodies
-- ---------------------------------------------------------------------------

theorem map_add_map_add (length? : Option Nat) (m n : Nat) :
    (length?.map (· + m)).map (· + n) = length?.map (· + (n + m)) := by
  cases length? with
  | none => rfl
  | some k => simp only [Option.map_some, Nat.add_assoc, Nat.add_comm m n]

theorem bodyLength?_enclosed {body rest : List Char} (depth : Nat)
    (hb : bodyLength? (depth + 1) (body ++ '}' :: rest) =
      (bodyLength? (depth + 1) ('}' :: rest)).map (· + body.length)) :
    bodyLength? depth (enclosed body ++ rest) =
      (bodyLength? depth rest).map (· + (enclosed body).length) := by
  have h : enclosed body ++ rest = '$' :: '{' :: (body ++ '}' :: rest) := by simp [enclosed]
  rw [h, bodyLength?_open, hb, bodyLength?_close, map_add_map_add, map_add_map_add,
    length_enclosed, Nat.add_comm 2, Nat.add_assoc]

theorem bodyLength?_name (n : Name) {rest : List Char} (depth : Nat)
    (hr : rest.head? ≠ some '{') :
    bodyLength? depth (n.chars ++ rest) = (bodyLength? depth rest).map (· + n.chars.length) :=
  bodyLength?_plain depth n.opensNothing n.closesNothing hr

theorem bodyLength?_withDefault (n : Name) {default rest : List Char} (depth : Nat)
    (hd : bodyLength? depth (default ++ '}' :: rest) =
      (bodyLength? depth ('}' :: rest)).map (· + default.length)) :
    bodyLength? depth ((n.chars ++ ':' :: default) ++ '}' :: rest) =
      (bodyLength? depth ('}' :: rest)).map (· + (n.chars ++ ':' :: default).length) := by
  rw [List.append_assoc, bodyLength?_name n _ (by simp), List.cons_append,
    bodyLength?_cons _ (by simp) (by decide), hd]
  simp only [map_add_map_add, List.length_append, List.length_cons, Nat.add_comm 1]

/-- Inside a default the scanner passes over a whole template without a change of depth. -/
theorem bodyLength?_template (t : Template inDefault) (hd : inDefault) {rest : List Char}
    (depth : Nat) (hr : rest.head? ≠ some '{') :
    bodyLength? depth (t.chars ++ rest) = (bodyLength? depth rest).map (· + t.chars.length) := by
  induction t generalizing depth rest with
  | literal l => exact bodyLength?_plain depth l.opensNothing (l.closesNothing hd) hr
  | bare before name after ih =>
    simp only [Template.chars, List.append_assoc]
    rw [bodyLength?_plain depth before.opensNothing (before.closesNothing hd) (by simp [enclosed]),
      bodyLength?_enclosed depth (bodyLength?_name name _ (by simp)), ih hd depth hr]
    simp only [map_add_map_add, List.length_append]
  | defaulted before name default after ihd iha =>
    simp only [Template.chars, List.append_assoc]
    rw [bodyLength?_plain depth before.opensNothing (before.closesNothing hd) (by simp [enclosed]),
      bodyLength?_enclosed depth (bodyLength?_withDefault name _ (ihd rfl _ (by simp))),
      iha hd depth hr]
    simp only [map_add_map_add, List.length_append]

-- ---------------------------------------------------------------------------
-- Placeholders
-- ---------------------------------------------------------------------------

theorem nameAndDefault_bare (n : Name) : nameAndDefault n.chars = (n.trimmed, none) := by
  have h : n.chars.dropWhile (· ≠ ':') = [] :=
    List.dropWhile_eq_nil_iff.2 fun c hc => decide_eq_true fun (e : c = ':') => n.noColon (e ▸ hc)
  simp only [nameAndDefault, Text.cut, h]
  rfl

theorem nameAndDefault_defaulted (n : Name) (default : List Char) :
    nameAndDefault (n.chars ++ ':' :: default) = (n.trimmed, some default) := by
  have hp : ∀ c ∈ n.chars, decide (c ≠ ':') = true :=
    fun c hc => decide_eq_true fun (e : c = ':') => n.noColon (e ▸ hc)
  simp only [nameAndDefault, Text.cut]
  rw [List.dropWhile_append_of_pos hp, List.takeWhile_append_of_pos hp]
  simp [Name.trimmed]

def charsOf (r : Except Missing Resolved) : Except Missing (List Char) := r.map (·.text)

/-- What resolving puts in the place of a placeholder. `left` counts the characters from it on. -/
def replacement (environment : Environment) (mode : ResolveMode) (body : List Char) (left : Nat) :
    Except Missing Resolved :=
  match Placeholder.value? environment (nameAndDefault body).1, (nameAndDefault body).2 with
  | some value, _ => .ok ⟨value.toList, 0⟩
  | none, some inner => (resolveChars environment mode inner).mapError ({ · with left })
  | none, none =>
    match mode with
    | .lenient => .ok ⟨enclosed body, 0⟩
    | .strict => .error ⟨(nameAndDefault body).1, left⟩

theorem charsOf_append (x y : Except Missing Resolved) (count : Resolved → Resolved → Nat) :
    charsOf (do let a ← x; let b ← y; return ⟨a.text ++ b.text, count a b⟩) =
      (do let a ← charsOf x; let b ← charsOf y; return a ++ b) := by
  cases x <;> cases y <;> rfl

theorem resolveChars_enclosed {body after : List Char}
    (hb : bodyLength? 0 (body ++ '}' :: after) = some body.length) :
    charsOf (resolveChars environment mode (enclosed body ++ after)) = (do
      let here ← charsOf (replacement environment mode body (enclosed body ++ after).length)
      let later ← charsOf (resolveChars environment mode after)
      return here ++ later) := by
  have h : enclosed body ++ after = '$' :: '{' :: (body ++ '}' :: after) := by simp [enclosed]
  rw [h, resolveChars, ← h]
  split
  · simp_all
  · rename_i n hn
    rw [hb] at hn
    cases hn
    have ht : (body ++ '}' :: after).take body.length = body := List.take_left
    have hs : (body ++ '}' :: after).take (body.length + 1) = body ++ ['}'] := by
      simp [List.take_append, List.take_of_length_le]
    have hd : (body ++ '}' :: after).drop (body.length + 1) = after := by
      simp [List.drop_append]
    have hl : (body ++ '}' :: after).length + 2 = (enclosed body ++ after).length := by
      simp [enclosed]
    simp only [replacement, ht, hl, hs, hd]
    split
    · rename_i hv
      simp only [hv]
      exact charsOf_append _ _ _
    · rename_i hv hi
      rw [ht] at hi
      simp only [hv, hi]
      exact charsOf_append _ _ _
    · rename_i hv hi
      rw [ht] at hi
      simp only [hv, hi]
      cases mode
      · rfl
      · exact charsOf_append _ _ _

theorem replacement_bare (n : Name) (left : Nat) :
    charsOf (replacement environment mode n.chars left) =
      match n.value? environment, mode with
      | some value, _ => .ok value.toList
      | none, .lenient => .ok (enclosed n.chars)
      | none, .strict => .error ⟨n.trimmed, left⟩ := by
  have h : Placeholder.value? environment n.trimmed = n.value? environment := rfl
  simp only [replacement, nameAndDefault_bare, h]
  cases n.value? environment <;> cases mode <;> rfl

theorem replacement_defaulted (n : Name) (default : List Char) (left : Nat) :
    charsOf (replacement environment mode (n.chars ++ ':' :: default) left) =
      match n.value? environment with
      | some value => .ok value.toList
      | none => (charsOf (resolveChars environment mode default)).mapError ({ · with left }) := by
  have h : Placeholder.value? environment n.trimmed = n.value? environment := rfl
  simp only [replacement, nameAndDefault_defaulted, h]
  cases n.value? environment with
  | some value => rfl
  | none =>
    simp only
    cases resolveChars environment mode default <;> rfl

-- ---------------------------------------------------------------------------
-- Templates
-- ---------------------------------------------------------------------------

theorem charsOf_resolveChars_plain {cs rest : List Char} (ho : OpensNothing cs)
    (hr : rest.head? ≠ some '{') :
    charsOf (resolveChars environment mode (cs ++ rest)) =
      (charsOf (resolveChars environment mode rest)).map (cs ++ ·) := by
  rw [resolveChars_plain ho hr]
  cases resolveChars environment mode rest <;> rfl

theorem resolveChars_bare (before : Literal inDefault) (n : Name) (after : List Char) :
    charsOf (resolveChars environment mode (before.chars ++ (enclosed n.chars ++ after))) = (do
      let here ← charsOf (replacement environment mode n.chars (enclosed n.chars ++ after).length)
      let later ← charsOf (resolveChars environment mode after)
      return before.chars ++ (here ++ later)) := by
  have hb : bodyLength? 0 (n.chars ++ '}' :: after) = some n.chars.length := by
    rw [bodyLength?_name n 0 (by simp)]
    simp [bodyLength?]
  rw [charsOf_resolveChars_plain before.opensNothing (by simp [enclosed]),
    resolveChars_enclosed hb]
  cases charsOf (replacement environment mode n.chars (enclosed n.chars ++ after).length) with
  | error => rfl
  | ok here => cases charsOf (resolveChars environment mode after) <;> rfl

theorem resolveChars_defaulted (before : Literal inDefault) (n : Name) (default : Template true)
    (after : List Char) :
    let body := n.chars ++ ':' :: default.chars
    charsOf (resolveChars environment mode (before.chars ++ (enclosed body ++ after))) = (do
      let here ← charsOf (replacement environment mode body (enclosed body ++ after).length)
      let later ← charsOf (resolveChars environment mode after)
      return before.chars ++ (here ++ later)) := by
  intro body
  have hb : bodyLength? 0 (body ++ '}' :: after) = some body.length := by
    rw [bodyLength?_withDefault n 0 (bodyLength?_template default rfl 0 (by simp))]
    simp [bodyLength?, body]
  rw [charsOf_resolveChars_plain before.opensNothing (by simp [enclosed]),
    resolveChars_enclosed hb]
  cases charsOf (replacement environment mode body (enclosed body ++ after).length) with
  | error => rfl
  | ok here => cases charsOf (resolveChars environment mode after) <;> rfl

theorem resolveChars_lenient (t : Template inDefault) :
    charsOf (resolveChars environment .lenient t.chars) = .ok (t.meaning environment) := by
  induction t with
  | literal l => rw [Template.chars, resolveChars_literal]; rfl
  | bare before name after ih =>
    rw [Template.chars, resolveChars_bare, ih, replacement_bare, Template.meaning]
    cases name.value? environment <;> rfl
  | defaulted before name default after ihd iha =>
    rw [Template.chars, resolveChars_defaulted, iha, replacement_defaulted, ihd, Template.meaning]
    cases name.value? environment <;> rfl

/-- What strict resolving of `width` characters comes to, if evaluation gets stuck there or not. -/
def strictly (stuck? : Option Template.Stuck) (meaning : List Char) (width : Nat) :
    Except Missing (List Char) :=
  match stuck? with
  | none => .ok meaning
  | some s => .error ⟨s.name.trimmed, width - s.start⟩

theorem strictly_behind (stuck? : Option Template.Stuck) (meaning : List Char) (width n : Nat)
    (f : List Char → List Char) :
    (do let later ← strictly stuck? meaning width; return f later) =
      strictly (stuck?.map (.behind n)) (f meaning) (n + width) := by
  cases stuck? with
  | none => rfl
  | some s =>
    have h : n + width - (n + s.start) = width - s.start := Nat.add_sub_add_left n width s.start
    simp only [strictly, Option.map_some, Template.Stuck.behind, h]
    rfl

theorem resolveChars_strict (t : Template inDefault) :
    charsOf (resolveChars environment .strict t.chars) =
      strictly (t.stuck? environment) (t.meaning environment) t.chars.length := by
  induction t with
  | literal l => rw [Template.chars, resolveChars_literal]; rfl
  | bare before name after ih =>
    rw [Template.chars, resolveChars_bare, ih, replacement_bare, Template.meaning, Template.stuck?]
    simp only [List.length_append]
    cases name.value? environment with
    | none =>
      simp only [strictly, Nat.add_sub_cancel_left]
      rfl
    | some value =>
      rw [← Nat.add_assoc]
      exact strictly_behind _ _ _ _ fun later => before.chars ++ (value.toList ++ later)
  | defaulted before name default after ihd iha =>
    rw [Template.chars, resolveChars_defaulted, iha, replacement_defaulted, ihd, Template.meaning,
      Template.stuck?]
    simp only [List.length_append]
    have hlater (here : List Char) := strictly_behind (after.stuck? environment)
      (after.meaning environment) after.chars.length
      (before.chars.length + (enclosed (name.chars ++ ':' :: default.chars)).length)
      fun later => before.chars ++ (here ++ later)
    cases name.value? environment with
    | none =>
      cases default.stuck? environment with
      | some s =>
        simp only [strictly, Nat.add_sub_cancel_left]
        rfl
      | none =>
        rw [← Nat.add_assoc]
        exact hlater _
    | some value =>
      rw [← Nat.add_assoc]
      exact hlater _

-- ---------------------------------------------------------------------------
-- Lines
-- ---------------------------------------------------------------------------

/-- A piece without line feeds that reaches as far as lines do and holds the position. -/
def IsLineAt (cs : List Char) (position : Nat) (line : List Char) : Prop :=
  ∃ before after, cs = before ++ (line ++ after) ∧
    before.length ≤ position ∧ position ≤ before.length + line.length ∧ '\n' ∉ line ∧
    (before = [] ∨ before.getLast? = some '\n') ∧ (after = [] ∨ after.head? = some '\n')

theorem dropWhile_ne_nil_or_head (mark : Char) (cs : List Char) :
    cs.dropWhile (· ≠ mark) = [] ∨ (cs.dropWhile (· ≠ mark)).head? = some mark := by
  induction cs with
  | nil => exact .inl rfl
  | cons c cs ih =>
    by_cases h : c = mark
    · exact .inr (by simp [h])
    · simpa [List.dropWhile_cons, h] using ih

theorem lineAt_isLineAt {cs : List Char} {position : Nat} (hp : position ≤ cs.length) :
    ∃ line, IsLineAt cs position line ∧ lineAt cs position = String.ofList (Text.trim line) := by
  let back := (cs.take position).reverse
  let front := cs.drop position
  have hb : (back.dropWhile (· ≠ '\n')).reverse ++ (back.takeWhile (· ≠ '\n')).reverse =
      cs.take position := by
    rw [← List.reverse_append, List.takeWhile_append_dropWhile, List.reverse_reverse]
  have hf : front.takeWhile (· ≠ '\n') ++ front.dropWhile (· ≠ '\n') = front :=
    List.takeWhile_append_dropWhile
  have hlen := congrArg List.length hb
  rw [List.length_append, List.length_take, Nat.min_eq_left hp] at hlen
  refine ⟨(back.takeWhile (· ≠ '\n')).reverse ++ front.takeWhile (· ≠ '\n'),
    ⟨(back.dropWhile (· ≠ '\n')).reverse, front.dropWhile (· ≠ '\n'), ?_, ?_, ?_, ?_, ?_, ?_⟩, rfl⟩
  · rw [List.append_assoc, hf, ← List.append_assoc, hb, List.take_append_drop]
  · omega
  · simp only [List.length_append]
    omega
  · intro hm
    rcases List.mem_append.1 hm with h | h
    · simpa using List.mem_takeWhile_imp (List.mem_reverse.1 h)
    · simpa using List.mem_takeWhile_imp h
  · simpa using dropWhile_ne_nil_or_head '\n' back
  · exact dropWhile_ne_nil_or_head '\n' front

-- ---------------------------------------------------------------------------
-- Texts
-- ---------------------------------------------------------------------------

theorem resolveText_ok {text : String} {cs : List Char}
    (h : charsOf (resolveChars environment mode text.toList) = .ok cs) :
    (resolveText text environment mode).map (fun r => String.ofList r.text) =
      .ok (String.ofList cs) := by
  cases hr : resolveChars environment mode text.toList with
  | error e => simp [hr, charsOf, Except.map] at h
  | ok r =>
    rw [hr] at h
    cases h
    simp only [resolveText, hr]
    rfl

theorem resolveText_error {text : String} {e : Missing}
    (h : charsOf (resolveChars environment mode text.toList) = .error e) :
    resolveText text environment mode = .error (.unresolvedPlaceholder e.name
      (lineAt text.toList (text.toList.length - e.left))) := by
  cases hr : resolveChars environment mode text.toList with
  | error e' =>
    rw [hr] at h
    cases h
    simp only [resolveText, hr]
    rfl
  | ok r => simp [hr, charsOf, Except.map] at h

/-- Resolving the text of a template computes its meaning: leniently always, strictly unless
evaluation gets stuck. Then the error names the placeholder and shows the line of the outermost
one around it. -/
theorem resolveText_template (t : Template false) (environment : Environment) :
    (resolveText t.text environment .lenient).map (fun r => String.ofList r.text) =
      .ok (String.ofList (t.meaning environment)) ∧
    match t.stuck? environment with
    | none => (resolveText t.text environment .strict).map (fun r => String.ofList r.text) =
        .ok (String.ofList (t.meaning environment))
    | some s => ∃ line, IsLineAt t.chars s.start line ∧
        resolveText t.text environment .strict =
          .error (.unresolvedPlaceholder s.name.trimmed (String.ofList (Text.trim line))) := by
  have ht : t.text.toList = t.chars := String.toList_ofList
  refine ⟨resolveText_ok (ht ▸ resolveChars_lenient t), ?_⟩
  have hs : charsOf (resolveChars environment .strict t.chars) =
      strictly (t.stuck? environment) (t.meaning environment) t.chars.length :=
    resolveChars_strict t
  cases h : t.stuck? environment with
  | none =>
    rw [h] at hs
    exact resolveText_ok (ht ▸ hs)
  | some s =>
    rw [h] at hs
    have hle := Template.stuck?_start_le h
    obtain ⟨line, hline, heq⟩ := lineAt_isLineAt hle
    refine ⟨line, hline, ?_⟩
    rw [← ht] at hs
    rw [resolveText_error hs, ht, Nat.sub_sub_self hle, heq]

end LayeredConfig.Placeholder
