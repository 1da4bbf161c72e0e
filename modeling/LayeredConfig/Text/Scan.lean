/-!
# Scanning characters

Small facts about taking characters off the front of a text, on which the readers' termination
rests.
-/

namespace LayeredConfig.Text

theorem length_dropWhile_le {α : Type} (p : α → Bool) (cs : List α) :
    (cs.dropWhile p).length ≤ cs.length :=
  (List.dropWhile_sublist p).length_le

theorem length_drop_le (n : Nat) (cs : List Char) : (cs.drop n).length ≤ cs.length := by
  simp

theorem length_take_le (n : Nat) (cs : List Char) : (cs.take n).length ≤ cs.length := by
  simp only [List.length_take]
  omega

/-- The characters before and after the first `mark`, or all of them when there is none. -/
def cut (mark : Char) (cs : List Char) : List Char × Option (List Char) :=
  match cs.dropWhile (· ≠ mark) with
  | [] => (cs, none)
  | _ :: after => (cs.takeWhile (· ≠ mark), some after)

theorem length_lt_of_cut {mark : Char} {cs after : List Char} (h : (cut mark cs).2 = some after) :
    after.length < cs.length := by
  have hle := length_dropWhile_le (fun c => decide (c ≠ mark)) cs
  unfold cut at h
  split at h
  · cases h
  · rename_i c rest heq
    cases h
    rw [heq, List.length_cons] at hle
    exact hle

def splitAt? (mark : List Char) : List Char → Option (List Char × List Char)
  | [] => if mark.isEmpty then some ([], []) else none
  | c :: rest =>
    if mark.isPrefixOf (c :: rest) then some ([], (c :: rest).drop mark.length)
    else (splitAt? mark rest).map fun (before, after) => (c :: before, after)

def mentions (mark cs : List Char) : Bool := (splitAt? mark cs).isSome

/-- The parts between the marks, of which there is one more than there are marks. -/
def splitOn {α : Type} [DecidableEq α] (mark : α) : List α → List (List α)
  | [] => [[]]
  | c :: rest =>
    if c = mark then [] :: splitOn mark rest
    else match splitOn mark rest with
      | [] => [[c]]
      | part :: parts => (c :: part) :: parts

end LayeredConfig.Text
