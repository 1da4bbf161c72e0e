import LayeredConfig.FileSystem.Basic
import Mathlib.Data.List.TakeWhile

/-!
# Texts as bytes

`ofBytes_held`: a file that holds a text in UTF-8 reads as that text, with or without a byte
order mark in front of it. Each character is read from the bytes that it is written as, whatever
follows them.
-/

namespace LayeredConfig

-- ---------------------------------------------------------------------------
-- Bytes of strings
-- ---------------------------------------------------------------------------

theorem toList_loop (bytes : ByteArray) (i : Nat) (before : List UInt8) :
    ByteArray.toList.loop bytes i before = before.reverse ++ bytes.data.toList.drop i := by
  fun_induction ByteArray.toList.loop bytes i before with
  | case1 i before h ih =>
    have hdrop : bytes.data.toList.drop i = bytes.get! i :: bytes.data.toList.drop (i + 1) := by
      rw [List.drop_eq_getElem_cons (by simpa using h)]
      simp [ByteArray.get!, h]
    rw [ih, hdrop, List.reverse_cons, List.append_assoc, List.singleton_append]
  | case2 i before h =>
    rw [List.drop_eq_nil_of_le (by simpa using Nat.le_of_not_lt h), List.append_nil]

theorem toList_toUTF8 (s : String) : s.toUTF8.toList = s.toList.flatMap String.utf8EncodeChar := by
  rw [ByteArray.toList, toList_loop, String.toUTF8_eq_toByteArray, ← String.utf8Encode_toList,
    List.utf8Encode, List.toList_data_toByteArray]
  rfl

namespace Encoding

variable {first second b : UInt8} {more rest bytes : List UInt8} {c : Char} {n : Nat} {s : String}

-- ---------------------------------------------------------------------------
-- Classes of bytes
-- ---------------------------------------------------------------------------

theorem toNat_byte (h : n < 0x100) : (UInt8.ofNat n).toNat = n :=
  UInt8.toNat_ofNat_of_lt h

theorem isContinuation_iff : isContinuation b = true ↔ 0x80 ≤ b.toNat ∧ b.toNat < 0xc0 := by
  simp [isContinuation, UInt8.le_iff_toNat_le, UInt8.lt_iff_toNat_lt]

theorem isSecond_iff : isSecond first second = true ↔
    (0x80 ≤ second.toNat ∧ second.toNat < 0xc0) ∧ (first.toNat = 0xe0 → 0xa0 ≤ second.toNat) ∧
      (first.toNat = 0xed → second.toNat < 0xa0) ∧ (first.toNat = 0xf0 → 0x90 ≤ second.toNat) ∧
      (first.toNat = 0xf4 → second.toNat < 0x90) := by
  rw [isSecond, Bool.and_eq_true, isContinuation_iff]
  refine and_congr_right fun _ => ?_
  simp only [← UInt8.toNat_inj]
  split
  · simp [UInt8.le_iff_toNat_le, *]
  · split
    · simp [UInt8.lt_iff_toNat_lt, *]
    · split
      · simp [UInt8.le_iff_toNat_le, *]
      · simp_all [UInt8.lt_iff_toNat_lt, imp_iff_not_or]

theorem continuations?_eq (first : UInt8) : continuations? first =
    if first.toNat < 0x80 then some 0
    else if first.toNat < 0xc2 then none
    else if first.toNat < 0xe0 then some 1
    else if first.toNat < 0xf0 then some 2
    else if first.toNat < 0xf5 then some 3
    else none := by
  simp [continuations?, UInt8.lt_iff_toNat_lt]

-- ---------------------------------------------------------------------------
-- Characters
-- ---------------------------------------------------------------------------

/-- The bytes are read as this character. -/
structure Spells (first : UInt8) (more : List UInt8) (c : Char) : Prop where
  count : continuations? first = some more.length
  second : ∀ b, more.head? = some b → isSecond first b = true
  later : ∀ b ∈ more.tail, isContinuation b = true
  join : joinBytes first more = c

theorem Spells.take (h : Spells first more c) (rest : List UInt8) :
    takeContinuations first more.length (more ++ rest) = more := by
  cases more with
  | nil => cases rest <;> simp [takeContinuations]
  | cons second later =>
    have hsecond : isSecond first second = true := h.second second rfl
    have hlater : later.takeWhile isContinuation = later := List.takeWhile_eq_self_iff.2 h.later
    simp [takeContinuations, hsecond, hlater]

theorem Spells.decode (h : Spells first more c) (fuel position : Nat) (rest : List UInt8) :
    decodeUtf8From (fuel + 1) position (first :: (more ++ rest)) = do
      let cs ← decodeUtf8From fuel (position + more.length + 1) rest
      return c :: cs := by
  simp only [decodeUtf8From, h.count, h.take, h.join, if_true, List.drop_left]

theorem toNat_later (n : Nat) : (UInt8.ofNat (n % 64 + 128)).toNat = n % 64 + 128 :=
  toNat_byte (by omega)

theorem isContinuation_later (n : Nat) : isContinuation (UInt8.ofNat (n % 64 + 128)) = true := by
  rw [isContinuation_iff, toNat_later]
  omega

theorem spells_one (h : n ≤ 0x7f) : Spells (UInt8.ofNat n) [] (Char.ofNat n) := by
  have hfirst : (UInt8.ofNat n).toNat = n := toNat_byte (by omega)
  refine ⟨?_, nofun, nofun, ?_⟩
  · rw [continuations?_eq, hfirst, if_pos (by omega), List.length_nil]
  · exact congrArg Char.ofNat hfirst

theorem spells_two (h : 0x7f < n) (h' : n ≤ 0x7ff) :
    Spells (UInt8.ofNat (n / 64 % 32 + 0xc0)) [UInt8.ofNat (n % 64 + 128)] (Char.ofNat n) := by
  have hfirst : (UInt8.ofNat (n / 64 % 32 + 0xc0)).toNat = n / 64 % 32 + 0xc0 :=
    toNat_byte (by omega)
  refine ⟨?_, ?_, nofun, congrArg Char.ofNat ?_⟩
  · rw [continuations?_eq, hfirst, if_neg (by omega), if_neg (by omega), if_pos (by omega)]
    rfl
  · rintro _ ⟨⟩
    rw [isSecond_iff, hfirst, toNat_later]
    omega
  · simp only [List.foldl_cons, List.foldl_nil, List.length_cons, List.length_nil, hfirst,
      toNat_later]
    omega

theorem spells_three (h : 0x7ff < n) (h' : n ≤ 0xffff) (hvalid : n < 0xd800 ∨ 0xdfff < n) :
    Spells (UInt8.ofNat (n / 4096 % 16 + 0xe0))
      [UInt8.ofNat (n / 64 % 64 + 128), UInt8.ofNat (n % 64 + 128)] (Char.ofNat n) := by
  have hfirst : (UInt8.ofNat (n / 4096 % 16 + 0xe0)).toNat = n / 4096 % 16 + 0xe0 :=
    toNat_byte (by omega)
  refine ⟨?_, ?_, ?_, congrArg Char.ofNat ?_⟩
  · rw [continuations?_eq, hfirst, if_neg (by omega), if_neg (by omega), if_neg (by omega),
      if_pos (by omega)]
    rfl
  · rintro _ ⟨⟩
    rw [isSecond_iff, hfirst, toNat_later]
    omega
  · exact List.forall_mem_singleton.2 (isContinuation_later n)
  · simp only [List.foldl_cons, List.foldl_nil, List.length_cons, List.length_nil, hfirst,
      toNat_later]
    omega

theorem spells_four (h : 0xffff < n) (hvalid : n < 0x110000) :
    Spells (UInt8.ofNat (n / 262144 % 8 + 0xf0))
      [UInt8.ofNat (n / 4096 % 64 + 128), UInt8.ofNat (n / 64 % 64 + 128),
        UInt8.ofNat (n % 64 + 128)] (Char.ofNat n) := by
  have hfirst : (UInt8.ofNat (n / 262144 % 8 + 0xf0)).toNat = n / 262144 % 8 + 0xf0 :=
    toNat_byte (by omega)
  refine ⟨?_, ?_, ?_, congrArg Char.ofNat ?_⟩
  · rw [continuations?_eq, hfirst, if_neg (by omega), if_neg (by omega), if_neg (by omega),
      if_neg (by omega), if_pos (by omega)]
    rfl
  · rintro _ ⟨⟩
    rw [isSecond_iff, hfirst, toNat_later]
    omega
  · exact List.forall_mem_cons.2
      ⟨isContinuation_later (n / 64), List.forall_mem_singleton.2 (isContinuation_later n)⟩
  · simp only [List.foldl_cons, List.foldl_nil, List.length_cons, List.length_nil, hfirst,
      toNat_later]
    omega

theorem spells_encode (c : Char) : ∃ first more,
    String.utf8EncodeChar c = first :: more ∧ Spells first more c := by
  -- neither half of a surrogate pair nor beyond the last character
  have hvalid : c.val.toNat < 0xd800 ∨ 0xdfff < c.val.toNat ∧ c.val.toNat < 0x110000 := c.valid
  have hc : Char.ofNat c.val.toNat = c := Char.ofNat_toNat c
  rw [String.utf8EncodeChar]
  generalize c.val.toNat = n at hvalid hc
  subst hc
  split
  · exact ⟨_, _, rfl, spells_one (by omega)⟩
  · split
    · exact ⟨_, _, rfl, spells_two (by omega) (by omega)⟩
    · split
      · exact ⟨_, _, rfl, spells_three (by omega) (by omega) (by omega)⟩
      · exact ⟨_, _, rfl, spells_four (by omega) (by omega)⟩

-- ---------------------------------------------------------------------------
-- Texts
-- ---------------------------------------------------------------------------

theorem decodeUtf8From_encode (cs : List Char) {fuel : Nat} (h : cs.length ≤ fuel)
    (position : Nat) :
    decodeUtf8From fuel position (cs.flatMap String.utf8EncodeChar) = .ok cs := by
  induction cs generalizing fuel position with
  | nil => cases fuel <;> rfl
  | cons c cs ih =>
    obtain ⟨fuel, rfl⟩ : ∃ k, fuel = k + 1 := ⟨fuel - 1, by grind⟩
    obtain ⟨first, more, hbytes, hspells⟩ := spells_encode c
    rw [List.flatMap_cons, hbytes, List.cons_append, hspells.decode,
      ih (Nat.le_of_succ_le_succ h)]
    rfl

theorem length_le_length_encode (cs : List Char) :
    cs.length ≤ (cs.flatMap String.utf8EncodeChar).length := by
  induction cs with
  | nil => exact Nat.zero_le _
  | cons c cs ih =>
    have hpos : 0 < c.utf8Size := c.utf8Size_pos
    rw [List.length_cons, List.flatMap_cons, List.length_append, String.length_utf8EncodeChar]
    omega

theorem decode_encode (cs : List Char) :
    decode .utf8 (cs.flatMap String.utf8EncodeChar) = .ok cs :=
  decodeUtf8From_encode cs (Nat.le_succ_of_le (length_le_length_encode cs)) 0

/-- What a file may start with that is no part of its text. -/
def byteOrderMark : List UInt8 := [0xef, 0xbb, 0xbf]

/-- The bytes hold the text in UTF-8. -/
def Holds (bytes : List UInt8) (s : String) : Prop :=
  bytes = s.toUTF8.toList ∨ bytes = byteOrderMark ++ s.toUTF8.toList

theorem byteOrderMark_eq : byteOrderMark = String.utf8EncodeChar '\ufeff' := by
  decide

end Encoding

-- ---------------------------------------------------------------------------
-- Files
-- ---------------------------------------------------------------------------

namespace Reading

theorem withoutMark_eq {cs : List Char} (h : cs.head? ≠ some '\ufeff') : withoutMark cs = cs := by
  cases cs with
  | nil => rfl
  | cons c cs =>
    refine if_neg fun hc => h ?_
    have hmark : c = '\ufeff' := Char.toNat_inj.1 hc
    rw [List.head?_cons, hmark]

theorem ofBytes_held {bytes : List UInt8} {s : String} (hs : s.toList.head? ≠ some '\ufeff')
    (h : Encoding.Holds bytes s) (path : String) :
    (ofBytes .utf8 path bytes).outcome = .ok s := by
  rcases h with rfl | rfl
  · rw [ofBytes, toList_toUTF8, Encoding.decode_encode]
    have hout : String.ofList (withoutMark s.toList) = s := by
      rw [withoutMark_eq hs, String.ofList_toList]
    exact congrArg Except.ok hout
  · rw [ofBytes, toList_toUTF8, Encoding.byteOrderMark_eq, ← List.flatMap_cons,
      Encoding.decode_encode]
    exact congrArg Except.ok String.ofList_toList

end Reading

end LayeredConfig
