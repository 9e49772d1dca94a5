import Mathlib.Tactic.Common
import InstallScript.Text.Utf8

/-!
Reading UTF-8 gives back the text that was written (`decodeArriving_encodeUtf8`). Each character is
written in one of four widths, and each width has its own branch in the reader.
-/

namespace InstallScript.Text

/-! ## What is written -/

theorem ByteArray.toList_loop (bytes : ByteArray) (i : Nat) (read : List UInt8) :
    ByteArray.toList.loop bytes i read = read.reverse ++ bytes.data.toList.drop i := by
  fun_induction ByteArray.toList.loop bytes i read with
  | case1 i read inside ih =>
    have inside' : i < bytes.data.toList.length := inside
    rw [ih, List.drop_eq_getElem_cons inside', List.reverse_cons, List.append_assoc]
    congr 2
    simp [ByteArray.get!, getElem!_pos, inside]
  | case2 i read outside =>
    have outside' : bytes.data.toList.length ≤ i := Nat.le_of_not_lt outside
    rw [List.drop_eq_nil_of_le outside', List.append_nil]

/-- A text is written character by character. -/
theorem encodeUtf8_eq (s : String) : encodeUtf8 s = s.toList.flatMap String.utf8EncodeChar := by
  have bytes : s.toUTF8.data.toList = s.toList.flatMap String.utf8EncodeChar := by
    show s.toByteArray.data.toList = _
    rw [← String.utf8Encode_toList, List.utf8Encode.eq_1, List.data_toByteArray]
  rw [encodeUtf8, ByteArray.toList, ByteArray.toList_loop, bytes]
  rfl

/-! ## One character -/

theorem toNat_byte {n : Nat} (small : n < 256) : (UInt8.ofNat n).toNat = n := by
  simpa using small

theorem isContinuation_iff {b : UInt8} :
    isContinuation b = true ↔ 128 ≤ b.toNat ∧ b.toNat < 192 := by
  simp [isContinuation, UInt8.le_iff_toNat_le, UInt8.lt_iff_toNat_lt]

/-- The second byte may be any that continues a sequence, unless the first one leaves a part of them
to shorter forms, to surrogates or to numbers that are too large. -/
theorem fitsSecond_of {a b : UInt8} (continues : isContinuation b = true)
    (overlong : a.toNat = 0xE0 → 0xA0 ≤ b.toNat) (surrogate : a.toNat = 0xED → b.toNat < 0xA0)
    (overlong' : a.toNat = 0xF0 → 0x90 ≤ b.toNat) (large : a.toNat = 0xF4 → b.toNat < 0x90) :
    fitsSecond a b = true := by
  rw [fitsSecond, continues, Bool.true_and]
  split
  · rename_i first
    exact decide_eq_true (UInt8.le_iff_toNat_le.2 (overlong (by rw [first]; rfl)))
  · split
    · rename_i first
      exact decide_eq_true (UInt8.lt_iff_toNat_lt.2 (surrogate (by rw [first]; rfl)))
    · split
      · rename_i first
        exact decide_eq_true (UInt8.le_iff_toNat_le.2 (overlong' (by rw [first]; rfl)))
      · split
        · rename_i first
          exact decide_eq_true (UInt8.lt_iff_toNat_lt.2 (large (by rw [first]; rfl)))
        · rfl

section

variable {a b c d : UInt8} (start : Nat) (rest : List UInt8)

theorem decode_single (first : a.toNat < 0x80) : decodeUtf8From start (a :: rest) =
    (decodeUtf8From (start + 1) rest).map (Char.ofNat a.toNat :: ·) := by
  have single : a < 0x80 := UInt8.lt_iff_toNat_lt.2 first
  rw [decodeUtf8From.eq_def]
  exact if_pos single

/-- A byte that may be the first of several is neither a character of its own nor misplaced. -/
theorem first_of_several (first : 0xC2 ≤ a.toNat ∧ a.toNat < 0xF5) :
    ¬ a < 0x80 ∧ ¬ (a < 0xC2 ∨ 0xF5 ≤ a) := by
  simp only [UInt8.lt_iff_toNat_lt, UInt8.le_iff_toNat_le, UInt8.reduceToNat]
  omega

theorem decode_pair (first : 0xC2 ≤ a.toNat ∧ a.toNat < 0xE0) (fits : fitsSecond a b = true) :
    decodeUtf8From start (a :: b :: rest) = (decodeUtf8From (start + 2) rest).map
      (Char.ofNat (a.toNat % 32 * 64 + payload b) :: ·) := by
  obtain ⟨several, starts⟩ := first_of_several (a := a) (by omega)
  have width : a < 0xE0 := UInt8.lt_iff_toNat_lt.2 first.2
  rw [decodeUtf8From.eq_def]
  dsimp only
  rw [if_neg several]
  simp [starts, fits, width]

theorem decode_triple (first : 0xE0 ≤ a.toNat ∧ a.toNat < 0xF0) (fits : fitsSecond a b = true)
    (third : isContinuation c = true) :
    decodeUtf8From start (a :: b :: c :: rest) = (decodeUtf8From (start + 3) rest).map
      (Char.ofNat (a.toNat % 16 * 4096 + payload b * 64 + payload c) :: ·) := by
  obtain ⟨several, starts⟩ := first_of_several (a := a) (by omega)
  have notPair : ¬ a < 0xE0 := fun low => Nat.not_lt_of_le first.1 (UInt8.lt_iff_toNat_lt.1 low)
  have width : a < 0xF0 := UInt8.lt_iff_toNat_lt.2 first.2
  rw [decodeUtf8From.eq_def]
  dsimp only
  rw [if_neg several]
  simp [starts, fits, notPair, width, third]

theorem decode_quadruple (first : 0xF0 ≤ a.toNat ∧ a.toNat < 0xF5) (fits : fitsSecond a b = true)
    (third : isContinuation c = true) (fourth : isContinuation d = true) :
    decodeUtf8From start (a :: b :: c :: d :: rest) = (decodeUtf8From (start + 4) rest).map
      (Char.ofNat (a.toNat % 8 * 262144 + payload b * 4096 + payload c * 64 + payload d) :: ·) := by
  obtain ⟨several, starts⟩ := first_of_several (a := a) (by omega)
  have notPair : ¬ a < 0xE0 := by
    simp only [UInt8.lt_iff_toNat_lt, UInt8.reduceToNat]
    omega
  have notTriple : ¬ a < 0xF0 := fun low => Nat.not_lt_of_le first.1 (UInt8.lt_iff_toNat_lt.1 low)
  rw [decodeUtf8From.eq_def]
  dsimp only
  rw [if_neg several]
  simp [starts, fits, notPair, notTriple, third, fourth]

end

/-- A continuation byte carries six bits. -/
theorem continuation (n : Nat) :
    (UInt8.ofNat (n % 64 + 128)).toNat = n % 64 + 128 ∧
      isContinuation (UInt8.ofNat (n % 64 + 128)) = true ∧
      payload (UInt8.ofNat (n % 64 + 128)) = n % 64 := by
  have value : (UInt8.ofNat (n % 64 + 128)).toNat = n % 64 + 128 := toNat_byte (by omega)
  refine ⟨value, isContinuation_iff.2 ?_, ?_⟩
  · omega
  · rw [payload, value]
    omega

/-- A character that has been written is read first. -/
theorem decode_char (start : Nat) (c : Char) (rest : List UInt8) :
    ∃ next, decodeUtf8From start (String.utf8EncodeChar c ++ rest) =
      (decodeUtf8From next rest).map (c :: ·) := by
  have valid : c.toNat < 0xD800 ∨ 0xDFFF < c.toNat ∧ c.toNat < 0x110000 := c.valid
  have same {n : Nat} (number : n = c.toNat) : Char.ofNat n = c := by
    rw [number, Char.ofNat_toNat]
  generalize value : c.toNat = v at valid same
  have value' : c.val.toNat = v := value
  unfold String.utf8EncodeChar
  rw [value']
  dsimp only
  obtain ⟨last, lastContinues, lastBits⟩ := continuation v
  obtain ⟨middle, middleContinues, middleBits⟩ := continuation (v / 64)
  obtain ⟨inner, innerContinues, innerBits⟩ := continuation (v / 4096)
  by_cases one : v ≤ 127
  · have first : (UInt8.ofNat v).toNat = v := toNat_byte (by omega)
    rw [if_pos one]
    exact ⟨start + 1, by rw [List.singleton_append, decode_single _ _ (by omega), same first]⟩
  by_cases two : v ≤ 2047
  · have first : (UInt8.ofNat (v / 64 % 32 + 192)).toNat = v / 64 + 192 := by
      rw [toNat_byte (by omega)]
      omega
    rw [if_neg one, if_pos two]
    refine ⟨start + 2, ?_⟩
    rw [List.cons_append, List.singleton_append, decode_pair _ _ (by omega)
      (fitsSecond_of lastContinues (by omega) (by omega) (by omega) (by omega)), lastBits,
      same (by omega)]
  by_cases three : v ≤ 65535
  · have first : (UInt8.ofNat (v / 4096 % 16 + 224)).toNat = v / 4096 + 224 := by
      rw [toNat_byte (by omega)]
      omega
    rw [if_neg one, if_neg two, if_pos three]
    refine ⟨start + 3, ?_⟩
    rw [List.cons_append, List.cons_append, List.singleton_append, decode_triple _ _ (by omega)
      (fitsSecond_of middleContinues (by omega) (by omega) (by omega) (by omega)) lastContinues,
      middleBits, lastBits, same (by omega)]
  · have first : (UInt8.ofNat (v / 262144 % 8 + 240)).toNat = v / 262144 + 240 := by
      rw [toNat_byte (by omega)]
      omega
    rw [if_neg one, if_neg two, if_neg three]
    refine ⟨start + 4, ?_⟩
    rw [List.cons_append, List.cons_append, List.cons_append, List.singleton_append,
      decode_quadruple _ _ (by omega)
        (fitsSecond_of innerContinues (by omega) (by omega) (by omega) (by omega)) middleContinues
        lastContinues, innerBits, middleBits, lastBits, same (by omega)]

/-! ## Texts -/

theorem decode_chars (start : Nat) (cs : List Char) :
    decodeUtf8From start (cs.flatMap String.utf8EncodeChar) = .ok cs := by
  induction cs generalizing start with
  | nil => rfl
  | cons c cs ih =>
    obtain ⟨next, eq⟩ := decode_char start c (cs.flatMap String.utf8EncodeChar)
    rw [List.flatMap_cons, eq, ih]
    rfl

/-- A text that has been written is read back, and no character is cut off. -/
theorem decodeArriving_encodeUtf8 (s : String) :
    decodeArriving (encodeUtf8 s) = .ok (s.toList, none) := by
  rw [decodeArriving, decodeUtf8, encodeUtf8_eq, decode_chars]

end InstallScript.Text
