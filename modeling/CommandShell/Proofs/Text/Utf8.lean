import CommandShell.Text.Utf8

/-!
# Reading what was written

Bytes that were written as UTF-8 are read back as the text that was written. The reader has no look-ahead: the first byte of a character decides how many follow and in which range the second one lies, and each further byte adds six bits. For a character that was written these ranges are met, because the second byte of a short first part is large enough, and no character is a surrogate or beyond the last one.

So the texts of bytes are exactly the bytes of texts, and a byte below 128 stands for nothing but its own character.
-/

namespace CommandShell

theorem toNat_ofNat_byte {n : Nat} (h : n < 256) : (UInt8.ofNat n).toNat = n :=
  Nat.mod_eq_of_lt h

theorem decodeFrom_cons (state : Option OpenCharacter) (b : UInt8) (rest : Bytes) :
    decodeFrom state (b :: rest) = (readByte state b).1 ++ decodeFrom (readByte state b).2 rest := by
  cases state <;> rfl

/-! ### First bytes -/

theorem readFirst_ascii {n : Nat} (h : n < 128) :
    readFirst (UInt8.ofNat n) = ([Char.ofNat n], none) := by
  have hbyte := toNat_ofNat_byte (show n < 256 by omega)
  rw [readFirst, if_pos, hbyte]
  rw [UInt8.lt_iff_toNat_lt, hbyte]
  exact h

/-- The first byte of two. -/
theorem readFirst_two {n : Nat} (hlow : 0xC2 ≤ n) (hhigh : n ≤ 0xDF) :
    readFirst (UInt8.ofNat n) = ([], some { bits := n - 0xC0, missing := 1 }) := by
  have hbyte := toNat_ofNat_byte (show n < 256 by omega)
  simp only [readFirst, OpenCharacter.first?, UInt8.lt_iff_toNat_lt, UInt8.le_iff_toNat_le, hbyte]
  rw [if_neg (by simp; omega), if_neg (by simp; omega), if_pos (by simpa using hhigh)]

/-- The first byte of three. -/
theorem readFirst_three {n : Nat} (hlow : 0xE0 ≤ n) (hhigh : n ≤ 0xEF) :
    readFirst (UInt8.ofNat n) =
      ([], some
        { bits := n - 0xE0
          missing := 2
          low := if n = 0xE0 then 0xA0 else 0x80
          high := if n = 0xED then 0x9F else 0xBF }) := by
  by_cases hfirst : n = 0xE0
  · subst hfirst
    rfl
  · by_cases hsurrogates : n = 0xED
    · subst hsurrogates
      rfl
    · have hbyte := toNat_ofNat_byte (show n < 256 by omega)
      simp only [readFirst, OpenCharacter.first?, UInt8.lt_iff_toNat_lt, UInt8.le_iff_toNat_le,
        ← UInt8.toNat_inj, hbyte]
      rw [if_neg (by simp; omega), if_neg (by simp; omega), if_neg (by simp; omega),
        if_neg (by simpa using hfirst), if_neg (by simpa using hsurrogates),
        if_pos (by simpa using hhigh), if_neg hfirst, if_neg hsurrogates]

/-- The first byte of four. -/
theorem readFirst_four {n : Nat} (hlow : 0xF0 ≤ n) (hhigh : n ≤ 0xF4) :
    readFirst (UInt8.ofNat n) =
      ([], some
        { bits := n - 0xF0
          missing := 3
          low := if n = 0xF0 then 0x90 else 0x80
          high := if n = 0xF4 then 0x8F else 0xBF }) := by
  obtain rfl | rfl | rfl | rfl | rfl : n = 0xF0 ∨ n = 0xF1 ∨ n = 0xF2 ∨ n = 0xF3 ∨ n = 0xF4 := by
    omega
  all_goals rfl

/-! ### Further bytes -/

/-- A byte in the range of an open character adds six bits to it. -/
theorem readByte_open {part : OpenCharacter} {n : Nat} (hn : n < 64)
    (hlow : part.low.toNat ≤ n + 0x80) (hhigh : n + 0x80 ≤ part.high.toNat) :
    readByte (some part) (UInt8.ofNat (n + 0x80)) =
      if part.missing ≤ 1 then ([Char.ofNat (part.bits * 64 + n)], none)
      else ([], some { bits := part.bits * 64 + n, missing := part.missing - 1 }) := by
  have hbyte := toNat_ofNat_byte (show n + 0x80 < 256 by omega)
  rw [readByte, if_pos, hbyte, Nat.add_sub_cancel]
  rw [Bool.and_eq_true, decide_eq_true_iff, decide_eq_true_iff, UInt8.le_iff_toNat_le,
    UInt8.le_iff_toNat_le, hbyte]
  exact ⟨hlow, hhigh⟩

/-- The last byte of a character. -/
theorem decodeFrom_last {bits n : Nat} {low high : UInt8} (hn : n < 64) (hlow : low.toNat ≤ n + 0x80)
    (hhigh : n + 0x80 ≤ high.toNat) (rest : Bytes) :
    decodeFrom (some { bits, missing := 1, low, high }) (UInt8.ofNat (n + 0x80) :: rest) =
      Char.ofNat (bits * 64 + n) :: decodeFrom none rest := by
  rw [decodeFrom_cons, readByte_open hn hlow hhigh]
  rfl

/-- A byte that others follow. -/
theorem decodeFrom_next {bits missing n : Nat} {low high : UInt8} (hn : n < 64)
    (hlow : low.toNat ≤ n + 0x80) (hhigh : n + 0x80 ≤ high.toNat) (rest : Bytes) :
    decodeFrom (some { bits, missing := missing + 2, low, high }) (UInt8.ofNat (n + 0x80) :: rest) =
      decodeFrom (some { bits := bits * 64 + n, missing := missing + 1 }) rest := by
  rw [decodeFrom_cons, readByte_open hn hlow hhigh, if_neg (by simp)]
  rfl

/-! ### Characters and texts -/

theorem decodeFrom_utf8EncodeChar (c : Char) (rest : Bytes) :
    decodeFrom none (String.utf8EncodeChar c ++ rest) = c :: decodeFrom none rest := by
  have hvalid : c.val.toNat < 0xD800 ∨ 0xDFFF < c.val.toNat ∧ c.val.toNat < 0x110000 := c.valid
  have hchar : Char.ofNat c.val.toNat = c := Char.ofNat_toNat c
  rw [String.utf8EncodeChar]
  generalize c.val.toNat = v at hvalid hchar
  split
  · next hsize =>
    rw [List.singleton_append, decodeFrom_cons, readByte, readFirst_ascii (by omega), hchar]
    rfl
  · split
    · next hsize =>
      rw [List.cons_append, decodeFrom_cons, readByte, readFirst_two (by omega) (by omega)]
      dsimp only [List.nil_append, List.cons_append]
      rw [decodeFrom_last (by omega) (by simp) (by simp; omega)]
      rw [show (v / 64 % 0x20 + 0xC0 - 0xC0) * 64 + v % 0x40 = v by omega, hchar]
    · split
      · next hsize =>
        rw [List.cons_append, decodeFrom_cons, readByte, readFirst_three (by omega) (by omega)]
        dsimp only [List.nil_append, List.cons_append]
        rw [decodeFrom_next (by omega) (by split <;> simp; omega) (by split <;> simp <;> omega),
          decodeFrom_last (by omega) (by simp) (by simp; omega)]
        rw [show ((v / 4096 % 0x10 + 0xE0 - 0xE0) * 64 + v / 64 % 0x40) * 64 + v % 0x40 = v by omega,
          hchar]
      · next hsize =>
        rw [List.cons_append, decodeFrom_cons, readByte, readFirst_four (by omega) (by omega)]
        dsimp only [List.nil_append, List.cons_append]
        rw [decodeFrom_next (by omega) (by split <;> simp; omega) (by split <;> simp <;> omega),
          decodeFrom_next (by omega) (by simp) (by simp; omega),
          decodeFrom_last (by omega) (by simp) (by simp; omega)]
        rw [show (((v / 262144 % 0x08 + 0xF0 - 0xF0) * 64 + v / 4096 % 0x40) * 64 + v / 64 % 0x40) * 64 +
          v % 0x40 = v by omega, hchar]

theorem decoded_utf8 (t : Text) : Bytes.decoded t.utf8 = t := by
  rw [Bytes.decoded, Text.utf8]
  induction t with
  | nil => rfl
  | cons c t ih => rw [List.flatMap_cons, decodeFrom_utf8EncodeChar, ih]

theorem text?_eq_some_iff {bytes : Bytes} {t : Text} : bytes.text? = some t ↔ bytes = t.utf8 := by
  constructor
  · intro h
    rw [Bytes.text?] at h
    split at h
    · next hbytes => rw [← Option.some.inj h, hbytes]
    · simp at h
  · rintro rfl
    rw [Bytes.text?, decoded_utf8, if_pos rfl]

theorem utf8EncodeChar_ne_nil (c : Char) : String.utf8EncodeChar c ≠ [] := by
  intro hnil
  have hlength := String.length_utf8EncodeChar c
  have hsize := c.utf8Size_pos
  rw [hnil, List.length_nil] at hlength
  omega

/-- All bytes of a character beyond ASCII are 128 or more. -/
theorem le_toNat_of_mem_utf8EncodeChar {c : Char} (hc : 128 ≤ c.val.toNat) {b : UInt8}
    (hb : b ∈ String.utf8EncodeChar c) : 128 ≤ b.toNat := by
  rw [String.utf8EncodeChar] at hb
  generalize c.val.toNat = v at *
  rw [if_neg (by omega)] at hb
  split at hb
  · simp only [List.mem_cons, List.not_mem_nil, or_false] at hb
    rcases hb with rfl | rfl <;> rw [toNat_ofNat_byte (by omega)] <;> omega
  · split at hb
    · simp only [List.mem_cons, List.not_mem_nil, or_false] at hb
      rcases hb with rfl | rfl | rfl <;> rw [toNat_ofNat_byte (by omega)] <;> omega
    · simp only [List.mem_cons, List.not_mem_nil, or_false] at hb
      rcases hb with rfl | rfl | rfl | rfl <;> rw [toNat_ofNat_byte (by omega)] <;> omega

theorem utf8EncodeChar_ascii {c : Char} (hc : c.val.toNat < 128) :
    String.utf8EncodeChar c = [UInt8.ofNat c.val.toNat] := by
  rw [String.utf8EncodeChar, if_pos (by omega)]

/-- A byte below 128 is written for its own character only. -/
theorem toNat_eq_of_mem_utf8EncodeChar {c : Char} {b : UInt8} (hb : b.toNat < 128)
    (hmem : b ∈ String.utf8EncodeChar c) : c.val.toNat = b.toNat := by
  by_cases hc : c.val.toNat < 128
  · rw [utf8EncodeChar_ascii hc, List.mem_singleton] at hmem
    rw [hmem, toNat_ofNat_byte (by omega)]
  · have := le_toNat_of_mem_utf8EncodeChar (by omega) hmem
    omega

/-! ### Bytes as characters -/

theorem toNat_val_ofUInt8 (b : UInt8) : (Char.ofUInt8 b).val.toNat = b.toNat :=
  UInt8.toNat_toUInt32 b

theorem toNat_val_lt_of_utf8Size {c : Char} (h : c.utf8Size = 1) : c.val.toNat < 128 := by
  have hle := UInt32.le_iff_toNat_le.1 (Char.utf8Size_eq_one_iff.1 h)
  exact Nat.lt_succ_of_le hle

/-- The first byte of a character beyond ASCII is no ASCII character, so a test that only ASCII characters pass has the same answer for a character and for its first byte. -/
theorem test_ofUInt8 {p : Char → Bool} (hp : ∀ c, p c = true → c.utf8Size = 1) {c : Char} {b : UInt8}
    {more : Bytes} (h : String.utf8EncodeChar c = b :: more) :
    p (Char.ofUInt8 b) = p c ∧ (p c = true → more = []) := by
  by_cases hc : c.val.toNat < 128
  · rw [utf8EncodeChar_ascii hc] at h
    obtain ⟨rfl, rfl⟩ := List.cons.inj h
    have hchar : Char.ofUInt8 (UInt8.ofNat c.val.toNat) = c := by
      apply Char.ext
      apply UInt32.toNat_inj.1
      rw [toNat_val_ofUInt8, toNat_ofNat_byte (by omega)]
    exact ⟨by rw [hchar], fun _ => rfl⟩
  · have hb : 128 ≤ b.toNat := le_toNat_of_mem_utf8EncodeChar (Nat.le_of_not_lt hc) (by simp [h])
    have hfails (d : Char) (hd : 128 ≤ d.val.toNat) : p d = false := by
      apply Bool.eq_false_iff.2
      intro hpasses
      exact Nat.not_lt.2 hd (toNat_val_lt_of_utf8Size (hp d hpasses))
    have hfirst := hfails (Char.ofUInt8 b) (by rwa [toNat_val_ofUInt8])
    have hwhole := hfails c (Nat.le_of_not_lt hc)
    rw [hfirst, hwhole]
    exact ⟨rfl, fun hpasses => absurd hpasses Bool.false_ne_true⟩

theorem ofUInt8_eq_iff {c d : Char} (hd : d.utf8Size = 1) {b : UInt8} {more : Bytes}
    (h : String.utf8EncodeChar c = b :: more) :
    (Char.ofUInt8 b = d ↔ c = d) ∧ (c = d → more = []) := by
  have htest := test_ofUInt8 (p := fun e => e == d) (fun e he => by rw [beq_iff_eq.1 he, hd]) h
  rw [beq_iff_eq] at htest
  exact ⟨by rw [← beq_iff_eq, htest.1, beq_iff_eq], htest.2⟩

/-- An ASCII character is found among the bytes of no other character. -/
theorem eq_of_mem_utf8EncodeChar {c d : Char} (hd : d.utf8Size = 1) {b : UInt8}
    (hb : b ∈ String.utf8EncodeChar c) (h : Char.ofUInt8 b = d) : c = d := by
  have hbyte : b.toNat = d.val.toNat := by rw [← toNat_val_ofUInt8, h]
  apply Char.ext
  apply UInt32.toNat_inj.1
  rw [toNat_eq_of_mem_utf8EncodeChar (by rw [hbyte]; exact toNat_val_lt_of_utf8Size hd) hb, hbyte]

namespace Text

theorem utf8_cons (c : Char) (t : Text) : utf8 (c :: t) = String.utf8EncodeChar c ++ utf8 t := rfl

theorem utf8_eq_nil_iff {t : Text} : utf8 t = [] ↔ t = [] := by
  cases t with
  | nil => simp [utf8]
  | cons c t => simp [utf8_cons]

theorem utf8_append (left right : Text) : utf8 (left ++ right) = utf8 left ++ utf8 right :=
  List.flatMap_append

theorem utf8Size_append (left right : Text) :
    utf8Size (left ++ right) = left.utf8Size + right.utf8Size := by
  simp only [utf8Size_eq_length, utf8_append, List.length_append]

end Text

theorem takeWhile_utf8 {p : Char → Bool} (hp : ∀ c, p c = true → c.utf8Size = 1) (t : Text) :
    t.utf8.takeWhile (fun b => p (Char.ofUInt8 b)) = Text.utf8 (t.takeWhile p) := by
  induction t with
  | nil => rfl
  | cons c t ih =>
    obtain ⟨b, more, hbytes⟩ := List.exists_cons_of_ne_nil (utf8EncodeChar_ne_nil c)
    obtain ⟨hb, hmore⟩ := test_ofUInt8 hp hbytes
    rw [Text.utf8_cons, hbytes, List.cons_append, List.takeWhile_cons, List.takeWhile_cons, hb]
    split
    · next hc => rw [Text.utf8_cons, hbytes, hmore hc, List.nil_append, ih, List.singleton_append]
    · rfl

end CommandShell
