import Mathlib.Algebra.Group.Nat.Defs
import CommandShell.Proofs.Text.Utf8

/-!
# Reading bytes that need not be text

Bytes are read as text without ever failing. Where no character is written, the longest stretch that begins a character is replaced, or a single byte if it begins none. `ReadAs` says this about bytes and texts, without a word about how the reader works: it looks at everything that follows, while the reader sees one byte at a time.

The reader gets along without looking ahead because of what it remembers of an open character. `Awaits` relates this memory to the bytes that were read: the characters that begin with these bytes are known by their bits, and the range for the next byte leaves out exactly those bytes that no character goes on with.
-/

namespace CommandShell

/-! ### What lossy reading is -/

/-- The bytes begin a character. -/
def BeginsCharacter (bytes : Bytes) : Prop :=
  ∃ c : Char, bytes <+: String.utf8EncodeChar c

/-- No character is written in front of the bytes `part ++ rest`, and `part` is the longest stretch there that begins a character or is a single byte. -/
structure IsReplaced (part rest : Bytes) : Prop where
  noCharacter : ∀ c : Char, ¬String.utf8EncodeChar c <+: part ++ rest
  isSubpart : part ≠ [] ∧ (BeginsCharacter part ∨ part.length = 1)
  isLongest : ∀ longer, longer <+: part ++ rest → BeginsCharacter longer ∨ longer.length = 1 →
    longer.length ≤ part.length

/-- The text is what the bytes are read as. -/
inductive ReadAs : Bytes → Text → Prop
  | nil : ReadAs [] []
  | character (c : Char) {rest : Bytes} {t : Text} (hrest : ReadAs rest t) :
    ReadAs (String.utf8EncodeChar c ++ rest) (c :: t)
  | replaced {part rest : Bytes} {t : Text} (hpart : IsReplaced part rest) (hrest : ReadAs rest t) :
    ReadAs (part ++ rest) (replacementCharacter :: t)

theorem BeginsCharacter.of_isPrefix {bytes longer : Bytes} (h : BeginsCharacter longer)
    (hshorter : bytes <+: longer) : BeginsCharacter bytes := by
  obtain ⟨c, hc⟩ := h
  exact ⟨c, hshorter.trans hc⟩

theorem eq_of_utf8EncodeChar_append {c d : Char} {rest others : Bytes}
    (h : String.utf8EncodeChar c ++ rest = String.utf8EncodeChar d ++ others) :
    c = d ∧ rest = others := by
  have hcd : c = d := by
    have hread := congrArg (decodeFrom none) h
    rw [decodeFrom_utf8EncodeChar, decodeFrom_utf8EncodeChar] at hread
    exact (List.cons.inj hread).1
  subst hcd
  exact ⟨rfl, List.append_cancel_left h⟩

/-- No character is written as the beginning of another. -/
theorem eq_of_utf8EncodeChar_isPrefix {c d : Char}
    (h : String.utf8EncodeChar c <+: String.utf8EncodeChar d) : c = d := by
  obtain ⟨more, hmore⟩ := h
  rw [← List.append_nil (String.utf8EncodeChar d)] at hmore
  exact (eq_of_utf8EncodeChar_append hmore).1

theorem IsReplaced.eq_of_append {part other rest others : Bytes} (hpart : IsReplaced part rest)
    (hother : IsReplaced other others) (h : part ++ rest = other ++ others) :
    part = other ∧ rest = others := by
  have hle := hpart.isLongest other (h ▸ List.prefix_append other others) hother.isSubpart.2
  have hge := hother.isLongest part (h ▸ List.prefix_append part rest) hpart.isSubpart.2
  exact List.append_inj h (by omega)

/-- Bytes are read as one text only. -/
theorem ReadAs.unique {bytes : Bytes} {t u : Text} (ht : ReadAs bytes t) (hu : ReadAs bytes u) :
    t = u := by
  induction ht generalizing u with
  | nil =>
    generalize hbytes : ([] : Bytes) = bytes at hu
    cases hu with
    | nil => rfl
    | character c _ => exact absurd (List.append_eq_nil_iff.1 hbytes.symm).1 (utf8EncodeChar_ne_nil c)
    | replaced hpart _ => exact absurd (List.append_eq_nil_iff.1 hbytes.symm).1 hpart.isSubpart.1
  | @character c rest t _ ih =>
    generalize hbytes : String.utf8EncodeChar c ++ rest = bytes at hu
    cases hu with
    | nil => exact absurd (List.append_eq_nil_iff.1 hbytes).1 (utf8EncodeChar_ne_nil c)
    | character d hrest =>
      obtain ⟨rfl, rfl⟩ := eq_of_utf8EncodeChar_append hbytes
      rw [ih hrest]
    | replaced hpart _ =>
      exact absurd (hbytes ▸ List.prefix_append _ rest) (hpart.noCharacter c)
  | @replaced part rest t hpart _ ih =>
    generalize hbytes : part ++ rest = bytes at hu
    cases hu with
    | nil => exact absurd (List.append_eq_nil_iff.1 hbytes).1 hpart.isSubpart.1
    | @character c others _ _ =>
      exact absurd (hbytes ▸ List.prefix_append _ others) (hpart.noCharacter c)
    | replaced hother hrest =>
      obtain ⟨-, rfl⟩ := hpart.eq_of_append hother hbytes
      rw [ih hrest]

/-- A character below 128 is read from its own byte only. -/
theorem ReadAs.mem_of_mem {bytes : Bytes} {t : Text} (h : ReadAs bytes t) {c : Char}
    (hc : c.toNat < 128) (hmem : c ∈ t) : UInt8.ofNat c.toNat ∈ bytes := by
  induction h with
  | nil => simp at hmem
  | character d _ ih =>
    rw [List.mem_append]
    rcases List.mem_cons.1 hmem with rfl | hrest
    · have hbytes : String.utf8EncodeChar c = [UInt8.ofNat c.toNat] := utf8EncodeChar_ascii hc
      simp [hbytes]
    · exact .inr (ih hrest)
  | replaced _ _ ih =>
    rw [List.mem_append]
    rcases List.mem_cons.1 hmem with rfl | hrest
    · exact absurd hc (by decide)
    · exact .inr (ih hrest)

/-! ### The bytes of a character by its number -/

/-- The last `count` bytes of the character with this number. Each has six bits of it. -/
def tailBytes (number : Nat) : Nat → Bytes
  | 0 => []
  | count + 1 => UInt8.ofNat (number / 64 ^ count % 64 + 0x80) :: tailBytes number count

/-- The number is that of a character with `rest + 2` bytes. -/
def TakesBytes (number : Nat) : Nat → Prop
  | 0 => 0x80 ≤ number ∧ number < 0x800
  | 1 => 0x800 ≤ number ∧ number < 0x10000 ∧ (number < 0xD800 ∨ 0xDFFF < number)
  | 2 => 0x10000 ≤ number ∧ number < 0x110000
  | _ => False

/-- What marks the first of `rest + 2` bytes. -/
def firstMark : Nat → Nat
  | 0 => 0xC0
  | 1 => 0xE0
  | _ => 0xF0

/-- The first byte of the character with this number, if it has `rest + 2` bytes. -/
def firstByte (number rest : Nat) : Nat :=
  number / 64 ^ (rest + 1) + firstMark rest

theorem utf8EncodeChar_of_takesBytes {c : Char} {rest : Nat} (h : TakesBytes c.toNat rest) :
    String.utf8EncodeChar c =
      UInt8.ofNat (firstByte c.toNat rest) :: tailBytes c.toNat (rest + 1) := by
  have hnumber : c.val.toNat = c.toNat := rfl
  rw [String.utf8EncodeChar, hnumber, firstByte]
  generalize c.toNat = number at h
  match rest, h with
  | 0, ⟨hlow, hhigh⟩ =>
    rw [if_neg (by omega), if_pos (by omega), show number / 64 % 32 = number / 64 ^ 1 by omega]
    simp [tailBytes, firstMark]
  | 1, ⟨hlow, hhigh, _⟩ =>
    rw [if_neg (by omega), if_neg (by omega), if_pos (by omega),
      show number / 4096 % 16 = number / 64 ^ 2 by omega]
    simp [tailBytes, firstMark]
  | 2, ⟨hlow, hhigh⟩ =>
    rw [if_neg (by omega), if_neg (by omega), if_neg (by omega),
      show number / 262144 % 8 = number / 64 ^ 3 by omega]
    simp [tailBytes, firstMark]

theorem takesBytes_cases (c : Char) : c.toNat < 0x80 ∨ ∃ rest, TakesBytes c.toNat rest := by
  have hvalid : c.toNat < 0xD800 ∨ 0xDFFF < c.toNat ∧ c.toNat < 0x110000 := c.valid
  by_cases hone : c.toNat < 0x80
  · exact .inl hone
  by_cases htwo : c.toNat < 0x800
  · exact .inr ⟨0, by omega, htwo⟩
  by_cases hthree : c.toNat < 0x10000
  · exact .inr ⟨1, by omega, hthree, by omega⟩
  · exact .inr ⟨2, by omega, by omega⟩

theorem toNat_charOfNat {number : Nat} (h : number.isValidChar) : (Char.ofNat number).toNat = number := by
  rw [Char.ofNat, dif_pos h]
  rfl

theorem TakesBytes.isValidChar {number rest : Nat} (h : TakesBytes number rest) :
    number.isValidChar := by
  change number < 0xD800 ∨ 0xDFFF < number ∧ number < 0x110000
  match rest, h with
  | 0, ⟨_, hhigh⟩ => omega
  | 1, ⟨_, hhigh, hsurrogate⟩ => omega
  | 2, ⟨hlow, hhigh⟩ => omega

/-- The byte is the first of `rest + 2`. -/
def IsFirstByte (n : Nat) : Nat → Prop
  | 0 => 0xC2 ≤ n ∧ n ≤ 0xDF
  | 1 => 0xE0 ≤ n ∧ n ≤ 0xEF
  | 2 => 0xF0 ≤ n ∧ n ≤ 0xF4
  | _ => False

theorem isFirstByte_firstByte {number rest : Nat} (h : TakesBytes number rest) :
    IsFirstByte (firstByte number rest) rest := by
  match rest, h with
  | 0, ⟨hlow, hhigh⟩ => simp only [IsFirstByte, firstByte, firstMark]; omega
  | 1, ⟨hlow, hhigh, _⟩ => simp only [IsFirstByte, firstByte, firstMark]; omega
  | 2, ⟨hlow, hhigh⟩ => simp only [IsFirstByte, firstByte, firstMark]; omega

theorem IsFirstByte.bounds {n rest : Nat} (h : IsFirstByte n rest) : 0xC2 ≤ n ∧ n ≤ 0xF4 := by
  match rest, h with
  | 0, ⟨hlow, hhigh⟩ => omega
  | 1, ⟨hlow, hhigh⟩ => omega
  | 2, ⟨hlow, hhigh⟩ => omega

/-- The first byte tells how many bytes follow. -/
theorem IsFirstByte.unique {n rest other : Nat} (h : IsFirstByte n rest)
    (hother : IsFirstByte n other) : rest = other := by
  match rest, other, h, hother with
  | 0, 0, _, _ => rfl
  | 1, 1, _, _ => rfl
  | 2, 2, _, _ => rfl
  | 0, 1, ⟨_, _⟩, ⟨_, _⟩ => omega
  | 0, 2, ⟨_, _⟩, ⟨_, _⟩ => omega
  | 1, 0, ⟨_, _⟩, ⟨_, _⟩ => omega
  | 1, 2, ⟨_, _⟩, ⟨_, _⟩ => omega
  | 2, 0, ⟨_, _⟩, ⟨_, _⟩ => omega
  | 2, 1, ⟨_, _⟩, ⟨_, _⟩ => omega

theorem ofNat_byte_inj {m n : Nat} (hm : m < 256) (hn : n < 256)
    (h : UInt8.ofNat m = UInt8.ofNat n) : m = n := by
  rw [← toNat_ofNat_byte hm, ← toNat_ofNat_byte hn, h]

/-- Which characters begin with a byte. -/
theorem takesBytes_of_isPrefix {c : Char} {n : Nat} (hn : 0x80 ≤ n) (hn' : n < 256)
    (h : [UInt8.ofNat n] <+: String.utf8EncodeChar c) :
    ∃ rest, TakesBytes c.toNat rest ∧ firstByte c.toNat rest = n := by
  rcases takesBytes_cases c with hone | ⟨rest, hrest⟩
  · have hascii : String.utf8EncodeChar c = [UInt8.ofNat c.toNat] := utf8EncodeChar_ascii hone
    rw [hascii] at h
    have heq := ofNat_byte_inj hn' (by omega) (List.cons_prefix_cons.1 h).1
    omega
  · have hbounds := (isFirstByte_firstByte hrest).bounds
    rw [utf8EncodeChar_of_takesBytes hrest] at h
    have heq := ofNat_byte_inj hn' (by omega) (List.cons_prefix_cons.1 h).1
    exact ⟨rest, hrest, heq.symm⟩

/-! ### Open characters -/

theorem div_pow_succ (number count : Nat) : number / 64 ^ (count + 1) = number / 64 ^ count / 64 := by
  rw [Nat.pow_succ, Nat.div_div_eq_div_mul]

namespace OpenCharacter

/-- The next byte may have these six bits. -/
def Expects (part : OpenCharacter) (bits : Nat) : Prop :=
  part.low.toNat ≤ bits + 0x80 ∧ bits + 0x80 ≤ part.high.toNat

/-- The character was left open by the bytes `read`, and behind the next byte `rest` more are missing. The characters that begin with `read` are exactly those whose numbers have its bits in front, and then bits that it expects. -/
structure Awaits (part : OpenCharacter) (read : Bytes) (rest : Nat) : Prop where
  missing : part.missing = rest + 1
  read_ne_nil : read ≠ []
  range : 0x80 ≤ part.low.toNat ∧ part.low.toNat ≤ part.high.toNat ∧ part.high.toNat ≤ 0xBF
  completes : ∀ number, number / 64 ^ (rest + 1) = part.bits →
    part.Expects (number / 64 ^ rest % 64) →
    String.utf8EncodeChar (Char.ofNat number) = read ++ tailBytes number (rest + 1)
  completed : ∀ c : Char, read <+: String.utf8EncodeChar c →
    c.toNat / 64 ^ (rest + 1) = part.bits ∧ part.Expects (c.toNat / 64 ^ rest % 64) ∧
      String.utf8EncodeChar c = read ++ tailBytes c.toNat (rest + 1)

theorem awaits_of_isFirstByte {part : OpenCharacter} {n rest : Nat} (hn : IsFirstByte n rest)
    (hmissing : part.missing = rest + 1)
    (hrange : 0x80 ≤ part.low.toNat ∧ part.low.toNat ≤ part.high.toNat ∧ part.high.toNat ≤ 0xBF)
    (hnumbers : ∀ number, (number / 64 ^ (rest + 1) = part.bits ∧
      part.Expects (number / 64 ^ rest % 64)) ↔ TakesBytes number rest ∧ firstByte number rest = n) :
    part.Awaits [UInt8.ofNat n] rest := by
  refine ⟨hmissing, by simp, hrange, ?_, ?_⟩
  · intro number hbits hexpects
    obtain ⟨htakes, hfirst⟩ := (hnumbers number).1 ⟨hbits, hexpects⟩
    have hnumber := toNat_charOfNat htakes.isValidChar
    rw [← hnumber] at htakes
    rw [utf8EncodeChar_of_takesBytes htakes, hnumber, hfirst]
    rfl
  · intro c hread
    have hbounds := hn.bounds
    obtain ⟨other, htakes, hfirst⟩ := takesBytes_of_isPrefix (by omega) (by omega) hread
    obtain rfl : other = rest := (hfirst ▸ isFirstByte_firstByte htakes).unique hn
    obtain ⟨hbits, hexpects⟩ := (hnumbers c.toNat).2 ⟨htakes, hfirst⟩
    refine ⟨hbits, hexpects, ?_⟩
    rw [utf8EncodeChar_of_takesBytes htakes, hfirst]
    rfl

theorem awaits_two {n : Nat} (hn : IsFirstByte n 0) :
    Awaits { bits := n - 0xC0, missing := 1 } [UInt8.ofNat n] 0 := by
  obtain ⟨hlow, hhigh⟩ := id hn
  refine awaits_of_isFirstByte hn rfl (by simp) ?_
  intro number
  simp [Expects, TakesBytes, firstByte, firstMark]
  omega

theorem awaits_three {n : Nat} (hn : IsFirstByte n 1) :
    Awaits
      { bits := n - 0xE0
        missing := 2
        low := if n = 0xE0 then 0xA0 else 0x80
        high := if n = 0xED then 0x9F else 0xBF } [UInt8.ofNat n] 1 := by
  obtain ⟨hlow, hhigh⟩ := id hn
  refine awaits_of_isFirstByte hn rfl (by split <;> split <;> simp <;> omega) ?_
  intro number
  simp only [Expects, TakesBytes, firstByte, firstMark]
  split <;> split <;> simp <;> omega

theorem awaits_four {n : Nat} (hn : IsFirstByte n 2) :
    Awaits
      { bits := n - 0xF0
        missing := 3
        low := if n = 0xF0 then 0x90 else 0x80
        high := if n = 0xF4 then 0x8F else 0xBF } [UInt8.ofNat n] 2 := by
  obtain ⟨hlow, hhigh⟩ := id hn
  refine awaits_of_isFirstByte hn rfl (by split <;> split <;> simp <;> omega) ?_
  intro number
  simp only [Expects, TakesBytes, firstByte, firstMark]
  split <;> split <;> simp <;> omega

/-- Some character goes on behind the bytes. -/
theorem Awaits.beginsCharacter {part : OpenCharacter} {read : Bytes} {rest : Nat}
    (h : part.Awaits read rest) : BeginsCharacter read := by
  obtain ⟨hlow, hhigh, hlast⟩ := h.range
  -- The next six bits are the least that are expected, and all further ones are 0.
  let number := (part.bits * 64 + (part.low.toNat - 0x80)) * 64 ^ rest
  have hfront : number / 64 ^ rest = part.bits * 64 + (part.low.toNat - 0x80) :=
    Nat.mul_div_cancel _ (Nat.pow_pos (by decide))
  have hbits : number / 64 ^ (rest + 1) = part.bits := by
    rw [div_pow_succ, hfront]
    omega
  have hexpects : part.Expects (number / 64 ^ rest % 64) := by
    rw [hfront]
    constructor <;> omega
  have hchar := h.completes number hbits hexpects
  exact ⟨_, hchar ▸ List.prefix_append _ _⟩

/-- No character ends among the bytes that leave one open. -/
theorem Awaits.not_isPrefix {part : OpenCharacter} {read : Bytes} {rest : Nat}
    (h : part.Awaits read rest) (c : Char) : ¬String.utf8EncodeChar c <+: read := by
  intro hc
  obtain ⟨d, hd⟩ := h.beginsCharacter
  obtain rfl := eq_of_utf8EncodeChar_isPrefix (hc.trans hd)
  have hlength := congrArg List.length (h.completed c hd).2.2
  have hle := hc.length_le
  rw [List.length_append, tailBytes, List.length_cons] at hlength
  omega

/-- The bits of a byte that an open character expects. -/
theorem Awaits.expects {part : OpenCharacter} {read : Bytes} {rest : Nat}
    (h : part.Awaits read rest) {b : UInt8} (hlow : part.low ≤ b) (hhigh : b ≤ part.high) :
    UInt8.ofNat (b.toNat - 0x80 + 0x80) = b ∧ b.toNat - 0x80 < 64 ∧ part.Expects (b.toNat - 0x80) := by
  rw [UInt8.le_iff_toNat_le] at hlow hhigh
  obtain ⟨hleast, -, hlast⟩ := h.range
  refine ⟨?_, by omega, ⟨by omega, by omega⟩⟩
  rw [Nat.sub_add_cancel (by omega), UInt8.ofNat_toNat]

/-- The last byte completes a character. -/
theorem Awaits.last {part : OpenCharacter} {read : Bytes} (h : part.Awaits read 0) {b : UInt8}
    (hlow : part.low ≤ b) (hhigh : b ≤ part.high) :
    String.utf8EncodeChar (Char.ofNat (part.bits * 64 + (b.toNat - 0x80))) = read ++ [b] := by
  obtain ⟨hbyte, hbits, hexpects⟩ := h.expects hlow hhigh
  have hdigit : (part.bits * 64 + (b.toNat - 0x80)) / 64 ^ 0 % 64 = b.toNat - 0x80 := by omega
  have hchar := h.completes (part.bits * 64 + (b.toNat - 0x80)) (by omega)
    (by rw [hdigit]; exact hexpects)
  rw [tailBytes, tailBytes, hdigit, hbyte] at hchar
  exact hchar

/-- Any other byte leaves it open. -/
theorem Awaits.next {part : OpenCharacter} {read : Bytes} {rest : Nat}
    (h : part.Awaits read (rest + 1)) {b : UInt8} (hlow : part.low ≤ b) (hhigh : b ≤ part.high) :
    Awaits { bits := part.bits * 64 + (b.toNat - 0x80), missing := part.missing - 1 } (read ++ [b])
      rest := by
  obtain ⟨hbyte, hbits, hexpects⟩ := h.expects hlow hhigh
  refine ⟨?_, by simp, by simp, ?_, ?_⟩
  · dsimp only
    rw [h.missing]
    omega
  · intro number hnumber _
    dsimp only at hnumber
    have hdigit : number / 64 ^ (rest + 1) % 64 = b.toNat - 0x80 := by omega
    have hchar := h.completes number (by rw [div_pow_succ]; omega)
      (by rw [hdigit]; exact hexpects)
    rw [hchar, tailBytes, hdigit, hbyte]
    simp
  · intro c hread
    obtain ⟨hfront, -, hchar⟩ := h.completed c ((List.prefix_append read [b]).trans hread)
    rw [hchar, List.prefix_append_right_inj, tailBytes, List.cons_prefix_cons] at hread
    have hdigit : b.toNat = c.toNat / 64 ^ (rest + 1) % 64 + 0x80 := by
      rw [hread.1, toNat_ofNat_byte (by omega)]
    refine ⟨?_, ?_, ?_⟩
    · dsimp only
      rw [div_pow_succ] at hfront
      omega
    · constructor <;> simp <;> omega
    · rw [hchar, tailBytes, ← hread.1]
      simp

/-- A byte that is not expected continues no character. -/
theorem Awaits.not_beginsCharacter {part : OpenCharacter} {read : Bytes} {rest : Nat}
    (h : part.Awaits read rest) {b : UInt8} (hb : ¬(part.low ≤ b ∧ b ≤ part.high)) :
    ¬BeginsCharacter (read ++ [b]) := by
  rintro ⟨c, hread⟩
  obtain ⟨-, ⟨hlow, hhigh⟩, hchar⟩ := h.completed c ((List.prefix_append read [b]).trans hread)
  rw [hchar, List.prefix_append_right_inj, tailBytes, List.cons_prefix_cons] at hread
  have hdigit : b.toNat = c.toNat / 64 ^ rest % 64 + 0x80 := by
    rw [hread.1, toNat_ofNat_byte (by omega)]
  apply hb
  rw [UInt8.le_iff_toNat_le, UInt8.le_iff_toNat_le]
  omega

end OpenCharacter

/-! ### The reader -/

/-- A byte that is neither a character nor the first byte of one. -/
theorem readFirst_neither {n : Nat} (hn : 0x80 ≤ n) (hlt : n < 256) (hfirst : n < 0xC2 ∨ 0xF4 < n) :
    readFirst (UInt8.ofNat n) = ([replacementCharacter], none) := by
  have hbyte := toNat_ofNat_byte hlt
  simp only [readFirst, OpenCharacter.first?, UInt8.lt_iff_toNat_lt, UInt8.le_iff_toNat_le,
    ← UInt8.toNat_inj, hbyte]
  rw [if_neg (by simp; omega)]
  rcases hfirst with hlow | hhigh
  · rw [if_pos (by simpa using hlow)]
  · rw [if_neg (by simp; omega), if_neg (by simp; omega), if_neg (by simp; omega),
      if_neg (by simp; omega), if_neg (by simp; omega), if_neg (by simp; omega),
      if_neg (by simp; omega), if_neg (by simp; omega)]

/-- The first byte of a character is one of its own, leaves it open, or is the first byte of none. -/
theorem readFirst_cases (b : UInt8) :
    (∃ c, readFirst b = ([c], none) ∧ String.utf8EncodeChar c = [b]) ∨
      (∃ part rest, readFirst b = ([], some part) ∧ part.Awaits [b] rest) ∨
      (readFirst b = ([replacementCharacter], none) ∧ ¬BeginsCharacter [b]) := by
  have hb : UInt8.ofNat b.toNat = b := UInt8.ofNat_toNat
  have hlt : b.toNat < 256 := b.toNat_lt
  rw [← hb]
  generalize b.toNat = n at hlt
  by_cases hone : n < 0x80
  · have hnumber : (Char.ofNat n).toNat = n := toNat_charOfNat (.inl (by omega))
    have hascii : String.utf8EncodeChar (Char.ofNat n) = [UInt8.ofNat (Char.ofNat n).toNat] :=
      utf8EncodeChar_ascii (show (Char.ofNat n).toNat < 128 by omega)
    exact .inl ⟨Char.ofNat n, readFirst_ascii hone, by rw [hascii, hnumber]⟩
  by_cases htwo : IsFirstByte n 0
  · exact .inr (.inl ⟨_, 0, readFirst_two htwo.1 htwo.2, OpenCharacter.awaits_two htwo⟩)
  by_cases hthree : IsFirstByte n 1
  · exact .inr (.inl ⟨_, 1, readFirst_three hthree.1 hthree.2, OpenCharacter.awaits_three hthree⟩)
  by_cases hfour : IsFirstByte n 2
  · exact .inr (.inl ⟨_, 2, readFirst_four hfour.1 hfour.2, OpenCharacter.awaits_four hfour⟩)
  · refine .inr (.inr ⟨?_, ?_⟩)
    · simp only [IsFirstByte] at htwo hthree hfour
      exact readFirst_neither (by omega) hlt (by omega)
    · rintro ⟨c, hread⟩
      obtain ⟨rest, htakes, hfirst⟩ := takesBytes_of_isPrefix (by omega) hlt hread
      have hfirst := hfirst ▸ isFirstByte_firstByte htakes
      match rest, hfirst with
      | 0, h => exact htwo h
      | 1, h => exact hthree h
      | 2, h => exact hfour h

theorem readByte_cases {part : OpenCharacter} {read : Bytes} {rest : Nat}
    (h : part.Awaits read rest) (b : UInt8) :
    (∃ c, readByte (some part) b = ([c], none) ∧ String.utf8EncodeChar c = read ++ [b]) ∨
      (∃ more rest, readByte (some part) b = ([], some more) ∧ more.Awaits (read ++ [b]) rest) ∨
      (readByte (some part) b = (replacementCharacter :: (readFirst b).1, (readFirst b).2) ∧
        ¬BeginsCharacter (read ++ [b])) := by
  by_cases hb : part.low ≤ b ∧ b ≤ part.high
  · rw [readByte, if_pos (by simpa using hb)]
    cases rest with
    | zero => exact .inl ⟨_, if_pos (Nat.le_of_eq h.missing), h.last hb.1 hb.2⟩
    | succ rest =>
      have hmissing := h.missing
      exact .inr (.inl ⟨_, rest, if_neg (by omega), h.next hb.1 hb.2⟩)
  · refine .inr (.inr ⟨?_, h.not_beginsCharacter hb⟩)
    rw [readByte, if_neg (by simpa using hb)]

/-- Bytes that begin no character any more with the next one are replaced up to that one. -/
theorem isReplaced_of_not_beginsCharacter {part rest : Bytes} (hne : part ≠ [])
    (hpart : BeginsCharacter part ∨ part.length = 1)
    (hends : ∀ c : Char, ¬String.utf8EncodeChar c <+: part)
    (hstuck : ∀ b, rest.head? = some b → ¬BeginsCharacter (part ++ [b])) : IsReplaced part rest := by
  have hlongest : ∀ longer, longer <+: part ++ rest → BeginsCharacter longer →
      longer.length ≤ part.length := by
    intro longer hlonger hbegins
    cases rest with
    | nil =>
      have hle := hlonger.length_le
      rwa [List.append_nil] at hle
    | cons b rest =>
      rcases Nat.lt_or_ge part.length longer.length with hlt | hge
      · have hmore : part ++ [b] <+: longer := by
          apply List.prefix_of_prefix_length_le _ hlonger
          · rw [List.length_append, List.length_singleton]
            omega
          · exact ⟨rest, by simp⟩
        exact absurd (hbegins.of_isPrefix hmore) (hstuck b rfl)
      · exact hge
  refine ⟨?_, ⟨hne, hpart⟩, ?_⟩
  · intro c hc
    have hlength := hlongest _ hc ⟨c, List.prefix_refl _⟩
    exact hends c (List.prefix_of_prefix_length_le hc (List.prefix_append part rest) hlength)
  · rintro longer hlonger (hbegins | hone)
    · exact hlongest longer hlonger hbegins
    · rw [hone]
      exact List.length_pos_iff.2 hne

theorem OpenCharacter.Awaits.isReplaced {part : OpenCharacter} {read rest : Bytes} {count : Nat}
    (h : part.Awaits read count) (hstuck : ∀ b, rest.head? = some b → ¬BeginsCharacter (read ++ [b])) :
    IsReplaced read rest :=
  isReplaced_of_not_beginsCharacter h.read_ne_nil (.inl h.beginsCharacter)
    h.not_isPrefix hstuck

theorem isReplaced_singleton {b : UInt8} (h : ¬BeginsCharacter [b]) (rest : Bytes) :
    IsReplaced [b] rest := by
  apply isReplaced_of_not_beginsCharacter (by simp) (.inr rfl)
  · intro c hc
    have hwhole : [b] = String.utf8EncodeChar c := by
      refine (hc.eq_of_length_le ?_).symm
      exact List.length_pos_iff.2 (utf8EncodeChar_ne_nil c)
    exact h ⟨c, hwhole ▸ List.prefix_refl _⟩
  · intro next _ hmore
    exact h (hmore.of_isPrefix (List.prefix_append [b] [next]))

/-- Whether or not a character is open, the reader reads what there is as it ought to be read. Bytes of an open character count as not yet read. -/
theorem readAs_decodeFrom (bytes : Bytes) :
    ReadAs bytes (decodeFrom none bytes) ∧
      ∀ (part : OpenCharacter) (read : Bytes) (rest : Nat), part.Awaits read rest →
        ReadAs (read ++ bytes) (decodeFrom (some part) bytes) := by
  induction bytes with
  | nil =>
    refine ⟨.nil, ?_⟩
    intro part read rest h
    exact .replaced (h.isReplaced (by simp)) .nil
  | cons b bytes ih =>
    have hfresh : ReadAs (b :: bytes) (decodeFrom none (b :: bytes)) := by
      rw [decodeFrom_cons, readByte]
      obtain ⟨c, hread, hc⟩ | ⟨part, rest, hread, hpart⟩ | ⟨hread, hnone⟩ := readFirst_cases b
      · rw [hread, ← List.singleton_append, ← hc]
        exact .character c ih.1
      · rw [hread]
        exact ih.2 part [b] rest hpart
      · rw [hread]
        exact .replaced (isReplaced_singleton hnone bytes) ih.1
    refine ⟨hfresh, ?_⟩
    intro part read rest h
    rw [decodeFrom_cons]
    have hbytes : read ++ b :: bytes = (read ++ [b]) ++ bytes := by simp
    obtain ⟨c, hread, hc⟩ | ⟨more, count, hread, hmore⟩ | ⟨hread, hstuck⟩ := readByte_cases h b
    · rw [hread, hbytes, ← hc]
      exact .character c ih.1
    · rw [hread, hbytes]
      exact ih.2 more (read ++ [b]) count hmore
    · -- The byte is read afresh behind what is replaced.
      rw [hread]
      rw [decodeFrom_cons, readByte] at hfresh
      refine .replaced (h.isReplaced ?_) hfresh
      intro next hnext
      rwa [← Option.some.inj hnext]

theorem readAs_iff {bytes : Bytes} {t : Text} : ReadAs bytes t ↔ t = bytes.decoded := by
  have hdecoded : ReadAs bytes bytes.decoded := (readAs_decodeFrom bytes).1
  constructor
  · intro h
    exact h.unique hdecoded
  · rintro rfl
    exact hdecoded

theorem decoded_ne_nil {bytes : Bytes} (h : bytes ≠ []) : bytes.decoded ≠ [] := by
  intro hnil
  have hread : ReadAs bytes [] := readAs_iff.2 hnil.symm
  cases hread with
  | nil => exact h rfl

/-! ### Cutting at a byte below 128 -/

/-- What is open was left open by some bytes. -/
def IsAwaiting (state : Option OpenCharacter) : Prop :=
  ∀ part, state = some part → ∃ read rest, part.Awaits read rest

theorem isAwaiting_none : IsAwaiting none := by
  intro part hpart
  simp at hpart

theorem isAwaiting_some {part : OpenCharacter} {read : Bytes} {rest : Nat}
    (h : part.Awaits read rest) : IsAwaiting (some part) := by
  intro other hother
  rw [← Option.some.inj hother]
  exact ⟨read, rest, h⟩

theorem isAwaiting_readFirst (b : UInt8) : IsAwaiting (readFirst b).2 := by
  obtain ⟨c, hread, -⟩ | ⟨part, rest, hread, hpart⟩ | ⟨hread, -⟩ := readFirst_cases b
  · rw [hread]
    exact isAwaiting_none
  · rw [hread]
    exact isAwaiting_some hpart
  · rw [hread]
    exact isAwaiting_none

theorem isAwaiting_readByte {state : Option OpenCharacter} (h : IsAwaiting state) (b : UInt8) :
    IsAwaiting (readByte state b).2 := by
  cases state with
  | none => exact isAwaiting_readFirst b
  | some part =>
    obtain ⟨read, rest, hpart⟩ := h part rfl
    obtain ⟨c, hread, -⟩ | ⟨more, count, hread, hmore⟩ | ⟨hread, -⟩ := readByte_cases hpart b
    · rw [hread]
      exact isAwaiting_none
    · rw [hread]
      exact isAwaiting_some hmore
    · rw [hread]
      exact isAwaiting_readFirst b

/-- A byte below 128 ends an open character just as the end of the bytes does. -/
theorem decodeFrom_ascii {state : Option OpenCharacter} (h : IsAwaiting state) {b : UInt8}
    (hb : b < 0x80) (rest : Bytes) :
    decodeFrom state (b :: rest) = decodeFrom state [] ++ Char.ofNat b.toNat :: decodeFrom none rest := by
  have hfirst : readFirst b = ([Char.ofNat b.toNat], none) := by
    rw [readFirst, if_pos hb]
  rw [decodeFrom_cons]
  cases state with
  | none =>
    rw [readByte, hfirst]
    rfl
  | some part =>
    obtain ⟨read, count, hpart⟩ := h part rfl
    have hlow : ¬part.low ≤ b := by
      have hrange := hpart.range.1
      rw [UInt8.lt_iff_toNat_lt] at hb
      rw [UInt8.le_iff_toNat_le]
      simp at hb
      omega
    rw [readByte, if_neg (by simp [hlow]), hfirst]
    rfl

theorem decodeFrom_append_ascii {state : Option OpenCharacter} (h : IsAwaiting state) (left : Bytes)
    {b : UInt8} (hb : b < 0x80) (right : Bytes) :
    decodeFrom state (left ++ b :: right) =
      decodeFrom state left ++ Char.ofNat b.toNat :: decodeFrom none right := by
  induction left generalizing state with
  | nil => exact decodeFrom_ascii h hb right
  | cons first left ih =>
    rw [List.cons_append, decodeFrom_cons, decodeFrom_cons, ih (isAwaiting_readByte h first)]
    simp

theorem decoded_append_newline (left right : Bytes) :
    Bytes.decoded (left ++ 0x0A :: right) = Bytes.decoded left ++ '\n' :: Bytes.decoded right :=
  decodeFrom_append_ascii isAwaiting_none left (by decide) right

end CommandShell
