/-!
# Text

Lines, words, names and paths are all sequences of characters, and every scanner of the shell walks such a sequence from the left, so text is a list of characters. This module has the few operations that the rest of the library shares: cutting text at separators, cutting it behind terminators, and writing numbers.
-/

namespace CommandShell

abbrev Text := List Char

abbrev Bytes := List UInt8

/-- Statuses of commands. A child ends with 0 to 255, but a status set from outside may be any integer. -/
abbrev Status := Int

/-- Puts an element in front of the first stretch, or makes it a stretch if there is none. -/
def addToFirst {α : Type} (x : α) : List (List α) → List (List α)
  | [] => [[x]]
  | first :: others => (x :: first) :: others

/-- The stretches between separators. There is always one more stretch than there are separators, so an empty list has one empty stretch. -/
def fields {α : Type} (isSeparator : α → Bool) (xs : List α) : List (List α) :=
  xs.foldr
    (fun x stretches => if isSeparator x then [] :: stretches else addToFirst x stretches) [[]]

/-- The stretches that end behind each terminator. Each keeps its terminator; what follows the last one is a stretch of its own, unless it is empty. -/
def records {α : Type} (isTerminator : α → Bool) (xs : List α) : List (List α) :=
  xs.foldr
    (fun x stretches => if isTerminator x then [x] :: stretches else addToFirst x stretches) []

/-- The list without its last elements that satisfy `p`. -/
def trimmedEnd {α : Type} (p : α → Bool) (xs : List α) : List α :=
  (xs.reverse.dropWhile p).reverse

@[simp]
theorem flatten_addToFirst {α : Type} (x : α) (stretches : List (List α)) :
    (addToFirst x stretches).flatten = x :: stretches.flatten := by
  cases stretches <;> rfl

@[simp]
theorem fields_nil {α : Type} (isSeparator : α → Bool) : fields isSeparator [] = [[]] := rfl

theorem fields_cons {α : Type} (isSeparator : α → Bool) (x : α) (rest : List α) :
    fields isSeparator (x :: rest) =
      if isSeparator x then [] :: fields isSeparator rest
      else addToFirst x (fields isSeparator rest) := rfl

@[simp]
theorem records_nil {α : Type} (isTerminator : α → Bool) : records isTerminator [] = [] := rfl

theorem records_cons {α : Type} (isTerminator : α → Bool) (x : α) (rest : List α) :
    records isTerminator (x :: rest) =
      if isTerminator x then [x] :: records isTerminator rest
      else addToFirst x (records isTerminator rest) := rfl

theorem fields_ne_nil {α : Type} (isSeparator : α → Bool) (xs : List α) :
    fields isSeparator xs ≠ [] := by
  cases xs with
  | nil => simp
  | cons x rest =>
    rw [fields_cons]
    split
    · simp
    · cases fields isSeparator rest <;> simp [addToFirst]

theorem flatten_records {α : Type} (isTerminator : α → Bool) (xs : List α) :
    (records isTerminator xs).flatten = xs := by
  induction xs with
  | nil => rfl
  | cons x rest ih =>
    rw [records_cons]
    split <;> simp [ih]

namespace Text

/-- The pieces in order with `separator` between each two. -/
def joined (separator : Text) : List Text → Text
  | [] => []
  | [piece] => piece
  | piece :: rest => piece ++ separator ++ joined separator rest

def isDigit (c : Char) : Bool :=
  '0'.val ≤ c.val && c.val ≤ '9'.val

def decimalNat (n : Nat) : Text :=
  Nat.toDigits 10 n

def decimal : Int → Text
  | .ofNat n => decimalNat n
  | .negSucc n => '-' :: decimalNat (n + 1)

/-- The number behind a further digit. -/
def pushDigit (value : Nat) (c : Char) : Nat :=
  10 * value + (c.toNat - '0'.toNat)

/-- The number that a text of digits writes, most significant digit first. -/
def valueOfDigits (digits : Text) : Nat :=
  digits.foldl pushDigit 0

/-- The number behind a further digit, as long as it is within the bound. -/
def pushDigitUpTo? (bound value : Nat) (c : Char) : Option Nat :=
  if pushDigit value c ≤ bound then some (pushDigit value c) else none

/-- The number that a text of digits writes, unless it is beyond the bound. Reading stops at the digit that goes beyond it. -/
def valueUpTo? (bound : Nat) (digits : Text) : Option Nat :=
  digits.foldlM (pushDigitUpTo? bound) 0

theorem le_foldl_pushDigit (value : Nat) (digits : Text) :
    value ≤ digits.foldl pushDigit value := by
  induction digits generalizing value with
  | nil => exact Nat.le_refl value
  | cons c rest ih =>
    have h : value ≤ pushDigit value c := by
      rw [pushDigit]
      omega
    exact Nat.le_trans h (ih (pushDigit value c))

theorem foldlM_pushDigitUpTo? {bound value : Nat} (h : value ≤ bound) (digits : Text) :
    digits.foldlM (pushDigitUpTo? bound) value =
      if digits.foldl pushDigit value ≤ bound then some (digits.foldl pushDigit value) else none := by
  induction digits generalizing value with
  | nil => simp [h]
  | cons c rest ih =>
    rw [List.foldlM_cons, List.foldl_cons, pushDigitUpTo?]
    split
    · next hc => exact ih hc
    · next hc =>
      have hle := le_foldl_pushDigit (pushDigit value c) rest
      rw [if_neg (by omega)]
      rfl

theorem valueUpTo?_eq (bound : Nat) (digits : Text) :
    valueUpTo? bound digits =
      if valueOfDigits digits ≤ bound then some (valueOfDigits digits) else none :=
  foldlM_pushDigitUpTo? (Nat.zero_le bound) digits

/-- The text made at least `width` long by blanks on the right. -/
def padded (width : Nat) (t : Text) : Text :=
  t ++ List.replicate (width - t.length) ' '

/-- Some stretch of `t` is `part`. -/
def holds (part : Text) : Text → Bool
  | [] => part.isEmpty
  | c :: rest => part.isPrefixOf (c :: rest) || holds part rest

end Text

end CommandShell
