import CommandShell.Proofs.Expansion

/-!
# Fields of an expanded command

A command is expanded as a whole and cut into words only then, so a value may bring delimiters of its own, or nothing at all, and it grows together with the literal text beside it. Still no word that was typed has a say in what becomes of another one: expansion goes on afresh behind a delimiter, and so does cutting. What is read apart on the two sides of every delimiter is read word by word.
-/

namespace CommandShell

/-- The reading has nothing to say about the empty text, and reads the two sides of a delimiter apart. -/
structure IsWordLocal {α : Type} (reading : Text → List α) : Prop where
  nil : reading [] = []
  append_cons : ∀ (left : Text) {d : Char}, isDelimiter d = true → ∀ right : Text,
    reading (left ++ d :: right) = reading left ++ reading right

namespace IsWordLocal

variable {α : Type} {reading : Text → List α}

/-- Text without delimiters is a word or nothing. -/
theorem eq_flatMap_of_forall (h : IsWordLocal reading) {t : Text}
    (ht : ∀ c ∈ t, isDelimiter c = false) : reading t = (words t).flatMap reading := by
  by_cases hempty : t = []
  · rw [hempty, words_nil, h.nil]
    rfl
  · rw [words_of_isWord ⟨hempty, ht⟩, List.flatMap_singleton]

theorem eq_flatMap_words (h : IsWordLocal reading) (t : Text) :
    reading t = (words t).flatMap reading := by
  induction t using field_induction isDelimiter with
  | last stretch hstretch => exact h.eq_flatMap_of_forall hstretch
  | cut stretch d rest hstretch hd ih =>
    rw [h.append_cons stretch hd, words_append_cons stretch hd, List.flatMap_append, ← ih,
      ← h.eq_flatMap_of_forall hstretch]

end IsWordLocal

namespace Scope

variable (scope : Scope)

theorem isWordLocal_fields : IsWordLocal fun t => words (scope.expand t) where
  nil := rfl
  append_cons left d hd right := by
    rw [scope.expand_append_delimiter hd, words_append_cons _ hd]

/-- Field splitting is a matter of single words: each word of a command contributes the fields of its own expansion, in the order of the words, whatever stands beside it. -/
theorem words_expand_eq_flatMap (command : Text) :
    words (scope.expand command) =
      (words command).flatMap fun word => words (scope.expand word) :=
  scope.isWordLocal_fields.eq_flatMap_words command

/-- Words with no field, one field and four fields, where values grow together with the text beside them. -/
example :
    let scope : Scope :=
      { status := 0
        processId := "42".toList
        valueOf := fun name => if name = "A".toList then some " a b ".toList else none }
    (words "$B x$A$$ $ x$B".toList).map (fun word => words (scope.expand word)) =
        [[], ["x".toList, "a".toList, "b".toList, "42".toList], ["$".toList], ["x".toList]] ∧
      words (scope.expand "$B x$A$$ $ x$B".toList) =
        ["x", "a", "b", "42", "$", "x"].map String.toList := by
  decide

end Scope

end CommandShell
