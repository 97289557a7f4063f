import CommandShell.Proofs.Evaluation.Frame
import CommandShell.Proofs.Expansion
import CommandShell.Proofs.Line.Comment
import CommandShell.Proofs.Line.Grammar

/-!
# Delimiters at the end of a line

Delimiters at the end of a line do not matter to any stage of its evaluation. The comment of a line is found without them, the check passes over them and names the same operator, splitting leaves them in the last command, expansion does not touch them and they add no word.

Line ends are delimiters, and they are not kept with the text of a line either, so a line does the same with and without its end.
-/

namespace CommandShell

/-! ### Comments -/

theorem withoutCommentAfter_of_isBlank {blank : Text} (h : IsBlank blank) (previous : Option Char) :
    withoutCommentAfter previous blank = blank := by
  induction blank generalizing previous with
  | nil => rfl
  | cons c blank ih =>
    rw [isBlank_cons] at h
    have hc : c ≠ '#' := by
      rintro rfl
      exact absurd h.1 (by decide)
    rw [withoutCommentAfter, if_neg fun hopens => hc hopens.1, ih h.2]

/-- The delimiters stay, unless they are behind a comment. -/
theorem withoutComment_append_of_isBlank (line : Text) {blank : Text} (h : IsBlank blank) :
    withoutComment (line ++ blank) = withoutComment line ++ blank ∨
      withoutComment (line ++ blank) = withoutComment line := by
  by_cases hline : withoutComment line = line
  · left
    rw [withoutComment, withoutCommentAfter_append_of_eq hline, withoutCommentAfter_of_isBlank h, hline]
  · right
    exact withoutCommentAfter_append_of_ne hline blank

/-! ### The check -/

theorem offenceFrom_of_isBlank {blank : Text} (h : IsBlank blank) (scanned : Scanned) (index : Nat) :
    offenceFrom scanned index blank = offenceFrom scanned index [] := by
  induction blank generalizing index with
  | nil => rfl
  | cons c blank ih =>
    rw [isBlank_cons] at h
    rw [offenceFrom_delimiter h.1, ih h.2]
    rfl

theorem offenceFrom_append_of_isBlank (line : Text) {blank : Text} (h : IsBlank blank)
    (scanned : Scanned) (index : Nat) :
    offenceFrom scanned index (line ++ blank) = offenceFrom scanned index line := by
  induction line generalizing scanned index with
  | nil => exact offenceFrom_of_isBlank h scanned index
  | cons c line ih =>
    rw [List.cons_append, offenceFrom, offenceFrom]
    simp only [ih]

theorem isOperatorCharacter_of_isDelimiter {c : Char} (h : isDelimiter c = true) :
    isOperatorCharacter c = false := by
  cases hoperator : isOperatorCharacter c with
  | false => rfl
  | true =>
    have hdelimiter := isDelimiter_of_isOperatorCharacter hoperator
    rw [h] at hdelimiter
    exact absurd hdelimiter (by decide)

/-- Operator characters stand in a line where they stand in front of further delimiters. -/
theorem getElem?_append_of_isBlank (t : Text) {blank : Text} (h : IsBlank blank) {c : Char}
    (hc : isOperatorCharacter c = true) (index : Nat) :
    (t ++ blank)[index]? = some c ↔ t[index]? = some c := by
  by_cases hindex : index < t.length
  · rw [List.getElem?_append_left hindex]
  · have hlength : t.length ≤ index := Nat.le_of_not_lt hindex
    rw [List.getElem?_append_right hlength, List.getElem?_eq_none hlength]
    refine ⟨fun hblank => ?_, fun hnone => by simp at hnone⟩
    have hplain := isOperatorCharacter_of_isDelimiter (h c (List.mem_of_getElem? hblank))
    rw [hc] at hplain
    exact absurd hplain (by decide)

theorem tokenAt_append_of_isBlank (line : Text) {blank : Text} (h : IsBlank blank) (index : Nat) :
    tokenAt (line ++ blank) index = tokenAt line index := by
  rw [tokenAt_eq, tokenAt_eq]
  simp only [getElem?_append_of_isBlank line h (show isOperatorCharacter ';' = true from rfl),
    getElem?_append_of_isBlank line h (show isOperatorCharacter '&' = true from rfl),
    getElem?_append_of_isBlank line h (show isOperatorCharacter '|' = true from rfl)]

theorem misplaced?_append_of_isBlank (line : Text) {blank : Text} (h : IsBlank blank) :
    misplaced? (line ++ blank) = misplaced? line := by
  rw [misplaced?, misplaced?, offence?, offence?, offenceFrom_append_of_isBlank line h]
  simp only [tokenAt_append_of_isBlank line h]

/-! ### The commands -/

theorem Chain.split_append_of_isBlank (line : Text) {blank : Text} (h : IsBlank blank) :
    Chain.split (line ++ blank) = (Chain.split line).glue { first := blank, rest := [] } := by
  have hhead (c : Char) (hc : isDelimiter c = false) : blank.head? ≠ some c := by
    intro hhead
    rw [h c (List.mem_of_head? hhead)] at hc
    exact absurd hc (by decide)
  have hplain : IsPlain blank := fun c hc => isOperatorCharacter_of_isDelimiter (h c hc)
  rw [Chain.split_append line blank (hhead '&' rfl) (hhead '|' rfl), Chain.split_of_isPlain hplain]

namespace Shell

section Run

variable [Children]

theorem runCommand_append_of_isBlank (shell : Shell) (command : Text) {blank : Text}
    (h : IsBlank blank) : shell.runCommand (command ++ blank) = shell.runCommand command := by
  rw [runCommand, runCommand, Scope.expand_append_of_isBlank _ command h, words_append_of_isBlank _ h]

theorem runChain_glueFrom_of_isBlank {blank : Text} (h : IsBlank blank) (shell : Shell)
    (mayRun : Bool) (command : Text) (steps : List (Operator × Text)) :
    shell.runChain mayRun (Chain.glueFrom { first := blank, rest := [] } command steps).first
        (Chain.glueFrom { first := blank, rest := [] } command steps).rest =
      shell.runChain mayRun command steps := by
  induction steps generalizing shell mayRun command with
  | nil =>
    rw [Chain.glueFrom, runChain, runChain, shell.runCommand_append_of_isBlank command h]
  | cons step steps ih =>
    obtain ⟨operator, next⟩ := step
    rw [Chain.glueFrom, Chain.addOperator, runChain, runChain]
    simp only [ih]

/-! ### The line -/

/-- What a line does behind its beginning, when it has no comment any more. -/
def runStripped (shell : Shell) (line : Text) : Flow × Shell :=
  match misplaced? line with
  | some error => (.proceed, shell.conclude (.error (.misplaced error)))
  | none => shell.runChain true (Chain.split line).first (Chain.split line).rest

theorem runLine_eq_runStripped (shell : Shell) (raw : Text) :
    shell.runLine raw = (shell.beginLine raw).runStripped (withoutComment raw) := rfl

theorem runStripped_append_of_isBlank (shell : Shell) (line : Text) {blank : Text}
    (h : IsBlank blank) : shell.runStripped (line ++ blank) = shell.runStripped line := by
  rw [runStripped, runStripped, misplaced?_append_of_isBlank line h,
    Chain.split_append_of_isBlank line h, Chain.glue, runChain_glueFrom_of_isBlank h]

/-- Whatever is counted and kept at the beginning of a line, delimiters at its end have no part in what follows. -/
theorem runStripped_withoutComment_append_of_isBlank (shell : Shell) (line : Text) {blank : Text}
    (h : IsBlank blank) :
    shell.runStripped (withoutComment (line ++ blank)) = shell.runStripped (withoutComment line) := by
  rcases withoutComment_append_of_isBlank line h with hcomment | hcomment
  · rw [hcomment, shell.runStripped_append_of_isBlank _ h]
  · rw [hcomment]

end Run

theorem isBlank_of_isLineEnd {lineEnd : Text} (h : ∀ c ∈ lineEnd, isLineEnd c = true) :
    IsBlank lineEnd := by
  intro c hmem
  have hc := h c hmem
  simp only [isLineEnd, Bool.or_eq_true, beq_iff_eq] at hc
  rcases hc with rfl | rfl <;> rfl

theorem trimmedEnd_append {α : Type} {p : α → Bool} (xs : List α) {ys : List α}
    (h : ∀ y ∈ ys, p y = true) : trimmedEnd p (xs ++ ys) = trimmedEnd p xs := by
  rw [trimmedEnd, trimmedEnd, List.reverse_append, List.dropWhile_append_of_pos]
  intro y hmem
  exact h y (List.mem_reverse.1 hmem)

theorem runLine_append_lineEnd [Children] (shell : Shell) (line : Text) {lineEnd : Text}
    (h : ∀ c ∈ lineEnd, isLineEnd c = true) : shell.runLine (line ++ lineEnd) = shell.runLine line := by
  rw [runLine_eq_runStripped, runLine_eq_runStripped, beginLine, trimmedEnd_append line h,
    runStripped_withoutComment_append_of_isBlank _ line (isBlank_of_isLineEnd h)]
  rfl

end Shell

end CommandShell
