import CommandShell.Proofs.Evaluation.Numbering
import CommandShell.Proofs.Evaluation.Trailing

/-!
# Comments at the end of a line

A blank and a `#` behind a line open a comment there, unless the line has one already and nothing behind it is looked at. Either way the line is left with delimiters at its end, and those do not matter.

What changes is the text that a session keeps of its last line. No command looks at it, so it may as well be put in place when the line is done.
-/

namespace CommandShell

theorem withoutComment_append_comment (line comment : Text) :
    withoutComment (line ++ ' ' :: '#' :: comment) = withoutComment (line ++ [' ']) := by
  have hcut : line ++ ' ' :: '#' :: comment = (line ++ [' ']) ++ '#' :: comment := by simp
  rw [hcut]
  by_cases hline : withoutComment (line ++ [' ']) = line ++ [' ']
  · have hopens : withoutCommentAfter (some ' ') ('#' :: comment) = [] := by
      rw [withoutCommentAfter, if_pos ⟨rfl, rfl⟩]
    have happend := withoutCommentAfter_append_of_eq hline ('#' :: comment)
    rw [List.getLast?_concat, Option.some_or, hopens, List.append_nil] at happend
    rw [hline]
    exact happend
  · exact withoutCommentAfter_append_of_ne hline ('#' :: comment)

theorem Event.renumber_id (event : Event) : event.renumber id = event := by
  cases event <;> rfl

theorem Sink.renumber_id (sink : Sink) : sink.renumber id = sink := by
  have hevents : sink.reversed.map (Event.renumber id) = sink.reversed := by
    rw [funext Event.renumber_id, List.map_id']
  rw [renumber, hevents]

namespace Shell

/-- The shell with another text kept as that of its last line. -/
def withInput (text : Text) (shell : Shell) : Shell :=
  { shell with session := { shell.session with input := text } }

theorem relabel_id (text : Text) (shell : Shell) :
    shell.relabel id (fun _ => text) = shell.withInput text := by
  rw [relabel, withInput, Sink.renumber_id]
  rfl

section Lines

variable [Children]

theorem runStripped_relabel (number : Nat → Nat) (text : Text → Text) (shell : Shell) (line : Text) :
    (shell.relabel number text).runStripped line =
      (shell.runStripped line).map id (relabel number text) := by
  rw [runStripped, runStripped]
  cases misplaced? line with
  | none => exact runChain_relabel number text shell _ _
  | some error => exact congrArg (Prod.mk _) (conclude_relabel number text shell _)

theorem runStripped_withInput (text : Text) (shell : Shell) (line : Text) :
    (shell.withInput text).runStripped line = (shell.runStripped line).map id (withInput text) := by
  have hrelabel := shell.runStripped_relabel id (fun _ => text) line
  rw [relabel_id, funext (relabel_id text)] at hrelabel
  exact hrelabel

/-- Lines that are the same to all stages of evaluation do the same but for the text that is kept. -/
theorem runLine_eq_map_withInput {line other : Text}
    (h : ∀ shell : Shell,
      shell.runStripped (withoutComment other) = shell.runStripped (withoutComment line))
    (shell : Shell) :
    shell.runLine other = (shell.runLine line).map id (withInput (trimmedEnd isLineEnd other)) := by
  have hbegin : shell.beginLine other =
      (shell.beginLine line).withInput (trimmedEnd isLineEnd other) := rfl
  rw [runLine_eq_runStripped, runLine_eq_runStripped, h, hbegin, runStripped_withInput]

/-- Delimiters at the end of a line, and a comment behind them, leave no trace but in the text that is kept of the line. The flow, the session, the host and all events are those of the line itself, so an error is told with the same operator at the same position. -/
theorem runLine_append_comment (shell : Shell) (line blank comment : Text)
    (hblank : ∀ c ∈ blank, isDelimiter c = true) :
    shell.runLine (line ++ blank) =
        ((shell.runLine line).1,
          (shell.runLine line).2.withInput (trimmedEnd isLineEnd (line ++ blank))) ∧
      shell.runLine (line ++ blank ++ " #".toList ++ comment) =
        ((shell.runLine line).1,
          (shell.runLine line).2.withInput
            (trimmedEnd isLineEnd (line ++ blank ++ " #".toList ++ comment))) := by
  have hspace : IsBlank (blank ++ [' ']) := by
    intro c hc
    rcases List.mem_append.1 hc with hc | hc
    · exact hblank c hc
    · rw [List.mem_singleton.1 hc]
      rfl
  constructor
  · apply runLine_eq_map_withInput
    intro other
    exact other.runStripped_withoutComment_append_of_isBlank line hblank
  · apply runLine_eq_map_withInput
    intro other
    have htext : line ++ blank ++ " #".toList ++ comment = (line ++ blank) ++ ' ' :: '#' :: comment := by
      simp
    rw [htext, withoutComment_append_comment, List.append_assoc]
    exact other.runStripped_withoutComment_append_of_isBlank line hspace

end Lines

open Children.Performing

theorem runLine_append_comment_rejected :
    bare.runLine ("exit 7 &&".toList ++ "\t\x07\n".toList ++ " #".toList ++ " c;d".toList) =
        ((bare.runLine "exit 7 &&".toList).1,
          (bare.runLine "exit 7 &&".toList).2.withInput "exit 7 &&\t\x07\n # c;d".toList) ∧
      (bare.runLine "exit 7 &&".toList).2.sink.events =
        [.report
          { shell := "hsh".toList
            line := 1
            error := .misplaced { token := "&&".toList, position := 8 } }] ∧
      bare.runLine ("exit 7 # b".toList ++ " ".toList ++ " #".toList ++ "c".toList) =
        (.stop 7, (bare.runLine "exit 7 # b".toList).2.withInput "exit 7 # b  #c".toList) := by
  have hrejected := (runLine_append_comment bare "exit 7 &&".toList "\t\x07\n".toList " c;d".toList
    (List.all_eq_true.1 (by decide))).2
  have hexit := (runLine_append_comment bare "exit 7 # b".toList " ".toList "c".toList
    (List.all_eq_true.1 (by decide))).2
  exact ⟨hrejected, by decide, hexit⟩

end Shell

end CommandShell
