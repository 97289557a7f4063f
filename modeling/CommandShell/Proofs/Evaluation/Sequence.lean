import CommandShell.Proofs.Evaluation.Numbering
import CommandShell.Proofs.Line.Comment
import CommandShell.Proofs.Line.Grammar

/-!
# One line or two

Two lines and the line that has them on both sides of a `;` do the same. Three scans have to agree at the `;` for this: a comment may open right behind it as at the start of a line, the check begins there as it does at the start of a line that has words, and splitting keeps the commands of the two sides apart. The walk over the commands agrees too, because a `;` lets the next command run whatever became of the one before it.

What remains different is that one line was counted and not two.
-/

namespace CommandShell

namespace Chain

/-- A line with words does not begin with a blank command, if it passes the check. -/
theorem WellFormed.not_isBlank_first {line : Text} (h : (split line).WellFormed)
    (hwords : ¬IsBlank line) : ¬IsBlank (split line).first := by
  rcases h.2 with hrest | hfirst
  · have hline := write_split line
    rw [write, hrest, List.flatMap_nil, List.append_nil] at hline
    rwa [hline]
  · exact hfirst

theorem wellFormed_split_append_semicolon {first second : Text} (hfirst : (split first).WellFormed)
    (hsecond : (split second).WellFormed) (hfirstWords : ¬IsBlank first)
    (hsecondWords : ¬IsBlank second) : (split (first ++ ';' :: second)).WellFormed := by
  have hsecondFirst := hsecond.not_isBlank_first hsecondWords
  rw [split_append_semicolon]
  refine ⟨⟨hfirst.1.1, ?_⟩, .inr (hfirst.not_isBlank_first hfirstWords)⟩
  intro step hstep
  rcases List.mem_append.1 hstep with hleft | hright
  · exact hfirst.1.2 step hleft
  · rcases List.mem_cons.1 hright with rfl | hright
    · exact ⟨hsecond.1.1, hsecondFirst⟩
    · exact hsecond.1.2 step hright

end Chain

namespace Shell

theorem misplaced?_append_semicolon {first second : Text} (hcomment : withoutComment first = first)
    (hfirst : misplaced? first = none) (hsecond : misplaced? (withoutComment second) = none)
    (hfirstWords : ¬IsBlank first) (hsecondWords : ¬IsBlank (withoutComment second)) :
    misplaced? (withoutComment (first ++ ';' :: second)) = none := by
  rw [misplaced?_eq_none_iff_wellFormed] at *
  rw [withoutComment_append_semicolon hcomment]
  exact Chain.wellFormed_split_append_semicolon hfirst hsecond hfirstWords hsecondWords

section Lines

variable [Children]

theorem runChain_append_always (shell : Shell) (first : Text) (left : List (Operator × Text))
    (command : Text) (right : List (Operator × Text)) :
    shell.runChain true first (left ++ (.always, command) :: right) =
      match shell.runChain true first left with
      | (.stop code, next) => (.stop code, next)
      | (.proceed, next) => next.runChain true command right :=
  resume_append ((.always, first) :: left) ((.always, command) :: right) shell

theorem runLine_of_misplaced?_eq_none (shell : Shell) {raw : Text}
    (h : misplaced? (withoutComment raw) = none) :
    shell.runLine raw =
      (shell.beginLine raw).runChain true (Chain.split (withoutComment raw)).first
        (Chain.split (withoutComment raw)).rest := by
  rw [runLine, h]

theorem runLines_singleton (shell : Shell) (line : Text) : shell.runLines [line] = shell.runLine line := by
  rw [runLines]
  rcases shell.runLine line with ⟨_ | code, next⟩ <;> rfl

/-- The commands in front of the `;` run from alike shells on both sides, and so do those behind it. -/
theorem alike_runLine_append_semicolon (shell : Shell) {first second : Text}
    (hcomment : withoutComment first = first) (hfirst : misplaced? first = none)
    (hsecond : misplaced? (withoutComment second) = none) (hfirstWords : ¬IsBlank first)
    (hsecondWords : ¬IsBlank (withoutComment second)) :
    (shell.runLine (first ++ ';' :: second)).1 = (shell.runLines [first, second]).1 ∧
      (shell.runLine (first ++ ';' :: second)).2.Alike (shell.runLines [first, second]).2 := by
  have hjoined := misplaced?_append_semicolon hcomment hfirst hsecond hfirstWords hsecondWords
  have hbegin : (shell.beginLine (first ++ ';' :: second)).Alike (shell.beginLine first) := rfl
  obtain ⟨hflow, hnext⟩ := hbegin.runChain (Chain.split first).first (Chain.split first).rest
  have hapart : shell.runLine first = (shell.beginLine first).runChain true (Chain.split first).first
      (Chain.split first).rest := by
    rw [shell.runLine_of_misplaced?_eq_none (by rwa [hcomment]), hcomment]
  rw [runLines, hapart, shell.runLine_of_misplaced?_eq_none hjoined,
    withoutComment_append_semicolon hcomment, Chain.split_append_semicolon, runChain_append_always]
  revert hflow hnext
  rcases (shell.beginLine (first ++ ';' :: second)).runChain true (Chain.split first).first
    (Chain.split first).rest with ⟨flow, together⟩
  rcases (shell.beginLine first).runChain true (Chain.split first).first
    (Chain.split first).rest with ⟨_ | code, apart⟩
  · rintro rfl hnext
    dsimp only
    rw [runLines_singleton, apart.runLine_of_misplaced?_eq_none hsecond]
    exact Alike.runChain (hnext.trans (Alike.beginLine apart second).symm) _ _
  · rintro rfl hnext
    exact ⟨rfl, hnext⟩

theorem counter_runLines_pair (shell : Shell) (first second : Text) :
    (shell.runLines [first, second]).2.session.counter =
      shell.session.counter + if (shell.runLine first).1 = .proceed then 2 else 1 := by
  rw [counter_runLines, linesRun]
  rcases shell.runLine first with ⟨_ | code, next⟩
  · have hlast : next.linesRun [second] = 1 := by
      rw [linesRun]
      rcases next.runLine second with ⟨_ | code, last⟩ <;> rfl
    dsimp only
    rw [hlast, if_pos rfl]
  · rfl

/-- Two lines, the first without a comment and both with words, do the same on one line with a `;` between them as one after the other. Of the session only the count and the text of lines differ, and of the reports only their numbers. -/
theorem runLine_append_semicolon (shell : Shell) (first second : Text)
    (hcomment : withoutComment first = first) (hfirst : misplaced? first = none)
    (hsecond : misplaced? (withoutComment second) = none)
    (hfirstWords : ∃ c ∈ first, isDelimiter c = false)
    (hsecondWords : ∃ c ∈ withoutComment second, isDelimiter c = false) :
    (shell.runLine (first ++ ';' :: second)).1 = (shell.runLines [first, second]).1 ∧
      (shell.runLine (first ++ ';' :: second)).2.session =
        { (shell.runLines [first, second]).2.session with
          counter := shell.session.counter + 1
          input := trimmedEnd isLineEnd (first ++ ';' :: second) } ∧
      (shell.runLine (first ++ ';' :: second)).2.host = (shell.runLines [first, second]).2.host ∧
      (shell.runLine (first ++ ';' :: second)).2.sink.room =
        (shell.runLines [first, second]).2.sink.room ∧
      (shell.runLine (first ++ ';' :: second)).2.sink.events.map (Event.renumber fun _ => 0) =
        (shell.runLines [first, second]).2.sink.events.map (Event.renumber fun _ => 0) ∧
      (shell.runLines [first, second]).2.session.counter =
        shell.session.counter + if (shell.runLine first).1 = .proceed then 2 else 1 := by
  obtain ⟨hflow, halike⟩ := shell.alike_runLine_append_semicolon hcomment hfirst hsecond
    (not_isBlank_iff.2 hfirstWords) (not_isBlank_iff.2 hsecondWords)
  refine ⟨hflow, ?_, halike.host, halike.room, halike.events, shell.counter_runLines_pair first second⟩
  rw [halike.session, counter_runLine, input_runLine]

end Lines

open Children.Performing

theorem runLine_append_semicolon_exit :
    (bare.runLine ("unsetenv A && env".toList ++ ';' :: "exit $? || env # b".toList)).1 =
        (bare.runLines ["unsetenv A && env".toList, "exit $? || env # b".toList]).1 ∧
      (bare.runLine ("unsetenv A && env".toList ++ ';' :: "exit $? || env # b".toList)).1 =
        .stop 2 ∧
      (bare.runLines ["unsetenv A && env".toList, "exit $? || env # b".toList]).2.session.counter =
        2 := by
  have hlaw := runLine_append_semicolon bare "unsetenv A && env".toList "exit $? || env # b".toList
    (by decide) (by decide) (by decide) ⟨'u', by decide⟩ ⟨'e', by decide⟩
  refine ⟨hlaw.1, by decide, ?_⟩
  rw [hlaw.2.2.2.2.2]
  decide

end Shell

end CommandShell
