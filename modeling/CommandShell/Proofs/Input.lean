import CommandShell.Input
import CommandShell.Proofs.Evaluation.Trailing
import CommandShell.Proofs.Text.Ascii

/-!
# The lines of a stream and of a text

A stream is cut behind its newlines as bytes and each piece is then read as text. For bytes that are a text this is the same as cutting the text, because no other character has the byte of a newline in it.

The lines of a text then differ from those of its bytes in their ends only, and a session runs them alike.
-/

namespace CommandShell

theorem lineRecords_utf8 (t : Text) :
    lineRecords t.utf8 = (records (fun c => c == '\n') t).map Text.utf8 :=
  records_utf8 (by decide) t

theorem LineSource.lines_ofStream_utf8 (t : Text) :
    (LineSource.ofStream t.utf8).lines = records (fun c => c == '\n') t := by
  rw [LineSource.ofStream, lineRecords_utf8, List.map_map, List.map_congr_left, List.map_id]
  intro line _
  exact decoded_utf8 line

/-! ### Line ends -/

theorem exists_lineEnd (line : Text) :
    ∃ lineEnd, line = withoutLineEnd line ++ lineEnd ∧ ∀ c ∈ lineEnd, Shell.isLineEnd c = true := by
  have hline := line.reverse_reverse
  rw [withoutLineEnd]
  split
  · next rest hreverse =>
    refine ⟨['\r', '\n'], ?_, by simp [Shell.isLineEnd]⟩
    rw [← hline, hreverse]
    simp
  · next rest _ hreverse =>
    refine ⟨['\n'], ?_, by simp [Shell.isLineEnd]⟩
    rw [← hline, hreverse]
    simp
  · exact ⟨[], by simp, by simp⟩

namespace Shell

theorem runLine_withoutLineEnd [Children] (shell : Shell) (line : Text) :
    shell.runLine (withoutLineEnd line) = shell.runLine line := by
  obtain ⟨lineEnd, hline, hends⟩ := exists_lineEnd line
  have hrun := shell.runLine_append_lineEnd (withoutLineEnd line) hends
  rw [← hline] at hrun
  exact hrun.symm

theorem runLines_map_withoutLineEnd [Children] (shell : Shell) (lines : List Text) :
    shell.runLines (lines.map withoutLineEnd) = shell.runLines lines := by
  induction lines generalizing shell with
  | nil => rfl
  | cons line lines ih =>
    rw [List.map_cons, runLines, runLines, runLine_withoutLineEnd]
    simp only [ih]

/-- Each line that is run is counted, so lines that do the same are as many. -/
theorem linesRun_map_withoutLineEnd [Children] (shell : Shell) (lines : List Text) :
    shell.linesRun (lines.map withoutLineEnd) = shell.linesRun lines := by
  have hbare := shell.counter_runLines (lines.map withoutLineEnd)
  have hended := shell.counter_runLines lines
  rw [runLines_map_withoutLineEnd] at hbare
  omega

end Shell

end CommandShell
