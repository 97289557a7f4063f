import CommandShell.Proofs.Input
import CommandShell.Startup

/-!
# Startup files as scripts

A startup file and a script take different ways to the session. The one is read as a whole, must be text, and is cut into lines without their ends; the other is cut behind each newline as it comes. For a file that is text the two do the same, line for line.

A startup file that cannot be taken this way is not begun at all, so the session finds out about it before anything has happened.
-/

namespace CommandShell

theorem Host.openScript_of_bytesOf (host : Host) {path : Text} {entry : Entry}
    (hentry : host.find? (.ofText path) = some entry) {bytes : Bytes}
    (hbytes : Host.bytesOf entry = .ok bytes) :
    host.openScript path = .ok (LineSource.ofStream bytes) := by
  have hread : entry.rights.read = true := by
    rw [Host.bytesOf.eq_def] at hbytes
    split at hbytes
    · simp at hbytes
    · next hread => simpa using hread
  rw [Host.openScript, hentry]
  dsimp only
  rw [hread, hbytes]
  rfl

namespace Shell

theorem runLines_textLines [Children] (shell : Shell) (t : Text) :
    shell.runLines (textLines t) = shell.runLines (LineSource.ofStream t.utf8).lines := by
  rw [LineSource.lines_ofStream_utf8, textLines, runLines_map_withoutLineEnd]

theorem linesRun_textLines [Children] (shell : Shell) (t : Text) :
    shell.linesRun (textLines t) = shell.linesRun (LineSource.ofStream t.utf8).lines := by
  rw [LineSource.lines_ofStream_utf8, textLines, linesRun_map_withoutLineEnd]

/-- The entry that the startup file's path leads to. -/
def startupFile? (shell : Shell) (files : StartupFiles) : Option Entry :=
  shell.host.find? files.rc

/-- The startup file is there but is not text, or it is not there and has to be. -/
def CannotSource (shell : Shell) (files : StartupFiles) : Prop :=
  match shell.startupFile? files with
  | none => files.isRequired = true
  | some entry => ∀ bytes, Host.bytesOf entry = .ok bytes → bytes.text? = none

theorem source_of_text [Children] (shell : Shell) {files : StartupFiles} {entry : Entry}
    (hentry : shell.startupFile? files = some entry) {bytes : Bytes}
    (hbytes : Host.bytesOf entry = .ok bytes) {t : Text} (htext : bytes.text? = some t) :
    shell.source files =
      (.ok (shell.runLines (textLines t)).1, (shell.runLines (textLines t)).2) := by
  have hread : Host.readText entry = .ok t := by
    rw [Host.readText, hbytes]
    dsimp only
    rw [htext]
  rw [startupFile?] at hentry
  rw [source, hentry]
  dsimp only
  rw [hread]

/-- Sourcing fails before the first line or not at all. -/
theorem source_cases [Children] (shell : Shell) (files : StartupFiles) :
    (shell.CannotSource files ∧ ∃ error, shell.source files = (.error error, shell)) ∨
      (¬shell.CannotSource files ∧ ∃ flow next, shell.source files = (.ok flow, next)) := by
  rw [CannotSource, source, ← startupFile?]
  cases hentry : shell.startupFile? files with
  | none =>
    by_cases hrequired : files.isRequired = true
    · exact .inl ⟨hrequired, .notFound files.rc.shown, by dsimp only; rw [if_pos hrequired]⟩
    · exact .inr ⟨hrequired, .proceed, shell, by dsimp only; rw [if_neg hrequired]⟩
  | some entry =>
    dsimp only
    rw [Host.readText]
    cases hbytes : Host.bytesOf entry with
    | error error => exact .inl ⟨fun bytes hok => by simp at hok, .file error, rfl⟩
    | ok bytes =>
      dsimp only
      cases htext : bytes.text? with
      | none =>
        refine .inl ⟨fun read hread => ?_, .file .notText, rfl⟩
        rw [← Except.ok.inj hread, htext]
      | some t =>
        refine .inr ⟨fun hnone => ?_, _, _, rfl⟩
        rw [hnone bytes rfl] at htext
        exact absurd htext (by simp)

/-- Text does the same as a startup file and as a stream of lines, and so does a file that is opened in both ways. A startup file that cannot be sourced leaves the shell as it was, and there is no other failure. -/
theorem source_eq_runLines_script [Children] (shell : Shell) (files : StartupFiles) :
    (∀ (bytes : Bytes) (t : Text), bytes.text? = some t →
      shell.linesRun (textLines t) = shell.linesRun (LineSource.ofStream bytes).lines ∧
        shell.runLines (textLines t) = shell.runLines (LineSource.ofStream bytes).lines) ∧
      (∀ (path : Text) (entry : Entry) (bytes : Bytes), files.rc = .ofText path →
        shell.host.find? (.ofText path) = some entry → Host.bytesOf entry = .ok bytes → bytes.text? ≠ none →
        ∃ script, shell.host.openScript path = .ok script ∧ script.failure = none ∧
          shell.source files =
            (.ok (shell.runLines script.lines).1, (shell.runLines script.lines).2)) ∧
      (∀ error, (shell.source files).1 = .error error → (shell.source files).2 = shell) ∧
      ((∃ error, (shell.source files).1 = .error error) ↔ shell.CannotSource files) := by
  refine ⟨?_, ?_, ?_, ?_⟩
  · intro bytes t htext
    rw [text?_eq_some_iff] at htext
    subst htext
    exact ⟨shell.linesRun_textLines t, shell.runLines_textLines t⟩
  · intro path entry bytes hpath hentry hbytes hsome
    obtain ⟨t, htext⟩ := Option.ne_none_iff_exists'.1 hsome
    have hstartup : shell.startupFile? files = some entry := by
      rw [startupFile?, hpath, hentry]
    refine ⟨_, shell.host.openScript_of_bytesOf hentry hbytes, rfl, ?_⟩
    rw [shell.source_of_text hstartup hbytes htext, runLines_textLines, text?_eq_some_iff.1 htext]
  · intro error herror
    obtain ⟨-, failure, hsource⟩ | ⟨-, flow, next, hsource⟩ := shell.source_cases files
    · rw [hsource]
    · rw [hsource] at herror
      exact absurd herror (by simp)
  · obtain ⟨hcannot, failure, hsource⟩ | ⟨hcan, flow, next, hsource⟩ := shell.source_cases files
    · rw [hsource]
      exact ⟨fun _ => hcannot, fun _ => ⟨failure, rfl⟩⟩
    · rw [hsource]
      refine ⟨?_, fun hcannot => absurd hcannot hcan⟩
      rintro ⟨error, herror⟩
      exact absurd herror (by simp)

/-- A line that ends in a carriage return, an offence, an empty line, a comment, and a last line without a newline that is not reached. -/
def startupText : Text :=
  "setenv A b\r\na;;\r\n\nexit 7 # c\nenv".toList

def withStartupText : Shell :=
  { bare with
    host :=
      { tree :=
          { top :=
              .tree (Text.utf8 "rc".toList) (.file (.data (Text.utf8 startupText))) .empty .empty } } }

open Children.Performing

theorem source_eq_runLines_script_exit :
    (∃ script, withStartupText.host.openScript "/rc".toList = .ok script ∧
      withStartupText.source
          { rc := .ofText "/rc".toList, history := .ofText [], isRequired := true } =
        (.ok (withStartupText.runLines script.lines).1, (withStartupText.runLines script.lines).2)) ∧
      withStartupText.runLines (textLines startupText) =
        withStartupText.runLines (LineSource.ofStream (Text.utf8 startupText)).lines ∧
      (withStartupText.runLines (textLines startupText)).1 = .stop 7 ∧
      withStartupText.linesRun (textLines startupText) = 4 ∧
      (withStartupText.source
          { rc := .ofText "/cr".toList, history := .ofText [], isRequired := true }).2 =
        withStartupText := by
  have hpresent := source_eq_runLines_script withStartupText
    { rc := .ofText "/rc".toList, history := .ofText [], isRequired := true }
  have hmissing := source_eq_runLines_script withStartupText
    { rc := .ofText "/cr".toList, history := .ofText [], isRequired := true }
  refine ⟨?_, ?_, by decide, by decide, ?_⟩
  · obtain ⟨script, hopen, -, hsource⟩ := hpresent.2.1 "/rc".toList
      (.file (.data (Text.utf8 startupText))) (Text.utf8 startupText) rfl (by decide) rfl
      (by decide)
    exact ⟨script, hopen, hsource⟩
  · exact (hpresent.1 (Text.utf8 startupText) startupText (by decide)).2
  · exact hmissing.2.2.1 (.notFound "/cr".toList) rfl

end Shell

end CommandShell
