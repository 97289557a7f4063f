import CommandShell.Proofs.Evaluation.Meaning
import CommandShell.Proofs.Expansion
import CommandShell.Proofs.Line.Comment
import CommandShell.Proofs.Line.Grammar

/-!
# Values never become syntax

A line is stripped of its comment, checked and split while the names of variables still stand in it. Their values come in only when a command is expanded, and all that is done to them then is to cut them at delimiters. So a value without delimiters is one word, whatever it holds: an operator in it joins no commands, a `#` opens no comment and a `$` begins no form.

This is shown for lines that are made of words with a blank between each two, where a word is text of no meaning to the shell or a variable.
-/

namespace CommandShell

/-- What expansion takes for the name of a variable. -/
def isIdentifier : Text → Bool
  | [] => false
  | c :: rest => isNameStart c && rest.all isNameCharacter

/-- A word as it stands in a line. -/
inductive WordForm where
  | literal (text : Text)
  | reference (name : Text)
  deriving DecidableEq, Repr

namespace WordForm

def text : WordForm → Text
  | literal text => text
  | reference name => '$' :: name

def value (environment : Environment) : WordForm → Text
  | literal text => text
  | reference name => (environment.get? name).getD []

/-- The words with a blank between each two. -/
def line (forms : List WordForm) : Text :=
  Text.joined [' '] (forms.map text)

/-- Text that no stage of evaluation looks at, or a variable whose value could be a word. -/
def Admissible (environment : Environment) : WordForm → Prop
  | literal text => IsWord text ∧ IsPlain text ∧ '$' ∉ text ∧ text.head? ≠ some '#'
  | reference name => isIdentifier name = true ∧ ∃ value ∈ environment.get? name, IsWord value

instance (environment : Environment) : (form : WordForm) → Decidable (form.Admissible environment)
  | literal text =>
    inferInstanceAs (Decidable (IsWord text ∧ IsPlain text ∧ '$' ∉ text ∧ text.head? ≠ some '#'))
  | reference name =>
    inferInstanceAs (Decidable (isIdentifier name = true ∧
      ∃ value ∈ environment.get? name, IsWord value))

end WordForm

/-! ### Names -/

theorem isNameCharacter_of_isOperatorCharacter {c : Char} (h : isOperatorCharacter c = true) :
    isNameCharacter c = false := by
  rcases isOperatorCharacter_iff.1 h with rfl | rfl | rfl <;> rfl

/-- No character of a name is of a kind that has none of the characters that names are made of. -/
theorem forall_mem_of_isIdentifier {name : Text} (h : isIdentifier name = true) {p : Char → Bool}
    (hp : ∀ c, p c = true → isNameCharacter c = false) : ∀ c ∈ name, p c = false := by
  intro c hmem
  have hname : isNameCharacter c = true := by
    cases name with
    | nil => simp at hmem
    | cons first rest =>
      simp only [isIdentifier, Bool.and_eq_true, List.all_eq_true] at h
      rcases List.mem_cons.1 hmem with rfl | hrest
      · simp [isNameCharacter, h.1]
      · exact h.2 c hrest
  rw [Bool.eq_false_iff]
  intro hc
  rw [hp c hc] at hname
  exact absurd hname (by decide)

theorem Scope.expand_of_isIdentifier (scope : Scope) {name : Text} (h : isIdentifier name = true) :
    scope.expand ('$' :: name) = (scope.valueOf name).getD [] := by
  cases name with
  | nil => simp [isIdentifier] at h
  | cons c rest =>
    simp only [isIdentifier, Bool.and_eq_true, List.all_eq_true] at h
    exact scope.expand_reference h.1 h.2

/-! ### Words -/

namespace WordForm.Admissible

variable {environment : Environment} {form : WordForm}

theorem isWord_text (h : form.Admissible environment) : IsWord form.text := by
  cases form with
  | literal text => exact h.1
  | reference name =>
    have hname := forall_mem_of_isIdentifier h.1 fun _ => isNameCharacter_of_isDelimiter
    exact ⟨List.cons_ne_nil _ _, List.forall_mem_cons.2 ⟨rfl, hname⟩⟩

theorem isPlain_text (h : form.Admissible environment) : IsPlain form.text := by
  cases form with
  | literal text => exact h.2.1
  | reference name =>
    have hname := forall_mem_of_isIdentifier h.1 fun _ => isNameCharacter_of_isOperatorCharacter
    exact isPlain_cons.2 ⟨rfl, hname⟩

theorem head?_text (h : form.Admissible environment) : form.text.head? ≠ some '#' := by
  cases form with
  | literal text => exact h.2.2.2
  | reference name => simp [text]

theorem isWord_value (h : form.Admissible environment) : IsWord (form.value environment) := by
  cases form with
  | literal text => exact h.1
  | reference name =>
    obtain ⟨-, value, hvalue, hword⟩ := h
    rw [WordForm.value, Option.mem_def.1 hvalue]
    exact hword

theorem expand_text {session : Session} (h : form.Admissible session.environment) :
    session.scope.expand form.text = form.value session.environment := by
  cases form with
  | literal text => exact session.scope.expand_of_notMem h.2.2.1
  | reference name => exact session.scope.expand_of_isIdentifier h.1

end WordForm.Admissible

/-! ### Lines -/

namespace WordForm

variable {environment : Environment} {forms : List WordForm}

theorem isPlain_line (h : ∀ form ∈ forms, form.Admissible environment) : IsPlain (line forms) := by
  apply isPlain_joined
  rw [List.forall_mem_map]
  intro form hmem
  exact (h form hmem).isPlain_text

theorem withoutComment_line (h : ∀ form ∈ forms, form.Admissible environment) :
    withoutComment (line forms) = line forms := by
  apply withoutComment_joined
  rw [List.forall_mem_map]
  intro form hmem
  have hform := h form hmem
  refine ⟨hform.isWord_text, hform.head?_text, ?_⟩
  intro hsemicolon
  exact absurd (hform.isPlain_text ';' hsemicolon) (by decide)

/-- The words come out of a line as they were put into it, with values in the place of names. -/
theorem words_expand_line {session : Session}
    (h : ∀ form ∈ forms, form.Admissible session.environment) :
    words (session.scope.expand (line forms)) = forms.map (value session.environment) := by
  have hvalues : (forms.map text).map session.scope.expand =
      forms.map (value session.environment) := by
    rw [List.map_map]
    apply List.map_congr_left
    intro form hmem
    exact (h form hmem).expand_text
  rw [line, Scope.expand_joined, hvalues]
  apply words_joined
  rw [List.forall_mem_map]
  intro form hmem
  exact (h form hmem).isWord_value

end WordForm

/-! ### Performing the words -/

namespace Shell

theorem Change.argv {before later : Shell} (h : before.Change later) :
    later.session.argv = before.session.argv := by
  cases h <;> rfl

section Lines

variable [Children]

theorem argv_perform (shell : Shell) (argv : List Text) : (shell.perform argv).session.argv = argv := by
  have hsettles := shell.settles_perform argv
  generalize shell.perform argv = later at hsettles
  cases hsettles with
  | quiet hchanges => exact eq_of_changes Change.argv hchanges
  | told hchanges error hstatus => exact eq_of_changes Change.argv hchanges

theorem runLine_of_isPlain (shell : Shell) {line : Text} (hcomment : withoutComment line = line)
    (hplain : IsPlain line) :
    shell.runLine line =
      (.ofRequest ((shell.beginLine line).runCommand line).session.exitRequest,
        (shell.beginLine line).runCommand line) := by
  rw [runLine, hcomment, misplaced?_of_isPlain hplain, Chain.split_of_isPlain hplain]
  dsimp only
  rw [runChain_true]
  cases ((shell.beginLine line).runCommand line).session.exitRequest <;> rfl

theorem runLine_line (shell : Shell) {forms : List WordForm}
    (h : ∀ form ∈ forms, form.Admissible shell.session.environment) :
    let next := (shell.beginLine (WordForm.line forms)).perform
      (forms.map (WordForm.value shell.session.environment))
    shell.runLine (WordForm.line forms) = (.ofRequest next.session.exitRequest, next) := by
  intro next
  have hnext : (shell.beginLine (WordForm.line forms)).runCommand (WordForm.line forms) = next := by
    rw [runCommand_eq_perform]
    exact congrArg _ (WordForm.words_expand_line h)
  rw [shell.runLine_of_isPlain (WordForm.withoutComment_line h) (WordForm.isPlain_line h), hnext]

theorem perform_setenv (shell : Shell) {name value : Text} (h : Environment.Settable name value) :
    shell.perform ["setenv".toList, name, value] =
      { shell with
        session :=
          { shell.session with
            argv := ["setenv".toList, name, value]
            environment := { entries := assign name value shell.session.environment.entries }
            status := 0 } } := by
  have hset : (shell.withArgv ["setenv".toList, name, value]).session.environment.set name value =
      .ok { entries := assign name value shell.session.environment.entries } :=
    shell.session.environment.set_of_settable h
  have hname : Builtin.ofName? "setenv".toList = some .setenv := Builtin.ofName?_name .setenv
  rw [perform, dispatch, hname]
  dsimp only
  rw [Builtin.run, Builtin.runSetenv, hset]
  rfl

/-- The line that sets one variable to the value of another. -/
theorem runLine_setenv (shell : Shell) {target source value : Text}
    (hname : Environment.isValidName target = true)
    (htarget : (WordForm.literal target).Admissible shell.session.environment)
    (hsource : (WordForm.reference source).Admissible shell.session.environment)
    (hget : shell.session.environment.get? source = some value)
    (hwf : shell.session.environment.WellFormed) :
    let line := "setenv ".toList ++ target ++ " $".toList ++ source
    shell.runLine line =
      (.ofRequest shell.session.exitRequest,
        { shell with
          session :=
            { (shell.beginLine line).session with
              argv := ["setenv".toList, target, value]
              environment := { entries := assign target value shell.session.environment.entries }
              status := 0 } }) := by
  intro line
  have hline : line = WordForm.line [.literal "setenv".toList, .literal target, .reference source] := by
    simp [line, WordForm.line, WordForm.text, Text.joined]
  have hforms : ∀ form ∈ [.literal "setenv".toList, .literal target, .reference source],
      WordForm.Admissible shell.session.environment form := by
    simp only [List.forall_mem_cons, List.not_mem_nil, false_implies, implies_true, and_true]
    exact ⟨⟨by decide, by decide, by decide, by decide⟩, htarget, hsource⟩
  have hargv : [WordForm.literal "setenv".toList, .literal target, .reference source].map
      (WordForm.value shell.session.environment) = ["setenv".toList, target, value] := by
    simp [WordForm.value, hget]
  have hsettable : Environment.Settable target value :=
    Environment.settable_iff.2 ⟨hname, (Environment.settable_iff.1 (hwf.settable_of_get? hget)).2⟩
  have hrun := shell.runLine_line hforms
  rw [hargv, perform_setenv _ hsettable, ← hline] at hrun
  exact hrun

/-- Values come into a line as they are. A line of words with a blank between each two passes the check and is one command, and the words that are performed are those of the line with each variable replaced by its value, whatever characters other than delimiters the value has. So where the environment is well formed, as that of every session is, a variable may be set to the value of another, and nothing else happens. -/
theorem runLine_verbatim (shell : Shell) :
    (∀ (first : WordForm) (rest : List WordForm),
      (∀ form ∈ first :: rest, form.Admissible shell.session.environment) →
      let line := WordForm.line (first :: rest)
      let value := WordForm.value shell.session.environment
      let ready := (shell.beginLine line).withArgv (value first :: rest.map value)
      let performed := ready.dispatch (value first) (rest.map value)
      let next := performed.2.conclude performed.1
      misplaced? (withoutComment line) = none ∧
        (Chain.split (withoutComment line)).commands = [line] ∧
        shell.runLine line = (.ofRequest next.session.exitRequest, next) ∧
        next.session.argv = value first :: rest.map value) ∧
      ∀ target source value : Text, Environment.isValidName target = true →
        (WordForm.literal target).Admissible shell.session.environment →
        (WordForm.reference source).Admissible shell.session.environment →
        shell.session.environment.get? source = some value →
        shell.session.environment.WellFormed →
        let result := shell.runLine ("setenv ".toList ++ target ++ " $".toList ++ source)
        result.1 = .ofRequest shell.session.exitRequest ∧
          result.2.session.status = 0 ∧
          result.2.session.exitRequest = shell.session.exitRequest ∧
          result.2.host = shell.host ∧
          result.2.sink = shell.sink ∧
          ∀ name, result.2.session.environment.get? name =
            if name = target then some value else shell.session.environment.get? name := by
  constructor
  · intro first rest h line value ready performed next
    have hcomment : withoutComment line = line := WordForm.withoutComment_line h
    have hplain : IsPlain line := WordForm.isPlain_line h
    have hnext : next = (shell.beginLine line).perform (value first :: rest.map value) := rfl
    refine ⟨?_, ?_, ?_, ?_⟩
    · rw [hcomment]
      exact misplaced?_of_isPlain hplain
    · rw [hcomment, Chain.split_of_isPlain hplain]
      rfl
    · exact shell.runLine_line h
    · rw [hnext]
      exact argv_perform _ _
  · intro target source value hname htarget hsource hget hwf result
    have hresult : result = _ := shell.runLine_setenv hname htarget hsource hget hwf
    rw [hresult]
    refine ⟨rfl, rfl, rfl, rfl, rfl, ?_⟩
    intro name
    exact lookup_assign target name value shell.session.environment.entries

end Lines

open Children.Performing

/-- Operators, a comment and a form in a value are text like any other. -/
theorem runLine_verbatim_operators :
    let environment := Environment.ofList [("N".toList, "#x;exit&&$N|$?".toList)]
    let shell : Shell := { bare with session := { bare.session with environment } }
    (∀ form ∈ [.literal "unsetenv".toList, .reference "N".toList, .literal "a#b".toList],
        WordForm.Admissible environment form) ∧
      (shell.runLine "unsetenv $N a#b".toList).2.session.argv =
        ["unsetenv".toList, "#x;exit&&$N|$?".toList, "a#b".toList] ∧
      (shell.runLine "setenv M $N".toList).1 = .proceed ∧
      (shell.runLine "setenv M $N".toList).2.session.environment.get? "M".toList =
        some "#x;exit&&$N|$?".toList := by
  intro environment shell
  have hwf : environment.WellFormed := Environment.wellFormed_ofList _
  have hforms : ∀ form ∈ [.literal "unsetenv".toList, .reference "N".toList, .literal "a#b".toList],
      WordForm.Admissible environment form := by decide
  obtain ⟨hline, hsetenv⟩ := runLine_verbatim shell
  obtain ⟨-, -, hrun, hargv⟩ := hline _ _ hforms
  obtain ⟨hflow, -, -, -, -, hget⟩ := hsetenv "M".toList "N".toList "#x;exit&&$N|$?".toList
    (by decide) (by decide) (by decide) (by decide) hwf
  refine ⟨hforms, ?_, hflow, hget "M".toList⟩
  have htext : WordForm.line [.literal "unsetenv".toList, .reference "N".toList,
      .literal "a#b".toList] = "unsetenv $N a#b".toList := by decide
  rw [htext] at hrun
  rw [hrun]
  exact hargv

end Shell

end CommandShell
