import CommandShell.Proofs.Evaluation.Directory
import CommandShell.Proofs.Evaluation.Variables

/-!
# Updates of variables

`PWD` and `OLDPWD` apart, which `cd` sets, a variable is changed by `setenv` and `unsetenv` only, and by these only if they succeed and name it. So after any number of lines the value of a variable is read off the commands that were executed: it is what the last update of it said, or what it was at first if there is none. Commands that fail, that do something else, or that are not executed at all have no part in this.
-/

namespace CommandShell

namespace Execution

variable [Children]

/-- The words of the command ask for the edit, and the command succeeds. -/
def Makes (execution : Execution) (edit : Edit) : Prop :=
  execution.argv = edit.words ∧ ∃ status, execution.answer? = some (.ok status)

/-- The command sets or erases the variable. -/
def Updates (execution : Execution) (name : Text) : Prop :=
  ∃ edit, execution.Makes edit ∧ edit.name = name

end Execution

/-! ### Commands that edit -/

theorem Edit.exists_words_eq_cons (edit : Edit) : ∃ name arguments, edit.words = name :: arguments := by
  cases edit with
  | set name value => exact ⟨_, _, rfl⟩
  | erase name => exact ⟨_, _, rfl⟩

theorem Shell.environment_withArgv (shell : Shell) (argv : List Text) :
    (shell.withArgv argv).session.environment = shell.session.environment := rfl

/-- The words of an edit make it. If it fails, they change nothing at all. -/
theorem Shell.dispatch_words [Children] (shell : Shell) {edit : Edit} {name : Text} {arguments : List Text}
    (h : edit.words = name :: arguments) :
    shell.dispatch name arguments =
      match shell.session.environment.edit edit with
      | .ok environment => (.ok 0, shell.withEnvironment environment)
      | .error error => (.error (.builtin name (.environment error)), shell) := by
  cases edit with
  | set assigned value =>
    obtain ⟨rfl, rfl⟩ := List.cons.inj h
    rw [dispatch, Builtin.ofName?_name, Environment.edit]
    dsimp only [Builtin.run, Builtin.runSetenv]
    cases shell.session.environment.set assigned value <;> rfl
  | erase erased =>
    obtain ⟨rfl, rfl⟩ := List.cons.inj h
    rw [dispatch, Builtin.ofName?_name, Environment.edit]
    dsimp only [Builtin.run, Builtin.runUnsetenv]
    cases shell.session.environment.erase erased <;> rfl

namespace Execution

variable [Children] {execution : Execution} {edit : Edit} {name : Text}

theorem Makes.edit_eq_ok (h : execution.Makes edit) :
    execution.before.session.environment.edit edit = .ok execution.after.session.environment := by
  obtain ⟨hargv, status, hanswer⟩ := h
  obtain ⟨command, arguments, hwords⟩ := edit.exists_words_eq_cons
  rw [hwords] at hargv
  rw [execution.answer?_cons hargv, Shell.dispatch_words _ hwords,
    Shell.environment_withArgv] at hanswer
  rw [execution.after_cons hargv, Shell.dispatch_words _ hwords, Shell.environment_withArgv]
  cases hedit : execution.before.session.environment.edit edit with
  | ok environment => rfl
  | error error =>
    rw [hedit] at hanswer
    simp at hanswer

theorem makes_of_edit_eq_ok (hargv : execution.argv = edit.words) {environment : Environment}
    (hedit : execution.before.session.environment.edit edit = .ok environment) :
    execution.Makes edit := by
  refine ⟨hargv, 0, ?_⟩
  obtain ⟨command, arguments, hwords⟩ := edit.exists_words_eq_cons
  rw [execution.answer?_cons (hargv.trans hwords), Shell.dispatch_words _ hwords,
    Shell.environment_withArgv, hedit]

theorem Makes.get?_after (h : execution.Makes edit)
    (hwf : execution.before.session.environment.WellFormed) :
    execution.after.session.environment.get? edit.name = edit.value? := by
  rw [hwf.get?_of_edit h.edit_eq_ok, if_pos rfl]

end Execution

/-! ### Commands that do not update -/

namespace Builtin

/-- A `cd` sets `OLDPWD` and `PWD` at most. -/
theorem CdOutcome.get?_eq {shell : Shell} {arguments : List Text}
    {run : Except BuiltinError Status × Shell} (h : CdOutcome shell arguments run)
    (hwf : shell.session.environment.WellFormed) {name : Text} (hpwd : name ≠ "PWD".toList)
    (hold : name ≠ "OLDPWD".toList) :
    run.2.surroundings.environment.get? name = shell.session.environment.get? name := by
  cases h with
  | refused arguments error herror => rfl
  | untold arguments host error huntold => rfl
  | unnoted argument left host entered error henter hentered herror => rfl
  | noted argument left host entered environment henter hentered hnote =>
    obtain ⟨middle, hfirst, hsecond⟩ := edits_of_noteMove hnote
    have hmiddle := hwf.get?_of_edit_of_ne hfirst hold
    have hafter := (hwf.edit hfirst).get?_of_edit_of_ne hsecond hpwd
    rw [surroundings_noted]
    exact hafter.trans hmiddle

theorem EditOutcome.get?_eq_or_edits {before after : Surroundings} {words : List Text}
    (h : EditOutcome before words after) (hwf : before.environment.WellFormed) (name : Text) :
    after.environment.get? name = before.environment.get? name ∨
      ∃ edit environment, words = edit.words ∧ edit.name = name ∧
        before.environment.edit edit = .ok environment := by
  cases h with
  | unchanged => exact .inl rfl
  | ran command host _ _ => exact .inl rfl
  | edited edit environment hwords hedit =>
    by_cases hname : edit.name = name
    · exact .inr ⟨edit, environment, hwords, hname, hedit⟩
    · exact .inl (hwf.get?_of_edit_of_ne hedit (Ne.symm hname))

end Builtin

namespace Execution

variable [Children] {execution : Execution} {name : Text}

theorem get?_of_not_updates (hwf : execution.before.session.environment.WellFormed)
    (hpwd : name ≠ "PWD".toList) (hold : name ≠ "OLDPWD".toList) (h : ¬execution.Updates name) :
    execution.after.session.environment.get? name =
      execution.before.session.environment.get? name := by
  cases hargv : execution.argv with
  | nil =>
    rw [after_eq_perform, hargv]
    rfl
  | cons command arguments =>
    have hafter : execution.after.session.environment =
        ((execution.before.withArgv (command :: arguments)).dispatch command
          arguments).2.surroundings.environment :=
      congrArg Surroundings.environment (surroundings_after_cons hargv)
    rw [hafter]
    by_cases hcd : command = Builtin.cd.name
    · have houtcome :=
        Builtin.cdOutcome_runCd (execution.before.withArgv (Builtin.cd.name :: arguments)) arguments
      rw [hcd, Shell.dispatch_cd]
      exact houtcome.get?_eq hwf hpwd hold
    · have houtcome :=
        (execution.before.withArgv (command :: arguments)).editOutcome_dispatch hcd arguments
      rcases houtcome.get?_eq_or_edits hwf name with hsame | ⟨edit, environment, hwords, hname, hedit⟩
      · exact hsame
      · exact absurd ⟨edit, makes_of_edit_eq_ok (hargv.trans hwords) hedit, hname⟩ h

/-- Only a `setenv` or an `unsetenv` that succeeds updates anything. -/
theorem Updates.cases (h : execution.Updates name) :
    (execution.argv.head? = some Builtin.setenv.name ∨
      execution.argv.head? = some Builtin.unsetenv.name) ∧
      ∃ status, execution.answer? = some (.ok status) := by
  obtain ⟨edit, ⟨hargv, hanswer⟩, -⟩ := h
  refine ⟨?_, hanswer⟩
  rw [hargv]
  cases edit with
  | set assigned value => exact .inl rfl
  | erase erased => exact .inr rfl

theorem wellFormed_after (execution : Execution)
    (hwf : execution.before.session.environment.WellFormed) :
    execution.after.session.environment.WellFormed :=
  Shell.isInvariant_wellFormed.runCommand hwf execution.command

end Execution

/-! ### Any number of lines -/

namespace Shell

section Lines

variable [Children] {shell : Shell} {name : Text}

theorem IsTrace.wellFormed {trace : List Execution} (h : shell.IsTrace trace)
    (hwf : shell.session.environment.WellFormed) :
    (shell.behind trace).session.environment.WellFormed :=
  h.keeps (fun surroundings => surroundings.environment.WellFormed) (fun _ => True)
    (fun execution _ => execution.wellFormed_after) (by simp) hwf

theorem IsTrace.get?_of_not_updates {trace : List Execution} (h : shell.IsTrace trace)
    (hwf : shell.session.environment.WellFormed) (hpwd : name ≠ "PWD".toList)
    (hold : name ≠ "OLDPWD".toList) (hnone : ∀ execution ∈ trace, ¬execution.Updates name) :
    (shell.behind trace).session.environment.get? name = shell.session.environment.get? name := by
  have hkept := h.keeps
    (fun surroundings => surroundings.environment.WellFormed ∧
      surroundings.environment.get? name = shell.session.environment.get? name)
    (fun execution => ¬execution.Updates name) ?_ hnone ⟨hwf, rfl⟩
  · exact hkept.2
  · rintro execution hother ⟨hbefore, hvalue⟩
    refine ⟨execution.wellFormed_after hbefore, ?_⟩
    exact (Execution.get?_of_not_updates hbefore hpwd hold hother).trans hvalue

/-- The last update of a variable decides on its value. -/
theorem IsTrace.get?_of_makes {earlier since : List Execution} {execution : Execution} {edit : Edit}
    (h : shell.IsTrace (earlier ++ execution :: since))
    (hwf : shell.session.environment.WellFormed) (hpwd : edit.name ≠ "PWD".toList)
    (hold : edit.name ≠ "OLDPWD".toList) (hmakes : execution.Makes edit)
    (hnone : ∀ other ∈ since, ¬other.Updates edit.name) :
    (execution.after.behind since).session.environment.get? edit.name = edit.value? := by
  obtain ⟨hearlier, hbefore, hsince⟩ := isTrace_append.1 h
  have hready : execution.before.session.environment.WellFormed := by
    have heq := congrArg Surroundings.environment hbefore
    show execution.before.surroundings.environment.WellFormed
    rw [heq]
    exact hearlier.wellFormed hwf
  rw [hsince.get?_of_not_updates (execution.wellFormed_after hready) hpwd hold hnone]
  exact hmakes.get?_after hready

/-- No variable but `PWD` and `OLDPWD` is changed unless an executed command is a `setenv` or `unsetenv` of it that succeeds, and no such command is lost: the last one decides on the value. Every other command leaves the variable alone, whatever it is and wherever it is executed; a command that is skipped leaves the whole shell to the rest of the line, and a line that is rejected leaves all variables. -/
theorem variable_follows_updates (shell : Shell) (hwf : shell.session.environment.WellFormed)
    (lines : List Text) (name : Text) (hpwd : name ≠ "PWD".toList)
    (hold : name ≠ "OLDPWD".toList) :
    let value (later : Shell) := later.session.environment.get? name
    (value (shell.afterLines lines) ≠ value shell →
      ∃ execution ∈ shell.executionsOf lines, execution.Updates name) ∧
      (∀ earlier execution since edit,
        shell.executionsOf lines = earlier ++ execution :: since → execution.Makes edit →
        edit.name = name → (∀ other ∈ since, ¬other.Updates name) →
        value (shell.afterLines lines) = edit.value?) ∧
      (∀ execution : Execution, execution.before.session.environment.WellFormed →
        ¬execution.Updates name → value execution.after = value execution.before) ∧
      (∀ execution : Execution,
        (execution.argv.head? ≠ some "setenv".toList ∧
            execution.argv.head? ≠ some "unsetenv".toList) ∨
          (∃ error, execution.answer? = some (.error error)) → ¬execution.Updates name) ∧
      (∀ (before : Shell) (command : Text) (rest : List (Operator × Text)),
        before.runChain false command rest = resume rest before) ∧
      ∀ (before : Shell) (raw : Text), misplaced? (withoutComment raw) ≠ none →
        (before.runLine raw).2.session.environment = before.session.environment := by
  intro value
  obtain ⟨htrace, hbehind⟩ := shell.isTrace_executionsOf lines
  have hvalue : value (shell.afterLines lines) = value (shell.behind (shell.executionsOf lines)) :=
    congrArg (fun surroundings => surroundings.environment.get? name) hbehind
  refine ⟨?_, ?_, ?_, ?_, runChain_false, ?_⟩
  · intro hchanged
    by_contra hnone
    have hkept := htrace.get?_of_not_updates hwf hpwd hold fun execution hmem hupdates =>
      hnone ⟨execution, hmem, hupdates⟩
    exact hchanged (hvalue.trans hkept)
  · rintro earlier execution since edit heq hmakes rfl hsince
    rw [hvalue]
    rw [heq] at htrace ⊢
    rw [behind_append]
    exact htrace.get?_of_makes hwf hpwd hold hmakes hsince
  · intro execution hbefore hother
    exact Execution.get?_of_not_updates hbefore hpwd hold hother
  · intro execution hcommand hupdates
    obtain ⟨hhead, status, hanswer⟩ := hupdates.cases
    rcases hcommand with ⟨hset, herase⟩ | ⟨error, herror⟩
    · exact hhead.elim hset herase
    · rw [hanswer] at herror
      simp at herror
  · intro before raw hrejected
    obtain ⟨error, herror⟩ := Option.ne_none_iff_exists'.1 hrejected
    rw [before.runLine_of_rejected herror]
    rfl

end Lines

open Children.Performing

/-- An update that reads the variable it changes, with commands behind it that fail, are skipped or are rejected. -/
theorem variable_follows_updates_doubled :
    let environment := Environment.ofList [("A".toList, "1".toList), ("B".toList, "2".toList)]
    let shell : Shell := { bare with session := { bare.session with environment } }
    let lines := ["setenv A $B || setenv B 3".toList,
      "setenv A $A$A ; setenv A ; unsetenv C && setenv A 0".toList, "unsetenv A ; ;".toList]
    ∃ first second third fourth, shell.executionsOf lines = [first, second, third, fourth] ∧
      second.argv = ["setenv".toList, "A".toList, "22".toList] ∧
      third.argv = ["setenv".toList, "A".toList] ∧
      fourth.argv = ["unsetenv".toList, "C".toList] ∧
      (shell.afterLines lines).session.environment.get? "A".toList = some "22".toList ∧
      ¬third.Updates "A".toList ∧ ¬fourth.Updates "A".toList := by
  intro environment shell lines
  have hexecuted : (shell.executionsOf lines).map (fun execution => (execution.argv, execution.answer?)) =
      [(["setenv".toList, "A".toList, "2".toList], some (.ok 0)),
        (["setenv".toList, "A".toList, "22".toList], some (.ok 0)),
        (["setenv".toList, "A".toList],
          some (.error (.builtin "setenv".toList (.usage Builtin.setenv.synopsis)))),
        (["unsetenv".toList, "C".toList],
          some (.error (.builtin "unsetenv".toList (.environment (.notSet "C".toList)))))] := by
    decide +kernel
  obtain ⟨first, rest, hfirst, -, hrest⟩ := List.map_eq_cons_iff.1 hexecuted
  obtain ⟨second, rest, rfl, hsecond, hrest⟩ := List.map_eq_cons_iff.1 hrest
  obtain ⟨third, rest, rfl, hthird, hrest⟩ := List.map_eq_cons_iff.1 hrest
  obtain ⟨fourth, rest, rfl, hfourth, hrest⟩ := List.map_eq_cons_iff.1 hrest
  rw [List.map_eq_nil_iff.1 hrest] at hfirst
  rw [Prod.mk.injEq] at hsecond hthird hfourth
  obtain ⟨-, hlast, -, hfailed, -, -⟩ := variable_follows_updates shell
    (Environment.wellFormed_ofList _) lines "A".toList (by decide) (by decide)
  have hthirdOther := hfailed third (.inr ⟨_, hthird.2⟩)
  have hfourthOther := hfailed fourth (.inr ⟨_, hfourth.2⟩)
  have hmakes : second.Makes (.set "A".toList "22".toList) := ⟨hsecond.1, 0, hsecond.2⟩
  have hsince : ∀ other ∈ [third, fourth], ¬other.Updates "A".toList :=
    List.forall_mem_cons.2 ⟨hthirdOther, List.forall_mem_singleton.2 hfourthOther⟩
  have hvalue := hlast [first] second [third, fourth] _ hfirst hmakes rfl hsince
  exact ⟨first, second, third, fourth, hfirst, hsecond.1, hthird.1, hfourth.1, hvalue, hthirdOther,
    hfourthOther⟩

end Shell

end CommandShell
