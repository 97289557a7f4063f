import CommandShell.Proofs.Evaluation.Directory

/-!
# Moving to another directory

`cd` may be refused at several places, and what it changes it changes one after the other: first the host, then `OLDPWD`, then `PWD`. On a working directory that exists all refusals come before the first change, but for one: the host may not tell where the move led. If it does, neither this path nor what is noted as the old one holds a NUL, so both can be noted. Behind that only the answer of `cd -` can still be lost.

So `cd` does all of its work or none of it. The one thing that makes the difference is whether it can enter what it is asked for.

Variables hold text, while a directory may have any bytes for a name. What is noted of a path that is no text is what is shown of it, and that need not lead anywhere.
-/

namespace CommandShell

namespace Builtin

/-- What becomes of session and host by a move that notes `left` and `entered`: the host is where the argument asks for, `OLDPWD` is what `PWD` said, or the path from before if that said nothing, and `PWD` is the path of the new directory, both as they are shown. -/
structure IsMoved (before : Shell) (argument : Option Text) (left entered : Text) (after : Shell) :
    Prop where
  departed : before.session.environment.get? "PWD".toList = some left ∨
    before.session.environment.get? "PWD".toList = none ∧
      ∃ path, before.host.workingDirectory = .ok path ∧ path.shown = left
  target : ∃ target, directoryFor before argument = .ok target ∧
    before.host.enter? target = some after.host
  arrived : ∃ path, after.host.workingDirectory = .ok path ∧ path.shown = entered
  session : after.session = { before.session with environment := after.session.environment }
  noted : ∃ middle, before.session.environment.set "OLDPWD".toList left = .ok middle ∧
    middle.set "PWD".toList entered = .ok after.session.environment

/-! ### All or nothing -/

namespace IsMoved

variable {before after : Shell} {argument : Option Text} {left entered : Text}

/-- A move says nothing about the sink. -/
theorem withSink (h : IsMoved before argument left entered after) (sink : Sink) :
    IsMoved before argument left entered { after with sink } :=
  ⟨h.departed, h.target, h.arrived, h.session, h.noted⟩

theorem entries_eq (h : IsMoved before argument left entered after) :
    after.session.environment.entries =
      assign "PWD".toList entered
        (assign "OLDPWD".toList left before.session.environment.entries) := by
  obtain ⟨middle, hfirst, hsecond⟩ := h.noted
  rw [Environment.entries_of_set hsecond, Environment.entries_of_set hfirst]

/-- All variables but the two keep their values and their positions. -/
theorem getElem?_entries (h : IsMoved before argument left entered after) {entry : Text × Text}
    (hold : entry.1 ≠ "OLDPWD".toList) (hpwd : entry.1 ≠ "PWD".toList) (index : Nat) :
    after.session.environment.entries[index]? = some entry ↔
      before.session.environment.entries[index]? = some entry := by
  rw [h.entries_eq, getElem?_assign_eq_some_iff hpwd, getElem?_assign_eq_some_iff hold]

end IsMoved

/-- Writing an answer changes the sink alone, and can fail only as a write. -/
theorem writeAnswer_cases (shell : Shell) (texts : List Text) :
    ∃ sink, (writeAnswer shell texts).2 = { shell with sink } ∧
      ((writeAnswer shell texts).1 = .ok 0 ∨ ∃ error, (writeAnswer shell texts).1 = .error (.file error)) := by
  rw [writeAnswer, Shell.write]
  rcases shell.sink.writeAll texts with ⟨error | _, sink⟩
  · exact ⟨sink, rfl, .inr ⟨error, rfl⟩⟩
  · exact ⟨sink, rfl, .inl rfl⟩

/-- A move that is noted does what `cd` is for. -/
theorem isMoved_arrivedAt {shell : Shell} {argument : Option Text} {left : Text} {host : Host}
    {entered : HostPath} {environment : Environment} (henter : Enters shell argument left host)
    (hentered : host.workingDirectory = .ok entered)
    (hnote : noteMove shell.session.environment left entered.shown = .ok environment) :
    IsMoved shell argument left entered.shown (arrivedAt shell host environment) := by
  obtain ⟨middle, hfirst, hsecond⟩ := edits_of_noteMove hnote
  exact ⟨origin_of_leftDirectory henter.left, henter.target, ⟨entered, hentered, rfl⟩, rfl, middle,
    hfirst, hsecond⟩

/-- A `cd` that is told where it leads moves or is refused. -/
theorem CdOutcome.moved_or_refused {shell : Shell} {arguments : List Text}
    {run : Except BuiltinError Status × Shell} (h : CdOutcome shell arguments run)
    (hwf : shell.session.environment.WellFormed) (hplaced : shell.host.IsPlaced)
    (hnames : ∀ name ∈ shell.host.tree.top.names, 0 ∉ name)
    (htold : ∀ host error, ¬EntersUntold shell arguments host error) :
    ((∃ left entered, IsMoved shell arguments.head? left entered run.2) ∧
        (arguments ≠ [['-']] → run.2.sink = shell.sink) ∧
        (run.1 = .ok 0 ∨ arguments = [['-']] ∧ ∃ error, run.1 = .error (.file error))) ∨
      run.2 = shell ∧ ∃ error, run.1 = .error error ∧ error.IsRefusal := by
  cases h with
  | refused arguments error herror => exact .inr ⟨rfl, error, rfl, herror⟩
  | untold arguments host error huntold => exact absurd huntold (htold host error)
  | unnoted argument left host entered error henter hentered herror =>
    obtain ⟨noted, hnoted⟩ := henter.exists_noteMove hwf hplaced hnames hentered
    rw [hnoted] at herror
    simp at herror
  | noted argument left host entered environment henter hentered hnote =>
    have hmoved := isMoved_arrivedAt henter hentered hnote
    rw [Option.head?_toList]
    by_cases hback : argument = some ['-']
    · obtain ⟨sink, hafter, hanswer⟩ :=
        writeAnswer_cases (arrivedAt shell host environment) [entered.shown ++ ['\n']]
      rw [if_pos hback, hafter]
      refine .inl ⟨⟨left, _, hmoved.withSink sink⟩, ?_, ?_⟩
      · intro hother
        exact absurd (congrArg Option.toList hback) hother
      · exact hanswer.imp_right fun hfailed => ⟨congrArg Option.toList hback, hfailed⟩
    · rw [if_neg hback]
      exact .inl ⟨⟨left, _, hmoved⟩, fun _ => rfl, .inl rfl⟩

/-- `cd` does everything or nothing. Either it enters what it was asked to enter and notes this in `OLDPWD` and `PWD`, as it is shown and with all other variables as they were and where they were, or it fails and changes and writes nothing. It does everything whenever it succeeds, and in one case more: when only the answer of `cd -` is lost. No variable is ever the reason of a failure. All of this is so unless the host does not tell where the move led. -/
theorem runCd_all_or_nothing (shell : Shell) (arguments : List Text)
    (hwf : shell.session.environment.WellFormed)
    (hnames : ∀ name ∈ shell.host.tree.top.names, 0 ∉ name)
    (hdirectory : shell.host.HasDirectory)
    (htold : ∀ host error, ¬EntersUntold shell arguments host error) :
    let answer := (runCd shell arguments).1
    let after := (runCd shell arguments).2
    (((∃ left entered, IsMoved shell arguments.head? left entered after) ∧
        (∀ entry : Text × Text, entry.1 ≠ "OLDPWD".toList → entry.1 ≠ "PWD".toList → ∀ index : Nat,
          after.session.environment.entries[index]? = some entry ↔
            shell.session.environment.entries[index]? = some entry) ∧
        (arguments ≠ [['-']] → after.sink = shell.sink) ∧
        (answer = .ok 0 ∨ arguments = [['-']] ∧ ∃ error, answer = .error (.file error))) ∨
      after = shell ∧ ∃ error, answer = .error error ∧ error.IsRefusal) ∧
      ∀ error, answer ≠ .error (.environment error) := by
  intro answer after
  have houtcome := cdOutcome_runCd shell arguments
  rcases houtcome.moved_or_refused hwf hdirectory.isPlaced hnames htold with
    ⟨⟨left, entered, hmoved⟩, hsilent, hanswer⟩ | ⟨hsame, error, hanswer, hrefusal⟩
  · refine ⟨.inl ⟨⟨left, entered, hmoved⟩, ?_, hsilent, hanswer⟩, ?_⟩
    · intro entry hold hother index
      exact hmoved.getElem?_entries hold hother index
    · intro failure hfailure
      rcases hanswer with hok | ⟨-, error, herror⟩
      · exact absurd (hok.symm.trans hfailure) (by simp)
      · exact absurd (herror.symm.trans hfailure) (by simp)
  · refine ⟨.inr ⟨hsame, error, hanswer, hrefusal⟩, ?_⟩
    intro failure hfailure
    obtain rfl := Except.error.inj (hanswer.symm.trans hfailure)
    rcases hrefusal with ⟨detail, hdetail | hdetail⟩ | ⟨file, -, hfile⟩
    · simp at hdetail
    · simp at hdetail
    · simp at hfile

/-- A `cd -` from a directory that `PWD` does not say, with no room for its answer, and a `cd` to nowhere. The variable between the two that are noted stays where it is. -/
theorem runCd_all_or_nothing_unprinted :
    let top : Forest := .tree (Text.utf8 "d".toList) .directory .empty .empty
    let environment := Environment.ofList [("PWD".toList, "/old".toList), ("A".toList, "x".toList),
      ("OLDPWD".toList, "d".toList)]
    let shell : Shell :=
      { session := { args := [], environment, processId := ['1'] }
        host := { tree := { top } }
        sink := { room := some 0 } }
    let back := runCd shell [['-']]
    let lost := runCd shell ["x".toList]
    (∃ left entered, IsMoved shell (some ['-']) left entered back.2) ∧
      back.1 = .error (.file .outputClosed) ∧
      back.2.session.environment.entries = [("PWD".toList, "/d".toList), ("A".toList, "x".toList),
        ("OLDPWD".toList, "/old".toList)] ∧
      lost = (.error (.cannotEnter "x".toList), shell) := by
  intro top environment shell back lost
  have hlost : lost.1 = .error (.cannotEnter "x".toList) := by decide +kernel
  have hmoved : back.2 ≠ shell := by decide +kernel
  have hall (arguments : List Text) :=
    runCd_all_or_nothing shell arguments (Environment.wellFormed_ofList _) (by decide) ⟨rfl, rfl⟩
  obtain ⟨⟨hback, -⟩ | ⟨hsame, -⟩, -⟩ := hall [['-']] (not_entersUntold_of_isSome (by decide +kernel))
  · refine ⟨hback, by decide +kernel, by decide +kernel, ?_⟩
    obtain ⟨⟨-, -, -, hok | ⟨hdash, -⟩⟩ | ⟨hsame, -⟩, -⟩ :=
      hall ["x".toList] (not_entersUntold_of_isSome (by decide +kernel))
    · exact absurd (hlost.symm.trans hok) (by simp)
    · exact absurd hdash (by decide)
    · exact Prod.ext hlost hsame
  · exact absurd hsame hmoved

/-- A directory whose name is no text, entered by a link. What `PWD` says then is not its path, and does not lead there. -/
theorem runCd_all_or_nothing_not_in_text :
    let name : Name := [0xFF]
    let top : Forest :=
      .tree name .directory .empty <|
        .tree (Text.utf8 "link".toList) (.link (.path { bytes := name })) .empty .empty
    let shell : Shell :=
      { session := { args := [], environment := {}, processId := ['1'] }, host := { tree := { top } } }
    let moved := (runCd shell ["link".toList]).2
    shell.session.environment.WellFormed ∧ shell.host.HasDirectory ∧
      (∀ name ∈ shell.host.tree.top.names, IsFileName name) ∧
      (runCd shell ["link".toList]).1 = .ok 0 ∧
      moved.host.workingDirectory = .ok { bytes := HostPath.slash :: name } ∧
      ∃ value, moved.session.environment.get? "PWD".toList = some value ∧
        moved.host.workingDirectory ≠ .ok (.ofText value) ∧
        moved.host.enter? (.ofText value) = none := by
  intro name top shell moved
  exact ⟨Environment.wellFormed_empty, ⟨rfl, rfl⟩, by decide, by decide +kernel, by decide +kernel,
    ['/', '\uFFFD'], by decide +kernel, by decide +kernel, by decide +kernel⟩

end Builtin

end CommandShell
