import CommandShell.Proofs.Evaluation.Updates
import CommandShell.Proofs.Text.Order

/-!
# What children are given

A child is given the words of its command and the variables of the session. If its file is a program, that is what the program finds; if it is a script, the interpreter finds the same variables, and strings of its own in front of the words behind the name. The variables are handed over by way of a map that is keyed by name. Such a map would lose a variable whose name stands in the environment twice, and a host would refuse one that has a NUL. Neither occurs, because the environment of a session is well formed whatever lines the session has run, in the midst of a line as well. So a child sees what `env` would list in its place, and sees it in the order of the names.
-/

namespace CommandShell

/-! ### Handing over an environment -/

namespace Environment

/-- The variables as a map from the bytes of the names lists them. Of two variables with the same name the later one counts. -/
def mapped (environment : Environment) : List (Text × Text) :=
  (byKey (fun entry => entry.1.utf8) environment.entries).toList.map Prod.snd

namespace WellFormed

variable {environment : Environment}

theorem nodup_utf8 (h : environment.WellFormed) :
    (environment.entries.map fun entry => entry.1.utf8).Nodup := by
  have hmapped := h.nodup.map Text.utf8_injective
  rwa [names, List.map_map] at hmapped

theorem forChild_eq_mapped (h : environment.WellFormed) : environment.forChild = environment.mapped :=
  sortedBy_eq_byKey h.nodup_utf8

theorem pairwise_forChild (h : environment.WellFormed) :
    environment.forChild.Pairwise fun first second => first.1.utf8 < second.1.utf8 :=
  pairwise_sortedBy h.nodup_utf8

theorem settable_forChild (h : environment.WellFormed) :
    ∀ entry ∈ environment.forChild, Settable entry.1 entry.2 := by
  intro entry hentry
  exact h.settable entry (environment.forChild_perm.mem_iff.1 hentry)

end WellFormed

end Environment

/-- With room for everything `env` prints a line for each variable. -/
theorem Builtin.runEnv_unlimited (shell : Shell) :
    Builtin.runEnv (shell.withRoom none) [] =
      (.ok 0, { shell with
        sink := (shell.sink.print (shell.session.environment.listing.map Text.utf8)).withRoom none }) := by
  show Builtin.writeAnswer (shell.withRoom none) shell.session.environment.listing = _
  rw [writeAnswer, Shell.write, Shell.withRoom, Sink.writeAll_unlimited]

/-! ### Starting a child -/

theorem Host.child_of_prepare {host : Host} {child : Child} {path : Text} {launch : Launch}
    (h : host.prepare child path = .ok launch) : launch.child = child := by
  rw [prepare] at h
  split at h
  · simp at h
  · split at h
    · simp at h
    · cases hload : host.load child path with
      | error error =>
        rw [hload] at h
        simp [Except.map] at h
      | ok image =>
        rw [hload] at h
        rw [← Except.ok.inj h]

theorem Host.child_of_launch {host : Host} {name : Text} {arguments : List Text}
    {environment : Environment} {launch : Launch}
    (h : host.launch name arguments environment = .ok launch) :
    launch.child.arguments = name :: arguments ∧
      launch.child.environment = environment.forChild := by
  rw [Host.launch] at h
  split at h
  · simp at h
  · simp at h
  · rw [child_of_prepare (eq_ok_of_mapError h)]
    exact ⟨rfl, rfl⟩

/-- A program that is a file of its own is run under the name that was typed. -/
theorem Host.strings_of_prepare {host : Host} {child : Child} {path : Text} {launch : Launch}
    (h : host.prepare child path = .ok launch) {actions : Program}
    (hprogram : host.openExecutable (.ofText path) = .ok (.program actions)) :
    launch.image.strings = (child.arguments.take 1).map Text.utf8 := by
  rw [prepare] at h
  split at h
  · simp at h
  · split at h
    · simp at h
    · rw [load, hprogram] at h
      dsimp only at h
      rw [loadContent] at h
      rw [← Except.ok.inj h]

theorem Host.strings_of_launch {host : Host} {name : Text} {arguments : List Text}
    {environment : Environment} {launch : Launch}
    (h : host.launch name arguments environment = .ok launch) {path : Text} {actions : Program}
    (hpath : host.resolve name (environment.get? "PATH".toList) = .executable path)
    (hprogram : host.openExecutable (.ofText path) = .ok (.program actions)) :
    launch.image.strings = [name.utf8] := by
  rw [Host.launch, hpath] at h
  exact strings_of_prepare (eq_ok_of_mapError h) hprogram

theorem Image.received_eq {image : Image} {child : Child} {name : Text} {arguments : List Text}
    (hstrings : image.strings = [name.utf8]) (harguments : child.arguments = name :: arguments) :
    image.received child = child := by
  have hwords : image.strings.map Bytes.decoded ++ child.arguments.drop 1 = child.arguments := by
    rw [hstrings, harguments, List.map_singleton, decoded_utf8]
    rfl
  rw [received, hwords]

theorem Host.writes_await (host : Host) (name : Text) (conduct : Conduct) :
    (host.await name conduct).writes = conduct.writes := by
  rw [await.eq_def]
  cases conduct.waited <;> rfl

theorem Host.result_await (host : Host) (name : Text) (conduct : Conduct) :
    (host.await name conduct).result =
      match conduct.waited with
      | .ok ending => .ok ending.status
      | .error error => .error (.notSpawned name error) := by
  rw [await.eq_def]
  cases conduct.waited <;> rfl

theorem Shell.dispatch_of_launch [Children] (shell : Shell) {name : Text}
    (hname : Builtin.ofName? name = none) {arguments : List Text} {launch : Launch}
    (h : shell.host.launch name arguments shell.session.environment = .ok launch) :
    let ran := shell.host.await name (Children.conduct shell.host.tree shell.host.location launch)
    shell.dispatch name arguments =
      (ran.result.mapError .process,
        { shell with host := ran.host, sink := shell.sink.addAll (ran.writes.map .child) }) := by
  intro ran
  rw [dispatch, hname]
  dsimp only
  rw [runExternal, Host.run, h]

theorem Shell.events_conclude (shell : Shell) (answer : Except ShellError Status) :
    (shell.conclude answer).sink.events =
      shell.sink.events ++
        match answer with
        | .ok _ => []
        | .error error => [.report (shell.session.report error)] := by
  cases answer with
  | ok status => exact (List.append_nil _).symm
  | error error => exact Sink.events_add ..

namespace Execution

/-- The child that the command starts, if its words name no builtin and what they name can be started. -/
def launch? (execution : Execution) : Option Launch :=
  match execution.argv with
  | [] => none
  | name :: arguments =>
    if (Builtin.ofName? name).isSome then none
    else
      (execution.before.host.launch name arguments execution.before.session.environment).toOption

theorem launch_of_launch? {execution : Execution} {launch : Launch}
    (h : execution.launch? = some launch) :
    ∃ name arguments, execution.argv = name :: arguments ∧ Builtin.ofName? name = none ∧
      execution.before.host.launch name arguments execution.before.session.environment =
        .ok launch := by
  rw [launch?] at h
  cases hargv : execution.argv with
  | nil =>
    rw [hargv] at h
    simp at h
  | cons name arguments =>
    rw [hargv] at h
    dsimp only at h
    split at h
    · simp at h
    · next hname =>
      refine ⟨name, arguments, rfl, by simpa using hname, ?_⟩
      cases hlaunch :
          execution.before.host.launch name arguments execution.before.session.environment with
      | error error =>
        rw [hlaunch] at h
        simp [Except.toOption] at h
      | ok started =>
        rw [hlaunch] at h
        rw [Option.some.inj h]

variable [Children]

/-- What the child of a command does. -/
def conductOf (execution : Execution) (launch : Launch) : Conduct :=
  Children.conduct execution.before.host.tree execution.before.host.location launch

/-- Behind a command whose child was started stands what the child wrote, and a report if the child was lost. -/
theorem events_after_of_launch? {execution : Execution} {launch : Launch}
    (h : execution.launch? = some launch) :
    ∃ told, execution.after.sink.events =
        execution.before.sink.events ++ (execution.conductOf launch).writes.map Event.child ++ told ∧
      (told = [] ↔ ∃ ending, (execution.conductOf launch).waited = .ok ending) := by
  obtain ⟨name, arguments, hargv, hname, hlaunch⟩ := launch_of_launch? h
  have hdispatch :=
    (execution.before.withArgv (name :: arguments)).dispatch_of_launch hname hlaunch
  rw [execution.after_cons hargv, hdispatch, Shell.events_conclude, Sink.events_addAll,
    Host.writes_await, Host.result_await]
  refine ⟨_, rfl, ?_⟩
  change _ ↔ ∃ ending, (Children.conduct execution.before.host.tree execution.before.host.location
    launch).waited = .ok ending
  dsimp only [Shell.withArgv]
  cases (Children.conduct execution.before.host.tree execution.before.host.location launch).waited with
  | ok ending => simp [Except.mapError]
  | error error => simp [Except.mapError]

end Execution

namespace Shell

section Lines

variable [Children] {shell : Shell}

theorem IsTrace.wellFormed_before {trace : List Execution} (h : shell.IsTrace trace)
    (hwf : shell.session.environment.WellFormed) {execution : Execution} (hmem : execution ∈ trace) :
    execution.before.session.environment.WellFormed := by
  obtain ⟨earlier, later, rfl⟩ := List.append_of_mem hmem
  obtain ⟨hearlier, hbefore, -⟩ := isTrace_append.1 h
  have heq := congrArg Surroundings.environment hbefore
  show execution.before.surroundings.environment.WellFormed
  rw [heq]
  exact hearlier.wellFormed hwf

/-- Whatever a session has run and wherever in a line it is, a child that it starts is given the words of its command, and the variables that `env` would print in its place: each of them once, in the byte order of the names. A map from names loses none of them, and none is one that a host would refuse. The program of the image finds these variables whatever interpreters stand before it, and without interpreters it finds the words too. What becomes visible is what the child then writes, and a report only if the child was lost. -/
theorem child_receives_environment {start shell : Shell} (entries : List (Text × Text))
    (hstart : start.session.environment = .ofList entries) (hreaches : start.Reaches shell)
    {raw : Text} {execution : Execution} (hexecuted : execution ∈ shell.executions raw)
    {launch : Launch} (hlaunch : execution.launch? = some launch) :
    let before := execution.before
    let listed := before.session.environment.entries
    let listing := Builtin.runEnv (before.withRoom none) []
    let received := launch.image.received launch.child
    launch.child.arguments = execution.argv ∧
      (listing.1 = .ok 0 ∧
        listing.2.sink.events = before.sink.events ++
          listed.map fun entry => .output (Text.utf8 (entry.1 ++ '=' :: entry.2 ++ ['\n']))) ∧
      launch.child.environment.Perm listed ∧
      (launch.child.environment.Pairwise fun first second => first.1.utf8 < second.1.utf8) ∧
      launch.child.environment = before.session.environment.mapped ∧
      (∀ entry ∈ launch.child.environment, Environment.Settable entry.1 entry.2) ∧
      (received.environment = launch.child.environment ∧
          received.arguments = launch.image.strings.map Bytes.decoded ++ execution.argv.drop 1 ∧
          ∀ name path actions, execution.argv.head? = some name →
            before.host.resolve name (before.session.environment.get? "PATH".toList) =
              .executable path →
            before.host.openExecutable (.ofText path) = .ok (.program actions) →
            received = launch.child) ∧
      ∃ told, execution.after.sink.events =
          before.sink.events ++ (execution.conductOf launch).writes.map .child ++ told ∧
        (told = [] ↔ ∃ ending, (execution.conductOf launch).waited = .ok ending) := by
  intro before listed listing received
  have hshell : shell.session.environment.WellFormed := by
    apply isInvariant_wellFormed.reaches (P := fun session => session.environment.WellFormed) hreaches
    rw [hstart]
    exact Environment.wellFormed_ofList entries
  have hwf : before.session.environment.WellFormed :=
    (shell.isTrace_executions raw).wellFormed_before hshell hexecuted
  obtain ⟨name, arguments, hargv, -, hstarted⟩ := Execution.launch_of_launch? hlaunch
  obtain ⟨harguments, henvironment⟩ := Host.child_of_launch hstarted
  rw [henvironment]
  refine ⟨harguments.trans hargv.symm, ?_, Environment.forChild_perm _, hwf.pairwise_forChild,
    hwf.forChild_eq_mapped, hwf.settable_forChild, ⟨henvironment, ?_, ?_⟩,
    Execution.events_after_of_launch? hlaunch⟩
  · have hlisting : listing = _ := Builtin.runEnv_unlimited before
    rw [hlisting]
    refine ⟨rfl, (Sink.events_print _ _).trans ?_⟩
    rw [Environment.listing, List.map_map, List.map_map]
    rfl
  · rw [← harguments.trans hargv.symm]
    rfl
  · intro typed path actions htyped hpath hprogram
    rw [hargv] at htyped
    obtain rfl := Option.some.inj htyped
    exact Image.received_eq (Host.strings_of_launch hstarted hpath hprogram) harguments

end Lines

open Children.Performing

/-- A child in the midst of a line. One of its variables was given twice at the start, one is set on the line, and one has a name that is not ASCII. -/
theorem child_receives_environment_midline :
    let program : Entry := .file (.program [.printEnvironment])
    let top : Forest :=
      .tree (Text.utf8 "b".toList) .directory (.tree (Text.utf8 "p".toList) program .empty .empty) .empty
    let entries := [("é".toList, "1".toList), ("Z".toList, "2".toList), ("PATH".toList, "/b".toList),
      ("Z".toList, "3 4".toList)]
    let environment := Environment.ofList entries
    let shell : Shell :=
      { bare with session := { bare.session with environment }, host := { tree := { top } } }
    ∃ first second launch, shell.executions "setenv A $? ; p $Z".toList = [first, second] ∧
      second.launch? = some launch ∧
      launch.child.arguments = ["p".toList, "3".toList, "4".toList] ∧
      launch.child.environment = [("A".toList, "0".toList), ("PATH".toList, "/b".toList),
        ("Z".toList, "3 4".toList), ("é".toList, "1".toList)] ∧
      launch.child.environment = second.before.session.environment.mapped ∧
      launch.image.received launch.child = launch.child := by
  intro program top entries environment shell
  have hexecuted : (shell.executions "setenv A $? ; p $Z".toList).map
      (fun execution => (execution.argv, execution.launch?.map Launch.child)) =
      [(["setenv".toList, "A".toList, "0".toList], none),
        (["p".toList, "3".toList, "4".toList],
          some
            { arguments := ["p".toList, "3".toList, "4".toList]
              environment := [("A".toList, "0".toList), ("PATH".toList, "/b".toList),
                ("Z".toList, "3 4".toList), ("é".toList, "1".toList)]
              directory := some (.ofText ['/']) })] := by
    decide +kernel
  obtain ⟨first, rest, hfirst, -, hrest⟩ := List.map_eq_cons_iff.1 hexecuted
  obtain ⟨second, rest, rfl, hsecond, hrest⟩ := List.map_eq_cons_iff.1 hrest
  rw [List.map_eq_nil_iff.1 hrest] at hfirst
  rw [Prod.mk.injEq] at hsecond
  obtain ⟨launch, hlaunch, hchild⟩ := Option.map_eq_some_iff.1 hsecond.2
  have hmem : second ∈ shell.executions "setenv A $? ; p $Z".toList := by
    rw [hfirst]
    simp
  have hprogram : ∀ execution ∈ shell.executions "setenv A $? ; p $Z".toList,
      execution.before.host.resolve "p".toList
          (execution.before.session.environment.get? "PATH".toList) = .executable "/b/p".toList ∧
        execution.before.host.openExecutable (.ofText "/b/p".toList) =
          .ok (.program [.printEnvironment]) := by
    decide +kernel
  obtain ⟨hpath, hopen⟩ := hprogram second hmem
  obtain ⟨hargv, -, -, -, hmapped, -, ⟨-, -, hreceived⟩, -⟩ :=
    child_receives_environment entries rfl .refl hmem hlaunch
  refine ⟨first, second, launch, hfirst, hlaunch, hargv.trans hsecond.1, by rw [hchild], hmapped, ?_⟩
  exact hreceived "p".toList "/b/p".toList _ (by rw [hsecond.1]; rfl) hpath hopen

end Shell

end CommandShell
