import CommandShell.Proofs.Evaluation.Delivery
import CommandShell.Proofs.Evaluation.Trace

/-!
# Output that does not fit

A line is run twice from the same state, once with a sink that takes all and once with one that takes so many bytes. The two runs are the same up to the first command whose output does not fit. This one fails, which is recorded and reported, and from there on the runs may part, since other commands may run after another status. But by then the sink is full, so whatever runs adds nothing, and what was written in all is the beginning of what was written without a limit.
-/

namespace CommandShell

/-! ### Single commands -/

namespace Shell

theorem conclude_withRoom (shell : Shell) (room : Option Nat) (answer : Except ShellError Status) :
    (shell.withRoom room).conclude answer = (shell.conclude answer).withRoom room := by
  cases answer <;> rfl

theorem output_conclude (shell : Shell) (answer : Except ShellError Status) :
    (shell.conclude answer).sink.output = shell.sink.output := by
  cases answer with
  | ok status => rfl
  | error error => exact (Sink.output_add _ _).trans (List.append_nil _)

end Shell

namespace Execution

variable [Children]

def withRoom (execution : Execution) (room : Option Nat) : Execution :=
  { execution with before := execution.before.withRoom room }

/-- The command failed because its output could not be written. -/
def LosesOutput (execution : Execution) : Prop :=
  ∃ answer, execution.answer? = some answer ∧ Shell.IsLost answer

/-- The command wrote the pieces and lost the rest of its output. This is its error, which is recorded and reported. -/
structure IsCut (execution : Execution) (builtin : Builtin) (pieces : List Bytes) : Prop where
  answer : execution.answer? = some (.error (.builtin builtin.name (.file .outputClosed)))
  status : execution.after.session.status = 1
  reported : execution.after.sink.events =
    execution.before.sink.events ++ pieces.map .output ++
      [.report (execution.after.session.report (.builtin builtin.name (.file .outputClosed)))]

theorem IsCut.losesOutput {execution : Execution} {builtin : Builtin} {pieces : List Bytes}
    (h : execution.IsCut builtin pieces) : execution.LosesOutput :=
  ⟨_, h.answer, builtin, rfl⟩

theorem IsCut.output {execution : Execution} {builtin : Builtin} {pieces : List Bytes}
    (h : execution.IsCut builtin pieces) :
    execution.after.sink.output = execution.before.sink.output ++ pieces.flatten := by
  rw [Sink.output, h.reported, List.flatMap_append, List.flatMap_append, List.flatMap_map,
    List.flatten_eq_flatMap]
  exact List.append_nil _

/-- How a command depends on the room that is left for its output. -/
structure Metered (execution : Execution) (bytes : Bytes) (later : Shell) : Prop where
  output : later.sink.output = execution.before.sink.output ++ bytes
  unlimited : (execution.withRoom none).after = later.withRoom none
  fits : ∀ {room : Nat}, bytes.length ≤ room →
    ¬(execution.withRoom (some room)).LosesOutput ∧
      (execution.withRoom (some room)).after = later.withRoom (some (room - bytes.length))
  cut : ∀ {room : Nat}, room < bytes.length →
    (execution.withRoom (some room)).after.sink.room = some 0 ∧
      ∃ builtin : Builtin, ∃ pieces : List Bytes, pieces.flatten = bytes.take room ∧
        (execution.withRoom (some room)).IsCut builtin pieces

theorem metered_of_argv_nil {execution : Execution} (hwords : execution.argv = []) :
    execution.Metered [] (execution.before.withArgv []) := by
  have hargv (room : Option Nat) : (execution.withRoom room).argv = [] := hwords
  have hafter (room : Option Nat) :
      (execution.withRoom room).after = (execution.before.withArgv []).withRoom room := by
    rw [after_eq_perform, hargv]
    rfl
  refine ⟨(List.append_nil _).symm, hafter none, ?_, ?_⟩
  · intro room _
    refine ⟨?_, hafter (some room)⟩
    intro ⟨answer, hanswer, _⟩
    rw [answer?, hargv] at hanswer
    simp at hanswer
  · intro room hroom
    exact absurd hroom (Nat.not_lt_zero room)

theorem withRoom_of_dispatch {execution : Execution} {name : Text} {arguments : List Text}
    (hwords : execution.argv = name :: arguments) {room : Option Nat}
    {answer : Except ShellError Status} {later : Shell}
    (h : ((execution.before.withArgv (name :: arguments)).withRoom room).dispatch name arguments =
      (answer, later)) :
    (execution.withRoom room).answer? = some answer ∧
      (execution.withRoom room).after = later.conclude answer := by
  have hanswer := (execution.withRoom room).answer?_cons hwords
  have hafter := (execution.withRoom room).after_cons hwords
  have hready : (execution.withRoom room).before.withArgv (name :: arguments) =
      (execution.before.withArgv (name :: arguments)).withRoom room := rfl
  rw [hready, h] at hanswer hafter
  exact ⟨hanswer, hafter⟩

theorem metered_of_dispatch {execution : Execution} {name : Text} {arguments : List Text}
    (hwords : execution.argv = name :: arguments) {bytes : Bytes} {answer : Except ShellError Status}
    {later : Shell}
    (h : (execution.before.withArgv (name :: arguments)).Metered
      (fun shell => shell.dispatch name arguments) bytes answer later) :
    execution.Metered bytes (later.conclude answer) := by
  constructor
  · rw [Shell.output_conclude]
    exact h.output
  · rw [(withRoom_of_dispatch hwords h.unlimited).2]
    exact later.conclude_withRoom none answer
  · intro room hroom
    obtain ⟨hanswer, hafter⟩ := withRoom_of_dispatch hwords (h.fits hroom)
    constructor
    · intro ⟨lost, hlost, hisLost⟩
      rw [hanswer] at hlost
      rw [← Option.some.inj hlost] at hisLost
      exact h.notLost hisLost
    · rw [hafter]
      exact later.conclude_withRoom _ answer
  · intro room hroom
    obtain ⟨builtin, pieces, session, host, hpieces, hdispatch⟩ := h.lost hroom
    obtain ⟨hanswer, hafter⟩ := withRoom_of_dispatch hwords hdispatch
    refine ⟨by rw [hafter]; rfl, builtin, pieces, hpieces, hanswer, by rw [hafter]; rfl, ?_⟩
    have hprinted := execution.before.sink.events_print pieces
    show _ = execution.before.sink.events ++ pieces.map Event.output ++ _
    rw [hafter, ← hprinted]
    exact Sink.events_add _ _

theorem exists_metered (execution : Execution) : ∃ bytes later, execution.Metered bytes later := by
  cases hwords : execution.argv with
  | nil => exact ⟨_, _, metered_of_argv_nil hwords⟩
  | cons name arguments =>
    obtain ⟨bytes, answer, later, h⟩ :=
      (execution.before.withArgv (name :: arguments)).exists_metered_dispatch name arguments
    exact ⟨_, _, metered_of_dispatch hwords h⟩

/-- A command that finds the sink full adds nothing and leaves it full. -/
theorem silent_of_full (execution : Execution) (h : execution.before.sink.room = some 0) :
    execution.after.sink.room = some 0 ∧
      execution.after.sink.output = execution.before.sink.output := by
  have hfull : execution.withRoom (some 0) = execution := by
    rw [← h]
    rfl
  obtain ⟨bytes, later, hmetered⟩ := execution.exists_metered
  -- Writes of no bytes still succeed, so a command need not fail here.
  by_cases hbytes : bytes.length ≤ 0
  · have hfits := (hmetered.fits hbytes).2
    rw [hfull] at hfits
    have hnil : bytes = [] := List.eq_nil_of_length_eq_zero (Nat.le_zero.1 hbytes)
    rw [hfits]
    refine ⟨by rw [hnil]; rfl, ?_⟩
    have houtput := hmetered.output
    rw [hnil, List.append_nil] at houtput
    exact houtput
  · obtain ⟨hroom, builtin, pieces, hpieces, hcut⟩ := hmetered.cut (Nat.lt_of_not_le hbytes)
    rw [hfull] at hroom hcut
    refine ⟨hroom, ?_⟩
    rw [hcut.output, hpieces, List.take_zero, List.append_nil]

end Execution

/-! ### The commands of a line -/

/-- The commands with a limit are those without one up to a command that is cut. It is the first that loses output, and the commands behind it add nothing to the output. -/
def CutShort [Children] (free limited : List Execution) : Prop :=
  ∃ earlier cut builtin pieces later others,
    limited = earlier ++ cut :: later ∧
      free = (earlier ++ [cut]).map (fun execution => execution.withRoom none) ++ others ∧
      (∀ execution ∈ earlier, ¬execution.LosesOutput) ∧
      cut.LosesOutput ∧ cut.IsCut builtin pieces ∧
      ∀ execution ∈ later, execution.after.sink.output = execution.before.sink.output

theorem CutShort.cons [Children] {free limited : List Execution} (h : CutShort free limited)
    {first : Execution} (hfirst : ¬first.LosesOutput) :
    CutShort (first.withRoom none :: free) (first :: limited) := by
  obtain ⟨earlier, cut, builtin, pieces, later, others, hlimited, hfree, hearlier, hcut⟩ := h
  refine ⟨first :: earlier, cut, builtin, pieces, later, others, ?_, ?_, ?_, hcut⟩
  · rw [hlimited, List.cons_append]
  · rw [hfree, List.cons_append, List.map_cons, List.cons_append]
  · rw [List.forall_mem_cons]
    exact ⟨hfirst, hearlier⟩

namespace Shell

section Lines

variable [Children]
variable {operator : Operator} {command : Text} {rest : List (Operator × Text)} {shell : Shell}

/-- Behind a command that left the sink full, a line adds nothing to the output. -/
theorem silent_of_full (rest : List (Operator × Text)) {shell : Shell}
    (h : shell.sink.room = some 0) :
    (resume rest shell).2.sink.output = shell.sink.output ∧
      ∀ execution ∈ executionsFrom rest shell,
        execution.after.sink.output = execution.before.sink.output := by
  induction rest generalizing shell with
  | nil => exact ⟨rfl, by simp [executionsFrom]⟩
  | cons step rest ih =>
    obtain ⟨operator, command⟩ := step
    cases hallows : operator.allows shell.session.status with
    | false =>
      rw [resume_of_not_allows hallows, executionsFrom_of_not_allows hallows]
      exact ih h
    | true =>
      have hfirst : (shell.runCommand command).sink.room = some 0 ∧
          (shell.runCommand command).sink.output = shell.sink.output :=
        Execution.silent_of_full { before := shell, command } h
      rw [resume_of_allows hallows, executionsFrom_of_allows hallows, List.forall_mem_cons]
      cases (shell.runCommand command).session.exitRequest with
      | some code => exact ⟨hfirst.2, hfirst.2, by simp⟩
      | none =>
        obtain ⟨hrest, hlater⟩ := ih hfirst.1
        exact ⟨hrest.trans hfirst.2, hfirst.2, hlater⟩

/-- How the rest of a line depends on the room that is left for its output. -/
structure MeteredFrom (shell : Shell) (rest : List (Operator × Text)) (bytes : Bytes) (flow : Flow)
    (later : Shell) : Prop where
  output : later.sink.output = shell.sink.output ++ bytes
  unlimited : resume rest (shell.withRoom none) = (flow, later.withRoom none)
  fits : ∀ {room : Nat}, bytes.length ≤ room →
    resume rest (shell.withRoom (some room)) = (flow, later.withRoom (some (room - bytes.length)))
  cut : ∀ {room : Nat}, room < bytes.length →
    (resume rest (shell.withRoom (some room))).2.sink.output =
        shell.sink.output ++ bytes.take room ∧
      CutShort (executionsFrom rest (shell.withRoom none))
        (executionsFrom rest (shell.withRoom (some room)))

theorem meteredFrom_nil (shell : Shell) : shell.MeteredFrom [] [] .proceed shell := by
  refine ⟨(List.append_nil _).symm, rfl, ?_, ?_⟩
  · intro room _
    rfl
  · intro room hroom
    exact absurd hroom (Nat.not_lt_zero room)

theorem MeteredFrom.of_not_allows {bytes : Bytes} {flow : Flow} {later : Shell}
    (h : shell.MeteredFrom rest bytes flow later)
    (hallows : operator.allows shell.session.status = false) :
    shell.MeteredFrom ((operator, command) :: rest) bytes flow later := by
  have hresume (room : Option Nat) :
      resume ((operator, command) :: rest) (shell.withRoom room) = resume rest (shell.withRoom room) :=
    resume_of_not_allows hallows
  have hexecutions (room : Option Nat) :
      executionsFrom ((operator, command) :: rest) (shell.withRoom room) =
        executionsFrom rest (shell.withRoom room) :=
    executionsFrom_of_not_allows hallows
  refine ⟨h.output, by rw [hresume, h.unlimited], ?_, ?_⟩
  · intro room hroom
    rw [hresume, h.fits hroom]
  · intro room hroom
    rw [hresume, hexecutions, hexecutions]
    exact h.cut hroom

/-- The line is cut at a command whose output does not fit. -/
theorem cut_at_first {bytes : Bytes} {middle : Shell}
    (h : Execution.Metered { before := shell, command } bytes middle)
    (hallows : operator.allows shell.session.status = true) {room : Nat}
    (hroom : room < bytes.length) :
    (resume ((operator, command) :: rest) (shell.withRoom (some room))).2.sink.output =
        shell.sink.output ++ bytes.take room ∧
      CutShort (executionsFrom ((operator, command) :: rest) (shell.withRoom none))
        (executionsFrom ((operator, command) :: rest) (shell.withRoom (some room))) := by
  obtain ⟨hfull, builtin, pieces, hpieces, hcut⟩ := h.cut hroom
  have houtput := hcut.output
  rw [hpieces] at houtput
  have hlimited : operator.allows (shell.withRoom (some room)).session.status = true := hallows
  have hfree : operator.allows (shell.withRoom none).session.status = true := hallows
  rw [resume_of_allows hlimited, executionsFrom_of_allows hlimited, executionsFrom_of_allows hfree]
  constructor
  · cases ((shell.withRoom (some room)).runCommand command).session.exitRequest with
    | some code => exact houtput
    | none => exact (silent_of_full rest hfull).1.trans houtput
  · refine ⟨[], _, builtin, pieces, _, _, rfl, rfl, by simp, hcut.losesOutput, hcut, ?_⟩
    cases ((shell.withRoom (some room)).runCommand command).session.exitRequest with
    | some code => simp
    | none => exact (silent_of_full rest hfull).2

theorem MeteredFrom.of_exit {bytes : Bytes} {middle : Shell} {code : Status}
    (h : Execution.Metered { before := shell, command } bytes middle)
    (hallows : operator.allows shell.session.status = true)
    (hexit : middle.session.exitRequest = some code) :
    shell.MeteredFrom ((operator, command) :: rest) bytes (.stop code) middle := by
  have hresume {room left : Option Nat}
      (hrun : (shell.withRoom room).runCommand command = middle.withRoom left) :
      resume ((operator, command) :: rest) (shell.withRoom room) =
        (.stop code, middle.withRoom left) := by
    have hasked : (middle.withRoom left).session.exitRequest = some code := hexit
    have hready : operator.allows (shell.withRoom room).session.status = true := hallows
    rw [resume_of_allows hready, hrun, hasked]
  refine ⟨h.output, hresume h.unlimited, ?_, ?_⟩
  · intro room hroom
    exact hresume (h.fits hroom).2
  · intro room hroom
    exact cut_at_first h hallows hroom

theorem MeteredFrom.of_proceed {bytes others : Bytes} {middle later : Shell} {flow : Flow}
    (h : Execution.Metered { before := shell, command } bytes middle)
    (hallows : operator.allows shell.session.status = true)
    (hexit : middle.session.exitRequest = none)
    (hrest : middle.MeteredFrom rest others flow later) :
    shell.MeteredFrom ((operator, command) :: rest) (bytes ++ others) flow later := by
  have hstep {room left : Option Nat}
      (hrun : (shell.withRoom room).runCommand command = middle.withRoom left) :
      resume ((operator, command) :: rest) (shell.withRoom room) = resume rest (middle.withRoom left) ∧
        executionsFrom ((operator, command) :: rest) (shell.withRoom room) =
          { before := shell.withRoom room, command } :: executionsFrom rest (middle.withRoom left) := by
    have hgoes : (middle.withRoom left).session.exitRequest = none := hexit
    have hready : operator.allows (shell.withRoom room).session.status = true := hallows
    rw [resume_of_allows hready, executionsFrom_of_allows hready, hrun, hgoes]
    exact ⟨rfl, rfl⟩
  refine ⟨?_, ?_, ?_, ?_⟩
  · rw [hrest.output, h.output, List.append_assoc]
  · rw [(hstep h.unlimited).1, hrest.unlimited]
  · intro room hroom
    rw [List.length_append] at hroom ⊢
    have hleft : others.length ≤ room - bytes.length := Nat.le_sub_of_add_le' hroom
    rw [(hstep (h.fits (Nat.le_of_add_right_le hroom)).2).1, hrest.fits hleft, Nat.sub_sub]
  · intro room hroom
    -- Either the first command is cut, or it fits and leaves less room to the rest.
    by_cases hbytes : room < bytes.length
    · rw [List.take_append_of_le_length (Nat.le_of_lt hbytes)]
      exact cut_at_first h hallows hbytes
    · have hfits : bytes.length ≤ room := Nat.le_of_not_lt hbytes
      rw [List.length_append] at hroom
      have hleft : room - bytes.length < others.length := by omega
      obtain ⟨hnotLost, hrun⟩ := h.fits hfits
      obtain ⟨houtput, hcut⟩ := hrest.cut hleft
      rw [(hstep hrun).1, (hstep hrun).2, (hstep h.unlimited).2]
      constructor
      · rw [houtput, h.output, List.take_append, List.take_of_length_le hfits, List.append_assoc]
      · exact hcut.cons hnotLost

theorem exists_meteredFrom (shell : Shell) (rest : List (Operator × Text)) :
    ∃ bytes flow later, shell.MeteredFrom rest bytes flow later := by
  induction rest generalizing shell with
  | nil => exact ⟨_, _, _, shell.meteredFrom_nil⟩
  | cons step rest ih =>
    obtain ⟨operator, command⟩ := step
    cases hallows : operator.allows shell.session.status with
    | false =>
      obtain ⟨bytes, flow, later, hrest⟩ := ih shell
      exact ⟨_, _, _, hrest.of_not_allows hallows⟩
    | true =>
      obtain ⟨bytes, middle, hfirst⟩ := Execution.exists_metered { before := shell, command }
      cases hexit : middle.session.exitRequest with
      | some code => exact ⟨_, _, _, .of_exit hfirst hallows hexit⟩
      | none =>
        obtain ⟨others, flow, later, hrest⟩ := ih middle
        exact ⟨_, _, _, .of_proceed hfirst hallows hexit hrest⟩

/-- Output that is cut off is a prefix. With room for all that a line writes, it runs as without a limit. With less room the bytes that fit are written, the first command whose output does not fit fails and is reported, and no command behind it adds a byte. -/
theorem runLine_withRoom (shell : Shell) (raw : Text) :
    ∃ bytes, ((shell.withRoom none).runLine raw).2.sink.output = shell.sink.output ++ bytes ∧
      ∀ room,
        ((shell.withRoom (some room)).runLine raw).2.sink.output =
            shell.sink.output ++ bytes.take room ∧
          (bytes.length ≤ room →
            (shell.withRoom (some room)).runLine raw =
              (((shell.withRoom none).runLine raw).1,
                ((shell.withRoom none).runLine raw).2.withRoom (some (room - bytes.length)))) ∧
          (room < bytes.length →
            CutShort ((shell.withRoom none).executions raw)
              ((shell.withRoom (some room)).executions raw)) := by
  cases hline : misplaced? (withoutComment raw) with
  | some error =>
    have hrun (room : Option Nat) : (shell.withRoom room).runLine raw =
        (.proceed, ((shell.beginLine raw).conclude (.error (.misplaced error))).withRoom room) :=
      runLine_of_rejected _ hline
    have houtput := (shell.beginLine raw).output_conclude (.error (.misplaced error))
    refine ⟨[], ?_, ?_⟩
    · rw [hrun, List.append_nil]
      exact houtput
    · intro room
      rw [hrun, hrun, List.take_nil, List.append_nil]
      exact ⟨houtput, fun _ => rfl, fun hroom => absurd hroom (Nat.not_lt_zero room)⟩
  | none =>
    obtain ⟨bytes, flow, later, h⟩ :=
      (shell.beginLine raw).exists_meteredFrom (Chain.split (withoutComment raw)).steps
    have hrun (room : Option Nat) : (shell.withRoom room).runLine raw =
        resume (Chain.split (withoutComment raw)).steps ((shell.beginLine raw).withRoom room) :=
      runLine_of_accepted _ hline
    have hexecutions (room : Option Nat) : (shell.withRoom room).executions raw =
        executionsFrom (Chain.split (withoutComment raw)).steps
          ((shell.beginLine raw).withRoom room) :=
      executions_of_accepted _ hline
    refine ⟨bytes, ?_, ?_⟩
    · rw [hrun, h.unlimited]
      exact h.output
    · intro room
      rw [hrun, hrun, hexecutions, hexecutions, h.unlimited]
      refine ⟨?_, h.fits, fun hroom => (h.cut hroom).2⟩
      by_cases hroom : bytes.length ≤ room
      · rw [h.fits hroom, List.take_of_length_le hroom]
        exact h.output
      · exact (h.cut (Nat.lt_of_not_le hroom)).1

end Lines

open Children.Performing

/-- With room for a part of what `env` writes, `help` is run in addition, but it adds nothing. -/
theorem runLine_withRoom_envHelp :
    let environment := Environment.ofList [("A".toList, "1".toList)]
    let shell : Shell := { bare with session := { bare.session with environment } }
    let raw := "env || help".toList
    ((shell.withRoom (some 3)).runLine raw).2.sink.output = Text.utf8 "A=1".toList ∧
      ((shell.withRoom none).executions raw).length = 1 ∧
      ((shell.withRoom (some 3)).executions raw).length = 2 ∧
      CutShort ((shell.withRoom none).executions raw) ((shell.withRoom (some 3)).executions raw) ∧
      (shell.withRoom (some 4)).runLine raw =
        (((shell.withRoom none).runLine raw).1,
          ((shell.withRoom none).runLine raw).2.withRoom (some 0)) := by
  intro environment shell raw
  obtain ⟨bytes, hfree, hlimited⟩ := runLine_withRoom shell raw
  have hbytes : bytes = Text.utf8 "A=1\n".toList := by
    have hwritten : ((shell.withRoom none).runLine raw).2.sink.output = Text.utf8 "A=1\n".toList := by
      decide +kernel
    exact hfree.symm.trans hwritten
  rw [hbytes] at hlimited
  exact ⟨(hlimited 3).1, by decide +kernel, by decide +kernel, (hlimited 3).2.2 (by decide),
    (hlimited 4).2.1 (by decide)⟩

end Shell

end CommandShell
