import Mathlib.Data.List.Induction
import Mathlib.Data.Nat.Digits.Defs
import CommandShell.Proofs.Evaluation.Trace

/-!
# Numbers to leave with

`exit` reads a number digit by digit and gives up at the digit that goes beyond the bound. What it accepts can be said without this reading: a word is a number to leave with if it has digits only, and their value in base ten is within the bound. How many digits there are does not matter, since zeros in front add nothing and the value never falls by a further digit.

A word that is no such number leaves everything as it was. The line goes on behind the failed command as behind any other, with a status that `||` and `;` let pass and `&&` does not.
-/

namespace CommandShell

/-! ### Decimal values -/

namespace Text

/-- The number that the digits of a word write in base ten. -/
def decimalValue (word : Text) : Nat :=
  Nat.ofDigits 10 (word.reverse.map fun c => c.toNat - '0'.toNat)

/-- Reading on the left what is worth most is reading on the right what is worth least. -/
theorem valueOfDigits_eq_decimalValue (digits : Text) : valueOfDigits digits = digits.decimalValue := by
  induction digits using List.reverseRecOn with
  | nil => rfl
  | append_singleton digits c ih =>
    rw [valueOfDigits] at ih
    rw [valueOfDigits, List.foldl_append, List.foldl_cons, List.foldl_nil, ih, pushDigit, decimalValue,
      decimalValue, List.reverse_append, List.reverse_singleton, List.singleton_append, List.map_cons,
      Nat.ofDigits_cons, Nat.add_comm]

end Text

namespace Builtin

/-- What `exit` takes for a number. -/
@[mk_iff]
structure IsExitNumber (word : Text) : Prop where
  ne_nil : word ≠ []
  isDigit : ∀ c ∈ word, c.isDigit = true
  le : word.decimalValue ≤ 2147483647

instance (word : Text) : Decidable (IsExitNumber word) :=
  decidable_of_iff
    (word ≠ [] ∧ word.all Char.isDigit = true ∧ word.decimalValue ≤ 2147483647)
    (by simp [isExitNumber_iff])

theorem exitStatus?_eq (word : Text) :
    exitStatus? word =
      if IsExitNumber word then some ((word.decimalValue % 256 : Nat) : Status) else none := by
  have hall : word.all Text.isDigit = true ↔ ∀ c ∈ word, c.isDigit = true := List.all_eq_true
  rw [exitStatus?, Text.valueUpTo?_eq, Text.valueOfDigits_eq_decimalValue]
  simp only [isExitNumber_iff, ← hall]
  by_cases hempty : word = []
  · simp [hempty]
  · by_cases hdigits : word.all Text.isDigit = true
    · by_cases hle : word.decimalValue ≤ 2147483647 <;> simp [hempty, hdigits, hle, largestStatus]
    · simp [hdigits]

section Answers

variable (shell : Shell) {word : Text} (others : List Text)

theorem runExit_of_isExitNumber (h : IsExitNumber word) :
    runExit shell (word :: others) =
      (.ok ((word.decimalValue % 256 : Nat) : Status),
        shell.requestExit ((word.decimalValue % 256 : Nat) : Status)) := by
  rw [runExit, List.head?_cons]
  dsimp only
  rw [exitStatus?_eq, if_pos h]

theorem runExit_of_not_isExitNumber (h : ¬IsExitNumber word) :
    runExit shell (word :: others) = (.error (.illegalNumber word), shell) := by
  rw [runExit, List.head?_cons]
  dsimp only
  rw [exitStatus?_eq, if_neg h]

theorem runExit_succeeds_iff (arguments : List Text) :
    (∃ status, (runExit shell arguments).1 = .ok status) ↔
      ∀ word ∈ arguments.head?, IsExitNumber word := by
  cases arguments with
  | nil => simp [runExit]
  | cons word others =>
    by_cases h : IsExitNumber word
    · simp [runExit_of_isExitNumber shell others h, h]
    · simp [runExit_of_not_isExitNumber shell others h, h]

end Answers

end Builtin

/-! ### On a line -/

namespace Shell

/-- The walk along an accepted line has come to a command that may run, with `reached` as the shell of the moment and `rest` still to do. -/
structure ComesTo [Children] (shell : Shell) (raw command : Text) (rest : List (Operator × Text))
    (reached : Shell) : Prop where
  isAccepted : misplaced? (withoutComment raw) = none
  walk : ∃ front operator,
    (Chain.split (withoutComment raw)).steps = front ++ (operator, command) :: rest ∧
      resume front (shell.beginLine raw) = (.proceed, reached) ∧
      operator.allows reached.session.status = true

theorem exitRequest_of_proceed [Children] {steps : List (Operator × Text)} {shell reached : Shell}
    (h : shell.session.exitRequest = none) (hproceed : resume steps shell = (.proceed, reached)) :
    reached.session.exitRequest = none := by
  induction steps generalizing shell with
  | nil =>
    obtain rfl : shell = reached := congrArg Prod.snd hproceed
    exact h
  | cons step steps ih =>
    obtain ⟨operator, command⟩ := step
    cases hallows : operator.allows shell.session.status with
    | false =>
      rw [resume_of_not_allows hallows] at hproceed
      exact ih h hproceed
    | true =>
      rw [resume_of_allows hallows] at hproceed
      -- A command that leaves a wish behind stops the walk, so here it left none.
      split at hproceed
      · simp at hproceed
      · next hnone => exact ih hnone hproceed

namespace ComesTo

variable [Children] {shell reached : Shell} {raw command : Text} {rest : List (Operator × Text)}
  (h : shell.ComesTo raw command rest reached)
include h

theorem exitRequest_eq_none (hshell : shell.session.exitRequest = none) :
    reached.session.exitRequest = none := by
  obtain ⟨-, front, operator, -, hfront, -⟩ := h
  have hbegun : (shell.beginLine raw).session.exitRequest = none := hshell
  exact exitRequest_of_proceed hbegun hfront

theorem runLine_eq :
    shell.runLine raw =
      match (reached.runCommand command).session.exitRequest with
      | some code => (.stop code, reached.runCommand command)
      | none => resume rest (reached.runCommand command) := by
  obtain ⟨haccepted, front, operator, hsteps, hfront, hallows⟩ := h
  rw [runLine_of_accepted shell haccepted, hsteps, resume_append, hfront]
  exact resume_of_allows hallows

end ComesTo

theorem runCommand_exit_of_not_isExitNumber [Children] (shell : Shell) {command word : Text}
    {others : List Text}
    (hwords : words (shell.session.scope.expand command) = "exit".toList :: word :: others)
    (h : ¬Builtin.IsExitNumber word) :
    shell.runCommand command =
      { shell with
        session := { shell.session with argv := "exit".toList :: word :: others, status := 2 }
        sink := shell.sink.add
          (.report (shell.session.report (.builtin "exit".toList (.illegalNumber word)))) } := by
  have hdispatch : (shell.withArgv ("exit".toList :: word :: others)).dispatch "exit".toList
      (word :: others) =
      (.error (.builtin "exit".toList (.illegalNumber word)),
        shell.withArgv ("exit".toList :: word :: others)) := by
    refine (dispatch_name _ .exit (word :: others)).trans ?_
    rw [Builtin.run, Builtin.runExit_of_not_isExitNumber _ others h]
    rfl
  rw [runCommand_eq_perform, hwords, perform, hdispatch]
  rfl

end Shell

namespace Builtin

/-- `exit` succeeds exactly without arguments and with a first argument that is a number. It then asks for the end of the session with the status of the moment, or with the last eight bits of the number. Otherwise it fails with status 2 and leaves everything as it was; and where this happens on a line of a session that nothing has asked to end, the line goes on, except that a command behind `&&` is passed over. -/
theorem runExit_accepts_numbers [Children] :
    (∀ (shell : Shell) (arguments : List Text),
      (∃ status, (runExit shell arguments).1 = .ok status) ↔
        ∀ word ∈ arguments.head?, IsExitNumber word) ∧
      (∀ shell : Shell,
        runExit shell [] =
          (.ok shell.session.status,
            { shell with
              session := { shell.session with exitRequest := some shell.session.status } })) ∧
      (∀ (shell : Shell) (word : Text) (others : List Text), IsExitNumber word →
        ∃ status : Status, status = (word.decimalValue % 256 : Nat) ∧ InRange status ∧
          runExit shell (word :: others) =
            (.ok status,
              { shell with session := { shell.session with exitRequest := some status } })) ∧
      (∀ (shell : Shell) (word : Text) (others : List Text), ¬IsExitNumber word →
        ∃ error : BuiltinError, error.status = 2 ∧
          error.message = "Illegal number: ".toList ++ word ∧
          runExit shell (word :: others) = (.error error, shell)) ∧
      ∀ (shell reached : Shell) (raw command word : Text) (others : List Text)
        (rest : List (Operator × Text)),
        shell.session.exitRequest = none → shell.ComesTo raw command rest reached →
        words (reached.session.scope.expand command) = "exit".toList :: word :: others →
        ¬IsExitNumber word →
        let failed : Shell :=
          { reached with
            session := { reached.session with argv := "exit".toList :: word :: others, status := 2 }
            sink := reached.sink.add
              (.report (reached.session.report (.builtin "exit".toList (.illegalNumber word)))) }
        (rest = [] → shell.runLine raw = (.proceed, failed)) ∧
          ∀ operator next more, rest = (operator, next) :: more →
            shell.runLine raw = failed.runChain (operator != .onSuccess) next more := by
  refine ⟨runExit_succeeds_iff, fun shell => rfl, ?_, ?_, ?_⟩
  · intro shell word others h
    refine ⟨_, rfl, inRange_natCast (by omega), ?_⟩
    exact runExit_of_isExitNumber shell others h
  · intro shell word others h
    exact ⟨.illegalNumber word, rfl, rfl, runExit_of_not_isExitNumber shell others h⟩
  · intro shell reached raw command word others rest hshell hcomes hwords hword failed
    have hfailed : reached.runCommand command = failed :=
      reached.runCommand_exit_of_not_isExitNumber hwords hword
    have hnone : failed.session.exitRequest = none := hcomes.exitRequest_eq_none hshell
    have hline : shell.runLine raw = Shell.resume rest failed := by
      rw [hcomes.runLine_eq, hfailed, hnone]
    refine ⟨?_, ?_⟩
    · rintro rfl
      exact hline
    · rintro operator next more rfl
      rw [hline]
      cases operator <;> rfl

open Children.Performing

/-- Behind a failed command, a number that is too large, and then one with zeros in front. -/
theorem runExit_accepts_numbers_zeros :
    let raw := "nope || exit 99999999999 && env || exit 0000000000300 x".toList
    ¬IsExitNumber "99999999999".toList ∧ IsExitNumber "0000000000300".toList ∧
      (runExit .bare ["0000000000300".toList, ['x']]).1 = .ok 44 ∧
      (∃ error, runExit .bare ["99999999999".toList] = (.error error, .bare)) ∧
      (Shell.bare.runLine raw).1 = .stop 44 := by
  intro raw
  have hillegal : ¬IsExitNumber "99999999999".toList := by decide
  have hnumber : IsExitNumber "0000000000300".toList := by decide
  have hcomes : Shell.bare.ComesTo raw " exit 99999999999 ".toList
      [(.onSuccess, " env ".toList), (.onFailure, " exit 0000000000300 x".toList)]
      ((Shell.bare.beginLine raw).runCommand "nope ".toList) :=
    ⟨by decide, [(.always, "nope ".toList)], .onFailure, by decide, rfl, rfl⟩
  obtain ⟨-, -, haccepts, hrefuses, hline⟩ := runExit_accepts_numbers
  obtain ⟨status, hstatus, -, hrun⟩ := haccepts .bare _ [['x']] hnumber
  obtain ⟨error, -, -, herror⟩ := hrefuses .bare _ [] hillegal
  refine ⟨hillegal, hnumber, ?_, ⟨error, herror⟩, ?_⟩
  · rw [hrun, hstatus]
    rfl
  · rw [(hline _ _ _ _ _ [] _ rfl hcomes (by decide) hillegal).2 _ _ _ rfl]
    decide

end Builtin

end CommandShell
