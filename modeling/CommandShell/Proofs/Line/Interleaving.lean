import CommandShell.Proofs.Line.Grammar

/-!
# Lines taken apart and put together

Splitting a line and writing commands with operators between them undo each other. Starting from a line this is so whatever the line is: a lone `&` or `|` stays in its command, and two operators side by side have an empty command between them.

Starting from commands it takes that no command has an operator character. The scan looks one character ahead, and what it sees behind the first character of an operator is then the second one of the same operator or nothing that belongs to any. So it never pairs characters of two operators, nor of an operator and a command.
-/

namespace CommandShell

namespace Chain

/-- The commands in order with the texts of the operators between them. -/
def interleaved : List Text → List Operator → Text
  | [], _ => []
  | command :: _, [] => command
  | command :: commands, operator :: operators =>
    command ++ operator.text ++ interleaved commands operators

/-! ### From a chain to its parts -/

theorem length_commands (chain : Chain) : chain.commands.length = chain.operators.length + 1 := by
  simp [commands, operators]

theorem interleaved_commands_operators (chain : Chain) :
    interleaved chain.commands chain.operators = chain.write := by
  obtain ⟨first, rest⟩ := chain
  induction rest generalizing first with
  | nil => simp [commands, operators, interleaved, write]
  | cons step rest ih =>
    obtain ⟨operator, next⟩ := step
    have hrest : interleaved (next :: rest.map Prod.snd) (rest.map Prod.fst) =
        next ++ rest.flatMap fun step => step.1.text ++ step.2 := ih next
    show first ++ operator.text ++ interleaved (next :: rest.map Prod.snd) (rest.map Prod.fst) = _
    rw [hrest]
    simp [write]

theorem pairs_eq_zip (chain : Chain) :
    chain.pairs = chain.commands.zip (chain.operators.map some ++ [none]) := by
  obtain ⟨first, rest⟩ := chain
  induction rest generalizing first with
  | nil => rfl
  | cons step rest ih =>
    obtain ⟨operator, next⟩ := step
    exact congrArg ((first, some operator) :: ·) (ih next)

/-! ### From the parts to a chain -/

theorem split_append_of_isPlain {command : Text} (h : IsPlain command) (t : Text) :
    split (command ++ t) = { split t with first := command ++ (split t).first } := by
  induction command with
  | nil => rfl
  | cons c command ih =>
    rw [isPlain_cons] at h
    rw [List.cons_append, split_character (by simp [h.1]), ih h.2]
    rfl

theorem split_text_append (operator : Operator) (t : Text) :
    split (operator.text ++ t) = (split t).addOperator operator := by
  cases operator <;> rfl

theorem split_interleaved {commands : List Text} {operators : List Operator}
    (hlength : commands.length = operators.length + 1)
    (hplain : ∀ command ∈ commands, IsPlain command) :
    (split (interleaved commands operators)).commands = commands ∧
      (split (interleaved commands operators)).operators = operators := by
  fun_induction interleaved commands operators with
  | case1 operators => simp at hlength
  | case2 command rest =>
    have hrest : rest = [] := by simpa using hlength
    have hsplit := split_of_isPlain (hplain command (by simp))
    rw [hsplit, hrest]
    exact ⟨rfl, rfl⟩
  | case3 command commands operator operators ih =>
    rw [List.forall_mem_cons] at hplain
    obtain ⟨hcommands, hoperators⟩ := ih (by simpa using hlength) hplain.2
    have hsplit : split (command ++ operator.text ++ interleaved commands operators) =
        { (split (interleaved commands operators)).addOperator operator with first := command } := by
      rw [List.append_assoc, split_append_of_isPlain hplain.1, split_text_append]
      simp [addOperator]
    rw [hsplit]
    constructor
    · exact congrArg (command :: ·) hcommands
    · exact congrArg (operator :: ·) hoperators

/-- Every line is split into one command more than operators, and these make up the line again. Commands without operator characters and operators between them are what the line that they make up is split into. Each command is paired with the operator behind it, and the last one with none. -/
theorem split_inverts_interleaved :
    (∀ line : Text,
      (split line).commands.length = (split line).operators.length + 1 ∧
        interleaved (split line).commands (split line).operators = line ∧
        (split line).pairs =
          (split line).commands.zip ((split line).operators.map some ++ [none])) ∧
      ∀ (commands : List Text) (operators : List Operator), commands.length = operators.length + 1 →
        (∀ command ∈ commands, ∀ c ∈ command, c ≠ ';' ∧ c ≠ '&' ∧ c ≠ '|') →
        (split (interleaved commands operators)).commands = commands ∧
          (split (interleaved commands operators)).operators = operators ∧
          (split (interleaved commands operators)).pairs =
            commands.zip (operators.map some ++ [none]) := by
  constructor
  · intro line
    have hline : interleaved (split line).commands (split line).operators = line := by
      rw [interleaved_commands_operators, write_split]
    exact ⟨(split line).length_commands, hline, (split line).pairs_eq_zip⟩
  · intro commands operators hlength hcharacters
    have hplain : ∀ command ∈ commands, IsPlain command := by
      intro command hmem
      exact isPlain_iff.2 (hcharacters command hmem)
    obtain ⟨hcommands, hoperators⟩ := split_interleaved hlength hplain
    refine ⟨hcommands, hoperators, ?_⟩
    rw [pairs_eq_zip, hcommands, hoperators]

/-- Operators side by side, and a line that no check accepts. -/
theorem split_inverts_interleaved_sideBySide :
    interleaved ["a ".toList, [], [], "b".toList] [.onSuccess, .always, .onFailure] =
        "a &&;||b".toList ∧
      (split "a &&;||b".toList).commands = ["a ".toList, [], [], "b".toList] ∧
      (split "a &&;||b".toList).pairs =
        [("a ".toList, some .onSuccess), ([], some .always), ([], some .onFailure),
          ("b".toList, none)] ∧
      (split "&&& |".toList).commands = [[], "& |".toList] ∧
      interleaved (split "&&& |".toList).commands (split "&&& |".toList).operators =
        "&&& |".toList := by
  have hback := split_inverts_interleaved.2 ["a ".toList, [], [], "b".toList]
    [.onSuccess, .always, .onFailure] rfl (by simp)
  exact ⟨rfl, hback.1, hback.2.2, rfl, (split_inverts_interleaved.1 "&&& |".toList).2.1⟩

end Chain

end CommandShell
