import CommandShell.Line.Chain

/-!
# Splitting texts that are put together

Where two texts meet and no `&&` or `||` lies across the seam, the chain of the whole is glued from the chains of the two: the last command of the left one and the first of the right one become one command. A `;` at the seam keeps them apart.
-/

namespace CommandShell

theorem isOperatorCharacter_iff {c : Char} :
    isOperatorCharacter c = true ↔ c = ';' ∨ c = '&' ∨ c = '|' := by
  simp [isOperatorCharacter, or_assoc]

namespace Chain

/-- A character that no pattern of an operator fits is no operator character, or it is a `&` or `|` without its twin. -/
theorem opens_none {c : Char} {rest : Text} (hsemicolon : c ≠ ';')
    (hand : ∀ others, c = '&' → rest = '&' :: others → False)
    (hor : ∀ others, c = '|' → rest = '|' :: others → False) :
    isOperatorCharacter c = true → c ≠ ';' ∧ rest.head? ≠ some c := by
  intro hoperator
  refine ⟨hsemicolon, fun hhead => ?_⟩
  obtain ⟨others, rfl⟩ := List.head?_eq_some_iff.1 hhead
  rcases isOperatorCharacter_iff.1 hoperator with rfl | rfl | rfl
  · exact hsemicolon rfl
  · exact hand others rfl rfl
  · exact hor others rfl rfl

theorem split_character {c : Char} {rest : Text}
    (hopens : isOperatorCharacter c = true → c ≠ ';' ∧ rest.head? ≠ some c) :
    split (c :: rest) = (split rest).addCharacter c := by
  rw [split.eq_def]
  split
  · next heq => simp at heq
  · next heq =>
    obtain ⟨rfl, rfl⟩ := List.cons.inj heq
    exact absurd rfl (hopens rfl).1
  · next heq =>
    obtain ⟨rfl, rfl⟩ := List.cons.inj heq
    exact absurd rfl (hopens rfl).2
  · next heq =>
    obtain ⟨rfl, rfl⟩ := List.cons.inj heq
    exact absurd rfl (hopens rfl).2
  · next heq =>
    obtain ⟨rfl, rfl⟩ := List.cons.inj heq
    rfl

/-- The chain of `command` and `steps`, whose last command goes on with the first one of `right`. -/
def glueFrom (right : Chain) (command : Text) : List (Operator × Text) → Chain
  | [] => { right with first := command ++ right.first }
  | (operator, next) :: steps =>
    { (glueFrom right next steps).addOperator operator with first := command }

def glue (left right : Chain) : Chain :=
  glueFrom right left.first left.rest

theorem glue_addCharacter (c : Char) (left right : Chain) :
    (left.addCharacter c).glue right = (left.glue right).addCharacter c := by
  obtain ⟨first, rest⟩ := left
  cases rest <;> rfl

theorem glue_addOperator (operator : Operator) (left right : Chain) :
    (left.addOperator operator).glue right = (left.glue right).addOperator operator := rfl

theorem split_append (left right : Text) (hand : right.head? ≠ some '&')
    (hor : right.head? ≠ some '|') :
    split (left ++ right) = (split left).glue (split right) := by
  fun_induction split left with
  | case1 => rfl
  | case2 rest ih => rw [glue_addOperator, ← ih]; rfl
  | case3 rest ih => rw [glue_addOperator, ← ih]; rfl
  | case4 rest ih => rw [glue_addOperator, ← ih]; rfl
  | case5 c rest hsemicolon hleftAnd hleftOr ih =>
    have hopens := opens_none hsemicolon hleftAnd hleftOr
    rw [glue_addCharacter, ← ih, List.cons_append]
    refine split_character fun hoperator => ⟨hsemicolon, ?_⟩
    cases rest with
    | nil =>
      -- The character is the last one before the seam.
      rcases isOperatorCharacter_iff.1 hoperator with rfl | rfl | rfl
      · exact absurd rfl hsemicolon
      · exact hand
      · exact hor
    | cons d rest => exact (hopens hoperator).2

theorem glueFrom_addOperator (operator : Operator) (right : Chain) (command : Text)
    (steps : List (Operator × Text)) :
    glueFrom (right.addOperator operator) command steps =
      { first := command, rest := steps ++ (operator, right.first) :: right.rest } := by
  induction steps generalizing command with
  | nil => simp [glueFrom, addOperator]
  | cons step steps ih =>
    obtain ⟨before, next⟩ := step
    rw [glueFrom, ih]
    rfl

theorem split_append_semicolon (left right : Text) :
    split (left ++ ';' :: right) =
      { first := (split left).first
        rest := (split left).rest ++ (.always, (split right).first) :: (split right).rest } := by
  rw [split_append left (';' :: right) (by simp) (by simp)]
  exact glueFrom_addOperator .always (split right) (split left).first (split left).rest

theorem write_single (command : Text) : write { first := command, rest := [] } = command := by
  simp [write]

theorem write_cons (first next : Text) (operator : Operator) (rest : List (Operator × Text)) :
    write { first, rest := (operator, next) :: rest } =
      first ++ (operator.text ++ write { first := next, rest }) := by
  simp [write]

end Chain

end CommandShell
