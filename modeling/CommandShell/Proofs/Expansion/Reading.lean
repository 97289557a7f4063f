import CommandShell.Proofs.Expansion

/-!
# Reading a command for expansion

What expansion does to a command is said here without places and bytes. A command is read from the left, one segment after another: `$?`, `$$`, a `$` with the longest name behind it, or else a single character. Expansion puts the values of the segments side by side, so what a segment stands for is not read again, and it leaves a command alone exactly if all its segments are single characters.
-/

namespace CommandShell

/-- What is read at once: a character that stands for itself, or one of the three forms. -/
inductive Segment where
  | literal (c : Char)
  | status
  | processId
  | named (name : Text)
  deriving DecidableEq, Repr

/-- An ASCII letter or an underscore. -/
def opensName (c : Char) : Bool :=
  c.isAlpha || c == '_'

/-- An ASCII letter or digit, or an underscore. -/
def continuesName (c : Char) : Bool :=
  c.isAlphanum || c == '_'

/-- The segments of a text from the left, where a name goes on as long as it can. -/
def segments : Text → List Segment
  | [] => []
  | '$' :: '?' :: rest => .status :: segments rest
  | '$' :: '$' :: rest => .processId :: segments rest
  | '$' :: c :: rest =>
    if opensName c then
      .named (c :: rest.takeWhile continuesName) :: segments (rest.dropWhile continuesName)
    else
      .literal '$' :: segments (c :: rest)
  | c :: rest => .literal c :: segments rest
termination_by t => t.length
decreasing_by
  all_goals
    have := List.length_dropWhile_le continuesName rest
    simp only [List.length_cons]
    omega

/-- The text that a segment stands for. -/
def Scope.valueOfSegment (scope : Scope) : Segment → Text
  | .literal c => [c]
  | .status => (toString scope.status).toList
  | .processId => scope.processId
  | .named name => (scope.valueOf name).getD []

/-! ### Characters and numbers -/

theorem isNameStart_eq_opensName (c : Char) : isNameStart c = opensName c := by
  have hupper : c.isUpper = ('A'.val ≤ c.val && c.val ≤ 'Z'.val) := Bool.decide_and _ _
  show (c.isLower || ('A'.val ≤ c.val && c.val ≤ 'Z'.val) || c == '_') =
    (c.isUpper || c.isLower || c == '_')
  rw [hupper, Bool.or_comm c.isLower]

theorem isNameCharacter_eq_continuesName : isNameCharacter = continuesName := by
  funext c
  rw [isNameCharacter, isNameStart_eq_opensName, opensName, Bool.or_right_comm]
  rfl

theorem Text.decimal_eq_toString (n : Int) : decimal n = (toString n).toList := by
  cases n <;> simp [decimal, decimalNat, toString, Int.repr, Nat.repr]

namespace Scope

variable (scope : Scope)

/-! ### The forms -/

theorem form?_status (rest : Text) :
    scope.form? ('?' :: rest) = some (scope.valueOfSegment .status, 1) := by
  rw [valueOfSegment, ← Text.decimal_eq_toString]
  rfl

theorem form?_processId (rest : Text) :
    scope.form? ('$' :: rest) = some (scope.valueOfSegment .processId, 1) := rfl

theorem form?_named {c : Char} (hc : opensName c = true) (rest : Text) :
    scope.form? (c :: rest) =
      some (scope.valueOfSegment (.named (c :: rest.takeWhile continuesName)),
        (c :: rest.takeWhile continuesName).length) := by
  rw [← isNameStart_eq_opensName] at hc
  rw [scope.form?_of_isNameStart hc, isNameCharacter_eq_continuesName]
  rfl

theorem form?_eq_none {c : Char} (hstatus : c ≠ '?') (hprocess : c ≠ '$')
    (hname : opensName c ≠ true) (rest : Text) : scope.form? (c :: rest) = none := by
  rw [scope.form?_name hstatus hprocess, isNameStart_eq_opensName, if_neg hname]

/-! ### One segment -/

theorem replaceFrom_form {rest value : Text} {length : Nat}
    (h : scope.form? rest = some (value, length)) :
    scope.replaceFrom 0 ('$' :: rest) = value ++ scope.replaceFrom length rest := by
  rw [replaceFrom, if_pos rfl, h]

theorem replaceFrom_literal {c : Char} {rest : Text} (h : c = '$' → scope.form? rest = none) :
    scope.replaceFrom 0 (c :: rest) = c :: scope.replaceFrom 0 rest := by
  rw [replaceFrom]
  split
  · next hc => rw [h hc]
  · rfl

theorem replacementsFrom_form_ne_nil {rest value : Text} {length : Nat}
    (h : scope.form? rest = some (value, length)) (position : Nat) :
    scope.replacementsFrom position 0 ('$' :: rest) ≠ [] := by
  rw [replacementsFrom, if_pos rfl, h]
  exact List.cons_ne_nil _ _

theorem replacementsFrom_literal {c : Char} {rest : Text} (h : c = '$' → scope.form? rest = none)
    (position : Nat) :
    scope.replacementsFrom position 0 (c :: rest) =
      scope.replacementsFrom (position + c.utf8Size) 0 rest := by
  rw [replacementsFrom]
  split
  · next hc => rw [h hc]
  · rfl

/-- Nothing but a `$` at the end is left when no other case of the reading applies. -/
theorem form?_eq_none_of_forall {c : Char} {rest : Text}
    (h : ∀ d more, c = '$' → rest = d :: more → False) : c = '$' → scope.form? rest = none := by
  intro hc
  cases rest with
  | nil => rfl
  | cons d more => exact (h d more hc rfl).elim

/-! ### All segments -/

theorem replaceFrom_eq_flatMap (t : Text) :
    scope.replaceFrom 0 t = (segments t).flatMap scope.valueOfSegment := by
  fun_induction segments t with
  | case1 => rfl
  | case2 rest ih =>
    rw [scope.replaceFrom_form (scope.form?_status rest), List.flatMap_cons, ← ih]
    rfl
  | case3 rest ih =>
    rw [scope.replaceFrom_form (scope.form?_processId rest), List.flatMap_cons, ← ih]
    rfl
  | case4 c rest hstatus hprocess hname ih =>
    -- The pass skips as many characters as the name has, and goes on where the reading does.
    have hbehind := scope.replaceFrom_length_append (c :: rest.takeWhile continuesName)
      (rest.dropWhile continuesName)
    rw [List.cons_append, List.takeWhile_append_dropWhile] at hbehind
    rw [scope.replaceFrom_form (scope.form?_named hname rest), List.flatMap_cons, ← ih, hbehind]
  | case5 c rest hstatus hprocess hname ih =>
    have hnone := scope.form?_eq_none hstatus hprocess hname rest
    rw [scope.replaceFrom_literal fun _ => hnone, ih]
    rfl
  | case6 c rest hstatus hprocess hlast ih =>
    rw [scope.replaceFrom_literal (scope.form?_eq_none_of_forall hlast), ih]
    rfl

theorem replacementsFrom_eq_nil_iff (position : Nat) (t : Text) :
    scope.replacementsFrom position 0 t = [] ↔ ∀ segment ∈ segments t, ∃ c, segment = .literal c := by
  fun_induction segments t generalizing position with
  | case1 => simp [replacementsFrom]
  | case2 rest ih =>
    -- A form leaves a replacement, whatever follows it.
    have hform := scope.replacementsFrom_form_ne_nil (scope.form?_status rest) position
    simp [hform]
  | case3 rest ih =>
    have hform := scope.replacementsFrom_form_ne_nil (scope.form?_processId rest) position
    simp [hform]
  | case4 c rest hstatus hprocess hname ih =>
    have hform := scope.replacementsFrom_form_ne_nil (scope.form?_named hname rest) position
    simp [hform]
  | case5 c rest hstatus hprocess hname ih =>
    have hnone := scope.form?_eq_none hstatus hprocess hname rest
    rw [scope.replacementsFrom_literal fun _ => hnone, ih, List.forall_mem_cons]
    simp
  | case6 c rest hstatus hprocess hlast ih =>
    rw [scope.replacementsFrom_literal (scope.form?_eq_none_of_forall hlast), ih,
      List.forall_mem_cons]
    simp

/-- Expansion is one pass over the characters of a command. Its output is what the segments stand for, side by side, and a command is given back as it is, without being written anew, exactly if it has no forms. -/
theorem expand_eq_values_of_segments (command : Text) :
    scope.expand command = (segments command).flatMap scope.valueOfSegment ∧
      (scope.leavesAlone command = true ↔ ∀ segment ∈ segments command, ∃ c, segment = .literal c) ∧
      (scope.leavesAlone command = true → scope.expand command = command) := by
  refine ⟨?_, ?_, scope.expand_of_leavesAlone⟩
  · rw [expand_eq_replaceFrom, replaceFrom_eq_flatMap]
  · rw [leavesAlone, List.isEmpty_iff]
    exact scope.replacementsFrom_eq_nil_iff 0 command

/-- A `$` alone, one before a digit and one before a letter that is not ASCII stand for themselves. Behind `$$` a `$` can begin a form, and what a variable stands for looks like a form but is none. -/
theorem expand_eq_values_of_segments_dollars :
    let scope : Scope :=
      { status := -1
        processId := "42".toList
        valueOf := fun name => if name = "A_1".toList then some "$?".toList else none }
    scope.leavesAlone "5$ $1 $é$".toList = true ∧
      scope.expand "5$ $1 $é$".toList = "5$ $1 $é$".toList ∧
      scope.expand "$$$A_1é$$?$?$B".toList = "42$?é42?-1".toList := by
  intro scope
  have halone : scope.leavesAlone "5$ $1 $é$".toList = true := by decide
  have hforms := (scope.expand_eq_values_of_segments "$$$A_1é$$?$?$B".toList).1
  have hsegments : segments "$$$A_1é$$?$?$B".toList =
      [.processId, .named "A_1".toList, .literal 'é', .processId, .literal '?', .status,
        .named "B".toList] := by
    simp [segments, opensName, continuesName]
  rw [hsegments] at hforms
  exact ⟨halone, (scope.expand_eq_values_of_segments _).2.2 halone, hforms.trans (by decide)⟩

end Scope

end CommandShell
