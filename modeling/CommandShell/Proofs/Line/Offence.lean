import Mathlib.Data.List.TakeWhile
import CommandShell.Proofs.Line.Grammar

/-!
# What the check reports

The check stops somewhere inside a stretch of operator characters and looks around there for what to report. Here is said what it reports in terms of the line as a whole. A line is read into words and operators, and operators with no word between them are a group. A group is bad unless it is one operator that joins commands, with a word on either side. The report is about the first bad group: about its first operator if no word precedes it, and else about its second one if there is one.

The check is compared with a check of what was read, which remembers the last thing read. A `&` or `|` that was read alone is not continued by what comes next, so the operators are read to their ends whenever the two checks are compared.
-/

namespace CommandShell

/-- An operator as it is read: one that joins commands, or a `&` or `|` without its twin. -/
inductive Sign where
  | joining (operator : Operator)
  | lone (symbol : Char)
  deriving DecidableEq, Repr

namespace Sign

def text : Sign → Text
  | joining operator => operator.text
  | lone symbol => [symbol]

def isLone : Sign → Bool
  | joining _ => false
  | lone _ => true

end Sign

/-- An operator and the index of its first character in the line. -/
structure Token where
  start : Nat
  sign : Sign
  deriving DecidableEq, Repr

inductive Lexeme where
  | word (text : Text)
  | operator (token : Token)
  deriving DecidableEq, Repr

namespace Lexeme

def token? : Lexeme → Option Token
  | word _ => none
  | operator token => some token

def isOperator (lexeme : Lexeme) : Bool :=
  lexeme.token?.isSome

@[simp]
theorem token?_operator (token : Token) : (operator token).token? = some token := rfl

@[simp]
theorem isOperator_operator (token : Token) : (operator token).isOperator = true := rfl

@[simp]
theorem isOperator_word (text : Text) : (word text).isOperator = false := rfl

/-- The words and operators of a text that starts at `index` of the line. Operators and words are taken as long as possible, from the left. -/
def readFrom (index : Nat) : Text → List Lexeme
  | [] => []
  | ';' :: rest => operator { start := index, sign := .joining .always } :: readFrom (index + 1) rest
  | '&' :: '&' :: rest =>
    operator { start := index, sign := .joining .onSuccess } :: readFrom (index + 2) rest
  | '|' :: '|' :: rest =>
    operator { start := index, sign := .joining .onFailure } :: readFrom (index + 2) rest
  | c :: rest =>
    if isDelimiter c then
      readFrom (index + 1) rest
    else if isOperatorCharacter c then
      operator { start := index, sign := .lone c } :: readFrom (index + 1) rest
    else
      word (c :: rest.takeWhile continuesWord) ::
        readFrom (index + (c :: rest.takeWhile continuesWord).length) (rest.dropWhile continuesWord)
termination_by t => t.length
decreasing_by
  all_goals
    have := List.length_dropWhile_le continuesWord rest
    simp only [List.length_cons]
    omega

def ofLine (line : Text) : List Lexeme :=
  readFrom 0 line

end Lexeme

/-- Operators with no word between them, and whether there are words before and behind them. -/
structure Group where
  afterWord : Bool
  first : Token
  others : List Token
  beforeWord : Bool
  deriving DecidableEq, Repr

namespace Group

/-- The groups of what is read, behind a word or at the start of a line. A group goes on as long as operators follow. -/
def groupsFrom (afterWord : Bool) : List Lexeme → List Group
  | [] => []
  | .word _ :: rest => groupsFrom true rest
  | .operator first :: rest =>
    { afterWord, first
      others := (rest.takeWhile Lexeme.isOperator).filterMap Lexeme.token?
      beforeWord := !(rest.dropWhile Lexeme.isOperator).isEmpty } ::
      -- What is left starts with a word if it starts with anything.
      groupsFrom afterWord (rest.dropWhile Lexeme.isOperator)
termination_by lexemes => lexemes.length
decreasing_by
  all_goals
    have := List.length_dropWhile_le Lexeme.isOperator rest
    simp only [List.length_cons]
    omega

def ofLine (line : Text) : List Group :=
  groupsFrom false (Lexeme.ofLine line)

/-- The group does not join the words around it. -/
def isBad (group : Group) : Bool :=
  !group.afterWord || !group.beforeWord || !group.others.isEmpty || group.first.sign.isLone

/-- The operator of a bad group that is reported. -/
def offender (group : Group) : Token :=
  if group.afterWord then group.others.headD group.first else group.first

end Group

/-- An operator as it is reported: a `;` is reported twice next to another one. -/
def Token.shownIn (line : Text) (token : Token) : Text :=
  if token.sign = .joining .always ∧
      ((line.take token.start).getLast? = some ';' ∨ (line.drop (token.start + 1)).head? = some ';') then
    [';', ';']
  else
    token.sign.text

/-- The operator that is to be reported for what is read, after what was read before. -/
def offenderAfter : Option Lexeme → List Lexeme → Option Token
  | some (.operator token), [] => some token
  | _, [] => none
  | some (.operator token), .word text :: rest =>
    if token.sign.isLone then some token else offenderAfter (some (.word text)) rest
  | _, .word text :: rest => offenderAfter (some (.word text)) rest
  | some (.word _), .operator token :: rest => offenderAfter (some (.operator token)) rest
  | _, .operator token :: _ => some token

/-- What the check remembers behind an operator. -/
def Token.scanned (token : Token) : Scanned :=
  match token.sign with
  | .joining .always => .operator ';' token.start 1
  | .joining .onSuccess => .operator '&' token.start 2
  | .joining .onFailure => .operator '|' token.start 2
  | .lone symbol => .operator symbol token.start 1

def Scanned.ofLexeme? : Option Lexeme → Scanned
  | none => nothing
  | some (.word _) => word
  | some (.operator token) => token.scanned

/-- The operator was read to its end: the text at `index` does not go on with it. -/
def Token.EndsBefore (token : Token) (index : Nat) (t : Text) : Prop :=
  match token.sign with
  | .joining _ => True
  | .lone symbol =>
    symbol ≠ ';' ∧ (token.start + 1 < index ∨ token.start + 1 = index ∧ t.head? ≠ some symbol)

/-- What was read last was read to its end. Words need not be, because the check does not count their characters. -/
def Lexeme.EndsBefore (index : Nat) (t : Text) : Option Lexeme → Prop
  | some (.operator token) => token.EndsBefore index t
  | _ => True

namespace Token

variable {token : Token} {index : Nat} {c : Char} {rest : Text}

theorem EndsBefore.next (h : token.EndsBefore index (c :: rest)) :
    token.EndsBefore (index + 1) rest := by
  obtain ⟨start, sign⟩ := token
  cases sign with
  | joining operator => trivial
  | lone symbol =>
    obtain ⟨hsymbol, hplace⟩ := h
    refine ⟨hsymbol, .inl ?_⟩
    dsimp only at hplace ⊢
    omega

/-- No further operator character belongs to an operator that was read to its end. -/
theorem EndsBefore.push? (h : token.EndsBefore index (c :: rest)) :
    token.scanned.push? c index = none := by
  obtain ⟨start, sign⟩ := token
  cases sign with
  | joining operator =>
    cases operator with
    | always => exact if_neg fun hgoesOn => hgoesOn.2.1 hgoesOn.1
    | onSuccess | onFailure => exact if_neg fun hgoesOn => absurd hgoesOn.2.2.1 (by decide)
  | lone symbol =>
    obtain ⟨-, hplace⟩ := h
    apply if_neg
    intro hgoesOn
    obtain ⟨hsame, -, -, hindex⟩ := hgoesOn
    rcases hplace with hlate | ⟨-, hhead⟩
    · exact absurd hindex (Nat.ne_of_gt hlate)
    · exact hhead (congrArg some hsame)

theorem EndsBefore.loneStart? {t : Text} (h : token.EndsBefore index t) :
    token.scanned.loneStart? = if token.sign.isLone then some token.start else none := by
  obtain ⟨start, sign⟩ := token
  cases sign with
  | joining operator => cases operator <;> rfl
  | lone symbol => exact if_neg h.1

end Token

/-! ### The two checks agree -/

section Checks

variable {previous : Option Lexeme} {index : Nat} {c : Char} {rest : Text} {lexemes : List Lexeme}

theorem Lexeme.EndsBefore.next (h : Lexeme.EndsBefore index (c :: rest) previous) :
    Lexeme.EndsBefore (index + 1) rest previous := by
  rcases previous with _ | text | token
  · trivial
  · trivial
  · exact Token.EndsBefore.next h

theorem offenceFrom_word_operator (hc : isOperatorCharacter c = true) (index : Nat) (rest : Text) :
    offenceFrom .word index (c :: rest) = offenceFrom (.operator c index 1) (index + 1) rest := by
  rw [offenceFrom_operatorCharacter hc, Scanned.push?]

theorem offenceFrom_word_twins (hc : isOperatorCharacter c = true) (hsymbol : c ≠ ';') (index : Nat)
    (rest : Text) :
    offenceFrom .word index (c :: c :: rest) = offenceFrom (.operator c index 2) (index + 2) rest := by
  rw [offenceFrom_word_operator hc, offenceFrom_operatorCharacter hc, Scanned.push?,
    if_pos ⟨rfl, hsymbol, rfl, rfl⟩]

theorem offenceFrom_word_dropWhile (index : Nat) (t : Text) :
    offenceFrom .word index t =
      offenceFrom .word (index + (t.takeWhile continuesWord).length)
        (t.dropWhile continuesWord) := by
  induction t generalizing index with
  | nil => rfl
  | cons c rest ih =>
    rw [List.takeWhile_cons, List.dropWhile_cons]
    split
    · next hc =>
      rw [continuesWord, Bool.and_eq_true, Bool.not_eq_true', Bool.not_eq_true'] at hc
      rw [offenceFrom_word hc.1 hc.2, List.length_cons, ← Nat.add_assoc, Nat.add_right_comm]
      exact ih (index + 1)
    · rfl

/-- Both checks stop at an operator, unless a word is before it. -/
theorem offenceFrom_eq_of_operator (hc : isOperatorCharacter c = true)
    (h : Lexeme.EndsBefore index (c :: rest) previous) {token : Token} (hstart : token.start = index)
    (hword : offenceFrom .word index (c :: rest) =
      (offenderAfter (some (.operator token)) lexemes).map Token.start) :
    offenceFrom (Scanned.ofLexeme? previous) index (c :: rest) =
      (offenderAfter previous (.operator token :: lexemes)).map Token.start := by
  rcases previous with _ | text | earlier
  · rw [offenceFrom_operatorCharacter hc, offenderAfter, Option.map_some, hstart]
    · rfl
    · simp
  · rw [offenderAfter]
    exact hword
  · rw [offenceFrom_operatorCharacter hc, Scanned.ofLexeme?, Token.EndsBefore.push? h, offenderAfter,
      Option.map_some, hstart]
    simp

/-- Both checks pass over a word, unless a lone `&` or `|` is before it. -/
theorem offenceFrom_eq_of_word (hdelimiter : isDelimiter c = false)
    (hoperator : isOperatorCharacter c = false) (h : Lexeme.EndsBefore index (c :: rest) previous)
    {text : Text}
    (hword : offenceFrom .word (index + 1) rest =
      (offenderAfter (some (.word text)) lexemes).map Token.start) :
    offenceFrom (Scanned.ofLexeme? previous) index (c :: rest) =
      (offenderAfter previous (.word text :: lexemes)).map Token.start := by
  rw [offenceFrom_word hdelimiter hoperator]
  rcases previous with _ | earlier | earlier
  · rw [offenderAfter]
    · exact hword
    · simp
  · rw [offenderAfter]
    · exact hword
    · simp
  · rw [offenderAfter, Scanned.ofLexeme?, Token.EndsBefore.loneStart? h]
    by_cases hlone : earlier.sign.isLone = true
    · rw [if_pos hlone, if_pos hlone, Option.map_some]
    · rw [if_neg hlone, if_neg hlone]
      exact hword

theorem offenceFrom_eq_map_offenderAfter (previous : Option Lexeme) (index : Nat) (t : Text)
    (h : Lexeme.EndsBefore index t previous) :
    offenceFrom (Scanned.ofLexeme? previous) index t =
      (offenderAfter previous (Lexeme.readFrom index t)).map Token.start := by
  fun_induction Lexeme.readFrom index t generalizing previous with
  | case1 index =>
    rcases previous with _ | text | token
    · rfl
    · rfl
    · obtain ⟨start, operator | symbol⟩ := token
      · cases operator <;> rfl
      · rfl
  | case2 index rest ih =>
    apply offenceFrom_eq_of_operator rfl h rfl
    rw [offenceFrom_word_operator rfl]
    exact ih (some (.operator { start := index, sign := .joining .always })) trivial
  | case3 index rest ih =>
    apply offenceFrom_eq_of_operator rfl h rfl
    rw [offenceFrom_word_twins rfl (by decide)]
    exact ih (some (.operator { start := index, sign := .joining .onSuccess })) trivial
  | case4 index rest ih =>
    apply offenceFrom_eq_of_operator rfl h rfl
    rw [offenceFrom_word_twins rfl (by decide)]
    exact ih (some (.operator { start := index, sign := .joining .onFailure })) trivial
  | case5 index c rest hsemicolon hand hor hdelimiter ih =>
    rw [offenceFrom_delimiter hdelimiter]
    exact ih previous h.next
  | case6 index c rest hsemicolon hand hor hdelimiter hoperator ih =>
    obtain ⟨hsymbol, htwin⟩ := Chain.opens_none hsemicolon hand hor hoperator
    apply offenceFrom_eq_of_operator hoperator h rfl
    rw [offenceFrom_word_operator hoperator]
    exact ih (some (.operator { start := index, sign := .lone c })) ⟨hsymbol, .inr ⟨rfl, htwin⟩⟩
  | case7 index c rest hsemicolon hand hor hdelimiter hoperator ih =>
    apply offenceFrom_eq_of_word (by simpa using hdelimiter) (by simpa using hoperator) h
    rw [offenceFrom_word_dropWhile, Nat.add_right_comm]
    exact ih (some (.word _)) trivial

end Checks

/-! ### The first bad group -/

/-- The check of what was read stops at the first bad group. -/
theorem offenderAfter_eq_find? (previous : Option Lexeme) {afterWord : Bool} (lexemes : List Lexeme)
    (hprevious : ∀ token, previous ≠ some (.operator token)) (hword : previous.isSome = afterWord) :
    offenderAfter previous lexemes =
      ((Group.groupsFrom afterWord lexemes).find? Group.isBad).map Group.offender := by
  fun_induction Group.groupsFrom afterWord lexemes generalizing previous with
  | case1 afterWord =>
    rcases previous with _ | text | token
    · rfl
    · rfl
    · exact absurd rfl (hprevious token)
  | case2 afterWord text rest ih =>
    rw [offenderAfter]
    · exact ih (some (.word text)) (by simp) rfl
    · exact hprevious
  | case3 afterWord first rest ih =>
    rcases previous with _ | text | token
    · subst hword
      rw [List.find?_cons_of_pos rfl]
      rfl
    · subst hword
      -- Behind a word it is up to what follows the first operator.
      rcases rest with _ | ⟨word | second, more⟩
      · rw [List.find?_cons_of_pos rfl]
        rfl
      · have hbehind := ih (some (.word text)) (by simp) rfl
        rw [offenderAfter, offenderAfter]
        by_cases hlone : first.sign.isLone = true
        · rw [List.find?_cons_of_pos (by simp [Group.isBad, hlone]), if_pos hlone]
          rfl
        · rw [List.find?_cons_of_neg (by simp [Group.isBad, hlone]), if_neg hlone, ← hbehind]
          rfl
      · rw [List.find?_cons_of_pos (by simp [Group.isBad, List.takeWhile_cons])]
        rfl
    · exact absurd rfl (hprevious token)

theorem mem_of_offenderAfter {previous : Option Lexeme} {lexemes : List Lexeme} {token : Token}
    (h : offenderAfter previous lexemes = some token) :
    previous = some (.operator token) ∨ .operator token ∈ lexemes := by
  fun_induction offenderAfter previous lexemes with
  | case1 earlier => exact .inl (congrArg (some ∘ Lexeme.operator) (Option.some.inj h))
  | case2 previous => simp at h
  | case3 earlier text rest hlone =>
    exact .inl (congrArg (some ∘ Lexeme.operator) (Option.some.inj h))
  | case4 earlier text rest hlone ih => exact .inr (by simpa using ih h)
  | case5 previous text rest hprevious ih => exact .inr (by simpa using ih h)
  | case6 text earlier rest ih => simpa [eq_comm] using ih h
  | case7 previous earlier rest hprevious => exact .inr (by simp [Option.some.inj h])

/-! ### What is shown of an operator -/

/-- The operator stands in the line where it is said to start, and a lone `&` or `|` is not followed by its twin. -/
def Token.StandsIn (line : Text) (token : Token) : Prop :=
  ∃ before behind, line = before ++ (token.sign.text ++ behind) ∧ token.start = before.length ∧
    ∀ symbol, token.sign = .lone symbol →
      (symbol = '&' ∨ symbol = '|') ∧ behind.head? ≠ some symbol

theorem Token.forall_standsIn_cons {sign : Sign} {before rest : Text} {lexemes : List Lexeme}
    {index : Nat} (hbefore : before.length = index)
    (hlone : ∀ symbol, sign = .lone symbol →
      (symbol = '&' ∨ symbol = '|') ∧ rest.head? ≠ some symbol)
    (hrest : ∀ token ∈ lexemes.filterMap Lexeme.token?,
      token.StandsIn (before ++ sign.text ++ rest)) :
    ∀ token ∈ (.operator { start := index, sign } :: lexemes).filterMap Lexeme.token?,
      token.StandsIn (before ++ (sign.text ++ rest)) := by
  rw [List.append_assoc] at hrest
  exact List.forall_mem_cons.2 ⟨⟨before, rest, rfl, hbefore.symm, hlone⟩, hrest⟩

theorem Token.standsIn_of_mem_readFrom (index : Nat) (before t : Text)
    (hbefore : before.length = index) :
    ∀ token ∈ (Lexeme.readFrom index t).filterMap Lexeme.token?, token.StandsIn (before ++ t) := by
  fun_induction Lexeme.readFrom index t generalizing before with
  | case1 index => simp
  | case2 index rest ih =>
    exact forall_standsIn_cons hbefore (by simp) (ih (before ++ [';']) (by simp [hbefore]))
  | case3 index rest ih =>
    exact forall_standsIn_cons hbefore (by simp) (ih (before ++ ['&', '&']) (by simp [hbefore]))
  | case4 index rest ih =>
    exact forall_standsIn_cons hbefore (by simp) (ih (before ++ ['|', '|']) (by simp [hbefore]))
  | case5 index c rest hsemicolon hand hor hdelimiter ih =>
    have hrest := ih (before ++ [c]) (by simp [hbefore])
    rwa [List.append_assoc] at hrest
  | case6 index c rest hsemicolon hand hor hdelimiter hoperator ih =>
    obtain ⟨hsymbol, htwin⟩ := Chain.opens_none hsemicolon hand hor hoperator
    apply forall_standsIn_cons hbefore
    · intro symbol hsign
      obtain rfl := Sign.lone.inj hsign
      exact ⟨(isOperatorCharacter_iff.1 hoperator).resolve_left hsymbol, htwin⟩
    · exact ih (before ++ [c]) (by simp [hbefore])
  | case7 index c rest hsemicolon hand hor hdelimiter hoperator ih =>
    have hrest := ih (before ++ c :: rest.takeWhile continuesWord) (by simp [hbefore])
    rw [List.append_assoc, List.cons_append, List.takeWhile_append_dropWhile] at hrest
    exact hrest

theorem tokenAt_length (before : Text) (c : Char) (behind : Text) :
    tokenAt (before ++ c :: behind) before.length =
      if c = ';' then
        if before.getLast? = some ';' ∨ behind.head? = some ';' then [';', ';'] else [';']
      else if c = '&' then
        if behind.head? = some '&' then ['&', '&'] else ['&']
      else if behind.head? = some '|' then ['|', '|'] else ['|'] := by
  have hlast : (before.length ≠ 0 ∧ (before ++ c :: behind)[before.length - 1]? = some ';') ↔
      before.getLast? = some ';' := by
    rcases List.eq_nil_or_concat before with rfl | ⟨start, d, rfl⟩
    · simp
    · simp
  have hat : (before ++ c :: behind)[before.length]? = some c := by simp
  have hnext : (before ++ c :: behind)[before.length + 1]? = behind.head? := by
    rw [List.getElem?_append_right (by omega)]
    simp [List.head?_eq_getElem?]
  simp only [tokenAt_eq, hlast, hat, hnext, Option.some.injEq]

theorem Token.StandsIn.tokenAt_start {line : Text} {token : Token} (h : token.StandsIn line) :
    tokenAt line token.start = token.shownIn line := by
  obtain ⟨before, behind, rfl, hstart, hlone⟩ := h
  obtain ⟨start, sign⟩ := token
  dsimp only at hstart hlone ⊢
  subst hstart
  rw [Token.shownIn]
  cases sign with
  | joining operator =>
    cases operator <;> simp [Sign.text, Operator.text, tokenAt_length]
  | lone symbol =>
    obtain ⟨rfl | rfl, htwin⟩ := hlone symbol rfl
    · simp [Sign.text, tokenAt_length, htwin]
    · simp [Sign.text, tokenAt_length, htwin]

/-- The check rejects a line exactly if it has a bad group, and it reports an operator of the first one: the first operator if no word is before it, and else the second one or the only one. -/
theorem misplaced?_eq_find?_groups (line : Text) :
    misplaced? line =
      ((Group.ofLine line).find? Group.isBad).map fun group =>
        { token := group.offender.shownIn line, position := group.offender.start + 1 } := by
  have hoffence : offence? line = (offenderAfter none (Lexeme.ofLine line)).map Token.start :=
    offenceFrom_eq_map_offenderAfter none 0 line trivial
  have hgroups := offenderAfter_eq_find? none (Lexeme.ofLine line) (by simp) rfl
  have hshown : ∀ token, offenderAfter none (Lexeme.ofLine line) = some token →
      tokenAt line token.start = token.shownIn line := by
    intro token htoken
    have hmem := (mem_of_offenderAfter htoken).resolve_left (by simp)
    have hread := List.mem_filterMap.2 ⟨_, hmem, Lexeme.token?_operator token⟩
    exact (Token.standsIn_of_mem_readFrom 0 [] line rfl token hread).tokenAt_start
  calc misplaced? line
      = (offenderAfter none (Lexeme.ofLine line)).map fun token =>
          { token := tokenAt line token.start, position := token.start + 1 } := by
        rw [misplaced?, hoffence, Option.map_map]
        rfl
    _ = (offenderAfter none (Lexeme.ofLine line)).map fun token =>
          { token := token.shownIn line, position := token.start + 1 } := by
        refine Option.map_congr fun token htoken => ?_
        rw [hshown token htoken]
    _ = _ := by
        rw [hgroups, Option.map_map]
        rfl

example : misplaced? "ls ; a &&&& b |".toList = some { token := ['&', '&'], position := 10 } := by
  decide

end CommandShell
