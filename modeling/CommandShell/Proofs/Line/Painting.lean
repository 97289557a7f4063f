import Mathlib.Data.List.Basic
import CommandShell.Line.Highlight
import CommandShell.Proofs.Line.Grammar

/-!
# What is painted as what

A line that is typed is painted before anyone runs it, by a scan that knows nothing of the check, of the splitting and of the words of a command. It takes any run of operator characters for an operator and the first word behind it for the name of a command. On lines that pass the check it is right: there every run of operator characters is one operator, so the scan cuts the line where it is split.

The pieces of a line are put together from its end, and so is its chain. What is shown for an accepted line is therefore found by taking one command and the operator behind it off the chain at a time.
-/

namespace CommandShell

/-- A piece of a line, with the style in which it is painted if it is. -/
structure Painted where
  piece : Piece
  style? : Option Style
  deriving DecidableEq, Repr

namespace Painted

/-- The piece as it is shown. -/
def shown (painted : Painted) : Text :=
  match painted.style? with
  | some style => style.paint painted.piece.text
  | none => painted.piece.text

/-- The word that the piece is, with its style. -/
def word? (painted : Painted) : Option (Text × Option Style) :=
  match painted.piece with
  | .word t => some (t, painted.style?)
  | _ => none

end Painted

namespace Piece

/-- The pieces with their styles, given whether the next word is a command name. -/
def styled (isCommand : Bool) : List Piece → List Painted
  | [] => []
  | delimiter c :: rest => { piece := delimiter c, style? := none } :: styled isCommand rest
  | operators t :: rest => { piece := operators t, style? := some operatorStyle } :: styled true rest
  | word t :: rest => { piece := word t, style? := wordStyle? isCommand t } :: styled false rest

theorem paint_eq_flatMap_shown (isCommand : Bool) (pieces : List Piece) :
    paint isCommand pieces = (styled isCommand pieces).flatMap Painted.shown := by
  induction pieces generalizing isCommand with
  | nil => rfl
  | cons piece rest ih =>
    cases piece with
    | delimiter c => exact congrArg (c :: ·) (ih isCommand)
    | operators t => exact congrArg (operatorStyle.paint t ++ ·) (ih true)
    | word t => exact congrArg (paintWord isCommand t ++ ·) (ih false)

theorem map_piece_styled (isCommand : Bool) (pieces : List Piece) :
    (styled isCommand pieces).map Painted.piece = pieces := by
  induction pieces generalizing isCommand with
  | nil => rfl
  | cons piece rest ih =>
    cases piece with
    | delimiter c => exact congrArg (delimiter c :: ·) (ih isCommand)
    | operators t => exact congrArg (operators t :: ·) (ih true)
    | word t => exact congrArg (word t :: ·) (ih false)

/-- Operators separate what is before them from what is behind. -/
theorem styled_append_operators (isCommand : Bool) (before : List Piece) (t : Text)
    (behind : List Piece) :
    styled isCommand (before ++ operators t :: behind) =
      styled isCommand before ++
        { piece := operators t, style? := some operatorStyle } :: styled true behind := by
  induction before generalizing isCommand with
  | nil => rfl
  | cons piece rest ih =>
    cases piece with
    | delimiter c => exact congrArg (_ :: ·) (ih isCommand)
    | operators u => exact congrArg (_ :: ·) (ih true)
    | word u => exact congrArg (_ :: ·) (ih false)

/-! ### Where pieces begin -/

theorem ofLine_cons (c : Char) (rest : Text) : ofLine (c :: rest) = add c (ofLine rest) := rfl

theorem add_of_delimiter {c : Char} (hc : isDelimiter c = true) (pieces : List Piece) :
    add c pieces = delimiter c :: pieces := by
  rw [add.eq_def, if_pos hc]

theorem add_of_operatorCharacter {c : Char} (hc : isOperatorCharacter c = true)
    {pieces : List Piece} (hpieces : ∀ t rest, pieces ≠ operators t :: rest) :
    add c pieces = operators [c] :: pieces := by
  have hdelimiter := isDelimiter_of_isOperatorCharacter hc
  rw [add.eq_def, hdelimiter, hc]
  cases pieces with
  | nil => rfl
  | cons piece rest =>
    cases piece with
    | delimiter d => rfl
    | operators t => exact absurd rfl (hpieces t rest)
    | word t => rfl

theorem add_of_word {c : Char} (hdelimiter : isDelimiter c = false)
    (hplain : isOperatorCharacter c = false) {pieces : List Piece}
    (hpieces : ∀ t rest, pieces ≠ word t :: rest) : add c pieces = word [c] :: pieces := by
  rw [add.eq_def, hdelimiter, hplain]
  cases pieces with
  | nil => rfl
  | cons piece rest =>
    cases piece with
    | delimiter d => rfl
    | operators t => rfl
    | word t => exact absurd rfl (hpieces t rest)

theorem add_word {c : Char} (hdelimiter : isDelimiter c = false)
    (hplain : isOperatorCharacter c = false) (t : Text) (rest : List Piece) :
    add c (word t :: rest) = word (c :: t) :: rest := by
  rw [add.eq_def, hdelimiter, hplain]
  rfl

theorem exists_ofLine_operators {c : Char} (hc : isOperatorCharacter c = true) (rest : Text) :
    ∃ t pieces, ofLine (c :: rest) = operators (c :: t) :: pieces := by
  have hdelimiter := isDelimiter_of_isOperatorCharacter hc
  rw [ofLine_cons, add.eq_def, hdelimiter, hc]
  cases ofLine rest with
  | nil => exact ⟨_, _, rfl⟩
  | cons piece pieces => cases piece <;> exact ⟨_, _, rfl⟩

theorem exists_ofLine_word {c : Char} (hdelimiter : isDelimiter c = false)
    (hplain : isOperatorCharacter c = false) (rest : Text) :
    ∃ t pieces, ofLine (c :: rest) = word (c :: t) :: pieces := by
  rw [ofLine_cons, add.eq_def, hdelimiter, hplain]
  cases ofLine rest with
  | nil => exact ⟨_, _, rfl⟩
  | cons piece pieces => cases piece <;> exact ⟨_, _, rfl⟩

theorem ofLine_ne_operators {t : Text} (ht : ∀ c, t.head? = some c → isOperatorCharacter c = false)
    (u : Text) (rest : List Piece) : ofLine t ≠ operators u :: rest := by
  cases t with
  | nil => simp [ofLine]
  | cons c t =>
    have hplain : isOperatorCharacter c = false := ht c rfl
    cases hdelimiter : isDelimiter c with
    | true => simp [ofLine_cons, add_of_delimiter hdelimiter]
    | false =>
      obtain ⟨v, pieces, hword⟩ := exists_ofLine_word hdelimiter hplain t
      simp [hword]

theorem ofLine_ne_word {t : Text} (ht : ∀ c, t.head? = some c → isOperatorCharacter c = true)
    (u : Text) (rest : List Piece) : ofLine t ≠ word u :: rest := by
  cases t with
  | nil => simp [ofLine]
  | cons c t =>
    obtain ⟨v, pieces, hoperators⟩ := exists_ofLine_operators (ht c rfl) t
    simp [hoperators]

/-! ### Where a line is split -/

theorem ofLine_text_append (operator : Operator) {t : Text}
    (ht : ∀ c, t.head? = some c → isOperatorCharacter c = false) :
    ofLine (operator.text ++ t) = operators operator.text :: ofLine t := by
  have hadd {c : Char} (hc : isOperatorCharacter c = true) :
      add c (ofLine t) = operators [c] :: ofLine t :=
    add_of_operatorCharacter hc (ofLine_ne_operators ht)
  cases operator with
  | always => exact hadd (rfl : isOperatorCharacter ';' = true)
  | onSuccess =>
    show add '&' (add '&' (ofLine t)) = _
    rw [hadd (rfl : isOperatorCharacter '&' = true)]
    rfl
  | onFailure =>
    show add '|' (add '|' (ofLine t)) = _
    rw [hadd (rfl : isOperatorCharacter '|' = true)]
    rfl

theorem add_append {pieces : List Piece} (h : pieces ≠ []) (c : Char) (more : List Piece) :
    add c (pieces ++ more) = add c pieces ++ more := by
  obtain ⟨piece, rest, rfl⟩ := List.exists_cons_of_ne_nil h
  rw [List.cons_append, add.eq_def, add.eq_def]
  split
  · rfl
  · cases piece <;> split <;> rfl

theorem ofLine_ne_nil (c : Char) (t : Text) : ofLine (c :: t) ≠ [] := by
  intro hnil
  have htext := flatMap_text_ofLine (c :: t)
  rw [hnil] at htext
  simp at htext

theorem ofLine_append_of_isPlain {command t : Text} (h : IsPlain command)
    (ht : ∀ c, t.head? = some c → isOperatorCharacter c = true) :
    ofLine (command ++ t) = ofLine command ++ ofLine t := by
  induction command with
  | nil => rfl
  | cons c command ih =>
    rw [isPlain_cons] at h
    rw [List.cons_append, ofLine_cons, ofLine_cons, ih h.2]
    cases command with
    | cons d command => exact add_append (ofLine_ne_nil d command) c _
    | nil =>
      -- The last character of the command: what follows it is no part of its word.
      cases hdelimiter : isDelimiter c with
      | true =>
        rw [add_of_delimiter hdelimiter, add_of_delimiter hdelimiter]
        rfl
      | false =>
        rw [add_of_word hdelimiter h.1 (ofLine_ne_word (t := []) (by simp))]
        exact add_of_word hdelimiter h.1 (ofLine_ne_word ht)

/-- One command and the operator behind it are taken off a line. -/
theorem ofLine_write_cons {first next : Text} {operator : Operator} {rest : List (Operator × Text)}
    (hfirst : IsPlain first) (hnext : IsPlain next) (hblank : ¬IsBlank next) :
    ofLine (Chain.write { first, rest := (operator, next) :: rest }) =
      ofLine first ++ operators operator.text :: ofLine (Chain.write { first := next, rest }) := by
  have hbehind : ∀ c, (Chain.write { first := next, rest }).head? = some c →
      isOperatorCharacter c = false := by
    intro c hc
    cases next with
    | nil => exact absurd isBlank_nil hblank
    | cons d next =>
      obtain rfl : d = c := Option.some.inj hc
      exact (isPlain_cons.1 hnext).1
  have hoperator : ∀ c, (operator.text ++ Chain.write { first := next, rest }).head? = some c →
      isOperatorCharacter c = true := by
    intro c hc
    cases operator <;> exact Option.some.inj hc ▸ rfl
  rw [Chain.write_cons, ofLine_append_of_isPlain hfirst hoperator,
    ofLine_text_append operator hbehind]

/-! ### The words of a command -/

def word? : Piece → Option Text
  | word t => some t
  | _ => none

def operators? : Piece → Option Text
  | operators t => some t
  | _ => none

theorem filterMap_word?_ofLine {command : Text} (h : IsPlain command) :
    (ofLine command).filterMap word? = words command := by
  induction command with
  | nil => rfl
  | cons c command ih =>
    rw [isPlain_cons] at h
    have hrest := ih h.2
    rw [ofLine_cons]
    cases hc : isDelimiter c with
    | true =>
      rw [add_of_delimiter hc, words_cons_of_isDelimiter hc, ← hrest]
      rfl
    | false =>
      have hword : words [c] = [[c]] := words_of_isWord ⟨by simp, by simp [hc]⟩
      cases command with
      | nil =>
        rw [add_of_word hc h.1 (ofLine_ne_word (by simp)), hword]
        rfl
      | cons d command =>
        cases hd : isDelimiter d with
        | true =>
          have hwords : words (c :: d :: command) = [c] :: words (d :: command) := by
            rw [words_cons_of_isDelimiter hd, ← List.singleton_append, words_append_cons [c] hd, hword]
            rfl
          rw [hwords, ← hrest, ofLine_cons, add_of_delimiter hd, add_of_word hc h.1 (by simp)]
          rfl
        | false =>
          obtain ⟨t, pieces, hpieces⟩ := exists_ofLine_word hd (isPlain_cons.1 h.2).1 command
          rw [hpieces] at hrest ⊢
          rw [add_word hc h.1, words_cons_cons hc hd, ← hrest]
          rfl

theorem filterMap_operators?_ofLine {command : Text} (h : IsPlain command) :
    (ofLine command).filterMap operators? = [] := by
  induction command with
  | nil => rfl
  | cons c command ih =>
    rw [isPlain_cons] at h
    rw [ofLine_cons, ← ih h.2, add.eq_def, h.1]
    split
    · rfl
    · cases ofLine command with
      | nil => rfl
      | cons piece rest => cases piece <;> rfl

/-! ### The styles of a line -/

/-- The words of a command with their styles: the first is its name. -/
def namedWords (isCommand : Bool) : List Text → List (Text × Option Style)
  | [] => []
  | name :: arguments =>
    (name, wordStyle? isCommand name) :: arguments.map fun word => (word, wordStyle? false word)

theorem filterMap_word?_styled (isCommand : Bool) {pieces : List Piece}
    (h : pieces.filterMap operators? = []) :
    (styled isCommand pieces).filterMap Painted.word? =
      namedWords isCommand (pieces.filterMap word?) := by
  induction pieces generalizing isCommand with
  | nil => rfl
  | cons piece rest ih =>
    cases piece with
    | delimiter c => exact ih isCommand h
    | operators t => simp [operators?] at h
    | word t =>
      have hrest := ih false h
      have harguments : namedWords false (rest.filterMap word?) =
          (rest.filterMap word?).map fun word => (word, wordStyle? false word) := by
        cases rest.filterMap word? <;> rfl
      rw [harguments] at hrest
      exact congrArg ((t, wordStyle? isCommand t) :: ·) hrest

theorem wordStyle?_ne_operatorStyle (isCommand : Bool) (t : Text) :
    wordStyle? isCommand t ≠ some operatorStyle := by
  rw [wordStyle?]
  split
  · decide
  · split
    · decide
    · split <;> decide

/-- Operators and nothing else are painted in the style of operators. -/
theorem filter_operatorStyle_styled (isCommand : Bool) (pieces : List Piece) :
    ((styled isCommand pieces).filter fun painted => painted.style? = some operatorStyle).map
        (fun painted => painted.piece.text) =
      pieces.filterMap operators? := by
  induction pieces generalizing isCommand with
  | nil => rfl
  | cons piece rest ih =>
    cases piece with
    | delimiter c => exact ih isCommand
    | operators t =>
      rw [styled, List.filter_cons_of_pos (by simp), List.map_cons, ih true]
      rfl
    | word t =>
      rw [styled, List.filter_cons_of_neg (by simpa using wordStyle?_ne_operatorStyle isCommand t),
        ih false]
      rfl

/-- Words and nothing else are painted in the style of command names. -/
theorem filter_commandStyle_styled (isCommand : Bool) (pieces : List Piece) :
    ((styled isCommand pieces).filter fun painted => painted.style? = some commandStyle).map
        (fun painted => painted.piece.text) =
      (((styled isCommand pieces).filterMap Painted.word?).filter fun word =>
        word.2 = some commandStyle).map Prod.fst := by
  induction pieces generalizing isCommand with
  | nil => rfl
  | cons piece rest ih =>
    cases piece with
    | delimiter c => exact ih isCommand
    | operators t => exact ih true
    | word t =>
      by_cases hstyle : wordStyle? isCommand t = some commandStyle
      · simpa [styled, Painted.word?, hstyle, text] using ih false
      · simpa [styled, Painted.word?, hstyle] using ih false

theorem wordStyle?_false_ne_commandStyle (t : Text) :
    wordStyle? false t ≠ some commandStyle := by
  rw [wordStyle?, if_neg Bool.false_ne_true]
  split
  · decide
  · split <;> decide

theorem filter_commandStyle_namedWords (words : List Text) :
    ((namedWords true words).filter fun word => word.2 = some commandStyle).map Prod.fst =
      words.head?.toList := by
  cases words with
  | nil => rfl
  | cons name arguments =>
    have harguments : (arguments.map fun word => (word, wordStyle? false word)).filter
        (fun word => word.2 = some commandStyle) = [] := by
      simp [List.filter_map, wordStyle?_false_ne_commandStyle]
    have hname : wordStyle? true name = some commandStyle := rfl
    rw [namedWords, List.filter_cons_of_pos (by simp [hname]), harguments]
    rfl

/-! ### The line as a whole -/

theorem filterMap_word?_styled_write {chain : Chain} (h : chain.IsJoined) :
    (styled true (ofLine chain.write)).filterMap Painted.word? =
      chain.commands.flatMap fun command => namedWords true (words command) := by
  obtain ⟨first, rest⟩ := chain
  have hwords {command : Text} (hplain : IsPlain command) :
      (styled true (ofLine command)).filterMap Painted.word? = namedWords true (words command) := by
    rw [filterMap_word?_styled true (filterMap_operators?_ofLine hplain),
      filterMap_word?_ofLine hplain]
  induction rest generalizing first with
  | nil =>
    rw [Chain.write_single, hwords h.1]
    simp [Chain.commands]
  | cons step rest ih =>
    obtain ⟨operator, next⟩ := step
    obtain ⟨hfirst, hsteps⟩ := h
    obtain ⟨⟨hnext, hblank⟩, hrest⟩ := List.forall_mem_cons.1 hsteps
    rw [ofLine_write_cons hfirst hnext hblank, styled_append_operators, List.filterMap_append,
      hwords hfirst]
    exact congrArg (namedWords true (words first) ++ ·) (ih next ⟨hnext, hrest⟩)

theorem filterMap_operators?_write {chain : Chain} (h : chain.IsJoined) :
    (ofLine chain.write).filterMap operators? = chain.operators.map Operator.text := by
  obtain ⟨first, rest⟩ := chain
  induction rest generalizing first with
  | nil =>
    rw [Chain.write_single, filterMap_operators?_ofLine h.1]
    rfl
  | cons step rest ih =>
    obtain ⟨operator, next⟩ := step
    obtain ⟨hfirst, hsteps⟩ := h
    obtain ⟨⟨hnext, hblank⟩, hrest⟩ := List.forall_mem_cons.1 hsteps
    rw [ofLine_write_cons hfirst hnext hblank, List.filterMap_append,
      filterMap_operators?_ofLine hfirst]
    exact congrArg (operator.text :: ·) (ih next ⟨hnext, hrest⟩)

end Piece

/-- A line that passes the check is painted as it will be run. What is shown are its pieces in order, each painted or not, and the pieces make up the line. The words painted as command names are the first words of the commands that have one, what is painted as operators are the operators between the commands, and all words of all commands appear in order, those behind the first of a command painted as their first character says. -/
theorem Palette.line_paints_chain {line : Text} (h : misplaced? line = none) :
    let painted := Piece.styled true (Piece.ofLine line)
    coloured.line line = painted.flatMap Painted.shown ∧
      painted.flatMap (fun painted => painted.piece.text) = line ∧
      (painted.filter fun painted => painted.style? = some Piece.commandStyle).map
          (fun painted => painted.piece.text) =
        (Chain.split line).commands.filterMap (fun command => (words command).head?) ∧
      (painted.filter fun painted => painted.style? = some Piece.operatorStyle).map
          (fun painted => painted.piece.text) =
        (Chain.split line).operators.map Operator.text ∧
      painted.filterMap Painted.word? =
        (Chain.split line).commands.flatMap fun command =>
          match words command with
          | [] => []
          | name :: arguments =>
            (name, some Piece.commandStyle) :: arguments.map fun argument =>
              (argument,
                if argument.head? = some '$' then some Piece.variableStyle
                else if argument.head? = some '-' then some Piece.flagStyle
                else none) := by
  intro painted
  have hjoined : (Chain.split line).IsJoined := ((misplaced?_eq_none_iff_wellFormed line).1 h).1
  have hwords : painted.filterMap Painted.word? =
      (Chain.split line).commands.flatMap fun command => Piece.namedWords true (words command) := by
    have hwrite := Piece.filterMap_word?_styled_write hjoined
    rwa [Chain.write_split] at hwrite
  refine ⟨Piece.paint_eq_flatMap_shown true (Piece.ofLine line), ?_, ?_, ?_, ?_⟩
  · rw [← List.flatMap_map, Piece.map_piece_styled, Piece.flatMap_text_ofLine]
  · rw [Piece.filter_commandStyle_styled, hwords, List.filter_flatMap, List.map_flatMap]
    simp only [Piece.filter_commandStyle_namedWords]
    exact (List.filterMap_eq_flatMap_toList ..).symm
  · rw [Piece.filter_operatorStyle_styled]
    have hoperators := Piece.filterMap_operators?_write hjoined
    rwa [Chain.write_split] at hoperators
  · rw [hwords]
    apply List.flatMap_congr
    intro command _
    cases words command <;> rfl

/-- Commands side by side, an argument of each kind, and delimiters at both ends. -/
theorem Palette.line_paints_chain_arguments :
    let line := " a -b&&$c $d\te||f;g ".toList
    let painted := Piece.styled true (Piece.ofLine line)
    misplaced? line = none ∧
      (painted.filter fun painted => painted.style? = some Piece.commandStyle).map
          (fun painted => painted.piece.text) =
        ["a".toList, "$c".toList, "f".toList, "g".toList] ∧
      (painted.filter fun painted => painted.style? = some Piece.operatorStyle).map
          (fun painted => painted.piece.text) =
        ["&&".toList, "||".toList, ";".toList] ∧
      painted.filterMap Painted.word? =
        [("a".toList, some Piece.commandStyle), ("-b".toList, some Piece.flagStyle),
          ("$c".toList, some Piece.commandStyle), ("$d".toList, some Piece.variableStyle),
          ("e".toList, none), ("f".toList, some Piece.commandStyle),
          ("g".toList, some Piece.commandStyle)] := by
  intro line painted
  have hline : misplaced? line = none := by decide
  obtain ⟨-, -, hcommands, hoperators, hwords⟩ := line_paints_chain hline
  exact ⟨hline, hcommands, hoperators, hwords⟩

end CommandShell
