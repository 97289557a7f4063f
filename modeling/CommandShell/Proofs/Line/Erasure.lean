import CommandShell.Proofs.Line.Painting

/-!
# What painting leaves as it was

Painting puts escape sequences into a line and changes nothing else, so the line comes back when they are taken out again. A line that has no escape character itself cannot be damaged by this: a sequence begins at an escape character, and those of a painted line are the ones that painting put there. What a word has of `[`, digits and `m` does not matter.

The scan behind the painting takes one piece after the other off the line. Each piece has a character at least, so the scan ends after as many rounds as there are characters at the latest.
-/

namespace CommandShell

/-! ### Taking escape sequences out -/

/-- What is behind the escape sequence with which a text begins, if it begins with one. Between `[` and `m` stand code characters. -/
def behindEscape? (isCode : Char → Bool) : Text → Option Text
  | '\x1b' :: '[' :: rest =>
    match rest.dropWhile isCode with
    | 'm' :: behind => some behind
    | _ => none
  | _ => none

theorem length_behindEscape? {isCode : Char → Bool} {t behind : Text}
    (h : behindEscape? isCode t = some behind) : behind.length < t.length := by
  rw [behindEscape?.eq_def] at h
  split at h
  · next rest =>
    split at h
    · next found hrest =>
      have hle := (List.dropWhile_suffix isCode (l := rest)).length_le
      rw [hrest, Option.some.inj h, List.length_cons] at hle
      rw [List.length_cons, List.length_cons]
      omega
    · simp at h
  · simp at h

/-- The text without its escape sequences. -/
def withoutEscapes (isCode : Char → Bool) : Text → Text
  | [] => []
  | c :: rest =>
    match _h : behindEscape? isCode (c :: rest) with
    | some behind => withoutEscapes isCode behind
    | none => c :: withoutEscapes isCode rest
termination_by t => t.length
decreasing_by
  · exact length_behindEscape? _h
  · exact Nat.lt_succ_self _

section Erasure

variable {isCode : Char → Bool}

theorem withoutEscapes_of_behindEscape? {t behind : Text}
    (h : behindEscape? isCode t = some behind) :
    withoutEscapes isCode t = withoutEscapes isCode behind := by
  cases t with
  | nil => simp [behindEscape?] at h
  | cons c rest =>
    rw [withoutEscapes]
    split
    · next found hfound => rw [Option.some.inj (hfound.symm.trans h)]
    · next hnone =>
      rw [hnone] at h
      simp at h

theorem withoutEscapes_cons {c : Char} (h : c ≠ '\x1b') (rest : Text) :
    withoutEscapes isCode (c :: rest) = c :: withoutEscapes isCode rest := by
  have hnone : behindEscape? isCode (c :: rest) = none := by
    rw [behindEscape?.eq_def]
    split
    · next hescape => exact absurd (List.cons.inj hescape).1 h
    · rfl
  rw [withoutEscapes]
  split
  · next found hfound =>
    rw [hfound] at hnone
    simp at hnone
  · rfl

theorem withoutEscapes_append {t : Text} (h : '\x1b' ∉ t) (rest : Text) :
    withoutEscapes isCode (t ++ rest) = t ++ withoutEscapes isCode rest := by
  induction t with
  | nil => rfl
  | cons c t ih =>
    rw [List.mem_cons, not_or] at h
    rw [List.cons_append, withoutEscapes_cons (Ne.symm h.1), ih h.2, List.cons_append]

-- Which characters count as code is left open, as long as digits do and the end of a sequence does not.
variable (hdigits : ∀ c, Text.isDigit c = true → isCode c = true) (hend : isCode 'm' = false)
include hdigits hend

theorem withoutEscapes_escape {code : Text} (h : code.all Text.isDigit = true) (rest : Text) :
    withoutEscapes isCode (escape code ++ rest) = withoutEscapes isCode rest := by
  have hcode : ∀ c ∈ code, isCode c = true := fun c hc => hdigits c (List.all_eq_true.1 h c hc)
  apply withoutEscapes_of_behindEscape?
  show behindEscape? isCode ('\x1b' :: '[' :: (code ++ ['m'] ++ rest)) = some rest
  rw [behindEscape?, List.append_assoc, List.dropWhile_append_of_pos hcode, List.singleton_append,
    List.dropWhile_cons_of_neg (by simp [hend])]
  rfl

theorem withoutEscapes_paint (style : Style) {t : Text} (h : '\x1b' ∉ t) (rest : Text) :
    withoutEscapes isCode (style.paint t ++ rest) = t ++ withoutEscapes isCode rest := by
  obtain ⟨colour, isBold⟩ := style
  have hcolour : colour.code.all Text.isDigit = true := by cases colour <;> decide
  have hbold : withoutEscapes isCode
      ((if isBold then escape ['1'] else []) ++ (t ++ (escape ['0'] ++ rest))) =
        withoutEscapes isCode (t ++ (escape ['0'] ++ rest)) := by
    cases isBold with
    | true => exact withoutEscapes_escape hdigits hend (by decide) _
    | false => rfl
  rw [Style.paint, List.append_assoc, List.append_assoc, List.append_assoc,
    withoutEscapes_escape hdigits hend hcolour, hbold, withoutEscapes_append h,
    withoutEscapes_escape hdigits hend (by decide)]

theorem Piece.withoutEscapes_paintWord (isCommand : Bool) {t : Text} (h : '\x1b' ∉ t) (rest : Text) :
    withoutEscapes isCode (paintWord isCommand t ++ rest) = t ++ withoutEscapes isCode rest := by
  rw [paintWord]
  split
  · next style _ => exact withoutEscapes_paint hdigits hend style h rest
  · exact withoutEscapes_append h rest

theorem Piece.withoutEscapes_paint (isCommand : Bool) {pieces : List Piece}
    (h : '\x1b' ∉ pieces.flatMap text) :
    withoutEscapes isCode (paint isCommand pieces) = pieces.flatMap text := by
  induction pieces generalizing isCommand with
  | nil => rw [paint, withoutEscapes, List.flatMap_nil]
  | cons piece pieces ih =>
    rw [List.flatMap_cons, List.mem_append, not_or] at h
    rw [List.flatMap_cons]
    cases piece with
    | delimiter c =>
      have hc : c ≠ '\x1b' := by
        rintro rfl
        exact h.1 (List.mem_singleton_self _)
      rw [paint, withoutEscapes_cons hc, ih isCommand h.2]
      rfl
    | operators t =>
      have ht : '\x1b' ∉ t := h.1
      rw [paint, CommandShell.withoutEscapes_paint hdigits hend operatorStyle ht, ih true h.2]
      rfl
    | word t =>
      have ht : '\x1b' ∉ t := h.1
      rw [paint, withoutEscapes_paintWord hdigits hend isCommand ht, ih false h.2]
      rfl

end Erasure

/-! ### The scan as a loop -/

namespace Piece

/-- The longest piece with which a text begins, and what is behind it. -/
def first? : Text → Option (Piece × Text)
  | [] => none
  | c :: rest =>
    if isDelimiter c then some (delimiter c, rest)
    else if isOperatorCharacter c then
      some (operators (c :: rest.takeWhile isOperatorCharacter), rest.dropWhile isOperatorCharacter)
    else
      some (word (c :: rest.takeWhile continuesWord), rest.dropWhile continuesWord)

/-- The pieces that so many rounds of the scan take off a text, and what they leave of it. -/
def scan : Nat → Text → List Piece × Text
  | 0, t => ([], t)
  | rounds + 1, t =>
    match first? t with
    | none => ([], t)
    | some (piece, behind) =>
      let (pieces, rest) := scan rounds behind
      (piece :: pieces, rest)

theorem ofLine_operators {c : Char} (hc : isOperatorCharacter c = true) (rest : Text) :
    ofLine (c :: rest) =
      operators (c :: rest.takeWhile isOperatorCharacter) ::
        ofLine (rest.dropWhile isOperatorCharacter) := by
  induction rest generalizing c with
  | nil => exact add_of_operatorCharacter hc (ofLine_ne_operators (t := []) (by simp))
  | cons d rest ih =>
    cases hd : isOperatorCharacter d with
    | true =>
      rw [ofLine_cons, ih hd, List.takeWhile_cons_of_pos hd, List.dropWhile_cons_of_pos hd, add.eq_def,
        isDelimiter_of_isOperatorCharacter hc, hc]
      rfl
    | false =>
      have hnext : ∀ e, (d :: rest).head? = some e → isOperatorCharacter e = false := by
        intro e he
        rw [← Option.some.inj he, hd]
      rw [ofLine_cons, add_of_operatorCharacter hc (ofLine_ne_operators hnext),
        List.takeWhile_cons_of_neg (by simp [hd]), List.dropWhile_cons_of_neg (by simp [hd])]

theorem ofLine_word {c : Char} (hc : continuesWord c = true) (rest : Text) :
    ofLine (c :: rest) =
      word (c :: rest.takeWhile continuesWord) :: ofLine (rest.dropWhile continuesWord) := by
  have hplain {e : Char} (he : continuesWord e = true) :
      isDelimiter e = false ∧ isOperatorCharacter e = false := by
    simpa [continuesWord] using he
  induction rest generalizing c with
  | nil => exact add_of_word (hplain hc).1 (hplain hc).2 (ofLine_ne_word (t := []) (by simp))
  | cons d rest ih =>
    cases hd : continuesWord d with
    | true =>
      rw [ofLine_cons, ih hd, List.takeWhile_cons_of_pos hd, List.dropWhile_cons_of_pos hd,
        add_word (hplain hc).1 (hplain hc).2]
    | false =>
      have hpieces : ∀ t pieces, ofLine (d :: rest) ≠ word t :: pieces := by
        intro t pieces
        cases hdelimiter : isDelimiter d with
        | true => simp [ofLine_cons, add_of_delimiter hdelimiter]
        | false =>
          have hoperator : isOperatorCharacter d = true := by
            simpa [continuesWord, hdelimiter] using hd
          simp [ofLine_operators hoperator]
      rw [ofLine_cons, add_of_word (hplain hc).1 (hplain hc).2 hpieces,
        List.takeWhile_cons_of_neg (by simp [hd]), List.dropWhile_cons_of_neg (by simp [hd])]

/-- A round takes the first piece of the line off it. -/
theorem ofLine_of_first? {line behind : Text} {piece : Piece}
    (h : first? line = some (piece, behind)) :
    ofLine line = piece :: ofLine behind ∧ behind.length < line.length := by
  cases line with
  | nil => simp [first?] at h
  | cons c rest =>
    rw [first?] at h
    split at h
    · next hdelimiter =>
      obtain ⟨rfl, rfl⟩ := Prod.mk.inj (Option.some.inj h)
      exact ⟨add_of_delimiter hdelimiter _, Nat.lt_succ_self _⟩
    · next hdelimiter =>
      split at h
      · next hoperator =>
        obtain ⟨rfl, rfl⟩ := Prod.mk.inj (Option.some.inj h)
        have hle := (List.dropWhile_suffix isOperatorCharacter (l := rest)).length_le
        exact ⟨ofLine_operators hoperator rest, Nat.lt_succ_of_le hle⟩
      · next hoperator =>
        obtain ⟨rfl, rfl⟩ := Prod.mk.inj (Option.some.inj h)
        have hword : continuesWord c = true := by simp [continuesWord, hdelimiter, hoperator]
        have hle := (List.dropWhile_suffix continuesWord (l := rest)).length_le
        exact ⟨ofLine_word hword rest, Nat.lt_succ_of_le hle⟩

theorem first?_ne_none (c : Char) (rest : Text) : first? (c :: rest) ≠ none := by
  rw [first?]
  split
  · simp
  · split <;> simp

/-- The scan has nothing left after as many rounds as the line has characters. -/
theorem scan_of_length_le {rounds : Nat} {line : Text} (h : line.length ≤ rounds) :
    scan rounds line = (ofLine line, []) := by
  induction rounds generalizing line with
  | zero =>
    rw [List.length_eq_zero_iff.1 (Nat.le_zero.1 h)]
    rfl
  | succ rounds ih =>
    rw [scan]
    split
    · next hnone =>
      cases line with
      | nil => rfl
      | cons c rest => exact absurd hnone (first?_ne_none c rest)
    · next piece behind hfirst =>
      obtain ⟨hpieces, hshorter⟩ := ofLine_of_first? hfirst
      rw [ih (by omega), hpieces]

end Piece

/-- Painting changes nothing of a line but its colours. If the line has no escape character, then taking the escape sequences out of what is shown gives it back, whether it was painted or not, and whatever characters besides digits count as code between `[` and `m`. Of any line whatsoever the scan makes the pieces that are painted, and has nothing left after as many rounds as there are characters. -/
theorem Palette.withoutEscapes_line (palette : Palette) (line : Text) :
    ('\x1b' ∉ line →
        ∀ isCode : Char → Bool, (∀ c, Text.isDigit c = true → isCode c = true) →
          isCode 'm' = false → withoutEscapes isCode (palette.line line) = line) ∧
      ∀ rounds, line.length ≤ rounds →
        (Piece.scan rounds line).2 = [] ∧
          coloured.line line = Piece.paint true (Piece.scan rounds line).1 := by
  constructor
  · intro h isCode hdigits hend
    cases palette with
    | plain =>
      have hnothing : withoutEscapes isCode (line ++ []) = line ++ withoutEscapes isCode [] :=
        withoutEscapes_append h []
      rwa [withoutEscapes, List.append_nil] at hnothing
    | coloured =>
      have htext := Piece.flatMap_text_ofLine line
      have hpieces : '\x1b' ∉ (Piece.ofLine line).flatMap Piece.text := by rwa [htext]
      exact (Piece.withoutEscapes_paint hdigits hend true hpieces).trans htext
  · intro rounds hrounds
    rw [Piece.scan_of_length_le hrounds]
    exact ⟨rfl, rfl⟩

/-- Words that look like what is left of an escape sequence. -/
theorem Palette.withoutEscapes_line_brackets :
    let line := "[1m 0m;[m".toList
    coloured.line line =
        "\x1b[36m\x1b[1m[1m\x1b[0m 0m\x1b[33m\x1b[1m;\x1b[0m\x1b[36m\x1b[1m[m\x1b[0m".toList ∧
      withoutEscapes Text.isDigit (coloured.line line) = line ∧
      (Piece.scan line.length line).2 = [] := by
  intro line
  obtain ⟨herased, hscanned⟩ := withoutEscapes_line coloured line
  refine ⟨by decide, ?_, (hscanned line.length (Nat.le_refl _)).1⟩
  exact herased (by decide) Text.isDigit (fun _ hc => hc) (by decide)

end CommandShell
