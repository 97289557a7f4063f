import Mathlib.Data.List.DropRight
import CommandShell.Completion
import CommandShell.Proofs.Line.Grammar

/-!
# The place of a command name

Whether the word before the cursor is completed to a command name is decided by looking back from it: over the delimiters in front of it to an operator, or to the start of the line. Running the line goes the other way, from its start. The two agree on every line that could pass the check if the word went on.

What is behind the last operator of such a line is its last command, and it ends in the word that the cursor touches. The part of the command in front of this word is called the gap here. Looking back over the gap finds an operator exactly if the gap is blank, and the words of the command are those of the gap and the one before the cursor.
-/

namespace CommandShell

namespace Chain

def last (chain : Chain) : Text :=
  chain.commands.getLast (by simp [commands])

/-- What is in front of the last command is nothing or ends in an operator. -/
theorem exists_write_eq_append_last (chain : Chain) :
    ∃ front, chain.write = front ++ chain.last ∧
      ∀ c, front.getLast? = some c → isOperatorCharacter c = true := by
  obtain ⟨first, rest⟩ := chain
  induction rest generalizing first with
  | nil => exact ⟨[], write_single first, by simp⟩
  | cons step rest ih =>
    obtain ⟨operator, next⟩ := step
    obtain ⟨front, hwrite, hfront⟩ := ih next
    have hlast : last { first, rest := (operator, next) :: rest } = last { first := next, rest } := rfl
    refine ⟨first ++ (operator.text ++ front), ?_, ?_⟩
    · rw [write_cons, hwrite, hlast]
      simp
    · intro c hc
      cases hnil : front.getLast? with
      | some d =>
        have hd : (first ++ (operator.text ++ front)).getLast? = some d := by
          simp [List.getLast?_append, hnil]
        rw [hd] at hc
        exact hfront c (hnil.trans hc)
      | none =>
        rw [List.getLast?_eq_none_iff.1 hnil, List.append_nil] at hc
        cases operator <;> simp [Operator.text] at hc <;> exact hc ▸ rfl

theorem IsJoined.isPlain_last {chain : Chain} (h : chain.IsJoined) : IsPlain chain.last := by
  have hcommands : ∀ command ∈ chain.commands, IsPlain command := by
    rw [commands, List.forall_mem_cons, List.forall_mem_map]
    exact ⟨h.1, fun step hstep => (h.2 step hstep).1⟩
  exact hcommands chain.last (List.getLast_mem _)

end Chain

/-! ### Looking back -/

theorem Text.takeUtf8_append (before behind : Text) :
    takeUtf8 before.utf8Size (before ++ behind) = before := by
  induction before with
  | nil =>
    cases behind with
    | nil => rfl
    | cons c behind =>
      have hpos := c.utf8Size_pos
      have hsize : utf8Size [] = 0 := rfl
      rw [List.nil_append, takeUtf8, hsize, if_neg (by omega)]
  | cons c before ih =>
    rw [List.cons_append, takeUtf8, utf8Size_cons, if_pos (by omega), Nat.add_sub_cancel_left, ih]

/-- What is in front of the last characters that satisfy `p`. -/
theorem Text.take_length_sub_takeEnd (p : Char → Bool) (t : Text) :
    t.take (t.length - (t.takeEnd p).length) = t.rdropWhile p := by
  calc t.take (t.length - (t.takeEnd p).length)
      = (t.rdropWhile p ++ t.rtakeWhile p).rdrop (t.rtakeWhile p).length := by
        rw [List.rdropWhile_append_rtakeWhile]
        rfl
    _ = t.rdropWhile p := List.rdrop_append_length

namespace Cursor

theorem ofText_eq (before : Text) :
    ofText before =
      { context := before.rdropWhile fun c => !breaksWord c
        word := before.rtakeWhile fun c => !breaksWord c } := by
  rw [ofText, Text.take_length_sub_takeEnd]
  rfl

theorem context_append_word (before : Text) :
    (ofText before).context ++ (ofText before).word = before := by
  rw [ofText_eq]
  exact List.rdropWhile_append_rtakeWhile

theorem not_breaksWord_of_mem_word {before : Text} {c : Char} (h : c ∈ (ofText before).word) :
    breaksWord c = false := by
  rw [ofText_eq] at h
  simpa using List.mem_rtakeWhile_imp h

theorem not_breaksWord_of_mem_word_append {before : Text} {next c : Char}
    (hnext : breaksWord next = false) (h : c ∈ (ofText before).word ++ [next]) :
    breaksWord c = false := by
  rcases List.mem_append.1 h with hword | hlast
  · exact not_breaksWord_of_mem_word hword
  · rwa [List.mem_singleton.1 hlast]

theorem breaksWord_of_getLast?_context {before : Text} {c : Char}
    (h : (ofText before).context.getLast? = some c) : breaksWord c = true := by
  rw [ofText_eq] at h
  have hne : before.rdropWhile (fun c => !breaksWord c) ≠ [] := by
    intro hnil
    simp [hnil] at h
  have hlast := List.rdropWhile_last_not _ _ hne
  rw [List.getLast?_eq_some_getLast hne] at h
  rw [Option.some.inj h] at hlast
  simpa using hlast

/-- Looking back over the gap finds an operator or the start of the line exactly if the gap is blank. -/
theorem isCommandPosition_iff {front gap : Text} (word : Text)
    (hfront : ∀ c, front.getLast? = some c → isOperatorCharacter c = true) (hgap : IsPlain gap) :
    isCommandPosition { context := front ++ gap, word } = true ↔ IsBlank gap := by
  have hend (t : Text) (c : Char) : trimmedEnd isDelimiter (t ++ [c]) =
      if isDelimiter c then trimmedEnd isDelimiter t else t ++ [c] :=
    List.rdropWhile_concat isDelimiter t c
  rw [isCommandPosition]
  -- The look back takes characters off at the end, and so does the induction.
  induction gap using List.reverseRecOn with
  | nil =>
    rw [List.append_nil]
    rcases List.eq_nil_or_concat front with rfl | ⟨start, c, rfl⟩
    · simp [trimmedEnd]
    · have hoperator : isOperatorCharacter c = true := hfront c (by simp)
      have hdelimiter := isDelimiter_of_isOperatorCharacter hoperator
      rw [List.concat_eq_append, hend, hdelimiter]
      simp [hoperator]
  | append_singleton gap c ih =>
    have hplain : IsPlain gap ∧ isOperatorCharacter c = false := by
      constructor
      · intro d hd
        exact hgap d (by simp [hd])
      · exact hgap c (by simp)
    rw [← List.append_assoc, hend]
    cases hdelimiter : isDelimiter c with
    | true =>
      rw [if_pos rfl]
      refine (ih hplain.1).trans ?_
      simp [IsBlank, hdelimiter, or_imp, forall_and]
    | false =>
      simp [IsBlank, hdelimiter, hplain.2, or_imp, forall_and]

/-- The last command of a line that could go on ends in the word before the cursor. What is in front of this word is the gap. -/
theorem exists_gap {before : Text} {next : Char} (hnext : breaksWord next = false)
    (h : misplaced? (before ++ [next]) = none) :
    ∃ front gap, (ofText before).context = front ++ gap ∧
      (Chain.split (before ++ [next])).last = gap ++ ((ofText before).word ++ [next]) ∧
      (∀ c, front.getLast? = some c → isOperatorCharacter c = true) ∧ IsPlain gap ∧
      ∀ c, gap.getLast? = some c → isDelimiter c = true := by
  obtain ⟨front, hwrite, hfront⟩ := (Chain.split (before ++ [next])).exists_write_eq_append_last
  have hlast := ((misplaced?_eq_none_iff_wellFormed _).1 h).1.isPlain_last
  rw [Chain.write_split] at hwrite
  generalize (Chain.split (before ++ [next])).last = last at hwrite hlast
  have hseam : (ofText before).context ++ ((ofText before).word ++ [next]) = front ++ last := by
    rw [← List.append_assoc, context_append_word, hwrite]
  rcases List.append_eq_append_iff.1 hseam with ⟨excess, hcontext, hword⟩ | ⟨gap, hcontext, hword⟩
  · -- The word has no operator characters, so the front does not reach into it.
    have hexcess : excess = [] := by
      rcases List.eq_nil_or_concat excess with rfl | ⟨start, c, rfl⟩
      · rfl
      · have hoperator : isOperatorCharacter c = true := hfront c (by simp [hcontext])
        have hmem : c ∈ (ofText before).word ++ [next] := by simp [hword]
        have hbreaks := not_breaksWord_of_mem_word_append hnext hmem
        simp [breaksWord, hoperator] at hbreaks
    subst hexcess
    have hempty : (ofText before).context = front ++ [] := by simpa using hcontext.symm
    exact ⟨front, [], hempty, by simpa using hword.symm, hfront, by simp, by simp⟩
  · have hplain : IsPlain gap := fun c hc => hlast c (by simp [hword, hc])
    refine ⟨front, gap, hcontext, hword, hfront, hplain, ?_⟩
    intro c hc
    have hend : (ofText before).context.getLast? = some c := by
      simp [hcontext, List.getLast?_append, hc]
    have hbreaks := breaksWord_of_getLast?_context hend
    have hcharacter := hplain c (List.mem_of_getLast? hc)
    simpa [breaksWord, hcharacter] using hbreaks

/-- The words of the last command are those of the gap and the one before the cursor. -/
theorem words_gap_append {gap word : Text} (hgap : ∀ c, gap.getLast? = some c → isDelimiter c = true)
    (hword : IsWord word) : words (gap ++ word) = words gap ++ [word] := by
  rcases List.eq_nil_or_concat gap with rfl | ⟨start, c, rfl⟩
  · simpa using words_of_isWord hword
  · have hc : isDelimiter c = true := hgap c (by simp)
    have hblank : IsBlank [c] := by simp [hc]
    rw [List.concat_eq_append, List.append_assoc, List.singleton_append, words_append_cons start hc,
      words_append_of_isBlank start hblank, words_of_isWord hword]

theorem isWord_append {before : Text} {next : Char} (hnext : breaksWord next = false) :
    IsWord ((ofText before).word ++ [next]) := by
  refine ⟨by simp, ?_⟩
  intro c hc
  have hbreaks := not_breaksWord_of_mem_word_append hnext hc
  rw [breaksWord, Bool.or_eq_false_iff] at hbreaks
  exact hbreaks.1

end Cursor

/-- Completion and running agree on where a command name stands. On every line that would pass the check with one more letter behind the cursor, that letter ends the last word of the last command, and command names are proposed exactly if the word before the cursor has no `/` and no other word is in front of it in its command. -/
theorem Completer.complete_offers_commands (completer : Completer) (host : Host) {before : Text}
    (behind : Text) (h : misplaced? (before ++ ['x']) = none) :
    let cursor := Cursor.ofText before
    before = cursor.context ++ cursor.word ∧
      ∃ earlier,
        words (Chain.split (before ++ ['x'])).last = earlier ++ [cursor.word ++ ['x']] ∧
          completer.complete host (before ++ behind) before.utf8Size =
            (cursor.context.utf8Size,
              if '/' ∉ cursor.word ∧ earlier = [] then completer.commandCandidates cursor.word
              else host.pathCandidates cursor.word) := by
  intro cursor
  have hletter : breaksWord 'x' = false := rfl
  obtain ⟨front, gap, hcontext, hlast, hfront, hplain, hgap⟩ := Cursor.exists_gap hletter h
  refine ⟨(Cursor.context_append_word before).symm, words gap, ?_, ?_⟩
  · rw [hlast]
    exact Cursor.words_gap_append hgap (Cursor.isWord_append hletter)
  · have hposition : cursor.isCommandPosition = true ↔ words gap = [] := by
      have hlook := Cursor.isCommandPosition_iff cursor.word hfront hplain
      rw [← hcontext] at hlook
      exact hlook.trans words_eq_nil_iff.symm
    have hcompletes : cursor.completesCommand = true ↔ '/' ∉ cursor.word ∧ words gap = [] := by
      rw [Cursor.completesCommand, Bool.and_eq_true, hposition, and_comm]
      simp
    rw [complete, Text.takeUtf8_append]
    simp only [← hcompletes]
    rfl

/-- Right behind an operator the empty word is completed to a command name. -/
theorem Completer.complete_offers_commands_behind_operator :
    let completer := ofSearchPath {} none
    misplaced? ("a b&&".toList ++ ['x']) = none ∧
      completer.complete {} "a b&&c".toList 5 = (5, completer.commandCandidates []) ∧
      completer.commandCandidates [] ≠ [] := by
  intro completer
  have hline : misplaced? ("a b&&".toList ++ ['x']) = none := by decide
  obtain ⟨-, earlier, hwords, hcomplete⟩ := complete_offers_commands completer {} "c".toList hline
  have hnone : earlier = [] := List.append_left_injective ["x".toList] hwords.symm
  rw [hnone] at hcomplete
  exact ⟨hline, hcomplete, by decide⟩

/-- It is not enough that the first word of the command has the same text as the word before the cursor with one more letter: with this letter behind `ex e` the command is `ex ex`, and yet paths are proposed. -/
theorem Completer.complete_offers_commands_not_by_text :
    ¬∀ (completer : Completer) (host : Host) (before behind : Text),
      misplaced? (before ++ ['x']) = none →
        completer.complete host (before ++ behind) before.utf8Size =
          ((Cursor.ofText before).context.utf8Size,
            if '/' ∉ (Cursor.ofText before).word ∧
                (words (Chain.split (before ++ ['x'])).last).head? =
                  some ((Cursor.ofText before).word ++ ['x']) then
              completer.commandCandidates (Cursor.ofText before).word
            else host.pathCandidates (Cursor.ofText before).word) := by
  intro hclaim
  have hcandidates := hclaim (ofSearchPath {} none) {} "ex e".toList [] (by decide)
  exact absurd hcandidates (by decide)

end CommandShell
