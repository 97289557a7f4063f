import CommandShell.Evaluation
import CommandShell.Proofs.Line.Splitting
import CommandShell.Proofs.Word

/-!
# What the check accepts

The check of a line and the splitting of a line are two scans that know nothing of each other: one counts the characters of an operator as they come, the other looks one character ahead. They agree nevertheless. A line passes the check exactly if splitting leaves no operator character behind in a command, and leaves a command without words only where it is the only one.

The splitting is put together from the end of the line, so the agreement is proved for every end of a line, together with what the check remembers of the part before it. `Scanned.Admits` says which chains may follow such a memory. A lone `&` or `|` is the one memory that is left out: nothing but its twin, right behind it, may follow.
-/

namespace CommandShell

theorem isDelimiter_of_isOperatorCharacter {c : Char} (h : isOperatorCharacter c = true) :
    isDelimiter c = false := by
  rcases isOperatorCharacter_iff.1 h with rfl | rfl | rfl <;> rfl

/-- A character that a word goes on with: it neither ends the word nor belongs to an operator. -/
def continuesWord (c : Char) : Bool :=
  !isDelimiter c && !isOperatorCharacter c

/-- No character of an operator. -/
def IsPlain (t : Text) : Prop :=
  ∀ c ∈ t, isOperatorCharacter c = false

@[simp]
theorem isPlain_nil : IsPlain [] := by
  simp [IsPlain]

@[simp]
theorem isPlain_cons {c : Char} {t : Text} :
    IsPlain (c :: t) ↔ isOperatorCharacter c = false ∧ IsPlain t := by
  simp [IsPlain]

instance (t : Text) : Decidable (IsPlain t) :=
  decidable_of_iff (t.all (fun c => !isOperatorCharacter c) = true) (by simp [IsPlain])

theorem isPlain_joined {pieces : List Text} (h : ∀ piece ∈ pieces, IsPlain piece) :
    IsPlain (Text.joined [' '] pieces) := by
  fun_induction Text.joined [' '] pieces with
  | case1 => exact isPlain_nil
  | case2 piece => exact h piece (by simp)
  | case3 piece rest _ ih =>
    rw [List.forall_mem_cons] at h
    intro c hc
    rw [List.append_assoc, List.mem_append, List.singleton_append, List.mem_cons] at hc
    rcases hc with hpiece | rfl | hrest
    · exact h.1 c hpiece
    · rfl
    · exact ih h.2 c hrest

namespace Chain

theorem split_of_isPlain {t : Text} (h : IsPlain t) : split t = { first := t, rest := [] } := by
  induction t with
  | nil => rfl
  | cons c t ih =>
    rw [isPlain_cons] at h
    rw [split_character (by simp [h.1]), ih h.2]
    rfl

/-- The commands are plain, and those behind operators have words. -/
def IsJoined (chain : Chain) : Prop :=
  IsPlain chain.first ∧ ∀ step ∈ chain.rest, IsPlain step.2 ∧ ¬IsBlank step.2

/-- The chain of a line that passes the check. -/
def WellFormed (chain : Chain) : Prop :=
  chain.IsJoined ∧ (chain.rest = [] ∨ ¬IsBlank chain.first)

theorem isJoined_addOperator (operator : Operator) (chain : Chain) :
    (chain.addOperator operator).IsJoined ↔ chain.IsJoined ∧ ¬IsBlank chain.first := by
  simp only [IsJoined, addOperator, isPlain_nil, true_and, List.forall_mem_cons]
  constructor
  · rintro ⟨⟨hplain, hblank⟩, hrest⟩
    exact ⟨⟨hplain, hrest⟩, hblank⟩
  · rintro ⟨⟨hplain, hrest⟩, hblank⟩
    exact ⟨⟨hplain, hblank⟩, hrest⟩

theorem isJoined_addCharacter (c : Char) (chain : Chain) :
    (chain.addCharacter c).IsJoined ↔ isOperatorCharacter c = false ∧ chain.IsJoined := by
  simp only [IsJoined, addCharacter, isPlain_cons, and_assoc]

theorem wellFormed_iff (chain : Chain) :
    chain.WellFormed ↔
      (∀ command ∈ chain.commands, IsPlain command) ∧
        (chain.commands.length = 1 ∨ ∀ command ∈ chain.commands, ¬IsBlank command) := by
  simp only [WellFormed, IsJoined, commands, List.forall_mem_cons, List.length_cons, List.length_map,
    List.forall_mem_map, Nat.add_eq_right, List.length_eq_zero_iff]
  constructor
  · rintro ⟨⟨hfirst, hrest⟩, hstart⟩
    refine ⟨⟨hfirst, fun step hstep => (hrest step hstep).1⟩, ?_⟩
    exact hstart.imp_right fun hblank => ⟨hblank, fun step hstep => (hrest step hstep).2⟩
  · rintro ⟨⟨hfirst, hplain⟩, hnil | ⟨hblank, hwords⟩⟩
    · exact ⟨⟨hfirst, by simp [hnil]⟩, .inl hnil⟩
    · exact ⟨⟨hfirst, fun step hstep => ⟨hplain step hstep, hwords step hstep⟩⟩, .inr hblank⟩

end Chain

namespace Scanned

/-- The first command of the chain may follow what was scanned: at the start a blank one must be the only one, behind an operator none is blank. -/
def AdmitsFirst : Scanned → Chain → Prop
  | nothing, chain => chain.rest = [] ∨ ¬IsBlank chain.first
  | word, _ => True
  | operator _ _ _, chain => ¬IsBlank chain.first

def Admits (scanned : Scanned) (chain : Chain) : Prop :=
  chain.IsJoined ∧ scanned.AdmitsFirst chain

/-- An operator may only follow a word, and its chain must go on as behind an operator. -/
theorem admits_addOperator (scanned : Scanned) (added : Operator) (chain : Chain) (symbol : Char)
    (start size : Nat) :
    scanned.Admits (chain.addOperator added) ↔
      scanned = word ∧ (operator symbol start size).Admits chain := by
  simp only [Admits, Chain.isJoined_addOperator]
  cases scanned <;> simp [AdmitsFirst, Chain.addOperator]

theorem admits_addCharacter_of_isDelimiter (scanned : Scanned) {c : Char}
    (hc : isDelimiter c = true) (hplain : isOperatorCharacter c = false) (chain : Chain) :
    scanned.Admits (chain.addCharacter c) ↔ scanned.Admits chain := by
  simp only [Admits, Chain.isJoined_addCharacter]
  cases scanned <;> simp [AdmitsFirst, Chain.addCharacter, hc, hplain]

theorem not_admits_addCharacter (scanned : Scanned) {c : Char} (hc : isOperatorCharacter c = true)
    (chain : Chain) : ¬scanned.Admits (chain.addCharacter c) := by
  simp [Admits, Chain.isJoined_addCharacter, hc]

theorem admits_addCharacter (scanned : Scanned) {c : Char} (hdelimiter : isDelimiter c = false)
    (hplain : isOperatorCharacter c = false) (chain : Chain) :
    scanned.Admits (chain.addCharacter c) ↔ word.Admits chain := by
  simp only [Admits, Chain.isJoined_addCharacter]
  cases scanned <;> simp [AdmitsFirst, Chain.addCharacter, hdelimiter, hplain]

/-- Only a word admits an operator character, unless it completes a lone `&` or `|`. -/
theorem push?_of_loneStart? {scanned : Scanned} (hlone : scanned.loneStart? = none) (c : Char)
    (index : Nat) :
    scanned.push? c index = if scanned = word then some (operator c index 1) else none := by
  cases scanned with
  | nothing => rfl
  | word => rfl
  | operator symbol start size =>
    rw [push?, if_neg, if_neg (by simp)]
    rintro ⟨rfl, hsymbol, rfl, -⟩
    simp [loneStart?, hsymbol] at hlone

end Scanned

/-! ### One step of the check -/

theorem offenceFrom_delimiter {c : Char} (hc : isDelimiter c = true) (scanned : Scanned)
    (index : Nat) (rest : Text) :
    offenceFrom scanned index (c :: rest) = offenceFrom scanned (index + 1) rest := by
  rw [offenceFrom, if_pos hc]

theorem offenceFrom_operatorCharacter {c : Char} (hc : isOperatorCharacter c = true)
    (scanned : Scanned) (index : Nat) (rest : Text) :
    offenceFrom scanned index (c :: rest) =
      match scanned.push? c index with
      | some next => offenceFrom next (index + 1) rest
      | none => some index := by
  have hdelimiter := isDelimiter_of_isOperatorCharacter hc
  rw [offenceFrom]
  exact (if_neg (by simp [hdelimiter])).trans (if_pos hc)

theorem offenceFrom_word {c : Char} (hdelimiter : isDelimiter c = false)
    (hplain : isOperatorCharacter c = false) (scanned : Scanned) (index : Nat) (rest : Text) :
    offenceFrom scanned index (c :: rest) =
      match scanned.loneStart? with
      | some start => some start
      | none => offenceFrom .word (index + 1) rest := by
  rw [offenceFrom]
  exact (if_neg (by simp [hdelimiter])).trans (if_neg (by simp [hplain]))

/-- Behind anything but a word, an operator character offends where it stands. -/
theorem offenceFrom_operatorCharacter_eq_none_iff {c : Char} (hc : isOperatorCharacter c = true)
    {scanned : Scanned} (hlone : scanned.loneStart? = none) (index : Nat) (rest : Text) :
    offenceFrom scanned index (c :: rest) = none ↔
      scanned = .word ∧ offenceFrom (.operator c index 1) (index + 1) rest = none := by
  rw [offenceFrom_operatorCharacter hc, Scanned.push?_of_loneStart? hlone]
  by_cases hword : scanned = .word
  · simp [hword]
  · simp [hword]

/-- A lone `&` or `|` offends, whatever follows it other than its twin. -/
theorem offenceFrom_lone {symbol : Char} (hsymbol : symbol ≠ ';') {start index : Nat} (t : Text)
    (hindex : start < index) (htwin : start + 1 < index ∨ t.head? ≠ some symbol) :
    offenceFrom (.operator symbol start 1) index t ≠ none := by
  induction t generalizing index with
  | nil => simp [offenceFrom]
  | cons c rest ih =>
    cases hdelimiter : isDelimiter c with
    | true =>
      rw [offenceFrom_delimiter hdelimiter]
      exact ih (by omega) (.inl (by omega))
    | false =>
      cases hoperator : isOperatorCharacter c with
      | true =>
        have hpush : (Scanned.operator symbol start 1).push? c index = none := by
          rw [Scanned.push?, if_neg]
          rintro ⟨rfl, -, -, rfl⟩
          simp at htwin
        rw [offenceFrom_operatorCharacter hoperator, hpush]
        simp
      | false =>
        rw [offenceFrom_word hdelimiter hoperator]
        simp [Scanned.loneStart?, hsymbol]

theorem tokenAt_eq (t : Text) (index : Nat) :
    tokenAt t index =
      if t[index]? = some ';' then
        if (index ≠ 0 ∧ t[index - 1]? = some ';') ∨ t[index + 1]? = some ';' then [';', ';'] else [';']
      else if t[index]? = some '&' then
        if t[index + 1]? = some '&' then ['&', '&'] else ['&']
      else if t[index + 1]? = some '|' then ['|', '|'] else ['|'] := by
  have hbefore : (if index = 0 then none else t[index - 1]?) = some ';' ↔
      index ≠ 0 ∧ t[index - 1]? = some ';' := by
    split <;> simp [*]
  rw [tokenAt]
  split
  · next hsemicolon => simp only [hsemicolon, hbefore, if_true]
  · next hand => simp [hand]
  · next hsemicolon hand =>
    rw [if_neg hsemicolon, if_neg hand]

/-! ### The two scans agree -/

/-- A character that opens no operator. -/
theorem offenceFrom_addCharacter {c : Char} {rest : Text} {chain : Chain}
    (hopens : isOperatorCharacter c = true → c ≠ ';' ∧ rest.head? ≠ some c)
    (ih : ∀ scanned : Scanned, scanned.loneStart? = none → ∀ index,
      offenceFrom scanned index rest = none ↔ scanned.Admits chain)
    {scanned : Scanned} (hlone : scanned.loneStart? = none) (index : Nat) :
    offenceFrom scanned index (c :: rest) = none ↔ scanned.Admits (chain.addCharacter c) := by
  cases hoperator : isOperatorCharacter c with
  | true =>
    -- A lone `&` or `|`: it stays in the command, and the check does not get past it.
    rw [offenceFrom_operatorCharacter_eq_none_iff hoperator hlone]
    have hlate := offenceFrom_lone (hopens hoperator).1 rest (Nat.lt_succ_self index)
      (.inr (hopens hoperator).2)
    simp [hlate, Scanned.not_admits_addCharacter scanned hoperator chain]
  | false =>
    cases hdelimiter : isDelimiter c with
    | true =>
      rw [offenceFrom_delimiter hdelimiter, ih scanned hlone,
        Scanned.admits_addCharacter_of_isDelimiter scanned hdelimiter hoperator]
    | false =>
      rw [offenceFrom_word hdelimiter hoperator, hlone, Scanned.admits_addCharacter scanned hdelimiter hoperator]
      exact ih .word rfl (index + 1)

/-- The two characters of `&&` or `||`. -/
theorem offenceFrom_twins_eq_none_iff {c : Char} (hc : isOperatorCharacter c = true) (hsymbol : c ≠ ';')
    {scanned : Scanned} (hlone : scanned.loneStart? = none) (index : Nat) (rest : Text) :
    offenceFrom scanned index (c :: c :: rest) = none ↔
      scanned = .word ∧ offenceFrom (.operator c index 2) (index + 2) rest = none := by
  rw [offenceFrom_operatorCharacter_eq_none_iff hc hlone, offenceFrom_operatorCharacter hc,
    Scanned.push?, if_pos ⟨rfl, hsymbol, rfl, rfl⟩]

theorem offenceFrom_eq_none_iff (line : Text) {scanned : Scanned}
    (hlone : scanned.loneStart? = none) (index : Nat) :
    offenceFrom scanned index line = none ↔ scanned.Admits (Chain.split line) := by
  fun_induction Chain.split line generalizing scanned index with
  | case1 =>
    cases scanned <;> simp [offenceFrom, Scanned.Admits, Scanned.AdmitsFirst, Chain.IsJoined]
  | case2 rest ih =>
    rw [offenceFrom_operatorCharacter_eq_none_iff rfl hlone, ih rfl,
      Scanned.admits_addOperator]
  | case3 rest ih =>
    rw [offenceFrom_twins_eq_none_iff rfl (by decide) hlone, ih rfl, Scanned.admits_addOperator]
  | case4 rest ih =>
    rw [offenceFrom_twins_eq_none_iff rfl (by decide) hlone, ih rfl, Scanned.admits_addOperator]
  | case5 c rest hsemicolon hand hor ih =>
    exact offenceFrom_addCharacter (Chain.opens_none hsemicolon hand hor)
      (fun scanned hlone index => ih hlone index) hlone index

theorem misplaced?_eq_none_iff_wellFormed (line : Text) :
    misplaced? line = none ↔ (Chain.split line).WellFormed := by
  rw [misplaced?, Option.map_eq_none_iff, offence?, offenceFrom_eq_none_iff line rfl]
  rfl

theorem misplaced?_of_isPlain {line : Text} (h : IsPlain line) : misplaced? line = none := by
  rw [misplaced?_eq_none_iff_wellFormed, Chain.split_of_isPlain h]
  exact ⟨⟨h, by simp⟩, .inl rfl⟩

theorem not_isBlank_iff {t : Text} : ¬IsBlank t ↔ ∃ c ∈ t, isDelimiter c = false := by
  simp [IsBlank]

theorem isPlain_iff {t : Text} : IsPlain t ↔ ∀ c ∈ t, c ≠ ';' ∧ c ≠ '&' ∧ c ≠ '|' := by
  simp [IsPlain, isOperatorCharacter, and_assoc]

/-- A line passes the check exactly if no command that it is split into has an operator character, and each has a word unless it is the only one. So what a session goes on to run is one blank command, or commands with words and without operator characters. -/
theorem misplaced?_eq_none_iff_commands [Children] (line : Text) :
    (misplaced? line = none ↔
      (∀ command ∈ (Chain.split line).commands, ∀ c ∈ command, c ≠ ';' ∧ c ≠ '&' ∧ c ≠ '|') ∧
        ((Chain.split line).commands.length = 1 ∨
          ∀ command ∈ (Chain.split line).commands, ∃ c ∈ command, isDelimiter c = false)) ∧
      (∀ command, (∃ c ∈ command, isDelimiter c = false) ↔ words command ≠ []) ∧
      ∀ (shell : Shell) (raw : Text), misplaced? (withoutComment raw) = none →
        shell.runLine raw =
            (shell.beginLine raw).runChain true (Chain.split (withoutComment raw)).first
              (Chain.split (withoutComment raw)).rest ∧
          ((∃ command, (Chain.split (withoutComment raw)).commands = [command] ∧
              words command = []) ∨
            ∀ command ∈ (Chain.split (withoutComment raw)).commands,
              words command ≠ [] ∧ ∀ c ∈ command, c ≠ ';' ∧ c ≠ '&' ∧ c ≠ '|') := by
  have hwords (command : Text) : (∃ c ∈ command, isDelimiter c = false) ↔ words command ≠ [] := by
    rw [Ne, words_eq_nil_iff, not_isBlank_iff]
  have hcheck (line : Text) : misplaced? line = none ↔
      (∀ command ∈ (Chain.split line).commands, ∀ c ∈ command, c ≠ ';' ∧ c ≠ '&' ∧ c ≠ '|') ∧
        ((Chain.split line).commands.length = 1 ∨
          ∀ command ∈ (Chain.split line).commands, ∃ c ∈ command, isDelimiter c = false) := by
    simp only [misplaced?_eq_none_iff_wellFormed, Chain.wellFormed_iff, isPlain_iff, not_isBlank_iff]
  refine ⟨hcheck line, hwords, fun shell raw hnone => ⟨?_, ?_⟩⟩
  · rw [Shell.runLine, hnone]
  · obtain ⟨hplain, hsingle | hblank⟩ := (hcheck _).1 hnone
    · obtain ⟨command, hcommand⟩ := List.length_eq_one_iff.1 hsingle
      rw [hcommand] at hplain ⊢
      by_cases hnil : words command = []
      · exact .inl ⟨command, rfl, hnil⟩
      · refine .inr fun other hother => ?_
        obtain rfl := List.mem_singleton.1 hother
        exact ⟨hnil, hplain other hother⟩
    · exact .inr fun command hcommand =>
        ⟨(hwords command).1 (hblank command hcommand), hplain command hcommand⟩

open Children.Performing

theorem misplaced?_eq_none_iff_commands_chain :
    misplaced? (withoutComment "a&&b ||\tc;d # e".toList) = none ∧
      (∀ command ∈ (Chain.split (withoutComment "a&&b ||\tc;d # e".toList)).commands,
        words command ≠ []) ∧
      misplaced? (withoutComment " # e".toList) = none ∧
      (∃ command, (Chain.split (withoutComment " # e".toList)).commands = [command] ∧
        words command = []) ∧
      misplaced? "a |&& b".toList ≠ none := by
  have hline := ((misplaced?_eq_none_iff_commands []).2.2
    { session := { args := [], environment := {}, processId := [] } }
    "a&&b ||\tc;d # e".toList (by decide)).2
  have hblank := ((misplaced?_eq_none_iff_commands []).2.2
    { session := { args := [], environment := {}, processId := [] } } " # e".toList (by decide)).2
  refine ⟨by decide, ?_, by decide, ?_, ?_⟩
  · rcases hline with ⟨command, hcommand, -⟩ | hwords
    · have hlength : (4 : Nat) = 1 := congrArg List.length hcommand
      exact absurd hlength (by decide)
    · exact fun command hmem => (hwords command hmem).1
  · rcases hblank with hsingle | hwords
    · exact hsingle
    · exact absurd (hwords [' '] (by decide)).1 (by decide)
  · intro hnone
    obtain ⟨hplain, -⟩ := (misplaced?_eq_none_iff_commands _).1.1 hnone
    exact absurd rfl (hplain "a |".toList (by decide) '|' (by decide)).2.2

end CommandShell
