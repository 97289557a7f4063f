import CommandShell.Proofs.Word

/-!
# Words in their spacing

Cutting a command into words and writing words with delimiters around them undo each other. Starting from words it takes that none is empty or has a delimiter, and that two of them never touch. How many delimiters there are in a place, and which, leaves no trace in the words.

Starting from a command it takes nothing, so every text is its words in some spacing. The spacing is found going from one delimiter to the next: behind a word the delimiter opens a gap, which takes in all the space in front of the next word, or all the space that is left if there is no further word.
-/

namespace CommandShell

/-- The pieces in order with the gaps between them. -/
def Text.joinedBy : List Text → List Text → Text
  | _, [] => []
  | [], piece :: _ => piece
  | gap :: gaps, piece :: pieces => piece ++ gap ++ joinedBy gaps pieces

/-- The space around pieces of text: delimiters in front of the first and behind the last, and at least one delimiter between each two. -/
structure Spacing (pieces : List Text) where
  front : Text
  gaps : List Text
  back : Text
  isBlank_front : IsBlank front
  isBlank_gaps : ∀ gap ∈ gaps, gap ≠ [] ∧ IsBlank gap
  isBlank_back : IsBlank back
  -- Where there is no piece there is no gap either, only the front and the back.
  length_gaps : gaps.length = pieces.length - 1

namespace Spacing

variable {pieces : List Text}

/-- The pieces in their spacing. -/
def text (spacing : Spacing pieces) : Text :=
  spacing.front ++ Text.joinedBy spacing.gaps pieces ++ spacing.back

/-! ### From words to a command -/

/-- The first delimiter of a gap ends the word before it, and the others are in front of the next one. -/
theorem words_append_gap {word gap : Text} (hword : IsWord word) (hgap : gap ≠ [] ∧ IsBlank gap)
    (rest : Text) : words (word ++ gap ++ rest) = word :: words rest := by
  obtain ⟨c, others, rfl⟩ := List.exists_cons_of_ne_nil hgap.1
  obtain ⟨hc, hothers⟩ := isBlank_cons.1 hgap.2
  rw [List.append_assoc, List.cons_append, words_append_cons word hc, words_of_isWord hword,
    words_isBlank_append hothers, List.singleton_append]

theorem words_joinedBy {gaps : List Text} (hpieces : ∀ piece ∈ pieces, IsWord piece)
    (hgaps : ∀ gap ∈ gaps, gap ≠ [] ∧ IsBlank gap) (hlength : gaps.length = pieces.length - 1) :
    words (Text.joinedBy gaps pieces) = pieces := by
  fun_induction Text.joinedBy gaps pieces with
  | case1 => rfl
  | case2 piece rest =>
    have hrest : rest = [] := List.eq_nil_of_length_eq_zero hlength.symm
    rw [hrest, words_of_isWord (hpieces piece (by simp))]
  | case3 gap gaps piece pieces ih =>
    rw [List.forall_mem_cons] at hpieces hgaps
    simp only [List.length_cons] at hlength
    rw [words_append_gap hpieces.1 hgaps.1, ih hpieces.2 hgaps.2 (by omega)]

theorem words_text (hpieces : ∀ piece ∈ pieces, IsWord piece) (spacing : Spacing pieces) :
    words spacing.text = pieces := by
  rw [text, words_append_of_isBlank _ spacing.isBlank_back, words_isBlank_append spacing.isBlank_front,
    words_joinedBy hpieces spacing.isBlank_gaps spacing.length_gaps]

/-! ### From a command to its words -/

/-- At most one piece, and no space at all. -/
def tight (pieces : List Text) (h : pieces.length ≤ 1) : Spacing pieces where
  front := []
  gaps := []
  back := []
  isBlank_front := isBlank_nil
  isBlank_gaps := List.forall_mem_nil _
  isBlank_back := isBlank_nil
  length_gaps := (Nat.sub_eq_zero_of_le h).symm

theorem exists_text_eq_cons (spacing : Spacing pieces) {c : Char} (hc : isDelimiter c = true) :
    ∃ wider : Spacing pieces, wider.text = c :: spacing.text :=
  ⟨{ spacing with
      front := c :: spacing.front
      isBlank_front := isBlank_cons.2 ⟨hc, spacing.isBlank_front⟩ }, rfl⟩

theorem exists_text_eq_append (piece : Text) (spacing : Spacing pieces) {c : Char}
    (hc : isDelimiter c = true) :
    ∃ longer : Spacing (piece :: pieces), longer.text = piece ++ c :: spacing.text := by
  have hfront : IsBlank (c :: spacing.front) := isBlank_cons.2 ⟨hc, spacing.isBlank_front⟩
  cases pieces with
  | nil =>
    have hback : IsBlank (c :: spacing.front ++ spacing.back) :=
      List.forall_mem_append.2 ⟨hfront, spacing.isBlank_back⟩
    refine ⟨{ tight [piece] (Nat.le_refl 1) with
      back := c :: spacing.front ++ spacing.back
      isBlank_back := hback }, ?_⟩
    simp [text, tight, Text.joinedBy]
  | cons next others =>
    have hgaps : ∀ gap ∈ (c :: spacing.front) :: spacing.gaps, gap ≠ [] ∧ IsBlank gap :=
      List.forall_mem_cons.2 ⟨⟨List.cons_ne_nil _ _, hfront⟩, spacing.isBlank_gaps⟩
    refine ⟨{ spacing with
      front := []
      gaps := (c :: spacing.front) :: spacing.gaps
      isBlank_front := isBlank_nil
      isBlank_gaps := hgaps
      length_gaps := by simp [spacing.length_gaps] }, ?_⟩
    simp [text, Text.joinedBy]

theorem exists_text_eq (t : Text) : ∃ spacing : Spacing (words t), spacing.text = t := by
  induction t using field_induction isDelimiter with
  | last stretch hstretch =>
    by_cases hempty : stretch = []
    · rw [hempty, words_nil]
      exact ⟨tight [] (Nat.zero_le 1), rfl⟩
    · rw [words_of_isWord ⟨hempty, hstretch⟩]
      exact ⟨tight [stretch] (Nat.le_refl 1), by simp [text, tight, Text.joinedBy]⟩
  | cut stretch c rest hstretch hc ih =>
    obtain ⟨spacing, hspacing⟩ := ih
    rw [words_append_cons stretch hc]
    by_cases hempty : stretch = []
    · have hwider := spacing.exists_text_eq_cons hc
      rw [hspacing] at hwider
      rw [hempty]
      exact hwider
    · have hlonger := spacing.exists_text_eq_append stretch hc
      rw [hspacing] at hlonger
      rw [words_of_isWord ⟨hempty, hstretch⟩]
      exact hlonger

/-- There are five delimiters. The words of a command are not empty and have none of them. Any such words, with at least one delimiter between each two and any delimiters on either end, are the words of the text that they make up, and every command is made up of its words like this. The words on the two sides of a delimiter are read apart. -/
theorem words_inverts_text :
    (∀ c, isDelimiter c = true ↔ c ∈ [' ', '\t', '\r', '\n', '\x07']) ∧
      (∀ command : Text, ∀ word ∈ words command, IsWord word) ∧
      (∀ pieces : List Text, (∀ piece ∈ pieces, IsWord piece) →
        ∀ spacing : Spacing pieces, words spacing.text = pieces) ∧
      (∀ command : Text, ∃ spacing : Spacing (words command), spacing.text = command) ∧
      ∀ (left right : Text) (c : Char), isDelimiter c = true →
        words (left ++ [c] ++ right) = words left ++ words right := by
  refine ⟨?_, fun command word => isWord_of_mem_words, fun pieces => words_text, exists_text_eq, ?_⟩
  · intro c
    simp [isDelimiter_iff]
  · intro left right c hc
    rw [List.append_assoc, List.singleton_append, words_append_cons left hc]

/-- Quotes keep nothing together, and a space that is no delimiter does. -/
theorem words_inverts_text_quotes :
    let pieces := ["echo".toList, "\"a".toList, "b\u00a0c\"".toList]
    (∀ piece ∈ pieces, IsWord piece) ∧
      words "\t\r echo \x07\"a\n\nb\u00a0c\" ".toList = pieces ∧
      words ("echo \"a".toList ++ ['\x07'] ++ "\n".toList) = ["echo".toList, "\"a".toList] := by
  intro pieces
  obtain ⟨-, hwords, hback, -, happend⟩ := words_inverts_text
  have hpieces : ∀ piece ∈ pieces, IsWord piece :=
    hwords "echo \"a b\u00a0c\"".toList
  let spacing : Spacing pieces :=
    { front := "\t\r ".toList
      gaps := [" \x07".toList, "\n\n".toList]
      back := " ".toList
      isBlank_front := by simp [isDelimiter]
      isBlank_gaps := by simp [isDelimiter]
      isBlank_back := by simp [isDelimiter]
      length_gaps := rfl }
  exact ⟨hpieces, hback pieces hpieces spacing, happend _ _ '\x07' rfl⟩

end Spacing

end CommandShell
