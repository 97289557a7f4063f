import CommandShell.Word

/-!
# Words between delimiters

A delimiter ends the word before it and begins no word itself, so the words of a text that is cut at a delimiter are the words of the two parts. That delimiters at the end of a command do not matter, that a command without words is one of delimiters only, and that words with blanks between them are read as they were written, all follow from this.
-/

namespace CommandShell

theorem isDelimiter_iff {c : Char} :
    isDelimiter c = true ↔ c = ' ' ∨ c = '\t' ∨ c = '\r' ∨ c = '\n' ∨ c = '\x07' := by
  simp [isDelimiter, or_assoc]

/-- Delimiters only. -/
def IsBlank (t : Text) : Prop :=
  ∀ c ∈ t, isDelimiter c = true

@[simp]
theorem isBlank_nil : IsBlank [] := by
  simp [IsBlank]

@[simp]
theorem isBlank_cons {c : Char} {t : Text} : IsBlank (c :: t) ↔ isDelimiter c = true ∧ IsBlank t := by
  simp [IsBlank]

theorem addToFirst_append {α : Type} (x : α) {left : List (List α)} (hleft : left ≠ [])
    (right : List (List α)) : addToFirst x (left ++ right) = addToFirst x left ++ right := by
  cases left with
  | nil => exact absurd rfl hleft
  | cons first others => rfl

theorem fields_append_cons {α : Type} (isSeparator : α → Bool) (left : List α) {x : α}
    (hx : isSeparator x = true) (right : List α) :
    fields isSeparator (left ++ x :: right) = fields isSeparator left ++ fields isSeparator right := by
  induction left with
  | nil => rw [List.nil_append, fields_cons, if_pos hx, fields_nil, List.singleton_append]
  | cons y left ih =>
    rw [List.cons_append, fields_cons, fields_cons, ih]
    split
    · rfl
    · exact addToFirst_append y (fields_ne_nil isSeparator left) _

@[simp]
theorem words_nil : words [] = [] := rfl

theorem words_append_cons (left : Text) {c : Char} (hc : isDelimiter c = true) (right : Text) :
    words (left ++ c :: right) = words left ++ words right := by
  rw [words, fields_append_cons isDelimiter left hc, List.filter_append, ← words, ← words]

theorem words_cons_of_isDelimiter {c : Char} (hc : isDelimiter c = true) (t : Text) :
    words (c :: t) = words t := by
  rw [← List.nil_append (c :: t), words_append_cons [] hc, words_nil, List.nil_append]

theorem words_isBlank_append {blank : Text} (h : IsBlank blank) (t : Text) :
    words (blank ++ t) = words t := by
  induction blank with
  | nil => rfl
  | cons c blank ih =>
    rw [isBlank_cons] at h
    rw [List.cons_append, words_cons_of_isDelimiter h.1, ih h.2]

theorem words_eq_nil_of_isBlank {t : Text} (h : IsBlank t) : words t = [] := by
  rw [← List.append_nil t, words_isBlank_append h, words_nil]

theorem words_append_of_isBlank (t : Text) {blank : Text} (h : IsBlank blank) :
    words (t ++ blank) = words t := by
  cases blank with
  | nil => rw [List.append_nil]
  | cons c blank =>
    rw [isBlank_cons] at h
    rw [words_append_cons t h.1, words_eq_nil_of_isBlank h.2, List.append_nil]

/-- A character that is no delimiter belongs to the first stretch. -/
theorem words_cons_ne_nil {c : Char} (hc : isDelimiter c = false) (t : Text) : words (c :: t) ≠ [] := by
  obtain ⟨first, others, hfields⟩ := List.exists_cons_of_ne_nil (fields_ne_nil isDelimiter t)
  rw [words, fields_cons, hc, hfields]
  simp [addToFirst]

/-- A character in front of another one that is no delimiter belongs to the first word. -/
theorem words_cons_cons {c d : Char} (hc : isDelimiter c = false) (hd : isDelimiter d = false)
    (t : Text) : words (c :: d :: t) = addToFirst c (words (d :: t)) := by
  obtain ⟨first, others, hfields⟩ := List.exists_cons_of_ne_nil (fields_ne_nil isDelimiter t)
  rw [words, words, fields_cons, fields_cons, hc, hd, hfields]
  simp [addToFirst]

theorem words_eq_nil_iff {t : Text} : words t = [] ↔ IsBlank t := by
  refine ⟨fun h => ?_, words_eq_nil_of_isBlank⟩
  induction t with
  | nil => exact isBlank_nil
  | cons c t ih =>
    cases hc : isDelimiter c with
    | false => exact absurd h (words_cons_ne_nil hc t)
    | true =>
      rw [words_cons_of_isDelimiter hc] at h
      exact isBlank_cons.2 ⟨hc, ih h⟩

/-- What may be a word: it is not empty and has no delimiters. -/
def IsWord (t : Text) : Prop :=
  t ≠ [] ∧ ∀ c ∈ t, isDelimiter c = false

instance (t : Text) : Decidable (IsWord t) :=
  decidable_of_iff (t ≠ [] ∧ t.all (fun c => !isDelimiter c) = true) (by simp [IsWord])

section NotMem

variable {α : Type} [BEq α] [LawfulBEq α] {x : α} {xs : List α}

theorem beq_eq_false_of_notMem (h : x ∉ xs) : ∀ y ∈ xs, (y == x) = false := by
  intro y hy
  rw [beq_eq_false_iff_ne]
  rintro rfl
  exact h hy

theorem bne_eq_true_of_notMem (h : x ∉ xs) : ∀ y ∈ xs, (y != x) = true := by
  intro y hy
  rw [bne, beq_eq_false_of_notMem h y hy, Bool.not_false]

end NotMem

/-- A list has no separator, or it is a stretch without separators, a separator, and the rest. -/
@[elab_as_elim]
theorem field_induction {α : Type} (isSeparator : α → Bool) {motive : List α → Prop}
    (last : ∀ stretch, (∀ x ∈ stretch, isSeparator x = false) → motive stretch)
    (cut : ∀ stretch x rest, (∀ y ∈ stretch, isSeparator y = false) → isSeparator x = true →
      motive rest → motive (stretch ++ x :: rest))
    (xs : List α) : motive xs := by
  -- The induction is on what is still to be read, behind a stretch that has no separator so far.
  suffices h : ∀ stretch, (∀ x ∈ stretch, isSeparator x = false) → motive (stretch ++ xs) from
    h [] (List.forall_mem_nil _)
  induction xs with
  | nil =>
    intro stretch hstretch
    rw [List.append_nil]
    exact last stretch hstretch
  | cons x rest ih =>
    intro stretch hstretch
    cases hx : isSeparator x with
    | true => exact cut stretch x rest hstretch hx (ih [] (List.forall_mem_nil _))
    | false =>
      have hlonger : ∀ y ∈ stretch ++ [x], isSeparator y = false :=
        List.forall_mem_append.2 ⟨hstretch, List.forall_mem_singleton.2 hx⟩
      rw [← List.singleton_append, ← List.append_assoc]
      exact ih (stretch ++ [x]) hlonger

theorem fields_of_forall {α : Type} {isSeparator : α → Bool} {xs : List α}
    (h : ∀ x ∈ xs, isSeparator x = false) : fields isSeparator xs = [xs] := by
  induction xs with
  | nil => rfl
  | cons x xs ih =>
    rw [List.forall_mem_cons] at h
    rw [fields_cons, h.1, ih h.2]
    rfl

theorem eq_false_of_mem_fields {α : Type} {isSeparator : α → Bool} {xs stretch : List α}
    (h : stretch ∈ fields isSeparator xs) : ∀ x ∈ stretch, isSeparator x = false := by
  induction xs using field_induction isSeparator with
  | last field hfield =>
    rw [fields_of_forall hfield, List.mem_singleton] at h
    rwa [h]
  | cut field x rest hfield hx ih =>
    rw [fields_append_cons isSeparator field hx, fields_of_forall hfield, List.singleton_append,
      List.mem_cons] at h
    rcases h with rfl | hrest
    · exact hfield
    · exact ih hrest

theorem isWord_of_mem_words {command word : Text} (h : word ∈ words command) : IsWord word :=
  ⟨words_ne_nil h, eq_false_of_mem_fields (List.mem_filter.1 h).1⟩

theorem words_of_isWord {word : Text} (h : IsWord word) : words word = [word] := by
  rw [words, fields_of_forall h.2]
  simp [h.1]

theorem words_joined {pieces : List Text} (h : ∀ piece ∈ pieces, IsWord piece) :
    words (Text.joined [' '] pieces) = pieces := by
  fun_induction Text.joined [' '] pieces with
  | case1 => rfl
  | case2 piece => exact words_of_isWord (h piece (by simp))
  | case3 piece rest _ ih =>
    rw [List.forall_mem_cons] at h
    rw [List.append_assoc, List.singleton_append, words_append_cons piece rfl,
      words_of_isWord h.1, ih h.2]
    rfl

end CommandShell
