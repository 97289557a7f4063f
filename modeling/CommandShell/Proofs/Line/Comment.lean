import CommandShell.Line.Comment
import CommandShell.Proofs.Word

/-!
# Comments in texts that are put together

A comment hides everything behind it, so what stands behind a text with a comment does not matter. Behind a text without one the search goes on, and only the character before the seam is remembered.
-/

namespace CommandShell

theorem withoutCommentAfter_congr {left right : Option Char}
    (h : opensComment left = opensComment right) (t : Text) :
    withoutCommentAfter left t = withoutCommentAfter right t := by
  cases t with
  | nil => rfl
  | cons c t => rw [withoutCommentAfter, withoutCommentAfter, h]

theorem withoutCommentAfter_append_of_eq {previous : Option Char} {t : Text}
    (h : withoutCommentAfter previous t = t) (more : Text) :
    withoutCommentAfter previous (t ++ more) =
      t ++ withoutCommentAfter (t.getLast?.or previous) more := by
  induction t generalizing previous with
  | nil => rfl
  | cons c t ih =>
    rw [List.cons_append, withoutCommentAfter]
    rw [withoutCommentAfter] at h
    split at h
    · simp at h
    · next hopens =>
      rw [if_neg hopens, ih (List.cons.inj h).2, List.getLast?_cons]
      cases t.getLast? <;> rfl

theorem withoutCommentAfter_append_of_ne {previous : Option Char} {t : Text}
    (h : withoutCommentAfter previous t ≠ t) (more : Text) :
    withoutCommentAfter previous (t ++ more) = withoutCommentAfter previous t := by
  induction t generalizing previous with
  | nil => exact absurd rfl h
  | cons c t ih =>
    rw [List.cons_append, withoutCommentAfter, withoutCommentAfter]
    rw [withoutCommentAfter] at h
    split
    · rfl
    · next hopens =>
      rw [if_neg hopens] at h
      rw [ih fun heq => h (by rw [heq])]

/-- A `;` opens comments like the start of a line. -/
theorem withoutComment_append_semicolon {first : Text} (h : withoutComment first = first)
    (second : Text) :
    withoutComment (first ++ ';' :: second) = first ++ ';' :: withoutComment second := by
  rw [withoutComment, withoutCommentAfter_append_of_eq h, withoutCommentAfter, if_neg (by simp),
    withoutComment, withoutCommentAfter_congr (show opensComment (some ';') = opensComment none from rfl)]

theorem opensComment_eq_false {c : Char} (hdelimiter : isDelimiter c = false) (hsemicolon : c ≠ ';') :
    opensComment (some c) = false := by
  simp only [isDelimiter, Bool.or_eq_false_iff] at hdelimiter
  simp [opensComment, hdelimiter, hsemicolon]

theorem withoutCommentAfter_of_forall {t : Text} (h : ∀ c ∈ t, opensComment (some c) = false)
    {previous : Option Char} (hhead : t.head? = some '#' → opensComment previous = false) :
    withoutCommentAfter previous t = t := by
  induction t generalizing previous with
  | nil => rfl
  | cons c t ih =>
    rw [List.forall_mem_cons] at h
    have hopens : ¬(c = '#' ∧ opensComment previous = true) := by
      intro hcomment
      have hclosed := hhead (by rw [hcomment.1]; rfl)
      rw [hclosed] at hcomment
      exact absurd hcomment.2 (by decide)
    rw [withoutCommentAfter, if_neg hopens, ih h.2 fun _ => h.1]

theorem withoutCommentAfter_joined {pieces : List Text}
    (h : ∀ piece ∈ pieces, ∀ previous, withoutCommentAfter previous piece = piece)
    (previous : Option Char) :
    withoutCommentAfter previous (Text.joined [' '] pieces) = Text.joined [' '] pieces := by
  fun_induction Text.joined [' '] pieces generalizing previous with
  | case1 => rfl
  | case2 piece => exact h piece (by simp) previous
  | case3 piece rest _ ih =>
    rw [List.forall_mem_cons] at h
    rw [List.append_assoc, List.singleton_append, withoutCommentAfter_append_of_eq (h.1 previous),
      withoutCommentAfter, if_neg (by simp), ih h.2]

/-- Words with blanks between them have no comment if none of them begins with `#` or holds a `;`. -/
theorem withoutComment_joined {pieces : List Text}
    (h : ∀ piece ∈ pieces, IsWord piece ∧ piece.head? ≠ some '#' ∧ ';' ∉ piece) :
    withoutComment (Text.joined [' '] pieces) = Text.joined [' '] pieces := by
  refine withoutCommentAfter_joined (fun piece hmem previous => ?_) none
  obtain ⟨hword, hhead, hsemicolon⟩ := h piece hmem
  refine withoutCommentAfter_of_forall (fun c hc => ?_) fun hopens => absurd hopens hhead
  exact opensComment_eq_false (hword.2 c hc) fun heq => hsemicolon (heq ▸ hc)

end CommandShell
