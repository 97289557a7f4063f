import CommandShell.Text.Utf8

/-!
# Byte order

Names are listed in the order of their UTF-8 bytes. Sorting inserts one element after another before the first that is not smaller, so elements with equal keys keep their order.
-/

namespace CommandShell

/-- Puts an element with its key before the first that is not smaller. -/
def insertSorted {α : Type} (x : Bytes × α) : List (Bytes × α) → List (Bytes × α)
  | [] => [x]
  | y :: rest => if x.1 ≤ y.1 then x :: y :: rest else y :: insertSorted x rest

def sortedBy {α : Type} (key : α → Bytes) (xs : List α) : List α :=
  ((xs.map fun x => (key x, x)).foldr insertSorted []).map Prod.snd

theorem insertSorted_perm {α : Type} (x : Bytes × α) (xs : List (Bytes × α)) :
    (insertSorted x xs).Perm (x :: xs) := by
  induction xs with
  | nil => exact .refl _
  | cons y rest ih =>
    rw [insertSorted]
    split
    · exact .refl _
    · exact (ih.cons y).trans (.swap x y rest)

theorem foldr_insertSorted_perm {α : Type} (xs : List (Bytes × α)) :
    (xs.foldr insertSorted []).Perm xs := by
  induction xs with
  | nil => exact .refl _
  | cons x rest ih => exact (insertSorted_perm x _).trans (ih.cons x)

theorem sortedBy_perm {α : Type} (key : α → Bytes) (xs : List α) :
    (sortedBy key xs).Perm xs := by
  have h := (foldr_insertSorted_perm (xs.map fun x => (key x, x))).map Prod.snd
  simpa [sortedBy, Function.comp_def] using h

/-- The texts in byte order, each once. -/
def Text.sortedSet (texts : List Text) : List Text :=
  sortedBy Text.utf8 texts.eraseDups

end CommandShell
