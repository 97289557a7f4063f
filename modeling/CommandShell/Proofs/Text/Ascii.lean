import CommandShell.Proofs.Text.Utf8
import CommandShell.Proofs.Word

/-!
# Cutting bytes and cutting text

The byte of an ASCII character is found among the bytes of no other character. So bytes that are a text are cut at such a byte just where the text is cut at the character, and they begin or end with it if the text does.
-/

namespace CommandShell

/-! ### Several elements for the first stretch -/

theorem foldr_addToFirst_cons {α : Type} (xs first : List α) (others : List (List α)) :
    xs.foldr addToFirst (first :: others) = (xs ++ first) :: others := by
  induction xs with
  | nil => rfl
  | cons x xs ih => rw [List.foldr_cons, ih, addToFirst, List.cons_append]

theorem foldr_addToFirst_nil {α : Type} {xs : List α} (h : xs ≠ []) :
    xs.foldr addToFirst [] = [xs] := by
  rw [← List.dropLast_concat_getLast h, List.foldr_append, List.foldr_cons, List.foldr_nil,
    addToFirst, foldr_addToFirst_cons]

theorem records_append {α : Type} {isTerminator : α → Bool} {xs : List α}
    (h : ∀ x ∈ xs, isTerminator x = false) (ys : List α) :
    records isTerminator (xs ++ ys) = xs.foldr addToFirst (records isTerminator ys) := by
  induction xs with
  | nil => rfl
  | cons x xs ih =>
    rw [List.forall_mem_cons] at h
    rw [List.cons_append, records_cons, h.1, ih h.2]
    rfl

theorem fields_append {α : Type} {isSeparator : α → Bool} {xs : List α}
    (h : ∀ x ∈ xs, isSeparator x = false) (ys : List α) :
    fields isSeparator (xs ++ ys) = xs.foldr addToFirst (fields isSeparator ys) := by
  induction xs with
  | nil => rfl
  | cons x xs ih =>
    rw [List.forall_mem_cons] at h
    rw [List.cons_append, fields_cons, h.1, ih h.2]
    rfl

theorem map_utf8_addToFirst (c : Char) (stretches : List Text) :
    (addToFirst c stretches).map Text.utf8 =
      (String.utf8EncodeChar c).foldr addToFirst (stretches.map Text.utf8) := by
  cases stretches with
  | nil =>
    rw [List.map_nil, foldr_addToFirst_nil (utf8EncodeChar_ne_nil c)]
    simp [addToFirst, Text.utf8]
  | cons first others =>
    rw [List.map_cons, foldr_addToFirst_cons]
    rfl

/-! ### The byte of an ASCII character -/

section Ascii

variable {d : Char} {b : UInt8} (hd : String.utf8EncodeChar d = [b])
include hd

theorem mem_utf8EncodeChar_iff {c : Char} : b ∈ String.utf8EncodeChar c ↔ c = d := by
  have hsize : d.utf8Size = 1 := by rw [← String.length_utf8EncodeChar, hd, List.length_singleton]
  refine ⟨fun hmem => eq_of_mem_utf8EncodeChar hsize hmem ?_, ?_⟩
  · exact ((ofUInt8_eq_iff hsize hd).1).2 rfl
  · rintro rfl
    rw [hd, List.mem_singleton]

theorem mem_utf8_iff {t : Text} : b ∈ t.utf8 ↔ d ∈ t := by
  simp [Text.utf8, mem_utf8EncodeChar_iff hd]

theorem forall_mem_utf8EncodeChar {c : Char} (hc : c ≠ d) :
    ∀ byte ∈ String.utf8EncodeChar c, (byte == b) = false :=
  beq_eq_false_of_notMem fun hmem => hc ((mem_utf8EncodeChar_iff hd).1 hmem)

theorem records_utf8 (t : Text) :
    records (fun byte => byte == b) t.utf8 = (records (fun c => c == d) t).map Text.utf8 := by
  induction t with
  | nil => rfl
  | cons c t ih =>
    rw [Text.utf8_cons, records_cons]
    by_cases hc : c = d
    · subst hc
      rw [hd, List.singleton_append, records_cons, ih, if_pos (beq_self_eq_true b),
        if_pos (beq_self_eq_true c), List.map_cons]
      simp [Text.utf8, hd]
    · rw [records_append (forall_mem_utf8EncodeChar hd hc), ih, if_neg (by simpa using hc),
        map_utf8_addToFirst]

theorem fields_utf8 (t : Text) :
    fields (fun byte => byte == b) t.utf8 = (fields (fun c => c == d) t).map Text.utf8 := by
  induction t with
  | nil => rfl
  | cons c t ih =>
    rw [Text.utf8_cons, fields_cons]
    by_cases hc : c = d
    · subst hc
      rw [hd, List.singleton_append, fields_cons, ih, if_pos (beq_self_eq_true b),
        if_pos (beq_self_eq_true c), List.map_cons]
      rfl
    · rw [fields_append (forall_mem_utf8EncodeChar hd hc), ih, if_neg (by simpa using hc),
        map_utf8_addToFirst]

theorem head?_utf8_eq_some_iff {t : Text} : t.utf8.head? = some b ↔ t.head? = some d := by
  cases t with
  | nil => simp [Text.utf8]
  | cons c t =>
    obtain ⟨first, more, hbytes⟩ := List.exists_cons_of_ne_nil (utf8EncodeChar_ne_nil c)
    have hsize : d.utf8Size = 1 := by
      rw [← String.length_utf8EncodeChar, hd, List.length_singleton]
    rw [Text.utf8_cons, hbytes, List.cons_append, List.head?_cons, List.head?_cons, Option.some_inj,
      Option.some_inj]
    constructor
    · rintro rfl
      exact (mem_utf8EncodeChar_iff hd).1 (by simp [hbytes])
    · rintro rfl
      rw [hd] at hbytes
      exact (List.cons.inj hbytes).1.symm

theorem getLast?_utf8_eq_some_iff {t : Text} : t.utf8.getLast? = some b ↔ t.getLast? = some d := by
  rcases t.eq_nil_or_concat with rfl | ⟨t, c, rfl⟩
  · simp [Text.utf8]
  · rw [List.concat_eq_append, Text.utf8_append, List.getLast?_append, List.getLast?_concat, Option.some_inj]
    have hlast : Text.utf8 [c] = String.utf8EncodeChar c := by simp [Text.utf8]
    obtain ⟨last, hmem⟩ := Option.ne_none_iff_exists'.1
      (mt List.getLast?_eq_none_iff.1 (utf8EncodeChar_ne_nil c))
    rw [hlast, hmem, Option.some_or, Option.some_inj]
    constructor
    · rintro rfl
      exact (mem_utf8EncodeChar_iff hd).1 (List.mem_of_getLast? hmem)
    · rintro rfl
      simpa [hd] using hmem.symm

end Ascii

end CommandShell
