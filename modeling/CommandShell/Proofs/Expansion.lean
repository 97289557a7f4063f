import Mathlib.Data.List.TakeWhile
import CommandShell.Expansion
import CommandShell.Proofs.Word

/-!
# Expansion in one pass

Expansion first lists what is to be replaced, as places in the bytes of a command, and then assembles the result from that list. Here it is shown to be one pass over the characters: at a `$` that begins a form the value comes out and the form is passed over, and anything else comes out as it is. What the pass is in the midst of is a number of characters to pass over, and what the assembly is in the midst of is the replacement at the head of its list. The two agree as long as that replacement ends where the passing over ends.

In one pass it is plain that no form reaches into delimiters, so delimiters behind a command stay behind its expansion, and words with blanks between them are expanded one by one.
-/

namespace CommandShell

/-- The text with its forms replaced, where the first `skip` characters belong to a form already replaced. -/
def Scope.replaceFrom (scope : Scope) (skip : Nat) : Text → Text
  | [] => []
  | c :: rest =>
    match skip with
    | skip + 1 => scope.replaceFrom skip rest
    | 0 =>
      if c = '$' then
        match scope.form? rest with
        | some (value, length) => value ++ scope.replaceFrom length rest
        | none => c :: scope.replaceFrom 0 rest
      else
        c :: scope.replaceFrom 0 rest

/-! ### The characters of a form -/

theorem utf8Size_of_isNameCharacter {c : Char} (h : isNameCharacter c = true) : c.utf8Size = 1 := by
  have hle : c.val ≤ 0x7F := by
    simp only [isNameCharacter, isNameStart, Text.isDigit, Bool.or_eq_true, Bool.and_eq_true,
      decide_eq_true_iff, beq_iff_eq] at h
    rcases h with ((⟨-, hz⟩ | ⟨-, hz⟩) | rfl) | ⟨-, hz⟩
    · exact UInt32.le_trans hz (by decide)
    · exact UInt32.le_trans hz (by decide)
    · decide
    · exact UInt32.le_trans hz (by decide)
  exact if_pos hle

theorem isNameCharacter_of_isDelimiter {c : Char} (h : isDelimiter c = true) :
    isNameCharacter c = false := by
  rcases isDelimiter_iff.1 h with rfl | rfl | rfl | rfl | rfl <;> rfl

namespace Text

theorem utf8Size_eq_length_of_forall {t : Text} (h : ∀ c ∈ t, c.utf8Size = 1) :
    t.utf8Size = t.length := by
  induction t with
  | nil => rfl
  | cons c t ih =>
    have hc := h c (List.mem_cons_self ..)
    rw [utf8Size_cons, hc, ih fun d hd => h d (List.mem_cons_of_mem c hd), List.length_cons]
    omega

theorem utf8Size_pos {t : Text} (h : t ≠ []) : 0 < t.utf8Size := by
  cases t with
  | nil => exact absurd rfl h
  | cons c t =>
    have := c.utf8Size_pos
    rw [utf8Size_cons]
    omega

end Text

namespace Scope

variable (scope : Scope)

/-- A form has at least one character behind its `$`, and these have one byte each. -/
theorem form?_bounds {rest value : Text} {length : Nat} (h : scope.form? rest = some (value, length)) :
    0 < length ∧ length ≤ rest.length ∧ Text.utf8Size (rest.take length) = length := by
  rw [form?.eq_def] at h
  split at h
  · simp at h
  · obtain ⟨-, rfl⟩ := Prod.mk.inj (Option.some.inj h)
    exact ⟨by simp, by simp, rfl⟩
  · obtain ⟨-, rfl⟩ := Prod.mk.inj (Option.some.inj h)
    exact ⟨by simp, by simp, rfl⟩
  · next c rest _ _ =>
    split at h
    · next hstart =>
      obtain ⟨-, rfl⟩ := Prod.mk.inj (Option.some.inj h)
      have hprefix : (c :: rest).takeWhile isNameCharacter <+: c :: rest :=
        List.takeWhile_prefix isNameCharacter
      have hall : ∀ d ∈ (c :: rest).takeWhile isNameCharacter, isNameCharacter d = true :=
        List.all_eq_true.1 List.all_takeWhile
      have hname : isNameCharacter c = true := by simp [isNameCharacter, hstart]
      refine ⟨by simp [hname], hprefix.length_le, ?_⟩
      rw [← List.prefix_iff_eq_take.1 hprefix]
      exact Text.utf8Size_eq_length_of_forall fun d hd =>
        utf8Size_of_isNameCharacter (hall d hd)
    · simp at h

/-! ### The assembly is the pass -/

theorem le_start_of_mem_replacementsFrom {position skip : Nat} {t : Text} {replacement : Replacement}
    (h : replacement ∈ scope.replacementsFrom position skip t) : position ≤ replacement.start := by
  induction t generalizing position skip with
  | nil => simp [replacementsFrom] at h
  | cons c rest ih =>
    cases skip with
    | succ skip =>
      have := ih h
      omega
    | zero =>
      rw [replacementsFrom] at h
      split at h
      · split at h
        · rcases List.mem_cons.1 h with rfl | h
          · exact Nat.le_refl _
          · have := ih h
            omega
        · have := ih h
          omega
      · have := ih h
        omega

/-- A character in front of all replacements comes out as it is. -/
theorem assembleFrom_cons {position : Nat} {replacements : List Replacement}
    (h : ∀ replacement ∈ replacements, position < replacement.start) (c : Char) (rest : Text) :
    assembleFrom position (c :: rest) replacements =
      c :: assembleFrom (position + c.utf8Size) rest replacements := by
  cases replacements with
  | nil => rw [assembleFrom_nil, assembleFrom_nil]
  | cons replacement others =>
    rw [assembleFrom, if_pos (h replacement (List.mem_cons_self ..))]

theorem assembleFrom_cons_replacementsFrom (position : Nat) (c : Char) (rest : Text) :
    assembleFrom position (c :: rest) (scope.replacementsFrom (position + c.utf8Size) 0 rest) =
      c :: assembleFrom (position + c.utf8Size) rest
        (scope.replacementsFrom (position + c.utf8Size) 0 rest) := by
  refine assembleFrom_cons (fun replacement hmem => ?_) c rest
  have hstart := scope.le_start_of_mem_replacementsFrom hmem
  have hsize := c.utf8Size_pos
  omega

/-- The second part is the assembly in the midst of a replacement that covers the next `skip + 1` characters. -/
theorem assembleFrom_replacementsFrom (t : Text) :
    (∀ position, assembleFrom position t (scope.replacementsFrom position 0 t) = scope.replaceFrom 0 t) ∧
      ∀ (position skip : Nat) (replacement : Replacement), replacement.start ≤ position →
        skip < t.length →
        replacement.start + replacement.size = position + Text.utf8Size (t.take (skip + 1)) →
        assembleFrom position t (replacement :: scope.replacementsFrom position (skip + 1) t) =
          replacement.value ++ scope.replaceFrom (skip + 1) t := by
  induction t with
  | nil => exact ⟨fun _ => rfl, fun _ _ _ _ hskip => absurd hskip (Nat.not_lt_zero _)⟩
  | cons c rest ih =>
    obtain ⟨ihOutside, ihInside⟩ := ih
    constructor
    · intro position
      have hliteral := scope.assembleFrom_cons_replacementsFrom position c rest
      rw [ihOutside] at hliteral
      rw [replacementsFrom, replaceFrom]
      by_cases hdollar : c = '$'
      · rw [if_pos hdollar, if_pos hdollar]
        cases hform : scope.form? rest with
        | none => exact hliteral
        | some form =>
          obtain ⟨value, length⟩ := form
          obtain ⟨hpos, hlength, hsize⟩ := scope.form?_bounds hform
          obtain ⟨skip, rfl⟩ : ∃ skip, length = skip + 1 := ⟨length - 1, by omega⟩
          have hone : c.utf8Size = 1 := by rw [hdollar]; rfl
          dsimp only
          rw [assembleFrom]
          dsimp only
          rw [if_neg (Nat.lt_irrefl _), if_pos (by omega)]
          exact ihInside _ skip _ (by dsimp only; omega) (by omega) (by dsimp only; omega)
      · rw [if_neg hdollar, if_neg hdollar]
        exact hliteral
    · intro position skip replacement hstart hskip hsize
      rw [List.take_succ_cons, Text.utf8Size_cons] at hsize
      rw [List.length_cons] at hskip
      rw [replacementsFrom, replaceFrom, assembleFrom, if_neg (by omega)]
      cases skip with
      | zero =>
        rw [List.take_zero] at hsize
        have hnil : Text.utf8Size [] = 0 := rfl
        rw [if_neg (by omega), ihOutside]
      | succ skip =>
        have hne : rest.take (skip + 1) ≠ [] := by
          intro hnil
          have hlength := congrArg List.length hnil
          rw [List.length_take, List.length_nil] at hlength
          omega
        have hmore := Text.utf8Size_pos hne
        rw [if_pos (by omega)]
        exact ihInside _ skip replacement (by omega) (by omega) (by omega)

theorem expand_eq_replaceFrom (command : Text) : scope.expand command = scope.replaceFrom 0 command :=
  (scope.assembleFrom_replacementsFrom command).1 0

/-! ### Delimiters in a command -/

theorem form?_delimiter {d : Char} (hd : isDelimiter d = true) (more : Text) :
    scope.form? (d :: more) = none := by
  rcases isDelimiter_iff.1 hd with rfl | rfl | rfl | rfl | rfl <;> rfl

theorem form?_name {c : Char} (hstatus : c ≠ '?') (hprocess : c ≠ '$') (rest : Text) :
    scope.form? (c :: rest) =
      if isNameStart c then
        some ((scope.valueOf ((c :: rest).takeWhile isNameCharacter)).getD [],
          ((c :: rest).takeWhile isNameCharacter).length)
      else none := by
  rw [form?.eq_def]
  split
  · next heq => simp at heq
  · next heq => exact absurd (List.cons.inj heq).1 hstatus
  · next heq => exact absurd (List.cons.inj heq).1 hprocess
  · next heq =>
    obtain ⟨rfl, rfl⟩ := List.cons.inj heq
    rfl

theorem takeWhile_name_append {d : Char} (hd : isDelimiter d = true) (t more : Text) :
    (t ++ d :: more).takeWhile isNameCharacter = t.takeWhile isNameCharacter := by
  induction t with
  | nil => simp [isNameCharacter_of_isDelimiter hd]
  | cons c t ih => rw [List.cons_append, List.takeWhile_cons, List.takeWhile_cons, ih]

/-- A form does not reach beyond a delimiter. -/
theorem form?_append_delimiter {d : Char} (hd : isDelimiter d = true) (rest more : Text) :
    scope.form? (rest ++ d :: more) = scope.form? rest := by
  cases rest with
  | nil => exact scope.form?_delimiter hd more
  | cons c rest =>
    by_cases hstatus : c = '?'
    · subst hstatus
      rfl
    · by_cases hprocess : c = '$'
      · subst hprocess
        rfl
      · have hname := takeWhile_name_append hd (c :: rest) more
        rw [List.cons_append] at hname ⊢
        rw [scope.form?_name hstatus hprocess, scope.form?_name hstatus hprocess, hname]

theorem replaceFrom_append_delimiter {d : Char} (hd : isDelimiter d = true) {skip : Nat} {t : Text}
    (hskip : skip ≤ t.length) (more : Text) :
    scope.replaceFrom skip (t ++ d :: more) =
      scope.replaceFrom skip t ++ d :: scope.replaceFrom 0 more := by
  induction t generalizing skip with
  | nil =>
    obtain rfl : skip = 0 := Nat.le_zero.1 hskip
    have hdollar : d ≠ '$' := by
      rintro rfl
      simp [isDelimiter] at hd
    have hstep : scope.replaceFrom 0 (d :: more) = d :: scope.replaceFrom 0 more := by
      rw [replaceFrom, if_neg hdollar]
    exact hstep
  | cons c rest ih =>
    rw [List.length_cons] at hskip
    cases skip with
    | succ skip => exact ih (by omega)
    | zero =>
      rw [List.cons_append, replaceFrom, replaceFrom, scope.form?_append_delimiter hd]
      split
      · cases hform : scope.form? rest with
        | none => exact congrArg (c :: ·) (ih (Nat.zero_le _))
        | some form =>
          obtain ⟨value, length⟩ := form
          have hlength := (scope.form?_bounds hform).2.1
          dsimp only
          rw [ih hlength, List.append_assoc]
      · exact congrArg (c :: ·) (ih (Nat.zero_le _))

/-- Expansion goes on afresh behind a delimiter. -/
theorem expand_append_delimiter {d : Char} (hd : isDelimiter d = true) (command more : Text) :
    scope.expand (command ++ d :: more) = scope.expand command ++ d :: scope.expand more := by
  rw [expand_eq_replaceFrom, expand_eq_replaceFrom, expand_eq_replaceFrom,
    scope.replaceFrom_append_delimiter hd (Nat.zero_le _)]

theorem expand_of_isBlank {blank : Text} (h : IsBlank blank) : scope.expand blank = blank := by
  induction blank with
  | nil => rfl
  | cons d blank ih =>
    rw [isBlank_cons] at h
    have hexpand := scope.expand_append_delimiter h.1 [] blank
    rw [ih h.2] at hexpand
    exact hexpand

theorem expand_append_of_isBlank (command : Text) {blank : Text} (h : IsBlank blank) :
    scope.expand (command ++ blank) = scope.expand command ++ blank := by
  cases blank with
  | nil => rw [List.append_nil, List.append_nil]
  | cons d blank =>
    rw [isBlank_cons] at h
    rw [scope.expand_append_delimiter h.1, scope.expand_of_isBlank h.2]

/-! ### Words of a command -/

theorem replaceFrom_of_notMem {t : Text} (h : '$' ∉ t) : scope.replaceFrom 0 t = t := by
  induction t with
  | nil => rfl
  | cons c rest ih =>
    rw [List.mem_cons, not_or] at h
    rw [replaceFrom, if_neg (Ne.symm h.1), ih h.2]

theorem expand_of_notMem {t : Text} (h : '$' ∉ t) : scope.expand t = t := by
  rw [expand_eq_replaceFrom, scope.replaceFrom_of_notMem h]

/-- Behind a form the pass goes on as if it started there. -/
theorem replaceFrom_length_append (form rest : Text) :
    scope.replaceFrom form.length (form ++ rest) = scope.replaceFrom 0 rest := by
  induction form with
  | nil => rfl
  | cons c form ih => exact ih

theorem form?_of_isNameStart {c : Char} (hc : isNameStart c = true) (rest : Text) :
    scope.form? (c :: rest) =
      some ((scope.valueOf (c :: rest.takeWhile isNameCharacter)).getD [],
        (c :: rest.takeWhile isNameCharacter).length) := by
  have hstatus : c ≠ '?' := by
    intro heq
    rw [heq] at hc
    exact absurd hc (by decide)
  have hprocess : c ≠ '$' := by
    intro heq
    rw [heq] at hc
    exact absurd hc (by decide)
  rw [scope.form?_name hstatus hprocess, if_pos hc, List.takeWhile_cons,
    if_pos (by simp [isNameCharacter, hc])]

/-- A variable that is a command of its own is replaced by its value as it is. -/
theorem expand_reference {c : Char} {rest : Text} (hc : isNameStart c = true)
    (hrest : ∀ d ∈ rest, isNameCharacter d = true) :
    scope.expand ('$' :: c :: rest) = (scope.valueOf (c :: rest)).getD [] := by
  have hdone := scope.replaceFrom_length_append (c :: rest) []
  rw [List.append_nil] at hdone
  rw [expand_eq_replaceFrom, replaceFrom, if_pos rfl, scope.form?_of_isNameStart hc,
    List.takeWhile_eq_self_iff.2 hrest]
  dsimp only
  rw [hdone, replaceFrom, List.append_nil]

theorem expand_joined (pieces : List Text) :
    scope.expand (Text.joined [' '] pieces) = Text.joined [' '] (pieces.map scope.expand) := by
  fun_induction Text.joined [' '] pieces with
  | case1 => rfl
  | case2 piece => rfl
  | case3 piece rest hrest ih =>
    rw [List.append_assoc, List.singleton_append, scope.expand_append_delimiter rfl, ih,
      List.map_cons, Text.joined]
    · rw [List.append_assoc, List.singleton_append]
    · intro hnil
      exact hrest (List.map_eq_nil_iff.1 hnil)

end Scope

end CommandShell
