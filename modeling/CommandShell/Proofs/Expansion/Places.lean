import Mathlib.Algebra.GroupWithZero.Nat
import CommandShell.Proofs.Expansion.Reading
import CommandShell.Proofs.Text.Utf8
import CommandShell.Terminal

/-!
# The places of replacements

Forms are looked for in the bytes of a command, and the command is cut at the places where they were found. A cut inside a character has no answer, and neither has one beyond the end of the command or one that ends before it starts. Here both passes are written down with such cuts: the pass that finds the forms cuts names out of the command, and the pass that assembles the result cuts out what lies between the forms. For every command they have an answer, and it is the answer of expansion by characters.

This is so because no byte of a character beyond ASCII is taken for `$` or for a part of a name, so that a form begins and ends between characters. How replacements lie in a command is said once, and all their bounds are read off that.
-/

namespace CommandShell

/-! ### Cuts -/

namespace Text

/-- The text between two places, counted in bytes, unless one of them is no place between characters or they are in the wrong order. -/
def slice? (t : Text) (start stop : Nat) : Option Text :=
  if start ≤ stop then do
    let behind ← t.dropUtf8? start
    let rest ← behind.dropUtf8? (stop - start)
    some (behind.take (behind.length - rest.length))
  else none

/-- The place, counted in bytes, is between two characters or at one of the ends. -/
def IsBoundary (t : Text) (place : Nat) : Prop :=
  ∃ front behind, t = front ++ behind ∧ front.utf8Size = place

theorem dropUtf8?_append (front behind : Text) :
    dropUtf8? front.utf8Size (front ++ behind) = some behind := by
  induction front with
  | nil => cases behind <;> rfl
  | cons c front ih =>
    have hpos := c.utf8Size_pos
    obtain ⟨size, hsize⟩ : ∃ size, c.utf8Size + utf8Size front = size + 1 :=
      ⟨c.utf8Size + utf8Size front - 1, by omega⟩
    rw [utf8Size_cons, List.cons_append, hsize, dropUtf8?, if_pos (by omega), ← hsize,
      Nat.add_sub_cancel_left, ih]

theorem slice?_append (front between behind : Text) :
    slice? (front ++ (between ++ behind)) front.utf8Size (front.utf8Size + between.utf8Size) =
      some between := by
  rw [slice?, if_pos (Nat.le_add_right _ _), Nat.add_sub_cancel_left, dropUtf8?_append]
  simp [dropUtf8?_append]

example : slice? "é$".toList 0 2 = some "é".toList ∧ slice? "é$".toList 1 2 = none ∧
    slice? "é$".toList 2 4 = none ∧ slice? "é$".toList 3 2 = none := by
  decide

end Text

/-- The replacements that a pass over the bytes of a command finds from byte `index` on, where `bytes` are those that are left. Names are cut out of the command. -/
def Scope.scan? (scope : Scope) (command : Text) (index : Nat) : Bytes → Option (List Replacement)
  | [] => some []
  | byte :: rest =>
    if Char.ofUInt8 byte ≠ '$' then scope.scan? command (index + 1) rest
    else
      match rest with
      | [] => some []
      | next :: more =>
        if Char.ofUInt8 next = '?' then
          (scope.scan? command (index + 2) more).map
            ({ start := index, size := 2, value := Text.decimal scope.status } :: ·)
        else if Char.ofUInt8 next = '$' then
          (scope.scan? command (index + 2) more).map
            ({ start := index, size := 2, value := scope.processId } :: ·)
        else if isNameStart (Char.ofUInt8 next) then
          let length := ((next :: more).takeWhile fun b => isNameCharacter (Char.ofUInt8 b)).length
          (command.slice? (index + 1) (index + 1 + length)).bind fun name =>
            (scope.scan? command (index + length + 1) ((next :: more).drop length)).map
              ({ start := index, size := length + 1, value := (scope.valueOf name).getD [] } :: ·)
        else
          scope.scan? command (index + 1) (next :: more)
termination_by bytes => bytes.length
decreasing_by
  all_goals
    simp only [List.length_cons, List.length_drop]
    omega

/-- The command from byte `cursor` on with the replacements made. What is kept is cut out of the command. -/
def assembleSlices? (command : Text) (cursor : Nat) : List Replacement → Option Text
  | [] => command.slice? cursor command.utf8Size
  | replacement :: others => do
    let kept ← command.slice? cursor replacement.start
    let behind ← assembleSlices? command (replacement.start + replacement.size) others
    some (kept ++ (replacement.value ++ behind))

/-! ### How replacements lie in a text -/

/-- The replacements lie in a text that starts at byte `position`: behind some text that is kept there is a form, which begins with `$`, and the others lie behind the form. The last text is what becomes of it all. -/
inductive Placed : Nat → Text → List Replacement → Text → Prop
  | last (position : Nat) (kept : Text) : Placed position kept [] kept
  | form {position : Nat} {kept name rest value made : Text} {others : List Replacement}
    (h : Placed (position + kept.utf8Size + Text.utf8Size ('$' :: name)) rest others made) :
    Placed position (kept ++ '$' :: (name ++ rest))
      ({ start := position + kept.utf8Size, size := Text.utf8Size ('$' :: name), value } :: others)
      (kept ++ (value ++ made))

namespace Placed

variable {position : Nat} {t made : Text} {replacements : List Replacement}

/-- One more character may be kept in front. -/
theorem cons {c : Char} (h : Placed (position + c.utf8Size) t replacements made) :
    Placed position (c :: t) replacements (c :: made) := by
  cases h with
  | last => exact .last _ _
  | @form _ kept name rest value made others h =>
    have hposition : position + c.utf8Size + kept.utf8Size =
        position + Text.utf8Size (c :: kept) := by
      rw [Text.utf8Size_cons, Nat.add_assoc]
    rw [hposition] at h ⊢
    exact .form h

theorem le_start (h : Placed position t replacements made) :
    ∀ replacement ∈ replacements, position ≤ replacement.start := by
  induction h with
  | last => exact List.forall_mem_nil _
  | form h ih =>
    refine List.forall_mem_cons.2 ⟨Nat.le_add_right _ _, ?_⟩
    intro replacement hmem
    have hstart := ih replacement hmem
    omega

theorem pairwise (h : Placed position t replacements made) :
    replacements.Pairwise fun earlier later =>
      earlier.start < later.start ∧ earlier.start + earlier.size ≤ later.start := by
  induction h with
  | last => exact .nil
  | @form position kept name rest value made others h ih =>
    refine List.pairwise_cons.2 ⟨?_, ih⟩
    intro later hlater
    have hpos := Text.utf8Size_pos (List.cons_ne_nil '$' name)
    have hstart := h.le_start later hlater
    exact ⟨by dsimp only; omega, hstart⟩

/-- Each replacement covers a form of the text. -/
theorem covers (h : Placed position t replacements made) :
    ∀ replacement ∈ replacements, ∃ front name behind, t = front ++ '$' :: name ++ behind ∧
      replacement.start = position + front.utf8Size ∧
      replacement.size = Text.utf8Size ('$' :: name) := by
  induction h with
  | last => exact List.forall_mem_nil _
  | @form position kept name rest value made others h ih =>
    refine List.forall_mem_cons.2 ⟨⟨kept, name, rest, by simp, rfl, rfl⟩, ?_⟩
    intro replacement hmem
    obtain ⟨front, inner, behind, hrest, hstart, hsize⟩ := ih replacement hmem
    refine ⟨kept ++ '$' :: (name ++ front), inner, behind, by simp [hrest], ?_, hsize⟩
    rw [hstart, Text.utf8Size_append, ← List.cons_append, Text.utf8Size_append]
    omega

theorem sum_size_le (h : Placed position t replacements made) :
    (replacements.map Replacement.size).sum ≤ t.utf8Size := by
  induction h with
  | last => exact Nat.zero_le _
  | form h ih =>
    rw [List.map_cons, List.sum_cons, ← List.cons_append]
    simp only [Text.utf8Size_append]
    omega

/-- The result has as many bytes more than the text as the values have more than the forms. -/
theorem size_add (h : Placed position t replacements made) :
    made.utf8Size + (replacements.map Replacement.size).sum =
      t.utf8Size + (replacements.map fun replacement => replacement.value.utf8Size).sum := by
  induction h with
  | last => rfl
  | form h ih =>
    rw [List.map_cons, List.map_cons, List.sum_cons, List.sum_cons, ← List.cons_append]
    simp only [Text.utf8Size_append]
    omega

/-- All cuts of the assembly are between characters. The induction is on the forms, where the cursor is behind the one before. -/
theorem assembleSlices?_eq (h : Placed position t replacements made) (front : Text)
    (hfront : front.utf8Size = position) :
    assembleSlices? (front ++ t) position replacements = some made := by
  induction h generalizing front with
  | last position kept =>
    subst hfront
    have hslice := Text.slice?_append front kept []
    rw [List.append_nil] at hslice
    rw [assembleSlices?, Text.utf8Size_append, hslice]
  | @form position kept name rest value made others h ih =>
    subst hfront
    have hcommand : front ++ (kept ++ '$' :: name) ++ rest = front ++ (kept ++ '$' :: (name ++ rest)) := by
      simp
    have hcursor : Text.utf8Size (front ++ (kept ++ '$' :: name)) =
        front.utf8Size + kept.utf8Size + Text.utf8Size ('$' :: name) := by
      rw [Text.utf8Size_append, Text.utf8Size_append, Nat.add_assoc]
    have hbehind := ih _ hcursor
    rw [hcommand] at hbehind
    rw [assembleSlices?, Text.slice?_append, hbehind]
    rfl

end Placed

/-! ### Names in bytes -/

theorem utf8Size_of_isNameStart (c : Char) (h : isNameStart c = true) : c.utf8Size = 1 :=
  utf8Size_of_isNameCharacter (by rw [isNameCharacter, h, Bool.true_or])

/-- The bytes of a name are those of its characters, one for each. -/
theorem length_takeWhile_utf8 (t : Text) :
    (t.utf8.takeWhile fun b => isNameCharacter (Char.ofUInt8 b)).length =
      (t.takeWhile isNameCharacter).length := by
  rw [takeWhile_utf8 fun _ => utf8Size_of_isNameCharacter, ← Text.utf8Size_eq_length]
  apply Text.utf8Size_eq_length_of_forall
  intro c hc
  exact utf8Size_of_isNameCharacter (List.mem_takeWhile_imp hc)

theorem drop_takeWhile_utf8 (t : Text) :
    t.utf8.drop (t.takeWhile isNameCharacter).length = Text.utf8 (t.dropWhile isNameCharacter) := by
  have hbytes : t.utf8 = Text.utf8 (t.takeWhile isNameCharacter) ++
      Text.utf8 (t.dropWhile isNameCharacter) := by
    rw [← Text.utf8_append, List.takeWhile_append_dropWhile]
  rw [hbytes, List.drop_left']
  rw [← length_takeWhile_utf8, takeWhile_utf8 fun _ => utf8Size_of_isNameCharacter]

namespace Scope

variable (scope : Scope)

/-! ### Reading from the left -/

section Form

variable {name rest value : Text} (h : scope.form? (name ++ rest) = some (value, name.length))
include h

theorem utf8Size_name : name.utf8Size = name.length := by
  have hsize := (scope.form?_bounds h).2.2
  rwa [List.take_left] at hsize

theorem utf8Size_form : Text.utf8Size ('$' :: name) = name.length + 1 := by
  rw [Text.utf8Size_cons, scope.utf8Size_name h, Nat.add_comm]
  rfl

end Form

theorem replacementsFrom_length_append (position : Nat) (form rest : Text) :
    scope.replacementsFrom position form.length (form ++ rest) =
      scope.replacementsFrom (position + form.utf8Size) 0 rest := by
  induction form generalizing position with
  | nil => rfl
  | cons c form ih =>
    rw [List.length_cons, List.cons_append, replacementsFrom, ih, Text.utf8Size_cons, Nat.add_assoc]

/-- A form leaves one replacement, which covers it together with its `$`. -/
theorem replacementsFrom_form {name rest value : Text}
    (h : scope.form? (name ++ rest) = some (value, name.length)) (position : Nat) :
    scope.replacementsFrom position 0 ('$' :: (name ++ rest)) =
      { start := position, size := Text.utf8Size ('$' :: name), value } ::
        scope.replacementsFrom (position + Text.utf8Size ('$' :: name)) 0 rest := by
  rw [replacementsFrom, if_pos rfl, h]
  dsimp only
  rw [scope.replacementsFrom_length_append, scope.utf8Size_name h, scope.utf8Size_form h,
    Nat.add_assoc, Nat.add_comm name.length]
  rfl

/-- A text is empty, or it begins with a character that stands for itself, or with a form. -/
@[elab_as_elim]
theorem form_induction {motive : Text → Prop} (nil : motive [])
    (literal : ∀ (c : Char) (rest : Text), (c = '$' → scope.form? rest = none) → motive rest →
      motive (c :: rest))
    (form : ∀ (name rest value : Text), scope.form? (name ++ rest) = some (value, name.length) →
      motive rest → motive ('$' :: (name ++ rest)))
    (t : Text) : motive t := by
  induction hlength : t.length using Nat.strong_induction_on generalizing t with
  | _ length ih =>
    cases t with
    | nil => exact nil
    | cons c rest =>
      rw [List.length_cons] at hlength
      have hrest := ih rest.length (by omega) rest rfl
      by_cases hdollar : c = '$'
      · subst hdollar
        cases hform : scope.form? rest with
        | none => exact literal '$' rest (fun _ => hform) hrest
        | some found =>
          obtain ⟨value, size⟩ := found
          have hsize := (scope.form?_bounds hform).2.1
          have hbehind : (rest.drop size).length < length := by
            rw [List.length_drop]
            omega
          have hwhole := form (rest.take size) (rest.drop size) value
          rw [List.take_append_drop, List.length_take_of_le hsize] at hwhole
          exact hwhole hform (ih _ hbehind _ rfl)
      · exact literal c rest (fun h => absurd h hdollar) hrest

theorem placed_replacementsFrom (position : Nat) (t : Text) :
    Placed position t (scope.replacementsFrom position 0 t) (scope.replaceFrom 0 t) := by
  induction t using scope.form_induction generalizing position with
  | nil => exact .last position []
  | literal c rest hform ih =>
    rw [scope.replacementsFrom_literal hform, scope.replaceFrom_literal hform]
    exact (ih _).cons
  | form name rest value hform ih =>
    rw [scope.replacementsFrom_form hform, scope.replaceFrom_form hform,
      scope.replaceFrom_length_append]
    exact @Placed.form position [] name rest value _ _ (ih _)

/-! ### The pass over bytes -/

section Scan

variable (command : Text) (index : Nat)

/-- Bytes that are no `$` are passed over. -/
theorem scan?_append {bytes : Bytes} (h : ∀ b ∈ bytes, Char.ofUInt8 b ≠ '$') (rest : Bytes) :
    scope.scan? command index (bytes ++ rest) = scope.scan? command (index + bytes.length) rest := by
  induction bytes generalizing index with
  | nil => rfl
  | cons b bytes ih =>
    rw [List.forall_mem_cons] at h
    have hstep : scope.scan? command index (b :: (bytes ++ rest)) =
        scope.scan? command (index + 1) (bytes ++ rest) := by
      rw [scan?.eq_def]
      exact if_pos h.1
    rw [List.cons_append, hstep, ih _ h.2, List.length_cons, Nat.add_assoc, Nat.add_comm 1]

/-- What the pass does behind a `$` depends on the next character, though it only looks at the first byte of it. -/
theorem scan?_dollar (c : Char) (rest : Text) :
    scope.scan? command index (Text.utf8 ('$' :: c :: rest)) =
      if c = '?' then
        (scope.scan? command (index + 2) rest.utf8).map
          ({ start := index, size := 2, value := Text.decimal scope.status } :: ·)
      else if c = '$' then
        (scope.scan? command (index + 2) rest.utf8).map
          ({ start := index, size := 2, value := scope.processId } :: ·)
      else if isNameStart c then
        let length := ((c :: rest).takeWhile isNameCharacter).length
        (command.slice? (index + 1) (index + 1 + length)).bind fun name =>
          (scope.scan? command (index + length + 1)
            (Text.utf8 ((c :: rest).dropWhile isNameCharacter))).map
            ({ start := index, size := length + 1, value := (scope.valueOf name).getD [] } :: ·)
      else scope.scan? command (index + 1) (Text.utf8 (c :: rest)) := by
  obtain ⟨b, more, hbytes⟩ := List.exists_cons_of_ne_nil (utf8EncodeChar_ne_nil c)
  have hcons : Text.utf8 (c :: rest) = b :: (more ++ rest.utf8) := by
    rw [Text.utf8_cons, hbytes, List.cons_append]
  have hstatus := ofUInt8_eq_iff (d := '?') rfl hbytes
  have hprocess := ofUInt8_eq_iff (d := '$') rfl hbytes
  have hstart := (test_ofUInt8 utf8Size_of_isNameStart hbytes).1
  have hsize := length_takeWhile_utf8 (c :: rest)
  have hrest := drop_takeWhile_utf8 (c :: rest)
  have hdollar : String.utf8EncodeChar '$' = [0x24] := rfl
  rw [hcons] at hsize hrest ⊢
  rw [Text.utf8_cons, hcons, hdollar, List.singleton_append, scan?.eq_def]
  dsimp only
  rw [if_neg (by decide), hsize, hrest, hstart]
  by_cases hc : c = '?'
  · rw [if_pos (hstatus.1.2 hc), if_pos hc, hstatus.2 hc, List.nil_append]
  · rw [if_neg (mt hstatus.1.1 hc), if_neg hc]
    by_cases hd : c = '$'
    · rw [if_pos (hprocess.1.2 hd), if_pos hd, hprocess.2 hd, List.nil_append]
    · rw [if_neg (mt hprocess.1.1 hd), if_neg hd]

theorem scan?_literal {c : Char} {rest : Text} (h : c = '$' → scope.form? rest = none) :
    scope.scan? command index (Text.utf8 (c :: rest)) =
      scope.scan? command (index + c.utf8Size) rest.utf8 := by
  by_cases hc : c = '$'
  · subst hc
    cases rest with
    | nil =>
      rw [scan?.eq_def, scan?.eq_def]
      rfl
    | cons d rest =>
      have hnone := h rfl
      have hstatus : d ≠ '?' := by
        rintro rfl
        exact Option.some_ne_none _ hnone
      have hprocess : d ≠ '$' := by
        rintro rfl
        exact Option.some_ne_none _ hnone
      have hstart : isNameStart d ≠ true := by
        intro hstart
        rw [scope.form?_of_isNameStart hstart] at hnone
        exact Option.some_ne_none _ hnone
      rw [scan?_dollar, if_neg hstatus, if_neg hprocess, if_neg hstart]
      rfl
  · rw [Text.utf8_cons, scope.scan?_append, String.length_utf8EncodeChar]
    intro b hb hdollar
    exact hc (eq_of_mem_utf8EncodeChar rfl hb hdollar)

end Scan

/-- A form that is neither `$?` nor `$$` is a longest name. -/
theorem named_of_form? {c : Char} {more rest value : Text} (hstatus : c ≠ '?') (hprocess : c ≠ '$')
    (h : scope.form? (c :: (more ++ rest)) = some (value, (c :: more).length)) :
    isNameStart c = true ∧ (c :: (more ++ rest)).takeWhile isNameCharacter = c :: more ∧
      (c :: (more ++ rest)).dropWhile isNameCharacter = rest ∧
      value = (scope.valueOf (c :: more)).getD [] := by
  rw [scope.form?_name hstatus hprocess] at h
  split at h
  · next hstart =>
    obtain ⟨hvalue, hlength⟩ := Prod.mk.inj (Option.some.inj h)
    have hname : (c :: (more ++ rest)).takeWhile isNameCharacter = c :: more := by
      rw [List.prefix_iff_eq_take.1 (List.takeWhile_prefix isNameCharacter), hlength,
        ← List.cons_append, List.take_left]
    have hboth : c :: more ++ (c :: (more ++ rest)).dropWhile isNameCharacter = c :: more ++ rest := by
      rw [← hname, List.takeWhile_append_dropWhile, hname, List.cons_append]
    rw [hname] at hvalue
    exact ⟨hstart, hname, List.append_cancel_left hboth, hvalue.symm⟩
  · simp at h

theorem scan?_form {name rest value : Text}
    (h : scope.form? (name ++ rest) = some (value, name.length)) (front : Text) :
    scope.scan? (front ++ '$' :: (name ++ rest)) front.utf8Size
        (Text.utf8 ('$' :: (name ++ rest))) =
      (scope.scan? (front ++ '$' :: (name ++ rest))
        (front.utf8Size + Text.utf8Size ('$' :: name)) rest.utf8).map
        ({ start := front.utf8Size, size := Text.utf8Size ('$' :: name), value } :: ·) := by
  have hsize := scope.utf8Size_form h
  have hslice : Text.slice? (front ++ '$' :: (name ++ rest)) (front.utf8Size + 1)
      (front.utf8Size + 1 + name.length) = some name := by
    have hcut := Text.slice?_append (front ++ ['$']) name rest
    rw [Text.utf8Size_append, List.append_assoc, scope.utf8Size_name h] at hcut
    exact hcut
  obtain ⟨c, more, rfl⟩ := List.exists_cons_of_length_pos (scope.form?_bounds h).1
  rw [List.cons_append] at h hslice ⊢
  rw [hsize, scan?_dollar]
  by_cases hstatus : c = '?'
  · subst hstatus
    obtain ⟨rfl, hlength⟩ := Prod.mk.inj (Option.some.inj h)
    obtain rfl : more = [] := List.length_eq_zero_iff.1 (by simpa using hlength.symm)
    rw [if_pos rfl]
    rfl
  · by_cases hprocess : c = '$'
    · subst hprocess
      obtain ⟨rfl, hlength⟩ := Prod.mk.inj (Option.some.inj h)
      obtain rfl : more = [] := List.length_eq_zero_iff.1 (by simpa using hlength.symm)
      rw [if_neg hstatus, if_pos rfl]
      rfl
    · obtain ⟨hstart, hname, hrest, rfl⟩ := scope.named_of_form? hstatus hprocess h
      rw [if_neg hstatus, if_neg hprocess, if_pos hstart, hname, hrest]
      dsimp only
      rw [hslice]
      rfl

/-- The pass over the bytes of a text that stands behind `front` finds what the pass over its characters finds. -/
theorem scan?_utf8 (front t : Text) :
    scope.scan? (front ++ t) front.utf8Size t.utf8 =
      some (scope.replacementsFrom front.utf8Size 0 t) := by
  induction t using scope.form_induction generalizing front with
  | nil => rw [Text.utf8, List.flatMap_nil, scan?, replacementsFrom]
  | literal c rest hform ih =>
    have hrest := ih (front ++ [c])
    have hc : Text.utf8Size [c] = c.utf8Size := Text.utf8Size_cons c []
    rw [List.append_assoc, List.singleton_append, Text.utf8Size_append, hc] at hrest
    rw [scope.scan?_literal _ _ hform, hrest, scope.replacementsFrom_literal hform]
  | form name rest value hform ih =>
    have hrest := ih (front ++ '$' :: name)
    rw [List.append_assoc, List.cons_append, Text.utf8Size_append] at hrest
    rw [scope.scan?_form hform, hrest, scope.replacementsFrom_form hform, Option.map_some]

/-! ### All cuts are between characters -/

theorem bounds_of_mem_replacements {command : Text} {replacement : Replacement}
    (h : replacement ∈ scope.replacements command) :
    0 < replacement.size ∧ replacement.start + replacement.size ≤ command.utf8Size ∧
      command.utf8[replacement.start]? = some 0x24 ∧ command.IsBoundary replacement.start ∧
      command.IsBoundary (replacement.start + replacement.size) := by
  obtain ⟨front, name, behind, rfl, hstart, hsize⟩ :=
    (scope.placed_replacementsFrom 0 command).covers replacement h
  rw [Nat.zero_add] at hstart
  rw [hstart, hsize]
  refine ⟨Text.utf8Size_pos (List.cons_ne_nil _ _), ?_, ?_, ?_, ?_⟩
  · rw [Text.utf8Size_append, Text.utf8Size_append]
    omega
  · rw [List.append_assoc, Text.utf8_append, Text.utf8Size_eq_length,
      List.getElem?_append_right (Nat.le_refl _), Nat.sub_self]
    rfl
  · exact ⟨front, '$' :: name ++ behind, List.append_assoc _ _ _, rfl⟩
  · exact ⟨front ++ '$' :: name, behind, rfl, Text.utf8Size_append _ _⟩

/-- Expansion never cuts a character. A pass over the bytes of a command that cuts names out of it comes to its end and has found the replacements. They follow one another in the command without overlapping, each begins with the byte of `$`, and all of them begin and end between characters. So the result can be put together from what is cut out between them, and it has as many bytes as are left of the command when the forms are taken out, and those of the values. -/
theorem replacements_cut_between_characters (command : Text) :
    scope.scan? command 0 command.utf8 = some (scope.replacements command) ∧
      (scope.replacements command).Pairwise (fun earlier later =>
        earlier.start < later.start ∧ earlier.start + earlier.size ≤ later.start) ∧
      (∀ replacement ∈ scope.replacements command,
        0 < replacement.size ∧ replacement.start + replacement.size ≤ command.utf8Size ∧
          command.utf8[replacement.start]? = some 0x24 ∧ command.IsBoundary replacement.start ∧
          command.IsBoundary (replacement.start + replacement.size)) ∧
      assembleSlices? command 0 (scope.replacements command) = some (scope.expand command) ∧
      ((scope.replacements command).map Replacement.size).sum ≤ command.utf8Size ∧
      (scope.expand command).utf8Size =
        command.utf8Size - ((scope.replacements command).map Replacement.size).sum +
          ((scope.replacements command).map fun replacement => replacement.value.utf8Size).sum := by
  have hplaced := scope.placed_replacementsFrom 0 command
  rw [← scope.expand_eq_replaceFrom, ← replacements] at hplaced
  have htaken := hplaced.sum_size_le
  have hsizes := hplaced.size_add
  refine ⟨scope.scan?_utf8 [] command, hplaced.pairwise, ?_, ?_, htaken, by omega⟩
  · intro replacement hmem
    exact scope.bounds_of_mem_replacements hmem
  · exact hplaced.assembleSlices?_eq [] rfl

/-- Forms between characters of two bytes each, and a `$` at the end that is no form. -/
theorem replacements_cut_between_characters_accents :
    let scope : Scope :=
      { status := 127
        processId := "42".toList
        valueOf := fun name => if name = "HOME".toList then some "/é".toList else none }
    let command : Text := "é$HOMEü$?$".toList
    let first : Replacement := { start := 2, size := 5, value := "/é".toList }
    let second : Replacement := { start := 9, size := 2, value := "127".toList }
    scope.replacements command = [first, second] ∧
      scope.scan? command 0 command.utf8 = some [first, second] ∧
      first ∈ scope.replacements command ∧ command.IsBoundary 7 ∧
      assembleSlices? command 0 [first, second] = some "é/éü127$".toList ∧
      (scope.expand command).utf8Size = 12 - 7 + 6 := by
  intro scope command first second
  have hreplacements : scope.replacements command = [first, second] := by decide
  have hfirst : first ∈ scope.replacements command := by
    rw [hreplacements]
    exact List.mem_cons_self
  have hexpand : scope.expand command = "é/éü127$".toList := by decide
  obtain ⟨hscan, -, hbounds, hassemble, -, hsize⟩ := scope.replacements_cut_between_characters command
  have hend := (hbounds first hfirst).2.2.2.2
  rw [hreplacements] at hscan hassemble hsize
  rw [hexpand] at hassemble
  exact ⟨hreplacements, hscan, hfirst, hend, hassemble, hsize⟩

end Scope

end CommandShell
