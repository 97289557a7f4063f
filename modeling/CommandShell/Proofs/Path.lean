import Mathlib.Logic.Relation
import CommandShell.Path
import CommandShell.Proofs.Text.Ascii

/-!
# Paths under the home directory

Joining a path with an absolute one drops all that came before it. A tilde in front of a path is safe from this only because the path is cut at every slash before anything is joined, so that no part can be absolute. Joining the parts one after another then is joining them once, with single slashes between them, and nothing of the path depends on how many slashes were written.
-/

namespace CommandShell

theorem fields_eq_splitOnP {α : Type} (isSeparator : α → Bool) (xs : List α) :
    fields isSeparator xs = xs.splitOnP isSeparator := by
  induction xs with
  | nil => rfl
  | cons x xs ih =>
    rw [fields_cons, ih, List.splitOnP_cons_eq_if_modifyHead]
    split
    · rfl
    · obtain ⟨first, others, hsplit⟩ := List.exists_cons_of_ne_nil (fields_ne_nil isSeparator xs)
      rw [← ih, hsplit]
      rfl

theorem Text.joined_eq_intercalate (separator : Text) (pieces : List Text) :
    joined separator pieces = separator.intercalate pieces := by
  fun_induction joined separator pieces with
  | case1 => rfl
  | case2 piece => rw [List.intercalate_singleton]
  | case3 piece rest hrest ih =>
    obtain ⟨next, more, rfl⟩ := List.exists_cons_of_ne_nil hrest
    rw [ih, List.intercalate_cons_cons]

namespace Path

theorem isAbsolute_eq_false {name : Text} (h : '/' ∉ name) : isAbsolute name = false := by
  cases name with
  | nil => rfl
  | cons c rest =>
    have hc : c ≠ '/' := fun hc => h (by simp [hc])
    simpa [isAbsolute] using hc

/-! ### Parts -/

theorem parts_eq_filter_splitOn (path : Text) :
    parts path = (path.splitOn '/').filter (· ≠ []) := by
  rw [parts, fields_eq_splitOnP]
  exact List.filter_congr fun part _ => by cases part <;> rfl

@[simp]
theorem parts_nil : parts [] = [] := rfl

theorem parts_append_slash (left right : Text) :
    parts (left ++ '/' :: right) = parts left ++ parts right := by
  rw [parts, fields_append_cons isSlash left rfl, List.filter_append, ← parts, ← parts]

/-- What may be a part of a path: it is not empty and has no slashes. -/
def IsPart (part : Text) : Prop :=
  part ≠ [] ∧ '/' ∉ part

theorem isPart_of_mem_parts {path part : Text} (h : part ∈ parts path) : IsPart part := by
  rw [parts, List.mem_filter] at h
  refine ⟨by simpa using h.2, fun hslash => ?_⟩
  simpa [isSlash] using eq_false_of_mem_fields h.1 '/' hslash

/-! ### Joining -/

variable {directory part : Text}

theorem join_of_relative (hdirectory : directory ≠ []) (hpart : isAbsolute part = false) :
    join directory part =
      directory ++ (if directory.getLast? = some '/' then [] else ['/']) ++ part := by
  rw [join, hpart, if_neg Bool.false_ne_true]
  by_cases hend : directory.getLast? = some '/' <;> simp [hend, hdirectory]

namespace IsPart

variable (h : IsPart part)
include h

theorem isAbsolute_append (rest : Text) : isAbsolute (part ++ rest) = false := by
  obtain ⟨c, others, rfl⟩ := List.exists_cons_of_ne_nil h.1
  have hc : c ≠ '/' := fun hc => h.2 (by simp [hc])
  simpa [isAbsolute] using hc

theorem join_append (directory rest : Text) :
    join directory (part ++ rest) = join directory part ++ rest := by
  rw [join, join, h.isAbsolute_append, isAbsolute_eq_false h.2, if_neg Bool.false_ne_true,
    if_neg Bool.false_ne_true]
  split <;> simp

theorem getLast?_join (directory : Text) :
    ∃ last, last ≠ '/' ∧ (join directory part).getLast? = some last := by
  obtain ⟨last, hlast⟩ := Option.ne_none_iff_exists'.1 (mt List.getLast?_eq_none_iff.1 h.1)
  refine ⟨last, ?_, ?_⟩
  · rintro rfl
    exact h.2 (List.mem_of_getLast? hlast)
  · rw [join, isAbsolute_eq_false h.2, if_neg Bool.false_ne_true]
    split <;> simp [List.getLast?_append, List.getLast?_cons, hlast]

/-- Behind a part there is always a slash. -/
theorem join_join (directory : Text) {rest : Text} (hrest : isAbsolute rest = false) :
    join (join directory part) rest = join directory (part ++ '/' :: rest) := by
  obtain ⟨last, hslash, hlast⟩ := h.getLast?_join directory
  have hne : join directory part ≠ [] := by
    intro hnil
    simp [hnil] at hlast
  rw [join_of_relative hne hrest, hlast, if_neg (by simpa using hslash), h.join_append,
    List.append_assoc, List.singleton_append]

end IsPart

theorem isAbsolute_joined {parts : List Text} (h : ∀ part ∈ parts, IsPart part) :
    isAbsolute (Text.joined ['/'] parts) = false := by
  fun_induction Text.joined ['/'] parts with
  | case1 => rfl
  | case2 part => exact isAbsolute_eq_false (h part (by simp)).2
  | case3 part rest =>
    rw [List.append_assoc]
    exact (h part (by simp)).isAbsolute_append _

end Path

namespace HostPath

theorem utf8EncodeChar_slash : String.utf8EncodeChar '/' = [slash] := by decide

@[simp]
theorem shown_ofText (path : Text) : (ofText path).shown = path :=
  decoded_utf8 path

theorem isAbsolute_ofText (path : Text) : (ofText path).isAbsolute = Path.isAbsolute path := by
  rw [Bool.eq_iff_iff, isAbsolute, Path.isAbsolute, beq_iff_eq, beq_iff_eq]
  exact head?_utf8_eq_some_iff utf8EncodeChar_slash

theorem parts_ofText (path : Text) :
    (ofText path).parts = (fields Path.isSlash path).map Text.utf8 :=
  fields_utf8 utf8EncodeChar_slash path

/-- Joining texts and joining their bytes is the same. -/
theorem join_ofText (directory part : Text) :
    (ofText directory).join part = ofText (Path.join directory part) := by
  have hempty : (ofText directory).bytes.isEmpty = directory.isEmpty := by
    rw [Bool.eq_iff_iff, List.isEmpty_iff, List.isEmpty_iff]
    exact Text.utf8_eq_nil_iff
  have hlast : ((ofText directory).bytes.getLast? == some slash) =
      (directory.getLast? == some '/') := by
    rw [Bool.eq_iff_iff, beq_iff_eq, beq_iff_eq]
    exact getLast?_utf8_eq_some_iff utf8EncodeChar_slash
  have hslash (t : Text) : Text.utf8 ('/' :: t) = slash :: t.utf8 := by
    rw [Text.utf8_cons, utf8EncodeChar_slash, List.singleton_append]
  rw [join, Path.join, hempty, hlast]
  split
  · rfl
  · split <;> simp only [ofText, Text.utf8_append, hslash]

theorem join_join {part rest : Text} (hpart : Path.IsPart part)
    (hrest : Path.isAbsolute rest = false) (directory : Text) :
    ((ofText directory).join part).join rest = (ofText directory).join (part ++ '/' :: rest) := by
  rw [join_ofText, join_ofText, join_ofText, hpart.join_join directory hrest]

variable {parts : List Text} (h : ∀ part ∈ parts, Path.IsPart part)
include h

/-- Joining the parts one after another is joining them once. -/
theorem extend_eq_foldl_join (directory : Text) :
    (ofText directory).extend parts = parts.foldl join (ofText directory) := by
  induction parts generalizing directory with
  | nil => rfl
  | cons part rest ih =>
    rw [List.forall_mem_cons] at h
    rw [List.foldl_cons, join_ofText, ← ih h.2, ← join_ofText]
    -- Only in front of a second part is there a slash to account for.
    cases rest with
    | nil => rfl
    | cons next more =>
      calc (ofText directory).extend (part :: next :: more)
          = (ofText directory).join (part ++ '/' :: Text.joined ['/'] (next :: more)) := by
            simp [extend, Text.joined]
        _ = ((ofText directory).join part).join (Text.joined ['/'] (next :: more)) :=
            (join_join h.1 (Path.isAbsolute_joined h.2) directory).symm

/-- The text of an extended directory, which starts with the directory. -/
theorem extend_eq {directory : Text} (hdirectory : directory ≠ []) :
    (ofText directory).extend parts =
      ofText (directory ++
        (if parts = [] ∨ directory.getLast? = some '/' then [] else ['/']) ++
        ['/'].intercalate parts) := by
  cases parts with
  | nil => simp [extend]
  | cons part rest =>
    have hrelative := Path.isAbsolute_joined h
    rw [extend, List.isEmpty_cons, if_neg Bool.false_ne_true, join_ofText,
      Path.join_of_relative hdirectory hrelative, Text.joined_eq_intercalate]
    simp

end HostPath

/-! ### Slashes that count for nothing -/

/-- One slash more: in front, at the end, or beside another one. -/
inductive AddsSlash : Text → Text → Prop
  | front (rest : Text) : AddsSlash rest ('/' :: rest)
  | back (rest : Text) : AddsSlash rest (rest ++ ['/'])
  | beside (left right : Text) : AddsSlash (left ++ '/' :: right) (left ++ '/' :: '/' :: right)

theorem AddsSlash.parts_eq {rest more : Text} (h : AddsSlash rest more) :
    Path.parts more = Path.parts rest := by
  cases h with
  | front => exact Path.parts_append_slash [] rest
  | back => rw [Path.parts_append_slash, Path.parts_nil, List.append_nil]
  | beside left right => 
    rw [Path.parts_append_slash, Path.parts_append_slash]
    exact congrArg _ (Path.parts_append_slash [] right)

theorem parts_eq_of_reflTransGen {rest more : Text}
    (h : Relation.ReflTransGen AddsSlash rest more) : Path.parts more = Path.parts rest := by
  induction h with
  | refl => rfl
  | tail _ hadds ih => exact hadds.parts_eq.trans ih

theorem homeDirectory?_some (processHome : Option HostPath) {home : Text} (hhome : home ≠ []) :
    homeDirectory? processHome (some home) = some (.ofText home) := by
  cases home with
  | nil => exact absurd rfl hhome
  | cons c rest => rfl

/-- A path behind `~/` is the home directory, extended by the parts of the path with one slash in front of each, of which the first is left out behind a home that ends in one. This is what comes out of joining one part after another. Since it starts with the home directory, it is the path from the root only if home is the root. Slashes that are added to the path change nothing. A tilde alone is the home directory, and a path without a tilde, or with a name behind it, stays as it is. -/
theorem expandTilde?_stays_home (processHome : Option HostPath) :
    (∀ home rest : Text, home ≠ [] →
      let parts := (rest.splitOn '/').filter (· ≠ [])
      let separator := if parts = [] ∨ home.getLast? = some '/' then [] else ['/']
      ∃ path, expandTilde? processHome (some home) ('~' :: '/' :: rest) = some (.ofText path) ∧
        path = home ++ separator ++ ['/'].intercalate parts ∧
        .ofText path = parts.foldl HostPath.join (.ofText home) ∧
        home <+: path ∧
        (path = '/' :: ['/'].intercalate parts ↔ home = ['/'])) ∧
      (∀ (home : Option Text) (rest more : Text), Relation.ReflTransGen AddsSlash rest more →
        expandTilde? processHome home ('~' :: '/' :: more) =
          expandTilde? processHome home ('~' :: '/' :: rest)) ∧
      (∀ home, expandTilde? processHome home ['~'] = homeDirectory? processHome home) ∧
      ∀ (home : Option Text) (path : Text), path ≠ ['~'] → ¬['~', '/'] <+: path →
        expandTilde? processHome home path = some (.ofText path) := by
  refine ⟨?_, ?_, fun home => rfl, ?_⟩
  · intro home rest hhome parts separator
    have hparts : Path.parts rest = parts := Path.parts_eq_filter_splitOn rest
    have hpart : ∀ part ∈ parts, Path.IsPart part := by
      intro part hmem
      exact Path.isPart_of_mem_parts (hparts ▸ hmem)
    have hextend : (HostPath.ofText home).extend parts =
        .ofText (home ++ separator ++ ['/'].intercalate parts) :=
      HostPath.extend_eq hpart hhome
    refine ⟨home ++ separator ++ ['/'].intercalate parts, ?_, rfl, ?_, ?_, ?_⟩
    · rw [← hextend, ← hparts, expandTilde?, homeDirectory?_some processHome hhome]
      rfl
    · rw [← hextend, HostPath.extend_eq_foldl_join hpart]
    · rw [List.append_assoc]
      exact List.prefix_append home _
    · constructor
      · intro hpath
        have hroot : home ++ separator = ['/'] := List.append_cancel_right hpath
        obtain ⟨c, others, rfl⟩ := List.exists_cons_of_ne_nil hhome
        obtain ⟨rfl, htail⟩ := List.cons.inj hroot
        rw [(List.append_eq_nil_iff.1 htail).1]
      · rintro rfl
        simp [separator]
  · intro home rest more h
    rw [expandTilde?, expandTilde?, parts_eq_of_reflTransGen h]
  · intro home path htilde hslash
    rw [expandTilde?]
    · exact htilde
    · rintro rest rfl
      exact hslash (List.prefix_append ['~', '/'] rest)

/-- Slashes on all sides of the parts, and a home that brings the first separator along. -/
theorem expandTilde?_stays_home_slashes :
    expandTilde? none (some "/h/".toList) "~//etc//x/".toList = some (.ofText "/h/etc/x".toList) ∧
      expandTilde? none (some "/h/".toList) "~//etc//x/".toList =
        expandTilde? none (some "/h/".toList) "~/etc/x".toList ∧
      expandTilde? none none "~other//x".toList = some (.ofText "~other//x".toList) := by
  obtain ⟨hhome, hslashes, -, hother⟩ := expandTilde?_stays_home none
  refine ⟨?_, ?_, hother none _ (by decide) (by decide)⟩
  · obtain ⟨path, hexpands, hpath, -⟩ := hhome "/h/".toList "/etc//x/".toList (by decide)
    rw [hpath] at hexpands
    exact hexpands
  · have hbeside : AddsSlash "etc/x".toList "etc//x".toList := .beside "etc".toList "x".toList
    have hfront : AddsSlash "etc//x".toList "/etc//x".toList := .front _
    have hback : AddsSlash "/etc//x".toList "/etc//x/".toList := .back _
    exact hslashes _ _ _ (((Relation.ReflTransGen.single hbeside).tail hfront).tail hback)

end CommandShell
