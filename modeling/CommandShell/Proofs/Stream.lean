import CommandShell.Proofs.Input
import CommandShell.Proofs.Text.Decoding

/-!
# The lines of a stream

A stream is read by asking for one line after the other until there is none. Each line is read as text for itself, and the reader starts afresh with the next one. That this loses nothing of what the whole stream would be read as comes from the newline: its byte goes on with no character, so a character that is open there is given up just as it is at the end of the bytes.

Streams are taken apart the way they are read. One has nothing in it, or ends before the first newline, or has a line in front of another stream, and everything about lines is proved along these three cases.
-/

namespace CommandShell

/-! ### Asking for lines -/

/-- The next line of a stream, with its newline if it has one, and what remains of the stream. At its end there is none. -/
def nextLine? (stream : Bytes) : Option (Text × Bytes) :=
  if stream.isEmpty then none
  else
    let behind := stream.dropWhile fun b => b != 0x0A
    some (Bytes.decoded ((stream.takeWhile fun b => b != 0x0A) ++ behind.take 1), behind.drop 1)

/-- The lines come one after the other when lines are asked for until there is none. -/
inductive Delivers : Bytes → List Text → Prop
  | done {stream : Bytes} (h : nextLine? stream = none) : Delivers stream []
  | next {stream remaining : Bytes} {line : Text} {lines : List Text}
    (h : nextLine? stream = some (line, remaining)) (hremaining : Delivers remaining lines) :
    Delivers stream (line :: lines)

/-! ### Streams by their lines -/

@[elab_as_elim]
theorem stream_induction {motive : Bytes → Prop} (nil : motive [])
    (last : ∀ body, body ≠ [] → 0x0A ∉ body → motive body)
    (line : ∀ body rest, 0x0A ∉ body → motive rest → motive (body ++ 0x0A :: rest))
    (stream : Bytes) : motive stream := by
  induction hlength : stream.length using Nat.strongRecOn generalizing stream with
  | ind length ih =>
    by_cases hmem : 0x0A ∈ stream
    · obtain ⟨body, rest, rfl, hbody⟩ := List.eq_append_cons_of_mem hmem
      refine line body rest hbody (ih rest.length ?_ rest rfl)
      rw [← hlength, List.length_append, List.length_cons]
      omega
    · by_cases hnil : stream = []
      · rwa [hnil]
      · exact last stream hnil hmem

theorem nextLine?_last {body : Bytes} (hne : body ≠ []) (hbody : 0x0A ∉ body) :
    nextLine? body = some (Bytes.decoded body, []) := by
  have hall := bne_eq_true_of_notMem hbody
  rw [nextLine?, if_neg (by simpa using hne), List.takeWhile_eq_self_iff.2 hall,
    List.dropWhile_eq_nil_iff.2 hall]
  simp

theorem nextLine?_line {body : Bytes} (hbody : 0x0A ∉ body) (rest : Bytes) :
    nextLine? (body ++ 0x0A :: rest) = some (Bytes.decoded (body ++ [0x0A]), rest) := by
  have hall := bne_eq_true_of_notMem hbody
  rw [nextLine?, if_neg (by simp), List.takeWhile_append_of_pos hall,
    List.dropWhile_append_of_pos hall]
  simp

namespace LineSource

theorem lines_last {body : Bytes} (hne : body ≠ []) (hbody : 0x0A ∉ body) :
    (ofStream body).lines = [Bytes.decoded body] := by
  have hrecords := records_append (beq_eq_false_of_notMem hbody) []
  rw [List.append_nil, records_nil, foldr_addToFirst_nil hne] at hrecords
  rw [ofStream, lineRecords, hrecords]
  rfl

theorem lines_line {body : Bytes} (hbody : 0x0A ∉ body) (rest : Bytes) :
    (ofStream (body ++ 0x0A :: rest)).lines =
      Bytes.decoded (body ++ [0x0A]) :: (ofStream rest).lines := by
  have hrecords := records_append (beq_eq_false_of_notMem hbody) (0x0A :: rest)
  rw [records_cons, if_pos (by decide), foldr_addToFirst_cons] at hrecords
  rw [ofStream, lineRecords, hrecords]
  rfl

theorem delivers_lines (stream : Bytes) : Delivers stream (ofStream stream).lines := by
  induction stream using stream_induction with
  | nil => exact .done rfl
  | last body hne hbody =>
    rw [lines_last hne hbody]
    exact .next (nextLine?_last hne hbody) (.done rfl)
  | line body rest hbody ih =>
    rw [lines_line hbody]
    exact .next (nextLine?_line hbody rest) ih

end LineSource

theorem Delivers.unique {stream : Bytes} {lines others : List Text} (h : Delivers stream lines)
    (hothers : Delivers stream others) : lines = others := by
  induction h generalizing others with
  | done hdone =>
    cases hothers with
    | done => rfl
    | next hnext => simp [hdone] at hnext
  | next hnext _ ih =>
    cases hothers with
    | done hdone => simp [hdone] at hnext
    | next hnext' hremaining =>
      rw [hnext] at hnext'
      obtain ⟨rfl, rfl⟩ := Prod.mk.inj (Option.some.inj hnext')
      rw [ih hremaining]

/-! ### What the lines are -/

theorem newline_notMem_decoded {body : Bytes} (h : 0x0A ∉ body) : '\n' ∉ Bytes.decoded body := by
  intro hmem
  have hread : ReadAs body body.decoded := readAs_iff.2 rfl
  exact h (hread.mem_of_mem (by decide) hmem)

theorem decoded_line (body : Bytes) : Bytes.decoded (body ++ [0x0A]) = Bytes.decoded body ++ ['\n'] :=
  decoded_append_newline body []

namespace LineSource

theorem flatten_lines (stream : Bytes) : (ofStream stream).lines.flatten = stream.decoded := by
  induction stream using stream_induction with
  | nil => rfl
  | last body hne hbody =>
    rw [lines_last hne hbody, List.flatten_singleton]
  | line body rest hbody ih =>
    rw [lines_line hbody, List.flatten_cons, ih, decoded_line, decoded_append_newline]
    simp

theorem line_of_mem_lines {stream : Bytes} {line : Text} (h : line ∈ (ofStream stream).lines) :
    line ≠ [] ∧ '\n' ∉ line.dropLast := by
  induction stream using stream_induction with
  | nil => simp [ofStream, lineRecords] at h
  | last body hne hbody =>
    rw [lines_last hne hbody, List.mem_singleton] at h
    subst h
    refine ⟨decoded_ne_nil hne, ?_⟩
    intro hmem
    exact newline_notMem_decoded hbody (List.dropLast_sublist _ |>.subset hmem)
  | line body rest hbody ih =>
    rw [lines_line hbody, List.mem_cons] at h
    rcases h with rfl | hrest
    · rw [decoded_line, List.dropLast_concat]
      exact ⟨by simp, newline_notMem_decoded hbody⟩
    · exact ih hrest

theorem getLast?_of_mem_dropLast_lines {stream : Bytes} {line : Text}
    (h : line ∈ (ofStream stream).lines.dropLast) : line.getLast? = some '\n' := by
  induction stream using stream_induction with
  | nil => simp [ofStream, lineRecords] at h
  | last body hne hbody =>
    rw [lines_last hne hbody] at h
    simp at h
  | line body rest hbody ih =>
    rw [lines_line hbody] at h
    cases hlines : (ofStream rest).lines with
    | nil =>
      rw [hlines] at h
      simp at h
    | cons first others =>
      rw [hlines, List.dropLast_cons_cons, List.mem_cons, ← hlines] at h
      rcases h with rfl | hrest
      · rw [decoded_line, List.getLast?_concat]
      · exact ih hrest

theorem length_lines (stream : Bytes) :
    (ofStream stream).lines.length =
      stream.count 0x0A + if stream ≠ [] ∧ stream.getLast? ≠ some 0x0A then 1 else 0 := by
  induction stream using stream_induction with
  | nil => rfl
  | last body hne hbody =>
    have hlast : body.getLast? ≠ some 0x0A := fun heq => hbody (List.mem_of_getLast? heq)
    rw [lines_last hne hbody, List.count_eq_zero_of_not_mem hbody, if_pos ⟨hne, hlast⟩]
    rfl
  | line body rest hbody ih =>
    rw [lines_line hbody, List.length_cons, ih, List.count_append, List.count_cons_self,
      List.count_eq_zero_of_not_mem hbody]
    cases rest with
    | nil => simp
    | cons b rest =>
      have hlast : (body ++ 0x0A :: b :: rest).getLast? = (b :: rest).getLast? := by
        rw [List.getLast?_append, List.getLast?_cons_cons]
        simp [List.getLast?_cons]
      rw [hlast]
      simp
      omega

/-- Asking a stream for lines until there is none delivers a list of lines, and no other list. No line is empty, a newline is only ever the last character of a line, and every line but the last one ends in one. All lines together are what the bytes of the whole stream are read as. There are as many as there are newlines, and one more if the stream has something behind the last of them. -/
theorem lines_ofStream_lossless (stream : Bytes) :
    (∀ lines, Delivers stream lines ↔ lines = (ofStream stream).lines) ∧
      (∀ line ∈ (ofStream stream).lines, line ≠ [] ∧ '\n' ∉ line.dropLast) ∧
      (∀ line ∈ (ofStream stream).lines.dropLast, line.getLast? = some '\n') ∧
      (∀ t, ReadAs stream t ↔ t = (ofStream stream).lines.flatten) ∧
      (ofStream stream).lines.flatten = stream.decoded ∧
      (ofStream stream).lines.length =
        stream.count 0x0A + if stream ≠ [] ∧ stream.getLast? ≠ some 0x0A then 1 else 0 := by
  refine ⟨?_, ?_, ?_, ?_, flatten_lines stream, length_lines stream⟩
  · intro lines
    constructor
    · intro h
      exact h.unique (delivers_lines stream)
    · rintro rfl
      exact delivers_lines stream
  · intro line hline
    exact line_of_mem_lines hline
  · intro line hline
    exact getLast?_of_mem_dropLast_lines hline
  · intro t
    rw [flatten_lines, readAs_iff]

/-- The second line breaks off in a character of four bytes, and the last one begins with bytes of a surrogate. -/
theorem lines_ofStream_lossless_brokenOff :
    let stream : Bytes := [0x61, 0x0A, 0xF0, 0x9F, 0x98, 0x0A, 0xED, 0xA0, 0x62]
    Delivers stream ["a\n".toList, "\uFFFD\n".toList, "\uFFFD\uFFFDb".toList] ∧
      ReadAs stream "a\n\uFFFD\n\uFFFD\uFFFDb".toList ∧
      '\n' ∉ "\uFFFD\n".toList.dropLast ∧
      "\uFFFD\n".toList.getLast? = some '\n' ∧
      (ofStream stream).lines.length = 3 := by
  intro stream
  obtain ⟨hdelivers, hlines, hends, hread, -, hlength⟩ := lines_ofStream_lossless stream
  refine ⟨(hdelivers _).2 (by decide), (hread _).2 (by decide), ?_, ?_, ?_⟩
  · exact (hlines "\uFFFD\n".toList (by decide)).2
  · exact hends "\uFFFD\n".toList (by decide)
  · rw [hlength]
    decide

end LineSource

end CommandShell
