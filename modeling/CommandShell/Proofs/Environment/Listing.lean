import Mathlib.Data.List.Basic
import CommandShell.Proofs.Builtin.Return
import CommandShell.Proofs.Text.Order

/-!
# Reading a listing back

`env` writes each variable on a line of its own, as its name, `=` and its value. A value may have any number of `=`, but a name has none, so the name ends at the first `=` of its line. As long as there is no newline in a name or a value, the lines of the listing are those that were written.

Setting the variables that were read, one after the other, puts them in the order of the listing only if no name occurs twice, since setting a name again changes it where it stands. That the names are distinct, and that none has an `=`, is so however an environment came about.
-/

namespace CommandShell

/-- The name and the value of a variable can be written on one line. -/
def FitsLine (entry : Text × Text) : Prop :=
  '\n' ∉ entry.1 ∧ '\n' ∉ entry.2

instance (entry : Text × Text) : Decidable (FitsLine entry) :=
  inferInstanceAs (Decidable (_ ∧ _))

namespace Environment

/-- The variable on a line, which is cut at its first `=`. -/
def variableOn? (line : Text) : Option (Text × Text) :=
  match line.dropWhile fun c => c != '=' with
  | [] => none
  | _ :: value => some (line.takeWhile fun c => c != '=', value)

/-- The variables on the lines of a text, set in order. -/
def ofListing (listing : Text) : Environment :=
  ofList ((fields (fun c => c == '\n') listing).filterMap variableOn?)

/-! ### Lines of variables -/

theorem variableOn?_append {name : Text} (h : '=' ∉ name) (value : Text) :
    variableOn? (name ++ '=' :: value) = some (name, value) := by
  have hname := bne_eq_true_of_notMem h
  rw [variableOn?, List.dropWhile_append_of_pos hname, List.takeWhile_append_of_pos hname]
  simp

theorem fields_flatMap_newline {lines : List Text} (h : ∀ line ∈ lines, '\n' ∉ line) :
    fields (fun c => c == '\n') (lines.flatMap fun line => line ++ ['\n']) = lines ++ [[]] := by
  induction lines with
  | nil => rfl
  | cons line lines ih =>
    rw [List.forall_mem_cons] at h
    rw [List.flatMap_cons, List.append_assoc, List.singleton_append, fields_append_cons _ line rfl,
      fields_of_forall (beq_eq_false_of_notMem h.1), ih h.2]
    rfl

/-- The variable as it is written, without the newline behind it. -/
def lineOf (entry : Text × Text) : Text :=
  entry.1 ++ '=' :: entry.2

theorem flatten_listing (environment : Environment) :
    environment.listing.flatten =
      (environment.entries.map lineOf).flatMap fun line => line ++ ['\n'] := by
  rw [listing, ← List.flatMap_def, List.flatMap_map]
  rfl

/-- The lines of a listing are cut where they were put together. -/
theorem filterMap_variableOn?_listing {environment : Environment}
    (hnames : ∀ entry ∈ environment.entries, '=' ∉ entry.1)
    (hlines : ∀ entry ∈ environment.entries, FitsLine entry) :
    (fields (fun c => c == '\n') environment.listing.flatten).filterMap variableOn? =
      environment.entries := by
  have hcut : ∀ line ∈ environment.entries.map lineOf, '\n' ∉ line := by
    intro line hline
    obtain ⟨entry, hentry, rfl⟩ := List.mem_map.1 hline
    obtain ⟨hname, hvalue⟩ := hlines entry hentry
    simp [lineOf, hname, hvalue]
  have hread : ∀ entry ∈ environment.entries, (variableOn? ∘ lineOf) entry = some entry := by
    intro entry hentry
    exact variableOn?_append (hnames entry hentry) entry.2
  rw [flatten_listing, fields_flatMap_newline hcut, List.filterMap_append, List.filterMap_map,
    List.filterMap_congr hread, List.filterMap_some]
  exact List.append_nil environment.entries

/-! ### Setting what was read -/

theorem setIfValid_of_notMem {environment : Environment} {entry : Text × Text}
    (hsettable : Settable entry.1 entry.2) (hnew : entry.1 ∉ environment.names) :
    environment.setIfValid entry = { entries := environment.entries ++ [entry] } := by
  rw [setIfValid, set_of_settable environment hsettable, assign_of_notMem hnew]

/-- Variables with distinct names go to the end one after the other. -/
theorem foldl_setIfValid {before after : List (Text × Text)}
    (h : WellFormed { entries := before ++ after }) :
    after.foldl setIfValid { entries := before } = { entries := before ++ after } := by
  induction after generalizing before with
  | nil => rw [List.append_nil, List.foldl_nil]
  | cons entry after ih =>
    have hsettable : Settable entry.1 entry.2 := h.settable entry (by simp)
    have hnew : entry.1 ∉ names { entries := before } := by
      have hnodup := h.nodup
      rw [names, List.map_append, List.map_cons] at hnodup
      intro hmem
      exact (List.nodup_append.1 hnodup).2.2 entry.1 hmem entry.1 (by simp) rfl
    rw [List.append_cons] at h ⊢
    rw [List.foldl_cons, setIfValid_of_notMem hsettable hnew]
    exact ih h

theorem ofList_entries {environment : Environment} (h : environment.WellFormed) :
    ofList environment.entries = environment := by
  have hnone : WellFormed { entries := [] ++ environment.entries } := h
  exact foldl_setIfValid hnone

theorem ofListing_listing {environment : Environment} (hwf : environment.WellFormed)
    (hlines : ∀ entry ∈ environment.entries, FitsLine entry) :
    ofListing environment.listing.flatten = environment := by
  have hnames : ∀ entry ∈ environment.entries, '=' ∉ entry.1 :=
    fun entry hentry => (hwf.settable entry hentry).2.1
  rw [ofListing, filterMap_variableOn?_listing hnames hlines, ofList_entries hwf]

/-! ### What edits put into an environment -/

/-- A property of what is set is a property of what is there. -/
theorem forall_entries_edited {P : Text × Text → Prop} {environment : Environment}
    (h : ∀ entry ∈ environment.entries, P entry) {edit : Edit}
    (hedit : ∀ name value, edit = .set name value → P (name, value)) :
    ∀ entry ∈ (environment.edited edit).entries, P entry := by
  rw [edited]
  cases hnext : environment.edit edit with
  | error error => exact h
  | ok next =>
    intro entry hentry
    obtain ⟨name, value, hset, -, rfl⟩ | ⟨name, -, -, rfl⟩ := edit_cases hnext
    · rcases mem_assign hentry with hold | rfl
      · exact h entry hold
      · exact hedit name value hset
    · exact h entry (List.mem_of_mem_eraseP hentry)

theorem forall_entries_editedAll {P : Text × Text → Prop} {environment : Environment}
    (h : ∀ entry ∈ environment.entries, P entry) {edits : List Edit}
    (hedits : ∀ name value, .set name value ∈ edits → P (name, value)) :
    ∀ entry ∈ (environment.editedAll edits).entries, P entry := by
  induction edits generalizing environment with
  | nil => exact h
  | cons edit edits ih =>
    refine ih (forall_entries_edited h ?_) ?_
    · rintro name value rfl
      exact hedits name value (List.mem_cons_self ..)
    · intro name value hmem
      exact hedits name value (List.mem_cons_of_mem _ hmem)

theorem forall_entries_ofList {P : Text × Text → Prop} {entries : List (Text × Text)}
    (h : ∀ entry ∈ entries, P entry) : ∀ entry ∈ (ofList entries).entries, P entry := by
  rw [ofList_eq_editedAll]
  refine forall_entries_editedAll (by simp) ?_
  intro name value hmem
  obtain ⟨entry, hentry, hset⟩ := List.mem_map.1 hmem
  obtain ⟨rfl, rfl⟩ := Edit.set.inj hset
  exact h entry hentry

end Environment

theorem Sink.bytesOf_eq_utf8 (texts : List Text) : bytesOf texts = Text.utf8 texts.flatten := by
  rw [bytesOf, Text.utf8, List.flatMap_def, List.map_flatten, List.flatten_flatten, List.map_map]
  rfl

namespace Builtin

/-- With room for all lines `env` writes the listing. -/
theorem runEnv_of_hasRoom (shell : Shell)
    (h : shell.sink.HasRoom (Text.utf8 shell.session.environment.listing.flatten)) :
    (runEnv shell []).1 = .ok 0 ∧
      (runEnv shell []).2.sink.output =
        shell.sink.output ++ Text.utf8 shell.session.environment.listing.flatten := by
  rw [← Sink.bytesOf_eq_utf8] at h ⊢
  have hwrite : ∃ room, shell.sink.writeAll shell.session.environment.listing =
      (.ok (), (shell.sink.print (shell.session.environment.listing.map Text.utf8)).withRoom
        room) := by
    cases hroom : shell.sink.room with
    | none =>
      have hsink : shell.sink = shell.sink.withRoom none := by rw [Sink.withRoom, ← hroom]
      exact ⟨none, by rw [← Sink.writeAll_unlimited, ← hsink]⟩
    | some room =>
      have hsink : shell.sink = shell.sink.withRoom (some room) := by rw [Sink.withRoom, ← hroom]
      exact ⟨_, by rw [← Sink.writeAll_of_le shell.sink (h room hroom), ← hsink]⟩
  obtain ⟨room, hwrite⟩ := hwrite
  show (writeAnswer shell shell.session.environment.listing).1 = .ok 0 ∧
    (writeAnswer shell shell.session.environment.listing).2.sink.output = _
  rw [writeAnswer, Shell.write, hwrite]
  exact ⟨rfl, Sink.output_print _ _⟩

/-- What `env` writes can be read back. However an environment was made and edited, if no variable in it has a newline, which is so if none was given, then cutting the text at newlines, cutting each line at its first `=`, and setting the variables in order makes the same environment again. -/
theorem ofListing_of_runEnv (entries : List (Text × Text)) (edits : List Edit) :
    let environment := (Environment.ofList entries).editedAll edits
    ((∀ entry ∈ entries, FitsLine entry) →
        (∀ name value, .set name value ∈ edits → FitsLine (name, value)) →
        ∀ entry ∈ environment.entries, FitsLine entry) ∧
      ((∀ entry ∈ environment.entries, FitsLine entry) →
        ∀ shell : Shell, shell.session.environment = environment →
          shell.sink.HasRoom (Text.utf8 environment.listing.flatten) →
          ∃ written : Text,
            (runEnv shell []).1 = .ok 0 ∧
              (runEnv shell []).2.sink.output = shell.sink.output ++ written.utf8 ∧
              Environment.ofListing written = environment) := by
  intro environment
  constructor
  · intro hentries hedits
    exact Environment.forall_entries_editedAll (Environment.forall_entries_ofList hentries) hedits
  · intro hlines shell hshell hroom
    have hwf : environment.WellFormed := (Environment.wellFormed_ofList entries).editedAll edits
    rw [← hshell] at hroom
    obtain ⟨hanswer, houtput⟩ := runEnv_of_hasRoom shell hroom
    rw [hshell] at houtput
    exact ⟨environment.listing.flatten, hanswer, houtput, Environment.ofListing_listing hwf hlines⟩

/-- An empty value, one that ends in a carriage return, one that begins with `=`, and a name that was erased and set again. -/
theorem ofListing_of_runEnv_setAgain :
    let entries := [("A".toList, "1".toList), ("é".toList, []), ("B".toList, "x".toList)]
    let edits := [.erase "A".toList, .set "B".toList "y z\r".toList, .set "A".toList "=2".toList]
    let environment := (Environment.ofList entries).editedAll edits
    let shell : Shell := { Shell.bare with session := { Shell.bare.session with environment } }
    (runEnv shell []).1 = .ok 0 ∧
      (runEnv shell []).2.sink.output = Text.utf8 "é=\nB=y z\r\nA==2\n".toList ∧
      Environment.ofListing "é=\nB=y z\r\nA==2\n".toList = environment := by
  intro entries edits environment shell
  obtain ⟨hfits, hreads⟩ := ofListing_of_runEnv entries edits
  have hedits : ∀ name value, .set name value ∈ edits → FitsLine (name, value) := by
    intro name value hmem
    have hset : (name, value) ∈ [("B".toList, "y z\r".toList), ("A".toList, "=2".toList)] := by
      simpa [edits] using hmem
    have hall : ∀ entry ∈ [("B".toList, "y z\r".toList), ("A".toList, "=2".toList)],
        FitsLine entry := by decide
    exact hall (name, value) hset
  have hroom : shell.sink.HasRoom (Text.utf8 environment.listing.flatten) := by
    intro room hroom
    simp [shell, Shell.bare] at hroom
  obtain ⟨written, hanswer, houtput, hread⟩ := hreads (hfits (by decide) hedits) shell rfl hroom
  have hbytes : (runEnv shell []).2.sink.output = Text.utf8 "é=\nB=y z\r\nA==2\n".toList := by
    decide
  have hwritten : written = "é=\nB=y z\r\nA==2\n".toList :=
    Text.utf8_injective (houtput.symm.trans hbytes)
  exact ⟨hanswer, hbytes, hwritten ▸ hread⟩

end Builtin

end CommandShell
