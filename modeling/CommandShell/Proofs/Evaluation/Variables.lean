import CommandShell.Proofs.Environment.History
import CommandShell.Proofs.Evaluation.Invariant

/-!
# The variables of a session

A session starts with an environment that was made from a list, and its commands change it by edits only. So everything that edits keep is true of the environment of every session, whatever lines it has run.
-/

namespace CommandShell

namespace Shell

theorem isInvariant_wellFormed : IsInvariant fun shell => shell.session.environment.WellFormed := by
  constructor
  · intro before later hchange h
    cases hchange with
    | edit edit => exact h.edited edit
    | ask code hcode => exact h
    | record status hstatus => exact h
    | host host => exact h
    | write bytes room => exact h
    | child written => exact h
  · intro shell error h
    exact h
  · intro shell argv h
    exact h
  · intro shell raw h
    exact h

end Shell

namespace Builtin

theorem runSetenv_of_error {shell : Shell} {arguments : List Text} {error : BuiltinError}
    (h : (runSetenv shell arguments).1 = .error error) : (runSetenv shell arguments).2 = shell := by
  rw [runSetenv.eq_def] at h ⊢
  split
  · next name value =>
    dsimp only at h
    cases hset : shell.session.environment.set name value with
    | error error => rfl
    | ok environment =>
      rw [hset] at h
      simp at h
  · rfl

theorem runUnsetenv_of_error {shell : Shell} {arguments : List Text} {error : BuiltinError}
    (h : (runUnsetenv shell arguments).1 = .error error) :
    (runUnsetenv shell arguments).2 = shell := by
  rw [runUnsetenv.eq_def] at h ⊢
  split
  · next name =>
    dsimp only at h
    cases herase : shell.session.environment.erase name with
    | error error => rfl
    | ok environment =>
      rw [herase] at h
      simp at h
  · rfl

end Builtin

namespace Environment

/-- Environments that are made from a list and then edited are maps with an order. Their entries are well formed; a value is what the last edit of its name set; the names stand in the order in which they were inserted since they were last erased. An edit fails exactly if the variable could not be handed to a child or the name to erase is not there, and then nothing changes. All this being so at the start of a session, its environment stays well formed whatever is run. -/
theorem editedAll_ofList_isOrderedMap [Children] (entries : List (Text × Text)) (edits : List Edit) :
    let environment := (ofList entries).editedAll edits
    let history := successes {} (entries.map (fun entry => .set entry.1 entry.2) ++ edits)
    environment.WellFormed ∧
      (∀ name value, environment.get? name = some value ↔ history.LastSet name value) ∧
      (∀ name, name ∈ environment.names ↔ ∃ index, history.InsertedAt name index) ∧
      (environment.names.Pairwise fun first second =>
        ∀ i j, history.InsertedAt first i → history.InsertedAt second j → i < j) ∧
      (∀ name value, (∃ error, environment.set name value = .error error) ↔
        name = [] ∨ '=' ∈ name ∨ nul ∈ name ∨ nul ∈ value) ∧
      (∀ name, (∃ error, environment.erase name = .error error) ↔ name ∉ environment.names) ∧
      (∀ name value next, environment.set name value = .ok next →
        (name ∈ environment.names → next.names = environment.names) ∧
          (name ∉ environment.names → next.names = environment.names ++ [name])) ∧
      (∀ edit error, environment.edit edit = .error error → environment.edited edit = environment) ∧
      (∀ (shell : Shell) (arguments : List Text) (error : BuiltinError),
        ((Builtin.runSetenv shell arguments).1 = .error error →
          (Builtin.runSetenv shell arguments).2 = shell) ∧
        ((Builtin.runUnsetenv shell arguments).1 = .error error →
          (Builtin.runUnsetenv shell arguments).2 = shell)) ∧
      ∀ start later : Shell, start.session.environment = environment → start.Reaches later →
        later.session.environment.WellFormed := by
  intro environment history
  have hall : environment =
      editedAll {} (entries.map (fun entry => .set entry.1 entry.2) ++ edits) := by
    rw [editedAll_append, ← ofList_eq_editedAll]
  have hwf : environment.WellFormed := (wellFormed_ofList entries).editedAll edits
  have hkeeps : environment.Keeps history := by
    rw [hall]
    exact keeps_empty.editedAll wellFormed_empty _
  refine ⟨hwf, hkeeps.get?_eq_some_iff, hkeeps.mem_names_iff, hkeeps.ordered,
    environment.set_eq_error_iff, environment.erase_eq_error_iff, ?_, ?_, ?_, ?_⟩
  · intro name value next hset
    exact names_of_set hset
  · intro edit error herror
    rw [edited, herror]
  · intro shell arguments error
    exact ⟨Builtin.runSetenv_of_error, Builtin.runUnsetenv_of_error⟩
  · intro start later hstart hreaches
    have hwf' : start.session.environment.WellFormed := by rwa [hstart]
    exact Shell.isInvariant_wellFormed.reaches (P := fun session => session.environment.WellFormed)
      hreaches hwf'

open Children.Performing

/-- A name that cannot be set, one that is set twice, and one that is erased and set again. -/
theorem editedAll_ofList_isOrderedMap_setAgain :
    let entries := [("A".toList, "1".toList), ("=".toList, "2".toList), ("B".toList, "3".toList)]
    let edits := [.set "B".toList "4".toList, .erase "A".toList, .erase "C".toList,
      .set "A".toList "5".toList]
    let environment := (ofList entries).editedAll edits
    environment.names = ["B".toList, "A".toList] ∧
      History.LastSet (successes {} (entries.map (fun entry => .set entry.1 entry.2) ++ edits))
        "A".toList "5".toList ∧
      environment.edited (.erase "C".toList) = environment ∧
      ((({ Shell.bare with session := { Shell.bare.session with environment } }).runLine
        "setenv C $?".toList).2.session.environment).WellFormed := by
  intro entries edits environment
  obtain ⟨-, hget, -, -, -, -, -, hfailed, -, hsession⟩ := editedAll_ofList_isOrderedMap entries edits
  refine ⟨by decide, (hget "A".toList "5".toList).1 (by decide), ?_, ?_⟩
  · exact hfailed (.erase "C".toList) (.notSet "C".toList) rfl
  · exact hsession { Shell.bare with session := { Shell.bare.session with environment } } _ rfl
      (.line .refl _)

end Environment

end CommandShell
