import CommandShell.CommandSearch
import CommandShell.Proofs.Path

/-!
# What a search finds

A search walks along the candidates of the search path with the first one in mind that exists but cannot be executed. What it finds in the end depends on two candidates only: the first that is a command, and the first that is there at all. Directories are neither. So a search along two search paths in a row finds what the two searches find on their own, and a command of the second comes before a file of the first that is none.
-/

namespace CommandShell

theorem candidates_append (searchPath later name : Text) :
    candidates (searchPath ++ ':' :: later) name =
      candidates searchPath name ++ candidates later name := by
  rw [candidates, fields_append_cons isColon searchPath rfl, List.map_append]
  rfl

theorem candidates_eq_map {name : Text} (hslash : '/' ∉ name) (searchPath : Text) :
    candidates searchPath name =
      (fields isColon searchPath).map fun entry =>
        if entry = [] then '.' :: '/' :: name else Path.join entry name := by
  have hhere : Path.join ['.'] name = '.' :: '/' :: name := by
    rw [Path.join, Path.isAbsolute_eq_false hslash]
    rfl
  simp only [candidates, candidate, List.isEmpty_iff, hhere]

namespace Resolution

/-- What is found if these are the first command and the first thing that is there at all. -/
def ofFirst : Option Text → Option Text → Resolution
  | some command, _ => executable command
  | none, some other => notExecutable other
  | none, none => notFound

/-- What is found by going on with a second search. -/
def orLater : Resolution → Resolution → Resolution
  | executable path, _ => executable path
  | _, executable path => executable path
  | notExecutable path, _ => notExecutable path
  | notFound, notExecutable path => notExecutable path
  | notFound, notFound => notFound

theorem ofFirst_eq_executable_iff {command other : Option Text} {path : Text} :
    ofFirst command other = executable path ↔ command = some path := by
  cases command <;> cases other <;> simp [ofFirst]

theorem ofFirst_eq_notExecutable_iff {command other : Option Text} {path : Text} :
    ofFirst command other = notExecutable path ↔ command = none ∧ other = some path := by
  cases command <;> cases other <;> simp [ofFirst]

theorem ofFirst_eq_notFound_iff {command other : Option Text} :
    ofFirst command other = notFound ↔ command = none ∧ other = none := by
  cases command <;> cases other <;> simp [ofFirst]

theorem ofFirst_orLater (command other laterCommand laterOther : Option Text) :
    (ofFirst command other).orLater (ofFirst laterCommand laterOther) =
      ofFirst (command.or laterCommand) (other.or laterOther) := by
  cases command <;> cases other <;> cases laterCommand <;> cases laterOther <;> rfl

end Resolution

namespace Host

/-- The path leads to a regular file that can be executed. -/
def isCommand (host : Host) (path : Text) : Bool :=
  (host.find? (.ofText path)).any Entry.isExecutable

/-- The path leads to something other than a directory. -/
def isPresent (host : Host) (path : Text) : Bool :=
  (host.find? (.ofText path)).any fun entry => !entry.isDirectory

variable (host : Host)

theorem isCommand_iff {path : Text} :
    host.isCommand path = true ↔
      ∃ entry, host.find? (.ofText path) = some entry ∧ entry.isExecutable = true := by
  rw [isCommand, Option.any_eq_true]

theorem isPresent_of_isCommand {path : Text} (h : host.isCommand path = true) :
    host.isPresent path = true := by
  obtain ⟨entry, hfind, hexecutable⟩ := host.isCommand_iff.1 h
  rw [isPresent, hfind]
  cases entry with
  | file content rights => rfl
  | directory | link | pipe | device => simp [Entry.isExecutable] at hexecutable

/-- A candidate is the command, or it may be kept in mind, or it is passed over. -/
theorem search_cons (denied : Option Text) (path : Text) (rest : List Text) :
    host.search denied (path :: rest) =
      if host.isCommand path then .executable path
      else host.search (if host.isPresent path then denied.or (some path) else denied) rest := by
  rw [search, isDirectory, classify, isCommand, isPresent]
  cases host.find? (.ofText path) with
  | none => rfl
  | some entry =>
    cases entry with
    | file content rights =>
      cases hexecute : rights.execute <;> simp [Entry.isExecutable, Entry.isDirectory, hexecute]
    | directory | link | pipe | device => rfl

theorem search_eq_ofFirst (denied : Option Text) (paths : List Text) :
    host.search denied paths =
      .ofFirst (paths.find? host.isCommand) (denied.or (paths.find? host.isPresent)) := by
  induction paths generalizing denied with
  | nil => cases denied <;> rfl
  | cons path rest ih =>
    rw [search_cons, List.find?_cons, List.find?_cons]
    cases host.isCommand path with
    | true => rfl
    | false =>
      cases host.isPresent path with
      | true =>
        -- The candidate is kept in mind only if none was before it.
        refine (ih (denied.or (some path))).trans ?_
        rw [Option.or_assoc, Option.some_or]
      | false => exact ih denied

variable {name : Text}

theorem resolve_eq_ofFirst (hname : name ≠ []) (hslash : '/' ∉ name) (searchPath : Text) :
    host.resolve name (some searchPath) =
      .ofFirst ((candidates searchPath name).find? host.isCommand)
        ((candidates searchPath name).find? host.isPresent) := by
  rw [resolve, if_neg (by simpa using hname), if_neg (by simpa using hslash), search_eq_ofFirst]
  rfl

/-- A name without `/` is looked up along the search path as follows. The first candidate that is an executable file is the command. If there is none, the first candidate that exists and is no directory cannot be executed, and without such a candidate nothing is found. So a longer search path gives the command of its first part or else that of its second part, and only then a file that is none. -/
theorem resolve_along_searchPath (hname : name ≠ []) (hslash : '/' ∉ name) (searchPath : Text) :
    let found := host.resolve name (some searchPath)
    let paths := (fields isColon searchPath).map fun entry =>
      if entry = [] then '.' :: '/' :: name else Path.join entry name
    (∀ path, found = .executable path ↔
        ∃ earlier later, paths = earlier ++ path :: later ∧ host.isCommand path = true ∧
          ∀ other ∈ earlier, host.isCommand other = false) ∧
      (∀ path, found = .notExecutable path ↔
        (∀ other ∈ paths, host.isCommand other = false) ∧
          ∃ earlier later, paths = earlier ++ path :: later ∧ host.isPresent path = true ∧
            ∀ other ∈ earlier, host.isPresent other = false) ∧
      (found = .notFound ↔ ∀ other ∈ paths, host.isPresent other = false) ∧
      ∀ later, host.resolve name (some (searchPath ++ ':' :: later)) =
        found.orLater (host.resolve name (some later)) := by
  intro found paths
  have hfirst (p : Text → Bool) (path : Text) : paths.find? p = some path ↔
      ∃ earlier later, paths = earlier ++ path :: later ∧ p path = true ∧
        ∀ other ∈ earlier, p other = false := by
    rw [List.find?_eq_some_iff_append]
    simp only [Bool.not_eq_true']
    constructor
    · intro h
      obtain ⟨hpath, earlier, later, hpaths, hearlier⟩ := h
      exact ⟨earlier, later, hpaths, hpath, hearlier⟩
    · intro h
      obtain ⟨earlier, later, hpaths, hpath, hearlier⟩ := h
      exact ⟨hpath, earlier, later, hpaths, hearlier⟩
  have hnone (p : Text → Bool) : paths.find? p = none ↔ ∀ other ∈ paths, p other = false := by
    simp only [List.find?_eq_none, Bool.not_eq_true]
  have hfound : found = .ofFirst (paths.find? host.isCommand) (paths.find? host.isPresent) := by
    have hresolve := host.resolve_eq_ofFirst hname hslash searchPath
    rwa [candidates_eq_map hslash] at hresolve
  refine ⟨?_, ?_, ?_, ?_⟩
  · intro path
    rw [hfound, Resolution.ofFirst_eq_executable_iff, hfirst]
  · intro path
    rw [hfound, Resolution.ofFirst_eq_notExecutable_iff, hfirst, hnone]
  · rw [hfound, Resolution.ofFirst_eq_notFound_iff, hnone, hnone]
    refine ⟨And.right, fun habsent => ⟨?_, habsent⟩⟩
    intro other hother
    cases hcommand : host.isCommand other with
    | false => rfl
    | true =>
      have hpresent := host.isPresent_of_isCommand hcommand
      rw [habsent other hother] at hpresent
      exact absurd hpresent (by decide)
  · intro later
    rw [host.resolve_eq_ofFirst hname hslash, candidates_append, List.find?_append,
      List.find?_append, ← Resolution.ofFirst_orLater, ← host.resolve_eq_ofFirst hname hslash,
      ← host.resolve_eq_ofFirst hname hslash]

/-- A directory and a file that may not be executed come before the command, with the working directory in between. -/
theorem resolve_along_searchPath_command_behind :
    let tool : Text := "tool".toList
    let host : Host :=
      { tree :=
          { top :=
              .tree (Text.utf8 "opt".toList) .directory (.tree tool.utf8 .directory .empty .empty) <|
              .tree (Text.utf8 "lib".toList) .directory
                (.tree tool.utf8 (.file (.data []) (.ofRoot 0o644)) .empty .empty) <|
              .tree (Text.utf8 "bin".toList) .directory
                (.tree tool.utf8 (.link (.path (.ofText "/box".toList))) .empty .empty) <|
              .tree (Text.utf8 "box".toList) (.file (.data [])) .empty .empty } }
    tool ≠ [] ∧ '/' ∉ tool ∧
      host.resolve tool (some "/opt:/lib/".toList) = .notExecutable "/lib/tool".toList ∧
      host.resolve tool (some ":/bin".toList) = .executable "/bin/tool".toList ∧
      host.resolve tool (some "/opt:/lib/::/bin".toList) = .executable "/bin/tool".toList := by
  intro tool host
  have hname : tool ≠ [] := by decide
  have hslash : '/' ∉ tool := by decide
  have hdenied : host.resolve tool (some "/opt:/lib/".toList) =
      .notExecutable "/lib/tool".toList := by decide
  have hlater : host.resolve tool (some ":/bin".toList) = .executable "/bin/tool".toList := by decide
  have hboth := (host.resolve_along_searchPath hname hslash "/opt:/lib/".toList).2.2.2 ":/bin".toList
  rw [hdenied, hlater] at hboth
  exact ⟨hname, hslash, hdenied, hlater, hboth⟩

end Host

end CommandShell
