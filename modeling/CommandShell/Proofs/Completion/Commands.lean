import CommandShell.Completion
import CommandShell.Proofs.CommandSearch
import CommandShell.Proofs.FileTree.Walk

/-!
# Which command names are proposed

Running a name tries it in one directory of the search path after another and follows links on the way, while completion lists the directories and looks at nothing but the type of what is in them. Nothing that can be run is missed by this. A walk to a name in a directory is a walk to the directory and one step more, so the directory can be listed if the name can be run; and the step finds the name among what is listed, either as the file itself or as a link to it.

A step to `.` or `..` finds nothing in a list, but it ends at a directory, which cannot be run.
-/

namespace CommandShell

namespace Entry

theorem isFileOrLink_of_isExecutable {entry : Entry} (h : entry.isExecutable = true) :
    entry.isFileOrLink = true := by
  cases entry <;> simp_all [isExecutable, isFileOrLink]

theorem isDirectory_eq_false_of_isExecutable {entry : Entry} (h : entry.isExecutable = true) :
    entry.isDirectory = false := by
  cases entry <;> simp_all [isExecutable, isDirectory]

end Entry

/-! ### The last step to a command -/

namespace FileTree

variable {tree : FileTree} {spot : Spot}

/-- A stride along one part starts in a directory. It stays there, goes up, or goes down to something that has the part as its name. -/
theorem stride_singleton_cases (tree : FileTree) (spot : Spot) (name : Name) :
    (∃ error, tree.stride spot [name] = .blocked error) ∨
      spot.entry.isDirectory = true ∧
        (tree.stride spot [name] = .arrived spot ∨ tree.stride spot [name] = .arrived spot.up ∨
          ∃ child, (name, child) ∈ (tree.entriesAt spot).toList ∧
            ((∃ target, child = .link target) ∨
              ∃ next, tree.stride spot [name] = .arrived next ∧ next.entry = child)) := by
  rw [stride]
  split
  · exact .inl ⟨_, rfl⟩
  · next hdirectory =>
    have hspot : spot.entry.isDirectory = true := by simpa using hdirectory
    split
    · exact .inr ⟨hspot, .inl rfl⟩
    · split
      · exact .inl ⟨_, rfl⟩
      · split
        · exact .inr ⟨hspot, .inl rfl⟩
        · split
          · exact .inr ⟨hspot, .inr (.inl rfl)⟩
          · split
            · exact .inl ⟨_, rfl⟩
            · next lower hdown =>
              obtain ⟨-, entry, below, hfind, hentry, -⟩ := exists_find?_of_down hdown
              refine .inr ⟨hspot, .inr (.inr ⟨entry, Forest.mem_toList_of_find? hfind, ?_⟩)⟩
              split
              · next target hlink => exact .inl ⟨target, hentry.symm.trans hlink⟩
              · exact .inr ⟨lower, rfl, hentry⟩

/-- The last step of a walk to an executable file goes down from a directory, to the file or to a link. -/
theorem exists_child_of_walkParts {links : Nat} {name : Name} {destination : Spot}
    (hspot : spot.IsGrounded) (h : tree.walkParts links spot [name] = .ok destination)
    (hexecutable : destination.entry.isExecutable = true) :
    spot.entry.isDirectory = true ∧
      ∃ child, (name, child) ∈ (tree.entriesAt spot).toList ∧ child.isFileOrLink = true := by
  have hfile := Entry.isDirectory_eq_false_of_isExecutable hexecutable
  rw [walkParts] at h
  rcases tree.stride_singleton_cases spot name with
    ⟨error, hblocked⟩ | ⟨hdirectory, hstays | hup | ⟨child, hmem, hchild⟩⟩
  · rw [hblocked] at h
    simp at h
  · rw [hstays] at h
    rw [← Except.ok.inj h, hdirectory] at hfile
    simp at hfile
  · rw [hup] at h
    rw [← Except.ok.inj h, hspot.entry_up] at hfile
    simp at hfile
  · refine ⟨hdirectory, child, hmem, ?_⟩
    rcases hchild with ⟨target, rfl⟩ | ⟨next, hnext, rfl⟩
    · rfl
    · rw [hnext] at h
      rw [Except.ok.inj h]
      exact Entry.isFileOrLink_of_isExecutable hexecutable

end FileTree

/-! ### Names in directories -/

namespace Path

variable {directory name : Text}

theorem join_cases (hname : '/' ∉ name) (hdirectory : directory ≠ []) :
    (∃ start, directory = start ++ ['/'] ∧ join directory name = start ++ '/' :: name) ∨
      join directory name = directory ++ '/' :: name := by
  rw [join_of_relative hdirectory (isAbsolute_eq_false hname)]
  split
  · next hlast =>
    obtain ⟨start, rfl⟩ := List.getLast?_eq_some_iff.1 hlast
    exact .inl ⟨start, rfl, by simp⟩
  · exact .inr (by simp)

theorem isAbsolute_append (hdirectory : directory ≠ []) (rest : Text) :
    isAbsolute (directory ++ rest) = isAbsolute directory := by
  obtain ⟨c, others, rfl⟩ := List.exists_cons_of_ne_nil hdirectory
  rfl

theorem exists_join_eq_append (hname : '/' ∉ name) (hdirectory : directory ≠ []) :
    ∃ rest, join directory name = directory ++ rest := by
  rcases join_cases hname hdirectory with ⟨start, rfl, hjoin⟩ | hjoin
  · exact ⟨name, by simp [hjoin]⟩
  · exact ⟨'/' :: name, hjoin⟩

/-- The name is the last part of the joined path. A directory that ends in `/` has an empty part in its place. -/
theorem exists_parts_join (hname : '/' ∉ name) (hdirectory : directory ≠ []) :
    ∃ parts, fields isSlash (join directory name) = parts ++ [name] ∧
      (fields isSlash directory = parts ∨ fields isSlash directory = parts ++ [[]]) := by
  have hsingle : fields isSlash name = [name] := fields_of_forall (beq_eq_false_of_notMem hname)
  rcases join_cases hname hdirectory with ⟨start, rfl, hjoin⟩ | hjoin
  · refine ⟨fields isSlash start, ?_, .inr (fields_append_cons isSlash start rfl [])⟩
    rw [hjoin, fields_append_cons isSlash start rfl, hsingle]
  · refine ⟨fields isSlash directory, ?_, .inl rfl⟩
    rw [hjoin, fields_append_cons isSlash directory rfl, hsingle]

end Path

namespace Host

/-- A directory in which a name can be run is one that paths lead to, and it has an entry of that name. -/
theorem exists_child {host : Host} {directory name : Text} (hdirectory : directory ≠ [])
    (hname : '/' ∉ name) {entry : Entry}
    (hfind : host.find? (.ofText (Path.join directory name)) = some entry)
    (hexecutable : entry.isExecutable = true) :
    ∃ above, host.tree.walk host.location (.ofText directory) = .ok above ∧
      above.entry.isDirectory = true ∧
      ∃ child, (name.utf8, child) ∈ (host.tree.entriesAt above).toList ∧
        child.isFileOrLink = true := by
  rw [find?, Option.map_eq_some_iff] at hfind
  obtain ⟨destination, hfound, rfl⟩ := hfind
  obtain ⟨hfits, -, hnul, start, hstart, hwalk⟩ :=
    FileTree.walk_eq_ok_iff.1 (FileTree.walk?_eq_some_iff.1 hfound)
  obtain ⟨rest, hjoin⟩ := Path.exists_join_eq_append hname hdirectory
  obtain ⟨parts, hparts, hends⟩ := Path.exists_parts_join hname hdirectory
  have hsame : host.location.startOf (.ofText (Path.join directory name)) =
      host.location.startOf (.ofText directory) := by
    rw [Location.startOf, Location.startOf, HostPath.isAbsolute_ofText, HostPath.isAbsolute_ofText,
      hjoin, Path.isAbsolute_append hdirectory]
  rw [HostPath.parts_ofText, hparts, List.map_append, List.map_singleton] at hwalk
  rcases host.tree.walkParts_append mostLinks start (parts.map Text.utf8) with
    ⟨error, herror⟩ | ⟨left, above, hon⟩
  · rw [herror] at hwalk
    simp at hwalk
  · rw [hon] at hwalk
    have habove : host.tree.walkParts mostLinks start (parts.map Text.utf8) = .ok above := by
      have hnothing := hon []
      rwa [List.append_nil, FileTree.walkParts.eq_def _ left] at hnothing
    have hgrounded :=
      host.tree.keeps_isGrounded.walkParts (FileTree.isGrounded_spotAt hstart) habove
    obtain ⟨hlistable, child, hmem, hchild⟩ :=
      FileTree.exists_child_of_walkParts hgrounded hwalk hexecutable
    refine ⟨above, ?_, hlistable, child, hmem, hchild⟩
    rw [HostPath.ofText, hjoin, Text.utf8_append] at hfits hnul
    refine FileTree.walk_eq_ok_iff.2 ⟨?_, ?_, ?_, start, hsame ▸ hstart, ?_⟩
    · rw [List.length_append] at hfits
      exact Nat.le_trans (Nat.le_add_right _ _) hfits
    · exact mt Text.utf8_eq_nil_iff.1 hdirectory
    · exact fun hmem => hnul (List.mem_append_left _ hmem)
    · rw [HostPath.parts_ofText]
      rcases hends with hends | hends
      · rw [hends, habove]
      · rw [hends, List.map_append, hon, List.map_singleton, FileTree.walkParts, FileTree.stride,
          hlistable]
        rfl

theorem isDirectory_of_walk {host : Host} {path : HostPath} {spot : Spot}
    (hwalk : host.tree.walk host.location path = .ok spot)
    (hdirectory : spot.entry.isDirectory = true) : host.isDirectory path = true := by
  rw [isDirectory, find?, FileTree.walk?_eq_some_iff.2 hwalk]
  exact hdirectory

/-- A list of a directory has what is in it. -/
theorem list?_of_isSome {host : Host} {path : HostPath} {spot : Spot}
    (hwalk : host.tree.walk host.location path = .ok spot)
    (h : (host.list? path).isSome = true) :
    host.list? path = some (host.tree.entriesAt spot).toList := by
  rw [list?, FileTree.walk?_eq_some_iff.2 hwalk] at h ⊢
  dsimp only at h ⊢
  split at h
  · next hreadable => rw [if_pos hreadable]
  · simp at h

theorem exists_directory_of_resolve {host : Host} {name searchPath found : Text}
    (hname : '/' ∉ name) (h : host.resolve name (some searchPath) = .executable found) :
    ∃ directory ∈ fields isColon searchPath, ∃ entry,
      host.find? (.ofText (candidate directory name)) = some entry ∧ entry.isExecutable = true := by
  have hne : name ≠ [] := by
    rintro rfl
    simp [resolve] at h
  rw [host.resolve_eq_ofFirst hne hname, Resolution.ofFirst_eq_executable_iff] at h
  obtain ⟨directory, hdirectory, rfl⟩ := List.mem_map.1 (List.mem_of_find?_eq_some h)
  exact ⟨directory, hdirectory, host.isCommand_iff.1 (List.find?_some h)⟩

/-! ### Names that are proposed -/

/-- The names that are text stand in the list of the directory. -/
theorem mem_textNames_iff {host : Host} {directory name : Text} {child : Entry} :
    (name, child) ∈ host.textNames directory ↔
      (name.utf8, child) ∈ (host.list? (.ofText directory)).getD [] := by
  rw [textNames, List.mem_filterMap]
  constructor
  · rintro ⟨⟨bytes, entry⟩, hmem, hchild⟩
    obtain ⟨t, htext, heq⟩ := Option.map_eq_some_iff.1 hchild
    obtain ⟨rfl, rfl⟩ := Prod.mk.inj heq
    rwa [← text?_eq_some_iff.1 htext]
  · intro hmem
    refine ⟨(name.utf8, child), hmem, ?_⟩
    rw [text?_eq_some_iff.2 rfl, Option.map_some]

theorem mem_namesOnPath_iff {host : Host} {name searchPath : Text} :
    name ∈ host.namesOnPath searchPath ↔
      ∃ directory ∈ fields isColon searchPath, directory ≠ [] ∧
        ∃ children, host.list? (.ofText directory) = some children ∧
          ∃ child, (name.utf8, child) ∈ children ∧ child.isFileOrLink = true := by
  have hlisted (directory : Text) :
      (∃ child, (name, child) ∈ host.textNames directory ∧ child.isFileOrLink = true) ↔
        ∃ children, host.list? (.ofText directory) = some children ∧
          ∃ child, (name.utf8, child) ∈ children ∧ child.isFileOrLink = true := by
    simp only [mem_textNames_iff]
    cases host.list? (.ofText directory) <;> simp
  simp only [← hlisted, ← and_assoc]
  simp [namesOnPath]

theorem mem_commandNames_iff {host : Host} {name searchPath : Text} :
    name ∈ host.commandNames (some searchPath) ↔
      (∃ builtin, Builtin.ofName? name = some builtin) ∨ name ∈ host.namesOnPath searchPath := by
  rw [commandNames, Text.sortedSet, (sortedBy_perm _ _).mem_iff, List.mem_eraseDups, List.mem_append]
  refine or_congr ?_ Iff.rfl
  constructor
  · intro h
    obtain ⟨builtin, -, rfl⟩ := List.mem_map.1 h
    exact ⟨builtin, Builtin.ofName?_name builtin⟩
  · rintro ⟨builtin, h⟩
    exact List.mem_map.2 ⟨builtin, Builtin.mem_all builtin, Builtin.name_of_ofName? h⟩

end Host

namespace Completer

theorem mem_commandCandidates_iff {completer : Completer} {stem : Text} {proposed : Candidate} :
    proposed ∈ completer.commandCandidates stem ↔
      ∃ name ∈ completer.commandNames, stem <+: name ∧
        proposed = { display := name, replacement := name ++ [' '] } := by
  rw [commandCandidates, List.mem_map]
  constructor
  · rintro ⟨name, hname, rfl⟩
    rw [List.mem_filter, List.isPrefixOf_iff_prefix] at hname
    exact ⟨name, hname.1, hname.2, rfl⟩
  · rintro ⟨name, hname, hstem, rfl⟩
    refine ⟨name, ?_, rfl⟩
    rw [List.mem_filter, List.isPrefixOf_iff_prefix]
    exact ⟨hname, hstem⟩

/-- Completion proposes everything that can be run by its name, and nothing but builtins and what the directories of the search path have of files and links. -/
theorem commandCandidates_ofSearchPath (host : Host) (searchPath : Text) :
    ((∀ directory ∈ fields isColon searchPath, directory ≠ [] ∧
          (host.isDirectory (.ofText directory) = true →
            (host.list? (.ofText directory)).isSome = true)) →
        ∀ name, '/' ∉ name →
          ((∃ builtin, Builtin.ofName? name = some builtin) ∨
            ∃ path, host.resolve name (some searchPath) = .executable path) →
          ∀ stem, stem <+: name →
            { display := name, replacement := name ++ [' '] } ∈
              (ofSearchPath host (some searchPath)).commandCandidates stem) ∧
      ∀ stem, ∀ proposed ∈ (ofSearchPath host (some searchPath)).commandCandidates stem,
        stem <+: proposed.display ∧ proposed.replacement = proposed.display ++ [' '] ∧
          ((∃ builtin, Builtin.ofName? proposed.display = some builtin) ∨
            ∃ directory ∈ fields isColon searchPath, ∃ children,
              host.list? (.ofText directory) = some children ∧
                ((∃ content rights, (proposed.display.utf8, .file content rights) ∈ children) ∨
                  ∃ target, (proposed.display.utf8, .link target) ∈ children)) := by
  constructor
  · intro hentries name hname hrun stem hstem
    refine mem_commandCandidates_iff.2 ⟨name, Host.mem_commandNames_iff.2 ?_, hstem, rfl⟩
    refine hrun.imp_right ?_
    rintro ⟨path, hresolve⟩
    obtain ⟨directory, hdirectory, entry, hfind, hexecutable⟩ :=
      Host.exists_directory_of_resolve hname hresolve
    obtain ⟨hne, hreadable⟩ := hentries directory hdirectory
    rw [candidate, if_neg (by simpa using hne)] at hfind
    obtain ⟨above, habove, hthere, child, hmem, hchild⟩ :=
      Host.exists_child hne hname hfind hexecutable
    have hlist := Host.list?_of_isSome habove (hreadable (Host.isDirectory_of_walk habove hthere))
    exact Host.mem_namesOnPath_iff.2 ⟨directory, hdirectory, hne, _, hlist, child, hmem, hchild⟩
  · intro stem proposed hproposed
    obtain ⟨name, hmem, hstem, rfl⟩ := mem_commandCandidates_iff.1 hproposed
    refine ⟨hstem, rfl, (Host.mem_commandNames_iff.1 hmem).imp_right ?_⟩
    intro honPath
    obtain ⟨directory, hdirectory, -, children, hlist, child, hchild, htype⟩ :=
      Host.mem_namesOnPath_iff.1 honPath
    refine ⟨directory, hdirectory, children, hlist, ?_⟩
    cases child with
    | file content rights => exact .inl ⟨content, rights, hchild⟩
    | link target => exact .inr ⟨target, hchild⟩
    | directory | pipe | device => simp [Entry.isFileOrLink] at htype

/-- A link to a file in another directory, in a directory that the search path reaches by a link. -/
theorem commandCandidates_ofSearchPath_links :
    let tools : Forest := .tree (Text.utf8 "tool".toList) (.file (.data [])) .empty .empty
    let link : Entry := .link (.path (.ofText "../bin/tool".toList))
    let links : Forest := .tree (Text.utf8 "run".toList) link .empty .empty
    let host : Host :=
      { tree :=
          { top :=
              .tree (Text.utf8 "bin".toList) .directory tools <|
              .tree (Text.utf8 "opt".toList) .directory links <|
              .tree (Text.utf8 "here".toList) (.link (.path (.ofText "opt".toList))) .empty .empty }
        location := { place := [Text.utf8 "bin".toList] } }
    let searchPath := "gone:../here/:tool".toList
    host.resolve "run".toList (some searchPath) = .executable "../here/run".toList ∧
      { display := "run".toList, replacement := "run ".toList } ∈
        (ofSearchPath host (some searchPath)).commandCandidates "r".toList := by
  intro tools link links host searchPath
  have hentries : ∀ directory ∈ fields isColon searchPath, directory ≠ [] ∧
      (host.isDirectory (.ofText directory) = true →
        (host.list? (.ofText directory)).isSome = true) := by decide
  have hresolve : host.resolve "run".toList (some searchPath) =
      .executable "../here/run".toList := by decide
  have hproposed := (commandCandidates_ofSearchPath host searchPath).1 hentries
  exact ⟨hresolve, hproposed "run".toList (by decide) (.inr ⟨_, hresolve⟩) "r".toList (by decide)⟩

end Completer

end CommandShell
