import CommandShell.Proofs.Builtin.Move
import CommandShell.Proofs.FileTree.Physical

/-!
# Going back

A `cd` leaves behind, as `OLDPWD`, the path of the directory that it left, and `cd -` follows this path. The path was made from names and not from what was typed, so it leads back whatever links and tildes the first `cd` went through. It also leads back if the session had no `PWD`, since then the host was asked. Names that are text are assumed throughout, as variables hold no others.

What goes back is noted like any other move, so two `cd -` in a row exchange `OLDPWD` and `PWD` twice. Both variables are assigned where they stand, and in the end all is as before.

A session can be where its own path does not lead: the path may be too long to be followed, or the process may not search a directory on the way. Such a path is remembered as well, but it does not lead back.
-/

namespace CommandShell

/-- All of the bytes can be written. -/
def Sink.HasRoom (sink : Sink) (bytes : Bytes) : Prop :=
  ∀ room, sink.room = some room → bytes.length ≤ room

namespace Builtin

theorem writeAnswer_of_hasRoom (shell : Shell) {text : Text} (h : shell.sink.HasRoom text.utf8) :
    (writeAnswer shell [text]).1 = .ok 0 ∧
      (writeAnswer shell [text]).2.sink.events = shell.sink.events ++ [.output text.utf8] := by
  have hwrite : ∃ sink, shell.sink.write text.utf8 = (.ok (), sink) ∧
      sink.events = shell.sink.events ++ [.output text.utf8] := by
    rw [Sink.write]
    cases hroom : shell.sink.room with
    | none => exact ⟨_, rfl, Sink.events_add ..⟩
    | some room =>
      dsimp only
      rw [if_pos (h room hroom)]
      exact ⟨_, rfl, Sink.events_add ..⟩
  obtain ⟨sink, hsink, hevents⟩ := hwrite
  rw [writeAnswer, Shell.write, Sink.writeAll, hsink]
  exact ⟨rfl, hevents⟩

/-! ### What a move leaves behind -/

namespace IsMoved

variable {before after : Shell} {argument : Option Text} {left entered : Text}

theorem get?_pwd (h : IsMoved before argument left entered after) :
    after.session.environment.get? "PWD".toList = some entered := by
  rw [Environment.get?, h.entries_eq, lookup_assign, if_pos rfl]

theorem get?_oldpwd (h : IsMoved before argument left entered after) :
    after.session.environment.get? "OLDPWD".toList = some left := by
  rw [Environment.get?, h.entries_eq, lookup_assign, if_neg (by decide), lookup_assign, if_pos rfl]

theorem wellFormed (h : IsMoved before argument left entered after)
    (hwf : before.session.environment.WellFormed) : after.session.environment.WellFormed := by
  obtain ⟨middle, hfirst, hsecond⟩ := h.noted
  have hleft : before.session.environment.edit (.set "OLDPWD".toList left) = .ok middle := hfirst
  have hentered : middle.edit (.set "PWD".toList entered) = .ok after.session.environment := hsecond
  exact (hwf.edit hleft).edit hentered

theorem exists_host_eq (h : IsMoved before argument left entered after) :
    ∃ location, after.host = { before.host with location } := by
  obtain ⟨target, -, henter⟩ := h.target
  obtain ⟨spot, -, -, -, hhost⟩ := Host.enter?_eq_some_iff.1 henter
  exact ⟨spot.location, hhost⟩

theorem isPlaced (h : IsMoved before argument left entered after) :
    after.host.IsPlaced ∧ after.host.tree = before.host.tree := by
  obtain ⟨target, -, henter⟩ := h.target
  exact Host.isPlaced_of_enter? henter

end IsMoved

/-- A `cd` that succeeds has moved. -/
theorem exists_isMoved_of_ok {shell : Shell} (hwf : shell.session.environment.WellFormed)
    (hplaced : shell.host.IsPlaced) (hnames : ∀ name ∈ shell.host.tree.top.names, 0 ∉ name)
    {arguments : List Text} {status : Status} (hok : (runCd shell arguments).1 = .ok status) :
    ∃ left entered, IsMoved shell arguments.head? left entered (runCd shell arguments).2 := by
  have htold (host : Host) (error : FileError) : ¬EntersUntold shell arguments host error := by
    intro huntold
    rw [runCd_of_entersUntold huntold] at hok
    simp at hok
  rcases (cdOutcome_runCd shell arguments).moved_or_refused hwf hplaced hnames htold with
    ⟨hmoved, -⟩ | ⟨-, error, herror, -⟩
  · exact hmoved
  · exact absurd (herror.symm.trans hok) (by simp)

theorem directoryFor_back {shell : Shell} {old : Text}
    (h : shell.session.environment.get? "OLDPWD".toList = some old) :
    directoryFor shell (some ['-']) = .ok (.ofText old) := by
  rw [directoryFor, h]

/-- Two values that are exchanged twice are where they were. -/
theorem assign_exchanged {α β : Type} [DecidableEq α] [BEq α] [LawfulBEq α] {key other : α}
    (hne : other ≠ key) {value otherValue : β} {entries : List (α × β)}
    (hkey : entries.lookup key = some value)
    (hother : entries.lookup other = some otherValue) :
    assign key value (assign other otherValue
      (assign key otherValue (assign other value entries))) = entries := by
  have hmem : key ∈ (assign other value entries).map Prod.fst := by
    by_contra hnew
    rw [← lookup_eq_none_iff_notMem, lookup_assign, if_neg hne.symm, hkey] at hnew
    simp at hnew
  calc assign key value (assign other otherValue (assign key otherValue (assign other value entries)))
      = assign key value (assign key otherValue
          (assign other otherValue (assign other value entries))) := by
        rw [assign_comm_of_mem hne hmem]
    _ = assign key value (assign other otherValue entries) := by rw [assign_assign, assign_assign]
    _ = entries := by rw [assign_of_lookup hother, assign_of_lookup hkey]

/-! ### There and back -/

/-- A session on a tree whose names are text, in a directory whose path is `directory`. -/
structure IsAt (shell : Shell) (directory : Text) : Prop where
  wellFormed : shell.session.environment.WellFormed
  named : ∀ name ∈ shell.host.tree.top.names, IsFileName name ∧ name.IsText
  placed : shell.host.tree.HasDirectoryAt shell.host.location.place
  path : shell.host.location.path? = some (.ofText directory)

/-- The path of the directory is followed to the directory, from wherever this is asked for. -/
def LeadsBack (shell : Shell) (directory : Text) : Prop :=
  directory.utf8.length ≤ longestPath ∧ shell.host.tree.MayEnter shell.host.location.place

namespace IsAt

variable {shell : Shell} {directory : Text} (h : IsAt shell directory)
include h

theorem isPlaced : shell.host.IsPlaced :=
  h.placed.subset_names

theorem nul_notMem : ∀ name ∈ shell.host.tree.top.names, 0 ∉ name :=
  fun name hname => (h.named name hname).1.nul_notMem

theorem isFileName : ∀ name ∈ shell.host.location.place, IsFileName name :=
  fun name hname => (h.named name (h.isPlaced hname)).1

theorem location_eq : shell.host.location = { place := shell.host.location.place } := by
  have hpath := h.path
  rw [Location.path?] at hpath
  split at hpath
  · simp at hpath
  · next hpresent =>
    have hgone : shell.host.location.gone = [] := by
      simpa [Location.isRemoved] using hpresent
    rw [Location.mk.injEq]
    exact ⟨rfl, hgone⟩

theorem path_place : Location.path? { place := shell.host.location.place } = some (.ofText directory) := by
  rw [← h.location_eq]
  exact h.path

theorem path_eq {path : HostPath} (hpath : shell.host.workingDirectory = .ok path) :
    path = .ofText directory := by
  obtain ⟨hlocation, -⟩ := Host.workingDirectory_eq_ok_iff.1 hpath
  exact Option.some.inj (hlocation.symm.trans h.path)

/-- Where `PWD` is current, the directory that a move notes as left is the one that it left. -/
theorem left_eq (hcurrent : shell.surroundings.PwdIsCurrent) {after : Shell} {argument : Option Text}
    {left entered : Text} (hmoved : IsMoved shell argument left entered after) : left = directory := by
  rcases hmoved.departed with hvalue | ⟨-, path, hpath, rfl⟩
  · rcases hcurrent with hunset | ⟨noted, hnoted, hset⟩
    · exact absurd (hunset.symm.trans hvalue) (by simp)
    · obtain rfl : noted = left := Option.some.inj (hset.symm.trans hvalue)
      have hsame : HostPath.ofText noted = .ofText directory :=
        Option.some.inj (hnoted.symm.trans h.path)
      rw [← HostPath.shown_ofText noted, hsame, HostPath.shown_ofText]
  · rw [h.path_eq hpath, HostPath.shown_ofText]

/-- The new directory has text for a path as well. -/
theorem arrived_eq {after : Shell} {argument : Option Text} {left entered : Text}
    (hmoved : IsMoved shell argument left entered after) :
    after.host.workingDirectory = .ok (.ofText entered) := by
  obtain ⟨path, hpath, rfl⟩ := hmoved.arrived
  obtain ⟨hthere, htree⟩ := hmoved.isPlaced
  have htext : ∀ name ∈ after.host.location.place, name.IsText := by
    intro name hname
    have hmem := hthere hname
    rw [htree] at hmem
    exact (h.named name hmem).2
  rw [Location.ofText_shown_path htext (Host.workingDirectory_eq_ok_iff.1 hpath).1]
  exact hpath

theorem enter?_back (hback : LeadsBack shell directory) (location : Location) :
    Host.enter? { shell.host with location } (.ofText directory) = some shell.host := by
  have henter := Host.enter?_path { shell.host with location } h.isFileName h.path_place hback.1 hback.2
  rw [henter, ← h.location_eq]

theorem workingDirectory_eq (hback : LeadsBack shell directory) :
    shell.host.workingDirectory = .ok (.ofText directory) :=
  Host.workingDirectory_eq_ok_iff.2 ⟨h.path, .inl hback.1⟩

theorem not_enter?_back (hlost : ¬LeadsBack shell directory) (location : Location) :
    Host.enter? { shell.host with location } (.ofText directory) = none := by
  by_cases hfits : directory.utf8.length ≤ longestPath
  · have hclosed : ¬shell.host.tree.MayEnter shell.host.location.place := fun hopen =>
      hlost ⟨hfits, hopen⟩
    exact Host.enter?_path_of_closed _ h.isFileName h.placed h.path_place hclosed
  · exact Host.enter?_of_long _ (Nat.not_le.1 hfits)

/-- A directory that is reached by its path is the directory of that path. -/
theorem eq_of_enter? {place : Place} (hplace : shell.host.tree.HasDirectoryAt place) {path : HostPath}
    (hpath : Location.path? { place } = some path) {host : Host}
    (henter : shell.host.enter? path = some host) : host.workingDirectory = .ok path := by
  have hnames : ∀ name ∈ place, IsFileName name := fun name hname =>
    (h.named name (hplace.subset_names hname)).1
  obtain ⟨spot, hwalk, -⟩ := Host.enter?_eq_some_iff.1 henter
  obtain ⟨hfits, -⟩ := FileTree.walk_eq_ok_iff.1 hwalk
  by_cases hopen : shell.host.tree.MayEnter place
  · rw [Host.enter?_path _ hnames hpath hfits hopen] at henter
    rw [← Option.some.inj henter]
    exact Host.workingDirectory_eq_ok_iff.2 ⟨hpath, .inl hfits⟩
  · rw [Host.enter?_path_of_closed _ hnames hplace hpath hopen] at henter
    simp at henter

end IsAt

section Back

variable {shell after : Shell} {argument : Option Text} {directory entered : Text}
  (hat : IsAt shell directory) (hmoved : IsMoved shell argument directory entered after)
include hmoved

theorem IsMoved.leftDirectory_eq : leftDirectory after = .ok entered := by
  rw [leftDirectory, hmoved.get?_pwd]

include hat

theorem IsMoved.runCd_back_of_lost (hlost : ¬LeadsBack shell directory) :
    runCd after [['-']] = (.error (.cannotEnter ['-']), after) := by
  obtain ⟨location, hhost⟩ := hmoved.exists_host_eq
  have hrun := runCd_toList after (some ['-'])
  rw [directoryFor_back hmoved.get?_oldpwd, hmoved.leftDirectory_eq] at hrun
  dsimp only at hrun
  rw [move, hhost, hat.not_enter?_back hlost] at hrun
  exact hrun

/-- The second of the two moves: it leads back and is printed. -/
theorem IsMoved.back (hback : LeadsBack shell directory) :
    IsMoved after (some ['-']) entered directory (runCd after [['-']]).2 ∧
      (runCd after [['-']]).2.host = shell.host ∧
      (after.sink.HasRoom (directory ++ ['\n']).utf8 →
        (runCd after [['-']]).1 = .ok 0 ∧
        (runCd after [['-']]).2.sink.events =
          after.sink.events ++ [.output (directory ++ ['\n']).utf8]) := by
  have henters : Enters after (some ['-']) entered shell.host := by
    obtain ⟨location, hhost⟩ := hmoved.exists_host_eq
    refine ⟨⟨_, directoryFor_back hmoved.get?_oldpwd, ?_⟩, hmoved.leftDirectory_eq⟩
    rw [hhost]
    exact hat.enter?_back hback location
  have hthere := hat.workingDirectory_eq hback
  obtain ⟨hplaced, htree⟩ := hmoved.isPlaced
  have hwf := hmoved.wellFormed hat.wellFormed
  obtain ⟨environment, hnote⟩ :=
    henters.exists_noteMove hwf hplaced (htree ▸ hat.nul_notMem) hthere
  have hreturned := isMoved_arrivedAt henters hthere hnote
  have hrun := runCd_of_enters henters hthere hnote
  rw [HostPath.shown_ofText] at hreturned hrun
  rw [if_pos rfl] at hrun
  obtain ⟨sink, hsink, -⟩ :=
    writeAnswer_cases (arrivedAt after shell.host environment) [directory ++ ['\n']]
  have hsecond : (runCd after [['-']]).2 = { arrivedAt after shell.host environment with sink } :=
    (congrArg Prod.snd hrun).trans hsink
  refine ⟨?_, ?_, ?_⟩
  · rw [hsecond]
    exact hreturned.withSink sink
  · rw [hsecond]
    rfl
  · intro hroom
    rw [show runCd after [['-']] = _ from hrun]
    exact writeAnswer_of_hasRoom _ hroom

end Back

/-- After two exchanges of `OLDPWD` and `PWD` the variables are as before. -/
theorem IsMoved.exchanged {shell after : Shell} {argument : Option Text} {directory old : Text}
    (hmoved : IsMoved shell argument directory old after) (hat : IsAt shell directory)
    (hback : LeadsBack shell directory)
    (hpwd : shell.session.environment.get? "PWD".toList = some directory)
    (hold : shell.session.environment.get? "OLDPWD".toList = some old) :
    (runCd after [['-']]).2.session.environment = shell.session.environment ∧
      (runCd after [['-']]).2.host = shell.host := by
  obtain ⟨hreturned, hhost, -⟩ := hmoved.back hat hback
  refine ⟨congrArg Environment.mk ?_, hhost⟩
  rw [hreturned.entries_eq, hmoved.entries_eq]
  exact assign_exchanged (by decide) hpwd hold

/-- A `cd -` to the path of a directory is refused or leads to the directory of that path. -/
theorem IsAt.moved_or_refused {shell : Shell} {directory old : Text} (hat : IsAt shell directory)
    (hold : shell.session.environment.get? "OLDPWD".toList = some old) {place : Place}
    (hplace : shell.host.tree.HasDirectoryAt place)
    (hpath : Location.path? { place } = some (.ofText old)) :
    (∃ left, IsMoved shell (some ['-']) left old (runCd shell [['-']]).2) ∨
      (runCd shell [['-']]).2 = shell := by
  have htold (host : Host) (error : FileError) : ¬EntersUntold shell [['-']] host error := by
    rintro ⟨argument, target, left, hargument, htarget, -, henter, herror⟩
    obtain rfl : argument = some ['-'] := by
      cases argument with
      | none => simp at hargument
      | some word => simpa using hargument.symm
    rw [directoryFor_back hold] at htarget
    obtain rfl := Except.ok.inj htarget
    rw [hat.eq_of_enter? hplace hpath henter] at herror
    simp at herror
  have houtcome := cdOutcome_runCd shell [['-']]
  rcases houtcome.moved_or_refused hat.wellFormed hat.isPlaced hat.nul_notMem htold with
    ⟨⟨left, entered, hmoved⟩, -⟩ | ⟨hsame, -⟩
  · obtain ⟨target, htarget, henter⟩ := hmoved.target
    rw [List.head?_cons, directoryFor_back hold] at htarget
    obtain rfl := Except.ok.inj htarget
    have harrived := hat.eq_of_enter? hplace hpath henter
    rw [hat.arrived_eq hmoved] at harrived
    have hentered : entered = old := by
      rw [← HostPath.shown_ofText entered, Except.ok.inj harrived, HostPath.shown_ofText]
    rw [hentered] at hmoved
    exact .inl ⟨left, hmoved⟩
  · exact .inr hsame

/-- `cd -` undoes `cd`. Where `PWD` is unset or says where the session is, a `cd -` after any `cd` that succeeded leads back to the directory, prints it, notes it in `PWD` and notes in `OLDPWD` where the first `cd` had led. Two `cd -` in a row leave the variables and the directory as they were, if both variables are set and `OLDPWD` is the path of a directory. All of this is so for a directory whose path can be followed: it is not too long, and the process may search the directory and those above it. Any other is not found again, and the `cd -` fails and changes nothing. -/
theorem runCd_back_undoes (shell : Shell) (arguments : List Text) {directory : HostPath}
    (hwf : shell.session.environment.WellFormed)
    (hnames : ∀ name ∈ shell.host.tree.top.names, IsFileName name ∧ name.IsText)
    (hplaced : shell.host.tree.HasDirectoryAt shell.host.location.place)
    (hdirectory : shell.host.location.path? = some directory)
    (hcurrent : shell.surroundings.PwdIsCurrent) :
    let first := runCd shell arguments
    let second := runCd first.2 [['-']]
    let swapped := runCd shell [['-']]
    let again := runCd swapped.2 [['-']]
    let leadsBack := directory.bytes.length ≤ longestPath ∧
      shell.host.tree.MayEnter shell.host.location.place
    ∃ here : Text, directory = .ofText here ∧
      (∀ status, first.1 = .ok status → ∃ there : Text,
        first.2.host.workingDirectory = .ok (.ofText there) ∧
        (leadsBack →
          second.2.host = shell.host ∧ second.2.host.workingDirectory = .ok directory ∧
          second.2.session.environment.get? "PWD".toList = some here ∧
          second.2.session.environment.get? "OLDPWD".toList = some there ∧
          (first.2.sink.HasRoom (here ++ ['\n']).utf8 →
            second.1 = .ok 0 ∧
            second.2.sink.events = first.2.sink.events ++ [.output (here ++ ['\n']).utf8])) ∧
        (¬leadsBack → second = (.error (.cannotEnter ['-']), first.2))) ∧
      (leadsBack → shell.surroundings.PwdIsNoted → ∀ old place,
        shell.session.environment.get? "OLDPWD".toList = some old →
        shell.host.tree.HasDirectoryAt place → Location.path? { place } = some (.ofText old) →
          again.2.session.environment = shell.session.environment ∧ again.2.host = shell.host) := by
  intro first second swapped again leadsBack
  have htext : ∀ name ∈ shell.host.location.place, name.IsText := fun name hname =>
    (hnames name (hplaced.subset_names hname)).2
  have hhere := Location.ofText_shown_path htext hdirectory
  have hat : IsAt shell directory.shown := ⟨hwf, hnames, hplaced, hdirectory.trans (by rw [hhere])⟩
  have hleads : leadsBack ↔ LeadsBack shell directory.shown := by
    have hlength : directory.bytes.length = directory.shown.utf8.length :=
      congrArg (fun path => path.bytes.length) hhere.symm
    exact and_congr_left' (by rw [hlength])
  refine ⟨directory.shown, hhere.symm, ?_, ?_⟩
  · intro status hok
    obtain ⟨left, there, hmoved⟩ := exists_isMoved_of_ok hwf hat.isPlaced hat.nul_notMem hok
    obtain rfl := hat.left_eq hcurrent hmoved
    refine ⟨there, hat.arrived_eq hmoved, ?_, fun hlost => hmoved.runCd_back_of_lost hat (mt hleads.2 hlost)⟩
    intro hback
    obtain ⟨hreturned, hhost, hprinted⟩ := hmoved.back hat (hleads.1 hback)
    refine ⟨hhost, ?_, hreturned.get?_pwd, hreturned.get?_oldpwd, hprinted⟩
    show (runCd first.2 [['-']]).2.host.workingDirectory = _
    rw [hhost, hat.workingDirectory_eq (hleads.1 hback), hhere]
  · rintro hback ⟨noted, hnoted, hpwd⟩ old place hold hplace hpath
    rcases hat.moved_or_refused hold hplace hpath with ⟨left, hmoved⟩ | hsame
    · obtain rfl := hat.left_eq hcurrent hmoved
      obtain rfl : noted = directory.shown := by
        rw [← HostPath.shown_ofText noted, Option.some.inj (hnoted.symm.trans hdirectory)]
      exact hmoved.exchanged hat (hleads.1 hback) hpwd hold
    · -- A `cd -` that is refused leaves all as it was, and so does the next, which is the same.
      have hagain : again.2 = shell :=
        (congrArg (fun shell => (runCd shell [['-']]).2) hsame).trans hsame
      rw [hagain]
      exact ⟨rfl, rfl⟩

/-- A `cd` through a link and back, two `cd -` in a session that knows where it was before, and one from below a directory that may not be searched. -/
theorem runCd_back_undoes_link :
    let top : Forest :=
      .tree (Text.utf8 "a".toList) .directory
          (.tree (Text.utf8 "b".toList) .directory .empty .empty) <|
        .tree (Text.utf8 "c".toList) (.directory { execute := false })
          (.tree (Text.utf8 "e".toList) .directory .empty .empty) <|
        .tree (Text.utf8 "d".toList) .directory .empty <|
        .tree (Text.utf8 "k".toList) (.link (.path (.ofText "a/b".toList))) .empty .empty
    let environment := Environment.ofList [("OLDPWD".toList, "/a".toList), ("X".toList, "1".toList),
      ("PWD".toList, "/d".toList)]
    let shell : Shell :=
      { session := { args := [], environment, processId := ['1'] }
        host := { tree := { top }, location := { place := [Text.utf8 "d".toList] } } }
    let first := runCd shell ["../k".toList]
    let second := runCd first.2 [['-']]
    let again := runCd (runCd shell [['-']]).2 [['-']]
    let below : Shell :=
      { session := { args := [], environment := {}, processId := ['1'] }
        host :=
          { tree := { top }
            location := { place := [Text.utf8 "c".toList, Text.utf8 "e".toList] } } }
    let left := runCd below ["/d".toList]
    (first.1 = .ok 0 ∧ first.2.host.workingDirectory = .ok (.ofText "/a/b".toList) ∧
      second.1 = .ok 0 ∧ second.2.host = shell.host ∧
      second.2.sink.events = [.output (Text.utf8 ("/d".toList ++ ['\n']))] ∧
      second.2.session.environment.get? "PWD".toList = some "/d".toList ∧
      second.2.session.environment.get? "OLDPWD".toList = some "/a/b".toList ∧
      again.2.session.environment = environment) ∧
      left.1 = .ok 0 ∧ runCd left.2 [['-']] = (.error (.cannotEnter ['-']), left.2) := by
  intro top environment shell first second again below left
  have hok : first.1 = .ok 0 := by decide +kernel
  have hleft : left.1 = .ok 0 := by decide +kernel
  have hthere : first.2.host.workingDirectory = .ok (.ofText "/a/b".toList) := by decide +kernel
  have hsilent : first.2.sink = {} := by decide +kernel
  have hnoted : shell.surroundings.PwdIsNoted := ⟨"/d".toList, by decide +kernel, by decide +kernel⟩
  constructor
  · obtain ⟨here, hhere, hundone, hexchanged⟩ := runCd_back_undoes shell ["../k".toList]
      (Environment.wellFormed_ofList _) (by decide +kernel) (by decide +kernel)
      (by decide +kernel : shell.host.location.path? = some (.ofText "/d".toList)) (.inr hnoted)
    obtain rfl : "/d".toList = here := by
      rw [← HostPath.shown_ofText here, ← hhere, HostPath.shown_ofText]
    obtain ⟨there, hentered, hback, -⟩ := hundone 0 hok
    obtain rfl : there = "/a/b".toList := by
      rw [← HostPath.shown_ofText there, Except.ok.inj (hentered.symm.trans hthere),
        HostPath.shown_ofText]
    obtain ⟨hhost, -, hpwd, hold, hprinted⟩ := hback (by decide +kernel)
    obtain ⟨hanswer, hevents⟩ := hprinted (by rw [hsilent]; intro room hroom; simp at hroom)
    rw [hsilent] at hevents
    obtain ⟨hagain, -⟩ := hexchanged (by decide +kernel) hnoted "/a".toList [Text.utf8 "a".toList]
      (by decide +kernel) (by decide +kernel) (by decide +kernel)
    refine ⟨hok, hthere, ?_⟩
    dsimp only [second, first, again]
    exact ⟨hanswer, hhost, hevents, hpwd, hold, hagain⟩
  · obtain ⟨here, -, hundone, -⟩ := runCd_back_undoes below ["/d".toList]
      Environment.wellFormed_empty (by decide +kernel) (by decide +kernel)
      (by decide +kernel : below.host.location.path? = some (.ofText "/c/e".toList)) (.inl rfl)
    obtain ⟨there, -, -, hlost⟩ := hundone 0 hleft
    exact ⟨hleft, hlost (by decide +kernel)⟩

/-- A directory sixteen names deep, with names as long as names can be, has a path that is one byte too long. It exists and `cd ..` succeeds, but `cd -` does not lead back. -/
theorem runCd_back_undoes_not_in_depth :
    let place : Place := List.replicate 16 (Text.utf8 (List.replicate 85 '€'))
    let shell : Shell :=
      { session := { args := [], environment := {}, processId := ['1'] }
        host := { tree := { top := .sprout .directory place }, location := { place } } }
    let first := runCd shell [['.', '.']]
    let second := runCd first.2 [['-']]
    (∀ name ∈ shell.host.tree.top.names, IsFileName name ∧ name.IsText) ∧
      shell.host.HasDirectory ∧ shell.surroundings.PwdIsCurrent ∧ first.1 = .ok 0 ∧
      second = (.error (.cannotEnter ['-']), first.2) ∧
      second.2.host.location ≠ shell.host.location := by
  intro place shell first second
  have hnames : ∀ name ∈ shell.host.tree.top.names, IsFileName name ∧ name.IsText := by
    decide +kernel
  have hplaced : shell.host.tree.HasDirectoryAt shell.host.location.place := by decide +kernel
  let path : HostPath := { bytes := place.flatMap fun name => HostPath.slash :: name }
  have hpath : shell.host.location.path? = some path := rfl
  have hlong : longestPath < path.bytes.length := by
    rw [List.length_flatMap]
    decide +kernel
  have hhere : HostPath.ofText path.shown = path :=
    Location.ofText_shown_path (fun name hname => (hnames name (hplaced.subset_names hname)).2) hpath
  have hat : IsAt shell path.shown :=
    ⟨Environment.wellFormed_empty, hnames, hplaced, by rw [hhere, hpath]⟩
  have hlost : ¬LeadsBack shell path.shown := by
    rintro ⟨hfits, -⟩
    have hlength : path.shown.utf8.length = path.bytes.length :=
      congrArg (fun path => path.bytes.length) hhere
    omega
  have hok : first.1 = .ok 0 := by decide +kernel
  have hmoved := exists_isMoved_of_ok hat.wellFormed hat.isPlaced hat.nul_notMem hok
  obtain ⟨left, entered, hmoved⟩ := hmoved
  obtain rfl := hat.left_eq (.inl rfl) hmoved
  have hback : second = (.error (.cannotEnter ['-']), first.2) :=
    hmoved.runCd_back_of_lost hat hlost
  refine ⟨hnames, ⟨rfl, by decide +kernel⟩, .inl rfl, hok, hback, ?_⟩
  rw [hback]
  decide +kernel

end Builtin

end CommandShell
