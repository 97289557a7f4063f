import CommandShell.Proofs.FileTree.Walk
import CommandShell.Proofs.Path

/-!
# Paths of directories

The path of a directory is made from the names on the way to it. It leads back to the directory from wherever it is followed, because it begins at the root, all its parts are names that are found, and none of them is a link. Two things can be in its way. A host follows no path beyond a number of bytes, although a directory may be so deep that its path is longer. And it lets a process neither pass nor enter a directory that the process may not search, although someone may have brought the process below it.
-/

namespace CommandShell

/-- What a name in a file tree can be. -/
structure IsFileName (name : Name) : Prop where
  ne_nil : name ≠ []
  ne_dot : name ≠ Name.dot
  ne_dots : name ≠ Name.dots
  slash_notMem : HostPath.slash ∉ name
  nul_notMem : 0 ∉ name
  fits : name.length ≤ longestName

instance (name : Name) : Decidable (IsFileName name) :=
  decidable_of_iff
    (name ≠ [] ∧ name ≠ Name.dot ∧ name ≠ Name.dots ∧ HostPath.slash ∉ name ∧ 0 ∉ name ∧
      name.length ≤ longestName)
    ⟨fun ⟨hnil, hdot, hdots, hslash, hnul, hfits⟩ => ⟨hnil, hdot, hdots, hslash, hnul, hfits⟩,
      fun h => ⟨h.ne_nil, h.ne_dot, h.ne_dots, h.slash_notMem, h.nul_notMem, h.fits⟩⟩

/-! ### The parts of a path -/

theorem fields_flatMap_slash {place : Place} (h : ∀ name ∈ place, HostPath.slash ∉ name) :
    fields HostPath.isSlash (place.flatMap fun name => HostPath.slash :: name) = [] :: place := by
  induction place with
  | nil => rfl
  | cons name rest ih =>
    rw [List.forall_mem_cons] at h
    have hname : ∀ b ∈ name, HostPath.isSlash b = false := beq_eq_false_of_notMem h.1
    rw [List.flatMap_cons, List.cons_append, fields_cons, fields_append hname, ih h.2,
      foldr_addToFirst_cons, List.append_nil]
    rfl

/-! ### Going down -/

theorem Forest.exists_find?_of_get? {forest : Forest} {name : Name} {entry : Entry}
    (h : forest.get? [name] = some entry) : ∃ below, forest.find? name = some (entry, below) := by
  induction forest with
  | empty => simp [get?] at h
  | tree known first below others _ ih =>
    rw [get?] at h
    rw [find?]
    split at h
    · next hname =>
      rw [if_pos hname]
      exact ⟨below, by simpa using h⟩
    · next hname =>
      rw [if_neg hname]
      exact ih h

/-- A directory that the process may search. -/
def Entry.isOpen (entry : Entry) : Bool :=
  entry.isDirectory && entry.rights.execute

theorem Entry.isOpen_iff {entry : Entry} :
    entry.isOpen = true ↔ entry.isDirectory = true ∧ entry.rights.execute = true := by
  rw [isOpen, Bool.and_eq_true]

namespace FileTree

variable {tree : FileTree}

/-- What stands below the spot at the end of the names. -/
def entryBelow? (tree : FileTree) (spot : Spot) (place : Place) : Option Entry :=
  if place.isEmpty then some spot.entry else (tree.entriesAt spot).get? place

section Down

variable {spot : Spot} (hpresent : spot.gone = [])
include hpresent

theorem entryBelow?_cons {name : Name} {entry : Entry} {below : Forest}
    (hfind : (tree.entriesAt spot).find? name = some (entry, below)) (rest : Place) :
    tree.entryBelow? spot (name :: rest) =
      tree.entryBelow? { spot with steps := { name, entry, below } :: spot.steps } rest := by
  rw [entryBelow?, List.isEmpty_cons, if_neg Bool.false_ne_true, Forest.get?_cons_of_find? hfind,
    entryBelow?, entriesAt, Spot.entry, Spot.isRemoved, hpresent]
  rfl

/-- Going down to a directory by its name. -/
theorem stride_cons_of_find? (hopen : spot.entry.isOpen = true) {name : Name} (hname : IsFileName name)
    {rights : Rights} {below : Forest}
    (hfind : (tree.entriesAt spot).find? name = some (.directory rights, below)) (rest : Place) :
    tree.stride spot (name :: rest) =
      tree.stride { spot with steps := { name, entry := .directory rights, below } :: spot.steps }
        rest := by
  have hdown : tree.down spot name =
      .ok { spot with steps := { name, entry := .directory rights, below } :: spot.steps } := by
    rw [down, if_neg (Nat.not_lt.2 hname.fits), hfind]
    simp [Spot.isRemoved, hpresent]
  have hentry :
      Spot.entry { spot with steps := { name, entry := .directory rights, below } :: spot.steps } =
        .directory rights := by
    rw [Spot.entry, hpresent]
    rfl
  obtain ⟨hdirectory, hexecute⟩ := Entry.isOpen_iff.1 hopen
  rw [stride, hdirectory, hexecute, hdown, List.isEmpty_eq_false_iff.2 hname.ne_nil,
    beq_eq_false_iff_ne.2 hname.ne_dot, beq_eq_false_iff_ne.2 hname.ne_dots]
  simp only [Bool.not_true, Bool.false_eq_true, if_false, hentry]

/-- The names of directories one below the other, all of which may be searched, are followed to the last of them. -/
theorem stride_of_isOpen {place : Place} (hnames : ∀ name ∈ place, IsFileName name)
    (hopen : ∀ above, above <+: place → (tree.entryBelow? spot above).any Entry.isOpen = true) :
    ∃ last, tree.stride spot place = .arrived last ∧ last.entry.isOpen = true ∧
      last.location = { place := spot.location.place ++ place } := by
  have hhere : spot.entry.isOpen = true := hopen [] List.nil_prefix
  induction place generalizing spot with
  | nil =>
    refine ⟨spot, rfl, hhere, ?_⟩
    rw [List.append_nil, Spot.location, hpresent]
  | cons name rest ih =>
    rw [List.forall_mem_cons] at hnames
    obtain ⟨entry, hget, hentry⟩ := (Option.any_eq_true ..).1
      (hopen [name] (List.cons_prefix_cons.2 ⟨rfl, List.nil_prefix⟩))
    obtain ⟨below, hfind⟩ := Forest.exists_find?_of_get? hget
    cases entry with
    | directory rights =>
      have hbelow (above : Place) (habove : above <+: rest) := hopen (name :: above)
        (List.cons_prefix_cons.2 ⟨rfl, habove⟩)
      simp only [entryBelow?_cons hpresent hfind] at hbelow
      obtain ⟨last, hstride, hlast, hlocation⟩ :=
        @ih { spot with steps := { name, entry := .directory rights, below } :: spot.steps }
          hpresent hnames.2 hbelow (hbelow [] List.nil_prefix)
      refine ⟨last, ?_, hlast, ?_⟩
      · rw [stride_cons_of_find? hpresent hhere hnames.1 hfind, hstride]
      · rw [hlocation]
        simp [Spot.location]
    | file | link | pipe | device => simp [Entry.isOpen, Entry.isDirectory] at hentry

/-- Where one of the directories may not be searched, the names lead nowhere or to one that may not be entered. -/
theorem stride_of_not_isOpen {place : Place} (hnames : ∀ name ∈ place, IsFileName name)
    (hplace : ∀ above, above <+: place →
      (tree.entryBelow? spot above).any Entry.isDirectory = true)
    (hclosed : ¬∀ above, above <+: place → (tree.entryBelow? spot above).any Entry.isOpen = true) :
    (∃ error, tree.stride spot place = .blocked error) ∨
      ∃ last, tree.stride spot place = .arrived last ∧ last.entry.isOpen = false := by
  have hhere : spot.entry.isDirectory = true := hplace [] List.nil_prefix
  induction place generalizing spot with
  | nil =>
    refine .inr ⟨spot, rfl, Bool.eq_false_iff.2 fun hopen => hclosed ?_⟩
    intro above habove
    rw [List.prefix_nil.1 habove]
    exact hopen
  | cons name rest ih =>
    rw [List.forall_mem_cons] at hnames
    cases hexecute : spot.entry.rights.execute with
    | false =>
      refine .inl ⟨.denied, ?_⟩
      rw [stride, hhere, hexecute, List.isEmpty_eq_false_iff.2 hnames.1.ne_nil]
      rfl
    | true =>
      have hopen : spot.entry.isOpen = true := Entry.isOpen_iff.2 ⟨hhere, hexecute⟩
      obtain ⟨entry, hget, hentry⟩ := (Option.any_eq_true ..).1
        (hplace [name] (List.cons_prefix_cons.2 ⟨rfl, List.nil_prefix⟩))
      obtain ⟨below, hfind⟩ := Forest.exists_find?_of_get? hget
      cases entry with
      | directory rights =>
        have hbelow (above : Place) (habove : above <+: rest) := hplace (name :: above)
          (List.cons_prefix_cons.2 ⟨rfl, habove⟩)
        simp only [entryBelow?_cons hpresent hfind] at hbelow
        rw [stride_cons_of_find? hpresent hopen hnames.1 hfind]
        refine ih hpresent hnames.2 hbelow (fun hall => hclosed fun above habove => ?_)
          (hbelow [] List.nil_prefix)
        rcases List.prefix_cons_iff.1 habove with rfl | ⟨lower, rfl, hlower⟩
        · exact hopen
        · rw [entryBelow?_cons hpresent hfind]
          exact hall lower hlower
      | file | link | pipe | device => simp [Entry.isDirectory] at hentry

end Down

/-! ### Following the path of a directory -/

/-- The place and all places above it are directories. -/
def HasDirectoryAt (tree : FileTree) (place : Place) : Prop :=
  ∀ above, above <+: place → (tree.get? above).any Entry.isDirectory = true

/-- The place and all places above it are directories that the process may search. -/
def MayEnter (tree : FileTree) (place : Place) : Prop :=
  ∀ above, above <+: place → (tree.get? above).any Entry.isOpen = true

theorem forall_isPrefix_iff {place : Place} {p : Place → Prop} :
    (∀ above, above <+: place → p above) ↔ ∀ size ≤ place.length, p (place.take size) := by
  constructor
  · intro h size _
    exact h _ (List.take_prefix size _)
  · intro h above habove
    rw [List.prefix_iff_eq_take.1 habove]
    exact h above.length habove.length_le

instance (tree : FileTree) (place : Place) : Decidable (tree.HasDirectoryAt place) :=
  decidable_of_iff _ forall_isPrefix_iff.symm

instance (tree : FileTree) (place : Place) : Decidable (tree.MayEnter place) :=
  decidable_of_iff _ forall_isPrefix_iff.symm

/-- Where a walk stands at the root. -/
def atRoot (tree : FileTree) : Spot :=
  { top := tree.rights }

variable {place : Place}

theorem HasDirectoryAt.subset_names (h : tree.HasDirectoryAt place) : place ⊆ tree.top.names :=
  have hhost : Host.HasDirectory { tree, location := { place } } := ⟨rfl, h place List.prefix_rfl⟩
  hhost.isPlaced

/-- The parts of the path of a directory are an empty one, which stays at the root, and the names. -/
theorem stride_path (hslash : ∀ name ∈ place, HostPath.slash ∉ name) {path : HostPath}
    (hpath : Location.path? { place } = some path) :
    path.isAbsolute = true ∧ tree.stride tree.atRoot path.parts = tree.stride tree.atRoot place := by
  rcases place with _ | ⟨first, rest⟩
  · obtain rfl : { bytes := [HostPath.slash] } = path := Option.some.inj hpath
    exact ⟨rfl, rfl⟩
  · obtain rfl : { bytes := (first :: rest).flatMap fun name => HostPath.slash :: name } = path :=
      Option.some.inj hpath
    rw [HostPath.parts, fields_flatMap_slash hslash]
    exact ⟨rfl, rfl⟩

/-- Following the path of a directory is following its names from the root. -/
theorem walk_path (hnames : ∀ name ∈ place, IsFileName name) {path : HostPath}
    (hpath : Location.path? { place } = some path) (hfits : path.bytes.length ≤ longestPath)
    (location : Location) :
    tree.walk location path = tree.walkParts mostLinks tree.atRoot path.parts := by
  have habsolute := (tree.stride_path (fun name hname => (hnames name hname).slash_notMem) hpath).1
  have hne : path.bytes ≠ [] := by
    intro hnil
    simp [HostPath.isAbsolute, hnil] at habsolute
  have hnul : 0 ∉ path.bytes :=
    Location.notMem_path (by decide) (fun name hname => (hnames name hname).nul_notMem) hpath
  have hnamed : (path.bytes.isEmpty || path.bytes.contains 0) = false := by simp [hne, hnul]
  rw [walk, if_neg (Nat.not_lt.2 hfits), hnamed, walkAnyPath, habsolute]
  rfl

end FileTree

namespace Host

variable (host : Host) {place : Place} {path : HostPath}

/-- The path of a directory leads there from every location, if it is not too long and the process may search all directories on the way. -/
theorem enter?_path (hnames : ∀ name ∈ place, IsFileName name)
    (hpath : Location.path? { place } = some path) (hfits : path.bytes.length ≤ longestPath)
    (hopen : host.tree.MayEnter place) :
    host.enter? path = some { host with location := { place } } := by
  obtain ⟨last, hstride, hlast, hlocation⟩ :=
    FileTree.stride_of_isOpen (rfl : host.tree.atRoot.gone = []) hnames hopen
  have hparts := (host.tree.stride_path (fun name hname => (hnames name hname).slash_notMem) hpath).2
  obtain ⟨hdirectory, hexecute⟩ := Entry.isOpen_iff.1 hlast
  refine enter?_eq_some_iff.2 ⟨last, ?_, hdirectory, hexecute, ?_⟩
  · rw [FileTree.walk_path hnames hpath hfits, FileTree.walkParts, hparts, hstride]
  · rw [hlocation]
    rfl

theorem enter?_of_long (h : longestPath < path.bytes.length) : host.enter? path = none := by
  rw [enter?, FileTree.walk?, FileTree.walk, if_pos h]
  rfl

/-- A directory is not found again by its path if the process may not search all directories on the way. -/
theorem enter?_path_of_closed (hnames : ∀ name ∈ place, IsFileName name)
    (hplace : host.tree.HasDirectoryAt place) (hpath : Location.path? { place } = some path)
    (hclosed : ¬host.tree.MayEnter place) : host.enter? path = none := by
  have hparts := (host.tree.stride_path (fun name hname => (hnames name hname).slash_notMem) hpath).2
  rw [Option.eq_none_iff_forall_ne_some]
  intro entered hentered
  obtain ⟨last, hwalk, hdirectory, hexecute, -⟩ := enter?_eq_some_iff.1 hentered
  obtain ⟨hfits, -⟩ := FileTree.walk_eq_ok_iff.1 hwalk
  rw [FileTree.walk_path hnames hpath hfits, FileTree.walkParts, hparts] at hwalk
  rcases FileTree.stride_of_not_isOpen (rfl : host.tree.atRoot.gone = []) hnames hplace hclosed with
    ⟨error, hblocked⟩ | ⟨other, harrived, hother⟩
  · rw [hblocked] at hwalk
    simp at hwalk
  · rw [harrived] at hwalk
    rw [Except.ok.inj hwalk, Entry.isOpen, hdirectory, hexecute] at hother
    simp at hother

end Host

/-! ### Paths that are text -/

/-- The name is text. -/
def Name.IsText (name : Name) : Prop :=
  ∃ t : Text, name = t.utf8

instance (name : Name) : Decidable name.IsText :=
  decidable_of_iff (Bytes.text? name ≠ none) <| by
    rw [Option.ne_none_iff_exists']
    simp only [text?_eq_some_iff, Name.IsText]

theorem exists_utf8_eq_flatMap_slash {place : Place} (h : ∀ name ∈ place, name.IsText) :
    ∃ t : Text, (place.flatMap fun name => HostPath.slash :: name) = t.utf8 := by
  induction place with
  | nil => exact ⟨[], rfl⟩
  | cons name rest ih =>
    rw [List.forall_mem_cons] at h
    obtain ⟨⟨first, rfl⟩, hrest⟩ := h
    obtain ⟨others, hothers⟩ := ih hrest
    refine ⟨'/' :: first ++ others, ?_⟩
    rw [List.flatMap_cons, hothers, Text.utf8_append, Text.utf8_cons, HostPath.utf8EncodeChar_slash,
      List.singleton_append]

/-- The path of a location whose names are text is text, so it is what is shown of it. -/
theorem Location.ofText_shown_path {location : Location} (h : ∀ name ∈ location.place, name.IsText)
    {path : HostPath} (hpath : location.path? = some path) : .ofText path.shown = path := by
  have htext : ∃ t : Text, path.bytes = t.utf8 := by
    rw [path?] at hpath
    split at hpath
    · simp at hpath
    · split at hpath
      · rw [← Option.some.inj hpath]
        exact ⟨['/'], HostPath.utf8EncodeChar_slash.symm⟩
      · rw [← Option.some.inj hpath]
        exact exists_utf8_eq_flatMap_slash h
  obtain ⟨t, ht⟩ := htext
  have hpath : path = .ofText t := by
    rw [HostPath.ofText, ← ht]
  rw [hpath, HostPath.shown_ofText]

end CommandShell
