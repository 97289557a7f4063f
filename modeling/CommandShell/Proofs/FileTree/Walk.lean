import CommandShell.Host
import CommandShell.Proofs.Text.Decoding

/-!
# Where walks lead

A walk goes down by names that it finds, goes up, goes back to the root, and goes over to where another process works. What is kept on these ways and holds where processes work holds wherever a walk leads, so such a property is proved by looking at these steps alone. That the names on the way are names of the tree is one of this kind, and that the spots above are directories is another. And a walk along more parts is the walk along the first of them, gone on with.

A move may lead into a removed part of the tree, where the host has no path to tell. A path that it does tell is put together from names of the tree.
-/

namespace CommandShell

namespace Forest

/-- All names in the forest, at any depth. -/
def names : Forest → List Name
  | empty => []
  | tree name _ below others => name :: (below.names ++ others.names)

theorem mem_names_of_find? {forest below : Forest} {name : Name} {entry : Entry}
    (h : forest.find? name = some (entry, below)) :
    name ∈ forest.names ∧ below.names ⊆ forest.names := by
  induction forest with
  | empty => simp [find?] at h
  | tree known first under others _ ih =>
    rw [find?] at h
    rw [names]
    split at h
    · next hname =>
      obtain ⟨rfl, rfl⟩ := Prod.mk.inj (Option.some.inj h)
      exact ⟨by simp [hname], by simp⟩
    · obtain ⟨hmem, hbelow⟩ := ih h
      constructor
      · simp [hmem]
      · intro other hother
        simp [hbelow hother]

theorem mem_names_of_get? {forest : Forest} {place : Place} {entry : Entry}
    (h : forest.get? place = some entry) : ∀ name ∈ place, name ∈ forest.names := by
  induction forest generalizing place with
  | empty => simp [get?] at h
  | tree known first below others ihBelow ihOthers =>
    cases place with
    | nil => simp
    | cons head rest =>
      rw [get?] at h
      intro name hname
      rw [names]
      split at h
      · next hknown =>
        rcases List.mem_cons.1 hname with rfl | hrest
        · simp [hknown]
        · have hne : rest.isEmpty = false := by
            rw [List.isEmpty_eq_false_iff]
            exact List.ne_nil_of_mem hrest
          rw [hne] at h
          simp [ihBelow h name hrest]
      · simp [ihOthers h name hname]

theorem mem_toList_of_find? {forest below : Forest} {name : Name} {entry : Entry}
    (h : forest.find? name = some (entry, below)) : (name, entry) ∈ forest.toList := by
  induction forest with
  | empty => simp [find?] at h
  | tree known first under others _ ih =>
    rw [find?] at h
    rw [toList]
    split at h
    · next hname =>
      obtain ⟨rfl, rfl⟩ := Prod.mk.inj (Option.some.inj h)
      simp [hname]
    · exact List.mem_cons_of_mem _ (ih h)

theorem get?_cons_of_find? {forest below : Forest} {name : Name} {entry : Entry}
    (h : forest.find? name = some (entry, below)) (rest : Place) :
    forest.get? (name :: rest) = if rest.isEmpty then some entry else below.get? rest := by
  induction forest with
  | empty => simp [find?] at h
  | tree known first under others _ ih =>
    rw [find?] at h
    rw [get?]
    split at h
    · next hname =>
      obtain ⟨rfl, rfl⟩ := Prod.mk.inj (Option.some.inj h)
      rw [if_pos hname]
    · next hname => rw [if_neg hname, ih h]

end Forest

namespace Spot

theorem gone_eq_nil {spot : Spot} (h : spot.isRemoved = false) : spot.gone = [] := by
  simpa [isRemoved] using h

end Spot

namespace FileTree

variable {tree : FileTree} {spot : Spot}

/-- Going down is finding the name in a directory that was not removed. -/
theorem exists_find?_of_down {name : Name} {next : Spot} (h : tree.down spot name = .ok next) :
    spot.gone = [] ∧
      ∃ entry below, (tree.entriesAt spot).find? name = some (entry, below) ∧
        next.entry = entry ∧
        next = { spot with steps := { name, entry, below } :: spot.steps } := by
  rw [down] at h
  split at h
  · simp at h
  · next hremoved =>
    split at h
    · simp at h
    · split at h
      · next entry below hfind =>
        have hpresent := Spot.gone_eq_nil (Bool.eq_false_iff.2 hremoved)
        obtain rfl := Except.ok.inj h
        refine ⟨hpresent, entry, below, hfind, ?_, rfl⟩
        simp [Spot.entry, hpresent]
      · simp at h

/-- Following more parts is going on where the first parts lead without a link. -/
theorem stride_append (tree : FileTree) (spot : Spot) (parts more : List Name) :
    tree.stride spot (parts ++ more) =
      match tree.stride spot parts with
      | .arrived above => tree.stride above more
      | .blocked error => .blocked error
      | .link above target rest => .link above target (rest ++ more) := by
  induction parts generalizing spot with
  | nil => rfl
  | cons part rest ih =>
    rw [List.cons_append, stride, stride]
    split
    · rfl
    · split
      · exact ih spot
      · split
        · rfl
        · split
          · exact ih spot
          · split
            · exact ih spot.up
            · split
              · rfl
              · next lower _ =>
                split
                · rfl
                · exact ih lower

/-- Parts that lead nowhere do so with whatever follows them, and from where they lead a walk with more parts goes on. -/
theorem walkParts_append (tree : FileTree) (links : Nat) (spot : Spot) (parts : List Name) :
    (∃ error, ∀ more, tree.walkParts links spot (parts ++ more) = .error error) ∨
      ∃ left above, ∀ more,
        tree.walkParts links spot (parts ++ more) = tree.walkParts left above more := by
  fun_induction walkParts tree links spot parts with
  | case1 links spot parts above hstride =>
    refine .inr ⟨links, above, fun more => ?_⟩
    rw [walkParts, stride_append, hstride]
    exact (walkParts.eq_def tree links above more).symm
  | case2 links spot parts error hstride =>
    refine .inl ⟨error, fun more => ?_⟩
    rw [walkParts, stride_append, hstride]
  | case3 spot parts above target rest hstride =>
    refine .inl ⟨.tooManyLinks, fun more => ?_⟩
    rw [walkParts, stride_append, hstride]
  | case4 spot parts above target rest hstride links error hfollow =>
    refine .inl ⟨error, fun more => ?_⟩
    simp only [walkParts, stride_append, hstride, hfollow]
  | case5 spot parts above target rest hstride links start way hfollow ih =>
    have hon (more : List Name) : tree.walkParts (links + 1) spot (parts ++ more) =
        tree.walkParts links start (way ++ rest ++ more) := by
      rw [walkParts, stride_append, hstride, List.append_assoc]
      simp only [hfollow]
    simpa only [hon] using ih

end FileTree

/-! ### What walks keep -/

namespace FileTree

/-- The property holds where other processes work, and stays true on the way back to the root, on each way up, and on each way down from a directory. -/
structure Keeps (tree : FileTree) (property : Spot → Prop) : Prop where
  root : ∀ {spot}, property spot → property { top := spot.top }
  up : ∀ {spot}, property spot → property spot.up
  down : ∀ {spot name next}, spot.entry.isDirectory = true → tree.down spot name = .ok next →
    property spot → property next
  workplace : ∀ {process spot}, tree.workplace process = .ok spot → property spot

end FileTree

/-- Wherever the stride ends, the spot there has the property. -/
def Stride.Ends (property : Spot → Prop) : Stride → Prop
  | arrived spot => property spot
  | blocked _ => True
  | link spot _ _ => property spot

namespace FileTree

theorem exists_spotAt_of_workplace {tree : FileTree} {process : Nat} {spot : Spot}
    (h : tree.workplace process = .ok spot) : ∃ location, tree.spotAt location = .ok spot := by
  rw [workplace] at h
  split at h
  · next location _ => exact ⟨location, h⟩
  · simp at h

namespace Keeps

variable {tree : FileTree} {property : Spot → Prop} {spot : Spot}

theorem follow (h : tree.Keeps property) (hspot : property spot) {target : Target} {start : Spot}
    {way : List Name} (hfollow : tree.follow spot target = .ok (start, way)) : property start := by
  cases target with
  | path path =>
    obtain ⟨rfl, rfl⟩ := Prod.mk.inj (Except.ok.inj hfollow)
    rw [Spot.startOf]
    split
    · exact h.root hspot
    · exact hspot
  | workplace process =>
    rw [FileTree.follow] at hfollow
    cases hworkplace : tree.workplace process with
    | error error =>
      rw [hworkplace] at hfollow
      simp [Except.map] at hfollow
    | ok there =>
      rw [hworkplace] at hfollow
      obtain ⟨rfl, rfl⟩ := Prod.mk.inj (Except.ok.inj hfollow)
      exact h.workplace hworkplace

theorem stride (h : tree.Keeps property) (hspot : property spot) (parts : List Name) :
    (tree.stride spot parts).Ends property := by
  induction parts generalizing spot with
  | nil => exact hspot
  | cons part rest ih =>
    rw [FileTree.stride]
    split
    · trivial
    · next hdirectory =>
      split
      · exact ih hspot
      · split
        · trivial
        · split
          · exact ih hspot
          · split
            · exact ih (h.up hspot)
            · split
              · trivial
              · next hdown =>
                split
                · exact hspot
                · exact ih (h.down (by simpa using hdirectory) hdown hspot)

theorem walkParts (h : tree.Keeps property) (hspot : property spot) {links : Nat}
    {parts : List Name} {destination : Spot}
    (hwalk : tree.walkParts links spot parts = .ok destination) : property destination := by
  fun_induction FileTree.walkParts tree links spot parts with
  | case1 links spot parts arrived hstride =>
    have hends := h.stride hspot parts
    rw [hstride] at hends
    rw [← Except.ok.inj hwalk]
    exact hends
  | case2 => simp at hwalk
  | case3 => simp at hwalk
  | case4 => simp at hwalk
  | case5 spot parts above target rest hstride links start way hfollow ih =>
    have hends := h.stride hspot parts
    rw [hstride] at hends
    exact ih (h.follow hends hfollow) hwalk

end Keeps

end FileTree

/-! ### Names on the way -/

/-- The names on the way to the spot are names of the tree, and so are those below it. -/
def Spot.IsNamed (spot : Spot) (tree : FileTree) : Prop :=
  ∀ step ∈ spot.steps, step.name ∈ tree.top.names ∧ step.below.names ⊆ tree.top.names

namespace Spot

theorem steps_up_subset (spot : Spot) : spot.up.steps ⊆ spot.steps := by
  rw [up]
  split
  · exact List.Subset.refl _
  · exact List.drop_subset 1 spot.steps

namespace IsNamed

variable {tree : FileTree} {spot : Spot}

theorem names_entriesAt (h : spot.IsNamed tree) :
    (tree.entriesAt spot).names ⊆ tree.top.names := by
  rw [FileTree.entriesAt]
  split
  · exact List.nil_subset _
  · cases hsteps : spot.steps with
    | nil => exact List.Subset.refl _
    | cons step rest => exact (h step (by simp [hsteps])).2

theorem down (h : spot.IsNamed tree) {name : Name} {next : Spot}
    (hdown : tree.down spot name = .ok next) : next.IsNamed tree := by
  obtain ⟨-, entry, below, hfind, -, rfl⟩ := FileTree.exists_find?_of_down hdown
  obtain ⟨hname, hbelow⟩ := Forest.mem_names_of_find? hfind
  exact List.forall_mem_cons.2
    ⟨⟨h.names_entriesAt hname, List.Subset.trans hbelow h.names_entriesAt⟩, h⟩

theorem place_subset (h : spot.IsNamed tree) : spot.location.place ⊆ tree.top.names := by
  intro name hname
  obtain ⟨step, hstep, rfl⟩ := List.mem_map.1 (List.mem_reverse.1 hname)
  exact (h step hstep).1

end IsNamed

end Spot

theorem Forest.isNamed_stepsFrom? {tree : FileTree} {forest : Forest}
    (hforest : forest.names ⊆ tree.top.names) {steps found : List Step} {place : Place}
    (hsteps : Spot.IsNamed { steps } tree) (h : forest.stepsFrom? steps place = some found) :
    Spot.IsNamed { steps := found } tree := by
  induction place generalizing forest steps with
  | nil =>
    rw [← Option.some.inj h]
    exact hsteps
  | cons name rest ih =>
    rw [Forest.stepsFrom?] at h
    split at h
    · next rights below hfind =>
      obtain ⟨hname, hbelow⟩ := Forest.mem_names_of_find? hfind
      have hunder : below.names ⊆ tree.top.names := List.Subset.trans hbelow hforest
      exact ih hunder (List.forall_mem_cons.2 ⟨⟨hforest hname, hunder⟩, hsteps⟩) h
    · simp at h

namespace FileTree

variable {tree : FileTree} {location : Location} {spot : Spot}

theorem spotAt_eq_ok_iff :
    tree.spotAt location = .ok spot ↔
      ∃ steps, tree.top.stepsFrom? [] location.place = some steps ∧
        spot = { top := tree.rights, steps, gone := location.gone } := by
  rw [spotAt]
  cases tree.top.stepsFrom? [] location.place <;> simp [eq_comm]

theorem isNamed_spotAt (h : tree.spotAt location = .ok spot) : spot.IsNamed tree := by
  obtain ⟨steps, hsteps, rfl⟩ := spotAt_eq_ok_iff.1 h
  exact Forest.isNamed_stepsFrom? (List.Subset.refl _) (by simp [Spot.IsNamed]) hsteps

theorem keeps_isNamed (tree : FileTree) : tree.Keeps fun spot => spot.IsNamed tree where
  root _ := by simp [Spot.IsNamed]
  up h step hstep := h step (Spot.steps_up_subset _ hstep)
  down _ hdown h := h.down hdown
  workplace h := by
    obtain ⟨location, hspot⟩ := exists_spotAt_of_workplace h
    exact isNamed_spotAt hspot

end FileTree

/-- The location from which a path is followed. -/
def Location.startOf (location : Location) (path : HostPath) : Location :=
  if path.isAbsolute then .root else location

namespace FileTree

variable {tree : FileTree} {location : Location} {spot : Spot}

theorem walkFrom_eq_ok_iff {parts : List Name} :
    tree.walkFrom location parts = .ok spot ↔
      ∃ start, tree.spotAt location = .ok start ∧
        tree.walkParts mostLinks start parts = .ok spot := by
  rw [walkFrom]
  cases tree.spotAt location <;> simp [Except.bind]

theorem walk_eq_ok_iff {path : HostPath} :
    tree.walk location path = .ok spot ↔
      path.bytes.length ≤ longestPath ∧ path.bytes ≠ [] ∧ 0 ∉ path.bytes ∧
        ∃ start, tree.spotAt (location.startOf path) = .ok start ∧
          tree.walkParts mostLinks start path.parts = .ok spot := by
  rw [walk, walkAnyPath, ← walkFrom_eq_ok_iff, ← Location.startOf]
  split
  · next hlong =>
    refine iff_of_false (by simp) ?_
    rintro ⟨hfits, -⟩
    omega
  · next hfits =>
    split
    · next hmissing =>
      refine iff_of_false (by simp) ?_
      rintro ⟨-, hne, hnul, -⟩
      simp [hne, hnul] at hmissing
    · next hnamed => simp_all

theorem isNamed_walk {path : HostPath} (h : tree.walk location path = .ok spot) :
    spot.IsNamed tree := by
  obtain ⟨-, -, -, start, hspot, hwalk⟩ := walk_eq_ok_iff.1 h
  exact tree.keeps_isNamed.walkParts (isNamed_spotAt hspot) hwalk

theorem walk?_eq_some_iff {path : HostPath} :
    tree.walk? location path = some spot ↔ tree.walk location path = .ok spot := by
  rw [walk?]
  cases tree.walk location path <;> simp [Except.toOption]

end FileTree

/-! ### Directories on the way -/

/-- Everything above the spot is a directory. -/
def Spot.IsGrounded (spot : Spot) : Prop :=
  ∀ step ∈ spot.up.steps, step.entry.isDirectory = true

namespace Spot

theorem isGrounded_of_forall {spot : Spot}
    (h : ∀ step ∈ spot.steps, step.entry.isDirectory = true) : spot.IsGrounded :=
  fun step hstep => h step (spot.steps_up_subset hstep)

theorem IsGrounded.entry_up {spot : Spot} (h : spot.IsGrounded) :
    spot.up.entry.isDirectory = true := by
  rw [entry]
  split
  · rfl
  · rfl
  · next step _ _ hsteps => exact h step (by simp [hsteps])

theorem IsGrounded.down {tree : FileTree} {spot next : Spot} {name : Name} (h : spot.IsGrounded)
    (hdirectory : spot.entry.isDirectory = true) (hdown : tree.down spot name = .ok next) :
    next.IsGrounded := by
  obtain ⟨hpresent, entry, below, -, -, rfl⟩ := FileTree.exists_find?_of_down hdown
  have hsteps : ∀ step ∈ spot.steps, step.entry.isDirectory = true := by
    cases hspot : spot.steps with
    | nil => simp
    | cons first rest =>
      rw [Spot.entry, hpresent, hspot] at hdirectory
      rw [List.forall_mem_cons]
      exact ⟨hdirectory, by simpa [IsGrounded, up, isRemoved, hpresent, hspot] using h⟩
  intro step hstep
  exact hsteps step (by simpa [up, isRemoved, hpresent] using hstep)

end Spot

theorem Forest.isDirectory_stepsFrom? {forest : Forest} {steps found : List Step} {place : Place}
    (hsteps : ∀ step ∈ steps, step.entry.isDirectory = true)
    (h : forest.stepsFrom? steps place = some found) :
    ∀ step ∈ found, step.entry.isDirectory = true := by
  induction place generalizing forest steps with
  | nil =>
    rw [← Option.some.inj h]
    exact hsteps
  | cons name rest ih =>
    rw [stepsFrom?] at h
    split at h
    · exact ih (List.forall_mem_cons.2 ⟨rfl, hsteps⟩) h
    · simp at h

theorem FileTree.isGrounded_spotAt {tree : FileTree} {location : Location} {spot : Spot}
    (h : tree.spotAt location = .ok spot) : spot.IsGrounded := by
  obtain ⟨steps, hsteps, rfl⟩ := spotAt_eq_ok_iff.1 h
  exact Spot.isGrounded_of_forall (Forest.isDirectory_stepsFrom? (by simp) hsteps)

theorem FileTree.keeps_isGrounded (tree : FileTree) : tree.Keeps Spot.IsGrounded where
  root _ := Spot.isGrounded_of_forall (by simp)
  up h := Spot.isGrounded_of_forall h
  down hdirectory hdown h := h.down hdirectory hdown
  workplace h := by
    obtain ⟨location, hspot⟩ := exists_spotAt_of_workplace h
    exact isGrounded_spotAt hspot

/-! ### Working directories -/

namespace Host

variable {host entered : Host}

/-- The working directory exists. -/
def HasDirectory (host : Host) : Prop :=
  host.location.isRemoved = false ∧ host.tree.isDirectory host.location.place = true

/-- The names on the way to the working directory are names of the tree. -/
def IsPlaced (host : Host) : Prop :=
  host.location.place ⊆ host.tree.top.names

theorem HasDirectory.isPlaced (h : host.HasDirectory) : host.IsPlaced := by
  obtain ⟨-, hdirectory⟩ := h
  rw [IsPlaced]
  cases hplace : host.location.place with
  | nil => exact List.nil_subset _
  | cons name rest =>
    rw [hplace, FileTree.isDirectory, Option.any_eq_true_iff_get] at hdirectory
    obtain ⟨hsome, -⟩ := hdirectory
    exact Forest.mem_names_of_get? (Option.some_get hsome).symm

theorem enter?_eq_some_iff {path : HostPath} :
    host.enter? path = some entered ↔
      ∃ spot, host.tree.walk host.location path = .ok spot ∧ spot.entry.isDirectory = true ∧
        spot.entry.rights.execute = true ∧ entered = { host with location := spot.location } := by
  rw [enter?]
  cases hwalk : host.tree.walk? host.location path with
  | none =>
    refine iff_of_false (by simp) ?_
    rintro ⟨spot, hspot, -⟩
    rw [← FileTree.walk?_eq_some_iff, hwalk] at hspot
    simp at hspot
  | some spot =>
    rw [FileTree.walk?_eq_some_iff] at hwalk
    dsimp only
    split
    · next hopen =>
      obtain ⟨hdirectory, hexecute⟩ := (Bool.and_eq_true _ _).mp hopen
      refine ⟨fun h => ⟨spot, hwalk, hdirectory, hexecute, (Option.some.inj h).symm⟩, ?_⟩
      rintro ⟨other, hother, -, -, rfl⟩
      rw [Except.ok.inj (hwalk.symm.trans hother)]
    · next hclosed =>
      refine iff_of_false (by simp) ?_
      rintro ⟨other, hother, hdirectory, hexecute, -⟩
      obtain rfl := Except.ok.inj (hwalk.symm.trans hother)
      simp [hdirectory, hexecute] at hclosed

/-- Wherever the working directory was, the one that is entered is reached by names of the tree. -/
theorem isPlaced_of_enter? {path : HostPath} (h : host.enter? path = some entered) :
    entered.IsPlaced ∧ entered.tree = host.tree := by
  obtain ⟨spot, hwalk, -, -, rfl⟩ := enter?_eq_some_iff.1 h
  exact ⟨(FileTree.isNamed_walk hwalk).place_subset, rfl⟩

theorem workingDirectory_eq_ok_iff {path : HostPath} :
    host.workingDirectory = .ok path ↔
      host.location.path? = some path ∧
        (path.bytes.length ≤ longestPath ∨ host.tree.isRetraceable host.location.place = true) := by
  rw [workingDirectory]
  cases host.location.path? with
  | none => simp
  | some told =>
    simp only [Option.some_inj]
    split
    · next htold =>
      rw [Except.ok.injEq]
      exact ⟨fun h => ⟨h, h ▸ by simpa using htold⟩, And.left⟩
    · next hlost =>
      refine iff_of_false (by simp) ?_
      rintro ⟨rfl, htold⟩
      exact hlost (by simpa using htold)

end Host

/-- The path of a location has no byte that is in none of its names, apart from the slash. -/
theorem Location.notMem_path {location : Location} {path : HostPath} {b : UInt8}
    (hslash : b ≠ HostPath.slash) (hnames : ∀ name ∈ location.place, b ∉ name)
    (h : location.path? = some path) : b ∉ path.bytes := by
  rw [Location.path?] at h
  split at h
  · simp at h
  · split at h
    · rw [← Option.some.inj h]
      simpa using hslash
    · rw [← Option.some.inj h, List.mem_flatMap]
      rintro ⟨name, hname, hmem⟩
      rcases List.mem_cons.1 hmem with rfl | hbyte
      · exact hslash rfl
      · exact hnames name hname hbyte

/-- The path of a working directory has no byte that is in no name, apart from the slash. -/
theorem Host.IsPlaced.notMem_workingDirectory {host : Host} (h : host.IsPlaced) {b : UInt8}
    (hslash : b ≠ HostPath.slash) (hnames : ∀ name ∈ host.tree.top.names, b ∉ name)
    {path : HostPath} (hpath : host.workingDirectory = .ok path) : b ∉ path.bytes :=
  Location.notMem_path hslash (fun name hname => hnames name (h hname))
    (workingDirectory_eq_ok_iff.1 hpath).1

/-- What is shown of the path of a working directory holds no NUL either, whatever is replaced in it. -/
theorem Host.IsPlaced.nul_notMem_shown {host : Host} (h : host.IsPlaced)
    (hnames : ∀ name ∈ host.tree.top.names, 0 ∉ name) {path : HostPath}
    (hpath : host.workingDirectory = .ok path) : '\x00' ∉ path.shown := by
  intro hmem
  have hread : ReadAs path.bytes path.shown := readAs_iff.2 rfl
  exact h.notMem_workingDirectory (by decide) hnames hpath (hread.mem_of_mem (by decide) hmem)

end CommandShell
