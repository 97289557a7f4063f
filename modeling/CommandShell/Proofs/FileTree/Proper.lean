import CommandShell.Proofs.FileTree.Walk
import CommandShell.Proofs.Word

/-!
# Proper file trees

A tree of names could have two entries of one name side by side, of which only the first would ever be found, or a name with a slash, which no path could lead to. A proper tree has neither, so every directory that a walk leads to lists each of its names once. This needs no more than the tree: it does not matter where the walk starts, which may be a directory that was removed.

The empty tree is proper, and a proper tree stays so whatever is made in it or removed from it. An entry goes to the place of the one that had its name before, and the names on the way to it are parts of paths or come from the tree itself.
-/

namespace CommandShell

/-! ### Names side by side -/

namespace Forest

/-- The names side by side are different and have no slash, at any depth. -/
def IsProper : Forest → Prop
  | empty => True
  | tree name _ below others =>
    HostPath.slash ∉ name ∧ name ∉ others.toList.map Prod.fst ∧ below.IsProper ∧ others.IsProper

instance decidableIsProper : (forest : Forest) → Decidable forest.IsProper
  | empty => .isTrue trivial
  | tree name _ below others =>
    have := decidableIsProper below
    have := decidableIsProper others
    inferInstanceAs <| Decidable <|
      HostPath.slash ∉ name ∧ name ∉ others.toList.map Prod.fst ∧ below.IsProper ∧ others.IsProper

namespace IsProper

variable {forest : Forest}

theorem nodup_names (h : forest.IsProper) : (forest.toList.map Prod.fst).Nodup := by
  induction forest with
  | empty => exact List.nodup_nil
  | tree name entry below others _ ih =>
    obtain ⟨-, hnew, -, hothers⟩ := h
    exact List.nodup_cons.2 ⟨hnew, ih hothers⟩

theorem slash_notMem (h : forest.IsProper) : ∀ name ∈ forest.toList.map Prod.fst, HostPath.slash ∉ name := by
  induction forest with
  | empty => simp [toList]
  | tree name entry below others _ ih =>
    obtain ⟨hslash, -, -, hothers⟩ := h
    exact List.forall_mem_cons.2 ⟨hslash, ih hothers⟩

theorem of_find? (h : forest.IsProper) {name : Name} {entry : Entry} {below : Forest}
    (hfind : forest.find? name = some (entry, below)) : HostPath.slash ∉ name ∧ below.IsProper := by
  induction forest with
  | empty => simp [find?] at hfind
  | tree known first under others _ ih =>
    obtain ⟨hslash, -, hunder, hothers⟩ := h
    rw [find?] at hfind
    split at hfind
    · next hname =>
      obtain ⟨rfl, rfl⟩ := Prod.mk.inj (Option.some.inj hfind)
      exact ⟨hname ▸ hslash, hunder⟩
    · exact ih hothers hfind

end IsProper

/-! ### Putting and removing entries -/

theorem isProper_sprout (entry : Entry) {place : Place} (hplace : ∀ name ∈ place, HostPath.slash ∉ name) :
    (sprout entry place).IsProper := by
  induction place with
  | nil => trivial
  | cons name rest ih =>
    rw [List.forall_mem_cons] at hplace
    rw [sprout]
    split
    · exact ⟨hplace.1, by simp [toList], trivial, trivial⟩
    · exact ⟨hplace.1, by simp [toList], ih hplace.2, trivial⟩

/-- Putting an entry adds no name but the first of its place. -/
theorem mem_or_head?_eq_of_mem_put {forest : Forest} {entry : Entry} {place : Place} {name : Name}
    (h : name ∈ (forest.put entry place).toList.map Prod.fst) :
    name ∈ forest.toList.map Prod.fst ∨ place.head? = some name := by
  induction forest with
  | empty =>
    cases place with
    | nil => simp [put, sprout, toList] at h
    | cons first rest =>
      rw [put, sprout] at h
      split at h <;> simp_all [toList]
  | tree known old below others _ ih =>
    cases place with
    | nil => exact .inl h
    | cons first rest =>
      rw [put] at h
      split at h
      · split at h <;> exact .inl h
      · rcases List.mem_cons.1 h with rfl | hmem
        · exact .inl List.mem_cons_self
        · exact (ih hmem).imp_left (List.mem_cons_of_mem known)

theorem names_remove_subset (forest : Forest) (place : Place) :
    (forest.remove place).toList.map Prod.fst ⊆ forest.toList.map Prod.fst := by
  induction forest with
  | empty => exact List.Subset.refl _
  | tree name entry below others _ ih =>
    cases place with
    | nil => exact List.Subset.refl _
    | cons first rest =>
      rw [remove]
      split
      · split
        · exact List.subset_cons_self _ _
        · exact List.Subset.refl _
      · exact List.cons_subset_cons name ih

namespace IsProper

variable {forest : Forest}

theorem put (h : forest.IsProper) (entry : Entry) {place : Place}
    (hplace : ∀ name ∈ place, HostPath.slash ∉ name) : (forest.put entry place).IsProper := by
  induction forest generalizing place with
  | empty => exact isProper_sprout entry hplace
  | tree name known below others ihBelow ihOthers =>
    cases place with
    | nil => exact h
    | cons first rest =>
      obtain ⟨hslash, hnew, hbelow, hothers⟩ := h
      rw [Forest.put]
      split
      · split
        · exact ⟨hslash, hnew, hbelow, hothers⟩
        · exact ⟨hslash, hnew, ihBelow hbelow (List.forall_mem_cons.1 hplace).2, hothers⟩
      · next hother =>
        refine ⟨hslash, ?_, hbelow, ihOthers hothers hplace⟩
        intro hmem
        rcases mem_or_head?_eq_of_mem_put hmem with hmem | hhead
        · exact hnew hmem
        · exact hother (Option.some.inj hhead).symm

theorem remove (h : forest.IsProper) (place : Place) : (forest.remove place).IsProper := by
  induction forest generalizing place with
  | empty => trivial
  | tree name entry below others ihBelow ihOthers =>
    cases place with
    | nil => exact h
    | cons first rest =>
      obtain ⟨hslash, hnew, hbelow, hothers⟩ := h
      rw [Forest.remove]
      split
      · split
        · exact hothers
        · exact ⟨hslash, hnew, ihBelow hbelow rest, hothers⟩
      · refine ⟨hslash, ?_, hbelow, ihOthers hothers (first :: rest)⟩
        exact fun hmem => hnew (names_remove_subset others _ hmem)

end IsProper

end Forest

/-! ### Walks in proper trees -/

/-- The steps to the spot have names without a slash, and what was found under them is proper. -/
def Spot.IsProper (spot : Spot) : Prop :=
  ∀ step ∈ spot.steps, HostPath.slash ∉ step.name ∧ step.below.IsProper

theorem Spot.IsProper.slash_notMem {spot : Spot} (h : spot.IsProper) :
    ∀ name ∈ spot.location.place, HostPath.slash ∉ name := by
  intro name hname
  obtain ⟨step, hstep, rfl⟩ := List.mem_map.1 (List.mem_reverse.1 hname)
  exact (h step hstep).1

theorem Forest.IsProper.stepsFrom? {forest : Forest} (h : forest.IsProper) {steps found : List Step}
    {place : Place} (hsteps : Spot.IsProper { steps })
    (hfound : forest.stepsFrom? steps place = some found) : Spot.IsProper { steps := found } := by
  induction place generalizing forest steps with
  | nil =>
    rw [← Option.some.inj hfound]
    exact hsteps
  | cons name rest ih =>
    rw [Forest.stepsFrom?] at hfound
    split at hfound
    · next entry below hfind =>
      have hstep := h.of_find? hfind
      exact ih hstep.2 (List.forall_mem_cons.2 ⟨hstep, hsteps⟩) hfound
    · simp at hfound

namespace FileTree

def IsProper (tree : FileTree) : Prop :=
  tree.top.IsProper

instance (tree : FileTree) : Decidable tree.IsProper :=
  inferInstanceAs (Decidable tree.top.IsProper)

namespace IsProper

variable {tree : FileTree} (h : tree.IsProper)
include h

theorem entriesAt {spot : Spot} (hspot : spot.IsProper) : (tree.entriesAt spot).IsProper := by
  rw [FileTree.entriesAt]
  split
  · trivial
  · cases hsteps : spot.steps with
    | nil => exact h
    | cons step rest => exact (hspot step (by simp [hsteps])).2

theorem spotAt {location : Location} {spot : Spot} (hspot : tree.spotAt location = .ok spot) :
    spot.IsProper := by
  obtain ⟨steps, hsteps, rfl⟩ := spotAt_eq_ok_iff.1 hspot
  exact Forest.IsProper.stepsFrom? h (by simp [Spot.IsProper]) hsteps

theorem keeps : tree.Keeps Spot.IsProper where
  root _ := by simp [Spot.IsProper]
  up hspot step hstep := hspot step (Spot.steps_up_subset _ hstep)
  down _ hdown hspot := by
    obtain ⟨-, entry, below, hfind, -, rfl⟩ := exists_find?_of_down hdown
    exact List.forall_mem_cons.2 ⟨(h.entriesAt hspot).of_find? hfind, hspot⟩
  workplace hspot := by
    obtain ⟨location, hspot⟩ := exists_spotAt_of_workplace hspot
    exact h.spotAt hspot

theorem walkFrom {location : Location} {parts : List Name} {spot : Spot}
    (hwalk : tree.walkFrom location parts = .ok spot) : spot.IsProper := by
  obtain ⟨start, hstart, hparts⟩ := walkFrom_eq_ok_iff.1 hwalk
  exact h.keeps.walkParts (h.spotAt hstart) hparts

/-! ### Making and removing -/

theorem makeWay {place : Place} {parts : List Name} (hplace : ∀ name ∈ place, HostPath.slash ∉ name)
    (hparts : ∀ part ∈ parts, HostPath.slash ∉ part) :
    (tree.makeWay place parts).1.IsProper ∧ ∀ name ∈ (tree.makeWay place parts).2, HostPath.slash ∉ name := by
  induction parts generalizing tree place with
  | nil => exact ⟨h, hplace⟩
  | cons part rest ih =>
    rw [List.forall_mem_cons] at hparts
    rw [FileTree.makeWay]
    split
    · next spot hwalk => exact ih h (h.walkFrom hwalk).slash_notMem hparts.2
    · have hbelow : ∀ name ∈ place ++ [part], HostPath.slash ∉ name :=
        List.forall_mem_append.2 ⟨hplace, List.forall_mem_singleton.2 hparts.1⟩
      have hput : (tree.put (place ++ [part]) .directory).IsProper :=
        Forest.IsProper.put h .directory hbelow
      exact ih hput hbelow hparts.2

theorem destination {links : Nat} {place : Place} (hplace : ∀ name ∈ place, HostPath.slash ∉ name) :
    ∀ name ∈ tree.destination links place, HostPath.slash ∉ name := by
  fun_induction FileTree.destination tree links place with
  | case1 place => exact hplace
  | case2 place links target hlink start above name hlast hwalk ih =>
    have hname : HostPath.slash ∉ name := by
      intro hmem
      have hslash := eq_false_of_mem_fields (List.mem_of_getLast? hlast) HostPath.slash hmem
      simp [HostPath.isSlash] at hslash
    have habove := (h.walkFrom hwalk).slash_notMem
    exact ih (List.forall_mem_append.2 ⟨habove, List.forall_mem_singleton.2 hname⟩)
  | case3 => exact hplace
  | case4 => exact hplace

/-- Whatever is made where parts without a slash lead, the tree stays proper. -/
theorem make {place : Place} {parts : List Name} (hplace : ∀ name ∈ place, HostPath.slash ∉ name)
    (hparts : ∀ part ∈ parts, HostPath.slash ∉ part) (entry : Entry) : (tree.make place parts entry).IsProper := by
  obtain ⟨hmade, habove⟩ := h.makeWay hplace fun part hpart => hparts part (List.dropLast_subset _ hpart)
  have hnamed {name : Name} (hlast : parts.getLast? = some name) :
      ∀ known ∈ (tree.makeWay place parts.dropLast).2 ++ [name], HostPath.slash ∉ known := by
    have hname := hparts name (List.mem_of_getLast? hlast)
    exact List.forall_mem_append.2 ⟨habove, List.forall_mem_singleton.2 hname⟩
  rw [FileTree.make]
  dsimp only
  split
  · exact hmade
  · next hlast => exact Forest.IsProper.put hmade _ (hmade.destination (hnamed hlast))
  · next hlast _ => exact Forest.IsProper.put hmade _ (hnamed hlast)

theorem makeDirectories {place : Place} {parts : List Name} (hplace : ∀ name ∈ place, HostPath.slash ∉ name)
    (hparts : ∀ part ∈ parts, HostPath.slash ∉ part) : (tree.makeDirectories place parts).IsProper :=
  (h.makeWay hplace hparts).1

theorem remove (place : Place) : (tree.remove place).IsProper :=
  Forest.IsProper.remove h place

end IsProper

/-- The tree came about by making entries and removing them, from nothing. -/
inductive Arises : FileTree → Prop
  | empty : Arises {}
  | make {tree : FileTree} (h : Arises tree) {place : Place}
    (hplace : ∀ name ∈ place, HostPath.slash ∉ name) {parts : List Name} (hparts : ∀ part ∈ parts, HostPath.slash ∉ part) (entry : Entry) :
    Arises (tree.make place parts entry)
  | makeDirectories {tree : FileTree} (h : Arises tree) {place : Place}
    (hplace : ∀ name ∈ place, HostPath.slash ∉ name) {parts : List Name}
    (hparts : ∀ part ∈ parts, HostPath.slash ∉ part) :
    Arises (tree.makeDirectories place parts)
  | remove {tree : FileTree} (h : Arises tree) (place : Place) : Arises (tree.remove place)

/-- Every tree that comes about is proper. -/
theorem Arises.isProper {tree : FileTree} (h : tree.Arises) : tree.IsProper := by
  induction h with
  | empty => trivial
  | make _ hplace hparts entry ih => exact ih.make hplace hparts entry
  | makeDirectories _ hplace hparts ih => exact ih.makeDirectories hplace hparts
  | remove _ place ih => exact ih.remove place

end FileTree

/-! ### Lists of names -/

/-- In a proper tree each directory lists different names without a slash. -/
theorem Host.names_of_list? {host : Host} (h : host.tree.IsProper) {path : HostPath}
    {children : List (Name × Entry)} (hlist : host.list? path = some children) :
    (children.map Prod.fst).Nodup ∧ ∀ name ∈ children.map Prod.fst, HostPath.slash ∉ name := by
  rw [list?] at hlist
  split at hlist
  · next spot hwalk =>
    split at hlist
    · obtain ⟨-, -, -, start, hstart, hparts⟩ :=
        FileTree.walk_eq_ok_iff.1 (FileTree.walk?_eq_some_iff.1 hwalk)
      have hspot := h.walkFrom (FileTree.walkFrom_eq_ok_iff.2 ⟨start, hstart, hparts⟩)
      have hentries := h.entriesAt hspot
      rw [← Option.some.inj hlist]
      exact ⟨hentries.nodup_names, hentries.slash_notMem⟩
    · simp at hlist
  · simp at hlist

end CommandShell
