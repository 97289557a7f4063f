import CommandShell.Environment

/-!
# Setting and erasing variables

An environment is a plain list that is searched from the front. Nothing in the list itself keeps a name from standing in it twice, or an entry that could not be handed to a child. That this does not happen is a property of how environments come about: from nothing, by setting and erasing variables one at a time.

Each edit either fails, and then there is no other environment than before, or it does one of two things to the list. What edits keep is read off these two.
-/

namespace CommandShell

/-! ### Assignments in lists -/

section Assign

variable {α β : Type} [DecidableEq α]

theorem lookup_cons_eq_ite [BEq α] [LawfulBEq α] (key : α) (entry : α × β) (rest : List (α × β)) :
    (entry :: rest).lookup key = if key = entry.1 then some entry.2 else rest.lookup key := by
  rw [List.lookup_cons]
  by_cases h : key = entry.1
  · rw [if_pos h, beq_iff_eq.2 h]
  · rw [if_neg h, beq_eq_false_iff_ne.2 h]

theorem lookup_assign [BEq α] [LawfulBEq α] (key other : α) (value : β) (entries : List (α × β)) :
    (assign key value entries).lookup other =
      if other = key then some value else entries.lookup other := by
  induction entries with
  | nil => rw [assign, lookup_cons_eq_ite]
  | cons entry rest ih =>
    rw [assign]
    by_cases hkey : entry.1 = key
    · rw [if_pos hkey, lookup_cons_eq_ite, lookup_cons_eq_ite, hkey]
      split <;> rfl
    · rw [if_neg hkey, lookup_cons_eq_ite, lookup_cons_eq_ite, ih]
      by_cases hother : other = entry.1
      · have hne : other ≠ key := hother ▸ hkey
        rw [if_pos hother, if_neg hne, if_pos hother]
      · rw [if_neg hother, if_neg hother]

theorem map_fst_assign_of_mem {key : α} {entries : List (α × β)} (h : key ∈ entries.map Prod.fst)
    (value : β) : (assign key value entries).map Prod.fst = entries.map Prod.fst := by
  induction entries with
  | nil => simp at h
  | cons entry rest ih =>
    rw [assign]
    split
    · rfl
    · next hkey =>
      have hrest : key ∈ rest.map Prod.fst :=
        List.mem_of_ne_of_mem (fun heq => hkey heq.symm) (by simpa using h)
      rw [List.map_cons, ih hrest, List.map_cons]

/-- A new key goes to the end. -/
theorem assign_of_notMem {key : α} {entries : List (α × β)} (h : key ∉ entries.map Prod.fst)
    (value : β) : assign key value entries = entries ++ [(key, value)] := by
  induction entries with
  | nil => rfl
  | cons entry rest ih =>
    rw [List.map_cons, List.mem_cons, not_or] at h
    rw [assign, if_neg fun heq => h.1 heq.symm, ih h.2]
    rfl

theorem map_fst_assign_of_notMem {key : α} {entries : List (α × β)}
    (h : key ∉ entries.map Prod.fst) (value : β) :
    (assign key value entries).map Prod.fst = entries.map Prod.fst ++ [key] := by
  rw [assign_of_notMem h, List.map_append]
  rfl

theorem mem_assign {key : α} {value : β} {entries : List (α × β)} {entry : α × β}
    (h : entry ∈ assign key value entries) : entry ∈ entries ∨ entry = (key, value) := by
  induction entries with
  | nil => exact .inr (List.mem_singleton.1 h)
  | cons first rest ih =>
    rw [assign] at h
    split at h
    · next hkey =>
      rcases List.mem_cons.1 h with rfl | hrest
      · exact .inr (by rw [hkey])
      · exact .inl (List.mem_cons_of_mem _ hrest)
    · rcases List.mem_cons.1 h with rfl | hrest
      · exact .inl (List.mem_cons_self ..)
      · exact (ih hrest).imp_left (List.mem_cons_of_mem _)

/-- An assignment leaves all entries of other keys where they are. -/
theorem getElem?_assign_eq_some_iff {key : α} {entry : α × β} (h : entry.1 ≠ key) (value : β)
    (entries : List (α × β)) (index : Nat) :
    (assign key value entries)[index]? = some entry ↔ entries[index]? = some entry := by
  induction entries generalizing index with
  | nil =>
    have hother : (key, value) ≠ entry := fun heq => h (congrArg Prod.fst heq.symm)
    cases index <;> simp [assign, hother]
  | cons first rest ih =>
    rw [assign]
    split
    · next hkey =>
      have hfirst : first ≠ entry := fun heq => h (heq ▸ hkey)
      have hother : (first.1, value) ≠ entry := fun heq => h ((congrArg Prod.fst heq).symm.trans hkey)
      cases index <;> simp [hfirst, hother]
    · cases index with
      | zero => rfl
      | succ index => exact ih index

/-- The second of two assignments of a key wins. -/
theorem assign_assign (key : α) (first second : β) (entries : List (α × β)) :
    assign key second (assign key first entries) = assign key second entries := by
  induction entries with
  | nil => simp [assign]
  | cons entry rest ih =>
    rw [assign, assign]
    split
    · next hkey => rw [assign, if_pos hkey]
    · next hkey => rw [assign, if_neg hkey, ih]

theorem assign_of_lookup [BEq α] [LawfulBEq α] {key : α} {value : β} {entries : List (α × β)}
    (h : entries.lookup key = some value) : assign key value entries = entries := by
  induction entries with
  | nil => simp at h
  | cons entry rest ih =>
    rw [lookup_cons_eq_ite] at h
    rw [assign]
    split
    · next hkey =>
      rw [if_pos hkey.symm] at h
      rw [← Option.some.inj h]
    · next hkey =>
      rw [if_neg fun heq => hkey heq.symm] at h
      rw [ih h]

/-- Assignments of two keys may change places if this does not decide which new key stands first. -/
theorem assign_comm_of_mem {key other : α} (hne : other ≠ key) {entries : List (α × β)}
    (h : key ∈ entries.map Prod.fst) (value otherValue : β) :
    assign other otherValue (assign key value entries) =
      assign key value (assign other otherValue entries) := by
  induction entries with
  | nil => simp at h
  | cons entry rest ih =>
    by_cases hkey : entry.1 = key
    · have hother : entry.1 ≠ other := fun heq => hne (heq.symm.trans hkey)
      rw [assign, if_pos hkey, assign, if_neg hother, assign, if_neg hother, assign, if_pos hkey]
    · have hrest : key ∈ rest.map Prod.fst :=
        List.mem_of_ne_of_mem (fun heq => hkey heq.symm) (by simpa using h)
      by_cases hother : entry.1 = other
      · rw [assign, if_neg hkey, assign, if_pos hother, assign, if_pos hother, assign, if_neg hkey]
      · rw [assign, if_neg hkey, assign, if_neg hother, assign, if_neg hother, assign, if_neg hkey,
          ih hrest]

theorem lookup_eraseP_of_ne [BEq α] [LawfulBEq α] {key other : α} (h : other ≠ key)
    (entries : List (α × β)) :
    (entries.eraseP fun entry => entry.1 == key).lookup other = entries.lookup other := by
  induction entries with
  | nil => rfl
  | cons entry rest ih =>
    rw [List.eraseP_cons, lookup_cons_eq_ite]
    by_cases hkey : entry.1 = key
    · rw [beq_iff_eq.2 hkey, if_neg (hkey ▸ h)]
      rfl
    · rw [beq_eq_false_iff_ne.2 hkey, ← ih]
      exact lookup_cons_eq_ite other entry _

end Assign

theorem lookup_eq_none_iff_notMem {α β : Type} [BEq α] [LawfulBEq α] {key : α}
    {entries : List (α × β)} : entries.lookup key = none ↔ key ∉ entries.map Prod.fst := by
  rw [List.lookup_eq_none_iff]
  constructor
  · intro h hmem
    obtain ⟨entry, hentry, rfl⟩ := List.mem_map.1 hmem
    simpa using h entry hentry
  · intro h entry hentry
    have hne : key ≠ entry.1 := fun heq => h (heq ▸ List.mem_map_of_mem hentry)
    simpa using hne

/-! ### Single edits -/

inductive Edit where
  | set (name value : Text)
  | erase (name : Text)
  deriving DecidableEq, Repr

def Edit.name : Edit → Text
  | set name _ => name
  | erase name => name

/-- What the name has as its value behind the edit. -/
def Edit.value? : Edit → Option Text
  | set _ value => some value
  | erase _ => none

namespace Environment

def names (environment : Environment) : List Text :=
  environment.entries.map Prod.fst

/-- The variable could be handed to a child. -/
def Settable (name value : Text) : Prop :=
  name ≠ [] ∧ '=' ∉ name ∧ nul ∉ name ∧ nul ∉ value

structure WellFormed (environment : Environment) : Prop where
  nodup : environment.names.Nodup
  settable : ∀ entry ∈ environment.entries, Settable entry.1 entry.2

def edit (environment : Environment) : Edit → Except VariableError Environment
  | .set name value => environment.set name value
  | .erase name => environment.erase name

/-- The environment after an edit, which leaves it as it was if it fails. -/
def edited (environment : Environment) (edit : Edit) : Environment :=
  match environment.edit edit with
  | .ok next => next
  | .error _ => environment

def editedAll (environment : Environment) (edits : List Edit) : Environment :=
  edits.foldl edited environment

theorem ofList_eq_editedAll (entries : List (Text × Text)) :
    ofList entries = editedAll {} (entries.map fun entry => .set entry.1 entry.2) := by
  rw [editedAll, List.foldl_map]
  rfl

theorem editedAll_append (environment : Environment) (first second : List Edit) :
    environment.editedAll (first ++ second) = (environment.editedAll first).editedAll second :=
  List.foldl_append ..

theorem get?_eq_none_iff {environment : Environment} {name : Text} :
    environment.get? name = none ↔ name ∉ environment.names :=
  lookup_eq_none_iff_notMem

theorem settable_iff {name value : Text} :
    Settable name value ↔ isValidName name = true ∧ isValidValue value = true := by
  simp [Settable, isValidName, isValidValue, and_assoc]

theorem set_of_settable (environment : Environment) {name value : Text} (h : Settable name value) :
    environment.set name value = .ok { entries := assign name value environment.entries } := by
  obtain ⟨hname, hvalue⟩ := settable_iff.1 h
  rw [set, hname, hvalue]
  rfl

theorem set_of_not_settable (environment : Environment) {name value : Text}
    (h : ¬Settable name value) : ∃ error, environment.set name value = .error error := by
  rw [set]
  split
  · exact ⟨_, rfl⟩
  · next hname =>
    have hvalue : isValidValue value ≠ true := by
      intro hvalue
      exact h (settable_iff.2 ⟨by simpa using hname, hvalue⟩)
    rw [if_pos (by simpa using hvalue)]
    exact ⟨_, rfl⟩

theorem erase_of_mem (environment : Environment) {name : Text} (h : name ∈ environment.names) :
    environment.erase name =
      .ok { entries := environment.entries.eraseP fun entry => entry.1 == name } := by
  rw [erase]
  cases hget : environment.get? name with
  | none => exact absurd h (get?_eq_none_iff.1 hget)
  | some value => rfl

theorem erase_of_notMem (environment : Environment) {name : Text} (h : name ∉ environment.names) :
    environment.erase name = .error (.notSet name) := by
  rw [erase, get?_eq_none_iff.2 h]

theorem set_eq_error_iff (environment : Environment) (name value : Text) :
    (∃ error, environment.set name value = .error error) ↔
      name = [] ∨ '=' ∈ name ∨ nul ∈ name ∨ nul ∈ value := by
  have hnot : ¬Settable name value ↔ name = [] ∨ '=' ∈ name ∨ nul ∈ name ∨ nul ∈ value := by
    simp only [Settable, Classical.not_and_iff_not_or_not, Classical.not_not, ne_eq]
  rw [← hnot]
  constructor
  · intro herror hsettable
    obtain ⟨error, herror⟩ := herror
    rw [set_of_settable environment hsettable] at herror
    simp at herror
  · exact set_of_not_settable environment

theorem erase_eq_error_iff (environment : Environment) (name : Text) :
    (∃ error, environment.erase name = .error error) ↔ name ∉ environment.names := by
  constructor
  · intro herror hmem
    obtain ⟨error, herror⟩ := herror
    rw [erase_of_mem environment hmem] at herror
    simp at herror
  · intro hnew
    exact ⟨_, erase_of_notMem environment hnew⟩

theorem edit_cases {environment next : Environment} {edit : Edit}
    (h : environment.edit edit = .ok next) :
    (∃ name value, edit = .set name value ∧ Settable name value ∧
      next = { entries := assign name value environment.entries }) ∨
      ∃ name, edit = .erase name ∧ name ∈ environment.names ∧
        next = { entries := environment.entries.eraseP fun entry => entry.1 == name } := by
  cases edit with
  | set name value =>
    rw [Environment.edit] at h
    by_cases hsettable : Settable name value
    · rw [set_of_settable environment hsettable] at h
      exact .inl ⟨name, value, rfl, hsettable, (Except.ok.inj h).symm⟩
    · obtain ⟨error, herror⟩ := set_of_not_settable environment hsettable
      rw [herror] at h
      simp at h
  | erase name =>
    rw [Environment.edit] at h
    by_cases hmem : name ∈ environment.names
    · rw [erase_of_mem environment hmem] at h
      exact .inr ⟨name, rfl, hmem, (Except.ok.inj h).symm⟩
    · rw [erase_of_notMem environment hmem] at h
      simp at h

theorem names_eraseP (entries : List (Text × Text)) (name : Text) :
    names { entries := entries.eraseP fun entry => entry.1 == name } =
      (names { entries }).erase name := by
  rw [names, names, List.erase_eq_eraseP', List.eraseP_map]
  rfl

theorem names_assign_of_mem {environment : Environment} {name : Text}
    (h : name ∈ environment.names) (value : Text) :
    names { entries := assign name value environment.entries } = environment.names :=
  map_fst_assign_of_mem h value

theorem names_assign_of_notMem {environment : Environment} {name : Text}
    (h : name ∉ environment.names) (value : Text) :
    names { entries := assign name value environment.entries } = environment.names ++ [name] :=
  map_fst_assign_of_notMem h value

theorem entries_of_set {environment next : Environment} {name value : Text}
    (h : environment.set name value = .ok next) :
    next.entries = assign name value environment.entries := by
  have hedit : environment.edit (.set name value) = .ok next := h
  obtain ⟨_, _, heq, -, rfl⟩ | ⟨_, heq, -, -⟩ := edit_cases hedit
  · obtain ⟨rfl, rfl⟩ := Edit.set.inj heq
    rfl
  · simp at heq

theorem names_of_set {environment next : Environment} {name value : Text}
    (h : environment.set name value = .ok next) :
    (name ∈ environment.names → next.names = environment.names) ∧
      (name ∉ environment.names → next.names = environment.names ++ [name]) := by
  have hedit : environment.edit (.set name value) = .ok next := h
  obtain ⟨_, _, heq, -, rfl⟩ | ⟨_, heq, -, -⟩ := edit_cases hedit
  · obtain ⟨rfl, rfl⟩ := Edit.set.inj heq
    exact ⟨fun hmem => names_assign_of_mem hmem value, fun hnew => names_assign_of_notMem hnew value⟩
  · simp at heq

/-! ### Well formed environments -/

theorem wellFormed_empty : WellFormed {} :=
  ⟨List.nodup_nil, by simp⟩

theorem WellFormed.settable_of_get? {environment : Environment} (hwf : environment.WellFormed)
    {name value : Text} (h : environment.get? name = some value) : Settable name value := by
  obtain ⟨before, after, hentries, -⟩ := List.lookup_eq_some_iff.1 h
  exact hwf.settable (name, value) (by simp [hentries])

theorem WellFormed.edit {environment next : Environment} (hwf : environment.WellFormed) {edit : Edit}
    (h : environment.edit edit = .ok next) : next.WellFormed := by
  obtain ⟨name, value, -, hsettable, rfl⟩ | ⟨name, -, -, rfl⟩ := edit_cases h
  · constructor
    · by_cases hname : name ∈ environment.names
      · rw [names_assign_of_mem hname]
        exact hwf.nodup
      · rw [names_assign_of_notMem hname, List.nodup_append]
        refine ⟨hwf.nodup, by simp, ?_⟩
        rintro other hother _ hlast rfl
        rw [List.mem_singleton.1 hlast] at hother
        exact hname hother
    · intro entry hentry
      rcases mem_assign hentry with hold | rfl
      · exact hwf.settable entry hold
      · exact hsettable
  · constructor
    · rw [names_eraseP]
      exact hwf.nodup.erase name
    · intro entry hentry
      exact hwf.settable entry (List.mem_of_mem_eraseP hentry)

theorem WellFormed.edited {environment : Environment} (hwf : environment.WellFormed) (edit : Edit) :
    (environment.edited edit).WellFormed := by
  rw [Environment.edited]
  cases hedit : environment.edit edit with
  | ok next => exact hwf.edit hedit
  | error error => exact hwf

theorem WellFormed.editedAll {environment : Environment} (hwf : environment.WellFormed)
    (edits : List Edit) : (environment.editedAll edits).WellFormed := by
  induction edits generalizing environment with
  | nil => exact hwf
  | cons edit rest ih => exact ih (hwf.edited edit)

theorem wellFormed_ofList (entries : List (Text × Text)) : (ofList entries).WellFormed := by
  rw [ofList_eq_editedAll]
  exact wellFormed_empty.editedAll _

theorem WellFormed.get?_eraseP {environment : Environment} (hwf : environment.WellFormed)
    (name other : Text) :
    get? { entries := environment.entries.eraseP fun entry => entry.1 == name } other =
      if other = name then none else environment.get? other := by
  by_cases hname : other = name
  · rw [if_pos hname, get?_eq_none_iff, names_eraseP, hname]
    exact hwf.nodup.not_mem_erase
  · rw [if_neg hname]
    exact lookup_eraseP_of_ne hname environment.entries

theorem WellFormed.get?_of_edit {environment next : Environment} (hwf : environment.WellFormed)
    {edit : Edit} (h : environment.edit edit = .ok next) (name : Text) :
    next.get? name = if name = edit.name then edit.value? else environment.get? name := by
  obtain ⟨other, value, rfl, -, rfl⟩ | ⟨other, rfl, -, rfl⟩ := edit_cases h
  · exact lookup_assign other name value environment.entries
  · exact hwf.get?_eraseP other name

theorem WellFormed.get?_of_edit_of_ne {environment next : Environment} (hwf : environment.WellFormed)
    {edit : Edit} (h : environment.edit edit = .ok next) {name : Text} (hname : name ≠ edit.name) :
    next.get? name = environment.get? name := by
  rw [hwf.get?_of_edit h, if_neg hname]

end Environment

end CommandShell
