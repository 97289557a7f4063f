import CommandShell.Proofs.Environment.Edit

/-!
# Environments as ordered maps

An environment is described here by its history, which is the list of the edits that succeeded. A value is what the last edit of its name set. The order of the names is the order in which they were inserted, where a name is inserted by an edit that sets it while it is gone; setting it again changes nothing about that, and only erasing it makes it gone again.
-/

namespace CommandShell

/-! ### Histories -/

/-- Edits in the order in which they succeeded. -/
abbrev History := List Edit

theorem append_singleton_eq_append_cons_iff {α : Type} {xs before after : List α} {last x : α} :
    xs ++ [last] = before ++ x :: after ↔
      xs = before ∧ last = x ∧ after = [] ∨
        ∃ rest, after = rest ++ [last] ∧ xs = before ++ x :: rest := by
  constructor
  · intro h
    rcases List.eq_nil_or_concat after with rfl | ⟨rest, final, rfl⟩
    · obtain ⟨rfl, hlast⟩ := List.append_inj' h rfl
      exact .inl ⟨rfl, (List.cons.inj hlast).1, rfl⟩
    · rw [List.concat_eq_append] at h ⊢
      have hsnoc : xs ++ [last] = (before ++ x :: rest) ++ [final] := by simpa using h
      obtain ⟨rfl, hlast⟩ := List.append_inj' hsnoc rfl
      rw [(List.cons.inj hlast).1]
      exact .inr ⟨rest, rfl, rfl⟩
  · rintro (⟨rfl, rfl, rfl⟩ | ⟨rest, rfl, rfl⟩)
    · rfl
    · simp

namespace History

/-- The last edit of the name sets it to the value. -/
def LastSet (history : History) (name value : Text) : Prop :=
  ∃ before after, history = before ++ .set name value :: after ∧ ∀ edit ∈ after, edit.name ≠ name

/-- Whenever the name was set, it was erased later. -/
def Gone (history : History) (name : Text) : Prop :=
  ∀ before value after, history = before ++ .set name value :: after → .erase name ∈ after

/-- The edit at the index set the name while it was gone, and the name has not been erased since. -/
def InsertedAt (history : History) (name : Text) (index : Nat) : Prop :=
  ∃ before value after, history = before ++ .set name value :: after ∧ before.length = index ∧
    Gone before name ∧ .erase name ∉ after

variable {history : History} {name value : Text} {index : Nat}

theorem lastSet_append_iff {edit : Edit} :
    LastSet (history ++ [edit]) name value ↔
      edit = .set name value ∨ edit.name ≠ name ∧ LastSet history name value := by
  constructor
  · rintro ⟨before, after, hsplit, hafter⟩
    rcases append_singleton_eq_append_cons_iff.1 hsplit with ⟨-, hlast, -⟩ | ⟨rest, rfl, hhistory⟩
    · exact .inl hlast
    · refine .inr ⟨hafter edit (by simp), before, rest, hhistory, ?_⟩
      intro other hother
      exact hafter other (by simp [hother])
  · rintro (rfl | ⟨hname, before, after, rfl, hafter⟩)
    · exact ⟨history, [], rfl, by simp⟩
    · refine ⟨before, after ++ [edit], by simp, ?_⟩
      intro other hother
      rcases List.mem_append.1 hother with hold | hnew
      · exact hafter other hold
      · rw [List.mem_singleton.1 hnew]
        exact hname

theorem InsertedAt.lt_length (h : history.InsertedAt name index) : index < history.length := by
  obtain ⟨before, value, after, rfl, rfl, -, -⟩ := h
  simp

theorem InsertedAt.not_gone (h : history.InsertedAt name index) : ¬history.Gone name := by
  obtain ⟨before, value, after, hhistory, -, -, herase⟩ := h
  intro hgone
  exact herase (hgone before value after hhistory)

theorem InsertedAt.append (h : history.InsertedAt name index) {edit : Edit}
    (hedit : edit ≠ .erase name) : InsertedAt (history ++ [edit]) name index := by
  obtain ⟨before, value, after, rfl, hindex, hgone, herase⟩ := h
  refine ⟨before, value, after ++ [edit], by simp, hindex, hgone, ?_⟩
  intro hmem
  rcases List.mem_append.1 hmem with hold | hnew
  · exact herase hold
  · exact hedit (List.mem_singleton.1 hnew).symm

theorem Gone.insertedAt_append (h : history.Gone name) (value : Text) :
    InsertedAt (history ++ [.set name value]) name history.length :=
  ⟨history, value, [], rfl, rfl, h, by simp⟩

theorem gone_append_erase (history : History) (name : Text) : Gone (history ++ [.erase name]) name := by
  intro before value after hsplit
  rcases append_singleton_eq_append_cons_iff.1 hsplit with ⟨-, hlast, -⟩ | ⟨rest, rfl, -⟩
  · simp at hlast
  · simp

theorem Gone.append (h : history.Gone name) {edit : Edit} (hedit : edit.name ≠ name) :
    Gone (history ++ [edit]) name := by
  intro before value after hsplit
  rcases append_singleton_eq_append_cons_iff.1 hsplit with ⟨-, rfl, -⟩ | ⟨rest, rfl, hhistory⟩
  · exact absurd rfl hedit
  · exact List.mem_append_left _ (h before value rest hhistory)

/-- A name is either gone or was inserted by some edit. -/
theorem gone_or_exists_insertedAt (history : History) (name : Text) :
    history.Gone name ∨ ∃ index, history.InsertedAt name index := by
  -- The induction takes edits off at the end, since the last ones decide.
  rw [← List.reverse_reverse history]
  induction history.reverse with
  | nil => exact .inl (by intro before value after hsplit; simp at hsplit)
  | cons edit earlier ih =>
    rw [List.reverse_cons]
    by_cases hname : edit.name = name
    · cases edit with
      | set other value =>
        obtain rfl : other = name := hname
        rcases ih with hgone | ⟨index, hinserted⟩
        · exact .inr ⟨_, hgone.insertedAt_append value⟩
        · exact .inr ⟨index, hinserted.append (by simp)⟩
      | erase other =>
        obtain rfl : other = name := hname
        exact .inl (gone_append_erase _ other)
    · have hne : edit ≠ .erase name := by
        rintro rfl
        exact hname rfl
      rcases ih with hgone | ⟨index, hinserted⟩
      · exact .inl (hgone.append hname)
      · exact .inr ⟨index, hinserted.append hne⟩

/-- What the last edit can have to do with the insertion of a name. -/
theorem InsertedAt.of_append {edit : Edit} (h : InsertedAt (history ++ [edit]) name index) :
    edit ≠ .erase name ∧
      (history.InsertedAt name index ∨
        index = history.length ∧ edit.name = name ∧ history.Gone name) := by
  obtain ⟨before, value, after, hsplit, rfl, hgone, herase⟩ := h
  rcases append_singleton_eq_append_cons_iff.1 hsplit with ⟨rfl, rfl, -⟩ | ⟨rest, rfl, hhistory⟩
  · exact ⟨by simp, .inr ⟨rfl, rfl, hgone⟩⟩
  · have hedit : edit ≠ .erase name := by
      rintro rfl
      simp at herase
    refine ⟨hedit, .inl ⟨before, value, rest, hhistory, rfl, hgone, ?_⟩⟩
    intro hmem
    exact herase (List.mem_append_left _ hmem)

/-- Setting a name again inserts nothing. -/
theorem InsertedAt.append_set_iff (h : history.InsertedAt name index) {other : Text} {k : Nat} :
    InsertedAt (history ++ [.set name value]) other k ↔ history.InsertedAt other k := by
  constructor
  · intro hk
    rcases hk.of_append.2 with hold | ⟨-, heq, hgone⟩
    · exact hold
    · obtain rfl : name = other := heq
      exact absurd hgone h.not_gone
  · intro hk
    exact hk.append (by simp)

theorem Gone.append_set_iff (h : history.Gone name) {other : Text} {k : Nat} :
    InsertedAt (history ++ [.set name value]) other k ↔
      history.InsertedAt other k ∨ other = name ∧ k = history.length := by
  constructor
  · intro hk
    rcases hk.of_append.2 with hold | ⟨hlength, heq, -⟩
    · exact .inl hold
    · exact .inr ⟨heq.symm, hlength⟩
  · rintro (hold | ⟨rfl, rfl⟩)
    · exact hold.append (by simp)
    · exact h.insertedAt_append value

theorem insertedAt_append_erase_iff {other : Text} {k : Nat} :
    InsertedAt (history ++ [.erase name]) other k ↔ other ≠ name ∧ history.InsertedAt other k := by
  constructor
  · intro hk
    have hne : other ≠ name := by
      rintro rfl
      exact hk.of_append.1 rfl
    rcases hk.of_append.2 with hold | ⟨-, heq, -⟩
    · exact ⟨hne, hold⟩
    · exact absurd heq.symm hne
  · rintro ⟨hne, hk⟩
    apply hk.append
    intro heq
    exact hne (Edit.erase.inj heq).symm

end History

/-! ### What an environment keeps of its history -/

namespace Environment

/-- The edits that succeed when they are made one after the other. -/
def successes (environment : Environment) : List Edit → History
  | [] => []
  | edit :: rest =>
    match environment.edit edit with
    | .ok next => edit :: next.successes rest
    | .error _ => environment.successes rest

/-- The environment is what the history makes of an empty one. -/
structure Keeps (environment : Environment) (history : History) : Prop where
  get?_eq_some_iff : ∀ name value, environment.get? name = some value ↔ history.LastSet name value
  mem_names_iff : ∀ name, name ∈ environment.names ↔ ∃ index, history.InsertedAt name index
  ordered : environment.names.Pairwise fun first second =>
    ∀ i j, history.InsertedAt first i → history.InsertedAt second j → i < j

theorem keeps_empty : Keeps {} [] := by
  constructor
  · intro name value
    simp [get?, History.LastSet]
  · intro name
    simp [names, History.InsertedAt]
  · exact .nil

theorem Keeps.gone_of_notMem {environment : Environment} {history : History}
    (h : environment.Keeps history) {name : Text} (hname : name ∉ environment.names) :
    history.Gone name := by
  rcases history.gone_or_exists_insertedAt name with hgone | hinserted
  · exact hgone
  · exact absurd ((h.mem_names_iff name).2 hinserted) hname

theorem Keeps.get?_assign_eq_some_iff {environment : Environment} {history : History}
    (h : environment.Keeps history) (name value other otherValue : Text) :
    get? { entries := assign name value environment.entries } other = some otherValue ↔
      History.LastSet (history ++ [.set name value]) other otherValue := by
  have hget : get? { entries := assign name value environment.entries } other =
      if other = name then some value else environment.get? other :=
    lookup_assign name other value environment.entries
  rw [hget, History.lastSet_append_iff, ← h.get?_eq_some_iff]
  by_cases hname : other = name
  · subst hname
    simp [Edit.name]
  · have hne : name ≠ other := Ne.symm hname
    simp [Edit.name, hname, hne]

theorem Keeps.set {environment : Environment} {history : History} (h : environment.Keeps history)
    (name value : Text) :
    Keeps { entries := assign name value environment.entries } (history ++ [.set name value]) := by
  have hget := h.get?_assign_eq_some_iff name value
  by_cases hname : name ∈ environment.names
  · -- The name stays where it is, and so does its insertion.
    obtain ⟨index, hindex⟩ := (h.mem_names_iff name).1 hname
    refine ⟨hget, ?_, ?_⟩
    · simp only [names_assign_of_mem hname, hindex.append_set_iff]
      exact h.mem_names_iff
    · simp only [names_assign_of_mem hname, hindex.append_set_iff]
      exact h.ordered
  · have hgone := h.gone_of_notMem hname
    refine ⟨hget, ?_, ?_⟩
    · intro other
      rw [names_assign_of_notMem hname, List.mem_append, List.mem_singleton, h.mem_names_iff]
      simp only [hgone.append_set_iff, exists_or, exists_eq_right]
    · have hold {other : Text} {k : Nat} (hmem : other ∈ environment.names)
          (hk : history.InsertedAt other k ∨ other = name ∧ k = history.length) :
          history.InsertedAt other k :=
        hk.resolve_right fun hnew => hname (hnew.1 ▸ hmem)
      rw [names_assign_of_notMem hname, List.pairwise_append]
      simp only [hgone.append_set_iff]
      refine ⟨?_, List.pairwise_singleton _ _, ?_⟩
      · apply h.ordered.imp_of_mem
        intro first second hfirst hsecond hlt i j hi hj
        exact hlt i j (hold hfirst hi) (hold hsecond hj)
      · intro first hfirst second hsecond i j hi hj
        obtain rfl := List.mem_singleton.1 hsecond
        have hlast : j = history.length := by
          rcases hj with hinserted | ⟨-, hlength⟩
          · exact absurd hgone hinserted.not_gone
          · exact hlength
        rw [hlast]
        exact (hold hfirst hi).lt_length

theorem Keeps.erase {environment : Environment} {history : History} (h : environment.Keeps history)
    (hwf : environment.WellFormed) (name : Text) :
    Keeps { entries := environment.entries.eraseP fun entry => entry.1 == name }
      (history ++ [.erase name]) := by
  constructor
  · intro other otherValue
    rw [hwf.get?_eraseP, History.lastSet_append_iff, ← h.get?_eq_some_iff]
    by_cases hname : other = name
    · subst hname
      simp [Edit.name]
    · have hne : name ≠ other := Ne.symm hname
      simp [Edit.name, hname, hne]
  · intro other
    have hmem : other ∈ environment.names.erase name ↔ other ≠ name ∧ other ∈ environment.names :=
      hwf.nodup.mem_erase_iff
    simp only [names_eraseP, hmem, History.insertedAt_append_erase_iff, exists_and_left]
    rw [h.mem_names_iff]
  · have hsublist : (environment.names.erase name).Sublist environment.names := List.erase_sublist
    simp only [names_eraseP, History.insertedAt_append_erase_iff]
    apply (h.ordered.sublist hsublist).imp
    intro first second hlt i j hi hj
    exact hlt i j hi.2 hj.2

theorem Keeps.edit {environment next : Environment} {history : History}
    (h : environment.Keeps history) (hwf : environment.WellFormed) {edit : Edit}
    (hedit : environment.edit edit = .ok next) : next.Keeps (history ++ [edit]) := by
  obtain ⟨name, value, rfl, -, rfl⟩ | ⟨name, rfl, -, rfl⟩ := edit_cases hedit
  · exact h.set name value
  · exact h.erase hwf name

theorem Keeps.editedAll {environment : Environment} {history : History}
    (h : environment.Keeps history) (hwf : environment.WellFormed) (edits : List Edit) :
    (environment.editedAll edits).Keeps (history ++ environment.successes edits) := by
  induction edits generalizing environment history with
  | nil =>
    rw [successes, List.append_nil]
    exact h
  | cons edit rest ih =>
    rw [successes]
    change ((environment.edited edit).editedAll rest).Keeps _
    rw [edited]
    cases hedit : environment.edit edit with
    | error error => exact ih h hwf
    | ok next =>
      have hnext := ih (h.edit hwf hedit) (hwf.edit hedit)
      rwa [List.append_assoc] at hnext

end Environment

end CommandShell
