import CommandShell.Completion

/-!
# Following the search path

Command names are collected when a completer is made and again when it is told of another search path; in between they are kept. Nobody can tell the kept names from newly collected ones as long as the host stays as it is. What holds at all times is that the names are those of the search path that the completer remembers, and that it remembers the one it was told of last.
-/

namespace CommandShell

namespace Completer

/-- Follows search paths one after the other, and tells of each whether it was a change. -/
def syncAll (host : Host) (completer : Completer) : List (Option Text) → List Bool × Completer
  | [] => ([], completer)
  | given :: later =>
    let (changed, next) := completer.sync host given
    let (others, last) := syncAll host next later
    (changed :: others, last)

/-- The names are those that the search path has on this host. -/
def IsCurrent (host : Host) (completer : Completer) : Prop :=
  completer.commandNames = host.commandNames completer.searchPath

theorem isCurrent_ofSearchPath (host : Host) (searchPath : Option Text) :
    IsCurrent host (ofSearchPath host searchPath) := rfl

variable {host : Host} {completer : Completer}

theorem IsCurrent.eq_ofSearchPath (h : completer.IsCurrent host) :
    completer = ofSearchPath host completer.searchPath := by
  obtain ⟨searchPath, commandNames⟩ := completer
  exact congrArg (Completer.mk searchPath) h

/-! ### One change of the search path -/

theorem sync_changed (host : Host) (completer : Completer) (given : Option Text) :
    (completer.sync host given).1 = decide (completer.searchPath ≠ given) := by
  rw [sync]
  split
  · next hsame => simp [hsame]
  · next hother => simp [hother]

theorem searchPath_sync (host : Host) (completer : Completer) (given : Option Text) :
    (completer.sync host given).2.searchPath = given := by
  rw [sync]
  split
  · next hsame => exact hsame
  · rfl

theorem IsCurrent.sync (h : completer.IsCurrent host) (given : Option Text) :
    (completer.sync host given).2.IsCurrent host := by
  rw [Completer.sync]
  split
  · exact h
  · exact isCurrent_ofSearchPath host given

/-! ### Any number of changes -/

theorem syncAll_changed (host : Host) (completer : Completer) (calls : List (Option Text)) :
    (completer.syncAll host calls).1 =
      (completer.searchPath :: calls).zipWith (fun previous given => decide (previous ≠ given)) calls := by
  induction calls generalizing completer with
  | nil => rfl
  | cons given later ih =>
    rw [syncAll, List.zipWith_cons_cons, ← sync_changed host]
    have hothers := ih (completer.sync host given).2
    rw [searchPath_sync] at hothers
    exact congrArg _ hothers

theorem IsCurrent.syncAll (h : completer.IsCurrent host) (calls : List (Option Text)) :
    (completer.syncAll host calls).2 =
      ofSearchPath host ((completer.searchPath :: calls).getLast (List.cons_ne_nil _ _)) := by
  induction calls generalizing completer with
  | nil => exact h.eq_ofSearchPath
  | cons given later ih =>
    have hlast := ih (h.sync given)
    simp only [searchPath_sync] at hlast
    rw [List.getLast_cons_cons]
    exact hlast

/-- The kept names cannot be told from newly collected ones. Whatever search paths a completer was told of, it answers every question as one that is made for the last of them, and it notices a change exactly if it is told of another search path than the time before; to have none is not the same as to have an empty one. -/
theorem complete_syncAll (host : Host) (initial : Option Text) (calls : List (Option Text)) :
    let (changed, completer) := (ofSearchPath host initial).syncAll host calls
    (∀ line position,
        completer.complete host line position =
          (ofSearchPath host ((initial :: calls).getLast (List.cons_ne_nil _ _))).complete host line
            position) ∧
      changed = (initial :: calls).zipWith (fun previous given => decide (previous ≠ given)) calls := by
  have hnames := isCurrent_ofSearchPath host initial
  refine ⟨fun line position => ?_, syncAll_changed host (ofSearchPath host initial) calls⟩
  rw [hnames.syncAll calls]
  rfl

example : ((ofSearchPath {} none).syncAll {} [some [], some [], none, none]).1 =
    [true, false, true, false] := by decide

end Completer

end CommandShell
