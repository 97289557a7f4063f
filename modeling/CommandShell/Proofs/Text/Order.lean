import Mathlib.Data.List.Nodup
import CommandShell.Text.Order
import CommandShell.Proofs.Text.Utf8

/-!
# Sorting by bytes

Sorting leaves nothing out and puts the keys in the order of their bytes. If the keys are all different, this leaves one list only, so sorting agrees with any other way to the same order. One of these goes through a map that is keyed by the bytes: it lists its values in the order of the keys, and would let a later value take the place of an earlier one with the same key.
-/

namespace CommandShell

theorem Text.utf8_injective : Function.Injective Text.utf8 := by
  intro first second h
  have hdecoded := congrArg Bytes.decoded h
  rwa [decoded_utf8, decoded_utf8] at hdecoded

theorem Bytes.compare_eq_lt_iff (first second : Bytes) :
    compare first second = .lt ↔ first < second := by
  induction first generalizing second with
  | nil => cases second <;> simp [compare, List.compareLex]
  | cons b first ih =>
    cases second with
    | nil => simp [compare, List.compareLex]
    | cons c second =>
      rw [List.cons_lt_cons_iff, ← ih, List.compare_cons_cons, Ordering.then_eq_lt,
        Std.compare_eq_lt, Std.compare_eq_iff_eq]

/-! ### Sorted lists -/

section Sorting

variable {α : Type}

theorem pairwise_insertSorted (x : Bytes × α) {xs : List (Bytes × α)}
    (h : xs.Pairwise fun first second => first.1 ≤ second.1) :
    (insertSorted x xs).Pairwise fun first second => first.1 ≤ second.1 := by
  induction xs with
  | nil => exact List.pairwise_singleton _ x
  | cons y rest ih =>
    obtain ⟨hfirst, hrest⟩ := List.pairwise_cons.1 h
    rw [insertSorted]
    split
    · next hle =>
      refine List.pairwise_cons.2 ⟨?_, h⟩
      rw [List.forall_mem_cons]
      exact ⟨hle, fun z hz => List.le_trans hle (hfirst z hz)⟩
    · next hlt =>
      have hle : y.1 ≤ x.1 := (List.le_total x.1 y.1).resolve_left hlt
      refine List.pairwise_cons.2 ⟨?_, ih hrest⟩
      intro z hz
      rcases List.mem_cons.1 ((insertSorted_perm x rest).mem_iff.1 hz) with rfl | hz
      · exact hle
      · exact hfirst z hz

theorem pairwise_foldr_insertSorted (xs : List (Bytes × α)) :
    (xs.foldr insertSorted []).Pairwise fun first second => first.1 ≤ second.1 := by
  induction xs with
  | nil => exact List.Pairwise.nil
  | cons x rest ih => exact pairwise_insertSorted x ih

/-- There is one way only to put entries with different keys in order. -/
theorem foldr_insertSorted_eq {xs ys : List (Bytes × α)} (hkeys : (xs.map Prod.fst).Nodup)
    (hperm : ys.Perm xs) (hys : ys.Pairwise fun first second => first.1 ≤ second.1) :
    xs.foldr insertSorted [] = ys := by
  have hsame := (foldr_insertSorted_perm xs).trans hperm.symm
  refine hsame.eq_of_pairwise ?_ (pairwise_foldr_insertSorted xs) hys
  intro first second hfirst hsecond hle hge
  exact List.inj_on_of_nodup_map hkeys ((foldr_insertSorted_perm xs).mem_iff.1 hfirst)
    (hperm.mem_iff.1 hsecond) (List.le_antisymm hle hge)

/-- The map that has each element under its key. Of two elements with the same key the later one counts. -/
def byKey (key : α → Bytes) (xs : List α) : Std.TreeMap Bytes α :=
  .ofList (xs.map fun x => (key x, x))

theorem getElem?_ofList_eq_some_iff {xs : List (Bytes × α)} (hkeys : (xs.map Prod.fst).Nodup)
    {key : Bytes} {x : α} : (Std.TreeMap.ofList xs)[key]? = some x ↔ (key, x) ∈ xs := by
  have hpresent {y : α} (hy : (key, y) ∈ xs) : (Std.TreeMap.ofList xs)[key]? = some y := by
    refine Std.TreeMap.getElem?_ofList_of_mem (Std.compare_self) ?_ hy
    refine (List.pairwise_map.1 hkeys).imp ?_
    intro first second hne heq
    exact hne (Std.compare_eq_iff_eq.1 heq)
  refine ⟨fun h => ?_, hpresent⟩
  by_cases hkey : key ∈ xs.map Prod.fst
  · obtain ⟨⟨_, y⟩, hy, rfl⟩ := List.mem_map.1 hkey
    rw [hpresent hy] at h
    rwa [← Option.some.inj h]
  · have habsent : (Std.TreeMap.ofList xs)[key]? = none :=
      Std.TreeMap.getElem?_ofList_of_contains_eq_false (by simpa using hkey)
    rw [habsent] at h
    simp at h

/-- A map of different keys has lost nothing. -/
theorem toList_ofList_perm {xs : List (Bytes × α)} (hkeys : (xs.map Prod.fst).Nodup) :
    (Std.TreeMap.ofList xs).toList.Perm xs := by
  have hlisted : (Std.TreeMap.ofList xs).toList.Nodup := by
    refine Std.TreeMap.distinct_keys_toList.imp ?_
    rintro first _ hne rfl
    exact hne Std.compare_self
  rw [List.perm_ext_iff_of_nodup hlisted hkeys.of_map]
  rintro ⟨key, x⟩
  rw [Std.TreeMap.mem_toList_iff_getElem?_eq_some, getElem?_ofList_eq_some_iff hkeys]

/-- As long as the keys are different, sorting lists what a map of them lists. -/
theorem sortedBy_eq_byKey {key : α → Bytes} {xs : List α} (hkeys : (xs.map key).Nodup) :
    sortedBy key xs = (byKey key xs).toList.map Prod.snd := by
  have hentries : ((xs.map fun x => (key x, x)).map Prod.fst).Nodup := by
    rwa [List.map_map]
  rw [sortedBy, byKey, foldr_insertSorted_eq hentries (toList_ofList_perm hentries)]
  refine Std.TreeMap.ordered_keys_toList.imp ?_
  intro first second hlt
  exact List.le_of_lt ((Bytes.compare_eq_lt_iff _ _).1 hlt)

theorem pairwise_sortedBy {key : α → Bytes} {xs : List α} (hkeys : (xs.map key).Nodup) :
    (sortedBy key xs).Pairwise fun first second => key first < key second := by
  have hentries : ((xs.map fun x => (key x, x)).map Prod.fst).Nodup := by
    rwa [List.map_map]
  have hlabelled {entry : Bytes × α} (hentry : entry ∈ (byKey key xs).toList) :
      entry.1 = key entry.2 := by
    obtain ⟨x, -, rfl⟩ := List.mem_map.1 ((toList_ofList_perm hentries).mem_iff.1 hentry)
    rfl
  rw [sortedBy_eq_byKey hkeys, List.pairwise_map]
  refine Std.TreeMap.ordered_keys_toList.imp_of_mem ?_
  intro first second hfirst hsecond hlt
  rw [← hlabelled hfirst, ← hlabelled hsecond]
  exact (Bytes.compare_eq_lt_iff _ _).1 hlt

theorem nodup_eraseDups [BEq α] [LawfulBEq α] (xs : List α) : xs.eraseDups.Nodup := by
  match xs with
  | [] => simp
  | x :: rest =>
    rw [List.eraseDups_cons, List.nodup_cons, List.mem_eraseDups]
    exact ⟨by simp, nodup_eraseDups (rest.filter fun y => !y == x)⟩
termination_by xs.length
decreasing_by exact Nat.lt_succ_of_le (List.length_filter_le _ rest)

end Sorting

theorem Text.pairwise_sortedSet (texts : List Text) :
    (sortedSet texts).Pairwise fun first second => first.utf8 < second.utf8 :=
  pairwise_sortedBy ((nodup_eraseDups texts).map utf8_injective)

end CommandShell
