import CommandShell.Proofs.Completion.Commands
import CommandShell.Proofs.Completion.Position
import CommandShell.Proofs.FileTree.Proper
import CommandShell.Proofs.Text.Order

/-!
# Completion goes on with what is typed

Whatever is chosen among the proposals, what stands before the cursor stays and only grows. The word is cut off behind the last character that ends one, and every proposal begins with it: a command name because only such names are taken from the list, and a path because it is put together from the part of the word up to its last `/` and from a name that begins with the rest.

The proposals are in byte order and no two are shown alike. Command names are kept as a set. The names of a directory are different too, but directories are shown with a `/` behind them; this cannot make two of them alike, as no name has a `/`.
-/

namespace CommandShell

/-! ### Command names -/

namespace Completer

/-- The completer was made on some host and may have followed search paths since then, on this host or on others. -/
inductive Arises : Completer → Prop
  | made (host : Host) (searchPath : Option Text) : Arises (ofSearchPath host searchPath)
  | synced {completer : Completer} (h : Arises completer) (host : Host) (searchPath : Option Text) :
    Arises (completer.sync host searchPath).2

variable {completer : Completer}

theorem Arises.pairwise_commandNames (h : completer.Arises) :
    completer.commandNames.Pairwise fun first second => first.utf8 < second.utf8 := by
  induction h with
  | made host searchPath => exact Text.pairwise_sortedSet _
  | synced _ host searchPath ih =>
    rw [sync]
    split
    · exact ih
    · exact Text.pairwise_sortedSet _

theorem prefix_of_mem_commandCandidates {stem : Text} {proposed : Candidate}
    (h : proposed ∈ completer.commandCandidates stem) :
    stem <+: proposed.replacement ∧ proposed.replacement = proposed.display ++ [' '] := by
  obtain ⟨name, -, hstem, rfl⟩ := mem_commandCandidates_iff.1 h
  exact ⟨hstem.trans (List.prefix_append name _), rfl⟩

theorem Arises.pairwise_commandCandidates (h : completer.Arises) (stem : Text) :
    (completer.commandCandidates stem).Pairwise fun first second =>
      first.display.utf8 < second.display.utf8 := by
  rw [commandCandidates, List.pairwise_map]
  exact h.pairwise_commandNames.filter _

end Completer

/-! ### Paths -/

/-- A word cut behind its last `/`: the typed part of a path, and the beginning of a name. -/
structure PathWord where
  typed : Text
  stem : Text
  slash_notMem : '/' ∉ stem
  typed_end : typed = [] ∨ ∃ front, typed = front ++ ['/']

namespace PathWord

def text (path : PathWord) : Text :=
  path.typed ++ path.stem

/-- The directory whose names the word may go on with. -/
def directory (path : PathWord) : Text :=
  Host.directoryOf path.typed

def ofText (word : Text) : PathWord where
  typed := word.rdropWhile fun c => c != '/'
  stem := word.rtakeWhile fun c => c != '/'
  slash_notMem hmem := by simpa using List.mem_rtakeWhile_imp hmem
  typed_end := by
    rcases List.eq_nil_or_concat (word.rdropWhile fun c => c != '/') with hnil | ⟨front, c, hfront⟩
    · exact .inl hnil
    · have hlast := List.rdropWhile_last_not (fun c => c != '/') word (by simp [hfront])
      simp only [hfront, List.concat_eq_append, List.getLast_append_singleton] at hlast
      exact .inr ⟨front, by simpa [hfront] using hlast⟩

theorem text_ofText (word : Text) : (ofText word).text = word :=
  List.rdropWhile_append_rtakeWhile

/-- The name leads to a directory, maybe by links. -/
def leadsToDirectory (host : Host) (path : PathWord) (name : Text) : Bool :=
  host.isDirectory (.ofText (Path.join path.directory name))

/-- What is proposed for a name. -/
def candidate (host : Host) (path : PathWord) (name : Text) : Candidate :=
  if path.leadsToDirectory host name then
    { display := name ++ ['/'], replacement := path.typed ++ name ++ ['/'] }
  else
    { display := name, replacement := path.typed ++ name ++ [' '] }

theorem replacement_candidate (host : Host) (path : PathWord) (name : Text) :
    (path.candidate host name).replacement =
      path.typed ++ name ++ [if path.leadsToDirectory host name then '/' else ' '] := by
  rw [candidate]
  split <;> rfl

/-- The name can be told from what is shown. -/
theorem filter_display_candidate (host : Host) (path : PathWord) {name : Text} (hname : '/' ∉ name) :
    (path.candidate host name).display.filter (fun c => c != '/') = name := by
  have hkept : name.filter (fun c => c != '/') = name :=
    List.filter_eq_self.2 (bne_eq_true_of_notMem hname)
  rw [candidate]
  split
  · rw [List.filter_append, hkept]
    simp
  · exact hkept

end PathWord

namespace Host

theorem pathCandidates_eq (host : Host) (word : Text) :
    let path := PathWord.ofText word
    host.pathCandidates word =
      sortedBy (fun proposed => proposed.display.utf8)
        ((((host.textNames path.directory).map Prod.fst).filter fun name =>
          offers path.stem name).map (path.candidate host)) := by
  rw [pathCandidates, Text.take_length_sub_takeEnd]
  rfl

theorem map_fst_textNames (host : Host) (directory : Text) :
    (host.textNames directory).map Prod.fst =
      (((host.list? (.ofText directory)).getD []).map Prod.fst).filterMap Bytes.text? := by
  rw [textNames, List.map_filterMap, List.filterMap_map]
  congr 1
  funext child
  rw [Option.map_map, Function.comp_apply]
  exact Option.map_id'

theorem mem_names_textNames_iff {host : Host} {directory name : Text} :
    name ∈ (host.textNames directory).map Prod.fst ↔
      name.utf8 ∈ ((host.list? (.ofText directory)).getD []).map Prod.fst := by
  rw [map_fst_textNames, List.mem_filterMap]
  simp only [text?_eq_some_iff, exists_eq_right]

theorem mem_pathCandidates_iff {host : Host} {word : Text} {proposed : Candidate} :
    proposed ∈ host.pathCandidates word ↔
      ∃ children, host.list? (.ofText (PathWord.ofText word).directory) = some children ∧
        ∃ name : Text, name.utf8 ∈ children.map Prod.fst ∧
          offers (PathWord.ofText word).stem name = true ∧
          (PathWord.ofText word).candidate host name = proposed := by
  rw [pathCandidates_eq, (sortedBy_perm _ _).mem_iff, List.mem_map]
  simp only [List.mem_filter, mem_names_textNames_iff, and_assoc]
  cases host.list? (.ofText (PathWord.ofText word).directory) <;> simp

theorem prefix_of_mem_pathCandidates {host : Host} {word : Text} {proposed : Candidate}
    (h : proposed ∈ host.pathCandidates word) :
    word <+: proposed.replacement ∧
      ∃ (path : PathWord) (children : List (Name × Entry)) (name : Text),
        path.text = word ∧ host.list? (.ofText path.directory) = some children ∧
          name.utf8 ∈ children.map Prod.fst ∧
          proposed.replacement =
            path.typed ++ name ++ [if path.leadsToDirectory host name then '/' else ' '] := by
  obtain ⟨children, hlist, name, hname, hoffers, rfl⟩ := mem_pathCandidates_iff.1 h
  refine ⟨?_, _, children, name, PathWord.text_ofText word, hlist, hname,
    PathWord.replacement_candidate host _ name⟩
  have hstem : (PathWord.ofText word).stem <+: name := by
    rw [offers, Bool.and_eq_true, List.isPrefixOf_iff_prefix] at hoffers
    exact hoffers.1
  have hgrown : (PathWord.ofText word).text <+: (PathWord.ofText word).typed ++ name :=
    (List.prefix_append_right_inj _).2 hstem
  rw [PathWord.text_ofText] at hgrown
  rw [PathWord.replacement_candidate]
  exact hgrown.trans (List.prefix_append _ _)

theorem names_textNames {host : Host} (h : host.tree.IsProper) (directory : Text) :
    ((host.textNames directory).map Prod.fst).Nodup ∧
      ∀ name ∈ (host.textNames directory).map Prod.fst, '/' ∉ name := by
  have hlisted : (((host.list? (.ofText directory)).getD []).map Prod.fst).Nodup ∧
      ∀ name ∈ ((host.list? (.ofText directory)).getD []).map Prod.fst, HostPath.slash ∉ name := by
    cases hlist : host.list? (.ofText directory) with
    | none => simp
    | some children => exact names_of_list? h hlist
  obtain ⟨hnodup, hslash⟩ := hlisted
  constructor
  · rw [map_fst_textNames]
    refine hnodup.filterMap fun first second t hfirst hsecond => ?_
    rw [text?_eq_some_iff.1 hfirst, text?_eq_some_iff.1 hsecond]
  · intro name hname hmem
    exact hslash name.utf8 (mem_names_textNames_iff.1 hname)
      ((mem_utf8_iff HostPath.utf8EncodeChar_slash).2 hmem)

theorem pairwise_pathCandidates {host : Host} (h : host.tree.IsProper) (word : Text) :
    (host.pathCandidates word).Pairwise fun first second =>
      first.display.utf8 < second.display.utf8 := by
  obtain ⟨hnodup, hslash⟩ := names_textNames h (PathWord.ofText word).directory
  rw [pathCandidates_eq]
  apply pairwise_sortedBy
  rw [List.map_map]
  refine (hnodup.filter _).map_on ?_
  intro first hfirst second hsecond hsame
  have hdisplay := Text.utf8_injective hsame
  rw [← PathWord.filter_display_candidate host _ (hslash first (List.mem_of_mem_filter hfirst)),
    hdisplay, PathWord.filter_display_candidate host _ (hslash second (List.mem_of_mem_filter hsecond))]

end Host

namespace Completer

/-- The word before the cursor is the longest end of what stands there without a delimiter or operator, and every proposal goes on with it, so that choosing one keeps what stands before the cursor. Proposals end in a blank, except that a path which leads to a directory ends in `/`. They are listed in byte order, and no two are shown alike. -/
theorem complete_extends {completer : Completer} (hcompleter : completer.Arises) {host : Host}
    (hhost : host.tree.IsProper) (before behind : Text) :
    let (start, proposals) := completer.complete host (before ++ behind) before.utf8Size
    ∃ context word, before = context ++ word ∧ start = context.utf8Size ∧
      start ≤ before.utf8Size ∧
      (∀ c ∈ word, breaksWord c = false) ∧
      (start = 0 ∨ ∃ front c, context = front ++ [c] ∧ breaksWord c = true) ∧
      (∀ proposed ∈ proposals,
        word <+: proposed.replacement ∧ before <+: context ++ proposed.replacement ++ behind ∧
          if Cursor.completesCommand { context, word } then
            proposed.replacement = proposed.display ++ [' ']
          else
            ∃ (path : PathWord) (children : List (Name × Entry)) (name : Text),
              path.text = word ∧ host.list? (.ofText path.directory) = some children ∧
                name.utf8 ∈ children.map Prod.fst ∧
                proposed.replacement =
                  path.typed ++ name ++ [if path.leadsToDirectory host name then '/' else ' ']) ∧
      proposals.Pairwise fun first second => first.display.utf8 < second.display.utf8 := by
  rw [complete, Text.takeUtf8_append]
  have hcut := Cursor.context_append_word before
  refine ⟨_, _, hcut.symm, rfl, ?_, fun c => Cursor.not_breaksWord_of_mem_word, ?_, ?_, ?_⟩
  · calc (Cursor.ofText before).context.utf8Size
        ≤ (Cursor.ofText before).context.utf8Size + (Cursor.ofText before).word.utf8Size :=
          Nat.le_add_right _ _
      _ = before.utf8Size := by rw [← Text.utf8Size_append, hcut]
  · rcases List.eq_nil_or_concat (Cursor.ofText before).context with hnil | ⟨front, c, hfront⟩
    · exact .inl (congrArg Text.utf8Size hnil)
    · rw [List.concat_eq_append] at hfront
      have hlast : (Cursor.ofText before).context.getLast? = some c := by simp [hfront]
      exact .inr ⟨front, c, hfront, Cursor.breaksWord_of_getLast?_context hlast⟩
  · intro proposed hproposed
    have hgrows (hword : (Cursor.ofText before).word <+: proposed.replacement) :
        before <+: (Cursor.ofText before).context ++ proposed.replacement ++ behind := by
      have hgrown := (List.prefix_append_right_inj (Cursor.ofText before).context).2 hword
      rw [hcut] at hgrown
      exact hgrown.trans (List.prefix_append _ behind)
    split at hproposed
    · next hcommand =>
      obtain ⟨hword, hend⟩ := prefix_of_mem_commandCandidates hproposed
      exact ⟨hword, hgrows hword, (if_pos hcommand).mpr hend⟩
    · next hpath =>
      obtain ⟨hword, hend⟩ := Host.prefix_of_mem_pathCandidates hproposed
      exact ⟨hword, hgrows hword, (if_neg hpath).mpr hend⟩
  · split
    · exact hcompleter.pairwise_commandCandidates _
    · exact Host.pairwise_pathCandidates hhost _

/-- Names of more than one byte a letter. The link leads to a directory and is proposed as one, and the hidden file is not asked for. -/
theorem complete_extends_path :
    let host : Host :=
      { tree :=
          { top :=
              .tree (Text.utf8 "src".toList) .directory
                (.tree (Text.utf8 "été".toList) .directory .empty <|
                  .tree (Text.utf8 "écran".toList) (.file (.data [])) .empty <|
                  .tree (Text.utf8 "élan".toList) (.link (.path (.ofText "été".toList))) .empty <|
                  .tree (Text.utf8 ".é".toList) (.file (.data [])) .empty .empty)
                .empty } }
    let completer := ((ofSearchPath {} none).sync host (some "src".toList)).2
    let proposals :=
      [{ display := "écran".toList, replacement := "src/écran ".toList },
        { display := "élan/".toList, replacement := "src/élan/".toList },
        { display := "été/".toList, replacement := "src/été/".toList }]
    completer.complete host "ls é|cat src/é x".toList 16 = (10, proposals) ∧
      proposals.Pairwise fun first second => first.display.utf8 < second.display.utf8 := by
  intro host completer proposals
  have hcompleter : completer.Arises := .synced (.made {} none) host (some "src".toList)
  have hhost : host.tree.IsProper := by decide
  have hcomplete : completer.complete host ("ls é|cat src/é".toList ++ " x".toList)
      (Text.utf8Size "ls é|cat src/é".toList) = (10, proposals) := by decide +kernel
  have hextends := complete_extends hcompleter hhost "ls é|cat src/é".toList " x".toList
  rw [hcomplete] at hextends
  obtain ⟨context, word, -, -, -, -, -, -, hsorted⟩ := hextends
  exact ⟨hcomplete, hsorted⟩

end Completer

end CommandShell
