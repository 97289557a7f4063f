import CommandShell.Text.Grapheme.Class

/-!
# Grapheme clusters

A text is a sequence of clusters, each of which a reader takes for one character. Whether a character belongs to the cluster before it depends on the two classes and on three things about the text before it: whether a flag lacks its second half, whether an emoji is about to be joined to another, and whether a consonant has been linked. They are kept as a context while the text is read from the left.
-/

namespace CommandShell

/-- How far a cluster of linked consonants has come. -/
inductive Conjunct where
  | absent
  | started
  | linked
  deriving DecidableEq, Repr

/-- What matters of the text before a character. -/
structure GraphemeContext where
  last : Option GraphemeClass := none
  isFlagOpen : Bool := false
  endsInEmoji : Bool := false
  endsInJoinedEmoji : Bool := false
  conjunct : Conjunct := .absent
  deriving DecidableEq, Repr

namespace GraphemeContext

/-- The conjunct behind a character. A mark that links nothing leaves it as it is, unless it is the mark that keeps letters apart. -/
def conjunctAfter (conjunct : Conjunct) (c : Char) : Conjunct :=
  match GraphemeClass.ofChar c with
  | .consonant => .started
  | .joiner => conjunct
  | .extending =>
    if c = '\u200C' then .absent
    else if GraphemeClass.isLinker c && conjunct != .absent then .linked
    else conjunct
  | _ => .absent

/-- The context behind a character. -/
def push (context : GraphemeContext) (c : Char) : GraphemeContext :=
  let next := GraphemeClass.ofChar c
  { last := some next
    isFlagOpen := next == .regional && !context.isFlagOpen
    endsInEmoji := next == .pictograph || (next == .extending && context.endsInEmoji)
    endsInJoinedEmoji := next == .joiner && context.endsInEmoji
    conjunct := conjunctAfter context.conjunct c }

/-- The character belongs to the cluster before it. -/
def joins (context : GraphemeContext) (c : Char) : Bool :=
  match context.last with
  | none => false
  | some last =>
    let next := GraphemeClass.ofChar c
    if last.isSolitary || next.isSolitary then
      last == .carriageReturn && next == .lineFeed
    else
      GraphemeClass.joinsHangul last next || next.attaches || last == .preceding ||
        (next == .consonant && context.conjunct == .linked) ||
        (next == .pictograph && context.endsInJoinedEmoji) ||
        (next == .regional && context.isFlagOpen)

end GraphemeContext

namespace Text

/-- The clusters of a text, given what stands before it. -/
def clustersFrom (context : GraphemeContext) : Text → List Text
  | [] => []
  | c :: rest =>
    let next := context.push c
    match clustersFrom next rest with
    | [] => [[c]]
    | first :: others =>
      if (rest.head?.map next.joins).getD false then (c :: first) :: others
      else [c] :: first :: others

def clusters (t : Text) : List Text :=
  clustersFrom {} t

theorem flatten_clustersFrom (context : GraphemeContext) (t : Text) :
    (clustersFrom context t).flatten = t := by
  induction t generalizing context with
  | nil => rfl
  | cons c rest ih =>
    have h := ih (context.push c)
    rw [clustersFrom]
    split
    · simp_all
    · split <;> simp_all

theorem flatten_clusters (t : Text) : (clusters t).flatten = t :=
  flatten_clustersFrom {} t

end Text

end CommandShell
