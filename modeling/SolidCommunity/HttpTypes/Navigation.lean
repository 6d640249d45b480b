import SolidCommunity.HttpTypes.Identifier

/-!
# Navigation

Identifiers are made from one another by joining a relative reference, by turning a document into a
container or back, and by going to the parent.  All of these look at the slashes at the end of the
text, and none of them minds how many there are.  A sequence of such steps below an origin therefore
leads to the position that the same steps lead to on lists of segments, although a parent is spelt
with one slash too many.
-/

namespace SolidCommunity.HttpTypes.Identifier

open Foundations.Runs Foundations.Text ServerCore.Containment ServerCore.Pipeline

def asContainer (identifier : ResourceIdentifier) : ResourceIdentifier :=
  if isContainer identifier then identifier else ⟨identifier.path ++ ['/']⟩

def asDocument (identifier : ResourceIdentifier) : ResourceIdentifier :=
  ⟨trimEndMatches identifier.path '/'⟩

/-! ## Positions -/

/-- The segments below an origin, and the slashes that follow the last of them. -/
structure Position where
  segments : List Segment
  slashes : ℕ

/-- The text of segments, each after a slash. -/
def segmentsText (segments : List Segment) : Str := segments.flatMap fun segment ↦ '/' :: segment.val

namespace Origin

variable (origin : Origin)

/-- The text of a position without its closing slashes. -/
def positionText (segments : List Segment) : Str := origin.text ++ segmentsText segments

def identifierAt (position : Position) : ResourceIdentifier :=
  ⟨origin.positionText position.segments ++ List.replicate position.slashes '/'⟩

end Origin

/-- A relative reference: segments between any number of slashes. -/
structure Reference where
  leading : ℕ
  segments : List Segment
  slashes : ℕ

namespace Reference

/-- The segments of a reference without the first slash. -/
def body : List Segment → Str
  | [] => []
  | segment :: segments => segment.val ++ segmentsText segments

def text (reference : Reference) : Str :=
  List.replicate reference.leading '/' ++
    (body reference.segments ++ List.replicate reference.slashes '/')

end Reference

/-- The ways to make an identifier from another one. -/
inductive Move where
  | join (reference : Reference)
  | asContainer
  | asDocument
  | parent

/-- A step on identifiers. -/
def perform (identifier : ResourceIdentifier) : Move → Option ResourceIdentifier
  | .join reference => some (join identifier reference.text)
  | .asContainer => some (asContainer identifier)
  | .asDocument => some (asDocument identifier)
  | .parent => parent identifier

/-- The same step on positions, which does not go above the origin. -/
def go (position : Position) : Move → Option Position
  | .join ⟨_, [], _⟩ => some ⟨position.segments, 1⟩
  | .join ⟨_, segment :: segments, slashes⟩ =>
    some ⟨position.segments ++ segment :: segments, slashes⟩
  | .asContainer => some ⟨position.segments, max position.slashes 1⟩
  | .asDocument => some ⟨position.segments, 0⟩
  | .parent => if position.segments = [] then none else some ⟨position.segments.dropLast, 2⟩

/-! ## Single steps -/

section Steps

variable (origin : Origin) (segments : List Segment)

theorem positionText_concat (name : Segment) :
    origin.positionText (segments ++ [name]) = origin.positionText segments ++ '/' :: name.val := by
  simp [Origin.positionText, segmentsText]

/-- No position ends in a slash of its own. -/
theorem endsWith_positionText : endsWith (origin.positionText segments) '/' = false := by
  rcases List.eq_nil_or_concat segments with rfl | ⟨front, name, rfl⟩
  · have hauthority : endsWith origin.text '/' = false := endsWith_append_segment _ origin.authority
    simpa [Origin.positionText, segmentsText] using hauthority
  · rw [List.concat_eq_append, positionText_concat, List.append_cons]
    exact endsWith_append_segment _ name

/-- Trimming leaves the position without its slashes. -/
theorem trimEndMatches_positionText (slashes : ℕ) :
    trimEndMatches (origin.positionText segments ++ List.replicate slashes '/') '/' =
      origin.positionText segments := by
  induction slashes with
  | zero => simpa using trimEndMatches_eq_self (endsWith_positionText origin segments)
  | succ slashes ih => rw [List.replicate_succ', ← List.append_assoc, trimEndMatches_concat, ih]

theorem isContainer_identifierAt (position : Position) :
    isContainer (origin.identifierAt position) = decide (0 < position.slashes) := by
  obtain ⟨segments, slashes⟩ := position
  cases slashes with
  | zero => simpa [isContainer, Origin.identifierAt] using endsWith_positionText origin segments
  | succ slashes =>
    rw [isContainer, Origin.identifierAt, List.replicate_succ', ← List.append_assoc,
      endsWith_concat]
    simp

theorem asContainer_identifierAt (slashes : ℕ) :
    asContainer (origin.identifierAt ⟨segments, slashes⟩) =
      origin.identifierAt ⟨segments, max slashes 1⟩ := by
  rw [asContainer, isContainer_identifierAt]
  cases slashes with
  | zero => simp [Origin.identifierAt]
  | succ slashes => simp

theorem asDocument_identifierAt (slashes : ℕ) :
    asDocument (origin.identifierAt ⟨segments, slashes⟩) = origin.identifierAt ⟨segments, 0⟩ := by
  rw [asDocument, Origin.identifierAt, trimEndMatches_positionText, Origin.identifierAt,
    List.replicate_zero, List.append_nil]

/-- Trimming a reference leaves its segments and its closing slashes, if it has segments. -/
theorem trimStartMatches_text (reference : Reference) :
    trimStartMatches reference.text '/' =
      if reference.segments = [] then []
      else Reference.body reference.segments ++ List.replicate reference.slashes '/' := by
  obtain ⟨leading, segments, slashes⟩ := reference
  have hleading (rest : Str) :
      trimStartMatches (List.replicate leading '/' ++ rest) '/' = trimStartMatches rest '/' := by
    induction leading with
    | zero => rfl
    | succ leading ih =>
      rw [List.replicate_succ, List.cons_append]
      exact ih
  rw [Reference.text, hleading]
  cases segments with
  | nil =>
    rw [if_pos rfl, Reference.body, List.nil_append]
    simp [trimStartMatches]
  | cons segment segments =>
    rw [if_neg (List.cons_ne_nil _ _)]
    obtain ⟨name, hne, hfree⟩ := segment
    cases name with
    | nil => exact absurd rfl hne
    | cons first name =>
      have hfirst : first ≠ '/' := fun h ↦ hfree (h ▸ List.mem_cons_self)
      simp [Reference.body, trimStartMatches, hfirst]

theorem join_identifierAt (position : Position) (reference : Reference) :
    some (join (origin.identifierAt position) reference.text) =
      (go position (.join reference)).map origin.identifierAt := by
  obtain ⟨leading, added, slashes⟩ := reference
  have hbase : trimEndMatches (origin.identifierAt position).path '/' =
      origin.positionText position.segments := trimEndMatches_positionText origin _ _
  rw [join, hbase, trimStartMatches_text]
  cases added with
  | nil => rfl
  | cons segment added =>
    rw [if_neg (List.cons_ne_nil _ _)]
    simp [go, Origin.identifierAt, Origin.positionText, segmentsText, Reference.body]

/-- The parent of a position is the one above it, with two slashes. -/
theorem parent_identifierAt (name : Segment) (slashes : ℕ) :
    parent (origin.identifierAt ⟨segments ++ [name], slashes⟩) =
      some (origin.identifierAt ⟨segments, 2⟩) := by
  have htrimmed :
      trimEndMatches (origin.identifierAt ⟨segments ++ [name], slashes⟩).path '/' =
        origin.positionText segments ++ '/' :: name.val := by
    rw [Origin.identifierAt, trimEndMatches_positionText, positionText_concat]
  exact parent_of_trimEndMatches htrimmed name.property.2

/-- One step on identifiers is one step on positions. -/
theorem perform_identifierAt {position next : Position} {move : Move}
    (h : go position move = some next) :
    perform (origin.identifierAt position) move = some (origin.identifierAt next) := by
  cases move with
  | join reference =>
    rw [perform, join_identifierAt, h, Option.map_some]
  | asContainer =>
    obtain rfl := Option.some_inj.mp h
    exact congrArg some (asContainer_identifierAt origin _ _)
  | asDocument =>
    obtain rfl := Option.some_inj.mp h
    exact congrArg some (asDocument_identifierAt origin _ _)
  | parent =>
    obtain ⟨hne, hnext⟩ := Option.ite_none_left_eq_some.mp h
    obtain rfl := Option.some_inj.mp hnext
    obtain ⟨segments, slashes⟩ := position
    rcases List.eq_nil_or_concat segments with rfl | ⟨front, name, rfl⟩
    · exact absurd rfl hne
    · rw [perform, List.concat_eq_append, List.dropLast_concat]
      exact parent_identifierAt origin front name slashes

end Steps

/-! ## Sequences of steps -/

section Sequences

variable (origin : Origin) {start final : Position} {moves : List Move}

/-- Every sequence of steps that stays below the origin leads to the text of the position that it
leads to, and this text is one of a container exactly when the position has a closing slash. -/
theorem run_perform_identifierAt (hrun : run go start moves = some final) :
    run perform (origin.identifierAt start) moves = some (origin.identifierAt final) ∧
      isContainer (origin.identifierAt final) = decide (0 < final.slashes) := by
  refine ⟨?_, isContainer_identifierAt origin final⟩
  induction moves generalizing start with
  | nil =>
    obtain rfl : start = final := by simpa using hrun
    rfl
  | cons move moves ih =>
    obtain ⟨next, hstep, hrest⟩ := (run_cons_eq_some go).mp hrun
    rw [run_cons_eq_some]
    exact ⟨_, perform_identifierAt origin hstep, ih hrest⟩

/-- Up from a document, into a sibling container by a reference with slashes around it, and back to
a document. -/
theorem run_perform_identifierAt_sibling :
    let moves : List Move :=
      [.parent, .join ⟨1, [⟨['c'], by decide⟩, ⟨['d'], by decide⟩], 2⟩, .asContainer, .asDocument]
    run perform ⟨"http://test.com/a/b".toList⟩ moves = some ⟨"http://test.com/a/c/d".toList⟩ := by
  intro moves
  have hrun : run go ⟨[⟨['a'], by decide⟩, ⟨['b'], by decide⟩], 0⟩ moves =
      some ⟨[⟨['a'], by decide⟩, ⟨['c'], by decide⟩, ⟨['d'], by decide⟩], 0⟩ := rfl
  exact (run_perform_identifierAt
    ⟨⟨"http".toList, by decide⟩, ⟨"test.com".toList, by decide⟩⟩ hrun).1

end Sequences

end SolidCommunity.HttpTypes.Identifier
