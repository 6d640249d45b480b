import SolidCommunity.ServerCore.Containment
import SolidCommunity.ServerCore.Pipeline

/-!
# Resource Identifiers

An identifier is a URL text, and its parent is cut from this text.  The cut keeps the last slash and
then appends another one, so below an origin it never gives the container that it is to give, and
the root of an origin gets a parent made of the slashes of its scheme.  Walking up still ends from
every text: what is left of it after trimming loses a slash with each parent.
-/

namespace SolidCommunity.HttpTypes.Identifier

open Foundations.Runs Foundations.Text ServerCore.Containment ServerCore.Pipeline

def isContainer (identifier : ResourceIdentifier) : Bool := endsWith identifier.path '/'

/-- `parent`: the text up to and including its last slash, and one more slash. -/
def parent (identifier : ResourceIdentifier) : Option ResourceIdentifier :=
  let trimmed := trimEndMatches identifier.path '/'
  (rfind trimmed '/').map fun pos ↦ ⟨trimmed.take (pos + 1) ++ ['/']⟩

def join (identifier : ResourceIdentifier) (segment : Str) : ResourceIdentifier :=
  let base := trimEndMatches identifier.path '/'
  let seg := trimStartMatches segment '/'
  ⟨base ++ '/' :: seg⟩

/-- A scheme and an authority, both nonempty and free of slashes. -/
structure Origin where
  scheme : Segment
  authority : Segment

namespace Origin

variable (origin : Origin)

def text : Str := origin.scheme.val ++ [':', '/', '/'] ++ origin.authority.val

/-- The identifier of a resource name. -/
def identifier (name : ResourceName) : ResourceIdentifier := ⟨origin.text ++ name.key⟩

/-- The identifier of the container that the segments lead to. -/
def container (segments : List Segment) : ResourceIdentifier :=
  ⟨origin.text ++ containerKey segments⟩

/-- The container that a resource name is in. -/
def parentContainer : ResourceName → Option ResourceIdentifier
  | .root => none
  | .child parents _ _ => some (origin.container parents)

theorem identifier_root : origin.identifier .root = origin.container [] := rfl

theorem identifier_closed (parents : List Segment) (name : Segment) :
    origin.identifier (.child parents name true) = origin.container (parents ++ [name]) := by
  rw [identifier, container, containerKey_concat, ResourceName.key, if_pos rfl]

end Origin

/-- The parent of a text whose last slash is known. -/
theorem parent_of_trimEndMatches {identifier : ResourceIdentifier} {front last : Str}
    (htrimmed : trimEndMatches identifier.path '/' = front ++ '/' :: last) (hlast : '/' ∉ last) :
    parent identifier = some ⟨front ++ ['/', '/']⟩ := by
  have htake : (front ++ '/' :: last).take (front.length + 1) = front ++ ['/'] := by
    rw [List.take_length_add_append]
    rfl
  simp only [parent, htrimmed, rfind_append_cons hlast, Option.map_some, htake, List.append_assoc]
  rfl

section Parents

variable (origin : Origin) (parents : List Segment) (name : Segment)

theorem trimEndMatches_text : trimEndMatches origin.text '/' = origin.text :=
  trimEndMatches_eq_self (endsWith_append_segment _ origin.authority)

/-- The parent of a root is what is left of the scheme, with another slash. -/
theorem parent_root :
    parent (origin.identifier .root) = some ⟨origin.scheme.val ++ [':', '/', '/', '/']⟩ := by
  have htrimmed : trimEndMatches (origin.identifier .root).path '/' =
      (origin.scheme.val ++ [':', '/']) ++ '/' :: origin.authority.val := by
    calc trimEndMatches (origin.identifier .root).path '/'
        = trimEndMatches origin.text '/' := trimEndMatches_concat origin.text '/'
      _ = origin.text := trimEndMatches_text origin
      _ = (origin.scheme.val ++ [':', '/']) ++ '/' :: origin.authority.val := by
        simp [Origin.text]
  rw [parent_of_trimEndMatches htrimmed origin.authority.property.2, List.append_assoc]
  rfl

/-- A container text has one closing slash. -/
theorem exists_container_path :
    ∃ front, (origin.container parents).path = front ++ ['/'] ∧ endsWith front '/' = false := by
  rcases List.eq_nil_or_concat parents with rfl | ⟨parents, name, rfl⟩
  · exact ⟨origin.text, rfl, endsWith_append_segment _ origin.authority⟩
  · refine ⟨origin.text ++ containerKey parents ++ name.val, ?_, endsWith_append_segment _ name⟩
    rw [Origin.container, List.concat_eq_append, containerKey_concat]
    simp only [List.append_assoc]

/-- Below an origin, the parent is the right container with another slash. -/
theorem parent_child (closed : Bool) :
    parent (origin.identifier (.child parents name closed)) =
      some ⟨(origin.container parents).path ++ ['/']⟩ := by
  obtain ⟨front, hfront, -⟩ := exists_container_path origin parents
  have hne : trimEndMatches (ResourceName.child parents name closed).key '/' ≠ [] := by
    rw [trimEndMatches_child]
    exact List.append_ne_nil_of_right_ne_nil _ name.property.1
  have htrimmed : trimEndMatches (origin.identifier (.child parents name closed)).path '/' =
      front ++ '/' :: name.val := by
    calc trimEndMatches (origin.identifier (.child parents name closed)).path '/'
        = origin.text ++ (containerKey parents ++ name.val) := by
          rw [Origin.identifier, trimEndMatches_append hne, trimEndMatches_child]
      _ = (origin.container parents).path ++ name.val := (List.append_assoc _ _ _).symm
      _ = front ++ '/' :: name.val := by rw [hfront, List.append_assoc, List.singleton_append]
  rw [parent_of_trimEndMatches htrimmed name.property.2, hfront, List.append_assoc]
  rfl

/-- Joining a segment to a container names the resource below it. -/
theorem join_container :
    join (origin.container parents) name.val = origin.identifier (.child parents name false) := by
  obtain ⟨front, hfront, hend⟩ := exists_container_path origin parents
  have hbase : trimEndMatches (origin.container parents).path '/' = front := by
    rw [hfront, trimEndMatches_concat, trimEndMatches_eq_self hend]
  calc join (origin.container parents) name.val
      = ⟨front ++ '/' :: name.val⟩ := by
        rw [join, hbase, trimStartMatches_eq_self name.property.2]
    _ = ⟨(origin.container parents).path ++ name.val⟩ := by
        rw [hfront, List.append_assoc, List.singleton_append]
    _ = origin.identifier (.child parents name false) := by
        simp [Origin.container, Origin.identifier, ResourceName.key]

/-- The parent of what is below a container is another identifier. -/
theorem parent_child_ne (closed : Bool) :
    parent (origin.identifier (.child parents name closed)) ≠ some (origin.container parents) := by
  rw [parent_child]
  intro h
  have hpath := congrArg ResourceIdentifier.path (Option.some_inj.mp h)
  exact absurd (congrArg List.length hpath) (by simp)

/-- For no identifier below an origin is the parent the container it is in, and no container is the
parent of what is joined to it. -/
theorem parent_ne_parentContainer (resource : ResourceName) :
    parent (origin.identifier resource) ≠ origin.parentContainer resource ∧
      parent (join (origin.container parents) name.val) ≠ some (origin.container parents) := by
  constructor
  · cases resource with
    | root =>
      rw [parent_root]
      exact Option.some_ne_none _
    | child parents name closed => exact parent_child_ne origin parents name closed
  · rw [join_container]
    exact parent_child_ne origin parents name false

/-- The identifiers of the tests. -/
theorem parent_ne_parentContainer_abc :
    let origin : Origin := ⟨⟨"http".toList, by decide⟩, ⟨"test.com".toList, by decide⟩⟩
    let resource : ResourceName :=
      .child [⟨['a'], by decide⟩, ⟨['b'], by decide⟩] ⟨['c'], by decide⟩ false
    origin.identifier resource = ⟨"http://test.com/a/b/c".toList⟩ ∧
      parent (origin.identifier resource) = some ⟨"http://test.com/a/b//".toList⟩ ∧
      parent (origin.identifier resource) ≠ origin.parentContainer resource ∧
      parent (origin.identifier .root) ≠ origin.parentContainer .root := by
  decide

end Parents

/-! ## Walking up -/

section WalkingUp

variable {identifier above : ResourceIdentifier}

/-- What a parent is: the trimmed text up to its last slash, and one more slash. -/
theorem parent_eq_some_iff :
    parent identifier = some above ↔
      ∃ front last, trimEndMatches identifier.path '/' = front ++ '/' :: last ∧ '/' ∉ last ∧
        above = ⟨front ++ ['/', '/']⟩ := by
  constructor
  · intro hparent
    by_cases hslash : '/' ∈ trimEndMatches identifier.path '/'
    · obtain ⟨front, last, htrimmed, hlast⟩ := exists_last_of_mem hslash
      rw [parent_of_trimEndMatches htrimmed hlast] at hparent
      exact ⟨front, last, htrimmed, hlast, (Option.some_inj.mp hparent).symm⟩
    · have hnone : parent identifier = none := by
        rw [parent, rfind_eq_none_iff.mpr hslash, Option.map_none]
      exact absurd (hnone.symm.trans hparent) (Option.some_ne_none above).symm
  · rintro ⟨front, last, htrimmed, hlast, rfl⟩
    exact parent_of_trimEndMatches htrimmed hlast

/-- The slashes that are left after trimming. -/
def slashesLeft (identifier : ResourceIdentifier) : ℕ :=
  (trimEndMatches identifier.path '/').count '/'

theorem slashesLeft_le (identifier : ResourceIdentifier) :
    slashesLeft identifier ≤ identifier.path.count '/' :=
  (isPrefix_trimEndMatches identifier.path '/').sublist.count_le '/'

/-- The last slash that is left does not survive the trimming of the parent. -/
theorem slashesLeft_parent_lt (h : parent identifier = some above) :
    slashesLeft above < slashesLeft identifier := by
  obtain ⟨front, last, htrimmed, -, rfl⟩ := parent_eq_some_iff.mp h
  calc slashesLeft ⟨front ++ ['/', '/']⟩
      = (trimEndMatches front '/').count '/' := by
        rw [slashesLeft, ← List.singleton_append, ← List.append_assoc, trimEndMatches_concat,
          trimEndMatches_concat]
    _ ≤ front.count '/' := (isPrefix_trimEndMatches front '/').sublist.count_le '/'
    _ < (front ++ '/' :: last).count '/' := by
        rw [List.count_append, List.count_cons_self]
        omega
    _ = slashesLeft identifier := by rw [slashesLeft, htrimmed]

theorem isContainer_parent (h : parent identifier = some above) : isContainer above = true := by
  obtain ⟨front, last, -, -, rfl⟩ := parent_eq_some_iff.mp h
  exact endsWith_append (List.cons_ne_nil '/' ['/']) '/'

/-- From every text, walking up comes to an identifier without a parent in at most as many steps as
the text has slashes, and meets containers only. -/
theorem walkingUp_ends (identifier : ResourceIdentifier) :
    (∃ steps ≤ identifier.path.count '/', ∃ last,
        walk parent steps identifier = some last ∧ parent last = none) ∧
      ∀ steps ancestor, walk parent (steps + 1) identifier = some ancestor →
        isContainer ancestor = true := by
  constructor
  · obtain ⟨steps, hsteps, hend⟩ :=
      exists_walk_end parent (fun _ _ hparent ↦ slashesLeft_parent_lt hparent) identifier
    exact ⟨steps, hsteps.trans (slashesLeft_le identifier), hend⟩
  · intro steps ancestor hwalk
    exact property_of_walk parent (fun _ _ hparent ↦ isContainer_parent hparent) hwalk

end WalkingUp

end SolidCommunity.HttpTypes.Identifier
