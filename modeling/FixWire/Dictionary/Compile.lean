import FixWire.Dictionary.Declarations

/-!
# Compiling a dictionary

The declared entries are laid out : every group gets the next number once the groups in it have theirs,
component by component, then message by message, then for the header and the trailer.

Then the components whose only entry is a group are spliced out : every entry that points at one points at
the group instead. That may leave another component with a group as its only entry, so it is done once for
every component there is, after which no such component is left in the table : each time either takes one
out or finds that none is left.
-/

namespace FixWire

mutual

/-- The entry for a declared one, with the groups so far and the groups in it. -/
def Declaration.layOut (groups : List Group) : Declaration → List Group × Entry
  | .field required field => (groups, ⟨required, .field field⟩)
  | .group required counter members =>
    let (groups, inner) := FixWire.layOut groups members
    let group : Group := ⟨Group.nameOfCounter counter.name, counter, inner⟩
    (groups ++ [group], ⟨required, .group groups.length⟩)
  | .component required name => (groups, ⟨required, .component name⟩)

/-- The entries for some declared ones, with the groups so far and the groups among them. -/
def layOut (groups : List Group) : List Declaration → List Group × List Entry
  | [] => (groups, [])
  | d :: rest =>
    let (groups, entry) := d.layOut groups
    let (groups, entries) := layOut groups rest
    (groups, entry :: entries)

end

/-- The components for some declared ones, with the groups so far and the groups in them. -/
def layOutComponents (groups : List Group) :
    List DeclaredComponent → List Group × List Component
  | [] => (groups, [])
  | c :: rest =>
    let (groups, entries) := layOut groups c.members
    let (groups, components) := layOutComponents groups rest
    (groups, ⟨c.name, entries⟩ :: components)

/-- The messages for some declared ones, with the groups so far and the groups in them. -/
def layOutMessages (groups : List Group) : List DeclaredMessage → List Group × List Message
  | [] => (groups, [])
  | m :: rest =>
    let (groups, entries) := layOut groups m.members
    let (groups, messages) := layOutMessages groups rest
    (groups, ⟨m.name, m.type, m.category, entries⟩ :: messages)

namespace Dictionary

/-- The dictionary with the declarations as they are. -/
def ofDeclarations (d : Declarations) : Dictionary :=
  let (groups, components) := layOutComponents [] d.components
  let (groups, messages) := layOutMessages groups d.messages
  let (groups, header) := layOut groups d.header
  let (groups, trailer) := layOut groups d.trailer
  { major := d.major, minor := d.minor, fields := d.fields, groups, components, spliced := [],
    messages, header, trailer }

/-! ## Components that hold only a group -/

/-- The group, if the entries are nothing but one. -/
def onlyGroup? : List Entry → Option Nat
  | [⟨_, .group index⟩] => some index
  | _ => none

/-- The group that a component in the table stands for, if its only entry is one. -/
def groupOf? (d : Dictionary) (name : String) : Option Nat :=
  (d.tableComponent? name).bind fun c => onlyGroup? c.entries

/-- The entry, pointing at the group itself if it points at a component that stands for one. -/
def redirect (d : Dictionary) (e : Entry) : Entry :=
  match e.item with
  | .component name =>
    match d.groupOf? name with
    | some index => { e with item := .group index }
    | none => e
  | _ => e

/-- Splices out every component that stands for a group. -/
def splice (d : Dictionary) : Dictionary :=
  let found := d.table.filter fun c => (d.groupOf? c.name).isSome
  { d.mapEntries d.redirect with spliced := d.spliced ++ found.map Component.name }

/-- The dictionary without components that stand for groups. -/
def normalize (d : Dictionary) : Dictionary :=
  d.components.length.repeat splice d

/-- The dictionary that a document describes. -/
def compile (text : String) : Except DocumentError Dictionary := do
  return (ofDeclarations (← Declarations.ofDocument text)).normalize

end Dictionary

end FixWire
