import FixWire.Layout.Basic

/-!
# Layouts of a dictionary

The entries of an aggregate are walked in order. A component is walked in its place, and what is in it is
required only if the component is. A group becomes a member with a layout of its own. Of several members
with one tag the first stays.

In a dictionary where no aggregate is inside itself, a walk goes from one component or group into another
no more often than there are components and groups.
-/

namespace FixWire

/-- The members with one more at the end, unless one of them has its tag. -/
def addMember (members : List Member) (m : Member) : List Member :=
  if owns members m.tag then members else members ++ [m]

namespace Dictionary

/-- The slot of the group with the number. Its repetitions start with the field that its entries lead to, or
else with its counter. -/
def groupSlot? (d : Dictionary) (index : Nat) (required : Bool) : Option GroupSlot :=
  d.groups[index]?.map fun g => ⟨g.name, g.counter, required, ((d.delimiter? index).getD g.counter).number⟩

/-- The members so far, and those that the entries add to them. `depth` bounds how often the walk goes from
one aggregate into another, and `required` tells whether the walk has come through required components
only. -/
def flatten (d : Dictionary) : Nat → Bool → List Member → List Entry → List Member
  | 0, _, members, _ => members
  | depth + 1, required, members, entries =>
    entries.foldl
      (fun members e =>
        let required := required && e.required
        match e.item with
        | .field field => addMember members (.field ⟨field, required⟩)
        | .group index =>
          match d.groupSlot? index required with
          | none => members
          | some slot =>
            addMember members (.group slot (d.flatten depth true [] (d.entriesOf (.group index))))
        | .component name => d.flatten depth required members (d.entriesOf (.component name)))
      members

/-- The number of components and groups, and one for the aggregate where the walk starts. -/
def depth (d : Dictionary) : Nat :=
  d.components.length + d.groups.length + 1

/-- The layout of an aggregate. -/
def layoutOf (d : Dictionary) (h : Holder) : Layout :=
  ⟨d.nameOf h, d.flatten d.depth true [] (d.entriesOf h)⟩

/-- The layouts of the messages. -/
def messageLayouts (d : Dictionary) : List MessageLayout :=
  let header := d.layoutOf .header
  let trailer := d.layoutOf .trailer
  d.messages.mapIdx fun index m =>
    ⟨m.name, m.type, m.category, header, d.layoutOf (.message index), trailer⟩

end Dictionary

end FixWire
