import FixWire.Proofs.Encoder.Operations
import FixWire.Proofs.RoundTrip.Messages

/-!
# Refused operations

An operation on an encoder is refused for one of few reasons (`Action.Refused`, `Operation.Refused`) : no field or no
group has the tag, the field is of another kind, the instant is in no year from 0 to 9999, or there is not enough
room. Each is found before anything is stored or written. So an operation that is refused leaves the encoder and all
bytes of the buffer as they were, and whatever is done afterwards is as if it had not been tried (`perform_refused`).
-/

namespace FixWire

/-- The year of an instant. -/
def Timestamp.yearOf (millis : Int) : Int :=
  (Calendar.ofDays (millis / dayMillis + Calendar.epoch)).year

/-- A timestamp has no text if its year has not four digits. -/
theorem Timestamp.text?_eq_none_iff (millis : Int) :
    text? millis = none ↔ yearOf millis < 0 ∨ 9999 < yearOf millis := by
  unfold text?
  dsimp only
  rw [← yearOf]
  split_ifs with h
  · exact ⟨nofun, by omega⟩
  · exact ⟨fun _ => by omega, fun _ => rfl⟩

namespace Encoder

open Work

/-! ## Why an operation is refused -/

/-- The tag of the field that a change sets, and the kind of the values that it sets it to. Bytes are of any kind. -/
def Change.target? : Change → Option (Tag × Option ValueKind)
  | .int tag _ => some (tag, some .int)
  | .decimal tag _ => some (tag, some .decimal)
  | .char tag _ => some (tag, some .char)
  | .bool tag _ => some (tag, some .bool)
  | .text tag _ => some (tag, some .string)
  | .timestamp tag _ => some (tag, some .timestamp)
  | .bytes tag _ => some (tag, none)
  | _ => none

/-- The tag of the counter of the group that an operation is for. -/
def Action.counter? : Action → Option Tag
  | .change (.nextEntry tag) | .change (.clearGroup tag) | .group tag => some tag
  | _ => none

/-- No cell with the tag is that of a field : the tag is unknown, or it is that of the counter of a group. -/
def NoField (cells : List Cell) (tag : Tag) : Prop :=
  ∀ slot value, find? cells tag ≠ some (.field slot value)

/-- No cell with the tag is that of a group. -/
def NoGroup (cells : List Cell) (tag : Tag) : Prop :=
  ∀ g : GroupCell, find? cells tag ≠ some g.toCell

/-- Why an operation on an aggregate is refused. -/
inductive Action.Refused (cells : List Cell) (buffer : Bytes) : Action → FieldError → Prop
  | noField {change : Change} {tag : Tag} {kind : Option ValueKind} (ht : change.target? = some (tag, kind))
    (h : NoField cells tag) : Refused cells buffer (.change change) (.unknownField tag)
  | otherKind {change : Change} {slot : FieldSlot} {value : Option Bytes} {tag : Tag} {kind : ValueKind}
    (ht : change.target? = some (tag, some kind)) (h : find? cells tag = some (.field slot value))
    (hkind : slot.kind ≠ kind) :
    Refused cells buffer (.change change) (.typeMismatch tag kind.name slot.kind.name)
  | noYear {slot : FieldSlot} {value : Option Bytes} {tag : Tag} {millis : Int}
    (h : find? cells tag = some (.field slot value)) (hkind : slot.kind = .timestamp)
    (hyear : Timestamp.yearOf millis < 0 ∨ 9999 < Timestamp.yearOf millis) :
    Refused cells buffer (.change (.timestamp tag millis)) (.invalidValue Timestamp.kind 0)
  | noGroup {action : Action} {tag : Tag} (ht : action.counter? = some tag) (h : NoGroup cells tag) :
    Refused cells buffer action (.unknownField tag)
  | noRoom {offset : Nat} (h : buffer.length - offset < writtenLength cells) :
    Refused cells buffer (.encode offset) (.bufferTooShort (writtenLength cells) (buffer.length - offset))

/-- Why an operation on an aggregate or on an entry inside is refused. -/
inductive RefusedIn (buffer : Bytes) : List Cell → List (Tag × Nat) → Action → FieldError → Prop
  | here {cells : List Cell} {action : Action} {cause : FieldError} (h : action.Refused cells buffer cause) :
    RefusedIn buffer cells [] action cause
  | noGroup {cells : List Cell} {tag : Tag} {index : Nat} {path : List (Tag × Nat)} {action : Action}
    (h : NoGroup cells tag) : RefusedIn buffer cells ((tag, index) :: path) action (.unknownField tag)
  | inside {cells entry : List Cell} {g : GroupCell} {tag : Tag} {index : Nat} {path : List (Tag × Nat)}
    {action : Action} {cause : FieldError} (h : find? cells tag = some g.toCell) (hentry : g.live[index]? = some entry)
    (hinside : RefusedIn buffer entry path action cause) : RefusedIn buffer cells ((tag, index) :: path) action cause

variable {cells : List Cell} {tag : Tag} {cause : FieldError}

/-- When a field is refused, and why. -/
theorem field_eq_error_iff : field cells tag = .error cause ↔ NoField cells tag ∧ cause = .unknownField tag := by
  unfold field NoField
  split
  · rename_i slot value hf
    exact ⟨nofun, fun h => absurd hf (h.1 slot value)⟩
  · rename_i hf
    exact ⟨fun h => ⟨hf, (Except.error.inj h).symm⟩, fun h => congrArg _ h.2.symm⟩

/-- When a group is refused, and why. -/
theorem group_eq_error_iff : group cells tag = .error cause ↔ NoGroup cells tag ∧ cause = .unknownField tag := by
  unfold group NoGroup
  split
  · rename_i slot body live spare hf
    exact ⟨nofun, fun h => absurd hf (h.1 ⟨slot, body, live, spare⟩)⟩
  · rename_i hf
    exact ⟨fun h => ⟨fun g => hf g.slot g.body g.live g.spare, (Except.error.inj h).symm⟩, fun h => congrArg _ h.2.symm⟩

theorem field_of_find? {slot : FieldSlot} {value : Option Bytes} (h : find? cells tag = some (.field slot value)) :
    field cells tag = .ok slot := by
  rw [field, h]

theorem group_of_find? {g : GroupCell} (h : find? cells tag = some g.toCell) : group cells tag = .ok g := by
  rw [group, h]
  rfl

/-- The kind of a field is checked once the field is found. -/
theorem typed_of_field {slot : FieldSlot} (h : field cells tag = .ok slot) (kind : ValueKind) :
    typed cells tag kind =
      if slot.kind = kind then .ok slot else .error (.typeMismatch tag kind.name slot.kind.name) := by
  unfold typed
  rw [h]
  by_cases hkind : slot.kind = kind
  · rw [if_pos hkind]
    exact if_neg (not_not.2 hkind)
  · rw [if_neg hkind]
    exact if_pos hkind

/-- A change of a group is refused if the aggregate has no such group. -/
theorem Action.refused_of_group {action : Action} (buffer : Bytes) (ht : action.counter? = some tag)
    (h : FixWire.Encoder.group cells tag = .error cause) : action.Refused cells buffer cause := by
  obtain ⟨hno, rfl⟩ := group_eq_error_iff.1 h
  exact .noGroup ht hno

/-! ## Refused changes -/

namespace Change

variable {change : Change} {kind : ValueKind}

/-- A change is refused if the field is of another kind. -/
theorem apply_of_typed (ht : change.target? = some (tag, some kind)) (h : typed cells tag kind = .error cause) :
    change.apply cells = .error cause := by
  cases change <;> cases ht <;> exact bind_of_error h _

/-- A change is refused if there is no such field. -/
theorem apply_of_field {kind : Option ValueKind} (ht : change.target? = some (tag, kind))
    (h : field cells tag = .error cause) : change.apply cells = .error cause := by
  cases kind with
  | some kind => exact apply_of_typed ht (bind_of_error h _)
  | none =>
    cases change <;> cases ht
    exact bind_of_error h _

/-- A change is refused if there is no such group. -/
theorem apply_of_group (ht : (Action.change change).counter? = some tag) (h : group cells tag = .error cause) :
    change.apply cells = .error cause := by
  cases change <;> cases ht <;> exact bind_of_error h _

/-- A timestamp is refused if its year has not four digits. -/
theorem apply_timestamp {slot : FieldSlot} {millis : Int} (h : typed cells tag .timestamp = .ok slot)
    (hyear : Timestamp.text? millis = none) :
    (timestamp tag millis).apply cells = .error (.invalidValue Timestamp.kind 0) := by
  rw [apply, setTimestamp, h, hyear]
  rfl

variable (buffer : Bytes)

/-- A field that is not there is a reason to refuse an action. -/
theorem refused_of_field {kind : Option ValueKind} (ht : change.target? = some (tag, kind))
    (h : field cells tag = .error cause) : Action.Refused cells buffer (.change change) cause := by
  obtain ⟨hno, rfl⟩ := field_eq_error_iff.1 h
  exact .noField ht hno

/-- A field of another kind is a reason to refuse an action. -/
theorem refused_of_typed (ht : change.target? = some (tag, some kind)) (h : typed cells tag kind = .error cause) :
    Action.Refused cells buffer (.change change) cause := by
  cases hf : field cells tag with
  | error cause' =>
    rw [typed, hf] at h
    cases h
    exact refused_of_field buffer ht hf
  | ok slot =>
    obtain ⟨value, hfind⟩ := find?_of_field hf
    rw [typed_of_field hf] at h
    split_ifs at h with hkind
    cases h
    exact .otherKind ht hfind hkind

/-- There are no other reasons for which a change is refused. -/
theorem refused_of_apply (h : change.apply cells = .error cause) :
    Action.Refused cells buffer (.change change) cause := by
  have hset {tag : Tag} {kind : ValueKind} {value : Bytes} (ht : change.target? = some (tag, some kind))
      (h : setTyped cells tag kind value = .error cause) : Action.Refused cells buffer (.change change) cause := by
    rcases error_of_bind h with h | ⟨slot, -, h⟩
    · exact refused_of_typed buffer ht h
    · cases h
  cases change with
  | int tag n => exact hset rfl h
  | decimal tag d => exact hset rfl h
  | char tag b => exact hset rfl h
  | bool tag b => exact hset rfl h
  | text tag content => exact hset rfl h
  | timestamp tag millis =>
    rcases error_of_bind h with h | ⟨slot, hslot, h⟩
    · exact refused_of_typed buffer rfl h
    · obtain ⟨value, hfind⟩ := find?_of_field (field_of_typed hslot)
      rw [typed_of_field (field_of_typed hslot)] at hslot
      split_ifs at hslot with hkind
      cases htext : Timestamp.text? millis with
      | some text =>
        rw [htext] at h
        cases h
      | none =>
        rw [htext] at h
        cases h
        exact .noYear hfind hkind ((Timestamp.text?_eq_none_iff millis).1 htext)
  | bytes tag value =>
    rcases error_of_bind h with h | ⟨slot, -, h⟩
    · exact refused_of_field buffer rfl h
    · cases h
  | nextEntry tag =>
    rcases error_of_bind h with h | ⟨g, -, h⟩
    · exact Action.refused_of_group buffer rfl h
    · cases h
  | clearGroup tag =>
    rcases error_of_bind h with h | ⟨g, -, h⟩
    · exact Action.refused_of_group buffer rfl h
    · cases h
  | clear => cases h

end Change

/-! ## What a refused operation does -/

/-- The operation is refused for certain reasons only, and does nothing then. -/
structure Work.RefusedFor {σ α : Type} (w : Work σ α) (why : σ → Bytes → FieldError → Prop) : Prop where
  reason {s : σ} {buffer : Bytes} {cause : FieldError} : (w.run (s, buffer)).1 = .error cause → why s buffer cause
  nothing {s : σ} {buffer : Bytes} {cause : FieldError} :
    why s buffer cause → w.run (s, buffer) = (.error cause, (s, buffer))

namespace Work.RefusedFor

variable {σ α : Type} {w : Work σ α} {why : σ → Bytes → FieldError → Prop} {s : σ} {buffer : Bytes}

/-- Work is refused just when there is a reason. -/
theorem iff (hw : w.RefusedFor why) : (w.run (s, buffer)).1 = .error cause ↔ why s buffer cause :=
  ⟨hw.reason, fun h => by rw [hw.nothing h]⟩

/-- Refused work changes nothing. -/
theorem unchanged (hw : w.RefusedFor why) (s : σ × Bytes) (h : (w.run s).1 = .error cause) : (w.run s).2 = s := by
  rw [hw.nothing (hw.reason h)]

end Work.RefusedFor

namespace Action

variable {action : Action} {buffer : Bytes}

/-- An action that is refused is so for a reason. -/
theorem refused_of_run (h : (action.perform.run (cells, buffer)).1 = .error cause) :
    action.Refused cells buffer cause := by
  cases action with
  | change change =>
    rw [perform, run_bind] at h
    cases hc : change.apply cells with
    | ok cells' =>
      rw [change.does_perform.changed buffer hc] at h
      cases h
    | error cause' =>
      rw [change.does_perform.refused buffer hc] at h
      cases h
      exact change.refused_of_apply buffer hc
  | group tag =>
    rw [perform, run_bind, run_look] at h
    cases hg : FixWire.Encoder.group cells tag with
    | ok g =>
      rw [hg] at h
      cases h
    | error cause' =>
      rw [hg] at h
      cases h
      exact refused_of_group buffer rfl hg
  | encode offset =>
    rw [run_encode] at h
    by_cases hroom : (written cells).length ≤ buffer.length - offset
    · rw [encode_of_room hroom] at h
      cases h
    · rw [encode_of_no_room (Nat.lt_of_not_le hroom), length_written] at h
      cases h
      exact .noRoom (length_written cells ▸ Nat.lt_of_not_le hroom)
  | has tag => cases h
  | text => cases h
  | length => cases h
  | target buffer' => cases h

/-- An action is refused if there is a reason, and then it changes nothing. -/
theorem Refused.run (h : action.Refused cells buffer cause) :
    action.perform.run (cells, buffer) = (.error cause, (cells, buffer)) := by
  have hchange {change : Change} (h : change.apply cells = .error cause) :
      (Action.change change).perform.run (cells, buffer) = (.error cause, (cells, buffer)) := by
    rw [perform, run_bind, change.does_perform.refused buffer h]
  cases h with
  | noField ht h => exact hchange (Change.apply_of_field ht (field_eq_error_iff.2 ⟨h, rfl⟩))
  | otherKind ht h hkind =>
    refine hchange (Change.apply_of_typed ht ?_)
    rw [typed_of_field (field_of_find? h), if_neg hkind]
  | @noYear slot value tag millis h hkind hyear =>
    have htyped : typed cells tag .timestamp = .ok slot := by
      rw [typed_of_field (field_of_find? h), if_pos hkind]
    exact hchange (Change.apply_timestamp htyped ((Timestamp.text?_eq_none_iff millis).2 hyear))
  | @noGroup action tag ht h =>
    have hg := group_eq_error_iff.2 ⟨h, rfl⟩
    cases action with
    | change change => exact hchange (Change.apply_of_group ht hg)
    | group tag' =>
      cases ht
      rw [perform, run_bind, run_look, hg]
    | _ => cases ht
  | noRoom h =>
    rw [← length_written] at h ⊢
    rw [run_encode, encode_of_no_room h]
    rfl

/-- The reasons of an action are those of its being refused. -/
theorem refusedFor (action : Action) : action.perform.RefusedFor fun cells buffer => action.Refused cells buffer :=
  ⟨refused_of_run, Refused.run⟩

end Action

/-- A path is refused, or the operation on the entry that it leads to. -/
theorem refusedIn_iff {buffer : Bytes} {action : Action} {path : List (Tag × Nat)} :
    RefusedIn buffer cells path action cause ↔ at? cells path = .error cause ∨
      ∃ entry, at? cells path = .ok (some entry) ∧ action.Refused entry buffer cause := by
  induction path generalizing cells with
  | nil =>
    refine ⟨fun h => ?_, ?_⟩
    · cases h with
      | here h => exact .inr ⟨cells, rfl, h⟩
    · rintro (h | ⟨entry, hat, h⟩)
      · cases h
      · cases hat
        exact .here h
  | cons step path ih =>
    obtain ⟨tag, index⟩ := step
    have hat {g : GroupCell} {entry : List Cell} (hg : group cells tag = .ok g) (hentry : g.live[index]? = some entry) :
        at? cells ((tag, index) :: path) = at? entry path := by
      rw [at?, hg]
      dsimp only [bind, Except.bind]
      rw [hentry]
    refine ⟨fun h => ?_, fun h => ?_⟩
    · cases h with
      | noGroup h => exact .inl (bind_of_error (group_eq_error_iff.2 ⟨h, rfl⟩) _)
      | inside h hentry hinside =>
        rw [hat (group_of_find? h) hentry]
        exact ih.1 hinside
    · cases hg : group cells tag with
      | error cause' =>
        have hpath : at? cells ((tag, index) :: path) = .error cause' := bind_of_error hg _
        obtain ⟨hno, rfl⟩ := group_eq_error_iff.1 hg
        rw [hpath] at h
        rcases h with h | ⟨entry, h, -⟩
        · cases h
          exact .noGroup hno
        · cases h
      | ok g =>
        cases hentry : g.live[index]? with
        | none =>
          rw [at?, hg] at h
          dsimp only [bind, Except.bind] at h
          rw [hentry] at h
          rcases h with h | ⟨entry, h, -⟩
          · cases h
          · cases h
        | some entry =>
          rw [hat hg hentry] at h
          exact .inside (find?_of_group hg) hentry (ih.2 h)

/-- So are those of an action inside repetitions. -/
theorem refusedFor_performIn (inside : List (Tag × Nat) × Action) :
    (performIn inside).RefusedFor fun cells buffer => RefusedIn buffer cells inside.1 inside.2 := by
  obtain ⟨path, action⟩ := inside
  refine ⟨fun {cells buffer cause} h => ?_, fun {cells buffer cause} h => ?_⟩
  · rw [refusedIn_iff]
    rw [performIn] at h
    cases hat : at? cells path with
    | error cause' =>
      rw [run_inEntry_refused hat] at h
      cases h
      exact .inl rfl
    | ok entry =>
      cases entry with
      | none =>
        rw [run_inEntry_absent hat] at h
        cases h
      | some entry =>
        rw [run_inEntry hat] at h
        exact .inr ⟨entry, rfl, action.refusedFor.reason h⟩
  · rw [performIn]
    rcases refusedIn_iff.1 h with hat | ⟨entry, hat, h⟩
    · exact run_inEntry_refused hat buffer
    · rw [run_inEntry hat, action.refusedFor.nothing h, replaceAt_self hat]

/-! ## Refused operations among others -/

/-- The operations among some of them that are not refused when they are carried out one after another. -/
def accepted {ι σ α : Type} (perform : ι → Work σ α) : List ι → σ × Bytes → List ι
  | [], _ => []
  | i :: rest, s =>
    let (result, s) := (perform i).run s
    if result.isOk then i :: accepted perform rest s else accepted perform rest s

/-- If no operation does anything when it is refused, then the ones that are refused might as well be left out. -/
theorem performAll_accepted {ι σ α : Type} {perform : ι → Work σ α} {why : ι → σ → Bytes → FieldError → Prop}
    (h : ∀ i, (perform i).RefusedFor (why i)) (is : List ι) (s : σ × Bytes) :
    performAll perform (accepted perform is s) s =
      ((performAll perform is s).1.filter Except.isOk, (performAll perform is s).2) := by
  induction is generalizing s with
  | nil => rfl
  | cons i is ih =>
    rw [accepted, performAll]
    cases hi : (perform i).run s with | mk result s' =>
    dsimp only
    cases result with
    | error cause =>
      -- The operation is left out, and the others start where it would have started.
      have hs : s' = s := by simpa only [hi] using (h i).unchanged s (congrArg Prod.fst hi)
      rw [hs]
      exact ih s
    | ok a =>
      change performAll perform (i :: accepted perform is s') s = _
      rw [performAll, hi]
      dsimp only
      rw [ih s']
      rfl

end Encoder

namespace MessageEncoder

open Encoder

/-- Why an operation on an encoder of messages is refused. -/
inductive Operation.Refused (e : MessageEncoder) (buffer : Bytes) : Operation → FieldError → Prop
  | inside {part : Part} {path : List (Tag × Nat)} {action : Action} {cause : FieldError}
    (h : RefusedIn buffer (e.part part) path action cause) : Refused e buffer (.inside part path action) cause
  | noRoom {offset : Nat} (h : buffer.length - offset < e.encodedLength) :
    Refused e buffer (.encode offset) (.bufferTooShort e.encodedLength (buffer.length - offset))

/-- So are those of an operation. -/
theorem Operation.refusedFor (op : Operation) : op.perform.RefusedFor fun e buffer => op.Refused e buffer := by
  refine ⟨fun {e buffer cause} h => ?_, fun {e buffer cause} h => ?_⟩
  · cases op with
    | inside part path action =>
      rw [perform, run_inPart] at h
      exact .inside ((refusedFor_performIn (path, action)).reason h)
    | encode offset =>
      rw [run_encode] at h
      by_cases hroom : e.encodedLength ≤ buffer.length - offset
      · rw [encode_of_room hroom] at h
        cases h
      · rw [encode_of_no_room (Nat.lt_of_not_le hroom)] at h
        cases h
        exact .noRoom (Nat.lt_of_not_le hroom)
    | reset => cases h
    | text => cases h
    | length => cases h
    | layout => cases h
    | target buffer' => cases h
  · cases h with
    | @inside part path action cause h =>
      rw [perform, run_inPart, (refusedFor_performIn (path, action)).nothing h, setPart_self]
    | noRoom h =>
      rw [run_encode, encode_of_no_room h]
      rfl

/-- An operation that is refused, for the listed reasons and no others, changes neither the encoder nor a byte of the
buffer, and whatever is done afterwards is as if it had not been tried : the other operations have the same results,
and leave the same encoder and buffer, if all that are refused are left out. This holds for operations on an encoder
of messages, on any of its parts or an entry at any depth, and for those on an aggregate on its own. -/
theorem perform_refused :
    (∀ (op : Operation) (e : MessageEncoder) (buffer : Bytes) (cause : FieldError),
      ((op.perform.run (e, buffer)).1 = .error cause ↔ op.Refused e buffer cause) ∧
      ((op.perform.run (e, buffer)).1 = .error cause → (op.perform.run (e, buffer)).2 = (e, buffer))) ∧
    (∀ (op : List (Tag × Nat) × Action) (cells : List Cell) (buffer : Bytes) (cause : FieldError),
      (((performIn op).run (cells, buffer)).1 = .error cause ↔ RefusedIn buffer cells op.1 op.2 cause) ∧
      (((performIn op).run (cells, buffer)).1 = .error cause →
        ((performIn op).run (cells, buffer)).2 = (cells, buffer))) ∧
    (∀ (ops : List Operation) (s : MessageEncoder × Bytes),
      performAll Operation.perform (accepted Operation.perform ops s) s =
        ((performAll Operation.perform ops s).1.filter Except.isOk, (performAll Operation.perform ops s).2)) ∧
    ∀ (ops : List (List (Tag × Nat) × Action)) (s : List Cell × Bytes),
      performAll performIn (accepted performIn ops s) s =
        ((performAll performIn ops s).1.filter Except.isOk, (performAll performIn ops s).2) :=
  ⟨fun op e buffer _ => ⟨op.refusedFor.iff, op.refusedFor.unchanged (e, buffer)⟩,
    fun op cells buffer _ => ⟨(refusedFor_performIn op).iff, (refusedFor_performIn op).unchanged (cells, buffer)⟩,
    performAll_accepted Operation.refusedFor, performAll_accepted refusedFor_performIn⟩

/-- A quote on which an unknown tag, a counter and a field of another kind are set, a field is taken for a group, and
which is to be written where there is not enough room, and an aggregate on which a time after the year 9999 is set. -/
theorem perform_refused_quote :
    let buffer : Bytes := List.replicate 100 0
    let refused : List (Operation × FieldError) := [(.inside .body [] (.change (.int 999 1)), .unknownField 999),
      (.inside .body [] (.change (.text 555 "A")), .unknownField 555),
      (.inside .body [(555, 0)] (.change (.int 600 1)), .typeMismatch 600 "int" "string"),
      (.inside .body [(555, 0)] (.group 600), .unknownField 600), (.encode 60, .bufferTooShort 72 40)]
    let time : List Cell := [.field ⟨⟨60, "TransactTime", .utcTimestamp, []⟩, true⟩ (some (Bytes.ofString "T"))]
    let late : List (Tag × Nat) × Action := ([], .change (.timestamp 60 253402300800000))
    (∀ op ∈ refused, (op.1.perform.run (quote, buffer)).1 = .error op.2 ∧
      (op.1.perform.run (quote, buffer)).2 = (quote, buffer)) ∧
    ((performIn late).run (time, buffer)).1 = .error (.invalidValue Timestamp.kind 0) ∧
    ((performIn late).run (time, buffer)).2 = (time, buffer) := by
  intro buffer refused time late
  have herror : ∀ op ∈ refused, (op.1.perform.run (quote, buffer)).1 = .error op.2 := by
    simp only [refused, List.forall_mem_cons]
    refine ⟨rfl, rfl, rfl, rfl, ?_, nofun⟩
    have hlength : quote.encodedLength = 72 := by decide +kernel
    rw [Operation.run_encode, encode_of_no_room (by rw [hlength]; decide +kernel), hlength, List.length_replicate]
    rfl
  have hlate : ((performIn late).run (time, buffer)).1 = .error (.invalidValue Timestamp.kind 0) := rfl
  exact ⟨fun op hop => ⟨herror op hop, (perform_refused.1 op.1 quote buffer op.2).2 (herror op hop)⟩, hlate,
    (perform_refused.2.1 late time buffer _).2 hlate⟩

end MessageEncoder

end FixWire
