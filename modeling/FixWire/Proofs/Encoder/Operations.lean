import FixWire.Proofs.Encoder.Room

/-!
# Operations on encoders

All that can be done with an encoder : with one of its parts, with an entry of a group at any depth, or with the whole
message. An operation is carried out step by step on the encoder and on the buffer that it writes into, and a step
that is refused does not take back the ones before it (`Work`). A setter has nothing to take back : it has found its
field, compared the kinds and made the text of the value before it stores it (`Change.does_perform`).
-/

namespace FixWire.Encoder

/-! ## Operations step by step -/

/-- An operation on a state and on the buffer that is written into. What was done before a refusal stays done. -/
abbrev Work (σ α : Type) := ExceptT FieldError (StateM (σ × Bytes)) α

/-- The results of some operations, one after another, and what they leave. -/
def performAll {ι σ α : Type} (perform : ι → Work σ α) : List ι → σ × Bytes → List (Except FieldError α) × (σ × Bytes)
  | [], s => ([], s)
  | i :: rest, s =>
    let (result, s) := (perform i).run s
    let (results, s) := performAll perform rest s
    (result :: results, s)

namespace Work

variable {σ α : Type}

/-- What is found in the state, or is refused. -/
def look (f : σ → Except FieldError α) : Work σ α := do
  f (← get).1

/-- Changes the state. -/
def update (f : σ → σ) : Work σ Unit :=
  modify fun (s, buffer) => (f s, buffer)

/-- Goes on with another buffer. -/
def target (buffer : Bytes) : Work σ Unit :=
  modify fun (s, _) => (s, buffer)

/-- Stores a value in the field with the tag, if its values are of the kind. -/
def storeTyped (tag : Tag) (kind : ValueKind) (value : Bytes) : Work (List Cell) Unit := do
  let slot ← look (typed · tag kind)
  update (put (.field slot (some value)))

end Work

open Work

/-- A change to the cells of an aggregate, step by step. -/
def Change.perform : Change → Work (List Cell) Unit
  | .int tag n => storeTyped tag .int (Integer.text n)
  | .decimal tag d => storeTyped tag .decimal d.text
  | .char tag b => storeTyped tag .char [b]
  | .bool tag b => storeTyped tag .bool (Bytes.ofString (if b then "Y" else "N"))
  | .text tag content => storeTyped tag .string (Bytes.ofString content)
  | .timestamp tag millis => do
    let slot ← look (typed · tag .timestamp)
    match Timestamp.text? millis with
    | some value => update (put (.field slot (some value)))
    | none => throw (.invalidValue Timestamp.kind 0)
  | .bytes tag value => do
    let slot ← look (field · tag)
    update (put (.field slot (some value)))
  | .nextEntry tag => do
    let g ← look (group · tag)
    update (put g.next.toCell)
  | .clearGroup tag => do
    let g ← look (group · tag)
    update (put g.clear.toCell)
  | .clear => update FixWire.Encoder.clear

/-- What an operation gives. -/
inductive Answer where
  | done
  /-- There is no such entry. -/
  | absent
  | flag (b : Bool)
  | text (content : String)
  | number (n : Nat)
  | group (name : String) (count : Nat)
  | layout (l : MessageLayout)

/-- An operation on an aggregate. -/
inductive Action where
  | change (change : Change)
  | has (tag : Tag)
  | text
  | length
  | group (tag : Tag)
  | encode (offset : Nat)
  | target (buffer : Bytes)

/-- What an operation on an aggregate does with its cells. -/
def Action.perform : Action → Work (List Cell) Answer
  | .change c => do
    c.perform
    return .done
  | .has tag => return .flag (FixWire.Encoder.has (← get).1 tag)
  | .text => return .text (render (← get).1)
  | .length => return .number (writtenLength (← get).1)
  | .group tag => do
    let g ← look (FixWire.Encoder.group · tag)
    return .group g.slot.name g.live.length
  | .encode offset => fun (cells, buffer) =>
    let (result, buffer) := FixWire.Encoder.encode cells buffer offset
    (result.map .number, (cells, buffer))
  | .target buffer => do
    Work.target buffer
    return .done

/-- An operation on the entry that a path leads to. The entry is changed in its place, also by a refused operation. -/
def Work.inEntry (path : List (Tag × Nat)) (w : Work (List Cell) Answer) : Work (List Cell) Answer :=
  fun (cells, buffer) =>
    match at? cells path with
    | .error cause => (.error cause, (cells, buffer))
    | .ok none => (.ok .absent, (cells, buffer))
    | .ok (some entry) =>
      let (result, (entry, buffer)) := w.run (entry, buffer)
      (result, (replaceAt cells path entry, buffer))

/-- An operation on an aggregate on its own : on its cells, or on an entry inside. -/
def performIn (inside : List (Tag × Nat) × Action) : Work (List Cell) Answer :=
  inEntry inside.1 inside.2.perform

end Encoder

namespace MessageEncoder

open Encoder

/-- An operation on an encoder of messages. -/
inductive Operation where
  | inside (part : Part) (path : List (Tag × Nat)) (action : Action)
  | encode (offset : Nat)
  | reset
  | text
  | length
  | layout
  | target (buffer : Bytes)

/-- An operation on the cells of one part, which are changed in their place, also by a refused operation. -/
def inPart (part : Part) (w : Work (List Cell) Answer) : Work MessageEncoder Answer := fun (e, buffer) =>
  let (result, (cells, buffer)) := w.run (e.part part, buffer)
  (result, (e.setPart part cells, buffer))

/-- What an operation does with an encoder. -/
def Operation.perform : Operation → Work MessageEncoder Answer
  | .inside part path action => inPart part (performIn (path, action))
  | .encode offset => fun (e, buffer) =>
    let (result, e, buffer) := e.encode buffer offset
    (result.map .number, (e, buffer))
  | .reset => do
    Work.update MessageEncoder.reset
    return .done
  | .text => return .text (← get).1.render
  | .length => return .number (← get).1.encodedLength
  | .layout => return .layout (← get).1.layout
  | .target buffer => do
    Work.target buffer
    return .done

end MessageEncoder

namespace Encoder

/-! ## What operations do -/

/-- The operation makes a change as a whole, or refuses it and does nothing. -/
structure Work.Does {σ : Type} (w : Work σ Unit) (f : σ → Except FieldError σ) : Prop where
  changed {s s' : σ} (buffer : Bytes) : f s = .ok s' → w.run (s, buffer) = (.ok (), (s', buffer))
  refused {s : σ} {cause : FieldError} (buffer : Bytes) :
    f s = .error cause → w.run (s, buffer) = (.error cause, (s, buffer))

namespace Work

variable {σ α : Type}

theorem run_look (f : σ → Except FieldError α) (s : σ) (buffer : Bytes) :
    (look f).run (s, buffer) = (f s, (s, buffer)) :=
  rfl

theorem does_update (g : σ → σ) : (update g).Does fun s => .ok (g s) :=
  ⟨fun _ h => by cases h; rfl, fun _ h => by cases h⟩

theorem does_throw (cause : FieldError) : Does (throw cause : Work σ Unit) fun _ => .error cause :=
  ⟨fun _ h => (by cases h), fun _ h => by cases h; rfl⟩

/-- Looking for something before a change does not break it up. -/
theorem does_look {f : σ → Except FieldError α} {w : α → Work σ Unit} {g : α → σ → Except FieldError σ}
    (h : ∀ a, (w a).Does (g a)) : (look f >>= w).Does fun s => f s >>= fun a => g a s := by
  refine ⟨fun {s s'} buffer hs => ?_, fun {s cause} buffer hs => ?_⟩
  · obtain ⟨a, ha, hs⟩ := exists_of_bind hs
    rw [run_bind, run_look, ha]
    exact (h a).changed buffer hs
  · rw [run_bind, run_look]
    cases hf : f s with
    | error cause' =>
      rw [hf] at hs
      cases hs
      rfl
    | ok a =>
      rw [hf] at hs
      exact (h a).refused buffer hs

end Work

open Work

/-- The steps of a change make it, or refuse it and do nothing. -/
theorem Change.does_perform (change : Change) : change.perform.Does change.apply := by
  have hstore {f : List Cell → Except FieldError FieldSlot} (value : Bytes) :=
    does_look (f := f) fun slot => does_update (put (.field slot (some value)))
  cases change with
  | int => exact hstore _
  | decimal => exact hstore _
  | char => exact hstore _
  | bool => exact hstore _
  | text => exact hstore _
  | bytes => exact hstore _
  | timestamp tag millis =>
    refine does_look fun slot => ?_
    cases Timestamp.text? millis with
    | some value => exact does_update _
    | none => exact does_throw _
  | nextEntry => exact does_look fun g => does_update (put g.next.toCell)
  | clearGroup => exact does_look fun g => does_update (put g.clear.toCell)
  | clear => exact does_update _

/-- Putting back a cell that is found changes nothing. -/
theorem put_of_find? {cells : List Cell} {c : Cell} (h : find? cells c.tag = some c) : put c cells = cells := by
  induction cells with
  | nil => rfl
  | cons d rest ih =>
    rw [find?, List.find?_cons] at h
    rw [put]
    by_cases ht : d.tag = c.tag
    · rw [if_pos ht]
      simp only [ht, beq_self_eq_true, Option.some.injEq] at h
      rw [h]
    · rw [if_neg ht]
      rw [beq_eq_false_iff_ne.2 ht] at h
      rw [ih h]

/-- Nothing changes if an entry takes its own place. -/
theorem replaceAt_self {path : List (Tag × Nat)} {cells entry : List Cell} (h : at? cells path = .ok (some entry)) :
    replaceAt cells path entry = cells := by
  induction path generalizing cells with
  | nil =>
    cases h
    rfl
  | cons step path ih =>
    obtain ⟨tag, index⟩ := step
    rw [at?] at h
    obtain ⟨g, hg, hinside⟩ := exists_of_bind h
    have hf := find?_of_group hg
    obtain rfl : g.slot.tag = tag := find?_tag hf
    cases hinner : g.live[index]? with
    | none =>
      rw [hinner] at hinside
      cases hinside
    | some inner =>
      rw [hinner] at hinside
      rw [replaceAt, hg]
      dsimp only
      rw [hinner]
      dsimp only
      obtain ⟨hlt, rfl⟩ := List.getElem?_eq_some_iff.1 hinner
      rw [ih hinside, List.set_getElem_self]
      exact put_of_find? hf

/-- Encoding is an operation that leaves the cells as they are. -/
theorem Action.run_encode (offset : Nat) (cells : List Cell) (buffer : Bytes) :
    (encode offset).perform.run (cells, buffer) = ((FixWire.Encoder.encode cells buffer offset).1.map Answer.number,
      (cells, (FixWire.Encoder.encode cells buffer offset).2)) :=
  rfl

namespace Work

variable {w : Work (List Cell) Answer} {path : List (Tag × Nat)} {cells entry : List Cell}

/-- An operation in an entry that cannot be reached is refused. -/
theorem run_inEntry_refused {cause : FieldError} (h : at? cells path = .error cause) (buffer : Bytes) :
    (w.inEntry path).run (cells, buffer) = (.error cause, (cells, buffer)) := by
  unfold inEntry ExceptT.run
  dsimp only
  rw [h]

theorem run_inEntry_absent (h : at? cells path = .ok none) (buffer : Bytes) :
    (w.inEntry path).run (cells, buffer) = (.ok .absent, (cells, buffer)) := by
  unfold inEntry ExceptT.run
  dsimp only
  rw [h]

/-- An operation in an entry changes that entry and the buffer. -/
theorem run_inEntry (h : at? cells path = .ok (some entry)) (buffer : Bytes) :
    (w.inEntry path).run (cells, buffer) = ((w.run (entry, buffer)).1,
      (replaceAt cells path (w.run (entry, buffer)).2.1, (w.run (entry, buffer)).2.2)) := by
  unfold inEntry ExceptT.run
  dsimp only
  rw [h]
  rfl

end Work

end Encoder

namespace MessageEncoder

open Encoder

theorem setPart_self (e : MessageEncoder) (part : Part) : e.setPart part (e.part part) = e := by
  cases part <;> rfl

/-- An operation in a part changes that part and the buffer. -/
theorem run_inPart (part : Part) (w : Work (List Cell) Answer) (e : MessageEncoder) (buffer : Bytes) :
    (inPart part w).run (e, buffer) = ((w.run (e.part part, buffer)).1,
      (e.setPart part (w.run (e.part part, buffer)).2.1, (w.run (e.part part, buffer)).2.2)) :=
  rfl

theorem Operation.run_encode (offset : Nat) (e : MessageEncoder) (buffer : Bytes) :
    (encode offset).perform.run (e, buffer) = ((e.encode buffer offset).1.map Answer.number,
      ((e.encode buffer offset).2.1, (e.encode buffer offset).2.2)) :=
  rfl

end MessageEncoder

end FixWire
