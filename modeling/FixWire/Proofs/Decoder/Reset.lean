import FixWire.Proofs.Decoder.Spare

/-!
# Reset decoders

A decoder that has been used and then reset still holds the repetitions of earlier messages, so it is not equal to a
new one. It cannot be told apart from a new one either : whatever is asked of the two from then on, they respond in
the same way (`responses_reset`). What one request does is that two decoders that differ at most in their spare
repetitions respond in the same way and still differ at most in those (`MessageDecoder.alike_handle`,
`AggregateDecoder.alike_handle`).

A new decoder may have spare repetitions too : it is made with as many as the configuration says, at every depth.
-/

namespace FixWire

open Decoder

namespace Decoder

/-! ## New decoders with spare repetitions -/

mutual

/-- The cell of a member that has not been written, with a number of spare repetitions. -/
def Cell.stocked (capacity : Nat) : Member → Cell
  | .field slot => .field slot .absent 0
  | .group slot body => .group slot body {} [] (List.replicate capacity (stock capacity body))

/-- The cells of members that have not been written, with a number of spare repetitions for each group. -/
def stock (capacity : Nat) : List Member → List Cell
  | [] => []
  | m :: rest => Cell.stocked capacity m :: stock capacity rest

end

mutual

/-- A new cell with spare repetitions is one of its member. -/
theorem Cell.fits_stocked (capacity : Nat) : ∀ m : Member, (Cell.stocked capacity m).Fits m
  | .field _ => .field
  | .group _ body => .group fun _ hc => List.eq_of_mem_replicate hc ▸ fit_stock capacity body

/-- New cells with spare repetitions are those of the members. -/
theorem fit_stock (capacity : Nat) : ∀ members : List Member, Fit members (stock capacity members)
  | [] => .nil
  | m :: rest => .cons (Cell.fits_stocked capacity m) (fit_stock capacity rest)

end

/-- Spare repetitions are the only difference to cells without them. -/
theorem bares_stock (capacity : Nat) : ∀ members : List Member, bares (stock capacity members) = members.map Cell.blank
  | [] => rfl
  | .field _ :: rest => congrArg _ (bares_stock capacity rest)
  | .group _ _ :: rest => congrArg _ (bares_stock capacity rest)

/-- Without spare repetitions new cells are blank. -/
theorem stock_zero : ∀ members : List Member, stock 0 members = members.map Cell.blank
  | [] => rfl
  | .field _ :: rest => congrArg _ (stock_zero rest)
  | .group _ _ :: rest => congrArg _ (stock_zero rest)

/-- An aggregate that has not been written, with a number of spare repetitions for each group. -/
def Aggregate.stocked (capacity : Nat) (l : Layout) : Aggregate :=
  ⟨l.name, 0, stock capacity l.members⟩

theorem Aggregate.stocked_zero (l : Layout) : stocked 0 l = blank l :=
  congrArg (Aggregate.mk l.name 0) (stock_zero l.members)

/-- A new aggregate differs from itself in nothing. -/
theorem Aggregate.alike_stocked (capacity : Nat) (l : Layout) : (stocked capacity l).Alike l (stocked capacity l) :=
  ⟨rfl, rfl, rfl, fit_stock capacity l.members, fit_stock capacity l.members, rfl⟩

/-- A cleared aggregate and a new one differ at most in their spare repetitions. -/
theorem Aggregate.alike_clear {l : Layout} {a : Aggregate} (h : a.Alike l a) (capacity : Nat) :
    a.clear.Alike l (stocked capacity l) := by
  refine ⟨h.left, rfl, rfl, h.cells.left.clear, fit_stock capacity l.members, ?_⟩
  exact h.cells.left.bares_clear.trans (bares_stock capacity l.members).symm

/-! ## Questions about an aggregate -/

/-- A question about what an aggregate holds. -/
inductive Query where
  | name
  | text
  | tagOf (name : String)
  | has (tag : Tag)
  | length (tag : Tag)
  | int (tag : Tag)
  | decimal (tag : Tag)
  | char (tag : Tag)
  | bool (tag : Tag)
  | timestamp (tag : Tag)
  | bytes (tag : Tag)
  | string (tag : Tag)
  | group (tag : Tag)

/-- The answer to a question. That about a group has its name, its counter, whether it is there, the number that its
counter gave, and the number of its repetitions; they are asked about on their own. -/
inductive Answer where
  | name (name : String)
  | text (text : String)
  | tagOf (tag : Option Tag)
  | has (present : Bool)
  | length (length : Nat)
  | int (value : Except FieldError Int)
  | decimal (value : Except FieldError Decimal)
  | char (value : Except FieldError UInt8)
  | bool (value : Except FieldError Bool)
  | timestamp (value : Except FieldError Int)
  | bytes (value : Except FieldError Bytes)
  | string (value : Except FieldError (Option String))
  | group (view : Option (String × Tag × Bool × Int × Nat))

namespace Aggregate

/-- What the aggregate answers. -/
def ask (a : Aggregate) : Query → Answer
  | .name => .name a.name
  | .text => .text a.render
  | .tagOf name => .tagOf (a.tagOf? name)
  | .has tag => .has (a.has tag)
  | .length tag => .length (a.length tag)
  | .int tag => .int (a.getInt tag)
  | .decimal tag => .decimal (a.getDecimal tag)
  | .char tag => .char (a.getChar tag)
  | .bool tag => .bool (a.getBool tag)
  | .timestamp tag => .timestamp (a.getTimestamp tag)
  | .bytes tag => .bytes (a.getBytes tag)
  | .string tag => .string (a.getText tag)
  | .group tag => .group <| (a.group? tag).map fun g =>
      (g.name, g.counter, g.present, g.declaredCount, g.repetitions.length)

/-- The aggregate without spare repetitions. -/
def bare (a : Aggregate) : Aggregate :=
  { a with cells := bares a.cells }

/-- A field is found, or the refusal is the same, without spare repetitions. -/
theorem field_bare (a : Aggregate) (tag : Tag) : a.bare.field tag = a.field tag := by
  rw [field, field, bare, find?_bares]
  rcases find? a.cells tag with _ | _ | _ <;> rfl

/-- The kind of a field is checked in the same way without spare repetitions. -/
theorem typed_bare (a : Aggregate) (tag : Tag) (kind : ValueKind) : a.bare.typed tag kind = a.typed tag kind := by
  rw [typed, typed, field_bare]

theorem has_bare (a : Aggregate) (tag : Tag) : a.bare.has tag = a.has tag := by
  rw [has, has, bare, find?_bares]
  rcases find? a.cells tag with _ | _ | _ <;> rfl

theorem length_bare (a : Aggregate) (tag : Tag) : a.bare.length tag = a.length tag := by
  rw [length, length, bare, find?_bares]
  rcases find? a.cells tag with _ | _ | _ <;> rfl

/-- The tag of a name is found without spare repetitions. -/
theorem tagOf?_bare (a : Aggregate) (name : String) : a.bare.tagOf? name = a.tagOf? name := by
  have hfind (p : Cell → Bool) (hp : ∀ c : Cell, p c.bare = p c) :
      (bares a.cells).find? p = (a.cells.find? p).map Cell.bare := by
    rw [bares_eq_map, List.find?_map]
    exact congrArg (fun p => (a.cells.find? p).map Cell.bare) (funext hp)
  rw [tagOf?, tagOf?, bare]
  dsimp only
  rw [hfind _ fun c => by cases c <;> rfl, hfind _ fun c => by cases c <;> rfl, ← Option.map_or, Option.map_map]
  exact congrArg (Option.map · _) (funext Cell.tag_bare)

/-- A group shows the same without spare repetitions, but for those inside its repetitions. -/
theorem group?_bare (a : Aggregate) (tag : Tag) :
    a.bare.group? tag = (a.group? tag).map fun g => { g with repetitions := g.repetitions.map bare } := by
  rw [group?, group?, bare, find?_bares]
  rcases find? a.cells tag with _ | _ | ⟨slot, body, counter, live, spare⟩
  · rfl
  · rfl
  · simp [Cell.bare, bareLists_eq_map, ofRepetition, bare]

/-- Spare repetitions do not show in any answer. -/
theorem ask_bare (a : Aggregate) (q : Query) : a.bare.ask q = a.ask q := by
  cases q with
  | name => rfl
  | text => exact congrArg (fun o => Answer.text (Outline.render o)) (outline_bares a.cells)
  | tagOf name => exact congrArg _ (a.tagOf?_bare name)
  | has tag => exact congrArg _ (a.has_bare tag)
  | length tag => exact congrArg _ (a.length_bare tag)
  | int tag => rw [ask, ask, getInt, getInt, typed_bare]
  | decimal tag => rw [ask, ask, getDecimal, getDecimal, typed_bare]
  | char tag => rw [ask, ask, getChar, getChar, typed_bare]
  | bool tag => rw [ask, ask, getBool, getBool, typed_bare]
  | timestamp tag => rw [ask, ask, getTimestamp, getTimestamp, typed_bare]
  | bytes tag => rw [ask, ask, getBytes, getBytes, field_bare]
  | string tag => rw [ask, ask, getText, getText, field_bare]
  | group tag =>
    rw [ask, ask, group?_bare, Option.map_map]
    exact congrArg (fun f => Answer.group ((a.group? tag).map f)) (funext fun g => by simp [GroupView.declaredCount])

/-- The same repetitions are there without spare ones. -/
theorem at?_bare : ∀ (path : List (Tag × Nat)) (a : Aggregate), a.bare.at? path = (a.at? path).map bare
  | [], _ => rfl
  | (tag, index) :: path, a => by
    rw [at?, at?, bare, find?_bares]
    rcases find? a.cells tag with _ | _ | ⟨slot, body, counter, live, spare⟩
    · rfl
    · rfl
    · simp only [Option.map_some, Cell.bare, bareLists_eq_map, List.getElem?_map]
      cases live[index]? with
      | none => rfl
      | some cells => exact at?_bare path (ofRepetition slot cells)

/-- The answer of the repetition that a path leads to. -/
def askAt (a : Aggregate) (path : List (Tag × Nat)) (q : Query) : Option Answer :=
  (a.at? path).map (ask · q)

/-- Questions about repetitions have the same answers without spare ones. -/
theorem askAt_bare (a : Aggregate) (path : List (Tag × Nat)) (q : Query) : a.bare.askAt path q = a.askAt path q := by
  rw [askAt, askAt, at?_bare, Option.map_map]
  exact congrArg (Option.map · _) (funext fun a => a.ask_bare q)

namespace Alike

variable {l : Layout} {a a' : Aggregate}

/-- Aggregates that differ in spare repetitions are the same without them. -/
theorem bare (h : a.Alike l a') : a.bare = a'.bare := by
  rw [Aggregate.bare, Aggregate.bare, h.cells.bare, h.left, h.right, h.stamp]

/-- They give the same answers. -/
theorem askAt (h : a.Alike l a') (path : List (Tag × Nat)) (q : Query) : a.askAt path q = a'.askAt path q := by
  rw [← askAt_bare a, h.bare, askAt_bare]

/-- They are shown in the same way. -/
theorem outline (h : a.Alike l a') : outline a.cells = outline a'.cells := by
  rw [← outline_bares a.cells, h.cells.bare, outline_bares]

/-- They are in the same cycle. -/
theorem nextCycle (h : a.Alike l a') : a.nextCycle.Alike l a'.nextCycle :=
  ⟨h.left, h.right, by rw [Aggregate.nextCycle, Aggregate.nextCycle, h.stamp], h.cells⟩

/-- They may both be cleared. -/
theorem clear (h : a.Alike l a') : a.clear.Alike l a'.clear :=
  ⟨h.left, h.right, rfl, h.cells.clear⟩

end Alike

end Aggregate

/-! ## Requests to a decoder -/

/-- Something that is asked of a decoder. Questions go to one of its aggregates, or to a repetition inside. -/
inductive Request (Place : Type) where
  | decode (window : Bytes)
  | validate
  | reset
  | verdict
  | text
  | ask (place : Place) (path : List (Tag × Nat)) (query : Query)

/-- What a decoder responds. There is no answer if the path of a question leads nowhere. -/
inductive Response where
  | decoded (length : Nat)
  | validated (isValid : Bool)
  | reset
  | verdict (isValid : Bool) (invalidTag : Int) (reason : Option RejectReason)
  | text (text : String)
  | answer (answer : Option Answer)

/-- The response that tells a verdict. -/
def Outcome.response (o : Outcome) : Response :=
  .verdict o.isValid o.invalidTag o.reason?

/-- The responses to some requests, one after another. -/
def responses {State Place : Type} (handle : State → Request Place → State × Response) :
    State → List (Request Place) → List Response
  | _, [] => []
  | s, r :: rest =>
    let (s, response) := handle s r
    response :: responses handle s rest

/-- If related states respond to any request in ways that a function leads from one to the other, and stay related, it
leads from the responses of one to those of the other whatever the requests are. -/
theorem responses_map {State Place : Type} {handle : State → Request Place → State × Response}
    {R : State → State → Prop} {f : Response → Response}
    (hstep : ∀ {s s' : State} (r : Request Place), R s s' →
      R (handle s r).1 (handle s' r).1 ∧ (handle s' r).2 = f (handle s r).2) :
    ∀ (requests : List (Request Place)) {s s' : State}, R s s' →
      responses handle s' requests = (responses handle s requests).map f
  | [], _, _, _ => rfl
  | r :: rest, _, _, h => congrArg₂ List.cons (hstep r h).2 (responses_map hstep rest (hstep r h).1)

/-- States respond in the same way if they are related and any request keeps them so. -/
theorem responses_eq {State Place : Type} {handle : State → Request Place → State × Response}
    {R : State → State → Prop}
    (hstep : ∀ {s s' : State} (r : Request Place), R s s' →
      R (handle s r).1 (handle s' r).1 ∧ (handle s r).2 = (handle s' r).2)
    (requests : List (Request Place)) {s s' : State} (h : R s s') :
    responses handle s requests = responses handle s' requests := by
  have hmap : responses handle s' requests = (responses handle s requests).map id :=
    responses_map (R := R) (fun r h => ⟨(hstep r h).1, (hstep r h).2.symm⟩) requests h
  rw [hmap, List.map_id]

end Decoder

/-! ## Decoders of messages -/

namespace MessageDecoder

/-- A new decoder with a number of spare repetitions for each group. -/
def stocked (capacity : Nat) (layout : MessageLayout) (legal order : List Tag) (validating : Bool) :
    MessageDecoder where
  layout := layout
  legal := legal
  order := order
  parts := ⟨.stocked capacity layout.header, .stocked capacity layout.body, .stocked capacity layout.trailer⟩
  log := .empty validating
  outcome := .valid

/-- The decoder after a request, and its response. -/
def handle (d : MessageDecoder) : Request Part → MessageDecoder × Response
  | .decode window => ((d.decode window).1, .decoded (d.decode window).2)
  | .validate => (d.validate, .validated d.validate.outcome.isValid)
  | .reset => (d.reset, .reset)
  | .verdict => (d, d.outcome.response)
  | .text => (d, .text d.render)
  | .ask place path query => (d, .answer ((d.part place).askAt path query))

/-- Decoders that differ at most in their spare repetitions. -/
structure Alike (d d' : MessageDecoder) : Prop where
  layout : d.layout = d'.layout
  legal : d.legal = d'.legal
  order : d.order = d'.order
  parts : d.parts.Alike d.layout d'.parts
  log : d.log = d'.log
  outcome : d.outcome = d'.outcome

theorem stocked_zero (layout : MessageLayout) (legal order : List Tag) (validating : Bool) :
    stocked 0 layout legal order validating = make layout legal order validating := by
  simp only [stocked, make, Aggregate.stocked_zero]

/-- New decoders with spare repetitions have the cells of the layout. -/
theorem fit_stocked (capacity : Nat) (layout : MessageLayout) (legal order : List Tag) (validating : Bool) :
    (stocked capacity layout legal order validating).parts.Fit layout := by
  rintro (_ | _ | _) <;> exact fit_stock capacity _

namespace Alike

variable {d d' : MessageDecoder}

/-- Decoding leaves both decoders alike, and takes as many bytes. -/
theorem decode (h : d.Alike d') (window : Bytes) :
    (d.decode window).1.Alike (d'.decode window).1 ∧ (d.decode window).2 = (d'.decode window).2 := by
  have hnext : d.parts.nextCycle.Alike d.layout d'.parts.nextCycle := by
    intro part
    rw [Parts.get_nextCycle, Parts.get_nextCycle]
    exact (h.parts part).nextCycle
  obtain ⟨ps', hreads, halike⟩ := (reads_readParts d.legal false d.parts.nextCycle (.empty d.log.enabled) window).alike
    hnext
  obtain ⟨rfl, hlog, hrest⟩ := Reading.result_eq_iff.1 hreads.result_eq
  rw [MessageDecoder.decode, MessageDecoder.decode, ← h.legal, ← h.log]
  exact ⟨⟨h.layout, rfl, h.order, halike, hlog.symm, h.outcome⟩, congrArg (window.length - ·.length) hrest.symm⟩

/-- Validating leaves both decoders alike. -/
theorem validate (h : d.Alike d') : d.validate.Alike d'.validate :=
  ⟨h.layout, h.legal, h.order, h.parts, h.log, by
    rw [MessageDecoder.validate, MessageDecoder.validate, h.log, h.order, h.parts.missing?]⟩

/-- Resetting leaves both decoders alike. -/
theorem reset (h : d.Alike d') : d.reset.Alike d'.reset := by
  refine ⟨h.layout, h.legal, h.order, fun part => ?_, congrArg (fun log : Log => Log.empty log.enabled) h.log, rfl⟩
  rw [MessageDecoder.reset, MessageDecoder.reset, Parts.get_clear, Parts.get_clear]
  exact (h.parts part).clear

/-- Both decoders show the same text. -/
theorem render (h : d.Alike d') : d.render = d'.render := by
  have hheader : outline d.parts.header.cells = outline d'.parts.header.cells := (h.parts .header).outline
  have hbody : outline d.parts.body.cells = outline d'.parts.body.cells := (h.parts .body).outline
  have htrailer : outline d.parts.trailer.cells = outline d'.parts.trailer.cells := (h.parts .trailer).outline
  rw [MessageDecoder.render, MessageDecoder.render, h.layout, hheader, hbody, htrailer]

end Alike

/-- Spare repetitions make no difference to any request. -/
theorem alike_handle {d d' : MessageDecoder} (r : Request Part) (h : d.Alike d') :
    (d.handle r).1.Alike (d'.handle r).1 ∧ (d.handle r).2 = (d'.handle r).2 := by
  cases r with
  | decode window => exact ⟨(h.decode window).1, congrArg Response.decoded (h.decode window).2⟩
  | validate => exact ⟨h.validate, congrArg (fun o : Outcome => Response.validated o.isValid) h.validate.outcome⟩
  | reset => exact ⟨h.reset, rfl⟩
  | verdict => exact ⟨h, congrArg Outcome.response h.outcome⟩
  | text => exact ⟨h, congrArg Response.text h.render⟩
  | ask place path query => exact ⟨h, congrArg Response.answer ((h.parts place).askAt path query)⟩

/-- A new decoder differs from itself in nothing. -/
theorem alike_stocked (capacity : Nat) (layout : MessageLayout) (legal order : List Tag) (validating : Bool) :
    (stocked capacity layout legal order validating).Alike (stocked capacity layout legal order validating) := by
  refine ⟨rfl, rfl, rfl, ?_, rfl, rfl⟩
  rintro (_ | _ | _) <;> exact Aggregate.alike_stocked capacity _

/-- A decoder stays one of its layout while it is used. -/
theorem Used.alike {d₀ d : MessageDecoder} (h : Used d₀ d) (h₀ : d₀.Alike d₀) : d.Alike d := by
  induction h with
  | new => exact h₀
  | decode _ window ih => exact (ih.decode window).1
  | validate _ ih => exact ih.validate
  | reset _ ih => exact ih.reset

/-- A reset decoder differs from a new one at most in its spare repetitions. -/
theorem Used.alike_reset {capacity : Nat} {layout : MessageLayout} {legal order : List Tag} {validating : Bool}
    {d : MessageDecoder} (h : Used (stocked capacity layout legal order validating) d) :
    d.reset.Alike (stocked capacity layout legal order validating) := by
  have hsuits := h.suits fun part => ((alike_stocked capacity layout legal order validating).parts part).cells.left
  refine ⟨hsuits.layout, hsuits.legal, hsuits.order, fun part => ?_, congrArg Log.empty hsuits.enabled, rfl⟩
  have hpart := (h.alike (alike_stocked ..)).parts part
  rw [hsuits.layout] at hpart
  rw [MessageDecoder.reset, Parts.get_clear, hsuits.layout]
  have hclear := Aggregate.alike_clear hpart capacity
  cases part <;> exact hclear

end MessageDecoder

/-! ## Decoders of aggregates -/

namespace Decoder

section Enabled

variable {unclaimed : Unclaimed} {around : List Tag} {cycle : UInt32} {cells cells' : List Cell} {log log' : Log}
  {bytes left : Bytes}

/-- Reading a group does not change whether faults are logged. -/
theorem GroupReads.enabled {g g' : OpenGroup} (h : GroupReads unclaimed around g log bytes g' log' left) :
    log'.enabled = log.enabled := by
  induction h with
  | ended _ => rfl
  | field _ _ _ _ ih => rw [ih, Log.enabled_add]
  | group _ _ _ _ _ ihinside ihafter => rw [ihafter, Log.enabled_add, ihinside, Log.enabled_add]
  | leftOut _ _ _ _ _ ih => rw [ih, Log.enabled_add]

/-- Storing a pair does not change whether faults are logged. -/
theorem PairReads.enabled {p : Pair} (h : PairReads unclaimed around cycle p cells log bytes cells' log' left) :
    log'.enabled = log.enabled := by
  cases h with
  | field _ => rw [Log.enabled_add]
  | group _ inside => rw [Log.enabled_add, inside.enabled, Log.enabled_add]

/-- Reading an aggregate on its own does not change whether faults are logged. -/
theorem AggregateReads.enabled (h : AggregateReads cycle cells log bytes cells' log' left) :
    log'.enabled = log.enabled := by
  induction h with
  | ended _ => rfl
  | owned _ _ pair _ ih => rw [ih, pair.enabled]

end Enabled

end Decoder

namespace AggregateDecoder

/-- A new decoder with a number of spare repetitions for each group. -/
def stocked (capacity : Nat) (layout : Layout) (validating : Bool) : AggregateDecoder :=
  ⟨.stocked capacity layout, .empty validating, .valid⟩

theorem stocked_zero (layout : Layout) (validating : Bool) : stocked 0 layout validating = make layout validating := by
  rw [stocked, make, Aggregate.stocked_zero]

/-- The decoders that become of a decoder by using it. -/
inductive Used (d₀ : AggregateDecoder) : AggregateDecoder → Prop
  | new : Used d₀ d₀
  | decode {d : AggregateDecoder} (h : Used d₀ d) (window : Bytes) : Used d₀ (d.decode window).1
  | validate {d : AggregateDecoder} (h : Used d₀ d) : Used d₀ d.validate
  | reset {d : AggregateDecoder} (h : Used d₀ d) : Used d₀ d.reset

/-- The decoder after a request, and its response. -/
def handle (d : AggregateDecoder) : Request Unit → AggregateDecoder × Response
  | .decode window => ((d.decode window).1, .decoded (d.decode window).2)
  | .validate => (d.validate, .validated d.validate.outcome.isValid)
  | .reset => (d.reset, .reset)
  | .verdict => (d, d.outcome.response)
  | .text => (d, .text d.root.render)
  | .ask _ path query => (d, .answer (d.root.askAt path query))

/-- Decoders of the layout that differ at most in their spare repetitions. -/
structure Alike (l : Layout) (d d' : AggregateDecoder) : Prop where
  root : d.root.Alike l d'.root
  log : d.log = d'.log
  outcome : d.outcome = d'.outcome

namespace Alike

variable {l : Layout} {d d' : AggregateDecoder}

/-- Decoding leaves both decoders alike, and takes as many bytes. -/
theorem decode (h : d.Alike l d') (window : Bytes) :
    (d.decode window).1.Alike l (d'.decode window).1 ∧ (d.decode window).2 = (d'.decode window).2 := by
  obtain ⟨hleft, hright, hstamp, hcells⟩ := h.root.nextCycle
  obtain ⟨cells', hreads, halike⟩ :=
    (reads_readAggregate d.root.nextCycle.stamp d.root.nextCycle.cells (.empty d.log.enabled) window).alike hcells
  obtain ⟨rfl, hlog, hrest⟩ := Reading.result_eq_iff.1 hreads.result_eq
  rw [AggregateDecoder.decode, AggregateDecoder.decode, ← h.log, ← hstamp]
  exact ⟨⟨⟨hleft, hright, rfl, halike⟩, hlog.symm, h.outcome⟩, congrArg (window.length - ·.length) hrest.symm⟩

/-- Validating leaves both decoders alike. -/
theorem validate (h : d.Alike l d') : d.validate.Alike l d'.validate :=
  ⟨h.root, h.log, by rw [AggregateDecoder.validate, AggregateDecoder.validate, h.log, h.root.cells.missing?]⟩

/-- Resetting leaves both decoders alike. -/
theorem reset (h : d.Alike l d') : d.reset.Alike l d'.reset :=
  ⟨h.root.clear, congrArg (fun log : Log => Log.empty log.enabled) h.log, rfl⟩

end Alike

/-- Spare repetitions make no difference to any request. -/
theorem alike_handle {l : Layout} {d d' : AggregateDecoder} (r : Request Unit) (h : d.Alike l d') :
    (d.handle r).1.Alike l (d'.handle r).1 ∧ (d.handle r).2 = (d'.handle r).2 := by
  cases r with
  | decode window => exact ⟨(h.decode window).1, congrArg Response.decoded (h.decode window).2⟩
  | validate => exact ⟨h.validate, congrArg (fun o : Outcome => Response.validated o.isValid) h.validate.outcome⟩
  | reset => exact ⟨h.reset, rfl⟩
  | verdict => exact ⟨h, congrArg Outcome.response h.outcome⟩
  | text => exact ⟨h, congrArg (fun o => Response.text (Outline.render o)) h.root.outline⟩
  | ask place path query => exact ⟨h, congrArg Response.answer (h.root.askAt path query)⟩

theorem alike_stocked (capacity : Nat) (layout : Layout) (validating : Bool) :
    (stocked capacity layout validating).Alike layout (stocked capacity layout validating) :=
  ⟨Aggregate.alike_stocked capacity layout, rfl, rfl⟩

/-- A decoder stays one of its layout while it is used. -/
theorem Used.alike {l : Layout} {d₀ d : AggregateDecoder} (h : Used d₀ d) (h₀ : d₀.Alike l d₀) : d.Alike l d := by
  induction h with
  | new => exact h₀
  | decode _ window ih => exact (ih.decode window).1
  | validate _ ih => exact ih.validate
  | reset _ ih => exact ih.reset

/-- Decoding does not change whether faults are logged. -/
theorem enabled_decode (d : AggregateDecoder) (window : Bytes) : (d.decode window).1.log.enabled = d.log.enabled :=
  (reads_readAggregate _ _ (.empty d.log.enabled) window).enabled

/-- Using a decoder does not change whether it logs faults. -/
theorem Used.enabled {d₀ d : AggregateDecoder} (h : Used d₀ d) : d.log.enabled = d₀.log.enabled := by
  induction h with
  | new => rfl
  | decode _ window ih => exact (enabled_decode _ window).trans ih
  | validate _ ih => exact ih
  | reset _ ih => exact ih

/-- A reset decoder differs from a new one at most in its spare repetitions. -/
theorem Used.alike_reset {capacity : Nat} {layout : Layout} {validating : Bool} {d : AggregateDecoder}
    (h : Used (stocked capacity layout validating) d) : d.reset.Alike layout (stocked capacity layout validating) :=
  ⟨Aggregate.alike_clear (h.alike (alike_stocked ..)).root capacity, congrArg Log.empty h.enabled, rfl⟩

end AggregateDecoder

/-! ## New and reset decoders -/

/-- A reset decoder cannot be told apart from a new one : whatever it has been used for before, it responds to all
requests that follow as a new one does. This holds for decoders of messages and for decoders of aggregates on their own,
with any layout, and with any number of spare repetitions that a new decoder is made with. -/
theorem responses_reset (capacity : Nat) (validating : Bool) :
    (∀ (layout : MessageLayout) (legal order : List Tag) (d : MessageDecoder),
      MessageDecoder.Used (.stocked capacity layout legal order validating) d →
        ∀ requests : List (Request Part), responses MessageDecoder.handle d.reset requests =
          responses MessageDecoder.handle (.stocked capacity layout legal order validating) requests) ∧
    ∀ (layout : Layout) (d : AggregateDecoder),
      AggregateDecoder.Used (.stocked capacity layout validating) d →
        ∀ requests : List (Request Unit), responses AggregateDecoder.handle d.reset requests =
          responses AggregateDecoder.handle (.stocked capacity layout validating) requests :=
  ⟨fun _ _ _ _ h requests => responses_eq MessageDecoder.alike_handle requests h.alike_reset,
    fun _ _ h requests => responses_eq AggregateDecoder.alike_handle requests h.alike_reset⟩

/-- Decoders that have read a group of two repetitions, one of them with a group inside. After a reset they are given
the beginning of the same message, whose counter is followed by one repetition, and are asked about it. -/
theorem responses_reset_sample :
    let d₀ := MessageDecoder.stocked 1 Sample.layout Sample.codecs.legalTags Sample.codecs.order true
    let d := (d₀.decode Sample.window).1.validate
    let a₀ := AggregateDecoder.stocked 1 Sample.layout.body true
    let a := (a₀.decode (Sample.window.drop 19)).1.validate
    let inMessage := [.decode (Sample.window.take 37), .validate, .verdict, .text, .ask .body [(555, 0)] (.group 604)]
    let alone := [.decode ((Sample.window.drop 19).take 18), .validate, .verdict, .ask () [(555, 0)] (.string 600)]
    MessageDecoder.Used d₀ d ∧ AggregateDecoder.Used a₀ a ∧
      responses MessageDecoder.handle d.reset inMessage = responses MessageDecoder.handle d₀ inMessage ∧
      responses AggregateDecoder.handle a.reset alone = responses AggregateDecoder.handle a₀ alone := by
  intro d₀ d a₀ a inMessage alone
  have hd : MessageDecoder.Used d₀ d := .validate (.decode .new Sample.window)
  have ha : AggregateDecoder.Used a₀ a := .validate (.decode .new (Sample.window.drop 19))
  exact ⟨hd, ha, (responses_reset 1 true).1 _ _ _ d hd inMessage, (responses_reset 1 true).2 _ a ha alone⟩

end FixWire
