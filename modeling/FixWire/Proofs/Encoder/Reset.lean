import FixWire.Proofs.Encoder.Operations
import FixWire.Proofs.Encoder.Spare
import FixWire.Proofs.Layout.Header

/-!
# Reset encoders

A reset encoder still holds the entries of earlier messages, so it is not equal to a new one. It cannot be told apart
from a new one either : all operations that follow have the same results, and write the same bytes (`perform_reset`).
The same holds for an entry that is handed out by a group, whatever has been in it before.

An operation on two encoders that differ at most in their spare entries has the same result on both, and leaves two
such encoders and the same buffer (`Operation.respects`). A run of operations carries this on, and a reset encoder and
a new one are such a pair (`Used.alike_reset`).
-/

namespace FixWire

namespace Encoder

/-! ## Operations on related states -/

/-- The same is given and written, and what is left is related. -/
structure Same {σ β : Type} (R : σ → σ → Prop) (o o' : β × (σ × Bytes)) : Prop where
  result : o.1 = o'.1
  state : R o.2.1 o'.2.1
  buffer : o.2.2 = o'.2.2

/-- An operation that does the same to related states. -/
def Work.Respects {σ α : Type} (R : σ → σ → Prop) (w : Work σ α) : Prop :=
  ∀ {s s' : σ} (buffer : Bytes), R s s' → Same R (w.run (s, buffer)) (w.run (s', buffer))

/-- Whatever is done to related states is the same. The induction is on the operations, from any two related states. -/
theorem same_performAll {ι σ α : Type} {R : σ → σ → Prop} {perform : ι → Work σ α} (h : ∀ i, (perform i).Respects R)
    (is : List ι) {s s' : σ} (buffer : Bytes) (hs : R s s') :
    Same R (performAll perform is (s, buffer)) (performAll perform is (s', buffer)) := by
  induction is generalizing s s' buffer with
  | nil => exact ⟨rfl, hs, rfl⟩
  | cons i is ih =>
    have hstep := h i buffer hs
    rw [performAll, performAll]
    generalize (perform i).run (s, buffer) = o, (perform i).run (s', buffer) = o' at hstep
    obtain ⟨result, s, buffer⟩ := o
    obtain ⟨result', s', buffer'⟩ := o'
    obtain ⟨rfl, hstate, rfl⟩ := hstep
    have hrest := ih buffer hstate
    exact ⟨congrArg (result :: ·) hrest.result, hrest.state, hrest.buffer⟩

variable {members : List Member}

theorem Alike.encode {cells cells' : List Cell} (h : Alike members cells cells') :
    encode cells = Encoder.encode cells' := by
  funext buffer offset
  by_cases hroom : (Encoder.written cells).length ≤ buffer.length - offset
  · rw [encode_of_room hroom, encode_of_room (h.written ▸ hroom), h.written]
  · have hroom' := Nat.lt_of_not_le hroom
    rw [encode_of_no_room hroom', encode_of_no_room (h.written ▸ hroom'), h.written]

/-- Spare entries make no difference to an operation on an aggregate. -/
theorem Action.respects (action : Action) : action.perform.Respects (Alike members) := by
  intro cells cells' buffer h
  cases action with
  | change change =>
    rw [perform, run_bind, run_bind]
    rcases h.apply change with ⟨cause, hc, hc'⟩ | ⟨new, new', hc, hc', hnew⟩
    · rw [change.does_perform.refused buffer hc, change.does_perform.refused buffer hc']
      exact ⟨rfl, h, rfl⟩
    · rw [change.does_perform.changed buffer hc, change.does_perform.changed buffer hc']
      exact ⟨rfl, hnew, rfl⟩
  | has tag => exact ⟨congrArg (Except.ok ∘ Answer.flag) (h.has tag), h, rfl⟩
  | text => exact ⟨congrArg (fun o => Except.ok (Answer.text (Outline.render o))) h.outline, h, rfl⟩
  | length =>
    have hlength : writtenLength cells = writtenLength cells' := by
      rw [← length_written, h.written, length_written]
    exact ⟨congrArg (Except.ok ∘ Answer.number) hlength, h, rfl⟩
  | group tag =>
    rw [perform, run_bind, run_bind, Work.run_look, Work.run_look]
    rcases h.group tag with ⟨cause, hg, hg'⟩ | ⟨g, g', hg, hg', hbare⟩
    · rw [hg, hg']
      exact ⟨rfl, h, rfl⟩
    · rw [hg, hg']
      obtain ⟨hslot, -, hlive⟩ := GroupCell.bare_eq_iff.1 hbare
      have hlength : g.live.length = g'.live.length := by simpa using congrArg List.length hlive
      refine ⟨?_, h, rfl⟩
      change Except.ok (Answer.group g.slot.name g.live.length) = Except.ok (Answer.group g'.slot.name g'.live.length)
      rw [hslot, hlength]
  | encode offset =>
    rw [run_encode, run_encode, h.encode]
    exact ⟨rfl, h, rfl⟩
  | target buffer' => exact ⟨rfl, h, rfl⟩

/-- Spare entries make no difference to an operation on an entry, if they make none to operations on aggregates. -/
theorem Work.respects_inEntry {w : Work (List Cell) Answer} (hw : ∀ body, w.Respects (Alike body))
    (path : List (Tag × Nat)) : (w.inEntry path).Respects (Alike members) := by
  intro cells cells' buffer h
  rcases h.at? path with ⟨cause, hat, hat'⟩ | ⟨found, found', hat, hat', hbares⟩
  · rw [run_inEntry_refused hat, run_inEntry_refused hat']
    exact ⟨rfl, h, rfl⟩
  · cases found with
    | none =>
      obtain rfl := Option.map_eq_none_iff.1 hbares.symm
      rw [run_inEntry_absent hat, run_inEntry_absent hat']
      exact ⟨rfl, h, rfl⟩
    | some entry =>
      obtain ⟨entry', rfl, hbare⟩ := Option.map_eq_some_iff.1 hbares.symm
      obtain ⟨body, hentry⟩ := h.entry hat hat' hbare.symm
      have hinside := hw body buffer hentry
      rw [run_inEntry hat, run_inEntry hat']
      exact ⟨hinside.result, h.replaceAt hat hat' hentry hinside.state, hinside.buffer⟩

theorem respects_performIn (op : List (Tag × Nat) × Action) : (performIn op).Respects (Alike members) :=
  Work.respects_inEntry (fun _ => op.2.respects) op.1

/-- What an operation makes of cells is what a change makes of them, or nothing. -/
theorem Action.state_perform (action : Action) (cells : List Cell) (buffer : Bytes) :
    (action.perform.run (cells, buffer)).2.1 = cells ∨
      ∃ change : Change, change.apply cells = .ok (action.perform.run (cells, buffer)).2.1 := by
  cases action with
  | change change =>
    rw [perform, run_bind]
    cases hc : change.apply cells with
    | ok cells' =>
      rw [change.does_perform.changed buffer hc]
      exact .inr ⟨change, hc⟩
    | error cause =>
      rw [change.does_perform.refused buffer hc]
      exact .inl rfl
  | group tag =>
    rw [perform, run_bind, Work.run_look]
    cases FixWire.Encoder.group cells tag <;> exact .inl rfl
  | has tag => exact .inl rfl
  | text => exact .inl rfl
  | length => exact .inl rfl
  | encode offset => exact .inl rfl
  | target buffer' => exact .inl rfl

/-! ## New encoders with spare entries -/

mutual

/-- The cell of a member that has not been set, with a number of spare entries. -/
def Cell.stocked (capacity : Nat) : Member → Cell
  | .field slot => .field slot none
  | .group slot body => .group slot body [] (List.replicate capacity (stock capacity body))

/-- The cells of members that have not been set, with a number of spare entries for each group. -/
def stock (capacity : Nat) : List Member → List Cell
  | [] => []
  | m :: rest => Cell.stocked capacity m :: stock capacity rest

end

mutual

theorem Cell.fits_stocked (capacity : Nat) : ∀ m : Member, (Cell.stocked capacity m).Fits m
  | .field _ => .field
  | .group _ body => .group fun _ hc => List.eq_of_mem_replicate hc ▸ fit_stock capacity body

theorem fit_stock (capacity : Nat) : ∀ members : List Member, Fit members (stock capacity members)
  | [] => .nil
  | m :: rest => .cons (Cell.fits_stocked capacity m) (fit_stock capacity rest)

end

/-- Spare entries are the only difference to cells without them. -/
theorem bares_stock (capacity : Nat) (members : List Member) : bares (stock capacity members) = blank members := by
  induction members with
  | nil => rfl
  | cons m rest ih => cases m <;> exact congrArg _ ih

theorem stock_zero (members : List Member) : stock 0 members = blank members := by
  induction members with
  | nil => rfl
  | cons m rest ih => cases m <;> exact congrArg _ ih

/-- A cleared aggregate and a new one differ at most in their spare entries. -/
theorem Fit.alike_clear {cells : List Cell} (h : Fit members cells) (capacity : Nat) :
    Alike members (Encoder.clear cells) (stock capacity members) :=
  ⟨h.clear, fit_stock capacity members, h.bares_clear.trans (bares_stock capacity members).symm⟩

end Encoder

open Encoder

namespace MessageEncoder

/-- A new encoder with a number of spare entries for each group. -/
def stocked (capacity : Nat) (layout : MessageLayout) (beginString : String) : MessageEncoder :=
  identify ⟨layout, beginString, stock capacity layout.header.members, stock capacity layout.body.members,
    stock capacity layout.trailer.members⟩

variable {capacity : Nat} {layout : MessageLayout} {beginString : String} {e₀ e : MessageEncoder}

theorem stocked_zero (layout : MessageLayout) (beginString : String) :
    stocked 0 layout beginString = make layout beginString := by
  simp only [stocked, make, stock_zero]

theorem suits_stocked (capacity : Nat) (layout : MessageLayout) (beginString : String) :
    (stocked capacity layout beginString).Suits (stocked capacity layout beginString) := by
  refine Suits.identify ⟨rfl, rfl, fun part => ?_⟩
  cases part <;> exact fit_stock capacity _

/-- A reset encoder differs from a new one at most in its spare entries. -/
theorem Used.alike_reset (h : Used (stocked capacity layout beginString) e) :
    e.reset.Alike (stocked capacity layout beginString) := by
  have hsuits := h.suits (suits_stocked capacity layout beginString)
  refine Alike.identify ⟨hsuits.layout, hsuits.beginString, fun part => ?_⟩
  rw [hsuits.layout]
  cases part with
  | header => exact (hsuits.fit .header).alike_clear capacity
  | body => exact (hsuits.fit .body).alike_clear capacity
  | trailer => exact (hsuits.fit .trailer).alike_clear capacity

/-! ## Operations on encoders -/

/-- Spare entries make no difference to an operation on an encoder. -/
theorem Operation.respects (op : Operation) : op.perform.Respects Alike := by
  intro e e' buffer h
  cases op with
  | inside part path action =>
    have hinside := respects_performIn (path, action) buffer (h.parts part)
    rw [perform, run_inPart, run_inPart]
    exact ⟨hinside.result, h.setPart part hinside.state, hinside.buffer⟩
  | encode offset =>
    obtain ⟨hresult, hstate, hbuffer⟩ := h.encode buffer offset
    rw [run_encode, run_encode]
    exact ⟨congrArg (Except.map Answer.number) hresult, hstate, hbuffer⟩
  | reset => exact ⟨rfl, h.reset, rfl⟩
  | text => exact ⟨congrArg (Except.ok ∘ Answer.text) h.render, h, rfl⟩
  | length => exact ⟨congrArg (Except.ok ∘ Answer.number) h.encodedLength, h, rfl⟩
  | layout => exact ⟨congrArg (Except.ok ∘ Answer.layout) h.layout, h, rfl⟩
  | target buffer' => exact ⟨rfl, h, rfl⟩

/-- An encoder on which an operation has been carried out is one that has been used. -/
theorem Used.perform (h : Used e₀ e) (op : Operation) (buffer : Bytes) : Used e₀ (op.perform.run (e, buffer)).2.1 := by
  cases op with
  | inside part path action =>
    rw [Operation.perform, run_inPart, performIn]
    rcases hat : at? (e.part part) path with cause | _ | entry
    · rwa [Work.run_inEntry_refused hat, setPart_self]
    · rwa [Work.run_inEntry_absent hat, setPart_self]
    · rw [Work.run_inEntry hat]
      rcases action.state_perform entry buffer with hentry | ⟨change, hentry⟩
      · rwa [hentry, replaceAt_self hat, setPart_self]
      · exact h.change part path change hat hentry
  | encode offset => exact h.encode buffer offset
  | reset => exact h.reset
  | text => exact h
  | length => exact h
  | layout => exact h
  | target buffer' => exact h

theorem Used.performAll (ops : List Operation) (buffer : Bytes) (h : Used e₀ e) :
    Used e₀ (performAll Operation.perform ops (e, buffer)).2.1 := by
  induction ops generalizing e buffer with
  | nil => exact h
  | cons op ops ih => exact ih _ (h.perform op buffer)

end MessageEncoder

/-! ## Version and type -/

namespace Encoder

variable {p : Cell → Bool} {value : Bytes} {cells : List Cell} {tag : Tag}

theorem find?_cons_of_eq {c : Cell} (h : c.tag = tag) (rest : List Cell) : find? (c :: rest) tag = some c :=
  List.find?_cons_of_pos (by simpa using h)

theorem find?_cons_of_ne {c : Cell} (h : c.tag ≠ tag) (rest : List Cell) : find? (c :: rest) tag = find? rest tag :=
  List.find?_cons_of_neg (by simpa using h)

/-- Setting one field does not change another one. -/
theorem find?_setFirst_of_not {c : Cell} (hc : find? cells tag = some c) (hp : p c = false) :
    find? (setFirst p value cells) tag = some c := by
  induction cells with
  | nil => cases hc
  | cons d rest ih =>
    by_cases ht : d.tag = tag
    · rw [find?_cons_of_eq ht] at hc
      obtain rfl := Option.some.inj hc
      rw [setFirst_of_not hp, find?_cons_of_eq ht]
    · rw [find?_cons_of_ne ht] at hc
      cases d with
      | group => exact (find?_cons_of_ne ht _).trans (ih hc)
      | field slot old =>
        rw [setFirst]
        split_ifs
        · exact (find?_cons_of_ne (c := .field slot (some value)) ht rest).trans hc
        · exact (find?_cons_of_ne ht _).trans (ih hc)

/-- A field that is set is found under its tag, if only cells with this tag are asked for. -/
theorem find?_setFirst {slot : FieldSlot} {old : Option Bytes} (hc : find? cells tag = some (.field slot old))
    (hp : p (.field slot old) = true) (honly : ∀ c ∈ cells, p c = true → c.tag = tag) :
    find? (setFirst p value cells) tag = some (.field slot (some value)) := by
  induction cells with
  | nil => cases hc
  | cons d rest ih =>
    by_cases ht : d.tag = tag
    · rw [find?_cons_of_eq ht] at hc
      obtain rfl := Option.some.inj hc
      rw [setFirst, if_pos hp]
      exact find?_cons_of_eq (c := .field slot (some value)) ht rest
    · rw [find?_cons_of_ne ht] at hc
      have hnot : p d = false := Bool.eq_false_iff.2 fun hd => ht (honly d List.mem_cons_self hd)
      rw [setFirst_of_not hnot, find?_cons_of_ne ht]
      exact ih hc fun c hmem => honly c (List.mem_cons_of_mem _ hmem)

theorem find?_put_self {c old : Cell} (h : find? cells c.tag = some old) : find? (put c cells) c.tag = some c := by
  induction cells with
  | nil => cases h
  | cons d rest ih =>
    rw [put]
    by_cases ht : d.tag = c.tag
    · rw [if_pos ht, find?_cons_of_eq rfl]
    · rw [find?_cons_of_ne ht] at h
      rw [if_neg ht, find?_cons_of_ne ht, ih h]

/-- The group with another entry is found where the group was. -/
theorem group_next {g : GroupCell} (h : group cells tag = .ok g) :
    group (put g.next.toCell cells) tag = .ok g.next := by
  have hf := find?_of_group h
  obtain rfl : g.next.toCell.tag = tag := (congrArg GroupSlot.tag g.slot_next).trans (find?_tag hf)
  rw [group, find?_put_self hf]
  rfl

end Encoder

/-- A group of the layout that a path leads to makes the path longer. -/
theorem Layout.descend?_concat {l outer : Layout} {tags : List Tag} {tag : Tag} {slot : GroupSlot} {body : List Member}
    (h : l.descend? tags = some outer) (hm : outer.lookup? tag = some (.group slot body)) :
    l.descend? (tags ++ [tag]) = some ⟨slot.name, body⟩ := by
  induction tags generalizing l with
  | nil =>
    cases h
    rw [List.nil_append, descend?, hm]
    rfl
  | cons first tags ih =>
    rw [descend?] at h
    rw [List.cons_append, descend?]
    split at h
    · exact ih h
    · cases h

namespace Codecs

open MessageEncoder

variable {text : String} {validating : Bool} {c : Codecs} {type : Bytes} {l : MessageLayout}

/-- A reset encoder holds the version and the type of its messages, where the header has fields for them. -/
theorem header_reset (hc : ofDocument text validating = .ok c) (hl : l ∈ c.messages) {e : MessageEncoder}
    (hlayout : e.layout = l) (hfit : Fit l.header.members e.header) {slot : FieldSlot}
    (hslot : slot ∈ l.header.fields) :
    (slot.name = "BeginString" →
      find? e.reset.header slot.tag = some (.field slot (some (Bytes.ofString e.beginString)))) ∧
    (slot.name = "MsgType" → find? e.reset.header slot.tag = some (.field slot (some l.typeBytes))) := by
  have honly {cells : List Cell} (hcells : Fit l.header.members cells) :
      ∀ cell ∈ cells, cell.isNamed slot.name = true → cell.tag = slot.tag := by
    intro cell hcell hnamed
    obtain ⟨m, hm, hfits⟩ := hcells.exists_member hcell
    cases hfits with
    | group => cases hnamed
    | field =>
      rw [header_of_mem hc hl] at hslot hm
      exact congrArg Field.number (field_eq_of_name hc hslot (Layout.mem_fields_iff.2 hm) (eq_of_beq hnamed))
  -- Of the two fields that are set one is this one, and the other one has another name.
  obtain ⟨cell, hcell, hfits⟩ := hfit.clear.find?_some (memberOf?_header hc hl (header_of_mem hc hl ▸ hslot))
  cases hfits
  subst hlayout
  constructor
  · intro hname
    refine find?_setFirst_of_not (find?_setFirst hcell ?_ (hname ▸ honly hfit.clear)) ?_
    · exact beq_iff_eq.2 hname
    · rw [Cell.isNamed, hname]
      rfl
  · intro hname
    refine find?_setFirst (find?_setFirst_of_not hcell ?_) ?_ (hname ▸ honly hfit.clear.setFirst)
    · rw [Cell.isNamed, hname]
      rfl
    · exact beq_iff_eq.2 hname

/-- A reset encoder cannot be told apart from a new one. Take the codecs of a document, a message type, and a new
encoder for it with any number of spare entries for each group, and whatever has been done with this encoder. After a
reset it holds the version and the type that the dictionary tells, in the fields of the header that have their names,
and all operations that follow have the same results, and write the same bytes, as on the new encoder. And an entry
that a group of the used encoder hands out, at any depth, is the last one of the group, and all operations on it have
the same results, and write the same bytes, as on a new entry with the members that the layout has for this group. -/
theorem perform_reset (hc : ofDocument text validating = .ok c) (hl : c.require type = .ok l) (capacity : Nat)
    {history : List Operation} {results : List (Except FieldError Answer)} {e : MessageEncoder} {before after : Bytes}
    (he : performAll Operation.perform history (stocked capacity l c.dictionary.beginString, before) =
      (results, (e, after))) :
    let new := stocked capacity l c.dictionary.beginString
    (∀ slot ∈ l.header.fields,
      (slot.name = "BeginString" →
        find? e.reset.header slot.tag = some (.field slot (some (Bytes.ofString c.dictionary.beginString)))) ∧
      (slot.name = "MsgType" → find? e.reset.header slot.tag = some (.field slot (some type)))) ∧
    (∀ (ops : List Operation) (buffer : Bytes),
      (performAll Operation.perform ops (e.reset, buffer)).1 = (performAll Operation.perform ops (new, buffer)).1 ∧
      (performAll Operation.perform ops (e.reset, buffer)).2.2 =
        (performAll Operation.perform ops (new, buffer)).2.2) ∧
    ∀ (part : Part) (path : List (Tag × Nat)) (cells cells' : List Cell) (tag : Tag),
      at? (e.part part) path = .ok (some cells) → nextEntry cells tag = .ok cells' →
        ∃ g entry inner, group cells' tag = .ok g ∧ g.live.getLast? = some entry ∧
          (l.part part).descend? (path.map Prod.fst ++ [tag]) = some inner ∧
          ∀ (ops : List (List (Tag × Nat) × Action)) (buffer : Bytes),
            (performAll performIn ops (entry, buffer)).1 =
              (performAll performIn ops (stock capacity inner.members, buffer)).1 ∧
            (performAll performIn ops (entry, buffer)).2.2 =
              (performAll performIn ops (stock capacity inner.members, buffer)).2.2 := by
  intro new
  have hused : Used new e := by
    have hrun := Used.performAll history before (.new : Used new new)
    rwa [he] at hrun
  have hsuits : new.Suits e := hused.suits (suits_stocked capacity l c.dictionary.beginString)
  have htype : l.typeBytes = type := (require_eq_ok_iff.1 hl).2
  have hversion : e.beginString = c.dictionary.beginString := hsuits.beginString
  refine ⟨fun slot hslot => ?_, fun ops buffer => ?_, fun part path cells cells' tag hat hnext => ?_⟩
  · rw [← htype, ← hversion]
    exact header_reset hc (mem_of_require hl) hsuits.layout (hsuits.fit .header) hslot
  · have hsame := same_performAll Operation.respects ops buffer hused.alike_reset
    exact ⟨hsame.result, hsame.buffer⟩
  · obtain ⟨outer, houter, hfit⟩ := (hsuits.fit part).descend hat
    obtain ⟨g, hg, hput⟩ := exists_of_bind hnext
    cases hput
    obtain ⟨hmember, hgroup⟩ := hfit.group hg
    -- The entry is a cleared one or a new one : in both cases nothing in it is set.
    obtain ⟨entry, hlive, hentry, hbare⟩ := hgroup.exists_entry
    have halike : Alike g.body entry (stock capacity g.body) :=
      ⟨hentry, fit_stock capacity g.body, hbare.trans (bares_stock capacity g.body).symm⟩
    refine ⟨g.next, entry, ⟨g.slot.name, g.body⟩, group_next hg, ?_, Layout.descend?_concat houter hmember,
      fun ops buffer => ?_⟩
    · rw [hlive, List.getLast?_concat]
    · have hsame := same_performAll respects_performIn ops buffer halike
      exact ⟨hsame.result, hsame.buffer⟩

/-- An encoder with which a quote of one leg has been written, with another name in it, after one change was refused,
and whose legs have then been removed. -/
theorem perform_reset_quote :
    let new := stocked 1 Sample.layout Sample.codecs.dictionary.beginString
    let buffer : Bytes := List.replicate 100 0
    let named : List Operation := [.inside .body [] (.change (.nextEntry 555)),
      .inside .body [(555, 0)] (.change (.text 600 "A")), .inside .body [(555, 0)] (.change (.int 600 1)), .encode 7]
    let history := named ++ [.inside .header [] (.change (.text 8 "FIXT.1.1")),
      .inside .body [(555, 0)] (.change (.nextEntry 604)), .encode 50, .encode 7,
      .inside .body [] (.change (.clearGroup 555))]
    let alone : List (List (Tag × Nat) × Action) := [([], .text), ([], .has 600), ([], .encode 0)]
    ofDocument Sample.document true = .ok Sample.codecs ∧
      Sample.codecs.require (Bytes.ofString "S") = .ok Sample.layout ∧
      ∃ results e buffer', performAll Operation.perform history (new, buffer) = (results, (e, buffer')) ∧
        find? e.reset.header 8 = some (.field ⟨Sample.field 8 "BeginString", true⟩
          (some (Bytes.ofString Sample.codecs.dictionary.beginString))) ∧
        find? e.reset.header 35 = some (.field ⟨Sample.field 35 "MsgType", true⟩ (some (Bytes.ofString "S"))) ∧
        (performAll Operation.perform named (e.reset, buffer)).1 =
          (performAll Operation.perform named (new, buffer)).1 ∧
        ∃ cells' g entry inner, nextEntry e.body 555 = .ok cells' ∧ group cells' 555 = .ok g ∧
          g.live.getLast? = some entry ∧ Sample.layout.body.descend? [555] = some inner ∧
          (performAll performIn alone (entry, buffer)).1 =
            (performAll performIn alone (stock 1 inner.members, buffer)).1 := by
  intro new buffer named history alone
  have hlegs : (nextEntry (performAll Operation.perform history (new, buffer)).2.1.body 555).isOk = true := by
    decide +kernel
  obtain ⟨⟨results, e, buffer'⟩, he⟩ : ∃ o, performAll Operation.perform history (new, buffer) = o := ⟨_, rfl⟩
  rw [he] at hlegs
  obtain ⟨cells', hnext⟩ := exists_of_isOk hlegs
  obtain ⟨hheld, hsame, hentry⟩ := perform_reset Sample.ofDocument_document Sample.require_layout 1 he
  obtain ⟨g, entry, inner, hg, hlast, hinner, hops⟩ := hentry .body [] e.body cells' 555 rfl hnext
  have hversion : (⟨Sample.field 8 "BeginString", true⟩ : FieldSlot) ∈ Sample.layout.header.fields := by decide +kernel
  have htype : (⟨Sample.field 35 "MsgType", true⟩ : FieldSlot) ∈ Sample.layout.header.fields := by decide +kernel
  exact ⟨Sample.ofDocument_document, Sample.require_layout, results, e, buffer', he, (hheld _ hversion).1 rfl,
    (hheld _ htype).2 rfl, (hsame named buffer).1, cells', g, entry, inner, hnext, hg, hlast, hinner, (hops alone buffer).1⟩

end Codecs

end FixWire
