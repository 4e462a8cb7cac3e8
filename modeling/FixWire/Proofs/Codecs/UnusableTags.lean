import FixWire.Proofs.Decoder.HeaderField
import FixWire.Proofs.Decoder.Unusable

/-!
# Unusable tags in the codecs of a document

Tag 0 stands for every text that is no number of 32 bits, but a document may also declare a field with the number 0. A
decoder ignores all pairs without a usable tag exactly if its message has no field and no group with that number, at
any depth, and, if it judges messages, if the dictionary has no field with that number (`Codecs.ignoresUnusable_iff`).
Otherwise a pair with the text `abc` as its tag is stored as the field with the number 0, and the message is accepted
(`Codecs.not_ignoresUnusable_zero`).

That nothing less will do is seen on two windows. One has a single pair, with no text for its tag. In the other the
fields with which a message starts in order stand before that pair, so that the checks come to the tag.
-/

namespace FixWire

open Decoder

/-! ## Two windows -/

namespace Pair

/-- A pair with neither a tag nor a value. -/
def bare : Pair :=
  ⟨[], [], false⟩

/-- Pairs with the tags of the fields, and with empty values. -/
def headed (slots : List FieldSlot) : List Pair :=
  slots.map fun slot => written slot.tag []

theorem unusable_bare : bare.Unusable :=
  .inl rfl

theorem all_flatMap_bytes_append {ps : List Pair} (h : ∀ p ∈ ps, p.Complete) (rest : Bytes) :
    all (ps.flatMap bytes ++ rest) = ps ++ all rest := by
  induction ps with
  | nil => rfl
  | cons p ps ih =>
    obtain ⟨hp, hps⟩ := List.forall_mem_cons.1 h
    rw [List.flatMap_cons, List.append_assoc, hp.all_append, ih hps, List.cons_append]

/-- The pairs of a window that ends with a pair without a tag. -/
theorem all_headed (slots : List FieldSlot) :
    all ((headed slots).flatMap bytes ++ [equalsSign]) = headed slots ++ [bare] := by
  have hcomplete : ∀ p ∈ headed slots, p.Complete := by
    intro p hp
    obtain ⟨slot, -, rfl⟩ := List.mem_map.1 hp
    exact ⟨equalsSign_notMem_digits _, List.not_mem_nil, rfl⟩
  have hbare : all [equalsSign] = [bare] := by
    have hread : read? [equalsSign] = some (bare, []) := rfl
    rw [all_of_read?_eq_some hread, all_of_read?_eq_none rfl]
  rw [all_flatMap_bytes_append hcomplete, hbare]

end Pair

namespace Decoder

/-- What the machine notes down for such pairs. -/
def Event.headed (slots : List FieldSlot) : List Event :=
  slots.map fun slot => .field (.part .header) slot []

/-! ## Checks that look at one event -/

/-- A check that does not look at the events before finds what it finds first. -/
theorem firstOf_eq_findSome? {α : Type} {check : List Event → Event → Option α}
    (h : ∀ before e, check before e = check [] e) : ∀ before events : List Event,
    firstOf check before events = events.findSome? (check [])
  | _, [] => rfl
  | before, e :: rest => by
    rw [firstOf, firstOf_eq_findSome? h, List.findSome?_cons, h before e]
    cases check [] e <;> rfl

/-- The fields with which a message starts are in order, whatever follows them. -/
theorem misplaced_headed (fields : List FieldSlot) (tag : Tag) :
    misplaced (fields.map FieldSlot.tag)
      (Event.headed (fields.take 3) ++ [.unclaimed tag false]) = none := by
  have houter : (Event.headed (fields.take 3) ++ [Event.unclaimed tag false]).filterMap Event.outerTag? =
      (fields.map FieldSlot.tag).take 3 ++ [tag] := by
    rw [Event.headed, List.filterMap_append, List.filterMap_map, ← List.map_take, ← List.filterMap_eq_map]
    rfl
  rw [misplaced, houter, List.findSome?_eq_none_iff]
  intro i hi
  cases hexpected : (fields.map FieldSlot.tag)[i]? with
  | none => split <;> simp_all
  | some expected =>
    have hlt : i < ((fields.map FieldSlot.tag).take 3).length := by
      have := (List.getElem?_eq_some_iff.1 hexpected).1
      have := List.mem_range.1 hi
      rw [List.length_take]
      omega
    rw [List.getElem?_append_left hlt, List.getElem?_take_of_lt (List.mem_range.1 hi), hexpected]
    simp

/-- A message that starts in order and goes on with a legal tag that it does not have is rejected for that tag. -/
theorem verdict_headed {c : Codecs} {s : Machine} {tag : Tag} (hlegal : tag ∈ c.legalTags)
    (hevents : s.events = Event.headed (c.header.fields.take 3) ++ [.unclaimed tag false]) :
    verdict c s = some (tag, .tagNotDefinedForThisMessageType) := by
  have hinvalid : firstOf (invalidTag c.legalTags) [] s.events = none := by
    rw [firstOf_eq_findSome? fun _ _ => rfl, hevents, Event.headed, List.findSome?_append, List.findSome?_map]
    simp [invalidTag, Function.comp_def, hlegal, List.findSome?_eq_none_iff]
  have hundefined : firstOf (undefinedTag c.legalTags) [] s.events = some (tag, .tagNotDefinedForThisMessageType) := by
    have hnone : (Event.headed (c.header.fields.take 3)).findSome? (undefinedTag c.legalTags []) = none := by
      rw [Event.headed, List.findSome?_map]
      exact List.findSome?_eq_none_iff.2 fun _ _ => rfl
    rw [firstOf_eq_findSome? fun _ _ => rfl, hevents, List.findSome?_append, hnone]
    simp [undefinedTag, hlegal]
  simp only [verdict, findSome?_id_cons]
  rw [hevents, misplaced_headed, ← hevents, Option.none_or]
  exact (congrArg (Option.or · _) hinvalid).trans (congrArg (Option.or · _) hundefined)

/-! ## Reading them -/

namespace Machine

variable {l : MessageLayout}

/-- The fields of the header are read one after the other, and the message goes on. -/
theorem run_headed : ∀ {slots : List FieldSlot} {s : Machine},
    (∀ slot ∈ slots, memberOf? l.header.members slot.tag = some (.field slot) ∧ slot.tag < tagLimit) →
    s.frames = [] → s.summed = false →
    ∃ s' : Machine, (∀ ps, s.run l (Pair.headed slots ++ ps) = s'.run l ps) ∧ s'.frames = [] ∧ s'.summed = false ∧
      s'.consumed = s.consumed + Pair.widths (Pair.headed slots) ∧
      s'.events = s.events ++ Event.headed slots
  | [], s, _, hframes, hsummed => ⟨s, fun _ => rfl, hframes, hsummed, rfl, (List.append_nil _).symm⟩
  | slot :: slots, s, hslots, hframes, hsummed => by
    obtain ⟨⟨hmember, htag⟩, hslots⟩ := List.forall_mem_cons.1 hslots
    have hdepth : s.ownerDepth? slot.tag = none := by
      rw [Machine.ownerDepth?, hframes]
      rfl
    have hclosed : s.closeAll = s := by
      rw [closeAll, hframes]
      rfl
    obtain ⟨s₁, hstep, hframes₁, hsummed₁, hconsumed₁, hevents₁⟩ : ∃ s₁ : Machine,
        s.step l (.written slot.tag []) = some s₁ ∧ s₁.frames = [] ∧ s₁.summed = false ∧
          s₁.consumed = s.consumed + (Pair.written slot.tag []).width ∧
          s₁.events = s.events ++ Event.headed [slot] := by
      simp only [step, Pair.tag_written htag, hdepth, MessageLayout.owner?_of_memberOf? hmember, hsummed, hclosed,
        givePart, MessageLayout.part, hmember, Bool.false_and, Bool.false_eq_true, if_false]
      exact ⟨_, rfl, rfl, rfl, rfl, rfl⟩
    obtain ⟨s', hrun, hframes', hsummed', hconsumed', hevents'⟩ := run_headed hslots hframes₁ hsummed₁
    refine ⟨s', fun ps => ?_, hframes', hsummed', ?_, ?_⟩
    · rw [Pair.headed, List.map_cons, List.cons_append, Machine.run, hstep]
      exact hrun ps
    · rw [hconsumed', hconsumed₁, Nat.add_assoc]
      rfl
    · rw [hevents', hevents₁, List.append_assoc]
      rfl

/-- A pair whose tag the message does not have is left out where no group is open. -/
theorem run_unclaimed {s : Machine} {p : Pair} (hframes : s.frames = []) (hsummed : s.summed = false)
    (htag : l.mentions p.tag = false) :
    s.run l [p] = { s with consumed := s.consumed + p.width, events := s.events ++ [.unclaimed p.tag false] } := by
  have hdepth : s.ownerDepth? p.tag = none := by
    rw [Machine.ownerDepth?, hframes]
    rfl
  have howner : l.owner? p.tag = none := by
    rw [MessageLayout.owner?, List.find?_eq_none]
    intro part _ howns
    rw [MessageLayout.mentions_of_mention (mention_of_owns howns)] at htag
    cases htag
  have hstep : s.step l p =
      some { s with consumed := s.consumed + p.width, events := s.events ++ [.unclaimed p.tag false] } := by
    simp only [step, hdepth, howner, hsummed, Bool.false_and, Bool.false_eq_true, if_false, leaveOut, hframes]
    rfl
  rw [Machine.run, hstep]
  dsimp only
  rw [Machine.run, closeAll, hframes]
  rfl

end Machine

end Decoder

/-! ## Codecs -/

namespace Codecs

variable {text : String} {validating : Bool} {c : Codecs} {l : MessageLayout}

/-- Every decoder of the codecs, new or used, and with any number of spare repetitions, ignores all pairs without a
usable tag that it comes to. -/
def IgnoresUnusable (c : Codecs) : Prop :=
  ∀ l ∈ c.messages, ∀ capacity d, MessageDecoder.Used (c.stockedDecoder capacity l) d →
    ∀ window before p after, d.Reads window before p after → p.Unusable → d.Ignores window before p

/-- A new decoder is one of them. -/
theorem IgnoresUnusable.new (h : c.IgnoresUnusable) (hl : l ∈ c.messages) {window : Bytes} {before after : List Pair}
    {p : Pair} (hr : (c.newDecoder l).Reads window before p after) (hp : p.Unusable) :
    (c.newDecoder l).Ignores window before p := by
  have hused : MessageDecoder.Used (c.stockedDecoder 0 l) (c.newDecoder l) := by
    rw [stockedDecoder_zero]
    exact .new
  exact h l hl 0 _ hused window before p after hr hp

/-- The first pair of a window is always read. -/
theorem reads_first (d : MessageDecoder) {window : Bytes} {p : Pair} {after : List Pair}
    (h : Pair.all window = p :: after) : d.Reads window [] p after := by
  refine ⟨h, ?_⟩
  have hstart : (Progress.start d.parts.nextCycle (.empty d.log.enabled)).summed = false := rfl
  obtain ⟨next, hnext⟩ := Progress.exists_step_of_summed d.legal hstart p
  obtain ⟨n, hlater⟩ := Progress.later_run after next
  rw [MessageDecoder.decode_eq_run, h, Progress.run_of_step hnext]
  rw [hlater.consumed, (Progress.later_step hnext).consumed, Pair.widths, Pair.width]
  omega

/-- A message whose decoders ignore all pairs without a usable tag does not have tag 0. -/
theorem IgnoresUnusable.mentions_zero (h : c.IgnoresUnusable) (hl : l ∈ c.messages) : l.mentions 0 = false :=
  (h.new hl (reads_first _ (Pair.all_headed [])) Pair.unusable_bare).unclaimed

/-- The pair without a tag is read after the fields with which a message starts. -/
theorem events_headed (hc : ofDocument text validating = .ok c) (hl : l ∈ c.messages) (hzero : l.mentions 0 = false) :
    let slots := c.header.fields.take 3
    let window := (Pair.headed slots).flatMap Pair.bytes ++ [equalsSign]
    (c.newDecoder l).Reads window (Pair.headed slots) .bare [] ∧
      (flatly l window).events = Event.headed slots ++ [.unclaimed 0 false] := by
  intro slots window
  have hslots : ∀ slot ∈ slots, memberOf? l.header.members slot.tag = some (.field slot) ∧ slot.tag < tagLimit := by
    intro slot hslot
    have hslot := List.mem_of_mem_take hslot
    have hfield := mem_fields_of_mem_header hc hslot
    refine ⟨memberOf?_header hc hl hslot, ?_⟩
    obtain ⟨d, hd, -, -, rfl⟩ := ofDocument_eq_ok_iff.1 hc
    exact Dictionary.lt_tagLimit_of_compile hd hfield
  obtain ⟨s, hrun, hframes, hsummed, hconsumed, hevents⟩ := Machine.run_headed (s := .start l) hslots rfl rfl
  have hflat : flatly l window =
      { s with consumed := s.consumed + Pair.bare.width, events := s.events ++ [.unclaimed Pair.bare.tag false] } := by
    rw [flatly, Pair.all_headed, hrun, Machine.run_unclaimed hframes hsummed hzero]
  refine ⟨⟨Pair.all_headed slots, ?_⟩, ?_⟩
  · rw [(MessageDecoder.decode_new window).2, hflat, hconsumed]
    exact Nat.lt_succ_of_le (Nat.le_add_left _ _)
  · rw [hflat, hevents]
    rfl

/-- In codecs of a document, all decoders ignore all pairs without a usable tag exactly if no message has a field or a
group with the number 0, at any depth, and the dictionary has no field with this number if messages are judged. -/
theorem ignoresUnusable_iff (hc : ofDocument text validating = .ok c) :
    c.IgnoresUnusable ↔ ∀ l ∈ c.messages, l.mentions 0 = false ∧ (validating = true → 0 ∉ c.legalTags) := by
  have hvalidating : c.validating = validating := by
    obtain ⟨d, -, -, -, rfl⟩ := ofDocument_eq_ok_iff.1 hc
    rfl
  constructor
  · intro h l hl
    refine ⟨h.mentions_zero hl, fun hv hlegal => ?_⟩
    obtain ⟨hreads, hevents⟩ := events_headed hc hl (h.mentions_zero hl)
    have hreason := (h.new hl hreads Pair.unusable_bare).reason (hvalidating.trans hv)
    rw [MessageDecoder.outcome_decode_new (hvalidating.trans hv), verdict_headed hlegal hevents, Outcome.reason?,
      Option.map_some, Option.some.injEq] at hreason
    split_ifs at hreason
  · intro h l hl capacity d hd window before p after hr hp
    obtain ⟨hzero, hlegal⟩ := h l hl
    rw [← hp.tag_eq] at hzero hlegal
    exact MessageDecoder.ignores_of_mentions hd hr hzero fun hv => hlegal (hvalidating.symm.trans hv)

/-- A tag of 33 bits inside a group : the dictionary has no field with the number 0, and the message is rejected. -/
theorem ignoresUnusable_sample :
    let d := Sample.codecs.newDecoder Sample.layout
    let before := [Sample.pair "8" "FIX.4.4", Sample.pair "9" "5", Sample.pair "35" "S", Sample.pair "555" "1",
      Sample.pair "600" "A"]
    let after := [Sample.pair "602" "B", Sample.pair "55" "E", Sample.pair "10" "000"]
    let p := Sample.pair "4294967296" "x"
    let window := (before ++ p :: after).flatMap Pair.bytes
    ofDocument Sample.document true = .ok Sample.codecs ∧ Sample.codecs.IgnoresUnusable ∧
      d.Reads window before p after ∧ p.Unusable ∧ (d.decode window).1.validate.outcome.reason? = some .invalidTagNumber := by
  intro d before after p window
  have hignores : Sample.codecs.IgnoresUnusable := by
    refine (ignoresUnusable_iff Sample.ofDocument_document).2 fun l hl => ?_
    obtain rfl := List.mem_singleton.1 hl
    decide +kernel
  have hcomplete : ∀ q ∈ before ++ p :: after, q.Complete := by decide +kernel
  have hreads : d.Reads window before p after := by
    refine ⟨Pair.all_flatMap_bytes hcomplete, ?_⟩
    rw [MessageDecoder.decode_eq_run]
    decide +kernel
  have hp : p.Unusable := .inr (.inr (by decide +kernel))
  have hordered : (Log.misplaced? d.order (d.decode window).1.log.seen).isSome = false := by
    rw [MessageDecoder.decode_eq_run]
    decide +kernel
  have hreason := (hignores.new (l := Sample.layout) List.mem_cons_self hreads hp).reason rfl
  refine ⟨Sample.ofDocument_document, hignores, hreads, hp, hreason.trans ?_⟩
  rw [if_neg (Bool.eq_false_iff.1 hordered)]

end Codecs

/-! ## A field with the number 0 -/

namespace Sample

/-- A document with a field that has the number 0, in its message. -/
def zeroDocument : String :=
  "<fix major='4' minor='4'>
    <fields>
      <field number='0' name='Zero' type='STRING'/>
      <field number='8' name='BeginString' type='STRING'/>
      <field number='9' name='BodyLength' type='LENGTH'/>
      <field number='10' name='CheckSum' type='STRING'/>
      <field number='35' name='MsgType' type='STRING'/>
    </fields>
    <header>
      <field name='BeginString' required='Y'/>
      <field name='BodyLength' required='Y'/>
      <field name='MsgType' required='Y'/>
    </header>
    <trailer><field name='CheckSum' required='Y'/></trailer>
    <messages><message name='Quote' msgtype='S' msgcat='app'><field name='Zero'/></message></messages>
  </fix>"

/-- The dictionary of the document. -/
def zeroDictionary : Dictionary where
  major := 4
  minor := 4
  fields := [field 0 "Zero", field 8 "BeginString", length, field 10 "CheckSum", field 35 "MsgType"]
  groups := []
  components := []
  spliced := []
  messages := [⟨"Quote", "S", .app, [⟨false, .field (field 0 "Zero")⟩]⟩]
  header := [⟨true, .field (field 8 "BeginString")⟩, ⟨true, .field length⟩, ⟨true, .field (field 35 "MsgType")⟩]
  trailer := [⟨true, .field (field 10 "CheckSum")⟩]

/-- The codecs of the dictionary. -/
def zeroCodecs : Codecs :=
  ⟨zeroDictionary, zeroDictionary.messageLayouts, true⟩

/-- The layout of the message. -/
def zeroLayout : MessageLayout :=
  ⟨"Quote", "S", .app, zeroDictionary.layoutOf .header, zeroDictionary.layoutOf (.message 0),
    zeroDictionary.layoutOf .trailer⟩

set_option maxRecDepth 8000 in
theorem ofDocument_zeroDocument : Codecs.ofDocument zeroDocument true = .ok zeroCodecs := by
  have hcompile : Dictionary.compile zeroDocument = .ok zeroDictionary :=
    Dictionary.compile_ofList (by decide +kernel)
  exact Codecs.ofDocument_eq_ok_iff.2 ⟨zeroDictionary, hcompile, by decide +kernel, by decide +kernel, rfl⟩

end Sample

namespace Codecs

/-- A pair with the text `abc` as its tag is stored as the field with the number 0, and nothing is said against the
message. -/
theorem not_ignoresUnusable_zero :
    let d := Sample.zeroCodecs.newDecoder Sample.zeroLayout
    let before := [Sample.pair "8" "FIX.4.4", Sample.pair "9" "5", Sample.pair "35" "S"]
    let p := Sample.pair "abc" "x"
    let after := [Sample.pair "10" "000"]
    let window := (before ++ p :: after).flatMap Pair.bytes
    ofDocument Sample.zeroDocument true = .ok Sample.zeroCodecs ∧ d.Reads window before p after ∧ p.Unusable ∧
      ((d.decode window).1.part .body).getBytes 0 = .ok (Bytes.ofString "x") ∧
      (d.decode window).1.validate.outcome.isValid = true ∧ ¬Sample.zeroCodecs.IgnoresUnusable := by
  intro d before p after window
  have hcomplete : ∀ q ∈ before ++ p :: after, q.Complete := by decide +kernel
  have hreads : d.Reads window before p after := by
    refine ⟨Pair.all_flatMap_bytes hcomplete, ?_⟩
    rw [MessageDecoder.decode_eq_run]
    decide +kernel
  have hp : p.Unusable := .inr (.inl (by decide +kernel))
  have hvalue : ((d.decode window).1.part .body).getBytes 0 = .ok (Bytes.ofString "x") := by
    rw [MessageDecoder.decode_eq_run]
    decide +kernel
  have hvalid : (d.decode window).1.validate.outcome.isValid = true := by
    rw [MessageDecoder.decode_eq_run]
    decide +kernel
  refine ⟨Sample.ofDocument_zeroDocument, hreads, hp, hvalue, hvalid, fun hignores => ?_⟩
  have hmentions := (hignores.new (l := Sample.zeroLayout) List.mem_cons_self hreads hp).unclaimed
  exact absurd hmentions (by decide +kernel)

end Codecs

end FixWire
