import FixWire.Proofs.Decoder.Overlay
import FixWire.Proofs.Decoder.Reuse
import FixWire.Proofs.Decoder.Unclaimed

/-!
# Fields of the header

A pair with the tag of a header field goes to the header wherever it stands, unless an open group has the tag. For a
field whose tag no group has, the machine therefore gives the header the values of all such pairs up to where the
message ends, and the header holds the last of them (`Machine.Routed`, kept by `Machine.Routed.step` and
`Machine.Routed.exists_run`).

An accepted message has no member twice and no required member is missing. So the field, if it is required, has been
given exactly one value, which is that of the first pair of the window with its tag (`header_of_verdict`).
-/

namespace FixWire

open Decoder

/-! ## Values of a tag -/

/-- The values of the pairs with the tag, in order. -/
def Pair.valuesOf (tag : Tag) (pairs : List Pair) : List Bytes :=
  (pairs.filter fun p => p.tag == tag).map Pair.value

theorem Pair.valuesOf_cons (tag : Tag) (p : Pair) (pairs : List Pair) :
    valuesOf tag (p :: pairs) = (if p.tag = tag then [p.value] else []) ++ valuesOf tag pairs := by
  by_cases h : p.tag = tag
  · simp [valuesOf, h]
  · simp [valuesOf, h]

theorem Pair.valueOf?_eq_head? (tag : Tag) (bytes : Bytes) :
    valueOf? tag bytes = (valuesOf tag (all bytes)).head? := by
  rw [valueOf?, valuesOf, List.head?_map, List.head?_filter]

/-- The field is the member of the header with its tag, and no group of the message has the tag. -/
structure MessageLayout.HeadedBy (l : MessageLayout) (slot : FieldSlot) : Prop where
  member : memberOf? l.header.members slot.tag = some (.field slot)
  groups : ∀ part, ∀ g ∈ (l.part part).groups, mention slot.tag g.2 = false

/-- Pairs with the tag of a member of the header belong to the header. -/
theorem MessageLayout.owner?_of_memberOf? {l : MessageLayout} {tag : Tag} {m : Member}
    (h : memberOf? l.header.members tag = some m) : l.owner? tag = some .header := by
  have howns : owns (l.part .header).members tag = true := by
    rw [← isSome_memberOf?]
    exact Option.isSome_iff_exists.2 ⟨m, h⟩
  exact List.find?_cons_of_pos howns

theorem MessageLayout.HeadedBy.owner? {l : MessageLayout} {slot : FieldSlot} (h : l.HeadedBy slot) :
    l.owner? slot.tag = some .header :=
  owner?_of_memberOf? h.member

namespace Decoder

/-- The value that the event gives the field of the header with the tag. -/
def Event.headerValue? (tag : Tag) : Event → Option Bytes
  | .field (.part .header) slot value => if slot.tag = tag then some value else none
  | _ => none

/-- What the header holds for the field that has been given the values. -/
def held (slot : FieldSlot) (values : List Bytes) : Value :=
  (values.getLast?.map (Value.ofBytes slot.kind)).getD .absent

/-! ## Nodes by tag -/

theorem Node.tag_given (value : Bytes) (m : Member) : (Node.given value m).tag = m.tag := by
  cases m <;> rfl

theorem find?_place_of_ne {node : Node} {tag : Tag} (h : node.tag ≠ tag) : ∀ ns : List Node,
    (Node.place node ns).find? (fun n => n.tag == tag) = ns.find? fun n => n.tag == tag
  | [] => rfl
  | n :: rest => by
    rw [Node.place]
    split_ifs with hn
    · rw [List.find?_cons_of_neg (by simpa using h), List.find?_cons_of_neg (by simpa [hn] using h)]
    · rw [List.find?_cons, List.find?_cons, find?_place_of_ne h rest]

theorem find?_place {node : Node} {tag : Tag} (ht : node.tag = tag) : ∀ {ns : List Node},
    (ns.find? fun n => n.tag == tag).isSome → (Node.place node ns).find? (fun n => n.tag == tag) = some node
  | n :: rest, h => by
    rw [Node.place]
    split_ifs with hn
    · rw [List.find?_cons_of_pos (by simpa using ht)]
    · rw [List.find?_cons_of_neg (by simpa [ht] using hn)] at h ⊢
      exact find?_place ht h

/-! ## The invariant -/

/-- So far every pair with the tag of the field has gone to the header : no open group has the tag, the values are those
that the header has been given, and it holds the last of them. -/
structure Machine.Routed (slot : FieldSlot) (values : List Bytes) (s : Machine) : Prop where
  frames : ∀ f ∈ s.frames, f.slot.tag ≠ slot.tag ∧ mention slot.tag f.body = false
  given : s.events.filterMap (Event.headerValue? slot.tag) = values
  header : (s.parts .header).find? (fun n => n.tag == slot.tag) = some (.field slot (held slot values))

namespace Machine

variable {l : MessageLayout} {slot : FieldSlot} {values : List Bytes} {s : Machine} {p : Pair}

theorem routed_start (hl : l.HeadedBy slot) : (start l).Routed slot [] where
  frames := nofun
  given := rfl
  header := by
    have htag (m : Member) : (Node.blank m).tag = m.tag := by cases m <;> rfl
    have hmember := hl.member
    rw [memberOf?] at hmember
    simp only [start, List.find?_map, Function.comp_def, htag]
    exact congrArg (Option.map Node.blank) hmember

/-- A node of another tag is placed in a part. -/
theorem find?_placeInPart {node : Node} (h : node.tag ≠ slot.tag) (s : Machine) (part : Part) :
    ((s.placeInPart part node).parts .header).find? (fun n => n.tag == slot.tag) =
      (s.parts .header).find? fun n => n.tag == slot.tag := by
  simp only [placeInPart]
  split_ifs
  · exact find?_place_of_ne h _
  · rfl

/-- A group that is opened does not have the tag, if it is given a pair with another one and does not mention the
tag. -/
theorem routed_opened {tag : Tag} {m : Member} {value : Bytes} (hm : m.tag ≠ tag)
    (hbody : ∀ inner body, m = .group inner body → mention tag body = false) :
    ∀ f ∈ (Frame.opened? value m).toList, f.slot.tag ≠ tag ∧ mention tag f.body = false := by
  cases m with
  | field => exact nofun
  | group inner body => simpa [Frame.opened?] using ⟨hm, hbody inner body rfl⟩

namespace Routed

theorem closeInner (h : s.Routed slot values) : s.closeInner.Routed slot values := by
  have hframes := h.frames
  have hgiven {e : Event} (he : e.headerValue? slot.tag = none) :
      (s.events ++ [e]).filterMap (Event.headerValue? slot.tag) = values := by
    rw [List.filterMap_append, h.given, List.filterMap_cons, he, List.filterMap_nil, List.append_nil]
  unfold Machine.closeInner
  split
  · exact h
  · rename_i f outer hf
    rw [hf, List.forall_mem_cons] at hframes
    dsimp only
    split
    · have hnode : f.node.tag ≠ slot.tag := hframes.1.1
      exact ⟨nofun, hgiven rfl, (find?_placeInPart hnode s s.base).trans h.header⟩
    · refine ⟨?_, hgiven rfl, h.header⟩
      have houter := List.forall_mem_cons.1 hframes.2
      exact List.forall_mem_cons.2 ⟨by simpa using houter.1, houter.2⟩

theorem close : ∀ (n : Nat) {s : Machine}, s.Routed slot values → (s.close n).Routed slot values
  | 0, _, h => h
  | n + 1, _, h => close n h.closeInner

theorem closeAll (h : s.Routed slot values) : s.closeAll.Routed slot values :=
  close _ h

/-- An open group is given a pair, which has another tag. -/
theorem giveGroup (h : s.Routed slot values) (p : Pair) : (s.giveGroup p).Routed slot values := by
  have hframes := h.frames
  unfold Machine.giveGroup
  split
  · exact h
  · rename_i f outer hf
    rw [hf, List.forall_mem_cons] at hframes
    obtain ⟨⟨htag, hbody⟩, houter⟩ := hframes
    dsimp only
    split
    · exact h
    · rename_i m hm
      have hmem : m ∈ f.body := by
        rw [← Frame.body_advance f p.tag s.events.length]
        exact List.mem_of_find?_eq_some hm
      have hmentions : m.mentions slot.tag = false := by
        rw [Bool.eq_false_iff]
        intro hmentions
        rw [mention_of_mem hmentions hmem] at hbody
        cases hbody
      have hne : m.tag ≠ slot.tag := by
        intro heq
        rw [← heq, m.mentions_tag] at hmentions
        cases hmentions
      refine ⟨?_, ?_, h.header⟩
      · rw [List.forall_mem_append, List.forall_mem_cons]
        refine ⟨routed_opened hne fun inner body heq => ?_, by simpa using ⟨htag, hbody⟩, houter⟩
        rw [heq, Member.mentions, Bool.or_eq_false_iff] at hmentions
        exact hmentions.2
      · rw [List.filterMap_append, h.given]
        cases m <;> simp [Event.given, Event.headerValue?]

/-- A part is given a pair. The header is given its value if the pair has the tag. -/
theorem givePart (hl : l.HeadedBy slot) (h : s.Routed slot values) {part : Part} (ho : l.owner? p.tag = some part) :
    (s.givePart l part p).Routed slot (values ++ if p.tag = slot.tag then [p.value] else []) := by
  unfold Machine.givePart
  cases hm : memberOf? (l.part part).members p.tag with
  | none =>
    have howns : owns (l.part part).members p.tag = true :=
      List.find?_some (p := fun q => owns (l.part q).members p.tag) ho
    rw [← isSome_memberOf?, hm] at howns
    cases howns
  | some m =>
    have htag : m.tag = p.tag := by simpa using List.find?_some hm
    dsimp only
    by_cases hp : p.tag = slot.tag
    · obtain rfl : part = .header := by
        rw [hp, hl.owner?] at ho
        exact (Option.some.inj ho).symm
      obtain rfl : m = .field slot := by
        rw [hp] at hm
        exact Option.some.inj (hm.symm.trans hl.member)
      rw [if_pos hp]
      refine ⟨nofun, ?_, ?_⟩
      · rw [List.filterMap_append, h.given]
        simp [Event.given, Event.headerValue?]
      · have hheld : held slot (values ++ [p.value]) = Value.ofBytes slot.kind p.value := by
          simp [held]
        have hplace : ((Node.given p.value (.field slot)).place (s.parts .header)).find? (fun n => n.tag == slot.tag) =
            some (.given p.value (.field slot)) :=
          find?_place (Node.tag_given p.value (.field slot)) (Option.isSome_iff_exists.2 ⟨_, h.header⟩)
        rw [hheld]
        exact hplace
    · have hne : m.tag ≠ slot.tag := htag ▸ hp
      rw [if_neg hp, List.append_nil]
      refine ⟨routed_opened hne fun inner body heq => ?_, ?_, ?_⟩
      · exact hl.groups part (inner, body) (List.mem_filterMap.2 ⟨m, List.mem_of_find?_eq_some hm, by rw [heq]; rfl⟩)
      · rw [List.filterMap_append, h.given]
        cases m <;> cases part <;> simp_all [Event.given, Event.headerValue?, Member.tag]
      · exact (find?_placeInPart (by rwa [Node.tag_given]) s part).trans h.header

/-- A pair that belongs to the message is read. -/
theorem step (hl : l.HeadedBy slot) (h : s.Routed slot values) {s' : Machine} (hs : s.step l p = some s') :
    s'.Routed slot (values ++ if p.tag = slot.tag then [p.value] else []) := by
  have hadvance {s : Machine} {values : List Bytes} (h : s.Routed slot values) :
      Routed slot values { s with consumed := s.consumed + p.width } := ⟨h.frames, h.given, h.header⟩
  unfold Machine.step at hs
  dsimp only at hs
  cases hd : s.ownerDepth? p.tag with
  | some depth =>
    -- The open group has the tag of the pair, so that is another one.
    have hne : p.tag ≠ slot.tag := by
      intro heq
      obtain ⟨hlt, howns, -⟩ := List.findIdx?_eq_some_iff_getElem.1 hd
      have hbody := (h.frames _ (List.getElem_mem hlt)).2
      rw [← heq, mention_of_owns howns] at hbody
      cases hbody
    rw [hd] at hs
    rw [if_neg hne, List.append_nil]
    cases hs
    exact hadvance ((h.close depth).giveGroup p)
  | none =>
    rw [hd] at hs
    cases ho : l.owner? p.tag with
    | some part =>
      simp only [ho] at hs
      split_ifs at hs
      cases hs
      exact hadvance (h.closeAll.givePart hl ho)
    | none =>
      have hne : p.tag ≠ slot.tag := by
        intro heq
        rw [heq, hl.owner?] at ho
        cases ho
      simp only [ho] at hs
      split_ifs at hs
      cases hs
      rw [if_neg hne, List.append_nil]
      refine hadvance ⟨h.frames, ?_, h.header⟩
      rw [leaveOut, List.filterMap_append, h.given]
      simp [Event.headerValue?]

/-- All pairs are read up to where the message ends. -/
theorem exists_run (hl : l.HeadedBy slot) :
    ∀ (pairs : List Pair) {s : Machine} {values : List Bytes}, s.Routed slot values →
    ∃ n, (s.run l pairs).Routed slot (values ++ Pair.valuesOf slot.tag (pairs.take n))
  | [], _, values, h => ⟨0, (List.append_nil values).symm ▸ h.closeAll⟩
  | p :: rest, s, values, h => by
    rw [Machine.run]
    split
    · rename_i s' hs
      obtain ⟨n, hn⟩ := exists_run hl rest (h.step hl hs)
      exact ⟨n + 1, by rwa [List.take_succ_cons, Pair.valuesOf_cons, ← List.append_assoc]⟩
    · exact ⟨0, (List.append_nil values).symm ▸ h.closeAll⟩

end Routed

end Machine

/-! ## Accepted messages -/

/-- If no member is there twice, no member of an aggregate is claimed by two events. -/
theorem nodup_claims : ∀ {events before : List Event}, firstOf repeatedTag before events = none →
    (events.filterMap Event.claim?).Nodup ∧
      ∀ owner tag, (owner, tag) ∈ events.filterMap Event.claim? → ¬Claimed before owner tag
  | [], _, _ => ⟨List.nodup_nil, nofun⟩
  | e :: rest, before, h => by
    rw [firstOf, Option.or_eq_none_iff] at h
    obtain ⟨hnodup, hrest⟩ := nodup_claims h.2
    have hrepeated := h.1
    rw [repeatedTag] at hrepeated
    rw [List.filterMap_cons]
    cases he : e.claim? with
    | none =>
      refine ⟨hnodup, fun owner tag hmem hclaimed => hrest owner tag hmem (claimed_concat.2 (.inl hclaimed))⟩
    | some claim =>
      obtain ⟨owner, tag⟩ := claim
      simp only [he] at hrepeated
      refine ⟨List.nodup_cons.2 ⟨fun hmem => hrest owner tag hmem (claimed_concat.2 (.inr he)), hnodup⟩, ?_⟩
      intro owner' tag' hmem hclaimed
      rcases List.mem_cons.1 hmem with heq | hmem
      · obtain ⟨rfl, rfl⟩ := Prod.mk.inj heq
        rw [if_pos hclaimed] at hrepeated
        cases hrepeated
      · exact hrest owner' tag' hmem (claimed_concat.2 (.inl hclaimed))

/-- The values of a field of the header are as many as the events that claim it, or fewer. -/
theorem length_headerValues_le (tag : Tag) : ∀ events : List Event,
    (events.filterMap (Event.headerValue? tag)).length ≤
      (events.filterMap Event.claim?).count (Instance.part .header, tag)
  | [] => Nat.le_refl _
  | e :: rest => by
    have ih := length_headerValues_le tag rest
    rw [List.filterMap_cons, List.filterMap_cons]
    cases hv : e.headerValue? tag with
    | none =>
      refine Nat.le_trans ih ?_
      cases e.claim? with
      | none => exact Nat.le_refl _
      | some claim => exact List.count_le_count_cons
    | some value =>
      have hclaim : e.claim? = some (.part .header, tag) := by
        unfold Event.headerValue? at hv
        split at hv
        · split_ifs at hv with htag
          rw [Event.claim?, htag]
        · cases hv
      rw [hclaim]
      dsimp only
      rw [List.count_cons_self, List.length_cons]
      exact Nat.succ_le_succ ih

/-- No required member of a part is missing. -/
theorem ne_absent_of_unmet {slot : FieldSlot} {value : Value} (hslot : slot.required = true) : ∀ {ns : List Node},
    unmet ns = [] → Node.field slot value ∈ ns → value ≠ .absent
  | n :: rest, h, hmem => by
    rw [unmet, List.append_eq_nil_iff] at h
    rcases List.mem_cons.1 hmem with rfl | hmem
    · rintro rfl
      simp [Node.unmet, hslot] at h
    · exact ne_absent_of_unmet hslot h.2 hmem

/-- In a message that is accepted, a required field of the header whose tag no group has holds the value of the first
pair of the window with its tag, wherever in the window that stands. -/
theorem header_of_verdict {c : Codecs} {l : MessageLayout} {slot : FieldSlot} {window : Bytes} (hl : l.HeadedBy slot)
    (hrequired : slot.required = true) (hverdict : verdict c (flatly l window) = none) :
    ∃ value, Pair.valueOf? slot.tag window = some value ∧
      ((flatly l window).parts .header).find? (fun n => n.tag == slot.tag) =
        some (.field slot (Value.ofBytes slot.kind value)) := by
  obtain ⟨n, hrouted⟩ := Machine.Routed.exists_run hl (Pair.all window) (Machine.routed_start hl)
  rw [← flatly, List.nil_append] at hrouted
  simp only [verdict, findSome?_id_cons, List.findSome?_nil, Option.or_none, Option.or_eq_none_iff] at hverdict
  obtain ⟨-, -, -, -, hrepeated, -, hmissing⟩ := hverdict
  -- No value twice, and one at least.
  have hle : (Pair.valuesOf slot.tag ((Pair.all window).take n)).length ≤ 1 := by
    rw [← hrouted.given]
    exact Nat.le_trans (length_headerValues_le _ _) (List.nodup_iff_count_le_one.1 (nodup_claims hrepeated).1 _)
  have hpresent : held slot (Pair.valuesOf slot.tag ((Pair.all window).take n)) ≠ .absent := by
    rw [missing, Option.map_eq_none_iff, List.head?_eq_none_iff, List.append_eq_nil_iff,
      List.append_eq_nil_iff] at hmissing
    exact ne_absent_of_unmet hrequired hmissing.1.1 (List.mem_of_find?_eq_some hrouted.header)
  obtain ⟨value, hvalue⟩ : ∃ value, Pair.valuesOf slot.tag ((Pair.all window).take n) = [value] := by
    cases hvalues : Pair.valuesOf slot.tag ((Pair.all window).take n) with
    | nil => exact absurd (by rw [hvalues]; rfl) hpresent
    | cons value rest =>
      rw [hvalues, List.length_cons] at hle
      exact ⟨value, by rw [List.eq_nil_of_length_eq_zero (Nat.le_zero.1 (Nat.le_of_succ_le_succ hle))]⟩
  refine ⟨value, ?_, ?_⟩
  · have hsplit : Pair.valuesOf slot.tag (Pair.all window) =
        [value] ++ Pair.valuesOf slot.tag ((Pair.all window).drop n) := by
      rw [← hvalue, Pair.valuesOf, Pair.valuesOf, Pair.valuesOf, ← List.map_append, ← List.filter_append,
        List.take_append_drop]
    rw [Pair.valueOf?_eq_head?, hsplit]
    rfl
  · rw [hrouted.header, hvalue]
    rfl

end Decoder

end FixWire
