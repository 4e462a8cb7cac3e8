import FixWire.Proofs.Codecs.Registry

/-!
# Dispatch on the message type

A message finds its decoder by the type that it tells, in a registry or by asking for a new decoder. Both look the type
up by its key, but only the latter compares the type itself. So the two ways agree on a message exactly if no other type
than the one it tells has the same key (`Codecs.dispatchAgrees_iff`), and a type that differs from one of the codecs
after the eighth byte, or in NUL bytes at the end, is accepted by the registry alone.
-/

namespace FixWire

/-- Both ways to a decoder lead to one, or neither does, and then both decoders are for the type that the message
tells. -/
structure DispatchAgrees (c : Codecs) (r : Registry) (message : Bytes) : Prop where
  succeeds : (∃ r' d, r.decode message = some (r', d)) ↔ ∃ d, c.decoderFor message = .ok d
  type {r' : Registry} {d d' : MessageDecoder} : r.decode message = some (r', d) → c.decoderFor message = .ok d' →
    d.layout.type = d'.layout.type ∧ Pair.valueOf? c.typeTag message = some d.layout.typeBytes

namespace Codecs

theorem decoderFor_eq_ok_iff {c : Codecs} {message : Bytes} {d : MessageDecoder} :
    c.decoderFor message = .ok d ↔
      ∃ type l, Pair.valueOf? c.typeTag message = some type ∧ c.require type = .ok l ∧ c.newDecoder l = d := by
  rw [decoderFor]
  cases Pair.valueOf? c.typeTag message with
  | none => simp
  | some type =>
    cases hl : c.require type with
    | error cause => simp [Except.map, hl]
    | ok l => simp [Except.map, hl]

variable {text : String} {validating : Bool} {c : Codecs} {r : Registry}

/-- A registry decodes a message whose type has the key of one of its types. -/
theorem exists_decode_iff (hr : Registry.Used c.registry r) {message : Bytes} :
    (∃ r' d, r.decode message = some (r', d)) ↔
      ∃ type l, Pair.valueOf? c.typeTag message = some type ∧
        (c.messages.find? fun m => m.key == MsgType.key type) = some l := by
  constructor
  · rintro ⟨r', d', h⟩
    obtain ⟨type, d, htype, hd, -, -⟩ := Registry.decode_eq_some_iff.1 h
    obtain ⟨l, hl, -⟩ := hr.exists_layout hd
    exact ⟨type, l, hr.typeTag ▸ htype, hl⟩
  · rintro ⟨type, l, htype, hl⟩
    obtain ⟨d, hd, -⟩ := hr.exists_decoder hl
    exact ⟨_, _, Registry.decode_eq_some_iff.2 ⟨type, d, hr.typeTag.symm ▸ htype, hd, rfl, rfl⟩⟩

/-- The decoder with which a registry decodes a message is for the message that has the key of its type. -/
theorem find?_layout_of_decode (hr : Registry.Used c.registry r) {r' : Registry} {message type : Bytes}
    {d : MessageDecoder} (h : r.decode message = some (r', d))
    (htype : Pair.valueOf? c.typeTag message = some type) :
    (c.messages.find? fun m => m.key == MsgType.key type) = some d.layout := by
  obtain ⟨type', d₀, htype', hd₀, rfl, -⟩ := Registry.decode_eq_some_iff.1 h
  obtain rfl : type' = type := Option.some.inj (htype'.symm.trans (hr.typeTag.symm ▸ htype))
  obtain ⟨l, hl, hu⟩ := hr.exists_layout hd₀
  rw [hl, Registry.layout_of_used (hu.decode message)]

/-- In codecs of a document, and for a registry in any state of use, both ways agree on a message if every message type
that has the key of the type it tells is that type, and only then. -/
theorem dispatchAgrees_iff (hc : ofDocument text validating = .ok c) (hr : Registry.Used c.registry r) (message : Bytes) :
    DispatchAgrees c r message ↔
      ∀ type, Pair.valueOf? c.typeTag message = some type →
        ∀ l ∈ c.messages, l.key = MsgType.key type → l.typeBytes = type := by
  constructor
  · intro h type htype l hl hkey
    have hfind := (find?_eq_some_iff hc).2 ⟨hl, hkey⟩
    obtain ⟨r', d, hd⟩ := (exists_decode_iff hr).2 ⟨type, l, htype, hfind⟩
    obtain ⟨d', hd'⟩ := h.succeeds.1 ⟨r', d, hd⟩
    obtain rfl : l = d.layout := Option.some.inj (hfind.symm.trans (find?_layout_of_decode hr hd htype))
    exact Option.some.inj ((h.type hd hd').2.symm.trans htype)
  · intro h
    have hsame {type : Bytes} {l : MessageLayout} (htype : Pair.valueOf? c.typeTag message = some type)
        (hfind : (c.messages.find? fun m => m.key == MsgType.key type) = some l) : l.typeBytes = type :=
      h type htype l ((find?_eq_some_iff hc).1 hfind).1 ((find?_eq_some_iff hc).1 hfind).2
    refine ⟨?_, fun {r' d d'} hd hd' => ?_⟩
    · rw [exists_decode_iff hr]
      constructor
      · rintro ⟨type, l, htype, hfind⟩
        exact ⟨_, decoderFor_eq_ok_iff.2 ⟨type, l, htype, require_eq_ok_iff.2 ⟨hfind, hsame htype hfind⟩, rfl⟩⟩
      · rintro ⟨d, hd⟩
        obtain ⟨type, l, htype, hl, -⟩ := decoderFor_eq_ok_iff.1 hd
        exact ⟨type, l, htype, (require_eq_ok_iff.1 hl).1⟩
    · obtain ⟨type, l, htype, hl, rfl⟩ := decoderFor_eq_ok_iff.1 hd'
      have hfind := find?_layout_of_decode hr hd htype
      obtain rfl : d.layout = l := Option.some.inj (hfind.symm.trans (require_eq_ok_iff.1 hl).1)
      exact ⟨rfl, by rw [htype, hsame htype hfind]⟩

/-- A registry that has decoded a message agrees on it the next time. -/
theorem dispatchAgrees_window :
    ∃ r, ofDocument Sample.document true = .ok Sample.codecs ∧ Registry.Used Sample.codecs.registry r ∧
      (∃ d, Sample.codecs.registry.decode Sample.window = some (r, d)) ∧
      DispatchAgrees Sample.codecs r Sample.window := by
  have htype : Pair.valueOf? Sample.codecs.typeTag Sample.window = some (Bytes.ofString "S") := by decide +kernel
  have hfind : (Sample.codecs.messages.find? fun m => m.key == MsgType.key (Bytes.ofString "S")) = some Sample.layout :=
    (require_eq_ok_iff.1 Sample.require_layout).1
  obtain ⟨r, d, hd⟩ := (exists_decode_iff .new).2 ⟨_, _, htype, hfind⟩
  have hused : Registry.Used Sample.codecs.registry r := .decode .new hd
  refine ⟨r, Sample.ofDocument_document, hused, ⟨d, hd⟩, ?_⟩
  refine (dispatchAgrees_iff Sample.ofDocument_document hused Sample.window).2 fun type ht l hl hkey => ?_
  obtain rfl := Option.some.inj (htype.symm.trans ht)
  have hl' := (find?_eq_some_iff Sample.ofDocument_document).2 ⟨hl, hkey⟩
  obtain rfl := Option.some.inj (hfind.symm.trans hl')
  rfl

/-- A type with a NUL byte at the end has the key of the type without it : the registry decodes the message, although
it tells a type that is unknown. -/
theorem not_dispatchAgrees_nul :
    let message := Sample.bytes "8=FIX.4.4|9=5|35=S\x00|55=E|10=000|"
    ofDocument Sample.document true = .ok Sample.codecs ∧
      Pair.valueOf? Sample.codecs.typeTag message = some (Bytes.ofString "S\x00") ∧
      (∃ r d, Sample.codecs.registry.decode message = some (r, d)) ∧
      (¬∃ d, Sample.codecs.decoderFor message = .ok d) ∧
      ¬DispatchAgrees Sample.codecs Sample.codecs.registry message := by
  intro message
  have htype : Pair.valueOf? Sample.codecs.typeTag message = some (Bytes.ofString "S\x00") := by decide +kernel
  have hkey : MsgType.key (Bytes.ofString "S\x00") = MsgType.key (Bytes.ofString "S") := by decide +kernel
  have hfind : (Sample.codecs.messages.find? fun m => m.key == MsgType.key (Bytes.ofString "S\x00")) =
      some Sample.layout := by
    rw [hkey]
    exact (require_eq_ok_iff.1 Sample.require_layout).1
  have hdecode := (exists_decode_iff (r := Sample.codecs.registry) .new).2 ⟨_, _, htype, hfind⟩
  have hnone : ¬∃ d, Sample.codecs.decoderFor message = .ok d := by
    rintro ⟨d, hd⟩
    obtain ⟨type, l, ht, hl, -⟩ := decoderFor_eq_ok_iff.1 hd
    obtain rfl := Option.some.inj (htype.symm.trans ht)
    obtain ⟨hl, hsame⟩ := require_eq_ok_iff.1 hl
    obtain rfl := Option.some.inj (hfind.symm.trans hl)
    exact absurd hsame (by decide +kernel)
  exact ⟨Sample.ofDocument_document, htype, hdecode, hnone, fun h => hnone (h.succeeds.1 hdecode)⟩

end Codecs

end FixWire
