import FixWire.Proofs.Decoder.Fresh
import FixWire.Proofs.Keys

/-!
# Registries in use

A registry has one decoder for each message of its codecs, in their order, whatever it is used for : each of them is
what has become of a new one (`Registry.Used.decoders`). So the decoder that is found for a message type is that of the
first message with the same key, and in codecs of a document there is no other message with that key
(`Codecs.find?_eq_some_iff`).
-/

namespace FixWire

/-! ## Messages by key -/

/-- Messages no two of which share a key with each other, or with an earlier one. -/
theorem nodup_keys {ms earlier : List MessageLayout} (h : keyClash? earlier ms = none) :
    (ms.map MessageLayout.key).Nodup ∧ ∀ m ∈ ms, ∀ m' ∈ earlier, m'.key ≠ m.key := by
  induction ms generalizing earlier with
  | nil => exact ⟨List.nodup_nil, nofun⟩
  | cons m rest ih =>
    rw [keyClash?] at h
    cases hm : earlier.find? fun m' => m'.key == m.key with
    | some m' => simp [hm] at h
    | none =>
      simp only [hm] at h
      obtain ⟨hnodup, hearlier⟩ := ih h
      rw [List.map_cons, List.nodup_cons, List.mem_map]
      refine ⟨⟨fun ⟨m', hm', hkey⟩ => hearlier m' hm' m List.mem_cons_self hkey.symm, hnodup⟩, ?_⟩
      rw [List.forall_mem_cons]
      refine ⟨fun m' hm' => ?_, fun m' hm' m'' hm'' => hearlier m' hm' m'' (List.mem_cons_of_mem _ hm'')⟩
      simpa using List.find?_eq_none.1 hm m' hm'

/-- In codecs of a document a message is found by its key. -/
theorem Codecs.find?_eq_some_iff {text : String} {validating : Bool} {c : Codecs}
    (hc : ofDocument text validating = .ok c) {key : Nat} {l : MessageLayout} :
    (c.messages.find? fun m => m.key == key) = some l ↔ l ∈ c.messages ∧ l.key = key := by
  obtain ⟨d, -, -, hclash, rfl⟩ := ofDocument_eq_ok_iff.1 hc
  exact find?_key_eq_some_iff (nodup_keys hclash).1

/-! ## Use -/

theorem MessageDecoder.Used.trans {d₀ d d' : MessageDecoder} (h : Used d₀ d) (h' : Used d d') : Used d₀ d' := by
  induction h' with
  | new => exact h
  | decode _ window ih => exact ih.decode window
  | validate _ ih => exact ih.validate
  | reset _ ih => exact ih.reset

namespace Registry

/-- The registries that become of a registry by using it, and by using the decoders that are found in it. -/
inductive Used (r₀ : Registry) : Registry → Prop
  | new : Used r₀ r₀
  | decode {r r' : Registry} {d : MessageDecoder} {window : Bytes} (h : Used r₀ r)
    (hd : r.decode window = some (r', d)) : Used r₀ r'
  | use {r : Registry} {d d' : MessageDecoder} {type : Bytes} (h : Used r₀ r) (hd : r.decoder? type = some d)
    (hu : MessageDecoder.Used d d') : Used r₀ (r.set type d')

theorem decoder?_eq_find? (r : Registry) (type : Bytes) :
    r.decoder? type = r.decoders.find? fun d => d.layout.key == MsgType.key type :=
  List.find?_eq_bind_findIdx?_getElem?.symm

@[simp] theorem typeTag_set (r : Registry) (type : Bytes) (d : MessageDecoder) :
    (r.set type d).typeTag = r.typeTag := by
  unfold set
  split <;> rfl

theorem decode_eq_some_iff {r r' : Registry} {window : Bytes} {d' : MessageDecoder} :
    r.decode window = some (r', d') ↔
      ∃ type d, Pair.valueOf? r.typeTag window = some type ∧ r.decoder? type = some d ∧
        (d.decode window).1 = d' ∧ r.set type d' = r' := by
  simp only [decode, Option.bind_eq_bind, Option.bind_eq_some_iff, Option.pure_def, Option.some.injEq, Prod.mk.injEq]
  constructor
  · rintro ⟨type, htype, d, hd, rfl, rfl⟩
    exact ⟨type, d, htype, hd, rfl, rfl⟩
  · rintro ⟨type, d, htype, hd, rfl, rfl⟩
    exact ⟨type, htype, d, hd, rfl, rfl⟩

/-- A decoder that is found may be replaced by one with the same property. -/
theorem forall₂_set {R : MessageLayout → MessageDecoder → Prop} {ms : List MessageLayout} {r : Registry} {type : Bytes}
    {d d' : MessageDecoder} (h : List.Forall₂ R ms r.decoders) (hd : r.decoder? type = some d)
    (hR : ∀ l, R l d → R l d') : List.Forall₂ R ms (r.set type d').decoders := by
  obtain ⟨index, hindex, hget⟩ := Option.bind_eq_some_iff.1 hd
  rw [set, hindex]
  obtain ⟨hlen, hall⟩ := List.forall₂_iff_get.1 h
  refine List.forall₂_iff_get.2 ⟨by simpa using hlen, fun i hi hi' => ?_⟩
  simp only [List.get_eq_getElem, List.getElem_set]
  split_ifs with hindex
  · subst hindex
    obtain ⟨hlt, rfl⟩ := List.getElem?_eq_some_iff.1 hget
    exact hR _ (hall _ hi hlt)
  · exact hall i hi (by simpa using hi')

variable {c : Codecs} {r : Registry}

theorem Used.typeTag (h : Used c.registry r) : r.typeTag = c.typeTag := by
  induction h with
  | new => rfl
  | decode _ hd ih =>
    obtain ⟨type, d, -, -, -, rfl⟩ := decode_eq_some_iff.1 hd
    exact (typeTag_set _ _ _).trans ih
  | use _ _ _ ih => exact (typeTag_set _ _ _).trans ih

/-- The decoders of a registry in use are those of the messages, in use. -/
theorem Used.decoders (h : Used c.registry r) :
    List.Forall₂ (fun l => MessageDecoder.Used (c.newDecoder l)) c.messages r.decoders := by
  induction h with
  | new => exact List.forall₂_map_right_iff.2 (List.forall₂_same.2 fun _ _ => .new)
  | @decode _ _ _ window _ hd ih =>
    obtain ⟨type, d, -, hfound, rfl, rfl⟩ := decode_eq_some_iff.1 hd
    exact forall₂_set ih hfound fun l hl => hl.decode window
  | use _ hd hu ih => exact forall₂_set ih hd fun l hl => hl.trans hu

/-- A decoder in use keeps its layout. -/
theorem layout_of_used {l : MessageLayout} {d : MessageDecoder} (h : MessageDecoder.Used (c.newDecoder l) d) :
    d.layout = l :=
  (h.suits (MessageDecoder.fit_make _ _ _ _)).layout

/-- The decoder that is found for a type is that of the first message with its key, in use. -/
theorem Used.decoder?_rel (h : Used c.registry r) (type : Bytes) :
    Option.Rel (fun l => MessageDecoder.Used (c.newDecoder l))
      (c.messages.find? fun m => m.key == MsgType.key type) (r.decoder? type) := by
  have hall := h.decoders
  rw [decoder?_eq_find?]
  generalize c.messages = ms, r.decoders = ds at hall ⊢
  induction hall with
  | nil => exact .none
  | @cons l d ms ds hd _ ih =>
    rw [List.find?_cons, List.find?_cons, layout_of_used hd]
    cases l.key == MsgType.key type with
    | true => exact .some hd
    | false => exact ih

theorem Used.exists_layout (h : Used c.registry r) {type : Bytes} {d : MessageDecoder} (hd : r.decoder? type = some d) :
    ∃ l, (c.messages.find? fun m => m.key == MsgType.key type) = some l ∧
      MessageDecoder.Used (c.newDecoder l) d := by
  have hrel := h.decoder?_rel type
  rw [hd] at hrel
  cases hl : c.messages.find? fun m => m.key == MsgType.key type with
  | none => rw [hl] at hrel; cases hrel
  | some l => rw [hl] at hrel; cases hrel with | some hu => exact ⟨l, rfl, hu⟩

theorem Used.exists_decoder (h : Used c.registry r) {type : Bytes} {l : MessageLayout}
    (hl : (c.messages.find? fun m => m.key == MsgType.key type) = some l) :
    ∃ d, r.decoder? type = some d ∧ MessageDecoder.Used (c.newDecoder l) d := by
  have hrel := h.decoder?_rel type
  rw [hl] at hrel
  cases hd : r.decoder? type with
  | none => rw [hd] at hrel; cases hrel
  | some d => rw [hd] at hrel; cases hrel with | some hu => exact ⟨d, rfl, hu⟩

end Registry

end FixWire
