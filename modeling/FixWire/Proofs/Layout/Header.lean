import FixWire.Proofs.Decoder.Unclaimed
import FixWire.Proofs.Dictionary.Declared
import FixWire.Proofs.Dictionary.Renumber
import FixWire.Proofs.Keys

/-!
# Fields of the header

A field of a layout is a field that the dictionary uses (`Dictionary.uses_of_mem_fields`), so in the codecs of a
document the fields of the header are among those of the dictionary, of which no two have a name in common. The name
of a field of the header gives its tag (`Codecs.field_eq_of_name`), and the tag gives the field in the header of every
message (`Codecs.memberOf?_header`).
-/

namespace FixWire

theorem Layout.mem_fields_iff {l : Layout} {slot : FieldSlot} : slot ∈ l.fields ↔
    Member.field slot ∈ l.members := by
  rw [Layout.fields, List.mem_filterMap]
  constructor
  · rintro ⟨m, hm, hfield⟩
    cases m with
    | field slot' => cases hfield; exact hm
    | group => cases hfield
  · exact fun h => ⟨_, h, rfl⟩

namespace Dictionary

variable {d : Dictionary} {h : Holder}

/-- A field of a layout is one that the dictionary uses. -/
theorem uses_of_mem_fields (ha : d.Acyclic) (hh : h.isAggregate = true) {slot : FieldSlot}
    (hslot : slot ∈ (d.layoutOf h).fields) : d.Uses slot.field := by
  have hmembers := members_layoutOf ha [] hh
  rw [relax_nil] at hmembers
  rw [Layout.mem_fields_iff, hmembers] at hslot
  obtain ⟨w, hw, hm⟩ := List.mem_filterMap.1 hslot
  rw [memberAt?] at hm
  cases hi : w.last.item with
  | field f =>
    obtain ⟨h', hlast⟩ := exists_last_mem (mem_firstWays hw).1
    simp only [hi, Option.some.injEq, Member.field.injEq] at hm
    exact .inl ⟨h', w.last, hlast, by rw [hi, ← hm]⟩
  | group index => simp [hi] at hm
  | component name => simp [hi] at hm

/-- The fields of a compiled dictionary have different names. -/
theorem nodup_names {text : String} (hc : compile text = .ok d) : (d.fields.map Field.name).Nodup := by
  obtain ⟨declared, hdeclared, -, rfl⟩ := exists_ofDocument hc
  have hfields : (ofDeclarations declared).normalize.fields = declared.fields := fields_repeat_splice _ _
  exact hfields ▸ (Declarations.distinct_of_ofDocument hdeclared).names

end Dictionary

namespace Codecs

open Decoder

variable {text : String} {validating : Bool} {c : Codecs}

/-- A field of the header is a field of the dictionary. -/
theorem mem_fields_of_mem_header (hc : ofDocument text validating = .ok c) {slot : FieldSlot}
    (h : slot ∈ c.header.fields) : slot.field ∈ c.dictionary.fields := by
  obtain ⟨d, hd, hfault, -, rfl⟩ := ofDocument_eq_ok_iff.1 hc
  obtain ⟨-, -, hacyclic⟩ := Dictionary.fault?_eq_none_iff.1 hfault
  exact Dictionary.mem_fields_of_uses hd (Dictionary.uses_of_mem_fields hacyclic rfl h)

/-- Two fields of the header with one name are the same field. -/
theorem field_eq_of_name (hc : ofDocument text validating = .ok c) {slot slot' : FieldSlot} (h : slot ∈ c.header.fields)
    (h' : slot' ∈ c.header.fields) (hname : slot'.name = slot.name) : slot'.field = slot.field := by
  have hmem := mem_fields_of_mem_header hc h
  have hmem' := mem_fields_of_mem_header hc h'
  obtain ⟨d, hd, -, -, rfl⟩ := ofDocument_eq_ok_iff.1 hc
  exact List.inj_on_of_nodup_map (Dictionary.nodup_names hd) hmem' hmem hname

/-- The header is that of every message. -/
theorem header_of_mem (hc : ofDocument text validating = .ok c) {l : MessageLayout} (hl : l ∈ c.messages) :
    l.header = c.header := by
  obtain ⟨d, -, -, -, rfl⟩ := ofDocument_eq_ok_iff.1 hc
  obtain ⟨index, -, rfl⟩ := List.mem_mapIdx.1 hl
  rfl

/-- A field of the header is the member with its tag in the header of every message. -/
theorem memberOf?_header (hc : ofDocument text validating = .ok c) {l : MessageLayout} (hl : l ∈ c.messages)
    {slot : FieldSlot} (h : slot ∈ c.header.fields) : memberOf? l.header.members slot.tag = some (.field slot) := by
  rw [header_of_mem hc hl]
  obtain ⟨d, -, hfault, -, rfl⟩ := ofDocument_eq_ok_iff.1 hc
  obtain ⟨-, -, hacyclic⟩ := Dictionary.fault?_eq_none_iff.1 hfault
  exact (find?_key_eq_some_iff (Dictionary.nodup_layoutOf hacyclic .header)).2 ⟨Layout.mem_fields_iff.1 h, rfl⟩

end Codecs

end FixWire
