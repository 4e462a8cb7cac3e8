import FixWire.Constants
import FixWire.Proofs.Dictionary.Documents
import FixWire.Proofs.Text.Identifier
import Mathlib.Data.List.Induction
import Mathlib.Data.List.Nodup

/-!
# Constants with the same name

The source for a dictionary is a tree of declarations (`source_eq`). Nothing keeps the names of the tags apart, nor
those of the modules; among the values of a field a name that is taken is told apart by the representation of its value,
but the new name may be taken as well. These are the only clashes (`distinct_declarations_iff`). There are none where
the names of the dictionary differ in their letters and digits (`distinct_of_letters`).
-/

namespace FixWire

namespace Constants

open Text

/-! ## The source as a tree -/

/-- A declaration : a constant, or a module with declarations of its own. -/
inductive Decl where
  | const (item : Item)
  | module (doc name : String) (body : List Decl)

namespace Decl

/-- What is declared. -/
def name : Decl → String
  | const item => item.name
  | module _ name _ => name

mutual

/-- The lines of a declaration. -/
def render (indent : String) : Decl → String
  | const item => item.render indent
  | module doc name body => renderModule indent doc name (renderAll (indent ++ "    ") body)

/-- The lines of some declarations. -/
def renderAll (indent : String) : List Decl → String
  | [] => ""
  | d :: rest => d.render indent ++ renderAll indent rest

end

/-- Different names are declared next to each other, and in every module of these. -/
inductive Distinct : List Decl → Prop
  | intro {decls : List Decl} (here : (decls.map name).Nodup)
      (inside : ∀ doc name body, module doc name body ∈ decls → Distinct body) : Distinct decls

theorem renderAll_const (indent : String) (items : List Item) :
    renderAll indent (items.map const) = String.join (items.map (Item.render indent)) := by
  induction items with
  | nil => rfl
  | cons item items ih =>
    rw [List.map_cons, renderAll, ih, render, List.map_cons, String.join_cons]

end Decl

/-- The declaration of a module of constants. -/
def Module.decl (m : Module) : Decl :=
  .module m.doc m.name (m.items.map .const)

/-- The declarations for a dictionary. -/
def declarations (d : Dictionary) : List Decl :=
  [.const ⟨"BeginString of this dictionary.", "BEGIN_STRING", "&str", Text.Quoted.literal d.beginString⟩,
    .module "Field tag numbers." "tags" ((tags d).map .const),
    .module "Enumerated field values." "values" ((values d).map Module.decl),
    .module "Message type codes." "messages" ((messages d).map Module.decl)]

theorem renderAll_decl (modules : List Module) :
    Decl.renderAll "    " (modules.map Module.decl) = String.join (modules.map Module.render) := by
  induction modules with
  | nil => rfl
  | cons m modules ih =>
    rw [List.map_cons, Decl.renderAll, ih, Module.decl, Decl.render, Decl.renderAll_const, List.map_cons,
      String.join_cons]
    rfl

/-- The source is a comment and the declarations with blank lines between them. -/
theorem source_eq (d : Dictionary) :
    source d = "// Generated by ironfix-codegen from the " ++ d.beginString ++ " dictionary. Do not edit.\n\n" ++
      "\n".intercalate ((declarations d).map (Decl.render "")) := by
  have hdecls : (declarations d).map (Decl.render "") =
      [Item.render "" ⟨"BeginString of this dictionary.", "BEGIN_STRING", "&str", Text.Quoted.literal d.beginString⟩,
        renderModule "" "Field tag numbers." "tags" (String.join ((tags d).map (Item.render "    "))),
        renderModule "" "Enumerated field values." "values" (String.join ((values d).map Module.render)),
        renderModule "" "Message type codes." "messages" (String.join ((messages d).map Module.render))] := by
    rw [← Decl.renderAll_const, ← renderAll_decl, ← renderAll_decl]
    rfl
  have hlines (blank comment a b c e : String) :
      comment ++ a ++ blank ++ b ++ blank ++ c ++ blank ++ e = comment ++ blank.intercalate [a, b, c, e] := by
    simp only [String.intercalate_cons_cons, String.intercalate_singleton, String.append_assoc]
  rw [hdecls]
  unfold source
  exact hlines _ _ _ _ _ _

/-! ## The names of values -/

/-- The names of the constants for some values. -/
def names (values : List EnumValue) : List String :=
  (valueItems [] values).map Item.name

/-- The name of a value where some names are taken. -/
def nameAmong (taken : List String) (v : EnumValue) : String :=
  if constName v.description ∈ taken then tellApart (constName v.description) v.representation
  else constName v.description

theorem map_name_valueItems (seen : List String) (values : List EnumValue) (v : EnumValue) :
    (valueItems seen (values ++ [v])).map Item.name =
      (valueItems seen values).map Item.name ++
        [nameAmong (((valueItems seen values).map Item.name).reverse ++ seen) v] := by
  induction values generalizing seen with
  | nil => simp [valueItems, nameAmong]
  | cons w values ih =>
    simp only [List.cons_append, valueItems, List.map_cons]
    rw [ih, List.reverse_cons, List.append_assoc]
    rfl

/-- The name of one more value depends on the names before it. -/
theorem names_concat (values : List EnumValue) (v : EnumValue) :
    names (values ++ [v]) = names values ++ [nameAmong (names values) v] := by
  rw [names, map_name_valueItems]
  simp [names, nameAmong]

/-- Both the name of the value and the one that tells it apart are those of values before it. -/
def TakenTwice (before : List EnumValue) (v : EnumValue) : Prop :=
  constName v.description ∈ names before ∧ tellApart (constName v.description) v.representation ∈ names before

/-- A name is given to a second value if both the description and the name made to tell it apart are taken, and only
then. -/
theorem nameAmong_mem_iff {before : List EnumValue} {v : EnumValue} :
    nameAmong (names before) v ∈ names before ↔ TakenTwice before v := by
  rw [nameAmong, TakenTwice]
  split <;> simp [*]

/-- The names of values are different unless the names of one of them are taken twice. -/
theorem nodup_names_iff (values : List EnumValue) :
    (names values).Nodup ↔ ∀ before v after, values = before ++ v :: after → ¬TakenTwice before v := by
  induction values using List.reverseRecOn with
  | nil => simp [names, valueItems]
  | append_singleton values v ih =>
    rw [names_concat, ← List.concat_eq_append, List.nodup_concat, nameAmong_mem_iff, ih]
    constructor
    · rintro ⟨hv, hvalues⟩ before w after h
      rcases List.eq_nil_or_concat after with rfl | ⟨after, u, rfl⟩
      · obtain ⟨rfl, hw⟩ := List.append_inj' h rfl
        cases hw
        exact hv
      · rw [List.concat_eq_append, ← List.cons_append, ← List.append_assoc] at h
        exact hvalues before w after (List.append_inj' h rfl).1
    · intro h
      refine ⟨h values v [] rfl, fun before w after hvalues => h before w (after ++ [v]) ?_⟩
      rw [hvalues, List.append_assoc, List.cons_append]

/-! ## Clashes -/

/-- Constants beside each other are distinct if their names are. -/
theorem distinct_const (items : List Item) :
    Decl.Distinct (items.map .const) ↔ (items.map Item.name).Nodup := by
  have hnames : (items.map Decl.const).map Decl.name = items.map Item.name := by
    rw [List.map_map]
    rfl
  constructor
  · rintro ⟨here, -⟩
    rwa [hnames] at here
  · refine fun h => ⟨by rwa [hnames], fun doc name body hmem => ?_⟩
    obtain ⟨item, -, hitem⟩ := List.mem_map.1 hmem
    cases hitem

/-- Modules beside each other are distinct if their names are and the constants in each of them are. -/
theorem distinct_module (modules : List Module) :
    Decl.Distinct (modules.map Module.decl) ↔
      (modules.map Module.name).Nodup ∧ ∀ m ∈ modules, (m.items.map Item.name).Nodup := by
  have hnames : (modules.map Module.decl).map Decl.name = modules.map Module.name := by
    rw [List.map_map]
    rfl
  constructor
  · rintro ⟨here, inside⟩
    rw [hnames] at here
    exact ⟨here, fun m hm => (distinct_const _).1 (inside m.doc m.name _ (List.mem_map_of_mem hm))⟩
  · rintro ⟨here, inside⟩
    refine ⟨by rwa [hnames], fun doc name body hmem => ?_⟩
    obtain ⟨m, hm, hdecl⟩ := List.mem_map.1 hmem
    cases hdecl
    exact (distinct_const _).2 (inside m hm)

/-- A constant and three modules. -/
theorem distinct_root {c : Item} {doc₁ doc₂ doc₃ name₁ name₂ name₃ : String} {body₁ body₂ body₃ : List Decl}
    (h : [c.name, name₁, name₂, name₃].Nodup) :
    Decl.Distinct [.const c, .module doc₁ name₁ body₁, .module doc₂ name₂ body₂, .module doc₃ name₃ body₃] ↔
      Decl.Distinct body₁ ∧ Decl.Distinct body₂ ∧ Decl.Distinct body₃ := by
  constructor
  · rintro ⟨-, inside⟩
    exact ⟨inside doc₁ name₁ body₁ (by simp), inside doc₂ name₂ body₂ (by simp), inside doc₃ name₃ body₃ (by simp)⟩
  · rintro ⟨h₁, h₂, h₃⟩
    refine ⟨h, fun doc name body hmem => ?_⟩
    simp only [List.mem_cons, List.not_mem_nil, or_false, reduceCtorEq, false_or, Decl.module.injEq] at hmem
    rcases hmem with ⟨-, -, rfl⟩ | ⟨-, -, rfl⟩ | ⟨-, -, rfl⟩
    · exact h₁
    · exact h₂
    · exact h₃

/-- The names of values are distinct in every module if no value of a field is taken twice, and only then. -/
theorem nodup_values (d : Dictionary) : (∀ m ∈ values d, (m.items.map Item.name).Nodup) ↔
    ∀ f ∈ d.fields, ∀ before v after, f.values = before ++ v :: after → ¬TakenTwice before v := by
  simp only [values, List.forall_mem_map, ← nodup_names_iff]
  constructor
  · intro h f hf
    by_cases hempty : f.values = []
    · rw [hempty]
      exact List.nodup_nil
    · exact h f (List.mem_filter.2 ⟨hf, by simpa [Field.isEnum] using hempty⟩)
  · exact fun h f hf => h f (List.mem_filter.1 hf).1

/-- The names of message types are always distinct. -/
theorem nodup_messages (d : Dictionary) : ∀ m ∈ messages d, (m.items.map Item.name).Nodup := by
  have hnames : ["MESSAGE_TYPE", "PACKED"].Nodup := by decide +kernel
  simp only [messages, List.forall_mem_map]
  exact fun _ _ => hnames

/-- The names that a module of the source declares are different exactly if those of the fields are, those of the fields
with values and those of the messages, and no value of a field has a name that is taken twice. -/
theorem distinct_declarations (d : Dictionary) :
    Decl.Distinct (declarations d) ↔
      (d.fields.map fun f => constName f.name).Nodup ∧
        ((d.fields.filter Field.isEnum).map fun f => moduleName f.name).Nodup ∧
        (d.messages.map fun m => moduleName m.name).Nodup ∧
        ∀ f ∈ d.fields, ∀ before v after, f.values = before ++ v :: after → ¬TakenTwice before v := by
  have htags : (tags d).map Item.name = d.fields.map fun f => constName f.name := by
    simp only [tags, List.map_map, Function.comp_def]
  have hvalues : (values d).map Module.name = (d.fields.filter Field.isEnum).map fun f => moduleName f.name := by
    simp only [values, List.map_map, Function.comp_def]
  have hmessages : (messages d).map Module.name = d.messages.map fun m => moduleName m.name := by
    simp only [messages, List.map_map, Function.comp_def]
  have hroot : ["BEGIN_STRING", "tags", "values", "messages"].Nodup := by decide +kernel
  rw [declarations, distinct_root hroot, distinct_const, htags, distinct_module, hvalues, distinct_module, hmessages,
    nodup_values, and_iff_left (nodup_messages d), and_assoc, and_comm (a := ∀ f ∈ d.fields, _)]

/-! ## Letters and digits -/

theorem letters_constName (text : String) : letters (constName text).toList = letters text.toList := by
  rw [constName, letters_toIdentifier, letters_screamingSnakeCase]

theorem letters_underscore_text : letters "_".toList = [] := by
  decide

theorem letters_moduleName (text : String) : letters (moduleName text).toList = letters text.toList := by
  have hname : letters (toIdentifier (snakeCase text)).toList = letters text.toList := by
    rw [letters_toIdentifier, letters_snakeCase]
  rw [moduleName]
  split
  · rw [String.toList_append, letters_append, hname, letters_underscore_text, List.append_nil]
  · exact hname

theorem letters_tellApart (name representation : String) :
    letters (tellApart name representation).toList = letters name.toList ++ letters representation.toList := by
  have htold : letters (String.ofList ((constName representation).toList.dropWhile (· == '_'))).toList =
      letters representation.toList := by
    rw [String.toList_ofList, letters_dropWhile, letters_constName]
  rw [tellApart, String.toList_append, String.toList_append, letters_append, letters_append, htold, letters_underscore_text,
    List.append_nil]

/-- The letters and digits of a description, and those of the representation behind them. -/
def lettersOf (v : EnumValue) : List Char :=
  letters v.description.toList ++ letters v.representation.toList

/-- The letters and digits of a value's name are those of its description, or those of the name made to tell it
apart. -/
theorem letters_of_mem_names {values : List EnumValue} {name : String} (h : name ∈ names values) :
    ∃ v ∈ values, letters name.toList = letters v.description.toList ∨ letters name.toList = lettersOf v := by
  induction values using List.reverseRecOn with
  | nil => exact absurd h List.not_mem_nil
  | append_singleton values v ih =>
    rw [names_concat, List.mem_append, List.mem_singleton] at h
    rcases h with h | rfl
    · obtain ⟨w, hw, hname⟩ := ih h
      exact ⟨w, List.mem_append_left _ hw, hname⟩
    · refine ⟨v, List.mem_append_right _ List.mem_cons_self, ?_⟩
      rw [nameAmong]
      split
      · exact .inr (by rw [letters_tellApart, letters_constName, lettersOf])
      · exact .inl (letters_constName _)

/-- The declared names are different if those in the dictionary are different in their letters and digits : the fields,
the messages, and the values of each field, where a value that is told apart has to differ from those before it. -/
theorem distinct_of_letters {d : Dictionary} (hfields : (d.fields.map fun f => letters f.name.toList).Nodup)
    (hmessages : (d.messages.map fun m => letters m.name.toList).Nodup)
    (hvalues : ∀ f ∈ d.fields, f.values.Pairwise fun w v =>
      lettersOf v ≠ letters w.description.toList ∧ lettersOf v ≠ lettersOf w) :
    Decl.Distinct (declarations d) := by
  have hmap {α : Type} {name : α → String} {image : String → String} (himage : ∀ text,
      letters (image text).toList = letters text.toList) {as : List α}
      (h : (as.map fun a => letters (name a).toList).Nodup) : (as.map fun a => image (name a)).Nodup := by
    refine List.Nodup.of_map (fun text => letters text.toList) ?_
    rw [List.map_map]
    exact (List.map_congr_left fun a _ => himage (name a)) ▸ h
  refine (distinct_declarations d).2 ⟨hmap letters_constName hfields,
    (hmap letters_moduleName hfields).sublist (List.filter_sublist.map _), hmap letters_moduleName hmessages, ?_⟩
  rintro f hf before v after hsplit ⟨-, htaken⟩
  obtain ⟨w, hw, hletters⟩ := letters_of_mem_names htaken
  rw [letters_tellApart, letters_constName, ← lettersOf] at hletters
  have hpair := hvalues f hf
  rw [hsplit, List.pairwise_append] at hpair
  have hne := hpair.2.2 w hw v List.mem_cons_self
  rcases hletters with h | h
  · exact hne.1 h
  · exact hne.2 h

/-! ## The source for a document -/

/-- The source for a document declares different names exactly if the names of its fields, of its fields with values and
of its messages come to different ones, and no value of a field has a name and is told apart by a name that values
before it have. -/
theorem distinct_iff {text src : String} (h : ofDocument text = .ok src) :
    ∃ d, Dictionary.compile text = .ok d ∧ d.fault? = none ∧
      src = "// Generated by ironfix-codegen from the " ++ d.beginString ++ " dictionary. Do not edit.\n\n" ++
        "\n".intercalate ((declarations d).map (Decl.render "")) ∧
      (Decl.Distinct (declarations d) ↔
        (d.fields.map fun f => constName f.name).Nodup ∧
          ((d.fields.filter Field.isEnum).map fun f => moduleName f.name).Nodup ∧
          (d.messages.map fun m => moduleName m.name).Nodup ∧
          ∀ f ∈ d.fields, ∀ before v after, f.values = before ++ v :: after → ¬TakenTwice before v) := by
  rw [ofDocument] at h
  cases hcompile : Dictionary.compile text with
  | error cause => simp [hcompile] at h
  | ok d =>
    cases hfault : d.fault? with
    | some cause => simp [hcompile, hfault] at h
    | none =>
      obtain rfl : source d = src := by simpa [hcompile, hfault] using h
      exact ⟨d, rfl, hfault, source_eq d, distinct_declarations d⟩

end Constants

/-! ## Two sides with the same description -/

namespace Sample

/-- A dictionary that has one field, with some values. -/
def sideDictionary (values : List EnumValue) : Dictionary where
  major := 4
  minor := 4
  fields := [⟨54, "Side", .char, values⟩]
  groups := []
  components := []
  spliced := []
  messages := []
  header := []
  trailer := []

/-- A document in which two values have the same description. -/
def twoSides : String :=
  "<fix major='4' minor='4'>
    <fields>
      <field number='54' name='Side' type='CHAR'>
        <value enum='1' description='BUY'/>
        <value enum='2' description='BUY'/>
      </field>
    </fields>
  </fix>"

/-- A document in which a third value has the description that is the name of the second one, told apart. -/
def threeSides : String :=
  "<fix major='4' minor='4'>
    <fields>
      <field number='54' name='Side' type='CHAR'>
        <value enum='1' description='BUY'/>
        <value enum='3' description='BUY_2'/>
        <value enum='2' description='BUY'/>
      </field>
    </fields>
  </fix>"

set_option maxRecDepth 8000 in
theorem compile_twoSides : Dictionary.compile twoSides = .ok (sideDictionary [⟨"1", "BUY"⟩, ⟨"2", "BUY"⟩]) :=
  Dictionary.compile_ofList (by decide +kernel)

set_option maxRecDepth 8000 in
theorem compile_threeSides :
    Dictionary.compile threeSides = .ok (sideDictionary [⟨"1", "BUY"⟩, ⟨"3", "BUY_2"⟩, ⟨"2", "BUY"⟩]) :=
  Dictionary.compile_ofList (by decide +kernel)

end Sample

namespace Constants

theorem ofDocument_of_compile {text : String} {d : Dictionary} (h : Dictionary.compile text = .ok d)
    (hfault : d.fault? = none) : ofDocument text = .ok (source d) := by
  rw [ofDocument, h]
  dsimp only
  rw [hfault]

/-- Two sides with the same description get the names `BUY` and `BUY_2`. -/
theorem distinct_two_sides :
    let d := Sample.sideDictionary [⟨"1", "BUY"⟩, ⟨"2", "BUY"⟩]
    ofDocument Sample.twoSides = .ok (source d) ∧ Decl.Distinct (declarations d) := by
  intro d
  have hsource := ofDocument_of_compile Sample.compile_twoSides (by decide +kernel)
  obtain ⟨d', hcompile, -, -, hiff⟩ := distinct_iff hsource
  obtain rfl : d = d' := Except.ok.inj (Sample.compile_twoSides.symm.trans hcompile)
  have hnames : (names [⟨"1", "BUY"⟩, ⟨"2", "BUY"⟩]).Nodup := by decide +kernel
  refine ⟨hsource, hiff.2 ⟨by decide +kernel, by decide +kernel, by decide +kernel, fun f hf => ?_⟩⟩
  obtain rfl := List.mem_singleton.1 hf
  exact (nodup_names_iff _).1 hnames

/-- A value that is told apart gets the name of another one : two constants `BUY_2` are declared next to each other,
although all representations are different. -/
theorem not_distinct_three_sides :
    let d := Sample.sideDictionary [⟨"1", "BUY"⟩, ⟨"3", "BUY_2"⟩, ⟨"2", "BUY"⟩]
    ofDocument Sample.threeSides = .ok (source d) ∧
      (∀ f ∈ d.fields, (f.values.map EnumValue.representation).Nodup) ∧
      (d.fields.map fun f => names f.values) = [["BUY", "BUY_2", "BUY_2"]] ∧ ¬Decl.Distinct (declarations d) := by
  intro d
  refine ⟨ofDocument_of_compile Sample.compile_threeSides (by decide +kernel), by decide +kernel, by decide +kernel,
    fun h => ?_⟩
  have hvalues := ((distinct_declarations d).1 h).2.2.2 _ List.mem_cons_self
  exact absurd ((nodup_names_iff _).2 hvalues) (by decide +kernel)

end Constants

end FixWire
