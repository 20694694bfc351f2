import ScenarioInclusion.Proofs.Text.Margins

/-!
# Directives as they may be written

One directive has many written forms.  The fields of its argument list stand in
any order, each key is bare or in angle brackets, and blanks may stand around
every name, every value and every separator.  All forms say the same: each is
an include tag, and reading it gives back the directive.

The texts of a directive may hold colons, commas and brackets of their own, as
long as their brackets are balanced and their commas stand inside them.
-/

namespace ScenarioInclusion

open Text

/-- A text that comes back as it is when it was written between two commas. -/
structure Text.IsPhrase (text : Text) : Prop where
  trim_eq : text.trim = text
  isPart : text.IsPart

instance (text : Text) : Decidable text.IsPhrase :=
  decidable_of_iff (text.trim = text ∧ text.IsPart)
    ⟨fun h => ⟨h.1, h.2⟩, fun h => ⟨h.trim_eq, h.isPart⟩⟩

/-! ## Bindings -/

structure WrittenBinding where
  key : Text
  value : Text
  /-- Is the key written in angle brackets? -/
  bracketed : Bool
  aroundKey : Margins
  aroundValue : Margins
  key_ne_nil : key ≠ []
  key_isPhrase : key.IsPhrase
  colon_not_mem_key : ':' ∉ key
  key_ne_token : ∀ name, key ≠ (Piece.token name).text
  value_isPhrase : value.IsPhrase

namespace WrittenBinding

def binding (written : WrittenBinding) : Binding :=
  ⟨written.key, written.value⟩

def spelling (written : WrittenBinding) : Text :=
  if written.bracketed then (Piece.token written.key).text else written.key

def text (written : WrittenBinding) : Text :=
  labelled written.aroundKey written.aroundValue written.spelling written.value

variable (written : WrittenBinding)

theorem spelling_ne_nil : written.spelling ≠ [] := by
  unfold spelling
  split
  · simp [Piece.text]
  · exact written.key_ne_nil

theorem trim_spelling : written.spelling.trim = written.spelling := by
  unfold spelling
  split
  · exact trim_cons_append_singleton (by decide) (by decide) written.key
  · exact written.key_isPhrase.trim_eq

theorem colon_not_mem_spelling : ':' ∉ written.spelling := by
  unfold spelling
  split
  · simp [Piece.text, written.colon_not_mem_key]
  · exact written.colon_not_mem_key

theorem isPart_spelling : written.spelling.IsPart := by
  have hopening : IsPart ['<'] := by decide
  have hclosing : IsPart ['>'] := by decide
  unfold spelling
  split
  · exact hopening.append (written.key_isPhrase.isPart.append hclosing)
  · exact written.key_isPhrase.isPart

theorem between?_key : written.key.between? '<' '>' = none := by
  have hne := written.key_ne_token
  cases hkey : written.key with
  | nil => rfl
  | cons c rest =>
      rw [between?, if_neg]
      rintro ⟨rfl, hlast⟩
      rcases List.getLast?_eq_some_iff.mp hlast with ⟨name, rfl⟩
      exact hne name hkey

theorem keyOf_eq {text : Text} (h : text.trim = written.spelling) :
    Binding.keyOf text = written.key := by
  rw [Binding.keyOf, h]
  unfold spelling
  split
  · simp [Piece.text, between?]
  · rw [between?_key]
    rfl

theorem isPart_text : written.text.IsPart :=
  written.isPart_spelling.labelled written.value_isPhrase.isPart _ _

theorem trim_text_ne_nil : written.text.trim ≠ [] :=
  trim_labelled_ne_nil _ _

theorem readBinding_text :
    Directive.readBinding written.text.trim = .ok written.binding := by
  rcases exists_cutAtColon_labelled written.aroundKey written.aroundValue
    written.spelling_ne_nil written.trim_spelling
    written.colon_not_mem_spelling written.value_isPhrase.trim_eq with
    ⟨before, after, hcut, hbefore, hafter⟩
  rw [Directive.readBinding, text, hcut]
  simp only [Binding.ofSpelling, written.keyOf_eq hbefore, hafter,
    if_neg written.key_ne_nil]
  rfl

end WrittenBinding

/-! ## Lists of items -/

namespace Directive

theorem items_intercalate {α : Type} {written : α → Text}
    (hpart : ∀ a, (written a).IsPart) (hvisible : ∀ a, (written a).trim ≠ [])
    {entries : List α} (hne : entries ≠ []) :
    items (List.intercalate [','] (entries.map written)) =
      entries.map fun a => (written a).trim := by
  rw [items, (areParts_map hpart hne).parts_intercalate, List.map_map]
  apply List.filter_eq_self.mpr
  intro item hitem
  rcases List.mem_map.mp hitem with ⟨a, -, rfl⟩
  simpa using hvisible a

theorem items_gap (gap : Gap) : items gap.text = [] := by
  have hpart : IsPart gap.text := (isPlain_of_blank gap.isBlank_of_mem).isPart
  rw [items, hpart.parts_eq, List.map_singleton, trim_gap]
  rfl

end Directive

/-! ## Directives -/

structure WrittenDirective where
  feature : Text
  scenario : Text
  bindings : List WrittenBinding
  /-- The fields in the order in which they are written. -/
  order : List Field
  aroundName : Field → Margins
  aroundValue : Field → Margins
  /-- What stands between the square brackets of a list without bindings. -/
  emptyList : Gap
  feature_ne_nil : feature ≠ []
  feature_isPhrase : feature.IsPhrase
  scenario_ne_nil : scenario ≠ []
  scenario_isPhrase : scenario.IsPhrase
  order_nodup : order.Nodup
  feature_mem_order : .feature ∈ order
  scenario_mem_order : .scenario ∈ order
  params_mem_order : bindings ≠ [] → .params ∈ order

namespace WrittenDirective

variable (written : WrittenDirective)

def directive : Directive :=
  ⟨written.feature, written.scenario, written.bindings.map (·.binding)⟩

def bindingList : Text :=
  if written.bindings = [] then written.emptyList.text
  else List.intercalate [','] (written.bindings.map (·.text))

def value : Field → Text
  | .feature => written.feature
  | .scenario => written.scenario
  | .params => '[' :: (written.bindingList ++ [']'])

def part (field : Field) : Text :=
  labelled (written.aroundName field) (written.aroundValue field) field.name
    (written.value field)

def arguments : Text :=
  List.intercalate [','] (written.order.map written.part)

def tag : Tag :=
  '@' :: Tag.includeName ++ '(' :: (written.arguments ++ [')'])

/-! ### The parameters -/

theorem isBalanced_bindingList : written.bindingList.IsBalanced := by
  unfold bindingList
  split
  · exact (isPlain_of_blank written.emptyList.isBlank_of_mem).isBalanced
  · exact isBalanced_intercalate (fun binding => binding.isPart_text.balanced)
      written.bindings

theorem readParams_value :
    Directive.readParams (written.value .params) =
      .ok written.directive.bindings := by
  have hbetween : between? '[' ']' (written.value .params) =
      some written.bindingList := by
    simp [value, between?]
  simp only [Directive.readParams, hbetween, bindingList, directive]
  by_cases hnil : written.bindings = []
  · rw [if_pos hnil, Directive.items_gap, hnil]
    rfl
  · rw [if_neg hnil,
      Directive.items_intercalate WrittenBinding.isPart_text
        WrittenBinding.trim_text_ne_nil hnil, List.mapM_map]
    exact mapM_eq_ok_map fun binding _ => binding.readBinding_text

/-! ### One field -/

theorem trim_value (field : Field) :
    (written.value field).trim = written.value field := by
  cases field with
  | feature => exact written.feature_isPhrase.trim_eq
  | scenario => exact written.scenario_isPhrase.trim_eq
  | params => exact trim_cons_append_singleton (by decide) (by decide) _

theorem isPart_value (field : Field) : (written.value field).IsPart := by
  cases field with
  | feature => exact written.feature_isPhrase.isPart
  | scenario => exact written.scenario_isPhrase.isPart
  | params => exact written.isBalanced_bindingList.isPart_enclosed rfl rfl

theorem isPart_part (field : Field) : (written.part field).IsPart := by
  have hname : field.name.IsPart := by
    cases field <;> decide
  exact hname.labelled (written.isPart_value field) _ _

theorem trim_part_ne_nil (field : Field) : (written.part field).trim ≠ [] :=
  trim_labelled_ne_nil _ _

/-- What the directive says in some of its fields. -/
def fieldsOf (named : List Field) : Directive.Fields where
  feature? := if .feature ∈ named then some written.feature else none
  scenario? := if .scenario ∈ named then some written.scenario else none
  params? := if .params ∈ named then some written.directive.bindings else none

theorem add_part {named : List Field} {field : Field} (h : field ∉ named) :
    (written.fieldsOf named).add (written.part field).trim =
      .ok (written.fieldsOf (named ++ [field])) := by
  have hname : field.name ≠ [] ∧ field.name.trim = field.name ∧
      ':' ∉ field.name := by
    cases field <;> decide
  rcases exists_cutAtColon_labelled (written.aroundName field)
    (written.aroundValue field) hname.1 hname.2.1 hname.2.2
    (written.trim_value field) with ⟨before, after, hcut, hbefore, hafter⟩
  rw [Directive.Fields.add, part, hcut]
  simp only [hbefore, hafter, Field.ofName?_name]
  cases field with
  | feature =>
      simp [fieldsOf, value, h, Directive.readRequired,
        written.feature_ne_nil, Directive.Fields.setOnce, Except.map]
  | scenario =>
      simp [fieldsOf, value, h, Directive.readRequired,
        written.scenario_ne_nil, Directive.Fields.setOnce, Except.map]
  | params =>
      simp [fieldsOf, readParams_value, h, Directive.Fields.setOnce,
        Except.map]

/-- Field by field, whatever was named before. -/
theorem foldlM_add_parts {named rest : List Field}
    (h : (named ++ rest).Nodup) :
    (rest.map fun field => (written.part field).trim).foldlM
        Directive.Fields.add (written.fieldsOf named) =
      .ok (written.fieldsOf (named ++ rest)) := by
  induction rest generalizing named with
  | nil =>
      rw [List.append_nil]
      rfl
  | cons field rest ih =>
      have hfield : field ∉ named := by
        intro hmem
        exact (List.nodup_append.mp h).2.2 field hmem field
          (List.mem_cons_self ..) rfl
      rw [List.append_cons] at h ⊢
      rw [List.map_cons, List.foldlM_cons, written.add_part hfield]
      exact ih h

/-! ### The whole tag -/

theorem order_ne_nil : written.order ≠ [] :=
  List.ne_nil_of_mem written.feature_mem_order

theorem items_arguments :
    Directive.items written.arguments =
      written.order.map fun field => (written.part field).trim :=
  Directive.items_intercalate written.isPart_part
    written.trim_part_ne_nil written.order_ne_nil

theorem isBalanced_arguments : written.arguments.IsBalanced :=
  isBalanced_intercalate (fun field => (written.isPart_part field).balanced)
    written.order

theorem argumentList_tag :
    Directive.argumentList written.tag = .ok written.arguments :=
  Directive.argumentList_eq_ok_iff.mpr ⟨Gap.empty,
    trim_cons_append_singleton (by decide) (by decide)
      (Tag.includeName ++ '(' :: written.arguments)⟩

theorem toDirective_fieldsOf :
    (written.fieldsOf written.order).toDirective = .ok written.directive := by
  have hbindings : (if Field.params ∈ written.order then
      some written.directive.bindings else none).getD [] =
      written.directive.bindings := by
    by_cases hparams : Field.params ∈ written.order
    · simp [hparams]
    · have hnil : written.bindings = [] := by
        by_contra hne
        exact hparams (written.params_mem_order hne)
      simp [hparams, directive, hnil]
  simp only [fieldsOf, written.feature_mem_order, written.scenario_mem_order,
    if_true, Directive.Fields.toDirective, hbindings]
  rfl

/-- Whatever its form, the directive is read again. -/
theorem ofTag_tag : Directive.ofTag written.tag = .ok written.directive := by
  have hfields : (Directive.items written.arguments).foldlM
      Directive.Fields.add Directive.Fields.empty =
      .ok (written.fieldsOf written.order) := by
    have hnodup : ([] ++ written.order).Nodup := written.order_nodup
    rw [written.items_arguments]
    exact written.foldlM_add_parts hnodup
  exact bind_eq_ok_iff.mpr ⟨_, written.argumentList_tag,
    bind_eq_ok_iff.mpr ⟨_, hfields, written.toDirective_fieldsOf⟩⟩

theorem isInclude_tag : written.tag.isInclude = true :=
  Tag.isInclude_append_arguments _

end WrittenDirective

end ScenarioInclusion
