import ScenarioInclusion.Proofs.Text.Margins
import Mathlib.Tactic

/-!
# The grammar of include directives

Each part of an argument list says one thing: it gives a value to one of three
fields.  What it says, or what is wrong with it, depends on that part alone, and
so it is defined here without any order of reading.  A directive is well formed
if every part says something, no two parts speak of the same field, and the two
required fields are given.

Otherwise the fault is that of the first part that is faulty or speaks of a field
again, and only if there is no such part can it be that a field is absent.
-/

namespace ScenarioInclusion

open Text

namespace Directive

/-! ## What a part says -/

/-- What a part of an argument list can say. -/
inductive Clause where
  | feature (name : Text)
  | scenario (name : Text)
  | params (bindings : Bindings)
  deriving DecidableEq, Repr

def Clause.field : Clause → Field
  | feature _ => .feature
  | scenario _ => .scenario
  | params _ => .params

/-- An entry of the list of parameters declares a binding: its key before the
first colon is not empty. -/
inductive Declares : Text → Binding → Prop where
  | entry {spelling value : Text} : ':' ∉ spelling →
      Binding.keyOf spelling ≠ [] →
      Declares (spelling ++ ':' :: value)
        ⟨Binding.keyOf spelling, value.trim⟩

/-- The value of a part, without the blanks around it, is what the clause
holds. -/
inductive Clause.HasValue : Clause → Text → Prop where
  | feature {name : Text} : name ≠ [] → HasValue (.feature name) name
  | scenario {name : Text} : name ≠ [] → HasValue (.scenario name) name
  | params {inner : Text} {bindings : Bindings} :
      List.Forall₂ Declares (items inner) bindings →
      HasValue (.params bindings) ('[' :: (inner ++ [']']))

/-- The part names the field of the clause before its first colon and gives its
value behind it. -/
inductive Says : Text → Clause → Prop where
  | part {name value : Text} {clause : Clause} : ':' ∉ name →
      name.trim = clause.field.name → clause.HasValue value.trim →
      Says (name ++ ':' :: value) clause

/-- What is wrong with the value of a field. -/
inductive FaultyValue : Field → Text → DirectiveError → Prop where
  | blank {field : Field} : field ≠ .params →
      FaultyValue field [] (.missingField field)
  | unenclosed {value : Text} :
      (∀ inner, value ≠ '[' :: (inner ++ [']'])) →
      FaultyValue .params value (.malformedParams value)
  | entry {inner entry : Text} {earlier later : List Text} :
      items inner = earlier ++ entry :: later →
      (∀ other ∈ earlier, ∃ binding, Declares other binding) →
      (∀ binding, ¬ Declares entry binding) →
      FaultyValue .params ('[' :: (inner ++ [']'])) (.malformedBinding entry)

/-- What is wrong with a part, whatever the other parts are. -/
inductive Faulty : Text → DirectiveError → Prop where
  | colonless {part : Text} : ':' ∉ part →
      Faulty part (.malformedField part)
  | unknown {name value : Text} : ':' ∉ name →
      (∀ field : Field, name.trim ≠ field.name) →
      Faulty (name ++ ':' :: value) (.unknownField name.trim)
  | value {name value : Text} {field : Field} {fault : DirectiveError} :
      ':' ∉ name → name.trim = field.name →
      FaultyValue field value.trim fault →
      Faulty (name ++ ':' :: value) fault

/-! ## What an argument list says -/

/-- The parts say these things, and none about a field that another speaks of. -/
structure SayAll (parts : List Text) (clauses : List Clause) : Prop where
  forall₂ : List.Forall₂ Says parts clauses
  nodup : (clauses.map Clause.field).Nodup

/-- The clauses give the directive its fields; without parameters it binds
nothing. -/
structure Gives (clauses : List Clause) (directive : Directive) : Prop where
  feature : .feature directive.feature ∈ clauses
  scenario : .scenario directive.scenario ∈ clauses
  params : .params directive.bindings ∈ clauses ∨
    directive.bindings = [] ∧ ∀ bindings, .params bindings ∉ clauses

def WellFormed (parts : List Text) (directive : Directive) : Prop :=
  ∃ clauses, SayAll parts clauses ∧ Gives clauses directive

/-- What is wrong with a part that comes after these clauses. -/
inductive Offends (clauses : List Clause) (part : Text) :
    DirectiveError → Prop where
  | faulty {fault : DirectiveError} : Faulty part fault →
      Offends clauses part fault
  | repeated {clause : Clause} : Says part clause →
      clause.field ∈ clauses.map Clause.field →
      Offends clauses part (.duplicateField clause.field)

/-- What is wrong with an argument list. -/
inductive IllFormed (parts : List Text) : DirectiveError → Prop where
  | part {earlier later : List Text} {part : Text} {clauses : List Clause}
      {fault : DirectiveError} : parts = earlier ++ part :: later →
      SayAll earlier clauses → Offends clauses part fault →
      IllFormed parts fault
  | noFeature {clauses : List Clause} : SayAll parts clauses →
      (∀ name, .feature name ∉ clauses) →
      IllFormed parts (.missingField .feature)
  | noScenario {clauses : List Clause} {name : Text} : SayAll parts clauses →
      .feature name ∈ clauses → (∀ name, .scenario name ∉ clauses) →
      IllFormed parts (.missingField .scenario)

/-! ## Reading entries -/

theorem readBinding_eq_ok_iff {entry : Text} {binding : Binding} :
    readBinding entry = .ok binding ↔ Declares entry binding := by
  constructor
  · intro h
    unfold readBinding at h
    split at h
    · contradiction
    · next spelling value hcut =>
        obtain ⟨rfl, hcolon⟩ := cutAtColon_eq_some_iff.mp hcut
        split at h
        · contradiction
        · next hkey =>
            cases h
            exact .entry hcolon hkey
  · rintro ⟨hcolon, hkey⟩
    rw [readBinding, cutAtColon_append hcolon]
    simp only [if_neg hkey]
    rfl

theorem readBinding_eq_error_iff {entry : Text} {fault : DirectiveError} :
    readBinding entry = .error fault ↔
      (∀ binding, ¬ Declares entry binding) ∧
        fault = .malformedBinding entry := by
  simp only [← readBinding_eq_ok_iff]
  cases hread : readBinding entry with
  | ok binding => simp
  | error other =>
      have hother : other = .malformedBinding entry := by
        unfold readBinding at hread
        split at hread
        · injection hread with heq
          exact heq.symm
        · split at hread
          · injection hread with heq
            exact heq.symm
          · contradiction
      simp [hother, eq_comm]

theorem readParams_eq_ok_iff {value : Text} {bindings : Bindings} :
    readParams value = .ok bindings ↔
      Clause.HasValue (.params bindings) value := by
  constructor
  · intro h
    unfold readParams at h
    split at h
    · contradiction
    · next inner hinner =>
        rw [between?_eq_some_iff] at hinner
        subst hinner
        rw [mapM_eq_ok_iff_forall₂] at h
        exact .params (h.imp fun _ _ => readBinding_eq_ok_iff.mp)
  · rintro (_ | _ | hentries)
    rw [readParams, between?_eq_some_iff.mpr rfl]
    exact mapM_eq_ok_iff_forall₂.mpr
      (hentries.imp fun _ _ => readBinding_eq_ok_iff.mpr)

theorem readParams_eq_error_iff {value : Text} {fault : DirectiveError} :
    readParams value = .error fault ↔ FaultyValue .params value fault := by
  constructor
  · intro h
    unfold readParams at h
    split at h
    · next hnone =>
        cases h
        refine .unenclosed fun inner hinner => ?_
        rw [between?_eq_some_iff.mpr hinner] at hnone
        contradiction
    · next inner hinner =>
        rw [between?_eq_some_iff] at hinner
        subst hinner
        rcases mapM_eq_error_iff.mp h with
          ⟨earlier, entry, later, hitems, hearlier, hentry⟩
        obtain ⟨hnone, rfl⟩ := readBinding_eq_error_iff.mp hentry
        simp only [readBinding_eq_ok_iff] at hearlier
        exact .entry hitems hearlier hnone
  · intro h
    cases h with
    | blank hfield => contradiction
    | unenclosed hopen =>
        have hnone : between? '[' ']' value = none := by
          rw [Option.eq_none_iff_forall_ne_some]
          intro inner hinner
          exact hopen inner (between?_eq_some_iff.mp hinner)
        rw [readParams, hnone]
    | @entry inner entry earlier later hitems hearlier hnone =>
        simp only [← readBinding_eq_ok_iff] at hearlier
        rw [readParams, between?_eq_some_iff.mpr rfl]
        exact mapM_eq_error_iff.mpr ⟨earlier, entry, later, hitems, hearlier,
          readBinding_eq_error_iff.mpr ⟨hnone, rfl⟩⟩

theorem readRequired_eq_ok_iff {field : Field} {value name : Text} :
    readRequired field value = .ok name ↔ value = name ∧ name ≠ [] := by
  rw [readRequired]
  split
  · next hnil =>
      subst hnil
      simp +contextual [eq_comm]
  · next hne =>
      rw [Except.ok.injEq]
      constructor
      · rintro rfl
        exact ⟨rfl, hne⟩
      · exact And.left

theorem readRequired_eq_error_iff {field : Field} {value : Text}
    {fault : DirectiveError} :
    readRequired field value = .error fault ↔
      value = [] ∧ fault = .missingField field := by
  rw [readRequired]
  split <;> simp [*, eq_comm]

/-! ## Reading a part by itself -/

def Clause.read : Field → Text → Except DirectiveError Clause
  | .feature, value => Clause.feature <$> readRequired .feature value
  | .scenario, value => Clause.scenario <$> readRequired .scenario value
  | .params, value => Clause.params <$> readParams value

theorem Clause.read_eq_ok_iff {field : Field} {value : Text}
    {clause : Clause} :
    Clause.read field value = .ok clause ↔
      clause.field = field ∧ clause.HasValue value := by
  constructor
  · intro h
    cases field with
    | feature =>
        obtain ⟨name, hname, rfl⟩ := map_eq_ok_iff.mp h
        obtain ⟨rfl, hne⟩ := readRequired_eq_ok_iff.mp hname
        exact ⟨rfl, .feature hne⟩
    | scenario =>
        obtain ⟨name, hname, rfl⟩ := map_eq_ok_iff.mp h
        obtain ⟨rfl, hne⟩ := readRequired_eq_ok_iff.mp hname
        exact ⟨rfl, .scenario hne⟩
    | params =>
        obtain ⟨bindings, hbindings, rfl⟩ := map_eq_ok_iff.mp h
        exact ⟨rfl, readParams_eq_ok_iff.mp hbindings⟩
  · rintro ⟨rfl, hvalue⟩
    cases clause with
    | feature name =>
        cases hvalue with
        | feature hne =>
            exact map_eq_ok_iff.mpr
              ⟨_, readRequired_eq_ok_iff.mpr ⟨rfl, hne⟩, rfl⟩
    | scenario name =>
        cases hvalue with
        | scenario hne =>
            exact map_eq_ok_iff.mpr
              ⟨_, readRequired_eq_ok_iff.mpr ⟨rfl, hne⟩, rfl⟩
    | params bindings =>
        exact map_eq_ok_iff.mpr
          ⟨bindings, readParams_eq_ok_iff.mpr hvalue, rfl⟩

theorem Clause.read_eq_error_iff {field : Field} {value : Text}
    {fault : DirectiveError} :
    Clause.read field value = .error fault ↔
      FaultyValue field value fault := by
  have hrequired : ∀ required : Field, required ≠ .params →
      (readRequired required value = .error fault ↔
        FaultyValue required value fault) := by
    intro required hfield
    rw [readRequired_eq_error_iff]
    constructor
    · rintro ⟨rfl, rfl⟩
      exact .blank hfield
    · intro h
      cases h with
      | blank _ => exact ⟨rfl, rfl⟩
      | unenclosed _ => contradiction
      | entry _ _ _ => contradiction
  cases field with
  | feature => exact map_eq_error_iff.trans (hrequired _ (by decide))
  | scenario => exact map_eq_error_iff.trans (hrequired _ (by decide))
  | params => exact map_eq_error_iff.trans readParams_eq_error_iff

def readClause (part : Text) : Except DirectiveError Clause :=
  match part.cutAtColon with
  | none => .error (.malformedField part)
  | some (name, value) =>
    match Field.ofName? name.trim with
    | none => .error (.unknownField name.trim)
    | some field => Clause.read field value.trim

theorem ofName?_eq_none_iff {text : Text} :
    Field.ofName? text = none ↔ ∀ field : Field, text ≠ field.name := by
  constructor
  · rintro hnone field rfl
    rw [Field.ofName?_name] at hnone
    contradiction
  · intro h
    rw [Option.eq_none_iff_forall_ne_some]
    intro field hfield
    exact h field (Field.name_eq_of_ofName? hfield).symm

theorem readClause_eq_ok_iff {part : Text} {clause : Clause} :
    readClause part = .ok clause ↔ Says part clause := by
  constructor
  · intro h
    unfold readClause at h
    split at h
    · contradiction
    · next name value hcut =>
        obtain ⟨rfl, hcolon⟩ := cutAtColon_eq_some_iff.mp hcut
        split at h
        · contradiction
        · next field hfield =>
            obtain ⟨rfl, hvalue⟩ := Clause.read_eq_ok_iff.mp h
            exact .part hcolon (Field.name_eq_of_ofName? hfield).symm hvalue
  · rintro ⟨hcolon, hname, hvalue⟩
    rw [readClause, cutAtColon_append hcolon]
    simp only [hname, Field.ofName?_name]
    exact Clause.read_eq_ok_iff.mpr ⟨rfl, hvalue⟩

theorem readClause_eq_error_iff {part : Text} {fault : DirectiveError} :
    readClause part = .error fault ↔ Faulty part fault := by
  constructor
  · intro h
    unfold readClause at h
    split at h
    · next hcut =>
        cases h
        exact .colonless (cutAtColon_eq_none_iff.mp hcut)
    · next name value hcut =>
        obtain ⟨rfl, hcolon⟩ := cutAtColon_eq_some_iff.mp hcut
        split at h
        · next hname =>
            cases h
            exact .unknown hcolon (ofName?_eq_none_iff.mp hname)
        · next field hfield =>
            exact .value hcolon (Field.name_eq_of_ofName? hfield).symm
              (Clause.read_eq_error_iff.mp h)
  · intro h
    cases h with
    | colonless hcolon =>
        rw [readClause, cutAtColon_eq_none_iff.mpr hcolon]
    | unknown hcolon hname =>
        rw [readClause, cutAtColon_append hcolon]
        simp only [ofName?_eq_none_iff.mpr hname]
    | value hcolon hname hvalue =>
        rw [readClause, cutAtColon_append hcolon]
        simp only [hname, Field.ofName?_name]
        exact Clause.read_eq_error_iff.mpr hvalue

/-! ## Adding what a part says -/

namespace Fields

/-- Has the field a value? -/
def has (fields : Fields) : Field → Bool
  | .feature => fields.feature?.isSome
  | .scenario => fields.scenario?.isSome
  | .params => fields.params?.isSome

def put (fields : Fields) : Clause → Fields
  | .feature name => { fields with feature? := some name }
  | .scenario name => { fields with scenario? := some name }
  | .params bindings => { fields with params? := some bindings }

def putOnce (fields : Fields) (clause : Clause) :
    Except DirectiveError Fields :=
  if fields.has clause.field then .error (.duplicateField clause.field)
  else .ok (fields.put clause)

theorem setOnce_map_eq {α : Type} {fields : Fields} {field : Field}
    {current : Option α} {fill : Option α → Fields} (clause : α → Clause)
    (hcurrent : fields.has field = current.isSome)
    (hfield : ∀ a, (clause a).field = field)
    (hfill : ∀ a, fill (some a) = fields.put (clause a))
    (value : Except DirectiveError α) :
    (setOnce field current value).map fill =
      clause <$> value >>= fields.putOnce := by
  cases value with
  | error fault => rfl
  | ok a =>
      change _ = fields.putOnce (clause a)
      rw [putOnce, hfield, hcurrent]
      cases current with
      | none => exact congrArg Except.ok (hfill a)
      | some old => rfl

/-- What a part says does not depend on the parts before it; only that it may be
said does. -/
theorem add_eq_bind (fields : Fields) (part : Text) :
    fields.add part = readClause part >>= fields.putOnce := by
  rw [add, readClause]
  cases part.cutAtColon with
  | none => rfl
  | some sides =>
      obtain ⟨name, value⟩ := sides
      simp only
      cases Field.ofName? name.trim with
      | none => rfl
      | some field =>
          cases field with
          | feature =>
              exact setOnce_map_eq .feature rfl (fun _ => rfl) (fun _ => rfl) _
          | scenario =>
              exact setOnce_map_eq .scenario rfl (fun _ => rfl) (fun _ => rfl) _
          | params =>
              exact setOnce_map_eq .params rfl (fun _ => rfl) (fun _ => rfl) _

/-- The fields after these clauses. -/
def ofClauses (clauses : List Clause) : Fields :=
  clauses.foldl put empty

theorem ofClauses_concat (clauses : List Clause) (clause : Clause) :
    ofClauses (clauses ++ [clause]) = (ofClauses clauses).put clause :=
  List.foldl_append ..

theorem has_put (fields : Fields) (clause : Clause) (field : Field) :
    (fields.put clause).has field = true ↔
      fields.has field = true ∨ clause.field = field := by
  cases clause <;> cases field <;> simp [put, has, Clause.field]

theorem has_ofClauses {clauses : List Clause} {field : Field} :
    (ofClauses clauses).has field = true ↔
      field ∈ clauses.map Clause.field := by
  induction clauses using List.reverseRecOn with
  | nil => cases field <;> simp [ofClauses, empty, has]
  | append_singleton clauses clause ih =>
      rw [ofClauses_concat, has_put, ih, List.map_append, List.mem_append,
        List.map_singleton, List.mem_singleton, eq_comm (a := field)]

theorem nodup_fields_concat {clauses : List Clause} {clause : Clause} :
    ((clauses ++ [clause]).map Clause.field).Nodup ↔
      clause.field ∉ clauses.map Clause.field ∧
        (clauses.map Clause.field).Nodup := by
  rw [List.map_append, List.map_singleton, ← List.concat_eq_append,
    List.nodup_concat]

section Clauses

variable {clauses : List Clause}

theorem add_ofClauses_eq_ok_iff {part : Text} {fields : Fields} :
    (ofClauses clauses).add part = .ok fields ↔
      ∃ clause, Says part clause ∧
        clause.field ∉ clauses.map Clause.field ∧
        fields = ofClauses (clauses ++ [clause]) := by
  rw [add_eq_bind, bind_eq_ok_iff]
  refine exists_congr fun clause => ?_
  rw [readClause_eq_ok_iff, putOnce, ofClauses_concat, ← has_ofClauses]
  by_cases hhas : (ofClauses clauses).has clause.field = true
  · simp [hhas]
  · simp [hhas, eq_comm]

theorem add_ofClauses_eq_error_iff {part : Text} {fault : DirectiveError} :
    (ofClauses clauses).add part = .error fault ↔
      Offends clauses part fault := by
  rw [add_eq_bind, bind_eq_error_iff, readClause_eq_error_iff]
  constructor
  · rintro (hfaulty | ⟨clause, hclause, hput⟩)
    · exact .faulty hfaulty
    · rw [readClause_eq_ok_iff] at hclause
      unfold putOnce at hput
      split at hput
      · next hhas =>
          cases hput
          exact .repeated hclause (has_ofClauses.mp hhas)
      · contradiction
  · rintro (hfaulty | ⟨hclause, hmem⟩)
    · exact Or.inl hfaulty
    · refine Or.inr ⟨_, readClause_eq_ok_iff.mpr hclause, ?_⟩
      rw [putOnce, if_pos (has_ofClauses.mpr hmem)]

/-- From clause to clause, whatever was said before. -/
theorem foldlM_add_eq_ok_iff {parts : List Text} {fields : Fields}
    (hclauses : (clauses.map Clause.field).Nodup) :
    parts.foldlM add (ofClauses clauses) = .ok fields ↔
      ∃ more, List.Forall₂ Says parts more ∧
        ((clauses ++ more).map Clause.field).Nodup ∧
        fields = ofClauses (clauses ++ more) := by
  induction parts generalizing clauses with
  | nil =>
      simp only [List.foldlM_nil, List.forall₂_nil_left_iff,
        exists_eq_left, List.append_nil]
      constructor
      · intro h
        cases h
        exact ⟨hclauses, rfl⟩
      · rintro ⟨-, rfl⟩
        rfl
  | cons part parts ih =>
      rw [List.foldlM_cons, bind_eq_ok_iff]
      constructor
      · rintro ⟨next, hnext, hrest⟩
        obtain ⟨clause, hclause, hnew, rfl⟩ :=
          add_ofClauses_eq_ok_iff.mp hnext
        obtain ⟨more, hmore, hnodup, rfl⟩ :=
          (ih (nodup_fields_concat.mpr ⟨hnew, hclauses⟩)).mp hrest
        rw [← List.append_cons] at hnodup ⊢
        exact ⟨clause :: more, .cons hclause hmore, hnodup, rfl⟩
      · rintro ⟨all, hall, hnodup, rfl⟩
        obtain ⟨clause, more, hclause, hmore, rfl⟩ :=
          List.forall₂_cons_left_iff.mp hall
        rw [List.append_cons] at hnodup
        have hfirst : ((clauses ++ [clause]).map Clause.field).Nodup := by
          rw [List.map_append] at hnodup
          exact (List.nodup_append.mp hnodup).1
        have hnew := (nodup_fields_concat.mp hfirst).1
        have hall : ofClauses (clauses ++ clause :: more) =
            ofClauses (clauses ++ [clause] ++ more) :=
          congrArg ofClauses (List.append_cons ..)
        exact ⟨_, add_ofClauses_eq_ok_iff.mpr ⟨clause, hclause, hnew, rfl⟩,
          (ih hfirst).mpr ⟨more, hmore, hnodup, hall⟩⟩

end Clauses

theorem foldlM_add_empty_eq_ok_iff {parts : List Text} {fields : Fields} :
    parts.foldlM add empty = .ok fields ↔
      ∃ clauses, SayAll parts clauses ∧ fields = ofClauses clauses := by
  have h : parts.foldlM add (ofClauses []) = .ok fields ↔ _ :=
    foldlM_add_eq_ok_iff List.nodup_nil
  rw [show empty = ofClauses [] from rfl, h]
  refine exists_congr fun clauses => ?_
  rw [List.nil_append, ← and_assoc]
  exact and_congr_left fun _ =>
    ⟨fun h => ⟨h.1, h.2⟩, fun h => ⟨h.forall₂, h.nodup⟩⟩

theorem foldlM_add_empty_eq_error_iff {parts : List Text}
    {fault : DirectiveError} :
    parts.foldlM add empty = .error fault ↔
      ∃ earlier part later clauses, parts = earlier ++ part :: later ∧
        SayAll earlier clauses ∧ Offends clauses part fault := by
  rw [foldlM_eq_error_iff]
  constructor
  · rintro ⟨earlier, part, later, fields, hparts, hearlier, hpart⟩
    obtain ⟨clauses, hsay, rfl⟩ := foldlM_add_empty_eq_ok_iff.mp hearlier
    exact ⟨earlier, part, later, clauses, hparts, hsay,
      add_ofClauses_eq_error_iff.mp hpart⟩
  · rintro ⟨earlier, part, later, clauses, hparts, hsay, hoffends⟩
    exact ⟨earlier, part, later, _, hparts,
      foldlM_add_empty_eq_ok_iff.mpr ⟨clauses, hsay, rfl⟩,
      add_ofClauses_eq_error_iff.mpr hoffends⟩

/-! ## What the fields hold -/

def Holds (fields : Fields) : Clause → Prop
  | .feature name => fields.feature? = some name
  | .scenario name => fields.scenario? = some name
  | .params bindings => fields.params? = some bindings

theorem holds_put {fields : Fields} {clause other : Clause} :
    (fields.put clause).Holds other ↔
      other = clause ∨ other.field ≠ clause.field ∧ fields.Holds other := by
  cases clause <;> cases other <;>
    simp [put, Holds, Clause.field, eq_comm]

theorem holds_ofClauses_iff {clauses : List Clause}
    (h : (clauses.map Clause.field).Nodup) {clause : Clause} :
    (ofClauses clauses).Holds clause ↔ clause ∈ clauses := by
  induction clauses using List.reverseRecOn with
  | nil => cases clause <;> simp [ofClauses, empty, Holds]
  | append_singleton clauses last ih =>
      obtain ⟨hnew, hnodup⟩ := nodup_fields_concat.mp h
      have hother : clause ∈ clauses → clause.field ≠ last.field :=
        fun hmem heq => hnew (heq ▸ List.mem_map_of_mem hmem)
      rw [ofClauses_concat, holds_put, ih hnodup, List.mem_append,
        List.mem_singleton, or_comm, and_iff_right_of_imp hother]

theorem toDirective_eq_ok_iff {fields : Fields} {directive : Directive} :
    fields.toDirective = .ok directive ↔
      fields.Holds (.feature directive.feature) ∧
      fields.Holds (.scenario directive.scenario) ∧
      (fields.Holds (.params directive.bindings) ∨
        directive.bindings = [] ∧
          ∀ bindings, ¬ fields.Holds (.params bindings)) := by
  obtain ⟨feature, scenario, bindings⟩ := directive
  rcases fields with ⟨_ | _, _ | _, _ | _⟩ <;>
    simp [toDirective, Holds, eq_comm]

theorem toDirective_eq_error_iff {fields : Fields} {fault : DirectiveError} :
    fields.toDirective = .error fault ↔
      (∀ name, ¬ fields.Holds (.feature name)) ∧
        fault = .missingField .feature ∨
      (∃ name, fields.Holds (.feature name)) ∧
        (∀ name, ¬ fields.Holds (.scenario name)) ∧
        fault = .missingField .scenario := by
  rcases fields with ⟨_ | _, _ | _, _⟩ <;>
    simp [toDirective, Holds, eq_comm]

end Fields

/-! ## Reading the whole tag -/

section Given

variable {clauses : List Clause} (h : (clauses.map Clause.field).Nodup)

include h

theorem toDirective_ofClauses_eq_ok_iff {directive : Directive} :
    (Fields.ofClauses clauses).toDirective = .ok directive ↔
      Gives clauses directive := by
  simp only [Fields.toDirective_eq_ok_iff, Fields.holds_ofClauses_iff h]
  exact ⟨fun ⟨hfeature, hscenario, hparams⟩ => ⟨hfeature, hscenario, hparams⟩,
    fun hgives => ⟨hgives.feature, hgives.scenario, hgives.params⟩⟩

theorem toDirective_ofClauses_eq_error_iff {fault : DirectiveError} :
    (Fields.ofClauses clauses).toDirective = .error fault ↔
      (∀ name, .feature name ∉ clauses) ∧ fault = .missingField .feature ∨
      (∃ name, .feature name ∈ clauses) ∧
        (∀ name, .scenario name ∉ clauses) ∧
        fault = .missingField .scenario := by
  simp only [Fields.toDirective_eq_error_iff, Fields.holds_ofClauses_iff h]

end Given

section Whole

variable {tag : Tag} {body : Text} (h : argumentList tag = .ok body)

include h

theorem ofTag_eq_bind :
    ofTag tag =
      (items body).foldlM Fields.add Fields.empty >>= Fields.toDirective := by
  rw [ofTag, h]
  rfl

theorem ofTag_eq_ok_iff {directive : Directive} :
    ofTag tag = .ok directive ↔ WellFormed (items body) directive := by
  rw [ofTag_eq_bind h, bind_eq_ok_iff]
  simp only [Fields.foldlM_add_empty_eq_ok_iff]
  constructor
  · rintro ⟨_, ⟨clauses, hsay, rfl⟩, hdirective⟩
    exact ⟨clauses, hsay,
      (toDirective_ofClauses_eq_ok_iff hsay.nodup).mp hdirective⟩
  · rintro ⟨clauses, hsay, hgives⟩
    exact ⟨_, ⟨clauses, hsay, rfl⟩,
      (toDirective_ofClauses_eq_ok_iff hsay.nodup).mpr hgives⟩

theorem ofTag_eq_error_iff {fault : DirectiveError} :
    ofTag tag = .error fault ↔ IllFormed (items body) fault := by
  rw [ofTag_eq_bind h, bind_eq_error_iff, Fields.foldlM_add_empty_eq_error_iff]
  simp only [Fields.foldlM_add_empty_eq_ok_iff]
  constructor
  · rintro (⟨earlier, part, later, clauses, hparts, hsay, hoffends⟩ |
      ⟨_, ⟨clauses, hsay, rfl⟩, hmissing⟩)
    · exact .part hparts hsay hoffends
    · rcases (toDirective_ofClauses_eq_error_iff hsay.nodup).mp hmissing with
        ⟨hnone, rfl⟩ | ⟨⟨name, hname⟩, hnone, rfl⟩
      · exact .noFeature hsay hnone
      · exact .noScenario hsay hname hnone
  · intro hill
    cases hill with
    | part hparts hsay hoffends =>
        exact Or.inl ⟨_, _, _, _, hparts, hsay, hoffends⟩
    | @noFeature clauses hsay hnone =>
        exact Or.inr ⟨_, ⟨clauses, hsay, rfl⟩,
          (toDirective_ofClauses_eq_error_iff hsay.nodup).mpr
            (Or.inl ⟨hnone, rfl⟩)⟩
    | @noScenario clauses name hsay hname hnone =>
        exact Or.inr ⟨_, ⟨clauses, hsay, rfl⟩,
          (toDirective_ofClauses_eq_error_iff hsay.nodup).mpr
            (Or.inr ⟨⟨name, hname⟩, hnone, rfl⟩)⟩

end Whole

/-- An include tag with an argument list is a directive exactly if the list is
well formed, and then it is that directive.  Otherwise its fault is what is wrong
with the list. -/
theorem ofTag_exact {tag : Tag} {gap : Gap} {body : Text}
    (h : Text.trim tag =
      '@' :: Tag.includeName ++ (gap.text ++ '(' :: (body ++ [')']))) :
    (∀ directive, ofTag tag = .ok directive ↔
      WellFormed (items body) directive) ∧
    (∀ fault, ofTag tag = .error fault ↔ IllFormed (items body) fault) := by
  have hbody : argumentList tag = .ok body :=
    argumentList_eq_ok_iff.mpr ⟨gap, h⟩
  exact ⟨fun _ => ofTag_eq_ok_iff hbody, fun _ => ofTag_eq_error_iff hbody⟩

/-! ## A list in disorder -/

def disorderedList : Text :=
  "scenario : A ,, params: [<k>: v (1, 2), j : ], feature:lib ,".toList

/-- The second name is blank, and it repeats a field, and behind it is a part
without a colon. -/
def repeatedList : Text :=
  "feature: lib, feature: , scenario".toList

theorem ofTag_exact_disorderedList :
    WellFormed (items disorderedList)
      ⟨"lib".toList, "A".toList,
        [⟨"k".toList, "v (1, 2)".toList⟩, ⟨"j".toList, []⟩]⟩ ∧
    IllFormed (items repeatedList) (.missingField .feature) := by
  have hdisordered : Text.trim ("@include (".toList ++ disorderedList ++ [')']) =
      '@' :: Tag.includeName ++ ((Gap.single ' ' (by decide)).text ++
        '(' :: (disorderedList ++ [')'])) := by
    decide +kernel
  have hrepeated : Text.trim ("@include(".toList ++ repeatedList ++ [')']) =
      '@' :: Tag.includeName ++ (Gap.empty.text ++
        '(' :: (repeatedList ++ [')'])) := by
    decide +kernel
  exact ⟨((ofTag_exact hdisordered).1 _).mp (by cbv),
    ((ofTag_exact hrepeated).2 _).mp (by cbv)⟩

end Directive

end ScenarioInclusion
