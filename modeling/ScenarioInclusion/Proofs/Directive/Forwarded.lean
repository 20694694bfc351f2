import ScenarioInclusion.Proofs.Directive.Grammar
import ScenarioInclusion.Proofs.Substitution.Plain

/-!
# Forwarding bindings

The include tags of an included scenario are filled in before they are read.  If
their placeholders and the values for them are plain, it is as if they had been
filled in afterwards: what was read is there again, with the values in what it
says.  The keys that it binds are no place for placeholders.
-/

namespace ScenarioInclusion

open Text

/-! ## Filling in what was read -/

def Binding.forward (bindings : Bindings) (binding : Binding) : Binding :=
  ⟨binding.key, bindings.substitute binding.value⟩

namespace Directive

/-- The directive with the bindings filled into all that it says but the
keys. -/
def forward (bindings : Bindings) (directive : Directive) : Directive where
  feature := bindings.substitute directive.feature
  scenario := bindings.substitute directive.scenario
  bindings := directive.bindings.map (Binding.forward bindings)

def Clause.forward (bindings : Bindings) : Clause → Clause
  | .feature name => .feature (bindings.substitute name)
  | .scenario name => .scenario (bindings.substitute name)
  | .params own => .params (own.map (Binding.forward bindings))

@[simp] theorem Clause.field_forward (bindings : Bindings) (clause : Clause) :
    (clause.forward bindings).field = clause.field := by
  cases clause <;> rfl

theorem Gives.forward {clauses : List Clause} {directive : Directive}
    (h : Gives clauses directive) (bindings : Bindings) :
    Gives (clauses.map (Clause.forward bindings))
      (directive.forward bindings) where
  feature := List.mem_map_of_mem h.feature
  scenario := List.mem_map_of_mem h.scenario
  params := by
    rcases h.params with hparams | ⟨hnil, hnone⟩
    · exact Or.inl (List.mem_map_of_mem hparams)
    · refine Or.inr ⟨by rw [Directive.forward, hnil, List.map_nil], ?_⟩
      intro own hmem
      obtain ⟨clause, hclause, heq⟩ := List.mem_map.mp hmem
      cases clause with
      | feature name => cases heq
      | scenario name => cases heq
      | params other => exact hnone other hclause

/-! ## The keys of a tag -/

/-- The list in brackets, if the part gives the parameters. -/
def paramsOf? (part : Text) : Option Text :=
  match part.cutAtColon with
  | none => none
  | some (name, value) =>
    if name.trim = Field.params.name then value.trim.between? '[' ']'
    else none

/-- The keys of a list of parameters as they are spelled. -/
def spellings (inner : Text) : List Text :=
  (items inner).filterMap fun entry => entry.cutAtColon.map Prod.fst

/-- The keys that a tag binds, as they are spelled in it. -/
def keySpellings (tag : Tag) : List Text :=
  match argumentList tag with
  | .error _ => []
  | .ok body => ((items body).filterMap paramsOf?).flatMap spellings

theorem mem_spellings {inner spelling value : Text}
    (h : spelling ++ ':' :: value ∈ items inner) (hcolon : ':' ∉ spelling) :
    spelling ∈ spellings inner := by
  refine List.mem_filterMap.mpr ⟨_, h, ?_⟩
  rw [cutAtColon_append hcolon]
  rfl

theorem paramsOf?_part {name value inner : Text} (hcolon : ':' ∉ name)
    (hname : name.trim = Field.params.name)
    (hvalue : value.trim = '[' :: (inner ++ [']'])) :
    paramsOf? (name ++ ':' :: value) = some inner := by
  rw [paramsOf?, cutAtColon_append hcolon]
  simp only [if_pos hname]
  exact between?_eq_some_iff.mpr hvalue

theorem mem_keySpellings {tag : Tag} {body part inner spelling : Text}
    (hbody : argumentList tag = .ok body) (hpart : part ∈ items body)
    (hinner : paramsOf? part = some inner)
    (hspelling : spelling ∈ spellings inner) :
    spelling ∈ keySpellings tag := by
  rw [keySpellings, hbody]
  exact List.mem_flatMap.mpr
    ⟨inner, List.mem_filterMap.mpr ⟨part, hpart, hinner⟩, hspelling⟩

/-! ## Reading both texts -/

theorem opening_not_mem_name (field : Field) : '<' ∉ field.name := by
  cases field <;> decide

theorem forall₂_forward {α β γ : Type} {R : α → β → Prop} {S : α → α → Prop}
    {T : α → γ → Prop} {forward : β → γ} {xs xs' : List α} {ys : List β}
    (hread : List.Forall₂ R xs ys) (hfills : List.Forall₂ S xs xs')
    (h : ∀ x ∈ xs, ∀ y x', R x y → S x x' → T x' (forward y)) :
    List.Forall₂ T xs' (ys.map forward) := by
  induction hread generalizing xs' with
  | nil =>
      cases hfills
      exact .nil
  | cons hhead _ ih =>
      cases hfills with
      | cons hfirst hmore =>
          obtain ⟨hx, hxs⟩ := List.forall_mem_cons.mp h
          exact .cons (hx _ _ hhead hfirst) (ih hmore hxs)

section Fills

variable {bindings : Bindings}

theorem exists_brackets {text filled : Text} {opening closing : Char}
    (hopening : opening ∈ ['(', ')', '[', ']', ',', ':'])
    (hclosing : closing ∈ ['(', ')', '[', ']', ',', ':']) {front : Text}
    (hfront : '<' ∉ front)
    (h : bindings.Fills (front ++ opening :: (text ++ [closing])) filled) :
    ∃ inner, filled = front ++ opening :: (inner ++ [closing]) ∧
      bindings.Fills text inner := by
  obtain ⟨before, rest, rfl, hbefore, hrest⟩ := h.exists_cut hopening
  obtain ⟨inner, after, rfl, hinner, hafter⟩ := hrest.exists_cut hclosing
  rw [hbefore.eq_of_not_mem hfront, hafter.eq_of_not_mem List.not_mem_nil]
  exact ⟨inner, rfl, hinner⟩

variable (hvalues : bindings.HasPlainValues)

include hvalues

theorem forall₂_items {text filled : Text} (h : bindings.Fills text filled) :
    List.Forall₂ bindings.Fills (items text) (items filled) := by
  have htrim : List.Forall₂ bindings.Fills (text.parts.map Text.trim)
      (filled.parts.map Text.trim) :=
    List.rel_map (fun _ _ hpart => hpart.trim hvalues) (h.partsFrom hvalues 0)
  refine List.rel_filter (fun _ _ hpart => ?_) htrim
  simp [hpart.eq_nil_iff hvalues]

theorem Declares.forward {inner entry filled : Text} {binding : Binding}
    (h : Declares entry binding) (hentry : entry ∈ items inner)
    (hkeys : ∀ spelling ∈ spellings inner, HoldsNoToken spelling)
    (hfills : bindings.Fills entry filled) :
    Declares filled (binding.forward bindings) := by
  cases h with
  | @entry spelling value hcolon hkey =>
      obtain ⟨spelling', value', rfl, hspelling, hvalue⟩ :=
        hfills.exists_cut (by decide)
      have hsame : spelling' = spelling := hspelling.eq_of_holdsNoToken
        (hkeys _ (mem_spellings hentry hcolon))
      rw [hsame, Binding.forward, ← (hvalue.trim hvalues).eq_substitute]
      exact .entry hcolon hkey

theorem Clause.HasValue.forward {clause : Clause} {value filled : Text}
    (h : clause.HasValue value)
    (hkeys : clause.field = .params →
      ∀ inner, value = '[' :: (inner ++ [']']) →
        ∀ spelling ∈ spellings inner, HoldsNoToken spelling)
    (hfills : bindings.Fills value filled) :
    (clause.forward bindings).HasValue filled := by
  have hne : value ≠ [] → filled ≠ [] := mt (hfills.eq_nil_iff hvalues).mpr
  cases h with
  | feature hname =>
      rw [Clause.forward, ← hfills.eq_substitute]
      exact .feature (hne hname)
  | scenario hname =>
      rw [Clause.forward, ← hfills.eq_substitute]
      exact .scenario (hne hname)
  | @params inner own hentries =>
      have hlist : bindings.Fills ([] ++ '[' :: (inner ++ [']'])) filled :=
        hfills
      obtain ⟨inner', rfl, hinner⟩ :=
        exists_brackets (by decide) (by decide) List.not_mem_nil hlist
      refine .params (forall₂_forward hentries (forall₂_items hvalues hinner) ?_)
      intro entry hentry binding entry' hdeclares hfill
      exact hdeclares.forward hvalues hentry (hkeys rfl inner rfl) hfill

theorem Says.forward {part filled : Text} {clause : Clause}
    (h : Says part clause)
    (hkeys : ∀ inner, paramsOf? part = some inner →
      ∀ spelling ∈ spellings inner, HoldsNoToken spelling)
    (hfills : bindings.Fills part filled) :
    Says filled (clause.forward bindings) := by
  cases h with
  | @part name value clause hcolon hname hvalue =>
      obtain ⟨name', value', rfl, hname', hvalue'⟩ :=
        hfills.exists_cut (by decide)
      have hopening : '<' ∉ name := by
        intro hmem
        have hletter := mem_trim_of_not_blank hmem (by decide)
        rw [hname] at hletter
        exact opening_not_mem_name clause.field hletter
      rw [hname'.eq_of_not_mem hopening]
      refine .part hcolon (by rw [Clause.field_forward, hname]) ?_
      refine hvalue.forward hvalues ?_ (hvalue'.trim hvalues)
      intro hfield inner hinner
      exact hkeys inner (paramsOf?_part hcolon (hfield ▸ hname) hinner)

theorem exists_argumentList_of_fills {tag filled : Tag} {body : Text}
    (hbody : argumentList tag = .ok body) (h : bindings.Fills tag filled) :
    ∃ body', argumentList filled = .ok body' ∧ bindings.Fills body body' := by
  obtain ⟨gap, htrim⟩ := argumentList_eq_ok_iff.mp hbody
  have hfills := h.trim hvalues
  have hfront : '<' ∉ '@' :: Tag.includeName ++ gap.text := by
    intro hmem
    rcases List.mem_append.mp hmem with hname | hgap
    · exact absurd hname (by decide)
    · exact absurd (gap.isBlank_of_mem _ hgap) (by decide)
  rw [htrim, ← List.append_assoc] at hfills
  obtain ⟨body', htrim', hbody'⟩ :=
    exists_brackets (by decide) (by decide) hfront hfills
  rw [List.append_assoc] at htrim'
  exact ⟨body', argumentList_eq_ok_iff.mpr ⟨gap, htrim'⟩, hbody'⟩

end Fills

/-- A tag that is filled in and then read is the directive that was read and then
filled in. -/
theorem ofTag_substitute {tag : Tag} {directive : Directive}
    {bindings : Bindings} (h : ofTag tag = .ok directive)
    (htag : OpensPlainNames tag)
    (hkeys : ∀ spelling ∈ keySpellings tag, HoldsNoToken spelling)
    (hvalues : bindings.HasPlainValues) :
    ofTag (bindings.substitute tag) = .ok (directive.forward bindings) := by
  obtain ⟨body, hbody, -⟩ := bind_eq_ok_iff.mp h
  obtain ⟨body', hbody', hfills⟩ := exists_argumentList_of_fills hvalues hbody
    (Bindings.fills_substitute htag)
  obtain ⟨clauses, hsay, hgives⟩ := (ofTag_eq_ok_iff hbody).mp h
  refine (ofTag_eq_ok_iff hbody').mpr
    ⟨clauses.map (Clause.forward bindings), ⟨?_, ?_⟩, hgives.forward bindings⟩
  · refine forall₂_forward hsay.forall₂ (forall₂_items hvalues hfills) ?_
    intro part hpart clause part' hsays hfill
    refine hsays.forward hvalues (fun inner hinner spelling hspelling => ?_) hfill
    exact hkeys spelling (mem_keySpellings hbody hpart hinner hspelling)
  · have hfields : (clauses.map (Clause.forward bindings)).map Clause.field =
        clauses.map Clause.field := by
      rw [List.map_map]
      exact List.map_congr_left fun clause _ => clause.field_forward bindings
    rw [hfields]
    exact hsay.nodup

/-! ## A forwarding tag -/

def forwardingTag : Tag :=
  "@include(feature: <dir>/lib, params: [at: <time>, to: <who>], scenario: A <n>)".toList

def forwardedBindings : Bindings :=
  [⟨"dir".toList, "a b".toList⟩, ⟨"time".toList, "10:30".toList⟩,
    ⟨"n".toList, "<who>".toList⟩]

/-- A colon in a value is no separator, and a placeholder without a value
stays. -/
theorem ofTag_substitute_forwardingTag :
    ofTag forwardingTag =
      .ok ⟨"<dir>/lib".toList, "A <n>".toList,
        [⟨"at".toList, "<time>".toList⟩, ⟨"to".toList, "<who>".toList⟩]⟩ ∧
    ofTag (forwardedBindings.substitute forwardingTag) =
      .ok ⟨"a b/lib".toList, "A <who>".toList,
        [⟨"at".toList, "10:30".toList⟩, ⟨"to".toList, "<who>".toList⟩]⟩ := by
  have htag : ofTag forwardingTag =
      .ok ⟨"<dir>/lib".toList, "A <n>".toList,
        [⟨"at".toList, "<time>".toList⟩, ⟨"to".toList, "<who>".toList⟩]⟩ := by
    cbv
  have hopens : OpensPlainNames forwardingTag := by decide +kernel
  have hkeys : ∀ spelling ∈ keySpellings forwardingTag, '<' ∉ spelling := by
    decide +kernel
  have hvalues : forwardedBindings.HasPlainValues := by decide +kernel
  refine ⟨htag, ?_⟩
  rw [ofTag_substitute htag hopens
    (fun spelling h => holdsNoToken_of_not_mem (hkeys spelling h)) hvalues]
  cbv

end Directive

end ScenarioInclusion
