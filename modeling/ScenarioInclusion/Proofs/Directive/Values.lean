import ScenarioInclusion.Proofs.Text.Margins
import Mathlib.Data.List.Basic

/-!
# Values are cut out of tags

The words of a line are pieces of it, and so are the parts of an argument list
and what is on both sides of a colon.  Trimming a piece leaves a piece.  So every
value that a tag binds is made of characters of that tag.
-/

namespace ScenarioInclusion

open Text

/-! ## What is cut out of a text -/

namespace Text

theorem trim_subset (text : Text) : text.trim ⊆ text := fun _ hc =>
  (trimStart_suffix text).subset ((isPrefix_trimEnd text.trimStart).subset hc)

theorem subset_of_mem_words {text word : Text} (h : word ∈ words text) :
    word ⊆ text := by
  fun_induction words text with
  | case1 => contradiction
  | case2 c rest hc ih => exact List.subset_cons_of_subset c (ih h)
  | case3 => contradiction
  | case4 c rest hc hcomment ih =>
      have hsplit := restOfWord_append_afterWord 0 rest
      have hword : restOfWord 0 rest ⊆ rest :=
        fun d hd => hsplit ▸ List.mem_append_left _ hd
      have hafter : afterWord 0 rest ⊆ rest :=
        fun d hd => hsplit ▸ List.mem_append_right _ hd
      rcases List.mem_cons.mp h with rfl | hmem
      · exact List.cons_subset_cons c hword
      · exact List.subset_cons_of_subset c (List.Subset.trans (ih hmem) hafter)

theorem subset_of_mem_intercalate {part : Text} {parts : List Text}
    (h : part ∈ parts) (separator : Text) :
    part ⊆ List.intercalate separator parts := by
  induction parts with
  | nil => contradiction
  | cons first rest ih =>
      cases rest with
      | nil => simp_all [List.intercalate]
      | cons next rest =>
          have hjoin : List.intercalate separator (first :: next :: rest) =
              first ++ (separator ++
                List.intercalate separator (next :: rest)) := by
            simp [List.intercalate]
          rw [hjoin]
          rcases List.mem_cons.mp h with rfl | hmem
          · exact List.subset_append_left _ _
          · intro c hc
            simp [ih hmem hc]

theorem subset_of_mem_parts {text part : Text} (h : part ∈ text.parts) :
    part ⊆ text := by
  have hpart := subset_of_mem_intercalate h [',']
  rwa [parts, intercalate_partsFrom] at hpart

theorem subset_of_cutAtColon {text before after : Text}
    (h : cutAtColon text = some (before, after)) : after ⊆ text := by
  rw [eq_append_of_cutAtColon h]
  intro c hc
  simp [hc]

theorem subset_of_between? {opening closing : Char} {text inner : Text}
    (h : between? opening closing text = some inner) : inner ⊆ text := by
  rw [between?_eq_some_iff.mp h]
  intro c hc
  simp [hc]

end Text

theorem Line.subset_of_mem_tags {line : Line} {tag : Tag}
    (h : tag ∈ line.tags) : tag ⊆ line :=
  subset_of_mem_words (List.mem_filter.mp h).1

/-! ## What a tag binds -/

namespace Directive

theorem subset_of_mem_items {text item : Text} (h : item ∈ items text) :
    item ⊆ text := by
  obtain ⟨part, hpart, rfl⟩ := List.mem_map.mp (List.mem_filter.mp h).1
  exact List.Subset.trans (trim_subset part) (subset_of_mem_parts hpart)

theorem subset_of_argumentList {tag : Tag} {body : Text}
    (h : argumentList tag = .ok body) : body ⊆ tag := by
  obtain ⟨gap, htrim⟩ := argumentList_eq_ok_iff.mp h
  have hbody : body ⊆ Text.trim tag := by
    rw [htrim]
    intro c hc
    simp [hc]
  exact List.Subset.trans hbody (trim_subset tag)

theorem value_subset_of_readBinding {entry : Text} {binding : Binding}
    (h : readBinding entry = .ok binding) : binding.value ⊆ entry := by
  unfold readBinding at h
  split at h
  · contradiction
  · next spelling value hcut =>
      split at h
      · contradiction
      · injection h with heq
        rw [← heq]
        exact List.Subset.trans (trim_subset value) (subset_of_cutAtColon hcut)

theorem values_subset_of_readParams {value : Text} {bindings : Bindings}
    (h : readParams value = .ok bindings) :
    ∀ binding ∈ bindings, binding.value ⊆ value := by
  unfold readParams at h
  split at h
  · contradiction
  · next inner hinner =>
      intro binding hbinding
      obtain ⟨entry, hentry, hread⟩ :=
        exists_mem_of_forall₂ (mapM_eq_ok_iff_forall₂.mp h) binding hbinding
      calc
        binding.value ⊆ entry := value_subset_of_readBinding hread
        _ ⊆ inner := subset_of_mem_items hentry
        _ ⊆ value := subset_of_between? hinner

namespace Fields

theorem setOnce_eq_ok {α : Type} {field : Field} {current new : Option α}
    {value : Except DirectiveError α}
    (h : setOnce field current value = .ok new) :
    ∃ a, value = .ok a ∧ new = some a := by
  unfold setOnce at h
  split at h
  · contradiction
  · contradiction
  · next a =>
      injection h with heq
      exact ⟨a, rfl, heq.symm⟩

/-- Are all values that the fields bind cut out of the text? -/
def BindsFrom (fields : Fields) (text : Text) : Prop :=
  ∀ bindings ∈ fields.params?, ∀ binding ∈ bindings, binding.value ⊆ text

theorem BindsFrom.add {fields next : Fields} {text part : Text}
    (hfields : fields.BindsFrom text) (hpart : part ⊆ text)
    (h : fields.add part = .ok next) : next.BindsFrom text := by
  unfold Fields.add at h
  split at h
  · contradiction
  · next name value hcut =>
      split at h
      · contradiction
      · obtain ⟨feature?, -, rfl⟩ := map_eq_ok_iff.mp h
        exact hfields
      · obtain ⟨scenario?, -, rfl⟩ := map_eq_ok_iff.mp h
        exact hfields
      · obtain ⟨params?, hset, rfl⟩ := map_eq_ok_iff.mp h
        obtain ⟨bindings, hread, rfl⟩ := setOnce_eq_ok hset
        intro bindings' hbindings binding hbinding
        injection hbindings with heq
        rw [← heq] at hbinding
        calc
          binding.value ⊆ value.trim :=
            values_subset_of_readParams hread binding hbinding
          _ ⊆ value := trim_subset value
          _ ⊆ part := subset_of_cutAtColon hcut
          _ ⊆ text := hpart

theorem BindsFrom.toDirective {fields : Fields} {text : Text}
    {directive : Directive} (hfields : fields.BindsFrom text)
    (h : fields.toDirective = .ok directive) :
    ∀ binding ∈ directive.bindings, binding.value ⊆ text := by
  unfold Fields.toDirective at h
  split at h
  · contradiction
  · contradiction
  · next feature scenario params? =>
      injection h with heq
      rw [← heq]
      cases params? with
      | none => exact List.forall_mem_nil _
      | some bindings => exact hfields bindings rfl

end Fields

theorem values_subset_of_ofTag {tag : Tag} {directive : Directive}
    (h : ofTag tag = .ok directive) :
    ∀ binding ∈ directive.bindings, binding.value ⊆ tag := by
  unfold ofTag at h
  obtain ⟨body, hbody, h⟩ := bind_eq_ok_iff.mp h
  obtain ⟨fields, hfields, h⟩ := bind_eq_ok_iff.mp h
  have hstep : ∀ part ∈ items body, ∀ fields next : Fields,
      fields.BindsFrom tag → fields.add part = .ok next →
        next.BindsFrom tag := by
    intro part hpart fields next hbinds hadd
    refine hbinds.add ?_ hadd
    exact List.Subset.trans (subset_of_mem_items hpart)
      (subset_of_argumentList hbody)
  have hempty : Fields.empty.BindsFrom tag := by
    intro bindings hbindings
    contradiction
  exact (foldlM_invariant hstep hfields hempty).toDirective h

end Directive

end ScenarioInclusion
