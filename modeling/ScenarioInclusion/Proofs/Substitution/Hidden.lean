import ScenarioInclusion.Proofs.Substitution.Spelled
import Mathlib.Data.List.Infix

/-!
# Placeholders behind an open bracket

An opening bracket with a visible character behind it begins a name, and the
name goes on up to the next closing bracket, whatever there is in between.  A
bound placeholder behind such a bracket is hidden: it is the end of a longer
name that nothing is bound to, and it stays.

Every other bound placeholder is replaced.  So substitution puts values in
wherever a bound placeholder is spelled out exactly if the line hides none.
-/

namespace ScenarioInclusion

/-! ## Open brackets -/

/-- Does the text begin with an opening bracket and a name that nothing in it
closes? -/
def OpensName (text : Text) : Prop :=
  text.head? = some '<' ∧ (∃ c ∈ text.tail.head?, beginsName c = true) ∧
    '>' ∉ text

instance (text : Text) : Decidable (OpensName text) :=
  letI := Option.decidableExistsMem (p := fun c => beginsName c = true)
    text.tail.head?
  inferInstanceAs (Decidable (_ ∧ _ ∧ _))

/-- Is there an open bracket in the text, given that an opening bracket follows
the text? -/
def LeavesOpen (text : Text) : Prop :=
  ∃ late ∈ (text ++ ['<']).tails, OpensName late

instance (text : Text) : Decidable (LeavesOpen text) :=
  inferInstanceAs (Decidable (∃ late ∈ _, _))

theorem not_leavesOpen_nil : ¬ LeavesOpen [] := by
  decide

theorem leavesOpen_cons_iff {c : Char} {rest : Text} :
    LeavesOpen (c :: rest) ↔
      OpensName (c :: (rest ++ ['<'])) ∨ LeavesOpen rest := by
  simp [LeavesOpen]

theorem LeavesOpen.append {text : Text} (h : LeavesOpen text)
    (before : Text) : LeavesOpen (before ++ text) := by
  obtain ⟨late, hlate, hopens⟩ := h
  refine ⟨late, ?_, hopens⟩
  rw [List.mem_tails] at hlate ⊢
  rw [List.append_assoc]
  exact hlate.trans (List.suffix_append before _)

/-- A closing bracket leaves nothing open before it. -/
theorem leavesOpen_append_closing_iff {before rest : Text} :
    LeavesOpen (before ++ '>' :: rest) ↔ LeavesOpen rest := by
  induction before with
  | nil => simp [leavesOpen_cons_iff, OpensName]
  | cons c before ih =>
      have hclosed : ¬ OpensName (c :: (before ++ '>' :: rest ++ ['<'])) :=
        fun hopens => hopens.2.2 (by simp)
      rw [List.cons_append, leavesOpen_cons_iff, ih]
      exact or_iff_right hclosed

theorem opensName_bracket_iff {rest : Text} :
    OpensName ('<' :: (rest ++ ['<'])) ↔
      (∀ c ∈ rest.head?, beginsName c = true) ∧ '>' ∉ rest := by
  have hopening : beginsName '<' = true := by decide
  cases rest with
  | nil => simp [OpensName, hopening]
  | cons c rest => simp [OpensName]

/-- What a placeholder behind an open bracket becomes a part of. -/
theorem OpensName.isName {rest : Text}
    (h : OpensName ('<' :: (rest ++ ['<']))) {name : Text}
    (hname : IsName name) : IsName (rest ++ '<' :: name) := by
  obtain ⟨hbegins, hclosing⟩ := opensName_bracket_iff.mp h
  cases rest with
  | nil =>
      rw [List.nil_append, isName_cons_iff]
      exact ⟨by decide, hname.closing_not_mem⟩
  | cons c rest =>
      rw [List.cons_append, isName_cons_iff]
      simp only [List.mem_cons, not_or] at hclosing
      refine ⟨hbegins c rfl, ?_⟩
      simp [hclosing.2, hname.closing_not_mem]

/-- A bracket that begins no placeholder and is not open begins none either if
another bracket follows. -/
theorem not_startsToken_append {rest : Text} (hnone : readName rest = none)
    (hopens : ¬ OpensName ('<' :: (rest ++ ['<']))) (more : Text) :
    ¬ StartsToken ('<' :: (rest ++ '<' :: more)) := by
  have hread : readName (rest ++ '<' :: more) = none := by
    rw [opensName_bracket_iff] at hopens
    rw [readName_eq_none_iff] at hnone ⊢
    cases rest with
    | nil => simp at hopens
    | cons c rest =>
        by_cases hbegins : beginsName c = true
        · simp only [List.head?_cons, Option.mem_some_iff, forall_eq',
            hbegins, true_and, not_not] at hopens hnone
          simp [hopens] at hnone
        · simp [hbegins]
  rw [startsToken_cons_iff]
  rintro ⟨-, name, after, hname⟩
  rw [hread] at hname
  contradiction

/-! ## Substitution around a placeholder -/

theorem Line.noTokenBefore_of_closing_not_mem {text : Text} (h : '>' ∉ text) :
    NoTokenBefore text [] := by
  rintro late - hlate ⟨name, -, hstart⟩
  rw [List.append_nil] at hstart
  have hclosing : '>' ∈ (Piece.token name).text := by
    simp [Piece.text]
  exact h (hlate.subset (hstart.subset hclosing))

namespace Bindings

variable {bindings : Bindings}

theorem substitute_of_closing_not_mem {text : Text} (h : '>' ∉ text) :
    bindings.substitute text = text := by
  have hpieces := Line.pieces_append_of_noTokenBefore
    (Line.noTokenBefore_of_closing_not_mem h)
  rw [List.append_nil] at hpieces
  rw [substitute, hpieces]
  simp [Line.pieces, List.flatMap_map, fill]

theorem substitute_cons_of_not_startsToken {c : Char} {rest : Text}
    (h : ¬ StartsToken (c :: rest)) :
    bindings.substitute (c :: rest) = c :: bindings.substitute rest := by
  rw [substitute, Line.pieces_cons_of_not_startsToken h, List.flatMap_cons]
  rfl

theorem HasFlatKeys.valueOf?_eq_none (hkeys : bindings.HasFlatKeys)
    {name : Text} (h : '<' ∈ name) : bindings.valueOf? name = none := by
  cases hvalue : bindings.valueOf? name with
  | none => rfl
  | some value => exact absurd h (hkeys.of_valueOf? hvalue).opening_not_mem

/-- A placeholder is replaced if it is bound and not hidden.  What stands on
either side of it is substituted on its own. -/
theorem substitute_append_token (hkeys : bindings.HasFlatKeys) {name : Text}
    (hname : IsName name) (before after : Text) :
    bindings.substitute (before ++ ((Piece.token name).text ++ after)) =
      bindings.substitute before ++
        ((if LeavesOpen before then (Piece.token name).text
          else bindings.fill (.token name)) ++ bindings.substitute after) := by
  have hopening : (Piece.token name).text ++ after =
      '<' :: (name ++ ['>'] ++ after) := rfl
  fun_induction Line.pieces before with
  | case1 =>
      rw [if_neg not_leavesOpen_nil, substitute_nil_line]
      exact bindings.substitute_token hname after
  | case2 rest first more hread ih =>
      obtain ⟨hfirst, rfl⟩ := readName_eq_some_iff.mp hread
      have hiff : LeavesOpen ('<' :: (first ++ '>' :: more)) ↔
          LeavesOpen more := by
        rw [← List.cons_append, leavesOpen_append_closing_iff]
      have htext : '<' :: (first ++ '>' :: more) =
          (Piece.token first).text ++ more := by
        simp [Piece.text]
      simp only [hiff]
      rw [htext, List.append_assoc, bindings.substitute_token hfirst,
        bindings.substitute_token hfirst, ih, List.append_assoc]
  | case3 rest hread ih =>
      by_cases hopens : OpensName ('<' :: (rest ++ ['<']))
      · have hopen : LeavesOpen ('<' :: rest) :=
          leavesOpen_cons_iff.mpr (Or.inl hopens)
        have hclosing : '>' ∉ '<' :: rest := by
          simp [(opensName_bracket_iff.mp hopens).2]
        have htext : '<' :: rest ++ ((Piece.token name).text ++ after) =
            (Piece.token (rest ++ '<' :: name)).text ++ after := by
          simp [Piece.text]
        have hunbound : bindings.valueOf? (rest ++ '<' :: name) = none :=
          hkeys.valueOf?_eq_none (by simp)
        rw [if_pos hopen, substitute_of_closing_not_mem hclosing, htext,
          bindings.substitute_token (hopens.isName hname), fill, hunbound]
        simp [Piece.text]
      · have hiff : LeavesOpen ('<' :: rest) ↔ LeavesOpen rest := by
          simp [leavesOpen_cons_iff, hopens]
        have hplain : ¬ StartsToken ('<' :: rest) := by
          simp [startsToken_cons_iff, hread]
        have hplain' := not_startsToken_append hread hopens
          (name ++ ['>'] ++ after)
        rw [← hopening] at hplain'
        simp only [hiff]
        rw [List.cons_append, substitute_cons_of_not_startsToken hplain',
          substitute_cons_of_not_startsToken hplain, ih, List.cons_append]
  | case4 c rest hc ih =>
      have hiff : LeavesOpen (c :: rest) ↔ LeavesOpen rest := by
        simp [leavesOpen_cons_iff, OpensName, hc]
      simp only [hiff]
      rw [List.cons_append, bindings.substitute_cons_of_ne hc,
        bindings.substitute_cons_of_ne hc, ih, List.cons_append]

end Bindings

/-! ## Lines that hide no placeholder -/

/-- Does no placeholder with one of these names stand behind an open bracket? -/
def Line.HidesNone (line : Line) (names : List Text) : Prop :=
  ∀ before ∈ line.inits, ∀ name ∈ names,
    before ++ (Piece.token name).text <+: line → ¬ LeavesOpen before

instance (line : Line) (names : List Text) : Decidable (line.HidesNone names) :=
  inferInstanceAs (Decidable (∀ before ∈ _, ∀ name ∈ _, _))

theorem Line.hidesNone_iff {line : Line} {names : List Text} :
    line.HidesNone names ↔
      ∀ before name after, name ∈ names →
        line = before ++ ((Piece.token name).text ++ after) →
          ¬ LeavesOpen before := by
  constructor
  · intro h before name after hname hline
    have hprefix : before ++ (Piece.token name).text <+: line :=
      ⟨after, by rw [hline, List.append_assoc]⟩
    have hbefore : before ∈ line.inits :=
      (List.mem_inits _ _).mpr ((List.prefix_append _ _).trans hprefix)
    exact h before hbefore name hname hprefix
  · rintro h before - name hname ⟨after, hline⟩
    apply h before name after hname
    rw [← hline, List.append_assoc]

theorem Line.HidesNone.around {before middle after : Text} {names : List Text}
    (h : Line.HidesNone (before ++ (middle ++ after)) names) :
    Line.HidesNone before names ∧ Line.HidesNone after names := by
  rw [Line.hidesNone_iff] at h
  rw [Line.hidesNone_iff, Line.hidesNone_iff]
  constructor
  · rintro first name last hname rfl
    apply h first name (last ++ (middle ++ after)) hname
    simp
  · rintro first name last hname rfl hopen
    apply h (before ++ (middle ++ first)) name last hname
    · simp
    · rw [← List.append_assoc]
      exact hopen.append _

namespace Bindings

variable {bindings : Bindings}

theorem mem_keys_of_valueOf? {key value : Text}
    (h : bindings.valueOf? key = some value) :
    key ∈ bindings.map Binding.key := by
  rcases exists_binding_of_valueOf? h with ⟨binding, hmem, rfl, -⟩
  exact List.mem_map_of_mem hmem

theorem leavesAlone_of_spellsNone (hkeys : bindings.HasFlatKeys) {text : Text}
    (h : bindings.SpellsNone text) : bindings.LeavesAlone text := by
  intro piece hpiece
  cases piece with
  | plain c => rfl
  | token name =>
      have hname := Line.isName_of_mem_pieces hpiece
      obtain ⟨earlier, later, hpieces⟩ := List.append_of_mem hpiece
      have htext := Line.flatMap_text_pieces text
      rw [hpieces, List.flatMap_append, List.flatMap_cons] at htext
      have hnone := h _ ⟨_, htext⟩
      rw [spelledAt?_token hkeys hname] at hnone
      rw [binds, valueOf?, hnone]
      rfl

theorem substitute_eq_replaceEvery (hkeys : bindings.HasFlatKeys) (line : Line)
    (h : line.HidesNone (bindings.map Binding.key)) :
    bindings.substitute line = bindings.replaceEvery line := by
  induction line using occurrence_induction hkeys with
  | free text hfree =>
      rw [replaceEvery_of_spellsNone hfree,
        substitute_of_leavesAlone (leavesAlone_of_spellsNone hkeys hfree)]
  | occurrence before key value after hvalue ih ih' =>
      have hname := (hkeys.of_valueOf? hvalue).toIsName
      have hkey := mem_keys_of_valueOf? hvalue
      have hopen : ¬ LeavesOpen before :=
        Line.hidesNone_iff.mp h before key after hkey rfl
      rw [substitute_append_token hkeys hname, if_neg hopen,
        replaceEvery_append_token hkeys hvalue, ih h.around.1, ih' h.around.2,
        fill, hvalue]
      rfl

/-! ## Empty values -/

/-- Bindings of all these names to the empty text. -/
def erasing (names : List Text) : Bindings :=
  names.map fun name => ⟨name, []⟩

theorem map_key_erasing (names : List Text) :
    (erasing names).map Binding.key = names := by
  rw [erasing, List.map_map]
  exact List.map_id names

theorem valueOf?_erasing {names : List Text} {name : Text}
    (h : name ∈ names) : (erasing names).valueOf? name = some [] := by
  induction names with
  | nil => contradiction
  | cons first rest ih =>
      rw [erasing, List.map_cons, valueOf?_cons]
      by_cases hfirst : first = name
      · rw [if_pos hfirst]
      · rw [if_neg hfirst]
        exact ih ((List.mem_cons.mp h).resolve_left (Ne.symm hfirst))

section Erasing

variable {names : List Text} (hnames : ∀ name ∈ names, IsFlatName name)

include hnames

theorem hasFlatKeys_erasing : (erasing names).HasFlatKeys := by
  intro key hkey
  rw [map_key_erasing] at hkey
  exact hnames key hkey

/-- Nothing is left of a placeholder that is replaced by the empty text, and all
of one that stays. -/
theorem length_replaceEvery_erasing_le (text : Text) :
    ((erasing names).replaceEvery text).length ≤
      ((erasing names).substitute text).length := by
  have hkeys := hasFlatKeys_erasing hnames
  induction text using occurrence_induction hkeys with
  | free text hfree =>
      rw [replaceEvery_of_spellsNone hfree,
        substitute_of_leavesAlone (leavesAlone_of_spellsNone hkeys hfree)]
  | occurrence before key value after hvalue ih ih' =>
      have hname := (hkeys.of_valueOf? hvalue).toIsName
      have hmem := mem_keys_of_valueOf? hvalue
      rw [map_key_erasing] at hmem
      have hempty := valueOf?_erasing hmem
      rw [substitute_append_token hkeys hname,
        replaceEvery_append_token hkeys hempty]
      simp only [List.length_append, List.length_nil]
      omega

end Erasing

/-- Substitution puts the values in wherever a bound placeholder is spelled out,
for all values of these names, if and only if the line hides none of their
placeholders. -/
theorem substitute_eq_replaceEvery_iff {names : List Text}
    (hnames : ∀ name ∈ names, IsFlatName name) (line : Line) :
    (∀ bindings : Bindings, bindings.map Binding.key = names →
      bindings.substitute line = bindings.replaceEvery line) ↔
      line.HidesNone names := by
  constructor
  · intro h
    rw [Line.hidesNone_iff]
    rintro before name after hname rfl hopen
    have hkeys := hasFlatKeys_erasing hnames
    have hlength := congrArg List.length
      (h (erasing names) (map_key_erasing names))
    rw [substitute_append_token hkeys (hnames name hname).toIsName,
      if_pos hopen, replaceEvery_append_token hkeys (valueOf?_erasing hname)]
      at hlength
    simp only [List.length_append, List.length_nil, Piece.text,
      List.length_cons] at hlength
    have hbefore := length_replaceEvery_erasing_le hnames before
    have hafter := length_replaceEvery_erasing_le hnames after
    omega
  · rintro h bindings rfl
    exact substitute_eq_replaceEvery hnames line h

/-! ## A number that is compared -/

def comparedLine : Line := "<a> <5 <a>".toList

def comparedBindings : Bindings := [⟨"a".toList, "1".toList⟩]

def spacedLine : Line := "<a> < 5 <a> <b>".toList

theorem substitute_eq_replaceEvery_spacedLine :
    comparedBindings.substitute spacedLine =
        comparedBindings.replaceEvery spacedLine ∧
      comparedBindings.replaceEvery spacedLine = "1 < 5 1 <b>".toList ∧
      ¬ ∀ bindings : Bindings,
        bindings.map Binding.key = comparedBindings.map Binding.key →
          bindings.substitute comparedLine =
            bindings.replaceEvery comparedLine := by
  have hnames : ∀ name ∈ comparedBindings.map Binding.key,
      IsFlatName name := by
    decide
  have hspaced := substitute_eq_replaceEvery_iff hnames spacedLine
  have hcompared := substitute_eq_replaceEvery_iff hnames comparedLine
  refine ⟨hspaced.mpr (by decide +kernel) comparedBindings rfl, by cbv, ?_⟩
  rw [hcompared]
  decide +kernel

theorem not_substitute_eq_replaceEvery :
    comparedBindings.HasFlatKeys ∧
    comparedBindings.substitute comparedLine ≠
      comparedBindings.replaceEvery comparedLine := by
  have hsubstitute : comparedBindings.substitute comparedLine =
      "1 <5 <a>".toList := by
    cbv
  have hreplace : comparedBindings.replaceEvery comparedLine =
      "1 <5 1".toList := by
    cbv
  refine ⟨by decide, ?_⟩
  rw [hsubstitute, hreplace]
  decide

end Bindings

end ScenarioInclusion
