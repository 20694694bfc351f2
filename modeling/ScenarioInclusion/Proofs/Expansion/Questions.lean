import ScenarioInclusion.Proofs.Expansion.Descent

/-!
# What an expansion asks a library

All that an expansion takes from its library are answers: each directive that it
comes to names a feature, and the library is asked for it on behalf of the
document that the directive stands in.  So two libraries with the same answers to
these questions give the same expansion, whatever else they hold.

More generally two libraries may differ in an answer of the first one that is a
fault.  Then its run ends there, and only a run that ends with such a fault can
differ from that with the second library.
-/

namespace ScenarioInclusion

/-! ## Outcomes that differ in faults only -/

section EqUnless

variable {ε ε' α β : Type} {kind : ε → Prop}

/-- Are the outcomes equal, unless the first is a fault of the kind? -/
def EqUnless (kind : ε → Prop) (x y : Except ε α) : Prop :=
  (∃ fault, kind fault ∧ x = .error fault) ∨ x = y

theorem EqUnless.refl (x : Except ε α) : EqUnless kind x x :=
  Or.inr rfl

theorem EqUnless.bind {x y : Except ε α} (h : EqUnless kind x y)
    {f g : α → Except ε β}
    (hfg : ∀ a, x = .ok a → EqUnless kind (f a) (g a)) :
    EqUnless kind (x >>= f) (y >>= g) := by
  rcases h with ⟨fault, hkind, rfl⟩ | rfl
  · exact Or.inl ⟨fault, hkind, rfl⟩
  · cases x with
    | error fault => exact Or.inr rfl
    | ok a => exact hfg a rfl

theorem EqUnless.mapError {f : ε' → ε} {x y : Except ε' α}
    (h : EqUnless (fun cause => kind (f cause)) x y) :
    EqUnless kind (x.mapError f) (y.mapError f) := by
  rcases h with ⟨cause, hkind, rfl⟩ | rfl
  · exact Or.inl ⟨f cause, hkind, rfl⟩
  · exact Or.inr rfl

theorem EqUnless.mapM {f g : α → Except ε β} {xs : List α}
    (h : ∀ x ∈ xs, EqUnless kind (f x) (g x)) :
    EqUnless kind (xs.mapM f) (xs.mapM g) := by
  induction xs with
  | nil => exact .refl _
  | cons x xs ih =>
      have hfirst := h x (List.mem_cons_self ..)
      have hrest := ih fun y hy => h y (List.mem_cons_of_mem x hy)
      rw [List.mapM_cons, List.mapM_cons]
      apply hfirst.bind
      intro value _
      apply hrest.bind
      intro values _
      exact .refl _

end EqUnless

/-- Lines are expanded alike if their include tags are spliced alike. -/
theorem eqUnless_expandLines {kind : ExpansionError → Prop}
    {splice splice' : Nat → Tag → Traced ExpansionError (List Line)}
    {lines : List (Line × Nat)}
    (h : ∀ entry ∈ numberedTags lines,
      EqUnless kind (splice entry.2 entry.1).outcome
        (splice' entry.2 entry.1).outcome)
    (held : List Line) :
    EqUnless kind (expandLines splice held lines).outcome
      (expandLines splice' held lines).outcome := by
  induction lines generalizing held with
  | nil => exact .refl _
  | cons entry rest ih =>
      rcases entry with ⟨line, number⟩
      rw [numberedTags_cons] at h
      have hrest := ih fun entry hentry => h entry (List.mem_append_right _ hentry)
      rw [expandLines, expandLines]
      cases hline : DirectiveLine.ofLine? line with
      | none =>
          simp only [Traced.outcome_bind]
          apply (hrest []).bind
          intro after _
          exact .refl _
      | some parsed =>
          have htags : ∀ tag ∈ parsed.directives,
              EqUnless kind (splice number tag).outcome
                (splice' number tag).outcome := by
            intro tag htag
            rw [← includeTags_of_some hline] at htag
            exact h (tag, number) (List.mem_append_left _
              (List.mem_map_of_mem htag))
          simp only [Traced.outcome_bind, Traced.outcome_mapM]
          apply (EqUnless.mapM htags).bind
          intro spliced _
          apply (hrest _).bind
          intro after _
          exact .refl _

/-! ## Questions -/

namespace Library

/-- Does an expansion of the site come to the directive, in a document at the
path of the caller? -/
def Asks (library : Library) (site : Site) (caller : Path)
    (directive : Directive) : Prop :=
  ∃ links target entry, library.Descent site links target ∧
    target.path = caller ∧ entry ∈ numberedTags target.lines ∧
    Directive.ofTag entry.1 = .ok directive

variable {library other : Library} {kind : ExpansionError → Prop} {site : Site}
  {caller : Path} {directive : Directive}

theorem asks_of_mem {entry : Tag × Nat} (h : entry ∈ numberedTags site.lines)
    (htag : Directive.ofTag entry.1 = .ok directive) :
    library.Asks site site.path directive :=
  ⟨[], site, entry, .here site, rfl, h, htag⟩

theorem Asks.down {link : Link} (hfrom : link.From library site)
    (hfits : link.Fits) (h : library.Asks link.site caller directive) :
    library.Asks site caller directive := by
  rcases h with ⟨links, target, entry, hdescent, hpath, hentry, htag⟩
  exact ⟨link :: links, target, entry, .down hfrom hfits hdescent, hpath,
    hentry, htag⟩

/-- A directive is come to on the lines of the site or below one of its links. -/
theorem Asks.here_or_below (h : library.Asks site caller directive) :
    (site.path = caller ∧ ∃ entry ∈ numberedTags site.lines,
      Directive.ofTag entry.1 = .ok directive) ∨
    ∃ link : Link, link.From library site ∧ link.Fits ∧
      library.Asks link.site caller directive := by
  rcases h with ⟨links, target, entry, hdescent, hpath, hentry, htag⟩
  cases hdescent with
  | here site => exact Or.inl ⟨hpath, entry, hentry, htag⟩
  | @down site target link links hfrom hfits hbelow =>
      exact Or.inr ⟨link, hfrom, hfits, links, target, entry, hbelow, hpath,
        hentry, htag⟩

theorem not_asks_of_numberedTags (h : numberedTags site.lines = []) :
    ¬ library.Asks site caller directive := by
  intro hasks
  rcases hasks.here_or_below with ⟨-, entry, hentry, -⟩ | ⟨link, hfrom, -, -⟩
  · rw [h] at hentry
    contradiction
  · have hmem := hfrom.mem_tags
    rw [h] at hmem
    contradiction

/-- Does the second library answer the questions below a site like the first, but
where the first answers with a fault of the kind? -/
def AnsweredAlike (kind : ExpansionError → Prop) (library other : Library)
    (site : Site) : Prop :=
  ∀ caller directive, library.Asks site caller directive →
    EqUnless
      (fun cause => kind (.featureNotFound directive.feature caller cause))
      (library.load directive.feature caller).outcome
      (other.load directive.feature caller).outcome

theorem AnsweredAlike.below (h : AnsweredAlike kind library other site)
    {link : Link} (hfrom : link.From library site) (hfits : link.Fits) :
    AnsweredAlike kind library other link.site := by
  intro caller directive hasks
  exact h caller directive (hasks.down hfrom hfits)

theorem eqUnless_excerpt {feature : Text}
    (h : EqUnless (fun cause => kind (.featureNotFound feature caller cause))
      (library.load feature caller).outcome
      (other.load feature caller).outcome) (scenario : Text) :
    EqUnless kind (library.excerpt feature scenario caller).outcome
      (other.excerpt feature scenario caller).outcome := by
  unfold excerpt
  simp only [Traced.outcome_bind, Traced.outcome_mapError]
  apply h.mapError.bind
  intro loaded _
  exact .refl _

theorem eqUnless_target (h : AnsweredAlike kind library other site)
    {entry : Tag × Nat} (hentry : entry ∈ numberedTags site.lines)
    (chain : List Inclusion) :
    EqUnless kind (library.target chain site.path entry.2 entry.1).outcome
      (other.target chain site.path entry.2 entry.1).outcome := by
  unfold target
  simp only [Traced.outcome_bind, Traced.outcome_ofExcept]
  apply (EqUnless.refl _).bind
  intro directive hread
  have hasks : library.Asks site site.path directive :=
    asks_of_mem hentry (mapError_eq_ok_iff.mp hread)
  apply (eqUnless_excerpt (h _ _ hasks) directive.scenario).bind
  intro excerpt _
  exact .refl _

/-- Below each link the questions are answered alike again, so the induction on
the room goes through all of them. -/
theorem eqUnless_splice (h : AnsweredAlike kind library other site)
    {entry : Tag × Nat} (hentry : entry ∈ numberedTags site.lines)
    (room : Nat) (chain : List Inclusion) :
    EqUnless kind (library.splice room chain site.path entry.2 entry.1).outcome
      (other.splice room chain site.path entry.2 entry.1).outcome := by
  induction room generalizing site chain entry with
  | zero =>
      rw [splice, splice]
      simp only [Traced.outcome_bind]
      apply (eqUnless_target h hentry chain).bind
      intro found _
      exact .refl _
  | succ room ih =>
      rw [splice, splice]
      simp only [Traced.outcome_bind, Traced.outcome_ofExcept,
        Traced.outcome_note]
      apply (eqUnless_target h hentry chain).bind
      rintro ⟨directive, excerpt⟩ htarget
      apply (EqUnless.refl _).bind
      intro text hbind
      apply (EqUnless.refl _).bind
      intro _ _
      rcases exists_link_of_target hentry htarget with
        ⟨link, -, rfl, rfl, hfrom, -⟩
      have htext : text = link.text := Excerpt.eq_map_of_bind hbind
      subst htext
      have hbelow := h.below hfrom hbind
      apply eqUnless_expandLines
      intro entry hentry
      exact ih hbelow hentry _

variable {settings : Settings} {path : Path} {document : Document}

theorem eqUnless_expand
    (h : AnsweredAlike kind library other (document.site path)) :
    EqUnless kind (library.expand settings path document)
      (other.expand settings path document) := by
  rw [expand, expand, expandTraced, expandTraced, Traced.outcome_bind,
    Traced.outcome_bind]
  have hlines := eqUnless_expandLines
    (fun entry hentry => eqUnless_splice h hentry settings.maxDepth []) []
  apply EqUnless.bind hlines
  intro lines _
  exact .refl _

/-- Libraries with the same answers to what an expansion asks give the same
expansion. -/
theorem expand_eq_of_answers
    (h : ∀ caller directive,
      library.Asks (document.site path) caller directive →
      (library.load directive.feature caller).outcome =
        (other.load directive.feature caller).outcome) :
    library.expand settings path document =
      other.expand settings path document := by
  have halike : AnsweredAlike (fun _ => False) library other
      (document.site path) :=
    fun caller directive hasks => Or.inr (h caller directive hasks)
  rcases eqUnless_expand halike with ⟨fault, hfalse, -⟩ | heq
  · exact hfalse.elim
  · exact heq

end Library

end ScenarioInclusion
