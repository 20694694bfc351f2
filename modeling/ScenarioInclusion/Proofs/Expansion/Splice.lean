import ScenarioInclusion.Expansion
import ScenarioInclusion.Proofs.Sequence

/-!
# One splice

What it takes for an include tag to be replaced, said once: the tag reads as a
directive, its scenario is found and not entered yet, there is room, the
bindings fit, and the lines of the scenario expand in turn.

The number of the line that carries the tag matters only to the message about a
tag that is not a directive.
-/

namespace ScenarioInclusion

namespace Library

variable {library : Library} {room : Nat} {chain : List Inclusion}
  {path : Path} {number : Nat} {tag : Tag}

theorem target_of_malformed {cause : DirectiveError}
    (h : Directive.ofTag tag = .error cause) :
    (library.target chain path number tag).outcome =
      .error (.malformedDirective path number cause) := by
  rw [target, h]
  rfl

theorem target_of_directive {directive : Directive}
    (h : Directive.ofTag tag = .ok directive) (number number' : Nat) :
    library.target chain path number tag =
      library.target chain path number' tag := by
  rw [target, target, h]
  rfl

theorem target_eq_ok_iff {directive : Directive} {excerpt : Excerpt} :
    (library.target chain path number tag).outcome =
        .ok (directive, excerpt) ↔
      Directive.ofTag tag = .ok directive ∧
        (library.excerpt directive.feature directive.scenario path).outcome =
          .ok excerpt ∧
        ∀ entered ∈ chain, ¬ entered.Same excerpt.inclusion := by
  rw [target]
  simp only [Traced.outcome_bind, bind_eq_ok_iff, Traced.outcome_ofExcept,
    mapError_eq_ok_iff]
  constructor
  · intro h
    rcases h with ⟨read, hread, found, hfound, h⟩
    split at h
    · contradiction
    · next hnew =>
        cases h
        exact ⟨hread, hfound, by simpa using hnew⟩
  · intro h
    rcases h with ⟨hread, hfound, hnew⟩
    refine ⟨directive, hread, excerpt, hfound, ?_⟩
    rw [if_neg (by simpa using hnew)]
    rfl

theorem splice_of_malformed {cause : DirectiveError}
    (h : Directive.ofTag tag = .error cause) :
    (library.splice room chain path number tag).outcome =
      .error (.malformedDirective path number cause) := by
  cases room with
  | zero =>
      rw [splice, Traced.outcome_bind, target_of_malformed h]
      rfl
  | succ room =>
      rw [splice, Traced.outcome_bind, target_of_malformed h]
      rfl

theorem splice_of_directive {directive : Directive}
    (h : Directive.ofTag tag = .ok directive) (number number' : Nat) :
    (library.splice room chain path number tag).outcome =
      (library.splice room chain path number' tag).outcome := by
  cases room with
  | zero => rw [splice, splice, target_of_directive h number number']
  | succ room =>
      rw [splice, splice, target_of_directive h number number']
      simp only [Traced.outcome_bind, Traced.outcome_note]

theorem splice_number_of_ok {block : List Line}
    (h : (library.splice room chain path number tag).outcome = .ok block)
    (number' : Nat) :
    (library.splice room chain path number' tag).outcome = .ok block := by
  cases htag : Directive.ofTag tag with
  | error cause =>
      rw [splice_of_malformed htag] at h
      contradiction
  | ok directive => rw [← h, splice_of_directive htag]

theorem exists_output_of_splice (library : Library) (room : Nat)
    (chain : List Inclusion) (path : Path) :
    ∃ output : Tag → List Line, ∀ number tag block,
      (library.splice room chain path number tag).outcome = .ok block →
        output tag = block := by
  refine ⟨fun tag =>
    (library.splice room chain path 0 tag).outcome.toOption.getD [], ?_⟩
  intro number tag block h
  have hzero := splice_number_of_ok h 0
  simp only [hzero]
  rfl

/-- What was found, filled in and expanded when an include tag was replaced by
the block. -/
structure Splicing (library : Library) (room : Nat) (chain : List Inclusion)
    (path : Path) (tag : Tag) (block : List Line) where
  directive : Directive
  excerpt : Excerpt
  text : List Line
  roomLeft : Nat
  room_eq : room = roomLeft + 1
  ofTag_eq : Directive.ofTag tag = .ok directive
  excerpt_eq :
    (library.excerpt directive.feature directive.scenario path).outcome =
      .ok excerpt
  isNew : ∀ entered ∈ chain, ¬ entered.Same excerpt.inclusion
  bind_eq : excerpt.bind directive.bindings = .ok text
  expand_eq :
    (expandLines
      (library.splice roomLeft (chain ++ [excerpt.inclusion]) excerpt.source)
      [] (excerpt.nested directive.bindings ++
        text.zipIdx excerpt.startLine)).outcome = .ok block

theorem splice_eq_ok_iff {block : List Line} :
    (library.splice room chain path number tag).outcome = .ok block ↔
      Nonempty (Splicing library room chain path tag block) := by
  cases room with
  | zero =>
      constructor
      · intro h
        rw [splice, Traced.outcome_bind, bind_eq_ok_iff] at h
        obtain ⟨found, -, h⟩ := h
        contradiction
      · rintro ⟨splicing⟩
        exact absurd splicing.room_eq (by omega)
  | succ room =>
      rw [splice]
      simp only [Traced.outcome_bind, bind_eq_ok_iff, Traced.outcome_note,
        Traced.outcome_ofExcept]
      constructor
      · rintro ⟨⟨directive, excerpt⟩, htarget, text, hbind, -, -, hexpand⟩
        obtain ⟨htag, hexcerpt, hnew⟩ := target_eq_ok_iff.mp htarget
        exact ⟨⟨directive, excerpt, text, room, rfl, htag, hexcerpt, hnew,
          hbind, hexpand⟩⟩
      · rintro ⟨splicing⟩
        obtain ⟨directive, excerpt, text, roomLeft, hroom, htag, hexcerpt,
          hnew, hbind, hexpand⟩ := splicing
        have heq : roomLeft = room := by omega
        subst heq
        exact ⟨(directive, excerpt),
          target_eq_ok_iff.mpr ⟨htag, hexcerpt, hnew⟩, text, hbind, (), trivial,
          hexpand⟩

/-- What is true of a tag and its spliced block if it is true of all blocks that
are spliced into it is true of every spliced block. -/
theorem splice_induction {P : Tag → List Line → Prop}
    (hstep : ∀ {room : Nat} {chain : List Inclusion} {path : Path} {tag : Tag}
      {block : List Line}
      (splicing : Splicing library room chain path tag block),
      (∀ number tag' inner,
        (library.splice splicing.roomLeft
          (chain ++ [splicing.excerpt.inclusion]) splicing.excerpt.source
          number tag').outcome = .ok inner → P tag' inner) →
      P tag block)
    {block : List Line}
    (h : (library.splice room chain path number tag).outcome = .ok block) :
    P tag block := by
  induction room generalizing chain path number tag block with
  | zero =>
      rcases splice_eq_ok_iff.mp h with ⟨splicing⟩
      have hroom := splicing.room_eq
      omega
  | succ room ih =>
      rcases splice_eq_ok_iff.mp h with ⟨splicing⟩
      have hroom : splicing.roomLeft = room := by
        have hroom := splicing.room_eq
        omega
      apply hstep splicing
      intro number tag' inner hinner
      rw [hroom] at hinner
      exact ih hinner

end Library

end ScenarioInclusion
