import ScenarioInclusion.Proofs.Expansion.Descent
import ScenarioInclusion.Proofs.Library.Shelf

/-!
# The stack of inclusions

The chain of an expansion can be kept on one stack for the whole run: an
inclusion is pushed before its lines are expanded and popped after them.  Run in
this way, an expansion comes to the same outcome.  A splice that succeeds leaves
the stack as it found it, so the next include tag starts from the right one; and
at no time does the stack hold a scenario twice, or more of them than the limit.

The chains that faults report are such stacks with one inclusion on top, and each
of their inclusions was asked for by an include tag on the lines of the one
below it.
-/

namespace ScenarioInclusion

/-- The stack at hand, and all stacks that there were before it. -/
structure StackHistory where
  present : List Inclusion
  earlier : List (List Inclusion)

def StackHistory.stacks (history : StackHistory) : List (List Inclusion) :=
  history.present :: history.earlier

/-- A computation on a stack of inclusions. -/
abbrev OnStack (α : Type) := ExceptT ExpansionError (StateM StackHistory) α

namespace OnStack

variable {α β : Type}

def ofExcept (outcome : Except ExpansionError α) : OnStack α :=
  ExceptT.mk (pure outcome)

def stack : OnStack (List Inclusion) := do
  return (← get).present

def change (f : List Inclusion → List Inclusion) : OnStack Unit :=
  modify fun history =>
    ⟨f history.present, history.present :: history.earlier⟩

def push (inclusion : Inclusion) : OnStack Unit :=
  change fun stack => stack ++ [inclusion]

def pop : OnStack Unit :=
  change List.dropLast

def expandLines (splice : Nat → Tag → OnStack (List Line)) :
    (held : List Line) → List (Line × Nat) → OnStack (List Line)
  | held, [] => return held
  | held, (line, number) :: rest =>
    match DirectiveLine.ofLine? line with
    | none => do
      let after ← expandLines splice [] rest
      return held ++ line :: after
    | some parsed => do
      let spliced ← parsed.directives.mapM (splice number)
      let after ←
        expandLines splice (held ++ parsed.siblingLine?.toList) rest
      return spliced.flatten ++ after

def splice (library : Library) :
    (room : Nat) → (path : Path) → (number : Nat) → Tag → OnStack (List Line)
  | 0, path, number, tag => do
    let stack ← stack
    let (_, excerpt) ← ofExcept (library.target stack path number tag).outcome
    throw (.tooDeep stack.length (stack ++ [excerpt.inclusion]))
  | room + 1, path, number, tag => do
    let stack ← stack
    let (directive, excerpt) ←
      ofExcept (library.target stack path number tag).outcome
    let text ← ofExcept (excerpt.bind directive.bindings)
    push excerpt.inclusion
    let block ← expandLines (splice library room excerpt.source) []
      (excerpt.nested directive.bindings ++ text.zipIdx excerpt.startLine)
    pop
    return block

def expand (library : Library) (settings : Settings) (path : Path)
    (document : Document) : OnStack Document := do
  let lines ← expandLines (splice library settings.maxDepth path) []
    (document.lines.zipIdx 1)
  return ⟨lines⟩

/-! ## What a computation does to the stack -/

/-- May a run with some room come to the second stack from the first? -/
structure Grown (stack : List Inclusion) (room : Nat)
    (passed : List Inclusion) : Prop where
  length_le : passed.length ≤ stack.length + room
  distinct : (stack.Pairwise fun entered later => ¬ entered.Same later) →
    passed.Pairwise fun entered later => ¬ entered.Same later

theorem Grown.refl (stack : List Inclusion) (room : Nat) :
    Grown stack room stack :=
  ⟨Nat.le_add_right _ _, id⟩

theorem Grown.of_concat {stack passed : List Inclusion} {room : Nat}
    {inclusion : Inclusion}
    (hnew : ∀ entered ∈ stack, ¬ entered.Same inclusion)
    (h : Grown (stack ++ [inclusion]) room passed) :
    Grown stack (room + 1) passed := by
  refine ⟨?_, fun hdistinct => h.distinct (pairwise_concat hdistinct hnew)⟩
  have hlength := h.length_le
  rw [List.length_append, List.length_singleton] at hlength
  omega

/-- On the given stack the computation comes to the outcome.  It passes only
stacks that grow from this one, and it is back at it when it succeeds. -/
def Yields (stack : List Inclusion) (room : Nat) (x : OnStack α)
    (outcome : Except ExpansionError α) : Prop :=
  ∀ earlier, ∃ history,
    x.run.run ⟨stack, earlier⟩ = (outcome, history) ∧
      ((∃ a, outcome = .ok a) → history.present = stack) ∧
      ∀ passed ∈ history.stacks,
        passed ∈ stack :: earlier ∨ Grown stack room passed

variable {stack : List Inclusion} {room : Nat}

theorem yields_ofExcept (outcome : Except ExpansionError α) :
    Yields stack room (ofExcept outcome) outcome :=
  fun earlier => ⟨⟨stack, earlier⟩, rfl, fun _ => rfl, fun _ h => Or.inl h⟩

theorem yields_pure (a : α) : Yields stack room (pure a) (.ok a) :=
  yields_ofExcept (.ok a)

theorem yields_throw (fault : ExpansionError) :
    Yields stack room (throw fault : OnStack α) (.error fault) :=
  yields_ofExcept (.error fault)

theorem yields_stack : Yields stack room OnStack.stack (.ok stack) :=
  fun earlier => ⟨⟨stack, earlier⟩, rfl, fun _ => rfl, fun _ h => Or.inl h⟩

theorem run_bind (x : OnStack α) (f : α → OnStack β) (history : StackHistory) :
    (x >>= f).run.run history =
      match x.run.run history with
      | (.ok a, next) => (f a).run.run next
      | (.error fault, next) => (.error fault, next) := by
  rw [ExceptT.run_bind, StateT.run_bind]
  rcases x.run.run history with ⟨fault | a, next⟩ <;> rfl

theorem Yields.bind {x : OnStack α} {f : α → OnStack β}
    {outcome : Except ExpansionError α} {g : α → Except ExpansionError β}
    (hx : Yields stack room x outcome)
    (hf : ∀ a, outcome = .ok a → Yields stack room (f a) (g a)) :
    Yields stack room (x >>= f) (outcome >>= g) := by
  intro earlier
  rcases hx earlier with ⟨⟨present, before⟩, hrun, hback, hpassed⟩
  rw [run_bind, hrun]
  cases outcome with
  | error fault =>
      refine ⟨⟨present, before⟩, rfl, ?_, hpassed⟩
      rintro ⟨a, ha⟩
      cases ha
  | ok a =>
      have hpresent : present = stack := hback ⟨a, rfl⟩
      subst hpresent
      rcases hf a rfl before with ⟨history, hrun', hback', hpassed'⟩
      refine ⟨history, hrun', hback', ?_⟩
      intro passed hmem
      rcases hpassed' passed hmem with hbefore | hgrown
      · exact hpassed passed hbefore
      · exact Or.inr hgrown

theorem yields_mapM {f : α → OnStack β} {g : α → Except ExpansionError β}
    {xs : List α} (h : ∀ x ∈ xs, Yields stack room (f x) (g x)) :
    Yields stack room (xs.mapM f) (xs.mapM g) := by
  induction xs with
  | nil => exact yields_pure []
  | cons x xs ih =>
      have hrest := ih fun y hy => h y (List.mem_cons_of_mem x hy)
      rw [List.mapM_cons, List.mapM_cons]
      apply (h x (List.mem_cons_self ..)).bind
      intro value _
      apply hrest.bind
      intro values _
      exact yields_pure (value :: values)

theorem yields_expandLines {onStack : Nat → Tag → OnStack (List Line)}
    {splice : Nat → Tag → Traced ExpansionError (List Line)}
    (h : ∀ number tag,
      Yields stack room (onStack number tag) (splice number tag).outcome)
    (held : List Line) (lines : List (Line × Nat)) :
    Yields stack room (expandLines onStack held lines)
      (ScenarioInclusion.expandLines splice held lines).outcome := by
  induction lines generalizing held with
  | nil => exact yields_pure held
  | cons entry rest ih =>
      obtain ⟨line, number⟩ := entry
      rw [expandLines, ScenarioInclusion.expandLines]
      cases DirectiveLine.ofLine? line with
      | none =>
          simp only [Traced.outcome_bind, Traced.outcome_pure]
          apply (ih []).bind
          intro after _
          exact yields_pure _
      | some parsed =>
          simp only [Traced.outcome_bind, Traced.outcome_pure,
            Traced.outcome_mapM]
          apply (yields_mapM fun tag _ => h number tag).bind
          intro spliced _
          apply (ih _).bind
          intro after _
          exact yields_pure _

theorem run_push (inclusion : Inclusion) (stack : List Inclusion)
    (earlier : List (List Inclusion)) :
    (push inclusion).run.run ⟨stack, earlier⟩ =
      (.ok (), ⟨stack ++ [inclusion], stack :: earlier⟩) :=
  rfl

theorem run_pop (stack : List Inclusion) (earlier : List (List Inclusion)) :
    pop.run.run ⟨stack, earlier⟩ =
      (.ok (), ⟨stack.dropLast, stack :: earlier⟩) :=
  rfl

/-- An inclusion that is pushed before a computation and popped after it. -/
theorem Yields.entered {inclusion : Inclusion} {x : OnStack α}
    {outcome : Except ExpansionError α}
    (hnew : ∀ entered ∈ stack, ¬ entered.Same inclusion)
    (h : Yields (stack ++ [inclusion]) room x outcome) :
    Yields stack (room + 1)
      (do push inclusion; let a ← x; pop; return a) outcome := by
  intro earlier
  rcases h (stack :: earlier) with ⟨⟨present, before⟩, hrun, hback, hpassed⟩
  have hall : ∀ passed ∈ present :: before,
      passed ∈ stack :: earlier ∨ Grown stack (room + 1) passed := by
    intro passed hmem
    have hpush := Grown.of_concat hnew (Grown.refl (stack ++ [inclusion]) room)
    rcases hpassed passed hmem with hmem | hgrown
    · rcases List.mem_cons.mp hmem with rfl | hmem
      · exact Or.inr hpush
      · exact Or.inl hmem
    · exact Or.inr (hgrown.of_concat hnew)
  simp only [run_bind, run_push, hrun]
  cases outcome with
  | error fault =>
      refine ⟨⟨present, before⟩, rfl, ?_, hall⟩
      rintro ⟨a, ha⟩
      cases ha
  | ok a =>
      have hpresent : present = stack ++ [inclusion] := hback ⟨a, rfl⟩
      subst hpresent
      simp only [run_pop, List.dropLast_concat]
      refine ⟨⟨stack, (stack ++ [inclusion]) :: before⟩, rfl, fun _ => rfl, ?_⟩
      intro passed hmem
      rcases List.mem_cons.mp hmem with rfl | hmem
      · exact Or.inl (List.mem_cons_self ..)
      · exact hall passed hmem

theorem yields_splice (library : Library) (room : Nat)
    (stack : List Inclusion) (path : Path) (number : Nat) (tag : Tag) :
    Yields stack room (splice library room path number tag)
      (library.splice room stack path number tag).outcome := by
  induction room generalizing stack path number tag with
  | zero =>
      have hstack : (library.splice 0 stack path number tag).outcome =
          Except.ok stack >>= fun _ =>
            (library.splice 0 stack path number tag).outcome := rfl
      rw [hstack, splice]
      apply yields_stack.bind
      rintro _ ⟨⟩
      rw [Library.splice, Traced.outcome_bind]
      apply (yields_ofExcept _).bind
      intro target _
      exact yields_throw _
  | succ room ih =>
      have hstack : (library.splice (room + 1) stack path number tag).outcome =
          Except.ok stack >>= fun _ =>
            (library.splice (room + 1) stack path number tag).outcome := rfl
      rw [hstack, splice]
      apply yields_stack.bind
      rintro _ ⟨⟩
      rw [Library.splice, Traced.outcome_bind]
      apply (yields_ofExcept _).bind
      rintro ⟨directive, excerpt⟩ htarget
      have hnew := (Library.target_eq_ok_iff.mp htarget).2.2
      simp only [Traced.outcome_bind, Traced.outcome_ofExcept,
        Traced.outcome_note]
      apply (yields_ofExcept _).bind
      intro text _
      apply Yields.entered hnew
      apply yields_expandLines
      intro number tag
      exact ih (stack ++ [excerpt.inclusion]) excerpt.source number tag

theorem yields_expand (library : Library) (settings : Settings) (path : Path)
    (document : Document) :
    Yields [] settings.maxDepth (expand library settings path document)
      (library.expand settings path document) := by
  rw [Library.expand, Library.expandTraced, Traced.outcome_bind, expand]
  apply Yields.bind
  · apply yields_expandLines
    exact yields_splice library settings.maxDepth [] path
  · intro lines _
    exact yields_pure _

/-- A splice that succeeds gives the stack back as it was. -/
theorem present_eq_of_splice {library : Library} {path : Path} {number : Nat}
    {tag : Tag} {before after : StackHistory} {block : List Line}
    (h : (splice library room path number tag).run.run before =
      (.ok block, after)) : after.present = before.present := by
  rcases yields_splice library room before.present path number tag
    before.earlier with ⟨history, hrun, hback, -⟩
  have hruns := h.symm.trans hrun
  injection hruns with houtcome hhistory
  rw [hhistory]
  exact hback ⟨block, houtcome.symm⟩

/-- Run on one stack, an expansion comes to the same outcome, and all stacks on
the way are chains that it may be in. -/
theorem admissible_stacks_of_expand (library : Library) (settings : Settings)
    (path : Path) (document : Document) :
    ∃ history,
      (expand library settings path document).run.run ⟨[], []⟩ =
        (library.expand settings path document, history) ∧
      ∀ stack ∈ history.stacks, Admissible settings.maxDepth stack := by
  rcases yields_expand library settings path document [] with
    ⟨history, hrun, -, hpassed⟩
  refine ⟨history, hrun, ?_⟩
  intro stack hstack
  rcases hpassed stack hstack with hempty | hgrown
  · rw [List.mem_singleton.mp hempty]
    exact Admissible.nil settings.maxDepth
  · refine ⟨hgrown.distinct List.Pairwise.nil, ?_⟩
    simpa using hgrown.length_le

end OnStack

end ScenarioInclusion
