import ScenarioInclusion.Skip
import ScenarioInclusion.Proofs.Text.Margins
import Mathlib.Data.List.Basic

/-!
# The ticket that a tag refers to

A ticket can stand anywhere in a tag, and a tag can open more than one.  An
opening counts if it is closed on its own line.  The first one that counts is
the ticket, and its text ends at the first closing parenthesis, so a further
opening is nothing but text of the ticket before it.
-/

namespace ScenarioInclusion

namespace SkipReason

/-- Does a ticket open behind the given text, and is it closed on the same
line? -/
def OpensTicket (tag : Tag) (before : Text) : Prop :=
  ∃ inside after, tag = before ++ (ticketOpening ++ (inside ++ ')' :: after)) ∧
    '\n' ∉ inside

def IsTicket (tag : Tag) : Prop :=
  ∃ before, OpensTicket tag before

/-- The reference of a tag is the text behind the first ticket that opens in it,
up to the first closing parenthesis. -/
def RefersTo (tag : Tag) (reference : Text) : Prop :=
  ∃ before after,
    tag = before ++ (ticketOpening ++ (reference ++ ')' :: after)) ∧
      ')' ∉ reference ∧ '\n' ∉ reference ∧
      ∀ earlier, OpensTicket tag earlier → before.length ≤ earlier.length

/-! ## Up to the closing parenthesis -/

theorem upToClosing?_eq_some_iff {text reference : Text} :
    upToClosing? text = some reference ↔
      ∃ after, text = reference ++ ')' :: after ∧ ')' ∉ reference ∧
        '\n' ∉ reference := by
  induction text generalizing reference with
  | nil => simp [upToClosing?]
  | cons c rest ih =>
      rw [upToClosing?]
      split
      · next hc =>
          subst hc
          constructor
          · rintro ⟨⟩
            exact ⟨rest, by simp⟩
          · rintro ⟨after, htext, hclosing, -⟩
            cases reference with
            | nil => rfl
            | cons d more => simp_all
      · next hc =>
          split
          · next hfeed =>
              subst hfeed
              constructor
              · intro h
                contradiction
              · rintro ⟨after, htext, -, hline⟩
                cases reference <;> simp_all
          · next hfeed =>
              rw [Option.map_eq_some_iff]
              constructor
              · rintro ⟨more, hmore, rfl⟩
                obtain ⟨after, rfl, hclosing, hline⟩ := ih.mp hmore
                exact ⟨after, rfl, by simp [hclosing, Ne.symm hc],
                  by simp [hline, Ne.symm hfeed]⟩
              · rintro ⟨after, htext, hclosing, hline⟩
                cases reference with
                | nil => simp_all
                | cons d more =>
                    rw [List.cons_append, List.cons.injEq] at htext
                    rw [List.mem_cons, not_or] at hclosing hline
                    refine ⟨more, ?_, by rw [htext.1]⟩
                    exact ih.mpr ⟨after, htext.2, hclosing.2, hline.2⟩

theorem exists_upToClosing? {inside : Text} (h : '\n' ∉ inside)
    (after : Text) :
    ∃ reference, upToClosing? (inside ++ ')' :: after) = some reference := by
  induction inside with
  | nil => exact ⟨[], by simp [upToClosing?]⟩
  | cons c inside ih =>
      rw [List.mem_cons, not_or] at h
      obtain ⟨reference, hreference⟩ := ih h.2
      by_cases hc : c = ')'
      · exact ⟨[], by simp [upToClosing?, hc]⟩
      · exact ⟨c :: reference, by
          simp [upToClosing?, hc, Ne.symm h.1, hreference]⟩

/-! ## The first ticket -/

/-- The reference of the ticket that opens where the text begins. -/
def ticketAtStart? (text : Text) : Option Text :=
  (ticketOpening.isPrefixOf? text).bind upToClosing?

theorem ticketOf?_cons (c : Char) (rest : Text) :
    ticketOf? (c :: rest) = (ticketAtStart? (c :: rest) <|> ticketOf? rest) :=
  rfl

theorem ticketAtStart?_eq_some_iff {text reference : Text} :
    ticketAtStart? text = some reference ↔
      ∃ after, text = ticketOpening ++ (reference ++ ')' :: after) ∧
        ')' ∉ reference ∧ '\n' ∉ reference := by
  simp only [ticketAtStart?, Option.bind_eq_some_iff,
    List.isPrefixOf?_eq_some_iff_append_eq, upToClosing?_eq_some_iff]
  constructor
  · rintro ⟨rest, rfl, after, rfl, hreference⟩
    exact ⟨after, rfl, hreference⟩
  · rintro ⟨after, rfl, hreference⟩
    exact ⟨_, rfl, after, rfl, hreference⟩

theorem opensTicket_nil_iff {tag : Tag} :
    OpensTicket tag [] ↔ ∃ reference, ticketAtStart? tag = some reference := by
  constructor
  · rintro ⟨inside, after, rfl, hline⟩
    obtain ⟨reference, hreference⟩ := exists_upToClosing? hline after
    exact ⟨reference, Option.bind_eq_some_iff.mpr ⟨_,
      List.isPrefixOf?_eq_some_iff_append_eq.mpr rfl, hreference⟩⟩
  · rintro ⟨reference, hreference⟩
    obtain ⟨after, htag, -, hline⟩ := ticketAtStart?_eq_some_iff.mp hreference
    exact ⟨reference, after, htag, hline⟩

theorem ticketAtStart?_eq_none_iff {tag : Tag} :
    ticketAtStart? tag = none ↔ ¬ OpensTicket tag [] := by
  rw [opensTicket_nil_iff, not_exists, Option.eq_none_iff_forall_ne_some]

theorem opensTicket_cons_iff {c d : Char} {rest before : Text} :
    OpensTicket (c :: rest) (d :: before) ↔
      c = d ∧ OpensTicket rest before := by
  simp only [OpensTicket, List.cons_append, List.cons.injEq, and_assoc,
    exists_and_left]

theorem not_opensTicket_nil_tag (before : Text) : ¬ OpensTicket [] before := by
  rintro ⟨inside, after, htag, -⟩
  simp [ticketOpening] at htag

theorem isTicket_cons_iff {c : Char} {rest : Text} :
    IsTicket (c :: rest) ↔ OpensTicket (c :: rest) [] ∨ IsTicket rest := by
  constructor
  · rintro ⟨before, hopens⟩
    cases before with
    | nil => exact Or.inl hopens
    | cons d before =>
        exact Or.inr ⟨before, (opensTicket_cons_iff.mp hopens).2⟩
  · rintro (hopens | ⟨before, hopens⟩)
    · exact ⟨[], hopens⟩
    · exact ⟨c :: before, opensTicket_cons_iff.mpr ⟨rfl, hopens⟩⟩

theorem ticketOf?_eq_none_iff {tag : Tag} :
    ticketOf? tag = none ↔ ¬ IsTicket tag := by
  induction tag with
  | nil => simp [ticketOf?, IsTicket, not_opensTicket_nil_tag]
  | cons c rest ih =>
      rw [ticketOf?_cons, isTicket_cons_iff, not_or, ← ih,
        ← ticketAtStart?_eq_none_iff]
      simp

theorem refersTo_of_opensTicket_nil {tag : Tag} (h : OpensTicket tag [])
    {reference : Text} :
    RefersTo tag reference ↔ ticketAtStart? tag = some reference := by
  rw [ticketAtStart?_eq_some_iff]
  constructor
  · rintro ⟨before, after, htag, hclosing, hline, hfirst⟩
    have hbefore : before = [] :=
      List.eq_nil_of_length_eq_zero (Nat.le_zero.mp (hfirst [] h))
    subst hbefore
    exact ⟨after, htag, hclosing, hline⟩
  · rintro ⟨after, htag, hclosing, hline⟩
    exact ⟨[], after, htag, hclosing, hline, fun _ _ => Nat.zero_le _⟩

theorem refersTo_cons_iff {c : Char} {rest reference : Text}
    (h : ¬ OpensTicket (c :: rest) []) :
    RefersTo (c :: rest) reference ↔ RefersTo rest reference := by
  constructor
  · rintro ⟨before, after, htag, hclosing, hline, hfirst⟩
    cases before with
    | nil => exact absurd ⟨reference, after, htag, hline⟩ h
    | cons d before =>
        rw [List.cons_append, List.cons.injEq] at htag
        refine ⟨before, after, htag.2, hclosing, hline, ?_⟩
        intro earlier hopens
        have hlength := hfirst (c :: earlier)
          (opensTicket_cons_iff.mpr ⟨rfl, hopens⟩)
        simpa using hlength
  · rintro ⟨before, after, rfl, hclosing, hline, hfirst⟩
    refine ⟨c :: before, after, rfl, hclosing, hline, ?_⟩
    intro earlier hopens
    cases earlier with
    | nil => exact absurd hopens h
    | cons d earlier =>
        have hlength := hfirst earlier (opensTicket_cons_iff.mp hopens).2
        simpa using hlength

theorem ticketOf?_eq_some_iff {tag : Tag} {reference : Text} :
    ticketOf? tag = some reference ↔ RefersTo tag reference := by
  induction tag with
  | nil =>
      constructor
      · intro h
        contradiction
      · rintro ⟨before, after, htag, -, hline, -⟩
        exact absurd ⟨reference, after, htag, hline⟩
          (not_opensTicket_nil_tag before)
  | cons c rest ih =>
      rw [ticketOf?_cons]
      by_cases hopens : OpensTicket (c :: rest) []
      · obtain ⟨first, hstart⟩ := opensTicket_nil_iff.mp hopens
        rw [refersTo_of_opensTicket_nil hopens, hstart]
        rfl
      · rw [refersTo_cons_iff hopens, ← ih,
          ticketAtStart?_eq_none_iff.mpr hopens]
        rfl

theorem RefersTo.isTicket {tag : Tag} {reference : Text}
    (h : RefersTo tag reference) : IsTicket tag := by
  obtain ⟨before, after, htag, -, hline, -⟩ := h
  exact ⟨before, reference, after, htag, hline⟩

/-! ## Tickets as they are written -/

/-- The tag that refers to a ticket. -/
def ticketTag (reference : Text) : Tag :=
  ticketOpening ++ (reference ++ [')'])

theorem refersTo_ticketTag {reference : Text} (hclosing : ')' ∉ reference)
    (hline : '\n' ∉ reference) : RefersTo (ticketTag reference) reference :=
  ⟨[], [], rfl, hclosing, hline, fun _ _ => Nat.zero_le _⟩

end SkipReason

end ScenarioInclusion
