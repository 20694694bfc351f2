import ScenarioInclusion.Proofs.Directive.KeyPlace

/-!
# Lines with keys in brackets

A line is respelled by putting keys of its include tags in angle brackets, one
after the other.  That is harmless also where bindings are filled into the line
before it is read, as long as they do not bind the key and what is filled in
before it leaves the key at its place.
-/

namespace ScenarioInclusion

open Text

/-! ## Filling in around a key -/

namespace IsKey

variable {key : Text} (hkey : IsKey key)

include hkey

theorem exists_cons :
    ∃ c rest, key = c :: rest ∧ isBlank c = false := by
  cases hcons : key with
  | nil => exact absurd hcons hkey.ne_nil
  | cons c rest =>
      refine ⟨c, rest, rfl, ?_⟩
      by_contra hblank
      have hstart := hkey.trimStart_eq
      rw [hcons, Text.trimStart,
        List.dropWhile_cons_of_pos (by simpa using hblank)] at hstart
      have hlength := (List.dropWhile_suffix (l := rest) isBlank).length_le
      rw [hstart, List.length_cons] at hlength
      omega

theorem isName : IsName key := by
  obtain ⟨c, rest, rfl, hblank⟩ := hkey.exists_cons
  exact ⟨⟨c, rfl, hblank⟩, hkey.not_mem (by decide)⟩

theorem substitute_bare (bindings : Bindings) (rest : Text) :
    bindings.substitute (key ++ rest) = key ++ bindings.substitute rest :=
  bindings.substitute_append_of_not_mem (hkey.not_mem (by decide)) rest

theorem substitute_token {bindings : Bindings}
    (hunbound : bindings.valueOf? key = none) (rest : Text) :
    bindings.substitute ((Piece.token key).text ++ rest) =
      (Piece.token key).text ++ bindings.substitute rest := by
  rw [bindings.substitute_token hkey.isName, Bindings.fill, hunbound]
  rfl

end IsKey

theorem Bindings.substitute_gap (bindings : Bindings) {gap : Text}
    (hgap : ∀ c ∈ gap, isBlank c = true) (rest : Text) :
    bindings.substitute (gap ++ ':' :: rest) =
      gap ++ ':' :: bindings.substitute rest := by
  have hmem : '<' ∉ gap := by
    intro hmem
    exact absurd (hgap _ hmem) (by decide)
  rw [bindings.substitute_append_of_not_mem hmem,
    bindings.substitute_cons_of_ne (by decide)]

/-- The same place on a line with more indentation. -/
def KeyPlace.indented (place : KeyPlace) {indent : Text}
    (hindent : ∀ c ∈ indent, isBlank c = true) : KeyPlace :=
  { place with
    front := indent ++ place.front
    isTagLine := by
      have hline := place.isTagLine
      rw [Line.isTagLine] at hline ⊢
      rw [LineStart.text, List.append_assoc, trimStart_append_of_blank hindent]
      exact hline
    endsWord := place.endsWord.append hindent }

theorem KeyPlace.text_indented (place : KeyPlace) {indent : Text}
    (hindent : ∀ c ∈ indent, isBlank c = true) :
    (place.indented hindent).text = indent ++ place.text :=
  List.append_assoc ..

/-! ## Respelled lines -/

/-- A key on a line that may be put in brackets, also if bindings are filled into
the line: they do not bind it, and what they fill in before it leads to a place
for a key again. -/
structure Respelling (bindings : Bindings) where
  place : KeyPlace
  filled : KeyPlace
  key : Text
  gap : Text
  rest : Text
  isKey : IsKey key
  isBlank_gap : ∀ c ∈ gap, isBlank c = true
  valueOf?_key : bindings.valueOf? key = none
  substitute_place : ∀ more,
    bindings.substitute (place.text ++ more) =
      filled.text ++ bindings.substitute more

namespace Respelling

variable {bindings : Bindings}

def bare (r : Respelling bindings) : Line :=
  r.place.text ++ ((r.key ++ r.gap) ++ ':' :: r.rest)

def bracketed (r : Respelling bindings) : Line :=
  r.place.text ++ (((Piece.token r.key).text ++ r.gap) ++ ':' :: r.rest)

theorem substitute_bare (r : Respelling bindings) :
    bindings.substitute r.bare =
      r.filled.text ++ ((r.key ++ r.gap) ++ ':' :: bindings.substitute r.rest) := by
  rw [bare, r.substitute_place, List.append_assoc, r.isKey.substitute_bare,
    bindings.substitute_gap r.isBlank_gap, List.append_assoc]

theorem substitute_bracketed (r : Respelling bindings) :
    bindings.substitute r.bracketed =
      r.filled.text ++ (((Piece.token r.key).text ++ r.gap) ++
        ':' :: bindings.substitute r.rest) := by
  rw [bracketed, r.substitute_place, List.append_assoc,
    r.isKey.substitute_token r.valueOf?_key,
    bindings.substitute_gap r.isBlank_gap, List.append_assoc]

theorem meaning_eq (r : Respelling bindings) {indent : Text}
    (hindent : ∀ c ∈ indent, isBlank c = true) :
    Line.meaning (indent ++ bindings.substitute r.bare) =
      Line.meaning (indent ++ bindings.substitute r.bracketed) := by
  have hindented : ∀ more : Text, indent ++ (r.filled.text ++ more) =
      (r.filled.indented hindent).text ++ more := by
    intro more
    rw [KeyPlace.text_indented, List.append_assoc]
  rw [r.substitute_bare, r.substitute_bracketed, hindented, hindented]
  exact (r.filled.indented hindent).meaning_eq r.isKey (.bare r.isBlank_gap)
    (.bracketed r.isBlank_gap) _

end Respelling

/-- Lines that differ in keys put in brackets, none of which minds the
bindings. -/
inductive Line.Respelled (bindings : Bindings) (line : Line) : Line → Prop where
  | refl : line.Respelled bindings line
  | step (r : Respelling bindings) :
      line.Respelled bindings r.bare → line.Respelled bindings r.bracketed

namespace Line.Respelled

variable {bindings : Bindings} {line other : Line}

theorem meaning_indent_eq (h : line.Respelled bindings other) {indent : Text}
    (hindent : ∀ c ∈ indent, isBlank c = true) :
    Line.meaning (indent ++ bindings.substitute line) =
      Line.meaning (indent ++ bindings.substitute other) := by
  induction h with
  | refl => rfl
  | step r _ ih => exact ih.trans (r.meaning_eq hindent)

theorem meaning_substitute_eq (h : line.Respelled bindings other) :
    Line.meaning (bindings.substitute line) =
      Line.meaning (bindings.substitute other) :=
  h.meaning_indent_eq (List.forall_mem_nil _)

theorem meaning_eq (h : line.Respelled [] other) :
    line.meaning = other.meaning := by
  have hmeaning := h.meaning_substitute_eq
  rwa [Bindings.substitute_nil, Bindings.substitute_nil] at hmeaning

end Line.Respelled

end ScenarioInclusion
