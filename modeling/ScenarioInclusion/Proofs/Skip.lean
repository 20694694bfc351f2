import ScenarioInclusion.Proofs.Skip.Ticket

/-!
# The reason that counts

Why a scenario is skipped depends on its full tags alone, and on their order only
for tickets: a named reason counts wherever its tag stands, and the strongest one
that is given counts.  Of the tickets, the one that stands last does.

So the tags may be repeated, put in another order, spelled with or without an at
sign, or shared out between a feature and its scenario, as long as the last
ticket stays the last one.
-/

namespace ScenarioInclusion

open Text

namespace SkipReason

/-- The tags that name a reason, the strongest reason first. -/
def namedReasons : List (Tag × SkipReason) :=
  [(tooComplexTag, tooComplex), (manualTag, manual),
    (unimplementedTag, unimplemented), (environmentTag, environment)]

/-- Does the tag refer to a ticket, and none of those behind it? -/
def LastTicket (tags : List Tag) (tag : Tag) : Prop :=
  ∃ earlier later, tags = earlier ++ tag :: later ∧ IsTicket tag ∧
    ∀ other ∈ later, ¬ IsTicket other

/-- What full tags say about skipping their scenario. -/
inductive Precedence (tags : List Tag) : SkipReason → Prop where
  | notSkipped : ignoreTag ∉ tags → Precedence tags notSkipped
  | named {stronger weaker : List (Tag × SkipReason)} {tag : Tag}
      {reason : SkipReason} :
      ignoreTag ∈ tags → namedReasons = stronger ++ (tag, reason) :: weaker →
        tag ∈ tags → (∀ other ∈ stronger, other.1 ∉ tags) →
        Precedence tags reason
  | ticket {tag : Tag} {reference : Text} :
      ignoreTag ∈ tags → (∀ other ∈ namedReasons, other.1 ∉ tags) →
        LastTicket tags tag → RefersTo tag reference →
        Precedence tags (ticket reference)
  | unspecified :
      ignoreTag ∈ tags → (∀ other ∈ namedReasons, other.1 ∉ tags) →
        (∀ tag ∈ tags, ¬ IsTicket tag) → Precedence tags unspecified

variable {tags : List Tag} {reason : SkipReason}

/-! ## The last ticket -/

theorem getLast?_tickets_eq_some_iff {reference : Text} :
    (tags.filterMap ticketOf?).getLast? = some reference ↔
      ∃ tag, LastTicket tags tag ∧ RefersTo tag reference := by
  rw [List.getLast?_filterMap, List.findSome?_eq_some_iff]
  constructor
  · rintro ⟨later, tag, earlier, hsplit, htag, hlater⟩
    have hrefers := ticketOf?_eq_some_iff.mp htag
    refine ⟨tag, ⟨earlier.reverse, later.reverse, ?_, hrefers.isTicket, ?_⟩,
      hrefers⟩
    · simpa using congrArg List.reverse hsplit
    · intro other hother
      exact ticketOf?_eq_none_iff.mp
        (hlater other (List.mem_reverse.mp hother))
  · rintro ⟨tag, ⟨earlier, later, rfl, -, hlater⟩, hrefers⟩
    refine ⟨later.reverse, tag, earlier.reverse, by simp,
      ticketOf?_eq_some_iff.mpr hrefers, ?_⟩
    intro other hother
    exact ticketOf?_eq_none_iff.mpr (hlater other (List.mem_reverse.mp hother))

theorem getLast?_tickets_eq_none_iff :
    (tags.filterMap ticketOf?).getLast? = none ↔
      ∀ tag ∈ tags, ¬ IsTicket tag := by
  simp [ticketOf?_eq_none_iff]

/-! ## One reason -/

theorem find?_namedReasons_eq_some_iff {named : Tag × SkipReason} :
    namedReasons.find? (·.1 ∈ tags) = some named ↔
      named.1 ∈ tags ∧ ∃ stronger weaker,
        namedReasons = stronger ++ named :: weaker ∧
          ∀ other ∈ stronger, other.1 ∉ tags := by
  simp only [List.find?_eq_some_iff_append, decide_eq_true_eq,
    Bool.not_eq_true', decide_eq_false_iff_not]

theorem find?_namedReasons_eq_none_iff :
    namedReasons.find? (·.1 ∈ tags) = none ↔
      ∀ other ∈ namedReasons, other.1 ∉ tags := by
  simp only [List.find?_eq_none, decide_eq_true_eq]

theorem ofIgnored_eq (tags : List Tag) :
    ofIgnored tags =
      match namedReasons.find? (·.1 ∈ tags) with
      | some named => named.2
      | none =>
        match (tags.filterMap ticketOf?).getLast? with
        | some reference => ticket reference
        | none => unspecified := by
  unfold ofIgnored
  split
  · simp [namedReasons, *]
  · split
    · simp [namedReasons, *]
    · split
      · simp [namedReasons, *]
      · split
        · simp [namedReasons, *]
        · have hnone : ∀ other ∈ namedReasons, other.1 ∉ tags := by
            simp [namedReasons, *]
          have hfind := find?_namedReasons_eq_none_iff.mpr hnone
          cases hticket : (tags.filterMap ticketOf?).getLast? with
          | none => simp only [hfind]
          | some reference => simp only [hfind]

theorem precedence_ofIgnored (hignored : ignoreTag ∈ tags) :
    Precedence tags (ofIgnored tags) := by
  rw [ofIgnored_eq]
  cases hnamed : namedReasons.find? (·.1 ∈ tags) with
  | some named =>
      obtain ⟨hmem, stronger, weaker, hsplit, hstronger⟩ :=
        find?_namedReasons_eq_some_iff.mp hnamed
      exact .named hignored hsplit hmem hstronger
  | none =>
      have hnone := find?_namedReasons_eq_none_iff.mp hnamed
      cases hticket : (tags.filterMap ticketOf?).getLast? with
      | some reference =>
          obtain ⟨tag, hlast, hrefers⟩ :=
            getLast?_tickets_eq_some_iff.mp hticket
          exact .ticket hignored hnone hlast hrefers
      | none =>
          exact .unspecified hignored hnone
            (getLast?_tickets_eq_none_iff.mp hticket)

theorem Precedence.eq_ofIgnored (h : Precedence tags reason) :
    reason = if ignoreTag ∈ tags then ofIgnored tags else .notSkipped := by
  cases h with
  | notSkipped hignored => rw [if_neg hignored]
  | named hignored hsplit hmem hstronger =>
      rw [if_pos hignored, ofIgnored_eq, find?_namedReasons_eq_some_iff.mpr
        ⟨hmem, _, _, hsplit, hstronger⟩]
  | ticket hignored hnone hlast hrefers =>
      rw [if_pos hignored, ofIgnored_eq,
        find?_namedReasons_eq_none_iff.mpr hnone,
        getLast?_tickets_eq_some_iff.mpr ⟨_, hlast, hrefers⟩]
  | unspecified hignored hnone htickets =>
      rw [if_pos hignored, ofIgnored_eq,
        find?_namedReasons_eq_none_iff.mpr hnone,
        getLast?_tickets_eq_none_iff.mpr htickets]

theorem ofTags_eq_iff :
    ofTags tags = reason ↔ Precedence (tags.map fullTag) reason := by
  constructor
  · rintro rfl
    rw [ofTags]
    split
    · next hignored => exact precedence_ofIgnored hignored
    · next hignored => exact .notSkipped hignored
  · intro h
    exact h.eq_ofIgnored.symm

/-! ## Tags that say the same -/

/-- The order of tags and their number matter for the last ticket only. -/
theorem Precedence.of_same_members {other : List Tag}
    (hmem : ∀ tag, tag ∈ tags ↔ tag ∈ other)
    (hlast : ∀ tag, LastTicket tags tag ↔ LastTicket other tag)
    (h : Precedence tags reason) : Precedence other reason := by
  cases h with
  | notSkipped hignored => exact .notSkipped ((hmem _).not.mp hignored)
  | named hignored hsplit htag hstronger =>
      exact .named ((hmem _).mp hignored) hsplit ((hmem _).mp htag)
        fun named hnamed => (hmem _).not.mp (hstronger named hnamed)
  | ticket hignored hnone hticket hrefers =>
      exact .ticket ((hmem _).mp hignored)
        (fun named hnamed => (hmem _).not.mp (hnone named hnamed))
        ((hlast _).mp hticket) hrefers
  | unspecified hignored hnone htickets =>
      exact .unspecified ((hmem _).mp hignored)
        (fun named hnamed => (hmem _).not.mp (hnone named hnamed))
        fun tag htag => htickets tag ((hmem _).mpr htag)

/-- A name that begins with a visible character, and not with an at sign. -/
def IsPlainName (name : Text) : Prop :=
  ∀ c ∈ name.head?, c ≠ '@' ∧ isBlank c = false

/-- The same tag, or the same name with an at sign and without. -/
inductive AtSignOptional : Tag → Tag → Prop where
  | same (tag : Tag) : AtSignOptional tag tag
  | added (indent : Gap) {name : Text} : IsPlainName name →
      AtSignOptional (indent.text ++ name) (indent.text ++ '@' :: name)
  | dropped (indent : Gap) {name : Text} : IsPlainName name →
      AtSignOptional (indent.text ++ '@' :: name) (indent.text ++ name)

theorem fullTag_indented_at (indent : Gap) (name : Text) :
    fullTag (indent.text ++ '@' :: name) = '@' :: name.trimEnd := by
  have htrim : Text.trim (indent.text ++ '@' :: name) =
      '@' :: name.trimEnd := by
    rw [Text.trim, trimStart_append_of_blank indent.isBlank_of_mem,
      trimStart_cons_of_not_blank (by decide),
      trimEnd_cons_of_not_blank (by decide)]
  rw [fullTag, htrim, if_pos (by rfl)]

theorem IsPlainName.fullTag_indented {name : Text} (h : IsPlainName name)
    (indent : Gap) :
    fullTag (indent.text ++ name) = '@' :: name.trimEnd := by
  have hstart : name.trimStart = name := by
    cases name with
    | nil => rfl
    | cons c rest => exact trimStart_cons_of_not_blank (h c rfl).2 rest
  have htrim : Text.trim (indent.text ++ name) = name.trimEnd := by
    rw [Text.trim, trimStart_append_of_blank indent.isBlank_of_mem, hstart]
  have hplain : ¬ beginsTag name.trimEnd := by
    intro hbegins
    obtain ⟨rest, hrest⟩ := exists_cons_of_beginsTag hbegins
    have hprefix := name.isPrefix_trimEnd
    rw [hrest] at hprefix
    obtain ⟨more, hmore⟩ := hprefix
    exact (h '@' (by rw [← hmore]; rfl)).1 rfl
  rw [fullTag, htrim, if_neg hplain]

theorem AtSignOptional.fullTag_eq {tag other : Tag}
    (h : AtSignOptional tag other) : fullTag tag = fullTag other := by
  cases h with
  | same => rfl
  | added indent hname =>
      rw [fullTag_indented_at, hname.fullTag_indented]
  | dropped indent hname =>
      rw [fullTag_indented_at, hname.fullTag_indented]

theorem map_fullTag_eq {other : List Tag}
    (h : List.Forall₂ AtSignOptional tags other) :
    tags.map fullTag = other.map fullTag := by
  induction h with
  | nil => rfl
  | cons hfirst _ ih => rw [List.map_cons, List.map_cons, hfirst.fullTag_eq, ih]

/-! ## Tickets that are written -/

theorem fullTag_ticketTag (reference : Text) :
    fullTag (ticketTag reference) = ticketTag reference := by
  have heq : ticketTag reference =
      '@' :: (ticketOpening.tail ++ reference ++ [')']) := by
    simp [ticketTag, ticketOpening]
  have htrim : Text.trim (ticketTag reference) = ticketTag reference := by
    rw [heq]
    exact trim_cons_append_singleton (by decide) (by decide) _
  rw [fullTag, htrim, if_pos (by rfl)]

theorem not_isTicket_of_mem_namedReasons :
    ∀ named ∈ namedReasons, ¬ IsTicket named.1 := by
  have hnone : ∀ named ∈ namedReasons, ticketOf? named.1 = none := by decide
  exact fun named hnamed => ticketOf?_eq_none_iff.mp (hnone named hnamed)

theorem Precedence.of_unspecified (h : Precedence tags .unspecified) :
    ignoreTag ∈ tags ∧ (∀ other ∈ namedReasons, other.1 ∉ tags) ∧
      ∀ tag ∈ tags, ¬ IsTicket tag := by
  cases h with
  | @named stronger weaker tag _ _ hsplit _ _ =>
      have hmem : (tag, SkipReason.unspecified) ∈ namedReasons := by
        rw [hsplit]
        simp
      simp [namedReasons] at hmem
  | unspecified hignored hnone htickets => exact ⟨hignored, hnone, htickets⟩

/-- A ticket is the reason where there is no other. -/
theorem ofTags_insert_ticketTag {earlier later : List Tag} {reference : Text}
    (hclosing : ')' ∉ reference) (hline : '\n' ∉ reference)
    (h : ofTags (earlier ++ later) = .unspecified) :
    ofTags (earlier ++ ticketTag reference :: later) = .ticket reference := by
  have hrefers := refersTo_ticketTag hclosing hline
  obtain ⟨hignored, hnone, htickets⟩ := (ofTags_eq_iff.mp h).of_unspecified
  rw [List.map_append] at hignored hnone htickets
  rw [ofTags_eq_iff, List.map_append, List.map_cons, fullTag_ticketTag]
  refine .ticket ?_ ?_ ⟨_, _, rfl, hrefers.isTicket, ?_⟩ hrefers
  · rcases List.mem_append.mp hignored with hmem | hmem
    · exact List.mem_append_left _ hmem
    · exact List.mem_append_right _ (List.mem_cons_of_mem _ hmem)
  · intro named hnamed hmem
    have hother := hnone named hnamed
    rw [List.mem_append, not_or] at hother
    rw [List.mem_append, List.mem_cons] at hmem
    rcases hmem with hmem | heq | hmem
    · exact hother.1 hmem
    · exact not_isTicket_of_mem_namedReasons named hnamed
        (heq ▸ hrefers.isTicket)
    · exact hother.2 hmem
  · intro other hother
    exact htickets other (List.mem_append_right _ hother)

/-- The reason follows the precedence of the full tags.  It does not change with
the order of the tags or with repeated ones as long as the last ticket stays the
last, nor with an at sign before a plain name, nor with how the tags are shared
out between feature and scenario; and what is written as a ticket is read as
one. -/
theorem ofTags_exact :
    (∀ tags reason,
      ofTags tags = reason ↔ Precedence (tags.map fullTag) reason) ∧
    (∀ tags other : List Tag, (∀ tag, tag ∈ tags ↔ tag ∈ other) →
      (∀ tag, LastTicket (tags.map fullTag) tag ↔
        LastTicket (other.map fullTag) tag) →
      ofTags tags = ofTags other) ∧
    (∀ tags other, List.Forall₂ AtSignOptional tags other →
      ofTags tags = ofTags other) ∧
    (∀ featureTags scenarioTags,
      ofScenario featureTags scenarioTags =
        ofTags (featureTags ++ scenarioTags)) ∧
    ∀ reference, ')' ∉ reference → '\n' ∉ reference →
      RefersTo (ticketTag reference) reference ∧
      ∀ earlier later, ofTags (earlier ++ later) = .unspecified →
        ofTags (earlier ++ ticketTag reference :: later) =
          .ticket reference := by
  refine ⟨fun tags reason => ofTags_eq_iff, ?_, ?_, fun _ _ => rfl, ?_⟩
  · intro tags other hmem hlast
    have hfull : ∀ tag, tag ∈ tags.map fullTag ↔ tag ∈ other.map fullTag := by
      simp only [List.mem_map, hmem, implies_true]
    exact ofTags_eq_iff.mpr ((ofTags_eq_iff.mp rfl).of_same_members
      (fun tag => (hfull tag).symm) fun tag => (hlast tag).symm)
  · intro tags other hspelled
    rw [ofTags, ofTags, map_fullTag_eq hspelled]
  · intro reference hclosing hline
    exact ⟨refersTo_ticketTag hclosing hline,
      fun _ _ => ofTags_insert_ticketTag hclosing hline⟩

/-! ## Two tickets in one tag, and another behind it -/

def blockedTags : List Tag :=
  [" ignore".toList, "@tillfixed(a\n@tillfixed(b".toList,
    "x@tillfixed(@tillfixed(QA 1) )".toList]

theorem ofTags_exact_blockedTags :
    Precedence (blockedTags.map fullTag)
      (.ticket "@tillfixed(QA 1".toList) ∧
    ofTags (" @ignore".toList :: blockedTags.tail) =
      .ticket "@tillfixed(QA 1".toList ∧
    RefersTo (ticketTag " QA 1 ".toList) " QA 1 ".toList ∧
    ofTags [ticketTag " QA 1 ".toList, ignoreTag] =
      .ticket " QA 1 ".toList := by
  obtain ⟨hlaw, -, hspelled, -, hwritten⟩ := ofTags_exact
  have hblocked : ofTags blockedTags = .ticket "@tillfixed(QA 1".toList := by
    decide +kernel
  have hticket := hwritten " QA 1 ".toList (by decide) (by decide)
  refine ⟨(hlaw _ _).mp hblocked, ?_, hticket.1,
    hticket.2 [] [ignoreTag] (by decide +kernel)⟩
  rw [← hblocked]
  have hplain : IsPlainName "ignore".toList := by
    rintro c ⟨⟩
    decide
  have hignore : AtSignOptional " @ignore".toList " ignore".toList :=
    .dropped (Gap.single ' ' (by decide)) hplain
  exact hspelled _ _ (.cons hignore (.cons (.same _) (.cons (.same _) .nil)))

end SkipReason

end ScenarioInclusion
