import ScenarioInclusion.Proofs.Expansion.Descent

/-!
# Include tags that lead on and on

A chain of include tags may lead down without end: each of them stands on the
lines that come from the one before it.  An expansion that comes to such a chain
fails.

An expansion goes through the tags in order, and through all that lies below a tag
before it comes to the next.  So it fails for the chain, unless a tag is at fault
that comes before those of the chain.  What comes after the chain is never come to,
and neither is what would lie below an inclusion that returns.
-/

namespace ScenarioInclusion

/-- Does the fault report a chain? -/
inductive ExpansionError.OfChain : ExpansionError → Prop where
  | cyclic (chain : List Inclusion) : OfChain (.cyclic chain)
  | tooDeep (limit : Nat) (chain : List Inclusion) :
      OfChain (.tooDeep limit chain)

/-- How far down an expansion is: the inclusions that it has entered, and the site
that it works on. -/
structure Stage where
  chain : List Inclusion
  site : Site

namespace Stage

def tags (stage : Stage) : List (Tag × Nat) :=
  numberedTags stage.site.lines

/-- Does the link lead to an inclusion that has not been entered? -/
def IsNew (stage : Stage) (link : Link) : Prop :=
  ∀ entered ∈ stage.chain, ¬ entered.Same link.inclusion

def below (stage : Stage) (link : Link) : Stage :=
  ⟨stage.chain ++ [link.inclusion], link.site⟩

/-- The stage at which a link of a chain is come to, if the chain starts from the
site. -/
def along (site : Site) (links : Nat → Link) : Nat → Stage
  | 0 => ⟨[], site⟩
  | n + 1 => (along site links n).below (links n)

end Stage

namespace Library

/-- The tags that are come to by going through the given tags of a stage. -/
inductive Reaches (library : Library) :
    Stage → List (Tag × Nat) → Stage → Tag × Nat → Prop where
  | here {stage : Stage} {entries : List (Tag × Nat)} {entry : Tag × Nat} :
      entry ∈ entries → library.Reaches stage entries stage entry
  | down {stage target : Stage} {entries : List (Tag × Nat)}
      {entry : Tag × Nat} {link : Link} :
      (link.tag, link.number) ∈ entries → link.From library stage.site →
        stage.IsNew link → link.Fits →
        library.Reaches (stage.below link) (stage.below link).tags target
          entry →
        library.Reaches stage entries target entry

/-- Has the tag no fault of its own?  It finds an excerpt, and if that has not been
entered, the bindings can be filled in. -/
def Faultless (library : Library) (stage : Stage) (entry : Tag × Nat) : Prop :=
  ∃ link : Link, (link.tag, link.number) = entry ∧
    link.From library stage.site ∧ (stage.IsNew link → link.Fits)

/-- Links below a site, one after the other without end. -/
structure EndlessFrom (library : Library) (site : Site)
    (links : Nat → Link) : Prop where
  first : (links 0).From library site
  fits : ∀ n, (links n).Fits
  next : ∀ n, (links (n + 1)).From library (links n).site

/-- Is no tag at fault that is come to before those of the chain?  The chain counts
until it returns to an inclusion. -/
def Unhindered (library : Library) (site : Site) (links : Nat → Link) : Prop :=
  ∀ n, (∀ m < n, (Stage.along site links m).IsNew (links m)) →
    ∃ earlier later,
      (Stage.along site links n).tags =
        earlier ++ ((links n).tag, (links n).number) :: later ∧
      ∀ target entry,
        library.Reaches (Stage.along site links n) earlier target entry →
          library.Faultless target entry

variable {library : Library} {stage target : Stage}
  {entries : List (Tag × Nat)} {entry : Tag × Nat} {room : Nat}
  {fault : ExpansionError}

theorem not_reaches_nil : ¬ library.Reaches stage [] target entry := by
  intro h
  cases h with
  | here hmem => exact List.not_mem_nil hmem
  | down hmem _ _ _ _ => exact List.not_mem_nil hmem

/-! ## Tags without faults of their own -/

theorem Stops.ofChain {limit : Nat}
    (h : library.Stops limit stage.chain stage.site entry fault)
    (hsound : library.Faultless stage entry) : fault.OfChain := by
  rcases hsound with ⟨link, rfl, hfrom, hfits⟩
  -- The link excludes every other fault of its tag.
  cases h with
  | malformed hread =>
      rw [hfrom.ofTag_eq] at hread
      contradiction
  | featureNotFound hread hload =>
      rw [hfrom.ofTag_eq] at hread
      cases hread
      rcases excerpt_eq_ok_iff.mp hfrom.excerpt_eq with ⟨loaded, -, hfound, -⟩
      rw [hload] at hfound
      contradiction
  | scenarioNotFound hread hload hpassage =>
      rw [hfrom.ofTag_eq] at hread
      cases hread
      rcases excerpt_eq_ok_iff.mp hfrom.excerpt_eq with
        ⟨loaded, passage, hfound, hsome, -⟩
      rw [hload] at hfound
      cases hfound
      rw [hpassage] at hsome
      contradiction
  | cyclic => exact .cyclic _
  | tooDeep => exact .tooDeep _ _
  | misfit hlink hother hnew hne hmisfit =>
      have heq := hother.eq_of_entry_eq hfrom hlink
      subst heq
      have herror := Excerpt.bind_eq_error_iff.mpr ⟨hne, _, hmisfit, rfl⟩
      rw [hfits hnew] at herror
      contradiction

/-- What becomes of the lines of a stage, with room for further inclusions. -/
def expandAt (library : Library) (room : Nat) (stage : Stage) :
    Except ExpansionError (List Line) :=
  (expandLines (library.splice room stage.chain stage.site.path) []
    stage.site.lines).outcome

def spliceAt (library : Library) (room : Nat) (stage : Stage)
    (entry : Tag × Nat) : Except ExpansionError (List Line) :=
  (library.splice room stage.chain stage.site.path entry.2 entry.1).outcome

/-- A tag without a fault of its own fails for a chain, or the lines below it
fail. -/
theorem ofChain_or_below (hsound : library.Faultless stage entry)
    (hentry : entry ∈ stage.tags)
    (h : library.spliceAt room stage entry = .error fault) :
    fault.OfChain ∨
      ∃ (link : Link) (roomLeft : Nat), room = roomLeft + 1 ∧
        (link.tag, link.number) = entry ∧ link.From library stage.site ∧
        link.Fits ∧ stage.IsNew link ∧
        library.expandAt roomLeft (stage.below link) = .error fault := by
  rcases stops_or_exists_link_of_splice hentry rfl h with hstops | hbelow
  · exact Or.inl (hstops.ofChain hsound)
  · exact Or.inr hbelow

theorem exists_first_of_expandAt
    (h : library.expandAt room stage = .error fault) :
    ∃ earlier entry later, stage.tags = earlier ++ entry :: later ∧
      (∀ other ∈ earlier, ∃ block,
        library.spliceAt room stage other = .ok block) ∧
      entry ∈ stage.tags ∧
      library.spliceAt room stage entry = .error fault := by
  rcases exists_first_of_expandLines h with
    ⟨earlier, entry, later, hsplit, hearlier, hfault⟩
  refine ⟨earlier, entry, later, hsplit, hearlier, ?_, hfault⟩
  rw [Stage.tags, hsplit]
  exact List.mem_append_right _ (List.mem_cons_self ..)

/-- If nothing is at fault that is come to from some tags, they fail for chains
only. -/
theorem ofChain_of_reaches
    (hsound : ∀ target entry, library.Reaches stage entries target entry →
      library.Faultless target entry)
    (hmem : entry ∈ entries) (hentry : entry ∈ stage.tags)
    (h : library.spliceAt room stage entry = .error fault) :
    fault.OfChain := by
  induction room using Nat.strong_induction_on
    generalizing stage entries entry with
  | _ room ih =>
      have hown := hsound stage entry (.here hmem)
      rcases ofChain_or_below hown hentry h with
        hdone | ⟨link, roomLeft, hroom, rfl, hfrom, hfits, hnew, hbelow⟩
      · exact hdone
      · rcases exists_first_of_expandAt hbelow with
          ⟨-, next, -, -, -, hnext, hfault⟩
        have hleft : roomLeft < room := by omega
        apply ih roomLeft hleft _ hnext hnext hfault
        intro target other hreaches
        exact hsound target other (.down hmem hfrom hnew hfits hreaches)

/-! ## Chains without end -/

variable {site : Site} {links : Nat → Link}

namespace EndlessFrom

theorem tail (h : library.EndlessFrom site links) :
    library.EndlessFrom (links 0).site fun n => links (n + 1) :=
  ⟨h.next 0, fun n => h.fits (n + 1), fun n => h.next (n + 1)⟩

theorem along (h : library.EndlessFrom site links) (n : Nat) :
    library.EndlessFrom (Stage.along site links n).site
      fun k => links (n + k) := by
  refine ⟨?_, fun k => h.fits (n + k), fun k => h.next (n + k)⟩
  cases n with
  | zero => exact h.first
  | succ n => exact h.next n

theorem exists_descent (h : library.EndlessFrom site links) (n : Nat) :
    ∃ down target, library.Descent site down target ∧ down.length = n := by
  induction n generalizing site links with
  | zero => exact ⟨[], site, .here site, rfl⟩
  | succ n ih =>
      rcases ih h.tail with ⟨down, target, hdescent, hlength⟩
      refine ⟨links 0 :: down, target, .down h.first (h.fits 0) hdescent, ?_⟩
      rw [List.length_cons, hlength]

theorem expandAt_ne_ok (h : library.EndlessFrom stage.site links)
    (room : Nat) (block : List Line) :
    library.expandAt room stage ≠ .ok block := by
  intro hok
  rcases h.exists_descent (room + 1) with ⟨down, target, hdescent, hlength⟩
  rcases exists_block_of_descent hdescent hok with ⟨roomLeft, -, -, hroom, -⟩
  omega

theorem spliceAt_ne_ok (h : library.EndlessFrom stage.site links)
    (room : Nat) (block : List Line) :
    library.spliceAt room stage ((links 0).tag, (links 0).number) ≠
      .ok block := by
  intro hok
  rcases exists_link_of_splice h.first.mem_tags hok with
    ⟨link, roomLeft, -, hentry, hfrom, -, hexpand⟩
  have heq : link = links 0 := hfrom.eq_of_entry_eq h.first hentry
  rw [heq] at hexpand
  have hbelow : library.EndlessFrom (stage.below (links 0)).site
      fun n => links (n + 1) := h.tail
  exact hbelow.expandAt_ne_ok roomLeft block hexpand

end EndlessFrom

/-- The run comes down along the chain, one link with each step of the induction,
until a tag fails. -/
theorem ofChain_of_unhindered (hendless : library.EndlessFrom site links)
    (hclear : library.Unhindered site links) (n : Nat)
    (hnew : ∀ m < n, (Stage.along site links m).IsNew (links m))
    (h : library.expandAt room (Stage.along site links n) = .error fault) :
    fault.OfChain := by
  induction room using Nat.strong_induction_on generalizing n with
  | _ room ih =>
      have hchain := hendless.along n
      rcases exists_first_of_expandAt h with
        ⟨tried, entry, rest, hsplit, htried, hentry, hfault⟩
      rcases hclear n hnew with ⟨earlier, later, htags, hearlier⟩
      rcases mem_or_eq_or_mem_of_append_eq (hsplit.symm.trans htags) with
        hbefore | rfl | hafter
      · exact ofChain_of_reaches hearlier hbefore hentry hfault
      · have hown : library.Faultless (Stage.along site links n)
            ((links n).tag, (links n).number) :=
          ⟨links n, rfl, hchain.first, fun _ => hendless.fits n⟩
        rcases ofChain_or_below hown hentry hfault with
          hdone | ⟨link, roomLeft, hroom, hlink, hfrom, -, hfresh, hbelow⟩
        · exact hdone
        · have heq : link = links n :=
            hfrom.eq_of_entry_eq hchain.first hlink
          rw [heq] at hfresh hbelow
          have hleft : roomLeft < room := by omega
          apply ih roomLeft hleft (n + 1) _ hbelow
          intro m hm
          rcases Nat.lt_succ_iff_lt_or_eq.mp hm with hm | rfl
          · exact hnew m hm
          · exact hfresh
      · -- The tag of the chain would have been spliced.
        rcases htried _ hafter with ⟨block, hblock⟩
        exact absurd hblock (hchain.spliceAt_ne_ok room block)

section Run

variable {settings : Settings} {path : Path} {document : Document}
  (hendless : library.EndlessFrom (document.site path) links)

include hendless

/-- An expansion that is led on and on fails. -/
theorem exists_fault_of_endlessFrom :
    ∃ fault, library.expand settings path document = .error fault := by
  cases hexpand : library.expand settings path document with
  | error fault => exact ⟨fault, rfl⟩
  | ok output =>
      rcases hendless.exists_descent (settings.maxDepth + 1) with
        ⟨down, target, hdescent, hlength⟩
      have hle := length_le_of_expand hdescent hexpand
      omega

/-- If nothing before the chain is at fault, it fails for a chain. -/
theorem ofChain_of_expand
    (hclear : library.Unhindered (document.site path) links)
    (h : library.expand settings path document = .error fault) :
    fault.OfChain := by
  have hlines : library.expandAt settings.maxDepth
      (Stage.along (document.site path) links 0) = .error fault :=
    expand_eq_error_iff.mp h
  exact ofChain_of_unhindered hendless hclear 0 (by simp) hlines

/-- And if it is not too deep either, it fails for its cycle. -/
theorem exists_cyclic_of_expand_ne_tooDeep
    (hclear : library.Unhindered (document.site path) links)
    (hroom : ∀ limit chain, library.expand settings path document ≠
      .error (.tooDeep limit chain)) :
    ∃ chain, library.expand settings path document =
      .error (.cyclic chain) := by
  rcases exists_fault_of_endlessFrom hendless with ⟨fault, hfault⟩
  cases ofChain_of_expand hendless hclear hfault with
  | cyclic chain => exact ⟨chain, hfault⟩
  | tooDeep limit chain => exact absurd hfault (hroom limit chain)

end Run

end Library

end ScenarioInclusion
