import ScenarioInclusion.Settings
import ScenarioInclusion.Proofs.Sequence
import ScenarioInclusion.Proofs.Text.Margins
import Mathlib.Data.List.Induction
import Mathlib.Data.Nat.Digits.Defs

/-!
# Which settings are accepted

The two variables are read apart from each other, the root before the limit.
Anything but bad Unicode is a root or says that there is none.  A limit has to be
written in decimal, and it is read exactly, up to the greatest number that fits
into 64 bits: whether the value has grown too great can be seen at every digit or
only at the end.
-/

namespace ScenarioInclusion

open Text

namespace Settings

/-! ## Numbers as they are written -/

/-- The value of decimal digits, the last of which counts once. -/
def decimalValue (digits : Text) : Nat :=
  Nat.ofDigits 10 (digits.reverse.map fun c => c.toNat - '0'.toNat)

/-- Is this the number in digits, maybe behind a plus sign? -/
def WritesNumber (text : Text) (number : Nat) : Prop :=
  ∃ digits, (text = digits ∨ text = '+' :: digits) ∧ digits ≠ [] ∧
    (∀ c ∈ digits, c.isDigit) ∧ decimalValue digits = number

/-- One more digit, unless the value grows too great. -/
def addDigit? (value : Nat) (digit : Char) : Option Nat :=
  let next := 10 * value + (digit.toNat - '0'.toNat)
  if next ≤ greatestDepth then some next else none

/-- The value of digits that are read one by one, with room for 64 bits. -/
def checkedValue? (digits : Text) : Option Nat :=
  if digits = [] ∨ ¬ digits.all isDigit then none
  else digits.foldlM addDigit? 0

theorem decimalValue_concat (digits : Text) (digit : Char) :
    decimalValue (digits ++ [digit]) =
      10 * decimalValue digits + (digit.toNat - '0'.toNat) := by
  rw [decimalValue, List.reverse_append, List.reverse_singleton,
    List.singleton_append, List.map_cons, Nat.ofDigits_cons, decimalValue,
    add_comm]

theorem valueOfDigits_eq (digits : Text) :
    valueOfDigits digits = decimalValue digits := by
  induction digits using List.reverseRecOn with
  | nil => rfl
  | append_singleton digits digit ih =>
      rw [decimalValue_concat, ← ih]
      exact List.foldl_concat ..

/-- A value that has grown too great stays so. -/
theorem foldlM_addDigit? (digits : Text) :
    digits.foldlM addDigit? 0 =
      if decimalValue digits ≤ greatestDepth then some (decimalValue digits)
      else none := by
  induction digits using List.reverseRecOn with
  | nil => rfl
  | append_singleton digits digit ih =>
      rw [List.foldlM_append, ih, decimalValue_concat]
      split
      · simp [addDigit?]
      · next hgreat =>
          rw [if_neg (by omega)]
          rfl

/-- It does not matter when it is found out that a limit is too great. -/
theorem readDepth?_eq_checkedValue? (text : Text) :
    readDepth? text = (checkedValue? (digitsOf text.trim)).filter (1 ≤ ·) := by
  rw [readDepth?, checkedValue?, foldlM_addDigit?, valueOfDigits_eq]
  split
  · rfl
  · by_cases hhigh : decimalValue (digitsOf text.trim) ≤ greatestDepth
    · simp [hhigh, Option.filter]
    · simp [hhigh]

theorem isDigit_eq (c : Char) : isDigit c = c.isDigit := by
  rw [isDigit, Bool.decide_and]
  rfl

theorem digitsOf_cases (text : Text) :
    text = digitsOf text ∨ text = '+' :: digitsOf text := by
  unfold digitsOf
  split
  · exact Or.inr rfl
  · exact Or.inl rfl

theorem writesNumber_iff {text : Text} {number : Nat} :
    WritesNumber text number ↔
      digitsOf text ≠ [] ∧ (∀ c ∈ digitsOf text, c.isDigit) ∧
        decimalValue (digitsOf text) = number := by
  constructor
  · rintro ⟨digits, rfl | rfl, hne, hdigits, hvalue⟩
    · have hplain : digitsOf text = text := by
        unfold digitsOf
        split
        · next digits =>
            have hplus := hdigits '+' (List.mem_cons_self ..)
            contradiction
        · rfl
      rw [hplain]
      exact ⟨hne, hdigits, hvalue⟩
    · exact ⟨hne, hdigits, hvalue⟩
  · rintro ⟨hne, hdigits, hvalue⟩
    exact ⟨digitsOf text, digitsOf_cases text, hne, hdigits, hvalue⟩

theorem writesNumber_toDigits {sign : Text} (hsign : sign = [] ∨ sign = ['+'])
    (zeros number : Nat) :
    WritesNumber (sign ++ (List.replicate zeros '0' ++ Nat.toDigits 10 number))
      number := by
  refine ⟨List.replicate zeros '0' ++ Nat.toDigits 10 number, ?_, ?_, ?_, ?_⟩
  · rcases hsign with rfl | rfl
    · exact Or.inl rfl
    · exact Or.inr rfl
  · exact List.append_ne_nil_of_right_ne_nil _ Nat.toDigits_ne_nil
  · intro c hc
    rcases List.mem_append.mp hc with hzero | hdigit
    · rw [List.eq_of_mem_replicate hzero]
      rfl
    · exact Nat.isDigit_of_mem_toDigits (by decide) (by decide) hdigit
  · have hvalue : ∀ digits, valueOfDigits digits =
        Nat.ofDigitChars 10 digits 0 := fun _ => rfl
    rw [← valueOfDigits_eq, hvalue, Nat.ofDigitChars_append,
      Nat.ofDigitChars_replicate_zero, Nat.mul_zero,
      Nat.ofDigitChars_ten_toDigits]

theorem isBlank_eq_false_of_isDigit {c : Char} (h : c.isDigit) :
    isBlank c = false := by
  obtain ⟨hlow, hhigh⟩ : 48 ≤ c.toNat ∧ c.toNat ≤ 57 :=
    Char.isDigit_iff_toNat.mp h
  have hranges : ∀ range ∈ blankRanges, range.2 < 48 ∨ 57 < range.1 := by
    decide
  rw [isBlank, List.any_eq_false]
  intro range hrange
  have hoff := hranges range hrange
  simp only [Bool.and_eq_true, decide_eq_true_eq]
  omega

theorem trim_of_visible {text : Text} (h : ∀ c ∈ text, isBlank c = false) :
    text.trim = text := by
  have hdrop : ∀ more : Text, (∀ c ∈ more, isBlank c = false) →
      more.dropWhile isBlank = more := by
    intro more hmore
    cases more with
    | nil => rfl
    | cons c rest => exact trimStart_cons_of_not_blank (hmore c (by simp)) rest
  rw [trim, trimStart, hdrop text h, trimEnd, hdrop _ (by simpa using h),
    List.reverse_reverse]

/-- A number holds no blanks, so those around it can be trimmed. -/
theorem WritesNumber.trim_eq {text : Text} {number : Nat}
    (h : WritesNumber text number) : text.trim = text := by
  obtain ⟨digits, htext, -, hdigits, -⟩ := h
  have hvisible : ∀ c ∈ digits, isBlank c = false := fun c hc =>
    isBlank_eq_false_of_isDigit (hdigits c hc)
  rcases htext with rfl | rfl
  · exact trim_of_visible hvisible
  · exact trim_of_visible (List.forall_mem_cons.mpr ⟨by decide, hvisible⟩)

/-! ## One variable -/

/-- The features root that a variable says. -/
inductive SaysRoot : Held → Option Path → Prop where
  | missing : SaysRoot .missing none
  | blank {text : Text} : (∀ c ∈ text, isBlank c = true) →
      SaysRoot (.text text) none
  | directory {text : Text} : (∃ c ∈ text, isBlank c = false) →
      SaysRoot (.text text) (some ⟨text.trim⟩)

/-- The limit that a variable says. -/
inductive SaysDepth : Held → Nat → Prop where
  | missing : SaysDepth .missing defaultMaxDepth
  | written {text : Text} {depth : Nat} : WritesNumber text.trim depth →
      1 ≤ depth → depth ≤ 2 ^ 64 - 1 → SaysDepth (.text text) depth

/-- What is wrong with a variable that says no limit. -/
inductive DepthFault : Held → Fault → Prop where
  | notUnicode : DepthFault .notUnicode (.notUnicode .maxDepth)
  | notPositive {text : Text} : (∀ depth, ¬ SaysDepth (.text text) depth) →
      DepthFault (.text text) (.notPositive text)

variable {held : Held}

theorem readRoot_eq_ok_iff {root : Option Path} :
    readRoot held = .ok root ↔ SaysRoot held root := by
  constructor
  · intro h
    cases held with
    | missing =>
        cases h
        exact .missing
    | notUnicode => contradiction
    | text text =>
        rw [readRoot, Except.ok.injEq] at h
        split at h
        · next hvoid =>
            subst h
            exact .blank (List.all_eq_true.mp hvoid)
        · next hvoid =>
            subst h
            exact .directory (by simpa [isVoid] using hvoid)
  · intro h
    cases h with
    | missing => rfl
    | blank hblank =>
        rw [readRoot, isVoid, if_pos (List.all_eq_true.mpr hblank)]
    | directory hvisible =>
        rw [readRoot, if_neg (by simpa [isVoid] using hvisible)]

theorem readRoot_eq_error_iff {fault : Fault} :
    readRoot held = .error fault ↔
      held = .notUnicode ∧ fault = .notUnicode .featuresRoot := by
  cases held with
  | missing => simp [readRoot]
  | notUnicode => simp [readRoot, eq_comm]
  | text text => simp [readRoot]

theorem saysDepth_text_iff {text : Text} {depth : Nat} :
    SaysDepth (.text text) depth ↔
      WritesNumber text.trim depth ∧ 1 ≤ depth ∧ depth ≤ 2 ^ 64 - 1 := by
  constructor
  · rintro ⟨⟩
    exact ⟨‹_›, ‹_›, ‹_›⟩
  · rintro ⟨hnumber, hlow, hhigh⟩
    exact .written hnumber hlow hhigh

theorem readDepth?_eq_some_iff {text : Text} {depth : Nat} :
    readDepth? text = some depth ↔ SaysDepth (.text text) depth := by
  have hdigits : (digitsOf text.trim = [] ∨
      ¬ (digitsOf text.trim).all isDigit) ↔
        ¬ (digitsOf text.trim ≠ [] ∧ ∀ c ∈ digitsOf text.trim, c.isDigit) := by
    simp only [List.all_eq_true, isDigit_eq]
    tauto
  have hgreatest : greatestDepth = 2 ^ 64 - 1 := rfl
  rw [saysDepth_text_iff, writesNumber_iff, readDepth?, valueOfDigits_eq]
  simp only [hdigits, hgreatest]
  split
  · next hbad =>
      constructor
      · intro h
        contradiction
      · intro h
        exact absurd ⟨h.1.1, h.1.2.1⟩ hbad
  · next hgood =>
      rw [not_not] at hgood
      constructor
      · intro h
        split at h
        · next hbounds =>
            cases h
            exact ⟨⟨hgood.1, hgood.2, rfl⟩, hbounds⟩
        · contradiction
      · rintro ⟨⟨-, -, rfl⟩, hbounds⟩
        rw [if_pos hbounds]

theorem readDepth?_eq_none_iff {text : Text} :
    readDepth? text = none ↔ ∀ depth, ¬ SaysDepth (.text text) depth := by
  simp only [Option.eq_none_iff_forall_ne_some, ne_eq, readDepth?_eq_some_iff]

theorem readMaxDepth_eq_ok_iff {depth : Nat} :
    readMaxDepth held = .ok depth ↔ SaysDepth held depth := by
  cases held with
  | missing =>
      constructor
      · rintro ⟨⟩
        exact .missing
      · rintro ⟨⟩
        rfl
  | notUnicode =>
      constructor <;> intro h <;> contradiction
  | text text =>
      rw [← readDepth?_eq_some_iff, readMaxDepth]
      cases readDepth? text <;> simp

theorem readMaxDepth_eq_error_iff {fault : Fault} :
    readMaxDepth held = .error fault ↔ DepthFault held fault := by
  constructor
  · intro h
    cases held with
    | missing => contradiction
    | notUnicode =>
        cases h
        exact .notUnicode
    | text text =>
        rw [readMaxDepth] at h
        split at h
        · next hnone =>
            cases h
            exact .notPositive (readDepth?_eq_none_iff.mp hnone)
        · contradiction
  · intro h
    cases h with
    | notUnicode => rfl
    | notPositive hnone =>
        rw [readMaxDepth, readDepth?_eq_none_iff.mpr hnone]

/-! ## Both variables -/

variable {held : Variable → Held}

theorem ofVariables_eq_ok_iff {settings : Settings} :
    ofVariables held = .ok settings ↔
      SaysRoot (held .featuresRoot) settings.featuresRoot ∧
        SaysDepth (held .maxDepth) settings.maxDepth := by
  simp only [ofVariables, bind_eq_ok_iff, readRoot_eq_ok_iff,
    readMaxDepth_eq_ok_iff]
  constructor
  · rintro ⟨root, hroot, depth, hdepth, ⟨⟩⟩
    exact ⟨hroot, hdepth⟩
  · rintro ⟨hroot, hdepth⟩
    exact ⟨_, hroot, _, hdepth, rfl⟩

theorem exists_saysRoot {held : Held} (h : held ≠ .notUnicode) :
    ∃ root, SaysRoot held root := by
  cases hread : readRoot held with
  | error fault => exact absurd (readRoot_eq_error_iff.mp hread).1 h
  | ok root => exact ⟨root, readRoot_eq_ok_iff.mp hread⟩

theorem SaysRoot.ne_notUnicode {held : Held} {root : Option Path}
    (h : SaysRoot held root) : held ≠ .notUnicode := by
  cases h <;> exact Held.noConfusion

theorem ofVariables_eq_error_iff {fault : Fault} :
    ofVariables held = .error fault ↔
      (held .featuresRoot = .notUnicode ∧
        fault = .notUnicode .featuresRoot) ∨
      (held .featuresRoot ≠ .notUnicode ∧
        DepthFault (held .maxDepth) fault) := by
  have hpure : ∀ root depth,
      (pure ⟨root, depth⟩ : Except Fault Settings) ≠ .error fault :=
    fun _ _ h => by cases h
  simp only [ofVariables, bind_eq_error_iff, readRoot_eq_error_iff,
    readRoot_eq_ok_iff, readMaxDepth_eq_error_iff, hpure, and_false,
    exists_false, or_false]
  refine or_congr_right ⟨?_, ?_⟩
  · rintro ⟨root, hroot, hfault⟩
    exact ⟨hroot.ne_notUnicode, hfault⟩
  · rintro ⟨hroot, hfault⟩
    obtain ⟨root, hroot⟩ := exists_saysRoot hroot
    exact ⟨root, hroot, hfault⟩

theorem isBlank_of_mem_head?_dropWhile (text : Text) :
    ∀ c ∈ (text.dropWhile isBlank).head?, isBlank c = false := by
  intro c hc
  have hhead := List.head?_dropWhile_not isBlank text
  rw [Option.mem_def.mp hc] at hhead
  simpa using hhead

theorem SaysRoot.visible_ends {held : Held} {root : Path}
    (h : SaysRoot held (some root)) :
    root.text ≠ [] ∧ (∀ c ∈ root.text.head?, isBlank c = false) ∧
      ∀ c ∈ root.text.getLast?, isBlank c = false := by
  cases h with
  | @directory text hvisible =>
      obtain ⟨c, hc, hblank⟩ := hvisible
      refine ⟨List.ne_nil_of_mem (mem_trim_of_not_blank hc hblank), ?_, ?_⟩
      · rw [head?_trim]
        exact isBlank_of_mem_head?_dropWhile text
      · rw [trim, trimEnd, List.getLast?_reverse]
        exact isBlank_of_mem_head?_dropWhile _

theorem SaysDepth.one_le {held : Held} {depth : Nat}
    (h : SaysDepth held depth) : 1 ≤ depth := by
  cases h with
  | missing => decide
  | written _ hlow _ => exact hlow

theorem SaysDepth.missing_or_written {held : Held} {depth : Nat}
    (h : SaysDepth held depth) :
    held = .missing ∨ ∃ text depth, held = .text text ∧
      WritesNumber text.trim depth ∧ 1 ≤ depth ∧ depth ≤ 2 ^ 64 - 1 := by
  cases h with
  | missing => exact Or.inl rfl
  | written hnumber hlow hhigh =>
      exact Or.inr ⟨_, _, rfl, hnumber, hlow, hhigh⟩

theorem saysDepth_written {sign : Text} (hsign : sign = [] ∨ sign = ['+'])
    (zeros : Nat) (margins : Margins) {depth : Nat} (hlow : 1 ≤ depth)
    (hhigh : depth ≤ 2 ^ 64 - 1) :
    SaysDepth (.text (margins.around
      (sign ++ (List.replicate zeros '0' ++ Nat.toDigits 10 depth)))) depth := by
  have hnumber := writesNumber_toDigits hsign zeros depth
  refine .written ?_ hlow hhigh
  rwa [trim_around, hnumber.trim_eq]

/-- The settings are what the two variables say.  They are accepted if and only if
the root is Unicode and the limit, if there is one, is a number of 64 bits other
than zero; then the limit is not zero and the root, if there is one, is not empty
and has no blanks around it.  However a limit is written in decimal, it is read
exactly, and it does not matter at which digit too great a value is found out.  The
fault of the root goes before the fault of the limit. -/
theorem ofVariables_exact (held : Variable → Held) :
    (∀ settings, ofVariables held = .ok settings ↔
      SaysRoot (held .featuresRoot) settings.featuresRoot ∧
        SaysDepth (held .maxDepth) settings.maxDepth) ∧
    ((∃ settings, ofVariables held = .ok settings) ↔
      held .featuresRoot ≠ .notUnicode ∧
        (held .maxDepth = .missing ∨ ∃ text depth,
          held .maxDepth = .text text ∧ WritesNumber text.trim depth ∧
            1 ≤ depth ∧ depth ≤ 2 ^ 64 - 1)) ∧
    (∀ settings, ofVariables held = .ok settings →
      settings.maxDepth ≠ 0 ∧
      ∀ root ∈ settings.featuresRoot,
        root.text ≠ [] ∧ (∀ c ∈ root.text.head?, isBlank c = false) ∧
          ∀ c ∈ root.text.getLast?, isBlank c = false) ∧
    (∀ sign zeros depth (margins : Margins), sign = [] ∨ sign = ['+'] →
      1 ≤ depth → depth ≤ 2 ^ 64 - 1 → held .featuresRoot ≠ .notUnicode →
      held .maxDepth = .text (margins.around
        (sign ++ (List.replicate zeros '0' ++ Nat.toDigits 10 depth))) →
      ∃ settings, ofVariables held = .ok settings ∧
        settings.maxDepth = depth) ∧
    (∀ text, readDepth? text =
      (checkedValue? (digitsOf text.trim)).filter (1 ≤ ·)) ∧
    ∀ fault, ofVariables held = .error fault ↔
      (held .featuresRoot = .notUnicode ∧
        fault = .notUnicode .featuresRoot) ∨
      (held .featuresRoot ≠ .notUnicode ∧
        DepthFault (held .maxDepth) fault) := by
  refine ⟨fun _ => ofVariables_eq_ok_iff, ?_, ?_, ?_,
    readDepth?_eq_checkedValue?, fun _ => ofVariables_eq_error_iff⟩
  · simp only [ofVariables_eq_ok_iff]
    constructor
    · rintro ⟨settings, hroot, hdepth⟩
      exact ⟨hroot.ne_notUnicode, hdepth.missing_or_written⟩
    · rintro ⟨hroot, hdepth⟩
      obtain ⟨root, hroot⟩ := exists_saysRoot hroot
      rcases hdepth with hmissing | ⟨text, depth, htext, hnumber, hbounds⟩
      · exact ⟨⟨root, defaultMaxDepth⟩, hroot, hmissing ▸ .missing⟩
      · exact ⟨⟨root, depth⟩, hroot,
          htext ▸ .written hnumber hbounds.1 hbounds.2⟩
  · intro settings h
    obtain ⟨hroot, hdepth⟩ := ofVariables_eq_ok_iff.mp h
    refine ⟨Nat.one_le_iff_ne_zero.mp hdepth.one_le, ?_⟩
    intro root hsome
    rw [Option.mem_def.mp hsome] at hroot
    exact hroot.visible_ends
  · intro sign zeros depth margins hsign hlow hhigh hroot htext
    obtain ⟨root, hroot⟩ := exists_saysRoot hroot
    exact ⟨⟨root, depth⟩, ofVariables_eq_ok_iff.mpr ⟨hroot,
      htext ▸ saysDepth_written hsign zeros margins hlow hhigh⟩, rfl⟩

/-! ## The greatest limit, with zeros before it -/

def greatestHeld : Variable → Held
  | .featuresRoot => .text "  lib dir\t".toList
  | .maxDepth => .text "\n+00018446744073709551615".toList

def greatestMargins : Margins :=
  ⟨Gap.single '\n' (by decide), Gap.empty⟩

theorem ofVariables_exact_greatest :
    (∃ settings, ofVariables greatestHeld = .ok settings ∧
      settings.maxDepth = 2 ^ 64 - 1 ∧
      settings.featuresRoot = some ⟨"lib dir".toList⟩) ∧
    ofVariables (fun _ => .notUnicode) =
      .error (.notUnicode .featuresRoot) := by
  obtain ⟨-, -, -, hwritten, -⟩ := ofVariables_exact greatestHeld
  obtain ⟨-, -, -, -, -, hfault⟩ := ofVariables_exact fun _ => .notUnicode
  have hdepth : greatestHeld .maxDepth = .text (greatestMargins.around
      (['+'] ++ (List.replicate 3 '0' ++ Nat.toDigits 10 (2 ^ 64 - 1)))) := by
    decide +kernel
  obtain ⟨settings, hsettings, hgreatest⟩ := hwritten ['+'] 3 (2 ^ 64 - 1)
    greatestMargins (Or.inr rfl) (by decide) le_rfl (by decide) hdepth
  refine ⟨⟨settings, hsettings, hgreatest, ?_⟩,
    (hfault _).mpr (Or.inl ⟨rfl, rfl⟩)⟩
  have hread : ofVariables greatestHeld =
      .ok ⟨some ⟨"lib dir".toList⟩, 2 ^ 64 - 1⟩ := by
    decide +kernel
  rw [hsettings] at hread
  cases hread
  rfl

end Settings

end ScenarioInclusion
