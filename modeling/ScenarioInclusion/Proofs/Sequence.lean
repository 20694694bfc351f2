import Mathlib.Data.List.Forall2

/-!
# Sequences of outcomes

Computations that may fail are run from the left.  All of them give a value, or
the first that fails decides the outcome of the sequence.
-/

namespace ScenarioInclusion

variable {ε α β : Type}

theorem bind_eq_ok_iff {x : Except ε α} {f : α → Except ε β} {b : β} :
    x >>= f = .ok b ↔ ∃ a, x = .ok a ∧ f a = .ok b := by
  cases x with
  | error fault =>
      constructor
      · intro h
        cases h
      · rintro ⟨a, ha, -⟩
        cases ha
  | ok a =>
      constructor
      · intro h
        exact ⟨a, rfl, h⟩
      · rintro ⟨a', ha, hf⟩
        cases ha
        exact hf

theorem bind_eq_error_iff {x : Except ε α} {f : α → Except ε β} {fault : ε} :
    x >>= f = .error fault ↔
      x = .error fault ∨ ∃ a, x = .ok a ∧ f a = .error fault := by
  cases x with
  | error other =>
      change Except.error other = Except.error fault ↔ _
      simp
  | ok a =>
      change f a = .error fault ↔ _
      simp

theorem map_eq_ok_iff {x : Except ε α} {f : α → β} {b : β} :
    f <$> x = .ok b ↔ ∃ a, x = .ok a ∧ f a = b := by
  cases x <;> simp [Functor.map, Except.map]

theorem map_eq_error_iff {x : Except ε α} {f : α → β} {fault : ε} :
    f <$> x = .error fault ↔ x = .error fault := by
  cases x <;> simp [Functor.map, Except.map]

theorem mapError_eq_ok_iff {ε' : Type} {f : ε → ε'} {x : Except ε α} {a : α} :
    x.mapError f = .ok a ↔ x = .ok a := by
  constructor
  · intro h
    cases x with
    | error fault => cases h
    | ok value =>
        cases h
        rfl
  · intro h
    rw [h]
    rfl

theorem mapError_eq_error_iff {ε' : Type} {f : ε → ε'} {x : Except ε α}
    {fault : ε'} :
    x.mapError f = .error fault ↔ ∃ cause, x = .error cause ∧ f cause = fault := by
  cases x with
  | error cause =>
      change (Except.error (f cause) : Except ε' α) = _ ↔ _
      simp
  | ok value =>
      change (Except.ok value : Except ε' α) = _ ↔ _
      simp

@[simp] theorem toOption_ok (a : α) :
    (Except.ok a : Except ε α).toOption = some a := rfl

@[simp] theorem toOption_error (fault : ε) :
    (Except.error fault : Except ε α).toOption = none := rfl

/-- Forgetting which fault there was goes through sequences of steps. -/
theorem toOption_bind (x : Except ε α) (f : α → Except ε β) :
    (x >>= f).toOption = x.toOption >>= fun a => (f a).toOption := by
  cases x with
  | error fault => rfl
  | ok a => rfl

theorem toOption_map (f : α → β) (x : Except ε α) :
    (x.map f).toOption = x.toOption.map f := by
  cases x with
  | error fault => rfl
  | ok a => rfl

theorem toOption_mapM_eq {γ : Type} {f g : α → Except ε β} {read : α → γ}
    {xs ys : List α} (hread : xs.map read = ys.map read)
    (h : ∀ x ∈ xs, ∀ y, read x = read y → (f x).toOption = (g y).toOption) :
    (xs.mapM f).toOption = (ys.mapM g).toOption := by
  induction xs generalizing ys with
  | nil =>
      cases ys with
      | nil => rfl
      | cons y ys => contradiction
  | cons x xs ih =>
      cases ys with
      | nil => contradiction
      | cons y ys =>
          rw [List.map_cons, List.map_cons] at hread
          injection hread with hhead htail
          have hx := h x (List.mem_cons_self ..) y hhead
          have hxs := ih htail fun z hz => h z (List.mem_cons_of_mem x hz)
          simp only [List.mapM_cons, toOption_bind, hx, hxs]

theorem mapM_eq_ok_map {f : α → Except ε β} {g : α → β} {xs : List α}
    (h : ∀ x ∈ xs, f x = .ok (g x)) : xs.mapM f = .ok (xs.map g) := by
  induction xs with
  | nil => rfl
  | cons x xs ih =>
      have hhead : f x = .ok (g x) := h x (List.mem_cons_self ..)
      have htail := ih fun y hy => h y (List.mem_cons_of_mem x hy)
      rw [List.mapM_cons, hhead, htail]
      rfl

theorem mapM_eq_error_of_first {f : α → Except ε β} {x : α} {fault : ε}
    {earlier later : List α} (hearlier : ∀ y ∈ earlier, ∃ value, f y = .ok value)
    (hfault : f x = .error fault) :
    (earlier ++ x :: later).mapM f = .error fault := by
  induction earlier with
  | nil =>
      rw [List.nil_append, List.mapM_cons, hfault]
      rfl
  | cons y earlier ih =>
      obtain ⟨value, hvalue⟩ := hearlier y (List.mem_cons_self ..)
      have htail := ih fun z hz => hearlier z (List.mem_cons_of_mem y hz)
      rw [List.cons_append, List.mapM_cons, hvalue, htail]
      rfl

/-- What stands on the right of a relation of lists is related to something on the
left. -/
theorem exists_mem_of_forall₂ {R : α → β → Prop} {xs : List α} {ys : List β}
    (h : List.Forall₂ R xs ys) : ∀ y ∈ ys, ∃ x ∈ xs, R x y := by
  induction h with
  | nil => exact List.forall_mem_nil _
  | @cons x y xs ys hxy _ ih =>
      rw [List.forall_mem_cons]
      refine ⟨⟨x, List.mem_cons_self .., hxy⟩, fun z hz => ?_⟩
      obtain ⟨w, hw, hwz⟩ := ih z hz
      exact ⟨w, List.mem_cons_of_mem x hw, hwz⟩

/-- Of two elements at which a list is cut, one comes before the other unless they
stand at one place. -/
theorem mem_or_eq_or_mem_of_append_eq {x y : α}
    {earlier later earlier' later' : List α}
    (h : earlier ++ x :: later = earlier' ++ y :: later') :
    x ∈ earlier' ∨ x = y ∨ y ∈ earlier := by
  rcases List.append_eq_append_iff.mp h with
    ⟨between, rfl, hrest⟩ | ⟨between, rfl, hrest⟩
  · cases between with
    | nil =>
        injection hrest with heq
        exact Or.inr (Or.inl heq)
    | cons other between =>
        injection hrest with heq
        exact Or.inl (by simp [heq])
  · cases between with
    | nil =>
        injection hrest with heq
        exact Or.inr (Or.inl heq.symm)
    | cons other between =>
        injection hrest with heq
        exact Or.inr (Or.inr (by simp [heq]))

theorem foldlM_invariant {P : β → Prop} {step : β → α → Except ε β}
    {xs : List α}
    (hstep : ∀ x ∈ xs, ∀ b b', P b → step b x = .ok b' → P b') {b b' : β}
    (h : xs.foldlM step b = .ok b') (hb : P b) : P b' := by
  induction xs generalizing b with
  | nil =>
      cases h
      exact hb
  | cons x xs ih =>
      rw [List.foldlM_cons] at h
      rcases bind_eq_ok_iff.mp h with ⟨next, hnext, h⟩
      rw [List.forall_mem_cons] at hstep
      exact ih hstep.2 h (hstep.1 b next hb hnext)

/-- All succeed, or one is the first that fails. -/
theorem forall_ok_or_exists_first_error (f : α → Except ε β) (xs : List α) :
    (∀ x ∈ xs, ∃ value, f x = .ok value) ∨
      ∃ earlier x later fault, xs = earlier ++ x :: later ∧
        (∀ y ∈ earlier, ∃ value, f y = .ok value) ∧ f x = .error fault := by
  induction xs with
  | nil => exact Or.inl (by simp)
  | cons x xs ih =>
      cases hx : f x with
      | error fault => exact Or.inr ⟨[], x, xs, fault, rfl, by simp, hx⟩
      | ok value =>
          rcases ih with hall | ⟨earlier, y, later, fault, rfl, hearlier, hy⟩
          · left
            intro y hy
            rcases List.mem_cons.mp hy with rfl | hmem
            · exact ⟨value, hx⟩
            · exact hall y hmem
          · right
            refine ⟨x :: earlier, y, later, fault, rfl, ?_, hy⟩
            intro z hz
            rcases List.mem_cons.mp hz with rfl | hmem
            · exact ⟨value, hx⟩
            · exact hearlier z hmem

theorem exists_mapM_eq_ok_iff (f : α → Except ε β) (xs : List α) :
    (∃ ys, xs.mapM f = .ok ys) ↔ ∀ x ∈ xs, ∃ value, f x = .ok value := by
  constructor
  · rintro ⟨ys, hys⟩
    rcases forall_ok_or_exists_first_error f xs with hall |
      ⟨earlier, x, later, fault, rfl, hearlier, hx⟩
    · exact hall
    · rw [mapM_eq_error_of_first hearlier hx] at hys
      contradiction
  · intro hall
    induction xs with
    | nil => exact ⟨[], rfl⟩
    | cons x xs ih =>
        obtain ⟨value, hvalue⟩ := hall x (List.mem_cons_self ..)
        obtain ⟨values, hvalues⟩ := ih fun y hy =>
          hall y (List.mem_cons_of_mem x hy)
        refine ⟨value :: values, ?_⟩
        rw [List.mapM_cons, hvalue, hvalues]
        rfl

theorem mapM_eq_error_iff {f : α → Except ε β} {xs : List α} {fault : ε} :
    xs.mapM f = .error fault ↔
      ∃ earlier x later, xs = earlier ++ x :: later ∧
        (∀ y ∈ earlier, ∃ value, f y = .ok value) ∧ f x = .error fault := by
  constructor
  · intro herror
    rcases forall_ok_or_exists_first_error f xs with hall |
      ⟨earlier, x, later, other, rfl, hearlier, hx⟩
    · obtain ⟨values, hvalues⟩ := (exists_mapM_eq_ok_iff f xs).mpr hall
      rw [herror] at hvalues
      contradiction
    · have hother : (earlier ++ x :: later).mapM f = .error other :=
        mapM_eq_error_of_first hearlier hx
      rw [herror] at hother
      injection hother with heq
      exact ⟨earlier, x, later, rfl, hearlier, heq ▸ hx⟩
  · rintro ⟨earlier, x, later, rfl, hearlier, hx⟩
    exact mapM_eq_error_of_first hearlier hx

theorem mapM_eq_ok_iff_forall₂ {f : α → Except ε β} {xs : List α}
    {ys : List β} :
    xs.mapM f = .ok ys ↔ List.Forall₂ (fun x y => f x = .ok y) xs ys := by
  induction xs generalizing ys with
  | nil =>
      rw [List.forall₂_nil_left_iff]
      constructor
      · intro h
        cases h
        rfl
      · rintro rfl
        rfl
  | cons x xs ih =>
      rw [List.mapM_cons, List.forall₂_cons_left_iff, bind_eq_ok_iff]
      constructor
      · rintro ⟨y, hy, h⟩
        rcases bind_eq_ok_iff.mp h with ⟨rest, hrest, h⟩
        cases h
        exact ⟨y, rest, hy, ih.mp hrest, rfl⟩
      · rintro ⟨y, rest, hy, hrest, rfl⟩
        exact ⟨y, hy, bind_eq_ok_iff.mpr ⟨rest, ih.mpr hrest, rfl⟩⟩

/-- A fold fails at the first step that fails, from what the steps before it have
made. -/
theorem foldlM_eq_error_iff {step : β → α → Except ε β} {xs : List α} {b : β}
    {fault : ε} :
    xs.foldlM step b = .error fault ↔
      ∃ earlier x later b', xs = earlier ++ x :: later ∧
        earlier.foldlM step b = .ok b' ∧ step b' x = .error fault := by
  constructor
  · intro h
    induction xs generalizing b with
    | nil => cases h
    | cons x xs ih =>
        rw [List.foldlM_cons] at h
        rcases bind_eq_error_iff.mp h with hx | ⟨next, hnext, h⟩
        · exact ⟨[], x, xs, b, rfl, rfl, hx⟩
        · rcases ih h with ⟨earlier, y, later, b', rfl, hearlier, hy⟩
          refine ⟨x :: earlier, y, later, b', rfl, ?_, hy⟩
          rw [List.foldlM_cons]
          exact bind_eq_ok_iff.mpr ⟨next, hnext, hearlier⟩
  · rintro ⟨earlier, x, later, b', rfl, hearlier, hx⟩
    rw [List.foldlM_append]
    refine bind_eq_error_iff.mpr (Or.inr ⟨b', hearlier, ?_⟩)
    rw [List.foldlM_cons]
    exact bind_eq_error_iff.mpr (Or.inl hx)

end ScenarioInclusion
