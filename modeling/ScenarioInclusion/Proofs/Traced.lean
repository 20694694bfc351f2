import ScenarioInclusion.Traced

/-!
# Two traced computations side by side

Two computations are related if they fail alike, or give related values, after
the same events.  Relatedness goes through sequences of steps; and where the
next steps treat related values alike, the sequences are equal.
-/

namespace ScenarioInclusion

namespace Traced

variable {ε ε' α β : Type} {R : α → α → Prop} {S : β → β → Prop}

inductive Related (R : α → α → Prop) : Traced ε α → Traced ε α → Prop where
  | ok (log : List Event) {a b : α} :
      R a b → Related R ⟨log, .ok a⟩ ⟨log, .ok b⟩
  | error (log : List Event) (fault : ε) :
      Related R ⟨log, .error fault⟩ ⟨log, .error fault⟩

theorem Related.pure {a b : α} (h : R a b) :
    Related R (pure a : Traced ε α) (pure b) :=
  ok [] h

theorem Related.fail (fault : ε) :
    Related R (fail fault : Traced ε α) (fail fault) :=
  error [] fault

theorem Related.refl (x : Traced ε α) : Related Eq x x := by
  rcases x with ⟨log, fault | a⟩
  · exact error log fault
  · exact ok log rfl

theorem Related.outcome_cases {x y : Traced ε α} (h : Related R x y) :
    (∃ fault, x.outcome = .error fault ∧ y.outcome = .error fault) ∨
      ∃ a b, x.outcome = .ok a ∧ y.outcome = .ok b ∧ R a b := by
  cases h with
  | ok log hab => exact Or.inr ⟨_, _, rfl, rfl, hab⟩
  | error log fault => exact Or.inl ⟨fault, rfl, rfl⟩

theorem Related.mono {x y : Traced ε α} (h : Related R x y)
    {R' : α → α → Prop} (himp : ∀ a b, R a b → R' a b) : Related R' x y := by
  cases h with
  | ok log hab => exact ok log (himp _ _ hab)
  | error log fault => exact error log fault

theorem Related.mapError {x y : Traced ε α} (h : Related R x y)
    (f : ε → ε') : Related R (x.mapError f) (y.mapError f) := by
  cases h with
  | ok log hab => exact ok log hab
  | error log fault => exact error log (f fault)

theorem Related.bind {x y : Traced ε α} (h : Related R x y)
    {f g : α → Traced ε β} (hfg : ∀ a b, R a b → Related S (f a) (g b)) :
    Related S (x >>= f) (y >>= g) := by
  cases h with
  | error log fault => exact error log fault
  | @ok log a b hab =>
      change Related S ⟨log ++ (f a).log, (f a).outcome⟩
        ⟨log ++ (g b).log, (g b).outcome⟩
      have hvalues := hfg a b hab
      generalize f a = x at hvalues
      generalize g b = y at hvalues
      cases hvalues with
      | ok log' hvalues => exact ok (log ++ log') hvalues
      | error log' fault => exact error (log ++ log') fault

theorem Related.bind_eq {x y : Traced ε α} (h : Related R x y)
    {f g : α → Traced ε β} (hfg : ∀ a b, R a b → f a = g b) :
    x >>= f = y >>= g := by
  cases h with
  | error log fault => rfl
  | @ok log a b hab =>
      change Traced.bind ⟨log, .ok a⟩ f = Traced.bind ⟨log, .ok b⟩ g
      simp only [Traced.bind, hfg a b hab]

end Traced

end ScenarioInclusion
