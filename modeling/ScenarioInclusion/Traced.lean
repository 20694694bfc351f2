import ScenarioInclusion.Event

/-!
# Outcomes with the events on the way

A traced computation has an outcome, which may be a failure, and the list of
events up to it.  The events of a failed computation are kept.

The events never decide anything: the outcome of a sequence of steps is the
sequence of their outcomes.  So a law about outcomes can forget the events.
-/

namespace ScenarioInclusion

structure Traced (ε α : Type) where
  log : List Event
  outcome : Except ε α

namespace Traced

variable {ε ε' α β : Type}

protected def pure (a : α) : Traced ε α := ⟨[], .ok a⟩

protected def bind (x : Traced ε α) (f : α → Traced ε β) : Traced ε β :=
  match x.outcome with
  | .error fault => ⟨x.log, .error fault⟩
  | .ok a => ⟨x.log ++ (f a).log, (f a).outcome⟩

instance : Monad (Traced ε) where
  pure := Traced.pure
  bind := Traced.bind

def ofExcept (outcome : Except ε α) : Traced ε α := ⟨[], outcome⟩

def fail (fault : ε) : Traced ε α := ofExcept (.error fault)

def note (event : Event) : Traced ε Unit := ⟨[event], .ok ()⟩

def mapError (f : ε → ε') (x : Traced ε α) : Traced ε' α :=
  ⟨x.log, x.outcome.mapError f⟩

@[simp] theorem outcome_pure (a : α) :
    (pure a : Traced ε α).outcome = pure a := rfl

@[simp] theorem outcome_bind (x : Traced ε α) (f : α → Traced ε β) :
    (x >>= f).outcome = x.outcome >>= fun a => (f a).outcome := by
  change (Traced.bind x f).outcome = _
  rcases x with ⟨log, fault | a⟩ <;> rfl

@[simp] theorem outcome_ofExcept (outcome : Except ε α) :
    (ofExcept outcome).outcome = outcome := rfl

@[simp] theorem outcome_fail (fault : ε) :
    (fail fault : Traced ε α).outcome = .error fault := rfl

@[simp] theorem outcome_note (event : Event) :
    (note event : Traced ε Unit).outcome = .ok () := rfl

@[simp] theorem outcome_mapError (f : ε → ε') (x : Traced ε α) :
    (x.mapError f).outcome = x.outcome.mapError f := rfl

theorem ext {x y : Traced ε α} (hlog : x.log = y.log)
    (houtcome : x.outcome = y.outcome) : x = y := by
  cases x
  cases y
  simp_all

instance : LawfulMonad (Traced ε) := LawfulMonad.mk' (Traced ε)
  (by
    intro α x
    change Traced.bind x Traced.pure = x
    rcases x with ⟨log, fault | a⟩ <;> simp [Traced.bind, Traced.pure])
  (by
    intro α β a f
    change Traced.bind (Traced.pure a) f = f a
    simp [Traced.bind, Traced.pure])
  (by
    intro α β γ x f g
    change Traced.bind (Traced.bind x f) g =
      Traced.bind x fun a => Traced.bind (f a) g
    rcases x with ⟨log, fault | a⟩
    · rfl
    · simp only [Traced.bind]
      rcases f a with ⟨log', fault | b⟩ <;> simp)

@[simp] theorem outcome_map (f : α → β) (x : Traced ε α) :
    (f <$> x).outcome = f <$> x.outcome := by
  rw [map_eq_pure_bind, map_eq_pure_bind, outcome_bind]
  rfl

theorem outcome_mapM (f : α → Traced ε β) (xs : List α) :
    (xs.mapM f).outcome = xs.mapM fun x => (f x).outcome := by
  induction xs with
  | nil => rfl
  | cons x xs ih => simp [ih]

end Traced

end ScenarioInclusion
