import Testnet.Build

/-!
# Runs that end well

A run says things and may fail. What it says never changes what comes of it, so a run that ends
well is taken apart step by step: every step has ended well, on what the steps before it gave.
-/

namespace Testnet

namespace Logged

variable {α β γ : Type}

/-- Following a list while logging follows it as if nothing were said. -/
theorem value_foldlM (f : β → α → Logged β) (b : β) (as : List α) :
    (as.foldlM f b).value = as.foldl (fun b a => (f b a).value) b := by
  induction as generalizing b with
  | nil => rfl
  | cons a as ih =>
    rw [List.foldlM_cons, value_bind, ih]
    rfl

end Logged

section Except

variable {ε ε' α β : Type}

theorem mapError_eq_ok_iff {f : ε → ε'} {x : Except ε α} {a : α} :
    x.mapError f = .ok a ↔ x = .ok a := by
  cases x with
  | error e => exact ⟨nofun, nofun⟩
  | ok b =>
    show Except.ok b = .ok a ↔ Except.ok b = .ok a
    rw [Except.ok.injEq, Except.ok.injEq]

theorem eq_ok_of_isSome {x : Except ε α} (h : x.toOption.isSome = true) :
    x = .ok (x.toOption.get h) := by
  cases x with
  | error e => cases h
  | ok a => rfl

theorem exists_of_isSome {x : Except ε α} (h : x.toOption.isSome = true) : ∃ a, x = .ok a :=
  ⟨_, eq_ok_of_isSome h⟩

/-- Evaluating a run shows that it ends well and what holds of what it gives. -/
theorem exists_of_any {x : Except ε α} {p : α → Prop} [DecidablePred p]
    (h : x.toOption.any (fun a => decide (p a)) = true) : ∃ a, x = .ok a ∧ p a := by
  cases x with
  | error e => cases h
  | ok a => exact ⟨a, rfl, of_decide_eq_true h⟩

theorem ok_map (f : α → β) (a : α) : (Except.ok a : Except ε α).map f = .ok (f a) := rfl

theorem ok_bind (f : α → Except ε β) (a : α) : (Except.ok a >>= f) = f a := rfl

theorem map_eq_ok_iff {f : α → β} {x : Except ε α} {b : β} :
    x.map f = .ok b ↔ ∃ a, x = .ok a ∧ f a = b := by
  cases x <;> simp [Except.map]

theorem bind_eq_ok_iff {x : Except ε α} {f : α → Except ε β} {b : β} :
    x >>= f = .ok b ↔ ∃ a, x = .ok a ∧ f a = .ok b := by
  cases x with
  | error e => exact ⟨fun h => (by cases h), fun ⟨a, h, _⟩ => (by cases h)⟩
  | ok a =>
    constructor
    · intro h
      exact ⟨a, rfl, h⟩
    · intro hgiven
      obtain ⟨_, h, hb⟩ := hgiven
      cases h
      exact hb

theorem bind_eq_error_iff {x : Except ε α} {f : α → Except ε β} {e : ε} :
    x >>= f = .error e ↔ x = .error e ∨ ∃ a, x = .ok a ∧ f a = .error e := by
  cases x with
  | error e' =>
    constructor
    · intro h
      cases h
      exact .inl rfl
    · rintro (h | ⟨_, h, _⟩)
      · cases h
        rfl
      · cases h
  | ok a =>
    constructor
    · intro h
      exact .inr ⟨a, rfl, h⟩
    · rintro (h | ⟨_, h, he⟩)
      · cases h
      · cases h
        exact he

end Except

namespace Run

variable {ε α β : Type}

/-- What comes of a run. -/
def result (x : Run α) : Except Failure α := x.run.value

theorem result_pure (a : α) : result (pure a : Run α) = .ok a := rfl

theorem result_bind (x : Run α) (f : α → Run β) :
    result (x >>= f) = (result x >>= fun a => result (f a)) := by
  unfold result
  rw [ExceptT.run_bind, Logged.value_bind]
  cases x.run.value <;> rfl

theorem result_bind_of_ok {x : Run α} {a : α} (h : result x = .ok a) (f : α → Run β) :
    result (x >>= f) = result (f a) := by
  rw [result_bind, h]
  rfl

theorem result_lift (x : Logged α) : result (lift x) = .ok x.value := rfl

theorem result_ofExcept (f : ε → Failure) (x : Except ε α) :
    result (ofExcept f x) = x.mapError f := rfl

theorem result_ofExcept_of_ok {f : ε → Failure} {x : Except ε α} {a : α} (h : x = .ok a) :
    result (ofExcept f x) = .ok a := mapError_eq_ok_iff.mpr h

theorem result_ofLogged (f : ε → Failure) (x : Logged (Except ε α)) :
    result (ofLogged f x) = x.value.mapError f := rfl

theorem result_say (level : Level) (text : String) : result (say level text) = .ok () := rfl

theorem result_bind_eq_ok_iff {x : Run α} {f : α → Run β} {b : β} :
    result (x >>= f) = .ok b ↔ ∃ a, result x = .ok a ∧ result (f a) = .ok b := by
  rw [result_bind]
  exact bind_eq_ok_iff

end Run

end Testnet
