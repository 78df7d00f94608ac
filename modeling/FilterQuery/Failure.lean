set_option autoImplicit false

/-! # How a computation can end without a result

Most computations of the library end with a value or with an error of their own domain. A few can
also stop with a *fault*: a state in which no answer of either kind is defined, such as a page whose
offset exceeds a machine word. Faults are kept apart from errors so that a theorem can speak of
either: `Except (Failure ε) α` has a value, an error of type `ε`, or a fault.

A computation that also changes a state is `Stateful`. It says what it leaves of the state where it
fails, so that giving up what was done by then has to be written down: `committed` is that. -/

namespace FilterQuery

/-- Why a computation stops with neither a value nor an error. -/
inductive Fault where
  /-- A text was to be cut inside a multi-byte character. -/
  | splitCharacter
  /-- A date-time left the range of representable years. -/
  | timeOutOfRange
  /-- A number exceeded 64 bits. -/
  | wordOverflow
  /-- A text was to become longer than any text can be. -/
  | textOverflow
  deriving DecidableEq, Repr

/-- An error of the domain `ε`, or a fault. -/
inductive Failure (ε : Type) where
  | error (e : ε)
  | fault (f : Fault)
  deriving DecidableEq, Repr

namespace Failure

/-- Change the error and keep a fault as it is. -/
def map {ε δ : Type} (f : ε → δ) : Failure ε → Failure δ
  | .error e => .error (f e)
  | .fault g => .fault g

end Failure

/-- Answer with an error of the domain. -/
def refuse {ε α : Type} (e : ε) : Except (Failure ε) α := .error (.error e)

/-- Stop with a fault. -/
def stopWith {ε α : Type} (f : Fault) : Except (Failure ε) α := .error (.fault f)

/-- A computation that has faults only, seen as one that may also have errors. -/
def orStop {ε α : Type} : Except Fault α → Except (Failure ε) α
  | .ok a => .ok a
  | .error f => stopWith f

/-- A computation without faults is one with faults that has none. -/
def orRefuse {ε δ α : Type} (f : ε → δ) : Except ε α → Except (Failure δ) α
  | .ok a => .ok a
  | .error e => refuse (f e)

/-- Steps in a row have a value exactly if each of them has one. -/
theorem bind_eq_ok_iff {ε α β : Type} {x : Except ε α} {f : α → Except ε β} {b : β} :
    x >>= f = .ok b ↔ ∃ a, x = .ok a ∧ f a = .ok b := by
  cases x with
  | error e => simp [bind, Except.bind]
  | ok a => simp [bind, Except.bind]

/-- A computation whose value passes a test has a value. -/
theorem exists_ok_of_any {ε α : Type} {x : Except ε α} {p : α → Bool}
    (h : x.toOption.any p = true) : ∃ a, x = .ok a ∧ p a = true := by
  cases x with
  | error e => cases h
  | ok a => exact ⟨a, rfl, h⟩

/-- What is done with the value does not make a computation fail. -/
theorem map_eq_error_iff {ε α β : Type} {x : Except ε α} {f : α → β} {e : ε} :
    x.map f = .error e ↔ x = .error e := by
  cases x with
  | error e' => simp [Except.map]
  | ok a => simp [Except.map]

/-- A step that has a value hands it on. -/
@[simp] theorem ok_bind {ε α β : Type} (a : α) (f : α → Except ε β) :
    (Except.ok a >>= f) = f a := rfl

/-- A step that fails ends the row. -/
@[simp] theorem error_bind {ε α β : Type} (e : ε) (f : α → Except ε β) :
    (Except.error e >>= f) = .error e := rfl

/-! ## Computations on a state -/

/-- A computation on a state, which may fail; it then leaves the state as it is at that point. -/
abbrev Stateful (ε σ : Type) := ExceptT (Failure ε) (StateM σ)

namespace Stateful

variable {ε σ α β : Type}

/-- What a computation ends with, and the state that it leaves. -/
def outcome (x : Stateful ε σ α) (s : σ) : Except (Failure ε) α × σ := x.run.run s

/-- The value with the state that it leaves. What a failure leaves is given up. -/
def committed (x : Stateful ε σ α) (s : σ) : Except (Failure ε) (α × σ) :=
  match x.outcome s with
  | (.ok a, t) => .ok (a, t)
  | (.error e, _) => .error e

/-- A step that does not fail once it has changed the state. -/
def step (f : σ → Except (Failure ε) (α × σ)) : Stateful ε σ α := do
  let (a, t) ← f (← get)
  set t
  return a

/-- A computation between two changes of the state. The second one is made also if it fails. -/
def between (first last : σ → σ) (x : Stateful ε σ α) : Stateful ε σ α := fun s =>
  let (result, t) := x.outcome (first s)
  (result, last t)

theorem outcome_bind (x : Stateful ε σ α) (f : α → Stateful ε σ β) (s : σ) :
    (x >>= f).outcome s = match x.outcome s with
      | (.ok a, t) => (f a).outcome t
      | (.error e, t) => (.error e, t) := by
  simp only [outcome, ExceptT.run_bind, StateT.run_bind]
  rcases x.run.run s with ⟨e | a, t⟩ <;> rfl

@[simp] theorem outcome_get (s : σ) : (get : Stateful ε σ σ).outcome s = (.ok s, s) := rfl

@[simp] theorem outcome_liftM (x : Except (Failure ε) α) (s : σ) :
    (liftM x : Stateful ε σ α).outcome s = (x, s) := by
  cases x <;> rfl

theorem committed_bind (x : Stateful ε σ α) (f : α → Stateful ε σ β) (s : σ) :
    (x >>= f).committed s = x.committed s >>= fun found => (f found.1).committed found.2 := by
  simp only [committed, outcome_bind]
  rcases x.outcome s with ⟨e | a, t⟩ <;> rfl

@[simp] theorem committed_pure (a : α) (s : σ) :
    (pure a : Stateful ε σ α).committed s = .ok (a, s) := rfl

@[simp] theorem committed_get (s : σ) : (get : Stateful ε σ σ).committed s = .ok (s, s) := rfl

@[simp] theorem committed_modifyGet (f : σ → α × σ) (s : σ) :
    (modifyGet f : Stateful ε σ α).committed s = .ok (f s) := rfl

@[simp] theorem committed_liftM (x : Except (Failure ε) α) (s : σ) :
    (liftM x : Stateful ε σ α).committed s = x.map fun a => (a, s) := by
  rw [committed, outcome_liftM]
  cases x <;> rfl

@[simp] theorem committed_step (f : σ → Except (Failure ε) (α × σ)) (s : σ) :
    (step f).committed s = f s := by
  simp only [step, committed_bind, committed_get, ok_bind, committed_liftM]
  cases f s <;> rfl

@[simp] theorem committed_between (first last : σ → σ) (x : Stateful ε σ α) (s : σ) :
    (x.between first last).committed s =
      (x.committed (first s)).map fun found => (found.1, last found.2) := by
  have houtcome : (x.between first last).outcome s =
      ((x.outcome (first s)).1, last (x.outcome (first s)).2) := rfl
  simp only [committed, houtcome]
  rcases x.outcome (first s) with ⟨e | a, t⟩ <;> rfl

end Stateful

end FilterQuery
