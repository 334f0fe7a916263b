/-
  Calls that are awaited.

  `Awaited ε α` is what an asynchronous call comes to: it panics, waits for good, fails
  or returns. Sequencing stops at the first of the first three, as `?` and `.await` do.
  `bind_eq_done` takes a call that returned apart.
-/
import N0DnsResolver.Lib.Checked

/-- What a call that is awaited comes to. -/
inductive Awaited (ε α : Type) where
  | panicked (p : Panic)
  | pending
  | failed (e : ε)
  | done (a : α)
  deriving DecidableEq

namespace Awaited

variable {ε ε' α β : Type}

def bind (x : Awaited ε α) (f : α → Awaited ε β) : Awaited ε β :=
  match x with
  | panicked p => panicked p
  | pending => pending
  | failed e => failed e
  | done a => f a

instance : Monad (Awaited ε) where
  pure := done
  bind := bind

def ofChecked : Checked α → Awaited ε α
  | .error p => panicked p
  | .ok a => done a

def ofExcept : Except ε α → Awaited ε α
  | .error e => failed e
  | .ok a => done a

/-- The outcome of a call as a value, when the caller handles the error itself. -/
def attempt : Awaited ε α → Awaited ε' (Except ε α)
  | panicked p => panicked p
  | pending => pending
  | failed e => done (.error e)
  | done a => done (.ok a)

def mapError (f : ε → ε') : Awaited ε α → Awaited ε' α
  | panicked p => panicked p
  | pending => pending
  | failed e => failed (f e)
  | done a => done a

/-- A call under a time limit, given whether that expires before the call returns. -/
def timeout (expired : Bool) (e : ε) (x : Awaited ε α) : Awaited ε α :=
  if expired then failed e else x

@[simp] theorem pure_eq_done {a b : α} : (pure a : Awaited ε α) = done b ↔ a = b :=
  ⟨fun h => by injection h, congrArg done⟩

/-- A call that returned went through each of its parts. -/
@[simp] theorem bind_eq_done {x : Awaited ε α} {f : α → Awaited ε β} {b : β} :
    x >>= f = done b ↔ ∃ a, x = done a ∧ f a = done b := by
  constructor
  · intro h
    match x, h with
    | done a, h => exact ⟨a, rfl, h⟩
  · rintro ⟨a, rfl, h⟩
    exact h

@[simp] theorem ofChecked_eq_done {c : Checked α} {a : α} :
    (ofChecked c : Awaited ε α) = done a ↔ c = .ok a := by
  cases c <;> simp [ofChecked]

@[simp] theorem ofExcept_eq_done {x : Except ε α} {a : α} : ofExcept x = done a ↔ x = .ok a := by
  cases x <;> simp [ofExcept]

@[simp] theorem attempt_eq_done {x : Awaited ε α} {a : α} :
    (attempt x : Awaited ε' (Except ε α)) = done (.ok a) ↔ x = done a := by
  cases x <;> simp [attempt]

@[simp] theorem mapError_eq_done {f : ε → ε'} {x : Awaited ε α} {a : α} :
    mapError f x = done a ↔ x = done a := by
  cases x <;> simp [mapError]

@[simp] theorem timeout_eq_done {expired : Bool} {e : ε} {x : Awaited ε α} {a : α} :
    timeout expired e x = done a ↔ expired = false ∧ x = done a := by
  cases expired <;> simp [timeout]

end Awaited
