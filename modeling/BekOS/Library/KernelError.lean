import Mathlib.Data.Nat.Notation
import Mathlib.Tactic.SplitIfs

/-!
# Error codes and faults

A kernel function ends in one of three ways: it returns, with an error code where
it failed; a `VERIFY` in it fails and the kernel panics; or it runs outside its
data, and nothing can be said of what follows.  The last two are `Fault`s.
-/

namespace BekOS

/-- `ErrorCode` -/
inductive ErrorCode where
  | ESUCCESS
  | EACCES
  | EADDRINUSE
  | EAGAIN
  | EBADF
  | ECHILD
  | EEXIST
  | EFAIL
  | EFAULT
  | EFBIG
  | EINVAL
  | EIO
  | ENODEV
  | ENOENT
  | ENOEXEC
  | ENOMEM
  | ENOTDIR
  | ENOTSUP
  | EOVERFLOW
  | EPERM
  | ERANGE
  | ESPIPE
  deriving DecidableEq, Repr

/-- How a call can fail to return. -/
inductive Fault where
  /-- A failed `VERIFY` or `ASSERT`: the kernel panics. -/
  | panic
  /-- An access outside an array: undefined behaviour. -/
  | outOfBounds
  deriving DecidableEq, Repr

/-- `MAX_MEMCOPY`, in bytes -/
def maxMemcopy : ℕ := 2 * 1024 * 1024

/-- `VERIFY` -/
def verify (condition : Prop) [Decidable condition] : Except Fault Unit :=
  if condition then .ok () else .error .panic

theorem verify_eq_ok {condition : Prop} [Decidable condition] {out : Unit} :
    verify condition = .ok out ↔ condition := by
  unfold verify
  split_ifs with h
  · exact iff_of_true rfl h
  · exact iff_of_false nofun h

theorem verify_ne_outOfBounds {condition : Prop} [Decidable condition] :
    verify condition ≠ .error .outOfBounds := by
  unfold verify
  split_ifs
  · exact nofun
  · exact fun h => nomatch h

theorem verify_of {condition : Prop} [Decidable condition] (h : condition) :
    verify condition = .ok () := if_pos h

theorem verify_of_not {condition : Prop} [Decidable condition] (h : ¬condition) :
    verify condition = .error .panic := if_neg h

theorem ok_bind {ε α β : Type} (value : α) (next : α → Except ε β) :
    (Except.ok value >>= next) = next value := rfl

theorem error_bind {ε α β : Type} (fault : ε) (next : α → Except ε β) :
    (Except.error fault >>= next) = .error fault := rfl

theorem bind_eq_ok {ε α β : Type} {first : Except ε α} {next : α → Except ε β}
    {out : β} : (first >>= next) = .ok out ↔ ∃ x, first = .ok x ∧ next x = .ok out := by
  cases first with
  | error e => exact iff_of_false nofun fun ⟨_, h, _⟩ => nomatch h
  | ok x => exact ⟨fun h => ⟨x, rfl, h⟩, fun ⟨_, hx, h⟩ => by cases hx; exact h⟩

theorem bind_eq_error {ε α β : Type} {first : Except ε α} {next : α → Except ε β}
    {fault : ε} : (first >>= next) = .error fault ↔
      first = .error fault ∨ ∃ x, first = .ok x ∧ next x = .error fault := by
  cases first with
  | error e =>
      refine ⟨fun h => Or.inl (by injection h with h; rw [h]), ?_⟩
      rintro (h | ⟨_, h, _⟩)
      · injection h with h
        rw [h]
        rfl
      · cases h
  | ok x =>
      refine ⟨fun h => Or.inr ⟨x, rfl, h⟩, ?_⟩
      rintro (h | ⟨_, hx, h⟩)
      · cases h
      · cases hx
        exact h

theorem map_eq_ok {ε α β : Type} {first : Except ε α} {f : α → β} {out : β} :
    first.map f = .ok out ↔ ∃ x, first = .ok x ∧ f x = out := by
  cases first with
  | error e => exact iff_of_false nofun fun ⟨_, h, _⟩ => nomatch h
  | ok x =>
      refine ⟨fun h => ⟨x, rfl, by injection h⟩, ?_⟩
      rintro ⟨_, hx, rfl⟩
      cases hx
      rfl

theorem map_eq_error {ε α β : Type} {first : Except ε α} {f : α → β} {fault : ε} :
    first.map f = .error fault ↔ first = .error fault := by
  cases first with
  | error e => exact ⟨fun h => by injection h with h; rw [h], fun h => by injection h with h; rw [h]; rfl⟩
  | ok x => exact iff_of_false nofun nofun

theorem toOption_eq_some {ε α : Type} {first : Except ε α} {out : α} :
    first.toOption = some out ↔ first = .ok out := by
  cases first with
  | error e => exact iff_of_false nofun nofun
  | ok x => exact ⟨fun h => by injection h with h; rw [h], fun h => by injection h with h; rw [h]; rfl⟩

/-! ## Calls that keep their state when they fail -/

/-- How a call can end without returning: in a `Fault`; in a loop that waits for another
party; or in the assertion of `~QueuedMessage`. -/
inductive Halt where
  | fault (fault : Fault)
  | spin
  | notData
  deriving DecidableEq, Repr

/-- `EXPECTED_TRY`: go on with the value, or return the error, with the state as it is. -/
def expectedTry {σ α β : Type} (result : σ × Except ErrorCode α)
    (next : σ → α → Except Halt (σ × Except ErrorCode β)) :
    Except Halt (σ × Except ErrorCode β) :=
  match result.2 with
  | .error code => .ok (result.1, .error code)
  | .ok value => next result.1 value

theorem expectedTry_cases {σ α β : Type} {result : σ × Except ErrorCode α}
    {next : σ → α → Except Halt (σ × Except ErrorCode β)} {out : σ × Except ErrorCode β}
    (h : expectedTry result next = .ok out) :
    (∃ code, result.2 = .error code ∧ out = (result.1, .error code)) ∨
      ∃ value, result.2 = .ok value ∧ next result.1 value = .ok out := by
  unfold expectedTry at h
  split at h
  · rename_i code hcode
    cases h
    exact Or.inl ⟨code, hcode, rfl⟩
  · rename_i value hvalue
    exact Or.inr ⟨value, hvalue, h⟩

/-- What may fault, as part of a call. -/
def orHalt {α : Type} (result : Except Fault α) : Except Halt α := result.mapError .fault

theorem orHalt_eq_ok {α : Type} {result : Except Fault α} {out : α} :
    orHalt result = .ok out ↔ result = .ok out := by
  cases result with
  | error fault => exact iff_of_false nofun nofun
  | ok value => exact ⟨fun h => by injection h with h; rw [h], fun h => by cases h; rfl⟩

end BekOS
