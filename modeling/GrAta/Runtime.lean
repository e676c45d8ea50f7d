import Mathlib.Data.Int.Basic
import Mathlib.Tactic.Common

/-!
# Faults and polymorphic values

What the blocks take from their language and from the signal processing runtime:
the ways in which a call does not return a result, and the polymorphic values
that tags and messages carry.
-/

namespace GrAta

/-- Why a call does not return a result. -/
inductive Fault where
  /-- `front` or `pop_front` of an empty queue. -/
  | emptyFront
  /-- A read or write outside an allocated block. -/
  | outOfBounds
  /-- The call never returns. -/
  | endlessLoop
  | divisionByZero
  /-- An allocation of a negative size. -/
  | badAlloc
  /-- The exception of a conversion of a polymorphic value. -/
  | wrongType
  deriving DecidableEq, Repr

/-- A refused memory access is out of bounds. -/
def inBounds {α : Type*} : Option α → Except Fault α
  | some a => .ok a
  | none => .error .outOfBounds

@[simp] theorem inBounds_some {α : Type*} (a : α) : inBounds (some a) = .ok a := rfl

@[simp] theorem inBounds_none {α : Type*} :
    inBounds (none : Option α) = .error .outOfBounds := rfl

theorem ok_bind {α β : Type} (a : α) (f : α → Except Fault β) :
    (Except.ok a >>= f) = f a := rfl

theorem error_bind {α β : Type} (e : Fault) (f : α → Except Fault β) :
    ((Except.error e : Except Fault α) >>= f) = .error e := rfl

/-- A sequence of two calls returns when both do. -/
theorem bind_eq_ok {α β : Type} {x : Except Fault α} {f : α → Except Fault β} {b : β}
    (h : (x >>= f) = .ok b) : ∃ a, x = .ok a ∧ f a = .ok b := by
  cases x with
  | error e => cases h
  | ok a => exact ⟨a, rfl, h⟩

def popFront {α : Type*} : List α → Except Fault (α × List α)
  | [] => .error .emptyFront
  | a :: as => .ok (a, as)

/-- The polymorphic values that the blocks build and take apart. -/
inductive Pmt where
  | symbol (name : String)
  | uint64 (n : ℕ)
  | long (n : ℤ)
  | cons (car cdr : Pmt)
  deriving DecidableEq, Repr

namespace Pmt

def toUint64 : Pmt → Except Fault ℕ
  | .uint64 n => .ok n
  | .long n => if 0 ≤ n then .ok n.toNat else .error .wrongType
  | _ => .error .wrongType

/-- The second component of a pair. -/
def cdr : Pmt → Except Fault Pmt
  | .cons _ d => .ok d
  | _ => .error .wrongType

/-- A pair whose second component is not the number zero. -/
def Announces (m : Pmt) : Prop := ∃ d, m.cdr = .ok d ∧ d.toUint64 ≠ .ok 0

end Pmt

/-- A stream tag, without its position. -/
structure Tag where
  key : Pmt
  value : Pmt
  deriving DecidableEq, Repr

end GrAta
