import GrAta.Library.Execution
import GrAta.Library.Heap

/-!
# Vectors that own their memory

`data_vector` keeps a pointer to a block of the heap and its size. The queues of the
source hold such objects by value, so that copies, assignments and destructions decide
whether a block is shared, lost or given back twice. A program is any sequence of
operations on named objects, and may pass the pointer of one object to another.

## Main definitions

- `DataVector`, `Memory`: the objects and the heap
- `VectorOp`, `Memory.step`: the operations of the class
- `Values.step`: what the operations do to the contents
-/

namespace GrAta

open Execution

/-- Why a program has no defined outcome. -/
inductive MemoryFault where
  | heap (fault : HeapFault)
  /-- An object is used that is not alive. -/
  | noObject
  /-- An object is constructed that is alive. -/
  | redeclared
  deriving DecidableEq, Repr

/-- The members `data` and `data_size`. -/
structure DataVector where
  data : Option ℕ
  dataSize : ℕ
  deriving DecidableEq, Repr

/-- A pointer that a program passes: null, to memory outside of the heap, or what
`data_pointer` returns for an object. -/
inductive SrcData (α : Type) where
  | null
  | memory (cells : List α)
  | dataPointer (object : ℕ)

/-- The operations of the class on named objects, and the copy of the first cells of an
object to the outside. -/
inductive VectorOp (α : Type) where
  | construct (self : ℕ)
  | constructCopy (self src : ℕ)
  | constructFrom (self : ℕ) (srcData : SrcData α) (srcSize : ℕ)
  | constructZero (self srcSize : ℕ)
  | assign (self src : ℕ)
  | store (self : ℕ) (srcData : SrcData α) (srcSize : ℕ)
  | clear (self : ℕ)
  | destruct (self : ℕ)
  | copyOut (self n : ℕ)

/-- The heap, the objects that are alive, and what has been copied to the outside. -/
structure Memory (α : Type) where
  heap : Heap α
  object : ℕ → Option DataVector
  output : List (List α)

-- ════════════════════════════════════════════════════════════════════════
-- The class
-- ════════════════════════════════════════════════════════════════════════

namespace Memory

variable {α : Type} (m : Memory α)

def empty (α : Type) : Memory α := ⟨.empty α, fun _ => none, []⟩

def get (self : ℕ) : Except MemoryFault DataVector :=
  match m.object self with
  | none => .error .noObject
  | some v => .ok v

def set (self : ℕ) (v : Option DataVector) : Memory α :=
  { m with object := Function.update m.object self v }

/-- A new object needs a name that is not in use. -/
def declare (self : ℕ) : Except MemoryFault Unit :=
  if m.object self = none then .ok () else .error .redeclared

/-- An address, as a function receives it. -/
inductive Address (α : Type) where
  | null
  | memory (cells : List α)
  | block (a : ℕ)

def eval : SrcData α → Except MemoryFault (Address α)
  | .null => .ok .null
  | .memory cells => .ok (.memory cells)
  | .dataPointer object => do
    let v ← m.get object
    .ok (match v.data with
      | none => .null
      | some a => .block a)

/-- What `memcpy` reads. -/
def load (p : Address α) (n : ℕ) : Except MemoryFault (List α) :=
  match p with
  | .null => if n = 0 then .ok [] else .error (.heap .outOfBounds)
  | .memory cells => if n ≤ cells.length then .ok (cells.take n) else .error (.heap .outOfBounds)
  | .block a => (m.heap.read a n).mapError .heap

/-- `memcpy` into the block at `a`. -/
def memcpy (a : ℕ) (p : Address α) (n : ℕ) : Except MemoryFault (Memory α) := do
  let cells ← m.load p n
  let heap ← (m.heap.write a cells).mapError .heap
  .ok { m with heap := heap }

/-- `delete[] data`, if it is not null. -/
def delete (v : DataVector) : Except MemoryFault (Memory α) :=
  match v.data with
  | none => .ok m
  | some a => do
    let heap ← (m.heap.free a).mapError .heap
    .ok { m with heap := heap }

variable (junk : ℕ → ℕ → α)

/-- `new T[size]`: the cells hold what the allocator leaves in them. -/
def new (size : ℕ) : ℕ × Memory α :=
  (m.heap.next, { m with heap := m.heap.alloc ((List.range size).map (junk m.heap.next)) })

/-- A new block of the given size, filled from `p`, for the object `self`. -/
def newFrom (self : ℕ) (p : Address α) (size : ℕ) : Except MemoryFault (Memory α) := do
  let (a, m) := m.new junk size
  (m.set self (some ⟨some a, size⟩)).memcpy a p size

/-- The part that the copy constructor and the assignment share. An object that stays
empty has been initialized or cleared before. -/
def copyFrom (self : ℕ) (src : DataVector) : Except MemoryFault (Memory α) :=
  match src.data with
  | none => .ok (m.set self (some ⟨none, 0⟩))
  | some a =>
    if src.dataSize > 0 then m.newFrom junk self (.block a) src.dataSize
    else .ok (m.set self (some ⟨none, 0⟩))

/-- `clear`. -/
def clear (self : ℕ) : Except MemoryFault (Memory α) := do
  let v ← m.get self
  let m ← m.delete v
  .ok (m.set self (some ⟨none, 0⟩))

/-- `store`. A block of another size is replaced. -/
def store (self : ℕ) (srcData : Address α) (srcSize : ℕ) : Except MemoryFault (Memory α) := do
  let v ← m.get self
  match srcData, srcSize with
  | .null, _ => m.clear self
  | _, 0 => m.clear self
  | p, size =>
    match v.data with
    | none => m.newFrom junk self p size
    | some a =>
      if size ≠ v.dataSize then do
        let m ← m.delete v
        m.newFrom junk self p size
      else m.memcpy a p v.dataSize

variable [Zero α]

/-- One operation. -/
def step (m : Memory α) : VectorOp α → Except MemoryFault (Memory α)
  | .construct self => do
    m.declare self
    .ok (m.set self (some ⟨none, 0⟩))
  | .constructCopy self src => do
    m.declare self
    let v ← m.get src
    m.copyFrom junk self v
  | .constructFrom self srcData srcSize => do
    m.declare self
    let p ← m.eval srcData
    m.newFrom junk self p srcSize
  | .constructZero self srcSize => do
    m.declare self
    m.newFrom junk self (.memory (List.replicate srcSize 0)) srcSize
  | .assign self src => do
    -- the source is read after the object has been cleared
    let m ← m.clear self
    let v ← m.get src
    m.copyFrom junk self v
  | .store self srcData srcSize => do
    let p ← m.eval srcData
    m.store junk self p srcSize
  | .clear self => m.clear self
  | .destruct self => do
    let v ← m.get self
    let m ← m.delete v
    .ok (m.set self none)
  | .copyOut self n => do
    let p ← m.eval (.dataPointer self)
    let cells ← m.load p n
    .ok { m with output := m.output ++ [cells] }

/-- A program from the start. -/
def run (ops : List (VectorOp α)) : Except MemoryFault (Memory α) :=
  Execution.run (step junk) (.empty α) ops

end Memory

-- ════════════════════════════════════════════════════════════════════════
-- Contents
-- ════════════════════════════════════════════════════════════════════════

/-- The contents of the objects that are alive, and what has been copied to the outside.
An object without a block has the contents `none`. -/
structure Values (α : Type) where
  value : ℕ → Option (Option (List α))
  output : List (List α)

namespace Values

variable {α : Type} (v : Values α)

def empty (α : Type) : Values α := ⟨fun _ => none, []⟩

def get (self : ℕ) : Except MemoryFault (Option (List α)) :=
  match v.value self with
  | none => .error .noObject
  | some l => .ok l

def set (self : ℕ) (l : Option (Option (List α))) : Values α :=
  { v with value := Function.update v.value self l }

def declare (self : ℕ) : Except MemoryFault Unit :=
  if v.value self = none then .ok () else .error .redeclared

/-- The cells behind a pointer. -/
def eval : SrcData α → Except MemoryFault (Option (List α))
  | .null => .ok none
  | .memory cells => .ok (some cells)
  | .dataPointer object => v.get object

/-- The first `n` cells behind a pointer. -/
def load (cells : Option (List α)) (n : ℕ) : Except MemoryFault (List α) :=
  if n ≤ (cells.getD []).length then .ok ((cells.getD []).take n) else .error (.heap .outOfBounds)

/-- A copy has no block if there are no cells. -/
def copied : Option (List α) → Option (List α)
  | some (x :: xs) => some (x :: xs)
  | _ => none

/-- Storing from the block of the object itself works for its own size only. -/
def store (self : ℕ) (srcData : SrcData α) (srcSize : ℕ) : Except MemoryFault (Values α) := do
  let cells ← v.eval srcData
  let old ← v.get self
  if cells = none ∨ srcSize = 0 then .ok (v.set self (some none))
  else match srcData with
    | .dataPointer src =>
      if src = self ∧ srcSize ≠ (old.getD []).length then .error (.heap .useAfterFree)
      else do
        let l ← load cells srcSize
        .ok (v.set self (some (some l)))
    | _ => do
      let l ← load cells srcSize
      .ok (v.set self (some (some l)))

variable [Zero α]

/-- One operation. -/
def step (v : Values α) : VectorOp α → Except MemoryFault (Values α)
  | .construct self => do
    v.declare self
    .ok (v.set self (some none))
  | .constructCopy self src => do
    v.declare self
    let l ← v.get src
    .ok (v.set self (some (copied l)))
  | .constructFrom self srcData srcSize => do
    v.declare self
    let cells ← v.eval srcData
    let l ← load cells srcSize
    .ok (v.set self (some (some l)))
  | .constructZero self srcSize => do
    v.declare self
    .ok (v.set self (some (some (List.replicate srcSize 0))))
  | .assign self src => do
    let _ ← v.get self
    -- an object that is assigned to itself has been cleared before
    let l ← (v.set self (some none)).get src
    .ok (v.set self (some (copied l)))
  | .store self srcData srcSize => v.store self srcData srcSize
  | .clear self => do
    let _ ← v.get self
    .ok (v.set self (some none))
  | .destruct self => do
    let _ ← v.get self
    .ok (v.set self none)
  | .copyOut self n => do
    let cells ← v.get self
    let l ← load cells n
    .ok { v with output := v.output ++ [l] }

def run (ops : List (VectorOp α)) : Except MemoryFault (Values α) :=
  Execution.run step (.empty α) ops

end Values

end GrAta
