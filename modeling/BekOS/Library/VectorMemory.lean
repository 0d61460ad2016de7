import BekOS.Library.KernelError
import Mathlib.Data.BitVec
import Mathlib.Data.List.GetD

/-!
# `bek::vector` and the objects in its array

The array of a vector is memory, and an element is an object that is constructed there and
destroyed again.  `Slot` says whether a place of the array has an object: a constructor must find
none, and everything else that is done with an object must find one, or the step is a fault.  So
what runs without a fault constructs each object once before it uses it, and destroys it once.

Storage is given when it is asked for.  Sizes and indices are 64 bit numbers.
-/

namespace BekOS.VectorMemory

/-- What goes wrong in an operation of a vector. -/
inductive VectorFault where
  /-- A failed `VERIFY`. -/
  | panic
  /-- A place outside the array. -/
  | outside
  /-- An object is used or destroyed where there is none. -/
  | unconstructed
  /-- An object is constructed where there is one. -/
  | constructed
  /-- Memory is freed with an object in it. -/
  | leaked
  /-- A loop that never ends. -/
  | endless
deriving DecidableEq, Repr

/-- A place in an array.  An object that was moved from has no value. -/
inductive Slot (α : Type) where
  | raw
  | object (value : Option α)
deriving DecidableEq, Repr

/-- What a vector needs to know of the type of its elements. -/
structure ElementType where
  sizeOf : ℕ
  sizeOf_pos : 0 < sizeOf
  sizeOf_lt : sizeOf < 2 ^ 64
  isTriviallyCopyable : Bool

/-- An array. -/
abbrev Slots (α : Type) := List (Slot α)

namespace Slots

variable {α : Type}

/-- Placement `new`, of an object with this value. -/
def construct (slots : Slots α) (i : ℕ) (value : Option α) : Except VectorFault (Slots α) :=
  match slots[i]? with
  | none => .error .outside
  | some .raw => .ok (slots.set i (.object value))
  | some (.object _) => .error .constructed

/-- `~T()` -/
def destroy (slots : Slots α) (i : ℕ) : Except VectorFault (Slots α) :=
  match slots[i]? with
  | none => .error .outside
  | some .raw => .error .unconstructed
  | some (.object _) => .ok (slots.set i .raw)

/-- Reading an object. -/
def read (slots : Slots α) (i : ℕ) : Except VectorFault (Option α) :=
  match slots[i]? with
  | none => .error .outside
  | some .raw => .error .unconstructed
  | some (.object value) => .ok value

/-- `move`, into what is made of the value. -/
def move (slots : Slots α) (i : ℕ) : Except VectorFault (Option α × Slots α) :=
  (read slots i).map fun value => (value, slots.set i (.object none))

/-- `operator=` of an object. -/
def assign (slots : Slots α) (i : ℕ) (value : Option α) : Except VectorFault (Slots α) :=
  (read slots i).map fun _ => slots.set i (.object value)

/-- The loop of `clear`, with so many objects left. -/
def clearLoop : ℕ → Slots α → ℕ → Except VectorFault (Slots α)
  | 0, slots, _ => .ok slots
  | count + 1, slots, i => do
      let slots ← destroy slots i
      clearLoop count slots (i + 1)

/-- The loop of `expand_storage`. -/
def relocateLoop : ℕ → Slots α → Slots α → ℕ → Except VectorFault (Slots α × Slots α)
  | 0, array, newArray, _ => .ok (array, newArray)
  | count + 1, array, newArray, i => do
      let moved ← move array i
      let newArray ← construct newArray i moved.1
      let array ← destroy moved.2 i
      relocateLoop count array newArray (i + 1)

/-- The loops of the copy constructor and of `operator=`. -/
def copyLoop (source : Slots α) : ℕ → Slots α → ℕ → Except VectorFault (Slots α)
  | 0, slots, _ => .ok slots
  | count + 1, slots, i => do
      let value ← read source i
      let slots ← construct slots i value
      copyLoop source count slots (i + 1)

/-- The loop of `insert`, which counts down. -/
def shiftUpLoop (i : ℕ) : ℕ → Slots α → ℕ → Except VectorFault (Slots α)
  | 0, _, _ => .error .endless
  | fuel + 1, slots, idx =>
      if i ≤ idx then do
        let moved ← move slots idx
        let slots ← construct moved.2 ((idx + 1) % 2 ^ 64) moved.1
        let slots ← destroy slots idx
        shiftUpLoop i fuel slots ((idx + 2 ^ 64 - 1) % 2 ^ 64)
      else .ok slots

/-- The loop of `pop` and `extract`, with so many objects left. -/
def shiftDownLoop : ℕ → Slots α → ℕ → Except VectorFault (Slots α)
  | 0, slots, _ => .ok slots
  | count + 1, slots, idx => do
      let moved ← move slots idx
      let slots ← assign moved.2 (idx - 1) moved.1
      shiftDownLoop count slots (idx + 1)

/-- `mem::free` -/
def free (slots : Slots α) : Except VectorFault Unit :=
  if slots.all (fun slot => slot matches .raw) then .ok () else .error .leaked

end Slots

/-- `vector` -/
structure RawVector (α : Type) where
  size : ℕ
  capacity : ℕ
  array : Slots α
deriving DecidableEq, Repr

namespace RawVector

variable {α : Type}

/-- `vector()` -/
def new : RawVector α := ⟨0, 0, []⟩

/-- The loop of `ensure_capacity`.  After 64 rounds the number doubled is zero for good. -/
def growLoop (capacity : ℕ) : ℕ → ℕ → Except VectorFault ℕ
  | 0, _ => .error .endless
  | fuel + 1, newCapacity =>
      if newCapacity < capacity then growLoop capacity fuel (newCapacity * 2 % 2 ^ 64)
      else .ok newCapacity

/-- The capacity that `ensure_capacity` comes to. -/
def newCapacity (v : RawVector α) (capacity : ℕ) : Except VectorFault ℕ :=
  growLoop capacity 65 (if v.capacity ≠ 0 then v.capacity else 1)

section Storage

variable (type : ElementType)

/-- `allocate`, for so many elements. -/
def allocate (capacity : ℕ) : Slots α :=
  List.replicate (capacity * type.sizeOf % 2 ^ 64 / type.sizeOf) .raw

/-- `memcopy` of the elements. -/
def memcopy (v : RawVector α) (newArray : Slots α) : Except VectorFault (Slots α) :=
  if v.size * type.sizeOf % 2 ^ 64 ≤ maxMemcopy then
    if v.size ≤ newArray.length ∧ v.size ≤ v.array.length then
      .ok (v.array.take v.size ++ newArray.drop v.size)
    else .error .outside
  else .error .panic

/-- `expand_storage`.  Of a trivially copyable type there is nothing to destroy before the old array
is freed. -/
def expandStorage (v : RawVector α) (newCapacity : ℕ) : Except VectorFault (RawVector α) :=
  let newArray := allocate type newCapacity
  if v.capacity ≠ 0 then
    if type.isTriviallyCopyable then do
      let newArray ← v.memcopy type newArray
      return ⟨v.size, newCapacity, newArray⟩
    else do
      let moved ← Slots.relocateLoop v.size v.array newArray 0
      Slots.free moved.1
      return ⟨v.size, newCapacity, moved.2⟩
  else .ok ⟨v.size, newCapacity, newArray⟩

/-- `ensure_capacity` -/
def ensureCapacity (v : RawVector α) (capacity : ℕ) : Except VectorFault (RawVector α) := do
  let newCapacity ← v.newCapacity capacity
  if newCapacity ≠ v.capacity then v.expandStorage type newCapacity else return v

/-- `clear` -/
def clear (v : RawVector α) : Except VectorFault (RawVector α) := do
  let slots ← Slots.clearLoop v.size v.array 0
  return { v with size := 0, array := slots }

/-- `~vector` -/
def destruct (v : RawVector α) : Except VectorFault Unit := do
  let v ← v.clear
  Slots.free v.array

/-- The copy constructor. -/
def copyConstruct (v : RawVector α) : Except VectorFault (RawVector α) :=
  if v.capacity ≠ 0 then do
    let slots ← Slots.copyLoop v.array v.size (allocate type v.capacity) 0
    return ⟨v.size, v.capacity, slots⟩
  else .ok ⟨v.size, v.capacity, []⟩

/-- `operator=` of another vector.  The elements are copied up to the size of the vector that is
assigned to, which was cleared. -/
def copyAssign (target source : RawVector α) : Except VectorFault (RawVector α) := do
  let target ← target.clear
  let target ← target.ensureCapacity type source.size
  let slots ← Slots.copyLoop source.array target.size target.array 0
  return { target with size := source.size, array := slots }

/-- `reserve` -/
def reserve (v : RawVector α) (n : ℕ) : Except VectorFault (RawVector α) := v.ensureCapacity type n

/-- `expand` -/
def expand (v : RawVector α) (n : ℕ) : Except VectorFault (RawVector α) := do
  let v ← v.reserve type ((n + v.size) % 2 ^ 64)
  return { v with size := (n + v.size) % 2 ^ 64 }

/-- `push_back` -/
def pushBack (v : RawVector α) (item : α) : Except VectorFault (RawVector α) := do
  let v ← v.ensureCapacity type ((v.size + 1) % 2 ^ 64)
  let slots ← Slots.construct v.array v.size (some item)
  return { v with size := v.size + 1, array := slots }

/-- `insert` -/
def insert (v : RawVector α) (i : ℕ) (item : α) : Except VectorFault (RawVector α) := do
  if i < v.size then
    let v ← v.ensureCapacity type ((v.size + 1) % 2 ^ 64)
    let slots ← Slots.shiftUpLoop i (v.size + 1) v.array ((v.size + 2 ^ 64 - 1) % 2 ^ 64)
    let slots ← Slots.construct slots i (some item)
    return { v with size := v.size + 1, array := slots }
  else throw .panic

/-- `pop` at an index, and `extract` of the element there. -/
def pop (v : RawVector α) (i : ℕ) : Except VectorFault (Option α × RawVector α) := do
  if i < v.size then
    let x ← Slots.move v.array i
    let slots ← Slots.shiftDownLoop (v.size - (i + 1)) x.2 (i + 1)
    let slots ← Slots.destroy slots (v.size - 1)
    return (x.1, { v with size := v.size - 1, array := slots })
  else throw .panic

end Storage

end RawVector

end BekOS.VectorMemory
