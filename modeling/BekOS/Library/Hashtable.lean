import BekOS.Lib.CyclicSearch
import BekOS.Lib.PartialRun

/-!
# `bek::hashtable`

The open-addressing table of `kernel/include/library/hashtable.h`.  A slot is
`Empty`, `Deleted` (a tombstone left by `extract`) or `Filled`; the source keeps
the flag and the pair in two parallel arrays and reads the pair only where the
flag is `Filled`, so one `Slot` carries both.  `capacity` is the length of the
arrays.

`unchecked_lookup` ends in `ASSERT_UNREACHABLE` when neither half of its scan
returns; that is `none`, and every operation built on it is `Option`-valued.
-/

namespace BekOS

universe u v

/-- One bucket together with its `Fill` flag. -/
inductive Slot (Key : Type u) (Val : Type v) where
  | empty
  | deleted
  | filled (first : Key) (second : Val)
  deriving DecidableEq, Repr

/-- The table: its slots and the `load` counter. -/
structure Hashtable (Key : Type u) (Val : Type v) where
  slots : List (Slot Key Val)
  load : ℕ
  deriving DecidableEq, Repr

namespace Slot

variable {Key : Type u} {Val : Type v}

/-- The three-way test both loops of `unchecked_lookup` make on a slot. -/
def accepts [BEq Key] (key : Key) (inserting : Bool) : Slot Key Val → Bool
  | empty => true
  | deleted => inserting
  | filled first _ => key == first

/-- `filled[i] == Fill::Empty`. -/
def isEmpty : Slot Key Val → Bool
  | empty => true
  | _ => false

/-- `filled[i] == Fill::Filled`. -/
def isFilled : Slot Key Val → Bool
  | filled _ _ => true
  | _ => false

/-- The slot is a tombstone. -/
def isDeleted : Slot Key Val → Bool
  | deleted => true
  | _ => false

/-- The slot is filled under a key equal to `key`. -/
def hasKey [BEq Key] (key : Key) : Slot Key Val → Bool
  | filled first _ => key == first
  | _ => false

/-- The pair of a filled slot. -/
def pair? : Slot Key Val → Option (Key × Val)
  | filled first second => some (first, second)
  | _ => none

end Slot

namespace Hashtable

open CyclicSearch

variable {Key : Type u} {Val : Type v}

/-- Length of the arrays allocated. -/
def capacity (table : Hashtable Key Val) : ℕ := table.slots.length

/-- The constructor: `capacity` empty slots. -/
def new (capacity : ℕ) : Hashtable Key Val where
  slots := List.replicate capacity .empty
  load := 0

def expandThreshold : ℕ := 2

def expandFactor : ℕ := 2

section Operations

variable [BEq Key] (hash : Key → ℕ)

/-- The test of both loops of `unchecked_lookup`, at position `i`. -/
def acceptsAt (table : Hashtable Key Val) (key : Key) (inserting : Bool) (i : ℕ) :
    Bool :=
  table.slots[i]?.any (Slot.accepts key inserting)

/-- Looks for the key: its slot if found, otherwise the appropriate insertion
point.  `none` is `ASSERT_UNREACHABLE`. -/
def uncheckedLookup (table : Hashtable Key Val) (key : Key) (inserting : Bool) :
    Option ℕ :=
  cyclicFind? table.capacity (hash key % table.capacity)
    (acceptsAt table key inserting)

/-- Store `pair` at the slot the lookup returns.  The result pairs the iterator
with whether the pair was stored. -/
def uncheckedSet (table : Hashtable Key Val) (pair : Key × Val) (overwrite : Bool) :
    Option (Hashtable Key Val × (ℕ × Bool)) :=
  (uncheckedLookup hash table pair.1 true).map fun index : ℕ =>
    match table.slots[index]? with
    | some (.filled _ _) =>
        if overwrite then
          ({ table with slots := table.slots.set index (.filled pair.1 pair.2) },
            (index, true))
        else (table, (index, false))
    | _ =>
        ({ slots := table.slots.set index (.filled pair.1 pair.2)
           load := table.load + 1 }, (index, true))

/-- The transfer loop of `check_size`, over the old slots. -/
def transfer (table : Hashtable Key Val) :
    List (Slot Key Val) → Option (Hashtable Key Val)
  | [] => some table
  | .filled first second :: rest =>
      (uncheckedSet hash table (first, second) false).bind fun stored =>
        transfer stored.1 rest
  | _ :: rest => transfer table rest

/-- The load test of `check_size`. -/
def NeedsExpand (table : Hashtable Key Val) : Prop :=
  table.load * expandThreshold > table.capacity
deriving Decidable

/-- Grow and rehash once the table is more than half full. -/
def checkSize (table : Hashtable Key Val) : Option (Hashtable Key Val) :=
  if table.NeedsExpand then
    transfer hash (new (table.capacity * expandFactor)) table.slots
  else some table

/-- Insert unless the key is already there. -/
def insert (table : Hashtable Key Val) (pair : Key × Val) :
    Option (Hashtable Key Val × (ℕ × Bool)) :=
  (checkSize hash table).bind fun table => uncheckedSet hash table pair false

/-- Insert, overwriting what is there. -/
def set (table : Hashtable Key Val) (key : Key) (val : Val) :
    Option (Hashtable Key Val × (ℕ × Bool)) :=
  (checkSize hash table).bind fun table => uncheckedSet hash table (key, val) true

/-- The value stored for the key, through the pointer `find` returns
(`none` inside is the null pointer). -/
def find (table : Hashtable Key Val) (key : Key) : Option (Option Val) :=
  (uncheckedLookup hash table key false).map fun index : ℕ =>
    match table.slots[index]? with
    | some (.filled _ second) => some second
    | _ => none

/-- Remove the key, returning its value. -/
def extract (table : Hashtable Key Val) (key : Key) :
    Option (Hashtable Key Val × Option Val) :=
  (uncheckedLookup hash table key false).map fun index : ℕ =>
    match table.slots[index]? with
    | some (.filled _ second) =>
        ({ slots := table.slots.set index .deleted, load := table.load - 1 },
          some second)
    | _ => (table, none)

end Operations

/-- `item_count`. -/
def itemCount (table : Hashtable Key Val) : ℕ := table.load

/-! ### Iteration -/

/-- The first filled slot from position `i` on, or `capacity` if there is none:
`begin` starts it at `0`, `operator++` one past the current slot. -/
def nextFilled (table : Hashtable Key Val) (i : ℕ) : ℕ :=
  ((List.range' i (table.capacity - i)).find? fun j =>
    table.slots[j]?.any Slot.isFilled).getD table.capacity

/-- A range-`for` over the table, from the iterator at `i`: `fuel` bounds the
slots still ahead of it. -/
def visitFrom (table : Hashtable Key Val) : ℕ → ℕ → List (Key × Val)
  | 0, _ => []
  | fuel + 1, i =>
      match table.slots[i]? with
      | some (.filled first second) =>
          (first, second) :: visitFrom table fuel (table.nextFilled (i + 1))
      | _ => []

/-- The pairs a range-`for` over the table visits, in order. -/
def visited (table : Hashtable Key Val) : List (Key × Val) :=
  table.visitFrom table.capacity (table.nextFilled 0)

end Hashtable

end BekOS
