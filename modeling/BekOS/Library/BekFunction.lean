import BekOS.Library.KernelError
import BekOS.Lib.SoleOwners

/-!
# `bek::function`

A function object has 16 bytes of storage, a function that invokes what is stored, and a pointer to
a wrapper: null if the functor itself is in the storage or there is none, the object's own storage,
or a wrapper in the heap.  Which of the two it is the code knows from comparing the pointer with the
address of the storage, so an object that is moved must have its pointer rewritten.

Objects are known by their places, and each instance of a functor in a wrapper by a number.  A swap
of two storages moves what is in them, instances and all.
-/

namespace BekOS.BekFunction

open Function

/-- Where a functor of a type is put: in the storage as it is (`uses_trivial_small_storage`), in a
wrapper in the storage (`Storage::can_store`), or in a wrapper in the heap. -/
inductive StorageKind where
  | trivial
  | inline
  | heap
  deriving DecidableEq, Repr

/-- What a functor's type says of it. -/
structure FunctorTypes (τ φ : Type) where
  typeOf : φ → τ
  kind : τ → StorageKind
  copyConstructible : τ → Bool

/-- What goes wrong in an operation of a function object. -/
inductive FunctionFault where
  /-- A `PANIC`. -/
  | panic
  /-- A pointer to no wrapper, or to one of another type. -/
  | badPointer
  /-- A functor that has been moved from is called. -/
  | movedFrom
  /-- A function object where there is none. -/
  | noObject
  /-- A constructor over a function object. -/
  | occupied
  deriving DecidableEq, Repr

/-- `concrete_wrapper<Functor>`.  A functor that was moved from has no value. -/
structure Wrapper (τ φ : Type) where
  serial : ℕ
  type : τ
  functor : Option φ
  deriving DecidableEq, Repr

/-- What is in a storage. -/
inductive Storage (τ φ : Type) where
  | raw
  | trivial (functor : φ)
  | wrapper (wrapper : Wrapper τ φ)
  deriving DecidableEq, Repr

/-- `m_wrapper` -/
inductive WrapperPtr (ι : Type) where
  | null
  | storage (place : ι)
  | heap (address : ℕ)
  deriving DecidableEq, Repr

/-- `m_invoker`: `empty_function`, or the lambda for a functor type, of a functor or a wrapper. -/
inductive Invoker (τ : Type) where
  | empty
  | direct (type : τ)
  | wrapped (type : τ)
  deriving DecidableEq, Repr

/-- `function<Out(In...), Copyable, Nullable>` -/
structure FunctionObject (ι τ φ : Type) where
  copyable : Bool
  nullable : Bool
  storage : Storage τ φ := .raw
  invoker : Invoker τ := .empty
  wrapper : WrapperPtr ι := .null
  deriving DecidableEq, Repr

/-- The objects, the wrappers in the heap, and the instances that have been made and destroyed. -/
structure FunctionState (ι τ φ : Type) where
  objects : ι → Option (FunctionObject ι τ φ)
  heap : ℕ → Option (Wrapper τ φ)
  made : ℕ := 0
  destroyed : List ℕ := []

/-- What a program does with function objects.  An operation that may make a wrapper in the heap
says at which address.  The parameter of an assignment is an object of its own, which has been
constructed from what is assigned and is destroyed at the end. -/
inductive FunctionOp (ι φ : Type) where
  | default (this : ι) (copyable nullable : Bool)
  | construct (this : ι) (copyable nullable : Bool) (functor : φ) (address : ℕ)
  | convert (this : ι) (copyable nullable : Bool) (other : ι)
  | copy (this other : ι) (address : ℕ)
  | move (this other : ι)
  | assign (this other : ι)
  | swap (this other : ι)
  | destroy (this : ι)

namespace FunctionState

variable {ι τ φ : Type} [DecidableEq ι]

/-- The object at a place. -/
def get (state : FunctionState ι τ φ) (i : ι) : Except FunctionFault (FunctionObject ι τ φ) :=
  match state.objects i with
  | some object => .ok object
  | none => .error .noObject

/-- An object at a place where there was none. -/
def put (state : FunctionState ι τ φ) (this : ι) (object : FunctionObject ι τ φ) :
    Except FunctionFault (FunctionState ι τ φ) :=
  match state.objects this with
  | some _ => .error .occupied
  | none => .ok { state with objects := update state.objects this (some object) }

/-- The wrapper behind a pointer. -/
def deref (state : FunctionState ι τ φ) : WrapperPtr ι → Except FunctionFault (Wrapper τ φ)
  | .null => .error .badPointer
  | .storage i =>
      match (state.objects i).map FunctionObject.storage with
      | some (.wrapper wrapper) => .ok wrapper
      | _ => .error .badPointer
  | .heap address =>
      match state.heap address with
      | some wrapper => .ok wrapper
      | none => .error .badPointer

/-- A new wrapper, in the storage of the object at a place or in the heap. -/
def makeWrapper (types : FunctorTypes τ φ) (state : FunctionState ι τ φ) (this : ι)
    (object : FunctionObject ι τ φ) (type : τ) (functor : Option φ) (address : ℕ) :
    FunctionState ι τ φ × FunctionObject ι τ φ :=
  let wrapper : Wrapper τ φ := ⟨state.made, type, functor⟩
  if types.kind type = .inline then
    ({ state with made := state.made + 1 },
      { object with storage := .wrapper wrapper, wrapper := .storage this })
  else
    ({ state with
      heap := update state.heap address (some wrapper), made := state.made + 1 },
      { object with wrapper := .heap address })

/-- `function(Functor&& functor)` -/
def construct (types : FunctorTypes τ φ) (state : FunctionState ι τ φ) (this : ι)
    (copyable nullable : Bool) (functor : φ) (address : ℕ) :
    Except FunctionFault (FunctionState ι τ φ) :=
  let object : FunctionObject ι τ φ := { copyable := copyable, nullable := nullable }
  let type := types.typeOf functor
  if types.kind type = .trivial then
    state.put this { object with
      storage := .trivial functor, wrapper := .null, invoker := .direct type }
  else
    let (state, object) := state.makeWrapper types this object type (some functor) address
    state.put this { object with invoker := .wrapped type }

/-- `function(const function& other)`, with `clone`. -/
def copyTo (types : FunctorTypes τ φ) (state : FunctionState ι τ φ) (this other : ι)
    (address : ℕ) : Except FunctionFault (FunctionState ι τ φ) := do
  let source ← state.get other
  let object : FunctionObject ι τ φ :=
    { copyable := source.copyable, nullable := source.nullable, invoker := source.invoker }
  if source.wrapper ≠ .null then
    let wrapper ← state.deref source.wrapper
    if types.copyConstructible wrapper.type then
      let (state, object) :=
        state.makeWrapper types this object wrapper.type wrapper.functor address
      state.put this object
    else .error .panic
  else state.put this { object with storage := source.storage }

/-- `function(function&& other)`, with `move_to`. -/
def moveTo (types : FunctorTypes τ φ) (state : FunctionState ι τ φ) (this other : ι) :
    Except FunctionFault (FunctionState ι τ φ) := do
  let source ← state.get other
  let object : FunctionObject ι τ φ :=
    { copyable := source.copyable, nullable := source.nullable, invoker := source.invoker }
  if source.wrapper ≠ .null then
    if source.wrapper = .storage other then
      let wrapper ← state.deref source.wrapper
      if types.kind wrapper.type = .inline then
        let made : Wrapper τ φ := { wrapper with serial := state.made }
        let moved : Wrapper τ φ := { wrapper with functor := none }
        let state := { state with
          objects := update state.objects other
            (some { source with storage := .wrapper moved })
          made := state.made + 1 }
        state.put this { object with storage := .wrapper made, wrapper := .storage this }
      else state.put this { object with wrapper := .null }
    else
      let state := { state with
        objects := update state.objects other (some { source with wrapper := .null }) }
      state.put this { object with wrapper := source.wrapper }
  else state.put this { object with wrapper := .null, storage := source.storage }

/-- `m_wrapper` of the object at a place, of one that was at another. -/
def relocated (this other : ι) (pointer : WrapperPtr ι) : WrapperPtr ι :=
  if pointer = .storage other then .storage this else pointer

/-- `do_swap` -/
def doSwap (state : FunctionState ι τ φ) (a b : ι) :
    Except FunctionFault (FunctionState ι τ φ) := do
  let objectA ← state.get a
  let objectB ← state.get b
  let newB := { objectB with
    storage := objectA.storage, invoker := objectA.invoker
    wrapper := relocated b a objectA.wrapper }
  let newA := { objectA with
    storage := objectB.storage, invoker := objectB.invoker
    wrapper := relocated a b objectB.wrapper }
  return { state with
    objects := update (update state.objects a (some newA)) b (some newB) }

/-- `~function` -/
def destroyAt (state : FunctionState ι τ φ) (this : ι) :
    Except FunctionFault (FunctionState ι τ φ) := do
  let object ← state.get this
  let objects := update state.objects this none
  if object.wrapper = .storage this then
    let wrapper ← state.deref object.wrapper
    return { state with objects := objects, destroyed := wrapper.serial :: state.destroyed }
  else match object.wrapper with
    | .null => return { state with objects := objects }
    | .storage _ => .error .badPointer
    | .heap address => do
        let wrapper ← state.deref object.wrapper
        return { state with
          objects := objects, heap := update state.heap address none
          destroyed := wrapper.serial :: state.destroyed }

/-- `operator()`: the functor that is called. -/
def invoke [DecidableEq τ] (types : FunctorTypes τ φ) (state : FunctionState ι τ φ) (this : ι) :
    Except FunctionFault φ := do
  let object ← state.get this
  match object.invoker with
  | .empty => .error .panic
  | .direct type =>
      if object.wrapper ≠ .null then .error .badPointer
      else match object.storage with
        | .trivial functor =>
            if types.typeOf functor = type then .ok functor else .error .badPointer
        | _ => .error .badPointer
  | .wrapped type => do
      let wrapper ← state.deref
        (if object.wrapper ≠ .null then object.wrapper else .storage this)
      if wrapper.type = type then
        match wrapper.functor with
        | some functor => .ok functor
        | none => .error .movedFrom
      else .error .badPointer

def step (types : FunctorTypes τ φ) (state : FunctionState ι τ φ) :
    FunctionOp ι φ → Except FunctionFault (FunctionState ι τ φ)
  | .default this copyable nullable =>
      state.put this { copyable := copyable, nullable := nullable }
  | .construct this copyable nullable functor address =>
      state.construct types this copyable nullable functor address
  | .convert this copyable nullable other => do
      let state ← state.put this { copyable := copyable, nullable := nullable }
      state.doSwap this other
  | .copy this other address => state.copyTo types this other address
  | .move this other => state.moveTo types this other
  | .assign this other => do
      let state ← state.doSwap this other
      state.destroyAt other
  | .swap this other => state.doSwap this other
  | .destroy this => state.destroyAt this

def run (types : FunctorTypes τ φ) (state : FunctionState ι τ φ) :
    List (FunctionOp ι φ) → Except FunctionFault (FunctionState ι τ φ)
  | [] => .ok state
  | op :: ops => do
      let state ← state.step types op
      run types state ops

/-- No function object, and no wrapper. -/
def initial : FunctionState ι τ φ := { objects := fun _ => none, heap := fun _ => none }

end FunctionState

end BekOS.BekFunction
