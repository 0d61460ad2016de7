import BekOS.Library.BekFunction

/-!
# Runs of `bek::function`

Any number of function objects of any classes, and any sequence of constructions, conversions,
copies, moves, assignments, swaps and destructions.
-/

namespace BekOS.BekFunction

open Function

variable {ι τ φ : Type}

/-! ## What function objects are for -/

/-- What a function object has been given. -/
inductive Content (φ : Type) where
  | given (functor : φ)
  | movedFrom
  | empty

/-- What the objects have been given after an operation. -/
def contentsAfter [DecidableEq ι] (contents : ι → Option (Content φ)) :
    FunctionOp ι φ → ι → Option (Content φ)
  | .default this _ _ => update contents this (some .empty)
  | .construct this _ _ functor _ => update contents this (some (.given functor))
  | .convert this _ _ other =>
      update (update contents other (some .empty)) this (contents other)
  | .copy this other _ => update contents this (contents other)
  | .move this other =>
      update (update contents other (some .movedFrom)) this (contents other)
  | .assign this other =>
      update (update contents this (contents other)) other none
  | .swap this other =>
      update (update contents this (contents other)) other (contents this)
  | .destroy this => update contents this none

/-- The conversions that there are, from a class to another. -/
def Converts (copyable nullable otherCopyable otherNullable : Bool) : Prop :=
  (nullable ∧ !copyable ∧ (!otherNullable ∨ otherCopyable)) ∨
    (!otherNullable ∧ otherCopyable ∧ (!copyable ∨ nullable))

/-- Two objects of one class. -/
def SameClass (state : FunctionState ι τ φ) (this other : ι) : Prop :=
  ∃ object object', state.objects this = some object ∧ state.objects other = some object' ∧
    object.copyable = object'.copyable ∧ object.nullable = object'.nullable

/-- What a program sees to: an object is constructed where there is none and used where there is
one, of the class that the operation has, a copyable one is given what can be copied, and a wrapper
is allocated where there is none. -/
def Allows (types : FunctorTypes τ φ) (state : FunctionState ι τ φ) : FunctionOp ι φ → Prop
  | .default this _ _ => state.objects this = none
  | .construct this copyable _ functor address => state.objects this = none ∧
      (copyable = true → types.copyConstructible (types.typeOf functor) = true) ∧
      (types.kind (types.typeOf functor) = .heap → state.heap address = none)
  | .convert this copyable nullable other => state.objects this = none ∧
      ∃ object, state.objects other = some object ∧
        Converts copyable nullable object.copyable object.nullable
  | .copy this other address => state.objects this = none ∧
      (∃ object, state.objects other = some object ∧ object.copyable = true) ∧
      state.heap address = none
  | .move this other => state.objects this = none ∧ state.objects other ≠ none
  | .assign this other => SameClass state this other
  | .swap this other => SameClass state this other
  | .destroy this => state.objects this ≠ none

/-- Each operation of a run is allowed where it is done. -/
def RunAllows [DecidableEq ι] (types : FunctorTypes τ φ) (state : FunctionState ι τ φ) :
    List (FunctionOp ι φ) → Prop
  | [] => True
  | op :: ops => Allows types state op ∧
      ∀ state', state.step types op = .ok state' → RunAllows types state' ops

/-! ## The invariant -/

namespace FunctionObject

/-- The wrapper in the heap that an object has. -/
def heapOf (object : FunctionObject ι τ φ) : Option ℕ :=
  match object.wrapper with
  | .heap address => some address
  | _ => none

/-- The wrapper that an object has. -/
def instanceOf (heap : ℕ → Option (Wrapper τ φ)) (object : FunctionObject ι τ φ) :
    Option (Wrapper τ φ) :=
  match object.wrapper with
  | .null => none
  | .storage _ =>
      match object.storage with
      | .wrapper wrapper => some wrapper
      | _ => none
  | .heap address => heap address

/-- The instance of a functor that an object has. -/
def serialOf (heap : ℕ → Option (Wrapper τ φ)) (object : FunctionObject ι τ φ) : Option ℕ :=
  (object.instanceOf heap).map Wrapper.serial

/-- `m_wrapper` is null, the object's own storage with a wrapper in it, or a wrapper in the heap. -/
inductive Shaped (types : FunctorTypes τ φ) (heap : ℕ → Option (Wrapper τ φ)) (i : ι)
    (object : FunctionObject ι τ φ) : Prop
  | null (h : object.wrapper = .null)
  | inline (wrapper : Wrapper τ φ) (hwrapper : object.wrapper = .storage i)
      (hstorage : object.storage = .wrapper wrapper) (hkind : types.kind wrapper.type = .inline)
  | heap (address : ℕ) (wrapper : Wrapper τ φ) (hwrapper : object.wrapper = .heap address)
      (hheap : heap address = some wrapper) (hkind : types.kind wrapper.type = .heap)

/-- The object has a functor, and the invoker that is for it. -/
def Calls (types : FunctorTypes τ φ) (heap : ℕ → Option (Wrapper τ φ))
    (object : FunctionObject ι τ φ) (functor : φ) : Prop :=
  (object.wrapper = .null ∧ object.invoker = .direct (types.typeOf functor) ∧
    object.storage = .trivial functor) ∨
  (object.invoker = .wrapped (types.typeOf functor) ∧
    ∃ serial, object.instanceOf heap = some ⟨serial, types.typeOf functor, some functor⟩)

end FunctionObject

open FunctionObject

/-- An object is as it should be, for what it has been given. -/
structure Fits (types : FunctorTypes τ φ) (heap : ℕ → Option (Wrapper τ φ)) (i : ι)
    (object : FunctionObject ι τ φ) (content : Option (Content φ)) : Prop where
  shaped : Shaped types heap i object
  calls : ∀ functor, content = some (.given functor) → Calls types heap object functor
  copies : object.copyable = true → ∀ wrapper, object.instanceOf heap = some wrapper →
    types.copyConstructible wrapper.type = true

/-- The objects have what they were given, each wrapper in the heap has one owner, and each instance
that has not been destroyed is in one object. -/
structure Right (types : FunctorTypes τ φ) (state : FunctionState ι τ φ)
    (contents : ι → Option (Content φ)) : Prop where
  same : ∀ i, state.objects i = none ↔ contents i = none
  fits : ∀ i object, state.objects i = some object →
    Fits types state.heap i object (contents i)
  places : SoleOwners (fun i => (state.objects i).bind heapOf)
    fun address => state.heap address ≠ none
  instances : SoleOwners (fun i => (state.objects i).bind (serialOf state.heap))
    fun serial => serial < state.made ∧ serial ∉ state.destroyed
  nodup : state.destroyed.Nodup
  destroyed_lt : ∀ serial ∈ state.destroyed, serial < state.made

/-! ## Frames -/

section Frames

variable {types : FunctorTypes τ φ} {heap : ℕ → Option (Wrapper τ φ)}
  {object object' : FunctionObject ι τ φ} {address : ℕ} {value : Option (Wrapper τ φ)} {i : ι}
  {functor : φ}

/-- The wrappers of other objects do not matter. -/
theorem instanceOf_update (h : object.heapOf ≠ some address) :
    object.instanceOf (update heap address value) = object.instanceOf heap := by
  unfold heapOf at h
  unfold instanceOf
  cases hwrapper : object.wrapper with
  | null => rfl
  | storage place => rfl
  | heap other =>
      rw [hwrapper] at h
      exact update_of_ne (fun heq => h (congrArg some heq)) _ _

theorem FunctionObject.Shaped.update (h : object.heapOf ≠ some address)
    (hshaped : Shaped types heap i object) :
    Shaped types (update heap address value) i object := by
  cases hshaped with
  | null hwrapper => exact .null hwrapper
  | inline wrapper hwrapper hstorage hkind => exact .inline wrapper hwrapper hstorage hkind
  | heap other wrapper hwrapper hheap hkind =>
      refine .heap other wrapper hwrapper ?_ hkind
      unfold heapOf at h
      rw [hwrapper] at h
      rwa [update_of_ne fun heq => h (congrArg some heq)]

theorem FunctionObject.Calls.congr {heap' : ℕ → Option (Wrapper τ φ)}
    (h : Calls types heap object functor)
    (hnull : object.wrapper = .null → object'.wrapper = .null)
    (hstorage : object.wrapper = .null → object'.storage = object.storage)
    (hinvoker : object'.invoker = object.invoker)
    (hinstance : object'.instanceOf heap' = object.instanceOf heap) :
    Calls types heap' object' functor := by
  rcases h with ⟨hwrapper, hdirect, htrivial⟩ | ⟨hwrapped, serial, hserial⟩
  · exact Or.inl ⟨hnull hwrapper, hinvoker.trans hdirect, (hstorage hwrapper).trans htrivial⟩
  · exact Or.inr ⟨hinvoker.trans hwrapped, serial, hinstance.trans hserial⟩

/-- An object that fits does so whatever becomes of other wrappers. -/
theorem Fits.update {content : Option (Content φ)} (h : object.heapOf ≠ some address)
    (hfits : Fits types heap i object content) :
    Fits types (update heap address value) i object content where
  shaped := hfits.shaped.update h
  calls functor hcontent := Calls.congr (hfits.calls functor hcontent) id (fun _ => rfl) rfl
    (instanceOf_update h)
  copies hcopyable wrapper hwrapper := by
    rw [instanceOf_update h] at hwrapper
    exact hfits.copies hcopyable wrapper hwrapper

end Frames

section Right

variable [DecidableEq ι] {types : FunctorTypes τ φ} {state : FunctionState ι τ φ}
  {contents : ι → Option (Content φ)} {this other : ι}
  {object source : FunctionObject ι τ φ} {content : Content φ}

theorem same_update {objects : ι → Option (FunctionObject ι τ φ)}
    (hsame : ∀ i, objects i = none ↔ contents i = none) {value : Option (FunctionObject ι τ φ)}
    {value' : Option (Content φ)} (hvalue : value = none ↔ value' = none) (i : ι) :
    update objects this value i = none ↔
      update contents this value' i = none := by
  by_cases hi : i = this
  · subst hi
    rwa [update_self, update_self]
  · rw [update_of_ne hi, update_of_ne hi]
    exact hsame i

theorem some_iff_some {α β : Type} (a : α) (b : β) : some a = none ↔ some b = none :=
  iff_of_false (Option.some_ne_none _) (Option.some_ne_none _)

theorem fits_update {objects : ι → Option (FunctionObject ι τ φ)}
    {heap : ℕ → Option (Wrapper τ φ)} {value : Option (FunctionObject ι τ φ)}
    {value' : Option (Content φ)}
    (hnew : ∀ object, value = some object → Fits types heap this object value')
    (hkeep : ∀ i ≠ this, ∀ object, objects i = some object → Fits types heap i object (contents i))
    (i : ι) (object' : FunctionObject ι τ φ)
    (hi : update objects this value i = some object') :
    Fits types heap i object' (update contents this value' i) := by
  by_cases hthis : i = this
  · subst hthis
    rw [update_self] at hi ⊢
    exact hnew object' hi
  · rw [update_of_ne hthis] at hi ⊢
    exact hkeep i hthis object' hi

/-- An object without a wrapper is constructed. -/
theorem Right.addNull (hright : Right types state contents) (hvacant : state.objects this = none)
    (hnull : object.wrapper = .null) (hcalls : ∀ functor, content = .given functor →
      Calls types state.heap object functor) :
    Right types { state with objects := update state.objects this (some object) }
      (update contents this (some content)) := by
  have hheapOf : object.heapOf = none := by
    unfold heapOf
    rw [hnull]
  have hinstance : object.instanceOf state.heap = none := by
    unfold instanceOf
    rw [hnull]
  have hserial : object.serialOf state.heap = none := by rw [serialOf, hinstance, Option.map_none]
  have hnone : ∀ g : FunctionObject ι τ φ → Option ℕ, (state.objects this).bind g = none :=
    fun g => by rw [hvacant, Option.bind_none]
  have hfits : ∀ object', some object = some object' →
      Fits types state.heap this object' (some content) := by
    rintro _ ⟨⟩
    refine ⟨.null hnull, fun functor h => hcalls functor (Option.some.inj h), fun _ wrapper h => ?_⟩
    rw [hinstance] at h
    cases h
  refine ⟨same_update hright.same (some_iff_some _ _),
    fits_update hfits fun i _ => hright.fits i, ?_, ?_, hright.nodup, hright.destroyed_lt⟩
  · rw [bind_update, Option.bind_some, hheapOf, ← hnone heapOf, update_eq_self]
    exact hright.places
  · rw [bind_update, Option.bind_some, hserial, ← hnone (serialOf state.heap),
      update_eq_self]
    exact hright.instances

/-- The heap where a new wrapper may be, for an object that has it. -/
structure MakesAt (heap heap' : ℕ → Option (Wrapper τ φ)) (object : FunctionObject ι τ φ) :
    Prop where
  inline : object.heapOf = none → heap' = heap
  heap : ∀ address, object.heapOf = some address →
    heap address = none ∧ ∃ wrapper, heap' = update heap address (some wrapper)

/-- An object with a new wrapper is constructed. -/
theorem Right.addMade (hright : Right types state contents) (hvacant : state.objects this = none)
    {heap' : ℕ → Option (Wrapper τ φ)} (hmakes : MakesAt state.heap heap' object)
    (hnew : Fits types heap' this object (some content))
    (hserial : object.serialOf heap' = some state.made) :
    Right types { state with
      objects := update state.objects this (some object)
      heap := heap', made := state.made + 1 } (update contents this (some content)) := by
  have hnone : ∀ g : FunctionObject ι τ φ → Option ℕ, (state.objects this).bind g = none :=
    fun g => by rw [hvacant, Option.bind_none]
  have hlt : ∀ serial, (serial = state.made ∨ serial < state.made ∧ serial ∉ state.destroyed) ↔
      serial < state.made + 1 ∧ serial ∉ state.destroyed := by
    intro serial
    have := hright.destroyed_lt serial
    constructor
    · rintro (rfl | ⟨hlt, hmem⟩)
      · exact ⟨Nat.lt_succ_self _, fun h => Nat.lt_irrefl _ (this h)⟩
      · exact ⟨Nat.lt_succ_of_lt hlt, hmem⟩
    · rintro ⟨hlt, hmem⟩
      rcases Nat.lt_succ_iff_lt_or_eq.mp hlt with hlt | heq
      · exact Or.inr ⟨hlt, hmem⟩
      · exact Or.inl heq
  have hfresh : ¬ (state.made < state.made ∧ state.made ∉ state.destroyed) :=
    fun h => Nat.lt_irrefl _ h.1
  have hfits : ∀ object', some object = some object' →
      Fits types heap' this object' (some content) := by
    rintro _ ⟨⟩
    exact hnew
  have hdestroyed : ∀ serial ∈ state.destroyed, serial < state.made + 1 :=
    fun serial h => Nat.lt_succ_of_lt (hright.destroyed_lt serial h)
  cases hheapOf : object.heapOf with
  | none =>
      obtain rfl := hmakes.inline hheapOf
      refine ⟨same_update hright.same (some_iff_some _ _),
        fits_update hfits fun i _ => hright.fits i, ?_, ?_, hright.nodup, hdestroyed⟩
      · rw [bind_update, Option.bind_some, hheapOf, ← hnone heapOf, update_eq_self]
        exact hright.places
      · rw [bind_update, Option.bind_some, hserial]
        exact (hright.instances.add (hnone _) hfresh).congr fun serial => (hlt serial).symm
  | some address =>
      obtain ⟨hfree, wrapper, rfl⟩ := hmakes.heap address hheapOf
      have hother : ∀ i object, state.objects i = some object → object.heapOf ≠ some address := by
        intro i object hi hheapOf'
        refine hright.places.live_of_held (i := i) (k := address) ?_ hfree
        rw [hi, Option.bind_some, hheapOf']
      refine ⟨same_update hright.same (some_iff_some _ _), fits_update hfits fun i _ object hi =>
        (hright.fits i object hi).update (hother i object hi), ?_, ?_, hright.nodup, hdestroyed⟩
      · rw [bind_update, Option.bind_some, hheapOf]
        refine (hright.places.add (hnone _) (not_not.mpr hfree)).congr fun place => ?_
        dsimp only
        by_cases hplace : place = address
        · rw [hplace, update_self]
          exact iff_of_true (Option.some_ne_none _) (Or.inl rfl)
        · rw [update_of_ne hplace]
          exact (or_iff_right hplace).symm
      · have hsame : (fun i => (state.objects i).bind
            (serialOf (update state.heap address (some wrapper)))) =
            fun i => (state.objects i).bind (serialOf state.heap) := by
          funext i
          cases hi : state.objects i with
          | none => rfl
          | some object =>
              rw [Option.bind_some, Option.bind_some, serialOf, serialOf,
                instanceOf_update (hother i object hi)]
        rw [bind_update, Option.bind_some, hserial, hsame]
        exact (hright.instances.add (hnone _) hfresh).congr fun serial => (hlt serial).symm

/-! ## Relocation -/

/-- What an object was at another place, it is at this one.  The storage matters only if the wrapper
is not in the heap. -/
structure Relocates (this other : ι) (object moved : FunctionObject ι τ φ) : Prop where
  wrapper : moved.wrapper = FunctionState.relocated this other object.wrapper
  invoker : moved.invoker = object.invoker
  storage : (∀ address, object.wrapper ≠ .heap address) → moved.storage = object.storage

namespace Relocates

variable {heap : ℕ → Option (Wrapper τ φ)} {moved : FunctionObject ι τ φ}
  {content' : Option (Content φ)}

theorem heapOf_eq (h : Relocates this other object moved) : moved.heapOf = object.heapOf := by
  unfold heapOf
  rw [h.wrapper, FunctionState.relocated]
  split_ifs with hstorage
  · rw [hstorage]
  · rfl

theorem instanceOf_eq (h : Relocates this other object moved) :
    moved.instanceOf heap = object.instanceOf heap := by
  unfold instanceOf
  rw [h.wrapper, FunctionState.relocated]
  cases hwrapper : object.wrapper with
  | null => rfl
  | storage place =>
      rw [h.storage fun address => by rw [hwrapper]; exact fun heq => by cases heq]
      split_ifs <;> rfl
  | heap address => rfl

theorem fits (h : Relocates this other object moved)
    (hfits : Fits types heap other object content')
    (hcopies : moved.copyable = true → ∀ wrapper, object.instanceOf heap = some wrapper →
      types.copyConstructible wrapper.type = true) : Fits types heap this moved content' where
  shaped := by
    cases hfits.shaped with
    | null hnull => exact .null (by rw [h.wrapper, hnull]; rfl)
    | inline wrapper hwrapper hstorage hkind =>
        refine .inline wrapper ?_ ?_ hkind
        · rw [h.wrapper, hwrapper]
          exact if_pos rfl
        · rw [h.storage fun address => by rw [hwrapper]; exact fun heq => by cases heq]
          exact hstorage
    | heap address wrapper hwrapper hheap hkind =>
        exact .heap address wrapper (by rw [h.wrapper, hwrapper]; rfl) hheap hkind
  calls functor hcontent := by
    refine Calls.congr (hfits.calls functor hcontent) (fun hnull => ?_) (fun hnull => ?_) h.invoker
      h.instanceOf_eq
    · rw [h.wrapper, hnull]
      rfl
    · exact h.storage fun address => by rw [hnull]; exact fun heq => by cases heq
  copies hcopyable wrapper hwrapper := hcopies hcopyable wrapper (by rwa [← h.instanceOf_eq])

end Relocates

/-- **Objects change places**, and with them what they have been given. -/
theorem Right.relocate (hright : Right types state contents) (e : ι ≃ ι)
    {objects : ι → Option (FunctionObject ι τ φ)}
    (hobjects : ∀ i, objects i = none ∧ state.objects (e i) = none ∨
      ∃ object moved, objects i = some moved ∧ state.objects (e i) = some object ∧
        Relocates i (e i) object moved ∧
        (moved.copyable = true → ∀ wrapper, object.instanceOf state.heap = some wrapper →
          types.copyConstructible wrapper.type = true)) :
    Right types { state with objects := objects } fun i => contents (e i) := by
  have hbind : ∀ g : FunctionObject ι τ φ → Option ℕ,
      (∀ i j object moved, Relocates i j object moved → g moved = g object) →
      (fun i => (objects i).bind g) = fun i => (state.objects (e i)).bind g := by
    intro g hg
    funext i
    rcases hobjects i with ⟨hnone, hnone'⟩ | ⟨object, moved, hsome, hsome', hrelocates, -⟩
    · rw [hnone, hnone']
    · rw [hsome, hsome', Option.bind_some, Option.bind_some, hg _ _ _ _ hrelocates]
  refine ⟨fun i => ?_, fun i moved hi => ?_, ?_, ?_, hright.nodup, hright.destroyed_lt⟩
  · rw [← hright.same]
    rcases hobjects i with ⟨hnone, hnone'⟩ | ⟨object, moved, hsome, hsome', -⟩
    · exact iff_of_true hnone hnone'
    · dsimp only
      rw [hsome, hsome']
      exact iff_of_false (Option.some_ne_none _) (Option.some_ne_none _)
  · rcases hobjects i with ⟨hnone, -⟩ | ⟨object, moved', hsome, hsome', hrelocates, hcopies⟩
    · cases hnone.symm.trans hi
    · obtain rfl : moved' = moved := Option.some.inj (hsome.symm.trans hi)
      exact hrelocates.fits (hright.fits _ _ hsome') hcopies
  · rw [hbind heapOf fun _ _ _ _ h => h.heapOf_eq]
    exact hright.places.comp e
  · rw [hbind (serialOf state.heap) fun _ _ _ _ h => by rw [serialOf, h.instanceOf_eq, serialOf]]
    exact hright.instances.comp e

/-- An object that stays is relocated to its own place. -/
theorem Right.stays (hright : Right types state contents) (i : ι) :
    state.objects i = none ∧ state.objects i = none ∨
      ∃ object moved, state.objects i = some moved ∧ state.objects i = some object ∧
        Relocates i i object moved ∧
        (moved.copyable = true → ∀ wrapper, object.instanceOf state.heap = some wrapper →
          types.copyConstructible wrapper.type = true) := by
  cases hobject : state.objects i with
  | none => exact Or.inl ⟨rfl, rfl⟩
  | some object =>
      refine Or.inr ⟨object, object, rfl, rfl, ⟨?_, rfl, fun _ => rfl⟩,
        (hright.fits i object hobject).copies⟩
      rw [FunctionState.relocated]
      split_ifs with h
      · exact h
      · rfl

/-! ## What is given up -/

/-- An object that was moved from has no functor to answer for. -/
theorem Right.movedFrom (hright : Right types state contents) (hother : contents other ≠ none) :
    Right types state (update contents other (some .movedFrom)) where
  same i := by
    rw [hright.same]
    by_cases hi : i = other
    · subst hi
      rw [update_self]
      exact iff_of_false hother (Option.some_ne_none _)
    · rw [update_of_ne hi]
  fits i object hobject := by
    have hfits := hright.fits i object hobject
    by_cases hi : i = other
    · subst hi
      rw [update_self]
      exact ⟨hfits.shaped, fun functor h => (by cases h), hfits.copies⟩
    · rwa [update_of_ne hi]
  places := hright.places
  instances := hright.instances
  nodup := hright.nodup
  destroyed_lt := hright.destroyed_lt

/-- The functor in an object's storage is moved from. -/
theorem Right.unset (hright : Right types state contents)
    (hother : state.objects other = some source) (hwrapper : source.wrapper = .storage other)
    {wrapper : Wrapper τ φ} (hstorage : source.storage = .wrapper wrapper) :
    Right types { state with
      objects := update state.objects other
        (some { source with storage := .wrapper { wrapper with functor := none } }) }
      (update contents other (some .movedFrom)) := by
  have hfits := hright.fits other source hother
  have hinstance : source.instanceOf state.heap = some wrapper := by
    unfold instanceOf
    rw [hwrapper, hstorage]
  obtain ⟨moved, hmoved⟩ : ∃ moved : FunctionObject ι τ φ, ({ source with
      storage := .wrapper { wrapper with functor := none } } : FunctionObject ι τ φ) = moved :=
    ⟨_, rfl⟩
  have hmovedWrapper : moved.wrapper = .storage other := by rw [← hmoved]; exact hwrapper
  have hinstance' : moved.instanceOf state.heap = some { wrapper with functor := none } := by
    unfold instanceOf
    rw [hmovedWrapper, ← hmoved]
  have hbind : ∀ g : FunctionObject ι τ φ → Option ℕ, g moved = g source →
      (fun i => (update state.objects other (some moved) i).bind g) =
        fun i => (state.objects i).bind g := by
    intro g hg
    rw [bind_update, Option.bind_some, hg]
    refine update_eq_self_iff.mpr ?_
    rw [hother, Option.bind_some]
  rw [hmoved]
  refine ⟨same_update hright.same (some_iff_some _ _), fits_update ?_ fun i _ => hright.fits i, ?_,
    ?_, hright.nodup, hright.destroyed_lt⟩
  · rintro _ ⟨⟩
    refine ⟨?_, fun functor h => (by cases h), fun hcopyable wrapper' h => ?_⟩
    · cases hfits.shaped with
      | null h => rw [hwrapper] at h; cases h
      | inline wrapper' _ hstorage' hkind =>
          obtain rfl : wrapper = wrapper' := by
            rw [hstorage] at hstorage'
            exact Storage.wrapper.inj hstorage'
          exact .inline { wrapper with functor := none } hmovedWrapper (by rw [← hmoved]) hkind
      | heap address wrapper' h => rw [hwrapper] at h; cases h
    · rw [hinstance', Option.some_inj] at h
      rw [← h]
      exact hfits.copies (by rw [← hmoved] at hcopyable; exact hcopyable) wrapper hinstance
  · rw [hbind heapOf (by unfold heapOf; rw [hmovedWrapper, hwrapper])]
    exact hright.places
  · rw [hbind (serialOf state.heap) (by rw [serialOf, serialOf, hinstance, hinstance']; rfl)]
    exact hright.instances

/-! ## The operations -/

/-- `do_swap` of two objects that may each have the other's functor. -/
theorem doSwap_right (hright : Right types state contents)
    (hthis : state.objects this = some object) (hother : state.objects other = some source)
    (hcopies : object.copyable = true → ∀ wrapper, source.instanceOf state.heap = some wrapper →
      types.copyConstructible wrapper.type = true)
    (hcopies' : source.copyable = true → ∀ wrapper, object.instanceOf state.heap = some wrapper →
      types.copyConstructible wrapper.type = true) :
    ∃ state', state.doSwap this other = .ok state' ∧ Right types state'
      (update (update contents this (contents other)) other (contents this)) := by
  refine ⟨_, by rw [FunctionState.doSwap, FunctionState.get, FunctionState.get, hthis, hother]; rfl,
    ?_⟩
  rw [update_update_eq_swap]
  refine hright.relocate (Equiv.swap this other) fun i => ?_
  by_cases hi : i = other
  · subst hi
    refine Or.inr ⟨object, _, update_self .., by rwa [Equiv.swap_apply_right], ?_,
      hcopies'⟩
    rw [Equiv.swap_apply_right]
    exact ⟨rfl, rfl, fun _ => rfl⟩
  · rw [update_of_ne hi]
    by_cases hi' : i = this
    · subst hi'
      refine Or.inr ⟨source, _, update_self .., by rwa [Equiv.swap_apply_left], ?_,
        hcopies⟩
      rw [Equiv.swap_apply_left]
      exact ⟨rfl, rfl, fun _ => rfl⟩
    · rw [update_of_ne hi', Equiv.swap_apply_of_ne_of_ne hi' hi]
      exact hright.stays i

/-- **An object is destroyed** with its wrapper, and the instance with it. -/
theorem Right.lose (hright : Right types state contents) (hthis : state.objects this = some object)
    {wrapper : Wrapper τ φ} (hinstance : object.instanceOf state.heap = some wrapper)
    (heap' : ℕ → Option (Wrapper τ φ))
    (hkeep : ∀ i ≠ this, ∀ object, state.objects i = some object →
      object.instanceOf heap' = object.instanceOf state.heap ∧
        Fits types heap' i object (contents i))
    (hplaces : SoleOwners
      (fun i => (update state.objects this none i).bind heapOf)
      fun address => heap' address ≠ none) :
    Right types { state with
      objects := update state.objects this none, heap := heap'
      destroyed := wrapper.serial :: state.destroyed } (update contents this none) := by
  have hheld : (state.objects this).bind (serialOf state.heap) = some wrapper.serial := by
    rw [hthis, Option.bind_some, serialOf, hinstance, Option.map_some]
  have hlive := hright.instances.live_of_held hheld
  refine ⟨same_update hright.same (iff_of_true rfl rfl), fits_update (fun _ h => by cases h)
    fun i hi object hobject => (hkeep i hi object hobject).2, hplaces, ?_,
    List.nodup_cons.mpr ⟨hlive.2, hright.nodup⟩, List.forall_mem_cons.mpr ⟨hlive.1,
      hright.destroyed_lt⟩⟩
  have hsame : (fun i => (update state.objects this none i).bind (serialOf heap')) =
      update (fun i => (state.objects i).bind (serialOf state.heap)) this none := by
    funext i
    by_cases hi : i = this
    · subst hi
      rw [update_self, update_self, Option.bind_none]
    · rw [update_of_ne hi, update_of_ne hi]
      cases hobject : state.objects i with
      | none => rfl
      | some object =>
          rw [Option.bind_some, Option.bind_some, serialOf, serialOf,
            (hkeep i hi object hobject).1]
  rw [hsame]
  refine (hright.instances.remove hheld).congr fun serial => ?_
  rw [List.mem_cons, not_or, and_assoc, and_comm (a := serial ∉ state.destroyed)]

/-- `~function` -/
theorem destroyAt_right (hright : Right types state contents) (hthis : state.objects this ≠ none) :
    ∃ state', state.destroyAt this = .ok state' ∧
      Right types state' (update contents this none) := by
  obtain ⟨object, hobject⟩ := Option.ne_none_iff_exists'.mp hthis
  have hother : ∀ i ≠ this, ∀ other, state.objects i = some other → ∀ address,
      object.heapOf = some address → other.heapOf ≠ some address := by
    intro i hi other hsome address hheapOf hheapOf'
    refine hi (hright.places.unique (k := address) ?_ ?_)
    · rw [hsome, Option.bind_some, hheapOf']
    · rw [hobject, Option.bind_some, hheapOf]
  have hplaces : object.heapOf = none → SoleOwners
      (fun i => (update state.objects this none i).bind heapOf)
      fun address => state.heap address ≠ none := by
    intro hnone
    have hheld : (state.objects this).bind heapOf = none := by
      rw [hobject, Option.bind_some, hnone]
    rw [bind_update, Option.bind_none, ← hheld, update_eq_self]
    exact hright.places
  rw [FunctionState.destroyAt, FunctionState.get, hobject, ok_bind]
  cases (hright.fits this object hobject).shaped with
  | null hnull =>
      have hheapOf : object.heapOf = none := by
        unfold heapOf
        rw [hnull]
      have hserial : object.serialOf state.heap = none := by
        unfold serialOf instanceOf
        rw [hnull]
        rfl
      refine ⟨{ state with objects := update state.objects this none }, ?_,
        same_update hright.same (iff_of_true rfl rfl),
        fits_update (fun _ h => by cases h) fun i _ => hright.fits i, hplaces hheapOf, ?_, hright.nodup, hright.destroyed_lt⟩
      · rw [hnull]
        rfl
      · have hheld : (state.objects this).bind (serialOf state.heap) = none := by
          rw [hobject, Option.bind_some, hserial]
        rw [bind_update, Option.bind_none, ← hheld, update_eq_self]
        exact hright.instances
  | inline wrapper hwrapper hstorage hkind =>
      have hheapOf : object.heapOf = none := by
        unfold heapOf
        rw [hwrapper]
      have hinstance : object.instanceOf state.heap = some wrapper := by
        unfold instanceOf
        rw [hwrapper, hstorage]
      have hderef : state.deref object.wrapper = .ok wrapper := by
        rw [hwrapper, FunctionState.deref, hobject, Option.map_some, hstorage]
      refine ⟨_, ?_, hright.lose hobject hinstance state.heap (fun i _ other hsome =>
        ⟨rfl, hright.fits i other hsome⟩) (hplaces hheapOf)⟩
      dsimp only
      rw [if_pos hwrapper, hderef]
      rfl
  | heap address wrapper hwrapper hheap =>
      have hheapOf : object.heapOf = some address := by
        unfold heapOf
        rw [hwrapper]
      have hinstance : object.instanceOf state.heap = some wrapper := by
        unfold instanceOf
        rw [hwrapper]
        exact hheap
      have hheld : (state.objects this).bind heapOf = some address := by
        rw [hobject, Option.bind_some, hheapOf]
      refine ⟨_, ?_, hright.lose hobject hinstance (update state.heap address none)
        (fun i hi other hsome => ⟨instanceOf_update (hother i hi other hsome address hheapOf),
          (hright.fits i other hsome).update (hother i hi other hsome address hheapOf)⟩) ?_⟩
      · have hne : object.wrapper ≠ .storage this := by
          rw [hwrapper]
          exact fun h => by cases h
        have hderef : state.deref object.wrapper = .ok wrapper := by
          rw [hwrapper, FunctionState.deref, hheap]
        dsimp only
        rw [if_neg hne, hderef, hwrapper]
        rfl
      · rw [bind_update, Option.bind_none]
        refine (hright.places.remove hheld).congr fun place => ?_
        by_cases hplace : place = address
        · rw [hplace, update_self]
          exact iff_of_false (fun h => h rfl) fun h => h.2 rfl
        · rw [update_of_ne hplace]
          exact (and_iff_left hplace).symm

theorem put_eq (hvacant : state.objects this = none) : state.put this object =
    .ok { state with objects := update state.objects this (some object) } := by
  rw [FunctionState.put, hvacant]

/-- An object is constructed with a new wrapper. -/
theorem makeWrapper_right (hright : Right types state contents)
    (hvacant : state.objects this = none) {type : τ}
    {functor : Option φ} {address : ℕ} (hkind : types.kind type ≠ .trivial)
    (hfree : types.kind type = .heap → state.heap address = none) {invoker : Invoker τ}
    (hcopies : object.copyable = true → types.copyConstructible type = true)
    (hcalls : ∀ f, content = .given f →
      invoker = .wrapped type ∧ type = types.typeOf f ∧ functor = some f) :
    ∃ state', (state.makeWrapper types this object type functor address).1.put this
        { (state.makeWrapper types this object type functor address).2 with invoker := invoker } =
          .ok state' ∧
      Right types state' (update contents this (some content)) := by
  unfold FunctionState.makeWrapper
  dsimp only
  split_ifs with hinline
  · refine ⟨_, put_eq hvacant, hright.addMade hvacant ⟨fun _ => rfl, fun address h => (by cases h)⟩
      ⟨.inline _ rfl rfl hinline, fun f h => ?_, fun hcopyable wrapper h => ?_⟩ rfl⟩
    · obtain ⟨rfl, rfl, rfl⟩ := hcalls f (Option.some.inj h)
      exact Or.inr ⟨rfl, _, rfl⟩
    · obtain rfl := Option.some.inj h
      exact hcopies hcopyable
  · have hheap : types.kind type = .heap := by
      cases h : types.kind type with
      | trivial => exact absurd h hkind
      | inline => exact absurd h hinline
      | heap => rfl
    have hself : update state.heap address (some ⟨state.made, type, functor⟩) address =
        some ⟨state.made, type, functor⟩ := update_self ..
    refine ⟨_, put_eq hvacant, hright.addMade hvacant
      ⟨fun h => (by cases h), fun address' h => ?_⟩ ⟨.heap address _ rfl hself hheap, fun f h => ?_,
        fun hcopyable wrapper h => ?_⟩ ?_⟩
    · obtain rfl : address = address' := Option.some.inj h
      exact ⟨hfree hheap, _, rfl⟩
    · obtain ⟨rfl, rfl, rfl⟩ := hcalls f (Option.some.inj h)
      exact Or.inr ⟨rfl, _, hself⟩
    · obtain rfl := Option.some.inj (hself.symm.trans h)
      exact hcopies hcopyable
    · exact congrArg (Option.map Wrapper.serial) hself

omit [DecidableEq ι] in
theorem makeWrapper_invoker {type : τ} {functor : Option φ} {address : ℕ} :
    { (state.makeWrapper types this object type functor address).2 with
      invoker := object.invoker } =
      (state.makeWrapper types this object type functor address).2 := by
  unfold FunctionState.makeWrapper
  split_ifs <;> rfl

/-- The constructor from a functor. -/
theorem construct_right (hright : Right types state contents) (hvacant : state.objects this = none)
    {copyable nullable : Bool} {functor : φ} {address : ℕ}
    (hcopies : copyable = true → types.copyConstructible (types.typeOf functor) = true)
    (hfree : types.kind (types.typeOf functor) = .heap → state.heap address = none) :
    ∃ state', state.construct types this copyable nullable functor address = .ok state' ∧
      Right types state' (update contents this (some (.given functor))) := by
  unfold FunctionState.construct
  dsimp only
  split_ifs with htrivial
  · refine ⟨_, put_eq hvacant, hright.addNull hvacant rfl fun f h => ?_⟩
    cases h
    exact Or.inl ⟨rfl, rfl, rfl⟩
  · refine makeWrapper_right hright hvacant htrivial hfree hcopies fun f h => ?_
    cases h
    exact ⟨rfl, rfl, rfl⟩

omit [DecidableEq ι] in
/-- The invoker is that of the wrapper, and the wrapper has the functor. -/
theorem Fits.wrapped {i : ι} {heap : ℕ → Option (Wrapper τ φ)} {content : Option (Content φ)}
    (hfits : Fits types heap i source content) {wrapper : Wrapper τ φ}
    (hinstance : source.instanceOf heap = some wrapper) (f : φ) (h : content = some (.given f)) :
    source.invoker = .wrapped wrapper.type ∧ wrapper.type = types.typeOf f ∧
      wrapper.functor = some f := by
  rcases hfits.calls f h with ⟨hnull, -⟩ | ⟨hinvoker, serial, hserial⟩
  · unfold instanceOf at hinstance
    rw [hnull] at hinstance
    cases hinstance
  · obtain rfl := Option.some.inj (hinstance.symm.trans hserial)
    exact ⟨hinvoker, rfl, rfl⟩

omit [DecidableEq ι] in
/-- `m_wrapper` leads to the object's own wrapper. -/
theorem deref_instanceOf {i : ι} {content : Option (Content φ)}
    (hsource : state.objects i = some source) (hfits : Fits types state.heap i source content)
    (hne : source.wrapper ≠ .null) : ∃ wrapper, state.deref source.wrapper = .ok wrapper ∧
      source.instanceOf state.heap = some wrapper ∧ types.kind wrapper.type ≠ .trivial ∧
      (source.wrapper = .storage i →
        source.storage = .wrapper wrapper ∧ types.kind wrapper.type = .inline) := by
  cases hfits.shaped with
  | null hnull => exact absurd hnull hne
  | inline wrapper hwrapper hstorage hkind =>
      refine ⟨wrapper, ?_, ?_, by rw [hkind]; decide, fun _ => ⟨hstorage, hkind⟩⟩
      · rw [hwrapper, FunctionState.deref, hsource, Option.map_some, hstorage]
      · unfold instanceOf
        rw [hwrapper, hstorage]
  | heap address wrapper hwrapper hheap hkind =>
      refine ⟨wrapper, ?_, ?_, by rw [hkind]; decide, fun h => ?_⟩
      · rw [hwrapper, FunctionState.deref, hheap]
      · unfold instanceOf
        rw [hwrapper]
        exact hheap
      · rw [hwrapper] at h
        cases h

omit [DecidableEq ι] in
/-- A trivial functor goes along with the storage. -/
theorem Fits.direct {i : ι} {heap : ℕ → Option (Wrapper τ φ)} {content : Option (Content φ)}
    (hfits : Fits types heap i source content) (hnull : source.wrapper = .null)
    (hwrapper : object.wrapper = .null) (hinvoker : object.invoker = source.invoker)
    (hstorage : object.storage = source.storage) (f : φ) (h : content = some (.given f)) :
    Calls types heap object f := by
  refine Calls.congr (hfits.calls f h) (fun _ => hwrapper) (fun _ => hstorage) hinvoker ?_
  unfold instanceOf
  rw [hnull, hwrapper]

/-- The copy constructor. -/
theorem copyTo_right (hright : Right types state contents) (hvacant : state.objects this = none)
    (hother : state.objects other = some source) (hcopyable : source.copyable = true)
    {address : ℕ} (hfree : state.heap address = none) :
    ∃ state', state.copyTo types this other address = .ok state' ∧
      Right types state' (update contents this (contents other)) := by
  have hfits := hright.fits other source hother
  obtain ⟨content, hcontent⟩ := Option.ne_none_iff_exists'.mp
    (mt (hright.same other).mpr (by rw [hother]; exact Option.some_ne_none _))
  rw [hcontent] at hfits ⊢
  rw [FunctionState.copyTo, FunctionState.get, hother, ok_bind]
  dsimp only
  split_ifs with hne
  · obtain ⟨wrapper, hderef, hinstance, hkind, -⟩ := deref_instanceOf hother hfits hne
    have hcopies := hfits.copies hcopyable wrapper hinstance
    rw [hderef, ok_bind, if_pos hcopies, ← makeWrapper_invoker]
    exact makeWrapper_right hright hvacant hkind (fun _ => hfree) (fun _ => hcopies)
      fun f h => hfits.wrapped hinstance f (congrArg some h)
  · rw [ne_eq, not_not] at hne
    refine ⟨_, put_eq hvacant, hright.addNull hvacant rfl fun f h => ?_⟩
    refine hfits.direct hne ?_ ?_ ?_ f (congrArg some h) <;> rfl

/-- A pointer to a wrapper in the heap is taken over. -/
theorem Right.transfer (hright : Right types state contents) (hvacant : state.objects this = none)
    (hother : state.objects other = some source) {address : ℕ}
    (hwrapper : source.wrapper = .heap address) (hobject : object.wrapper = source.wrapper)
    (hinvoker : object.invoker = source.invoker) (hcopyable : object.copyable = source.copyable) :
    Right types { state with
      objects := update
        (update state.objects other (some { source with wrapper := .null })) this
        (some object) }
      (update (update contents other (some .movedFrom)) this
        (contents other)) := by
  have hne : other ≠ this := by
    rintro rfl
    rw [hother] at hvacant
    cases hvacant
  have hrelocated : Right types { state with
      objects := update (update state.objects this (some object)) other none }
      fun i => contents (Equiv.swap this other i) := by
    refine hright.relocate (Equiv.swap this other) fun i => ?_
    by_cases hi : i = other
    · subst hi
      exact Or.inl ⟨update_self .., by rwa [Equiv.swap_apply_right]⟩
    · rw [update_of_ne hi]
      by_cases hi' : i = this
      · subst hi'
        refine Or.inr ⟨source, object, update_self .., by rwa [Equiv.swap_apply_left], ?_,
          fun h => (hright.fits other source hother).copies (hcopyable.symm.trans h)⟩
        refine ⟨?_, hinvoker, fun h => absurd hwrapper (h address)⟩
        rw [hobject, hwrapper]
        rfl
      · rw [update_of_ne hi', Equiv.swap_apply_of_ne_of_ne hi' hi]
        exact hright.stays i
  have hcontents : update (fun i => contents (Equiv.swap this other i)) other
      (some .movedFrom) =
      update (update contents other (some .movedFrom)) this (contents other) := by
    rw [update_comm hne]
    funext i
    by_cases hi : i = other
    · rw [hi, update_self, update_self]
    · rw [update_of_ne hi, update_of_ne hi]
      by_cases hi' : i = this
      · rw [hi', update_self, Equiv.swap_apply_left]
      · rw [update_of_ne hi', Equiv.swap_apply_of_ne_of_ne hi' hi]
  have hadd := @Right.addNull ι τ φ _ types _ _ other { source with wrapper := .null } .movedFrom
    hrelocated (update_self ..) rfl fun functor h => by cases h
  rw [hcontents] at hadd
  dsimp only at hadd
  rw [update_idem, update_comm hne.symm] at hadd
  exact hadd

/-- The move constructor. -/
theorem moveTo_right (hright : Right types state contents) (hvacant : state.objects this = none)
    (hother : state.objects other ≠ none) :
    ∃ state', state.moveTo types this other = .ok state' ∧ Right types state'
      (update (update contents other (some .movedFrom)) this
        (contents other)) := by
  obtain ⟨source, hsource⟩ := Option.ne_none_iff_exists'.mp hother
  have hfits := hright.fits other source hsource
  have hgiven : contents other ≠ none := mt (hright.same other).mpr hother
  obtain ⟨content, hcontent⟩ := Option.ne_none_iff_exists'.mp hgiven
  have hne : this ≠ other := by
    rintro rfl
    exact hother hvacant
  rw [FunctionState.moveTo, FunctionState.get, hsource, ok_bind]
  dsimp only
  split_ifs with hwrapped hinline
  · obtain ⟨wrapper, hderef, hinstance, -, hstorage⟩ := deref_instanceOf hsource hfits hwrapped
    obtain ⟨hstorage, hkind⟩ := hstorage hinline
    rw [hderef, ok_bind, if_pos hkind]
    have hvacant' : update state.objects other (some { source with
        storage := .wrapper { wrapper with functor := none } }) this = none := by
      rwa [update_of_ne hne]
    have hunset := hright.unset hsource hinline hstorage
    rw [hcontent] at hfits ⊢
    refine ⟨_, put_eq hvacant', hunset.addMade hvacant'
      ⟨fun _ => rfl, fun address h => by cases h⟩
      ⟨.inline _ rfl rfl hkind, fun f h => ?_, fun hcopyable wrapper' h => ?_⟩ rfl⟩
    · obtain ⟨hinvoker, htype, hfunctor⟩ := hfits.wrapped hinstance f h
      refine Or.inr ⟨by rw [← htype]; exact hinvoker, state.made, ?_⟩
      rw [← htype, ← hfunctor]
      rfl
    · obtain rfl := Option.some.inj h
      exact hfits.copies hcopyable wrapper hinstance
  · cases hfits.shaped with
    | null hnull => exact absurd hnull hwrapped
    | inline _ hstorage => exact absurd hstorage hinline
    | heap address wrapper hheap =>
        refine ⟨_, put_eq ?_, hright.transfer hvacant hsource hheap rfl rfl rfl⟩
        dsimp only
        rwa [update_of_ne hne]
  · rw [ne_eq, not_not] at hwrapped
    have hmoved := hright.movedFrom hgiven
    rw [hcontent] at hfits ⊢
    refine ⟨_, put_eq hvacant, hmoved.addNull hvacant rfl fun f h => ?_⟩
    refine hfits.direct hwrapped ?_ ?_ ?_ f (congrArg some h) <;> rfl

/-- The conversion from another class, which leaves that object empty. -/
theorem convert_right (hright : Right types state contents) (hvacant : state.objects this = none)
    (hother : state.objects other = some source) {copyable nullable : Bool}
    (hconverts : Converts copyable nullable source.copyable source.nullable) :
    ∃ state', state.step types (.convert this copyable nullable other) = .ok state' ∧
      Right types state'
        (update (update contents other (some .empty)) this
          (contents other)) := by
  have hne : other ≠ this := by
    rintro rfl
    rw [hother] at hvacant
    cases hvacant
  have hcopies : copyable = true → source.copyable = true := by
    rintro rfl
    rcases hconverts with ⟨-, h, -⟩ | ⟨-, h, -⟩
    · cases h
    · exact h
  have hadd := @Right.addNull ι τ φ _ types state contents this
    { copyable := copyable, nullable := nullable } .empty hright hvacant rfl fun f h => by cases h
  have hother' : update state.objects this
      (some { copyable := copyable, nullable := nullable }) other = some source := by
    rwa [update_of_ne hne]
  obtain ⟨state', hswap, hright'⟩ := doSwap_right hadd (update_self ..) hother'
    (fun h => (hright.fits other source hother).copies (hcopies h)) (fun _ wrapper h => by cases h)
  refine ⟨state', ?_, ?_⟩
  · rw [FunctionState.step, put_eq hvacant, ok_bind, hswap]
  · rw [update_self, update_of_ne hne, update_idem,
      update_comm hne.symm] at hright'
    exact hright'

theorem swap_right (hright : Right types state contents) (hclass : SameClass state this other) :
    ∃ state', state.doSwap this other = .ok state' ∧ Right types state'
      (update (update contents this (contents other)) other
        (contents this)) := by
  obtain ⟨object, source, hthis, hother, hcopyable, -⟩ := hclass
  exact doSwap_right hright hthis hother
    (fun h => (hright.fits other source hother).copies (hcopyable.symm.trans h))
    fun h => (hright.fits this object hthis).copies (hcopyable.trans h)

/-- **An operation** that is allowed keeps the objects right. -/
theorem step_right {op : FunctionOp ι φ} (hright : Right types state contents)
    (hallows : Allows types state op) :
    ∃ state', state.step types op = .ok state' ∧
      Right types state' (contentsAfter contents op) := by
  cases op with
  | default this copyable nullable =>
      exact ⟨_, put_eq hallows, hright.addNull hallows rfl fun f h => by cases h⟩
  | construct this copyable nullable functor address =>
      exact construct_right hright hallows.1 hallows.2.1 hallows.2.2
  | convert this copyable nullable other =>
      obtain ⟨hvacant, source, hother, hconverts⟩ := hallows
      exact convert_right hright hvacant hother hconverts
  | copy this other address =>
      obtain ⟨hvacant, ⟨source, hother, hcopyable⟩, hfree⟩ := hallows
      exact copyTo_right hright hvacant hother hcopyable hfree
  | move this other => exact moveTo_right hright hallows.1 hallows.2
  | assign this other =>
      obtain ⟨middle, hswap, hright'⟩ := swap_right hright hallows
      have hgiven : contents this ≠ none := by
        obtain ⟨object, -, hthis, -⟩ := hallows
        exact mt (hright.same this).mpr (by rw [hthis]; exact Option.some_ne_none _)
      obtain ⟨state', hdestroy, hright''⟩ := @destroyAt_right ι τ φ _ types middle _ other hright'
        (mt (hright'.same other).mp (by rwa [update_self]))
      refine ⟨state', ?_, ?_⟩
      · rw [FunctionState.step, hswap, ok_bind, hdestroy]
      · rwa [update_idem] at hright''
  | swap this other => exact swap_right hright hallows
  | destroy this => exact destroyAt_right hright hallows

/-! ## The runs -/

omit [DecidableEq ι] in
theorem right_initial :
    Right types (FunctionState.initial : FunctionState ι τ φ) fun _ => none where
  same _ := iff_of_true rfl rfl
  fits _ _ h := by cases h
  places := SoleOwners.none.congr fun _ => ⟨fun h => h rfl, False.elim⟩
  instances := SoleOwners.none.congr fun serial => ⟨fun h => Nat.not_lt_zero serial h.1, False.elim⟩
  nodup := List.nodup_nil
  destroyed_lt _ h := by cases h

/-- **The run lemma.** -/
theorem run_keeps {ops : List (FunctionOp ι φ)} (hright : Right types state contents)
    (hallows : RunAllows types state ops) :
    ∃ state', state.run types ops = .ok state' ∧
      Right types state' (ops.foldl contentsAfter contents) := by
  induction ops generalizing state contents with
  | nil => exact ⟨state, rfl, hright⟩
  | cons op ops ih =>
      obtain ⟨middle, hstep, hright'⟩ := step_right hright hallows.1
      obtain ⟨state', hrun, hright''⟩ := ih hright' (hallows.2 middle hstep)
      refine ⟨state', ?_, hright''⟩
      rw [FunctionState.run, hstep, ok_bind, hrun]

theorem RunAllows.cons {state' : FunctionState ι τ φ} {op : FunctionOp ι φ}
    {ops : List (FunctionOp ι φ)} (hallows : Allows types state op)
    (hstep : state.step types op = .ok state') (hrest : RunAllows types state' ops) :
    RunAllows types state (op :: ops) := by
  refine ⟨hallows, fun state'' h => ?_⟩
  rw [hstep] at h
  cases h
  exact hrest

/-! ## What the invariant gives -/

/-- What is promised of function objects: which there are, where `m_wrapper` points, what is called,
and that no instance of a functor is destroyed twice or lost. -/
structure Sound [DecidableEq τ] (types : FunctorTypes τ φ) (state : FunctionState ι τ φ)
    (contents : ι → Option (Content φ)) : Prop where
  same : ∀ i, state.objects i = none ↔ contents i = none
  pointers : ∀ i object, state.objects i = some object →
    object.wrapper = .null ∨ object.wrapper = .storage i ∨
      ∃ address, object.wrapper = .heap address ∧ state.heap address ≠ none ∧
        ∀ j other, state.objects j = some other → other.wrapper = .heap address → j = i
  calls : ∀ i functor, contents i = some (.given functor) → state.invoke types i = .ok functor
  nodup : state.destroyed.Nodup
  destroyed_lt : ∀ serial ∈ state.destroyed, serial < state.made
  lives : ∀ serial < state.made, serial ∉ state.destroyed ↔
    ∃! i, (state.objects i).bind (serialOf state.heap) = some serial
  all : (∀ i, state.objects i = none) → state.destroyed.Perm (List.range state.made)

/-- **A call** goes to the functor that was given. -/
theorem Right.invoke_eq [DecidableEq τ] (hright : Right types state contents) {i : ι} {functor : φ}
    (hgiven : contents i = some (.given functor)) : state.invoke types i = .ok functor := by
  obtain ⟨object, hobject⟩ := Option.ne_none_iff_exists'.mp
    (mt (hright.same i).mp (by rw [hgiven]; exact Option.some_ne_none _))
  have hfits := hright.fits i object hobject
  rw [FunctionState.invoke, FunctionState.get, hobject, ok_bind]
  rcases hfits.calls functor hgiven with ⟨hnull, hdirect, htrivial⟩ | ⟨hwrapped, serial, hserial⟩
  · simp only [hdirect, hnull, htrivial, ne_eq, not_true_eq_false, if_false, if_true]
  · have hne : object.wrapper ≠ .null := by
      intro hnull
      unfold instanceOf at hserial
      rw [hnull] at hserial
      cases hserial
    obtain ⟨wrapper, hderef, hinstance, -, -⟩ := deref_instanceOf hobject hfits hne
    obtain rfl := Option.some.inj (hinstance.symm.trans hserial)
    simp only [hwrapped, if_pos hne, hderef, ok_bind, if_true]

omit [DecidableEq ι] in
/-- No pointer leads to another object or dangles. -/
theorem Right.pointers (hright : Right types state contents) {i : ι}
    (hobject : state.objects i = some object) :
    object.wrapper = .null ∨ object.wrapper = .storage i ∨
      ∃ address, object.wrapper = .heap address ∧ state.heap address ≠ none ∧
        ∀ j other, state.objects j = some other → other.wrapper = .heap address → j = i := by
  cases (hright.fits i object hobject).shaped with
  | null hnull => exact Or.inl hnull
  | inline _ hwrapper => exact Or.inr (Or.inl hwrapper)
  | heap address wrapper hwrapper hheap =>
      refine Or.inr (Or.inr ⟨address, hwrapper, by rw [hheap]; exact Option.some_ne_none _,
        fun j other hother hwrapper' => hright.places.unique (k := address) ?_ ?_⟩)
      · rw [hother, Option.bind_some, heapOf, hwrapper']
      · rw [hobject, Option.bind_some, heapOf, hwrapper]

theorem Right.sound [DecidableEq τ] (hright : Right types state contents) :
    Sound types state contents where
  same := hright.same
  pointers _ _ hobject := hright.pointers hobject
  calls _ _ hgiven := hright.invoke_eq hgiven
  nodup := hright.nodup
  destroyed_lt := hright.destroyed_lt
  lives serial hlt := by
    constructor
    · intro hlive
      obtain ⟨i, hi⟩ := hright.instances.owned ⟨hlt, hlive⟩
      exact ⟨i, hi, fun j hj => hright.instances.unique hj hi⟩
    · rintro ⟨i, hi, -⟩
      exact (hright.instances.live_of_held hi).2
  all hnone := by
    refine (List.perm_ext_iff_of_nodup hright.nodup List.nodup_range).mpr fun serial => ?_
    rw [List.mem_range]
    refine ⟨hright.destroyed_lt serial, fun hlt => ?_⟩
    by_contra hlive
    obtain ⟨i, hi⟩ := hright.instances.owned ⟨hlt, hlive⟩
    rw [hnone i] at hi
    cases hi

/-- **`bek::function`**: whatever is done with function objects, each pointer is to the object's own
wrapper, each object calls what it was given, and each instance of a functor is destroyed once. -/
theorem functions_right [DecidableEq τ] (types : FunctorTypes τ φ) (ops : List (FunctionOp ι φ))
    (hallows : RunAllows types (FunctionState.initial : FunctionState ι τ φ) ops) :
    ∃ state, (FunctionState.initial : FunctionState ι τ φ).run types ops = .ok state ∧
      Sound types state (ops.foldl contentsAfter fun _ => none) := by
  obtain ⟨state, hrun, hright⟩ := run_keeps right_initial hallows
  exact ⟨state, hrun, hright.sound⟩

/-- Functors that are told apart by their storage. -/
def kinds : FunctorTypes StorageKind StorageKind := ⟨id, id, fun _ => true⟩

/-- A functor in the storage and one in the heap change places, and a third is converted. -/
def exchange : List (FunctionOp ℕ StorageKind) :=
  [.construct 0 false false .trivial 0, .construct 1 true false .inline 0,
    .construct 2 true false .heap 7, .move 3 1, .copy 4 2 8, .swap 3 4, .convert 5 false true 0,
    .assign 2 3, .destroy 4]

theorem functions_right_exchange :
    ∃ state, (FunctionState.initial : FunctionState ℕ StorageKind StorageKind).run kinds exchange =
      .ok state ∧ Sound kinds state (exchange.foldl contentsAfter fun _ => none) := by
  refine functions_right kinds exchange (.cons ⟨rfl, fun _ => rfl, fun _ => rfl⟩ rfl
    (.cons ⟨rfl, fun _ => rfl, fun _ => rfl⟩ rfl (.cons ⟨rfl, fun _ => rfl, fun _ => rfl⟩ rfl
    (.cons ⟨rfl, ?_⟩ rfl (.cons ⟨rfl, ⟨_, rfl, rfl⟩, rfl⟩ rfl
    (.cons ⟨_, _, rfl, rfl, rfl, rfl⟩ rfl (.cons ⟨rfl, _, rfl, ?_⟩ rfl
    (.cons ⟨_, _, rfl, rfl, rfl, rfl⟩ rfl (.cons ?_ rfl trivial)))))))))
  · exact Option.some_ne_none _
  · exact Or.inl ⟨rfl, rfl, Or.inl rfl⟩
  · exact Option.some_ne_none _

end Right

end BekOS.BekFunction
