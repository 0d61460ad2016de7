import BekOS.Library.StringForms
import Mathlib.Data.List.Pairwise
import Mathlib.Data.List.TakeWhile

/-!
# Runs of `bek::string`

Any number of strings, and any sequence of constructions, copies, moves, assignments, swaps and
destructions.  A parameter that is passed by value is a string of its own, which the caller
constructs and destroys.
-/

namespace BekOS.StringMemory

open StringBytes Function

/-- The heap, and the strings at their places. -/
structure StringState (ι : Type) where
  heap : StringHeap
  strings : ι → Option StringBytes

/-- What a program does with strings.  An operation that allocates says what `mem::allocate`
returns, and an assignment where its parameter is. -/
inductive StringOp (ι : Type) where
  | empty (this : ι)
  | cString (this : ι) (region : AllocatedRegion) (source : List Byte)
  | view (this : ι) (region : AllocatedRegion) (str : List Byte)
  | repeated (this : ι) (region : AllocatedRegion) (length : ℕ) (init : Byte)
  | copy (this s : ι) (region : AllocatedRegion)
  | move (this s : ι)
  | assignCopy (this param s : ι) (region : AllocatedRegion)
  | assignMove (this param s : ι)
  | swap (this s : ι)
  | destroy (this : ι)

namespace StringState

section Steps

variable {ι : Type} [DecidableEq ι]

/-- The string at a place. -/
def get (state : StringState ι) (i : ι) : Except StringFault StringBytes :=
  match state.strings i with
  | some bytes => .ok bytes
  | none => .error .noObject

/-- A string that has been constructed gets its place. -/
def construct (state : StringState ι) (this : ι)
    (result : Except StringFault (StringHeap × StringBytes)) :
    Except StringFault (StringState ι) := do
  match state.strings this with
  | some _ => .error .occupied
  | none => do
      let (heap, bytes) ← result
      return ⟨heap, update state.strings this (some bytes)⟩

/-- `swap` -/
def swap (state : StringState ι) (this s : ι) : Except StringFault (StringState ι) := do
  let tmp ← state.get this
  let bytes ← state.get s
  return { state with
    strings := update (update state.strings this (some bytes)) s (some tmp) }

/-- `~string` at a place. -/
def destroyAt (state : StringState ι) (this : ι) : Except StringFault (StringState ι) := do
  let bytes ← state.get this
  let heap ← destroy state.heap bytes
  return ⟨heap, update state.strings this none⟩

/-- `string(const string& s)` at a place. -/
def copyTo (state : StringState ι) (this s : ι) (region : AllocatedRegion) :
    Except StringFault (StringState ι) := do
  let bytes ← state.get s
  state.construct this (ofCopy state.heap region bytes)

/-- `string(string&& s)` at a place. -/
def moveTo (state : StringState ι) (this s : ι) : Except StringFault (StringState ι) := do
  let state ← state.construct this (.ok (state.heap, zero))
  state.swap this s

/-- `operator=(string s)`, with the end of its parameter. -/
def assign (state : StringState ι) (this param : ι) : Except StringFault (StringState ι) := do
  let state ← state.swap this param
  state.destroyAt param

def step (state : StringState ι) : StringOp ι → Except StringFault (StringState ι)
  | .empty this => state.construct this (.ok (state.heap, zero))
  | .cString this region source => state.construct this (ofCString state.heap region source)
  | .view this region str => state.construct this (ofView state.heap region str)
  | .repeated this region length init =>
      state.construct this (ofRepeated state.heap region length init)
  | .copy this s region => state.copyTo this s region
  | .move this s => state.moveTo this s
  | .assignCopy this param s region => do
      let state ← state.copyTo param s region
      state.assign this param
  | .assignMove this param s => do
      let state ← state.moveTo param s
      state.assign this param
  | .swap this s => state.swap this s
  | .destroy this => state.destroyAt this

def run (state : StringState ι) : List (StringOp ι) → Except StringFault (StringState ι)
  | [] => .ok state
  | op :: ops => do
      let state ← state.step op
      run state ops

/-- No string. -/
def initial (memory : Memory Byte) : StringState ι := ⟨{ memory := memory }, fun _ => none⟩

end Steps

end StringState

/-! ## What strings are for -/

section Texts

variable {ι : Type} [DecidableEq ι]

/-- The texts that the strings have after an operation. -/
def textsAfter (texts : ι → Option (List Byte)) : StringOp ι → ι → Option (List Byte)
  | .empty this => update texts this (some [])
  | .cString this _ source => update texts this (some (source.takeWhile (· ≠ 0)))
  | .view this _ str => update texts this (some str)
  | .repeated this _ length init => update texts this (some (List.replicate length init))
  | .copy this s _ => update texts this (texts s)
  | .move this s => update (update texts s (some [])) this (texts s)
  | .assignCopy this _ s _ => update texts this (texts s)
  | .assignMove this _ s => update (update texts s (some [])) this (texts s)
  | .swap this s => update (update texts this (texts s)) s (texts this)
  | .destroy this => update texts this none

/-- What a copy of a string needs. -/
def CopyAllowed (state : StringState ι) (s : ι) (region : AllocatedRegion) : Prop :=
  ∃ bytes, state.strings s = some bytes ∧ (bytes.isLong = true →
    bytes.size + 1 ≤ maxMemcopy ∧
      Grants state.heap bytes.getLongCapacity region)

/-- What a program and the allocator see to: a string is constructed where there is none and used
where there is one, a text is shorter than 2^30, and what is copied is no longer than `memcopy`
takes. -/
def Allows (state : StringState ι) : StringOp ι → Prop
  | .empty this => state.strings this = none
  | .cString this region source => state.strings this = none ∧ 0 ∈ source ∧
      (source.takeWhile (· ≠ 0)).length < 2 ^ 30 ∧ (14 < (source.takeWhile (· ≠ 0)).length →
        (source.takeWhile (· ≠ 0)).length + 1 ≤ maxMemcopy ∧
          Grants state.heap ((source.takeWhile (· ≠ 0)).length + 1) region)
  | .view this region str => state.strings this = none ∧ str.length < 2 ^ 30 ∧
      (14 < str.length → str.length ≤ maxMemcopy ∧
        Grants state.heap (str.length + 1) region)
  | .repeated this region length _ => state.strings this = none ∧ length < 2 ^ 30 ∧
      (14 < length → Grants state.heap (length + 1) region)
  | .copy this s region => state.strings this = none ∧ CopyAllowed state s region
  | .move this s => state.strings this = none ∧ state.strings s ≠ none
  | .assignCopy this param s region => state.strings this ≠ none ∧ state.strings param = none ∧
      CopyAllowed state s region
  | .assignMove this param s => state.strings this ≠ none ∧ state.strings param = none ∧
      state.strings s ≠ none
  | .swap this s => state.strings this ≠ none ∧ state.strings s ≠ none
  | .destroy this => state.strings this ≠ none

/-- Each operation of a run is allowed where it is done. -/
def RunAllows (state : StringState ι) : List (StringOp ι) → Prop
  | [] => True
  | op :: ops => Allows state op ∧ ∀ state', state.step op = .ok state' → RunAllows state' ops

/-- The buffer that a string holds. -/
def held (bytes : StringBytes) : Option ℕ := if bytes.isLong then some bytes.longData else none

/-- The strings are right: each has its text, long texts are in buffers that no other string has,
and the buffers that no string has any more have been freed, once, with a size between the one that
was asked for and the one that was granted. -/
structure Right (state : StringState ι) (texts : ι → Option (List Byte)) : Prop where
  holds : ∀ i bytes, state.strings i = some bytes →
    ∃ text, texts i = some text ∧ text.length < 2 ^ 30 ∧ HoldsText state.heap bytes text
  vacant : ∀ i, state.strings i = none → texts i = none
  owners : SoleOwners (fun i => (state.strings i).bind held)
    fun pointer => ∃ buffer ∈ state.heap.live, buffer.pointer = pointer
  apart : state.heap.live.Pairwise Buffer.Apart
  proper : ∀ buffer ∈ state.heap.live, buffer.pointer ≠ 0 ∧ 0 < buffer.granted
  once : state.heap.allocated.Perm (state.heap.live ++ state.heap.freed.map Prod.fst)
  sizes : ∀ freed ∈ state.heap.freed, freed.1.requested ≤ freed.2 ∧ freed.2 ≤ freed.1.granted

end Texts

/-! ## One operation -/

section Heap

variable {heap heap' : StringHeap} {bytes : StringBytes} {text : List Byte} {buffer other : Buffer}

theorem Buffer.Apart.symm (h : buffer.Apart other) : other.Apart buffer := Or.symm h

instance : Std.Symm Buffer.Apart := ⟨fun _ _ h => h.symm⟩

theorem Buffer.Apart.pointer_ne (h : buffer.Apart other) (hbuffer : 0 < buffer.granted)
    (hother : 0 < other.granted) : buffer.pointer ≠ other.pointer := by
  unfold Buffer.Apart at h
  omega

theorem eq_of_pointer_eq {live : List Buffer} (hapart : live.Pairwise Buffer.Apart)
    (hproper : ∀ buffer ∈ live, buffer.pointer ≠ 0 ∧ 0 < buffer.granted) (hbuffer : buffer ∈ live)
    (hother : other ∈ live) (h : buffer.pointer = other.pointer) : buffer = other := by
  by_contra hne
  have := hapart.forall hbuffer hother hne
  exact this.pointer_ne (hproper _ hbuffer).2 (hproper _ hother).2 h

theorem nodup_of_apart {live : List Buffer} (hapart : live.Pairwise Buffer.Apart)
    (hproper : ∀ buffer ∈ live, buffer.pointer ≠ 0 ∧ 0 < buffer.granted) : live.Nodup := by
  refine hapart.imp_of_mem fun hbuffer hother h => ?_
  rintro rfl
  exact h.pointer_ne (hproper _ hbuffer).2 (hproper _ hbuffer).2 rfl

theorem HoldsText.keep (h : HoldsText heap bytes text)
    (hkeep : bytes.isLong = true → ∀ buffer ∈ heap.live, buffer.pointer = bytes.longData →
      text.length + 1 ≤ buffer.granted → buffer ∈ heap'.live ∧
        slice heap'.memory buffer.pointer (text.length + 1) =
          slice heap.memory buffer.pointer (text.length + 1)) :
    HoldsText heap' bytes text := by
  refine ⟨h.isLong_iff, h.size_eq, ?_, fun hlong => ?_⟩
  · rw [← h.data_eq, dataBytes, dataBytes]
    split_ifs with hlong
    · obtain ⟨buffer, hbuffer, hpointer, -, hgranted, hroom⟩ := h.buffer hlong
      rw [← hpointer]
      exact (hkeep hlong buffer hbuffer hpointer (hroom.trans hgranted)).2
    · rfl
  · obtain ⟨buffer, hbuffer, hpointer, hrequested, hgranted, hroom⟩ := h.buffer hlong
    exact ⟨buffer, (hkeep hlong buffer hbuffer hpointer (hroom.trans hgranted)).1, hpointer,
      hrequested, hgranted, hroom⟩

end Heap

section Right

variable {ι : Type} [DecidableEq ι] {state : StringState ι} {texts : ι → Option (List Byte)}
  {this s : ι} {bytes : StringBytes} {text : List Byte}

theorem held_of_isLong (h : bytes.isLong = true) : held bytes = some bytes.longData := if_pos h

theorem held_of_not_isLong (h : bytes.isLong = false) : held bytes = none :=
  if_neg (by rw [h]; decide)

theorem Right.holds_update (hright : Right state texts) {heap' : StringHeap}
    {value : Option StringBytes} {value' : Option (List Byte)}
    (hvalue : ∀ bytes, value = some bytes → ∃ text, value' = some text ∧ text.length < 2 ^ 30 ∧
      HoldsText heap' bytes text)
    (hkeep : ∀ i ≠ this, ∀ bytes, state.strings i = some bytes →
      ∀ text, HoldsText state.heap bytes text → HoldsText heap' bytes text) (i : ι)
    (bytes : StringBytes) (hi : update state.strings this value i = some bytes) :
    ∃ text, update texts this value' i = some text ∧ text.length < 2 ^ 30 ∧
      HoldsText heap' bytes text := by
  by_cases hthis : i = this
  · subst hthis
    rw [update_self] at hi ⊢
    exact hvalue bytes hi
  · rw [update_of_ne hthis] at hi ⊢
    obtain ⟨text, htext, hlt, hold⟩ := hright.holds i bytes hi
    exact ⟨text, htext, hlt, hkeep i hthis bytes hi text hold⟩

theorem Right.vacant_update (hright : Right state texts) {value : Option StringBytes}
    {value' : Option (List Byte)} (hvalue : value = none → value' = none) (i : ι)
    (hi : update state.strings this value i = none) :
    update texts this value' i = none := by
  by_cases hthis : i = this
  · subst hthis
    rw [update_self] at hi ⊢
    exact hvalue hi
  · rw [update_of_ne hthis] at hi ⊢
    exact hright.vacant i hi

/-- A string is constructed. -/
theorem Right.construct (hright : Right state texts) (hvacant : state.strings this = none)
    {heap' : StringHeap} (hconstructed : Constructed state.heap text heap' bytes)
    (hlt : text.length < 2 ^ 30) :
    Right ⟨heap', update state.strings this (some bytes)⟩
      (update texts this (some text)) := by
  have hnone : (state.strings this).bind held = none := by rw [hvacant, Option.bind_none]
  have hvalue : ∀ bytes', some bytes = some bytes' → ∃ text', some text = some text' ∧
      text'.length < 2 ^ 30 ∧ HoldsText heap' bytes' text' := by
    rintro _ ⟨⟩
    exact ⟨text, rfl, hlt, hconstructed.holds⟩
  have hvacant' := @Right.vacant_update ι _ state texts this hright (some bytes) (some text)
    fun h => by cases h
  cases hlong : bytes.isLong with
  | false =>
      have hheap := hconstructed.short hlong
      subst hheap
      refine ⟨hright.holds_update hvalue fun _ _ _ _ _ h => h, hvacant', ?_, hright.apart,
        hright.proper, hright.once, hright.sizes⟩
      rw [bind_update, Option.bind_some, held_of_not_isLong hlong, ← hnone,
        update_eq_self]
      exact hright.owners
  | true =>
      obtain ⟨buffer, hlive, hallocated, hpointer, hnonzero, hpos, hapart, hmemory⟩ :=
        hconstructed.long hlong
      have hfresh : ¬ ∃ other ∈ state.heap.live, other.pointer = bytes.longData := by
        rintro ⟨other, hother, heq⟩
        rw [← hpointer] at heq
        exact (hapart other hother).pointer_ne (hright.proper other hother).2 hpos heq
      refine ⟨hright.holds_update hvalue fun _ _ _ _ _ hold => ?_, hvacant', ?_, ?_, ?_, ?_, ?_⟩
      · refine hold.keep fun _ other hother _ hroom => ⟨?_, slice_congr fun j hj => ?_⟩
        · rw [hlive]
          exact List.mem_cons_of_mem _ hother
        · have := hapart other hother
          unfold Buffer.Apart at this
          exact hmemory _ (by omega)
      · rw [bind_update, Option.bind_some, held_of_isLong hlong]
        refine (hright.owners.add hnone hfresh).congr fun pointer => ?_
        simp only [hlive, List.mem_cons, exists_eq_or_imp, hpointer]
        exact or_congr_left eq_comm
      · rw [hlive]
        exact List.pairwise_cons.mpr ⟨fun other hother => (hapart other hother).symm, hright.apart⟩
      · rw [hlive]
        exact List.forall_mem_cons.mpr ⟨⟨hnonzero, hpos⟩, hright.proper⟩
      · rw [hlive, hallocated, hconstructed.freed, List.cons_append]
        exact hright.once.cons buffer
      · rw [hconstructed.freed]
        exact hright.sizes

omit [DecidableEq ι] in
theorem Right.comp (hright : Right state texts) (e : ι ≃ ι) :
    Right ⟨state.heap, fun i => state.strings (e i)⟩ fun i => texts (e i) :=
  ⟨fun i => hright.holds (e i), fun i => hright.vacant (e i), hright.owners.comp e, hright.apart,
    hright.proper, hright.once, hright.sizes⟩

/-- A string is destroyed, and its buffer freed. -/
theorem Right.destroy (hright : Right state texts) (hthis : state.strings this = some bytes) :
    ∃ heap', StringMemory.destroy state.heap bytes = .ok heap' ∧
      Right ⟨heap', update state.strings this none⟩ (update texts this none) := by
  have hheld : (state.strings this).bind held = held bytes := by rw [hthis, Option.bind_some]
  have hvacant := @Right.vacant_update ι _ state texts this hright none none fun _ => rfl
  cases hlong : bytes.isLong with
  | false =>
      refine ⟨state.heap, if_neg (by rw [hlong]; decide),
        hright.holds_update (fun _ h => by cases h) fun _ _ _ _ _ h => h, hvacant, ?_,
        hright.apart, hright.proper, hright.once, hright.sizes⟩
      rw [held_of_not_isLong hlong] at hheld
      rw [bind_update, Option.bind_none, ← hheld, update_eq_self]
      exact hright.owners
  | true =>
      obtain ⟨text, -, -, hold⟩ := hright.holds this bytes hthis
      obtain ⟨buffer, hbuffer, hpointer, hrequested, hgranted, -⟩ := hold.buffer hlong
      rw [held_of_isLong hlong] at hheld
      have hunique : ∀ other ∈ state.heap.live, other.pointer = bytes.longData → other = buffer :=
        fun other hother h =>
          eq_of_pointer_eq hright.apart hright.proper hother hbuffer (h.trans hpointer.symm)
      have hfind : state.heap.live.find? (·.pointer = bytes.longData) = some buffer := by
        cases hother : state.heap.live.find? (·.pointer = bytes.longData) with
        | none =>
            exact absurd (List.find?_eq_none.mp hother buffer hbuffer) (by simpa using hpointer)
        | some other =>
            have hpointer' := List.find?_some hother
            rw [decide_eq_true_iff] at hpointer'
            rw [hunique other (List.mem_of_find?_eq_some hother) hpointer']
      have hmem : ∀ other, other ∈ state.heap.live.erase buffer ↔
          other ≠ buffer ∧ other ∈ state.heap.live := fun other =>
        (nodup_of_apart hright.apart hright.proper).mem_erase_iff
      refine ⟨{ state.heap with
        live := state.heap.live.erase buffer
        freed := (buffer, bytes.getLongCapacity) :: state.heap.freed }, ?_,
        hright.holds_update (fun _ h => by cases h) fun i hi bytes' hi' text' hold' => ?_, hvacant,
        ?_, hright.apart.sublist List.erase_sublist, fun other hother =>
          hright.proper other (List.mem_of_mem_erase hother), ?_, ?_⟩
      · have hne : bytes.longData ≠ 0 := by
          rw [← hpointer]
          exact (hright.proper buffer hbuffer).1
        rw [StringMemory.destroy, if_pos hlong, StringHeap.free, if_neg hne, hfind]
        exact if_pos ⟨hrequested, hgranted⟩
      · refine hold'.keep fun hlong' other hother hpointer' _ =>
          ⟨(hmem other).mpr ⟨?_, hother⟩, rfl⟩
        rintro rfl
        have hheld' : (state.strings i).bind held = some bytes.longData := by
          rw [hi', Option.bind_some, held_of_isLong hlong', ← hpointer', hpointer]
        exact hi (hright.owners.unique hheld' hheld)
      · rw [bind_update, Option.bind_none]
        refine (hright.owners.remove hheld).congr fun pointer => ?_
        constructor
        · rintro ⟨other, hother, rfl⟩
          obtain ⟨hne, hother⟩ := (hmem other).mp hother
          exact ⟨⟨other, hother, rfl⟩, fun h => hne (hunique other hother h)⟩
        · rintro ⟨⟨other, hother, rfl⟩, hne⟩
          refine ⟨other, (hmem other).mpr ⟨?_, hother⟩, rfl⟩
          rintro rfl
          exact hne hpointer
      · refine hright.once.trans ?_
        refine ((List.perm_cons_erase hbuffer).append_right _).trans ?_
        exact List.perm_middle.symm
      · exact List.forall_mem_cons.mpr ⟨⟨hrequested, hgranted⟩, hright.sizes⟩

omit [DecidableEq ι] in
theorem Right.strings_ne_none (hright : Right state texts) {i : ι} :
    state.strings i ≠ none ↔ texts i ≠ none := by
  refine not_congr ⟨hright.vacant i, fun h => ?_⟩
  cases hi : state.strings i with
  | none => rfl
  | some bytes =>
      obtain ⟨text, htext, -⟩ := hright.holds i bytes hi
      rw [htext] at h
      cases h

/-! ### The steps -/

theorem construct_right (hright : Right state texts) (hvacant : state.strings this = none)
    (hlt : text.length < 2 ^ 30) {result : Except StringFault (StringHeap × StringBytes)}
    (hresult : ∃ heap' bytes, result = .ok (heap', bytes) ∧
      Constructed state.heap text heap' bytes) :
    ∃ state', state.construct this result = .ok state' ∧
      Right state' (update texts this (some text)) := by
  obtain ⟨heap', bytes, rfl, hconstructed⟩ := hresult
  refine ⟨_, ?_, hright.construct hvacant hconstructed hlt⟩
  rw [StringState.construct, hvacant]
  rfl

theorem construct_error {fault : StringFault}
    {result : Except StringFault (StringHeap × StringBytes)} (hvacant : state.strings this = none)
    (hresult : result = .error fault) : state.construct this result = .error fault := by
  rw [StringState.construct, hvacant, hresult]
  rfl

theorem constructed_empty (heap : StringHeap) : Constructed heap [] heap zero :=
  constructed_short (Nat.zero_le _) zero (by decide) (by decide)

theorem swap_right (hright : Right state texts) (hthis : state.strings this ≠ none)
    (hs : state.strings s ≠ none) : ∃ state', state.swap this s = .ok state' ∧
      Right state' (update (update texts this (texts s)) s (texts this)) := by
  obtain ⟨bytes, hbytes⟩ := Option.ne_none_iff_exists'.mp hthis
  obtain ⟨bytes', hbytes'⟩ := Option.ne_none_iff_exists'.mp hs
  have hswap : state.swap this s =
      .ok ⟨state.heap, fun i => state.strings (Equiv.swap this s i)⟩ := by
    rw [← update_update_eq_swap, hbytes, hbytes', StringState.swap, StringState.get,
      StringState.get, hbytes, hbytes']
    rfl
  rw [update_update_eq_swap]
  exact ⟨_, hswap, hright.comp _⟩

theorem destroyAt_right (hright : Right state texts) (hthis : state.strings this ≠ none) :
    ∃ state', state.destroyAt this = .ok state' ∧
      Right state' (update texts this none) := by
  obtain ⟨bytes, hbytes⟩ := Option.ne_none_iff_exists'.mp hthis
  obtain ⟨heap', hdestroy, hright'⟩ := hright.destroy hbytes
  refine ⟨_, ?_, hright'⟩
  rw [StringState.destroyAt, StringState.get, hbytes, ok_bind, hdestroy]
  rfl

theorem copyTo_right {region : AllocatedRegion} (hright : Right state texts)
    (hvacant : state.strings this = none) (hcopy : CopyAllowed state s region) :
    ∃ state', state.copyTo this s region = .ok state' ∧
      Right state' (update texts this (texts s)) := by
  obtain ⟨bytes, hbytes, hlong⟩ := hcopy
  obtain ⟨text, htext, hlt, hold⟩ := hright.holds s bytes hbytes
  rw [hold.size_eq] at hlong
  rw [StringState.copyTo, StringState.get, hbytes, ok_bind, htext]
  exact construct_right hright hvacant hlt (ofCopy_constructed hold hlong hlt)

theorem moveTo_right (hright : Right state texts) (hvacant : state.strings this = none)
    (hs : state.strings s ≠ none) : ∃ state', state.moveTo this s = .ok state' ∧
      Right state' (update (update texts s (some [])) this (texts s)) := by
  have hne : s ≠ this := by
    rintro rfl
    exact hs hvacant
  obtain ⟨middle, hmiddle, hright'⟩ := construct_right hright hvacant (by decide)
    ⟨_, _, rfl, constructed_empty state.heap⟩
  have hthis : update texts this (some []) this ≠ none := by
    rw [update_self]
    exact Option.some_ne_none _
  have hs' : update texts this (some []) s ≠ none := by
    rw [update_of_ne hne]
    exact hright.strings_ne_none.mp hs
  obtain ⟨state', hswap, hright''⟩ := swap_right hright' (hright'.strings_ne_none.mpr hthis)
    (hright'.strings_ne_none.mpr hs')
  refine ⟨state', ?_, ?_⟩
  · rw [StringState.moveTo, hmiddle, ok_bind, hswap]
  · rw [update_of_ne hne, update_self, update_idem] at hright''
    rwa [update_comm hne]

theorem assign_right {param : ι} (hright : Right state texts) (hthis : texts this ≠ none)
    (hparam : texts param ≠ none) :
    ∃ state', state.assign this param = .ok state' ∧
      Right state' (update (update texts this (texts param)) param none) := by
  obtain ⟨middle, hswap, hright'⟩ := swap_right hright (hright.strings_ne_none.mpr hthis)
    (hright.strings_ne_none.mpr hparam)
  have hmiddle : update (update texts this (texts param)) param (texts this)
      param ≠ none := by
    rwa [update_self]
  obtain ⟨state', hdestroy, hright''⟩ := destroyAt_right hright'
    (hright'.strings_ne_none.mpr hmiddle)
  refine ⟨state', ?_, ?_⟩
  · rw [StringState.assign, hswap, ok_bind, hdestroy]
  · rwa [update_idem] at hright''

theorem update_vacant {param : ι} (h : texts param = none) :
    update texts param none = texts := by
  rw [← h, update_eq_self]

theorem split_at_zero {source : List Byte} (h : 0 ∈ source) :
    ∃ rest, source = source.takeWhile (· ≠ 0) ++ 0 :: rest := by
  induction source with
  | nil => cases h
  | cons c source ih =>
      by_cases hc : c = 0
      · exact ⟨source, by rw [hc]; rfl⟩
      · obtain ⟨rest, hrest⟩ := ih ((List.mem_cons.mp h).resolve_left fun h => hc h.symm)
        refine ⟨rest, ?_⟩
        rw [List.takeWhile_cons_of_pos (by simpa using hc), List.cons_append, ← hrest]

theorem zero_not_mem_takeWhile (source : List Byte) : 0 ∉ source.takeWhile (· ≠ 0) :=
  fun h => by simpa using List.mem_takeWhile_imp h

/-- **An operation** that is allowed keeps the strings right. -/
theorem step_right {op : StringOp ι} (hright : Right state texts) (hallows : Allows state op) :
    ∃ state', state.step op = .ok state' ∧ Right state' (textsAfter texts op) := by
  cases op with
  | empty this =>
      exact construct_right hright hallows (by decide) ⟨_, _, rfl, constructed_empty state.heap⟩
  | cString this region source =>
      obtain ⟨hvacant, hzero, hlt, hlong⟩ := hallows
      obtain ⟨rest, hsource⟩ := split_at_zero hzero
      exact construct_right hright hvacant hlt
        (ofCString_constructed hsource (zero_not_mem_takeWhile source) hlt hlong)
  | view this region str =>
      obtain ⟨hvacant, hlt, hlong⟩ := hallows
      exact construct_right hright hvacant hlt (ofView_constructed hlt hlong)
  | repeated this region length init =>
      obtain ⟨hvacant, hlt, hlong⟩ := hallows
      exact construct_right hright hvacant (by rwa [List.length_replicate])
        (ofRepeated_constructed hlt hlong)
  | copy this s region => exact copyTo_right hright hallows.1 hallows.2
  | move this s => exact moveTo_right hright hallows.1 hallows.2
  | assignCopy this param s region =>
      obtain ⟨hthis, hvacant, hcopy⟩ := hallows
      have hne : this ≠ param := by
        rintro rfl
        exact hthis hvacant
      obtain ⟨middle, hmiddle, hright'⟩ := copyTo_right hright hvacant hcopy
      have htext : texts s ≠ none := by
        obtain ⟨bytes, hbytes, -⟩ := hcopy
        exact hright.strings_ne_none.mp (by rw [hbytes]; exact Option.some_ne_none _)
      obtain ⟨state', hassign, hright''⟩ := @assign_right ι _ middle _ this param hright'
        (by rw [update_of_ne hne]; exact hright.strings_ne_none.mp hthis)
        (by rwa [update_self])
      refine ⟨state', ?_, ?_⟩
      · rw [StringState.step, hmiddle, ok_bind, hassign]
      · rw [update_self, update_comm hne, update_idem,
          update_vacant (hright.vacant param hvacant)] at hright''
        exact hright''
  | assignMove this param s =>
      obtain ⟨hthis, hvacant, hs⟩ := hallows
      have hne : this ≠ param := by
        rintro rfl
        exact hthis hvacant
      have hne' : s ≠ param := by
        rintro rfl
        exact hs hvacant
      obtain ⟨middle, hmiddle, hright'⟩ := moveTo_right hright hvacant hs
      have hmoved : update texts s (some []) this ≠ none := by
        by_cases heq : this = s
        · rw [heq, update_self]
          exact Option.some_ne_none _
        · rw [update_of_ne heq]
          exact hright.strings_ne_none.mp hthis
      obtain ⟨state', hassign, hright''⟩ := @assign_right ι _ middle _ this param hright'
        (by rwa [update_of_ne hne])
        (by rw [update_self]; exact hright.strings_ne_none.mp hs)
      refine ⟨state', ?_, ?_⟩
      · rw [StringState.step, hmiddle, ok_bind, hassign]
      · rw [update_self, update_comm hne, update_idem,
          update_comm hne', update_vacant (hright.vacant param hvacant)] at hright''
        exact hright''
  | swap this s => exact swap_right hright hallows.1 hallows.2
  | destroy this => exact destroyAt_right hright hallows

/-! ### The runs -/

omit [DecidableEq ι] in
theorem right_initial (memory : Memory Byte) :
    Right (StringState.initial memory : StringState ι) fun _ => none where
  holds _ _ h := by cases h
  vacant _ _ := rfl
  owners := SoleOwners.none.congr fun pointer => by simp [StringState.initial]
  apart := List.Pairwise.nil
  proper _ h := by cases h
  once := List.Perm.nil
  sizes _ h := by cases h

theorem run_keeps {ops : List (StringOp ι)} (hright : Right state texts)
    (hallows : RunAllows state ops) :
    ∃ state', state.run ops = .ok state' ∧ Right state' (ops.foldl textsAfter texts) := by
  induction ops generalizing state texts with
  | nil => exact ⟨state, rfl, hright⟩
  | cons op ops ih =>
      obtain ⟨middle, hstep, hright'⟩ := step_right hright hallows.1
      obtain ⟨state', hrun, hright''⟩ := ih hright' (hallows.2 middle hstep)
      refine ⟨state', ?_, hright''⟩
      rw [StringState.run, hstep, ok_bind, hrun]

theorem RunAllows.cons {state' : StringState ι} {op : StringOp ι} {ops : List (StringOp ι)}
    (hallows : Allows state op) (hstep : state.step op = .ok state')
    (hrest : RunAllows state' ops) : RunAllows state (op :: ops) := by
  refine ⟨hallows, fun state'' h => ?_⟩
  rw [hstep] at h
  cases h
  exact hrest

/-- **`bek::string`**: whatever is done with strings, each has its text, and its buffer alone. -/
theorem strings_right (memory : Memory Byte) (ops : List (StringOp ι))
    (hallows : RunAllows (StringState.initial memory) ops) :
    ∃ state, (StringState.initial memory).run ops = .ok state ∧
      Right state (ops.foldl textsAfter fun _ => none) :=
  run_keeps (right_initial memory) hallows

/-- A long string is copied, and the copy assigned to it. -/
theorem strings_right_copy : ∃ state, (StringState.initial fun _ => 0).run
    [.repeated 0 ⟨0x1000, 32⟩ 20 0x61, .copy 1 0 ⟨0x2000, 32⟩, .assignMove 0 2 1, .destroy 0] =
      .ok state ∧ Right state
    (([.repeated 0 ⟨0x1000, 32⟩ 20 0x61, .copy 1 0 ⟨0x2000, 32⟩, .assignMove 0 2 1, .destroy 0] :
      List (StringOp ℕ)).foldl textsAfter fun _ => none) := by
  refine strings_right (fun _ => 0) _ (.cons ⟨rfl, by decide, fun _ => ⟨by decide, by decide,
    by decide, by decide, by decide⟩⟩ rfl (.cons ⟨rfl, _, rfl, fun _ => ⟨by decide, by decide,
    by decide, by decide, by decide, by decide⟩⟩ rfl (.cons ⟨?_, rfl, ?_⟩ rfl
      (.cons ?_ rfl trivial))))
  all_goals exact Option.some_ne_none _

theorem run_cString_panics {region : AllocatedRegion} (memory : Memory Byte) (this : ι)
    (hzero : 0 ∉ text) (hlt : text.length < 2 ^ 30)
    (hlimit : maxMemcopy < text.length + 1)
    (hgrants : Grants { memory := memory } (text.length + 1) region) :
    (StringState.initial memory).run [.cString this region (text ++ [0])] = .error .panic := by
  have hpanics :=
    @ofCString_panics { memory := memory } region text _ [] rfl hzero hlt hlimit hgrants
  have hstep : (StringState.initial memory).step (.cString this region (text ++ [0])) =
      .error .panic :=
    @construct_error ι _ (StringState.initial memory) this .panic _ rfl hpanics
  rw [StringState.run, hstep, error_bind]

/-- Two mebibytes of characters are too long. -/
theorem strings_right_fails : (StringState.initial fun _ => 0).run
    [.cString (0 : ℕ) ⟨0x1000, 0x201000⟩ (List.replicate 0x200000 0x61 ++ [0])] =
      .error .panic := by
  have hlength : (List.replicate 0x200000 (0x61 : Byte)).length = 0x200000 :=
    List.length_replicate
  refine run_cString_panics _ _ (fun h => ?_) ?_ ?_ ?_
  · cases List.eq_of_mem_replicate h
  · rw [hlength]
    decide
  · rw [hlength]
    decide
  · rw [hlength]
    exact ⟨by decide, by decide, by decide, by decide, fun _ h => by cases h⟩

end Right

end BekOS.StringMemory
