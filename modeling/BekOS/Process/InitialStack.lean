import Mathlib.Data.List.GetD
import BekOS.Process.ElfRange

/-!
# The stack that a program starts with

`execute_executable` puts the argument and environment strings on the stack, each with its last
zero, and below them the pointers to them; `_entry` counts the arguments up to the first null.  The
kernel gets to the stack by offsets from its bottom, the program by addresses.  (The size of a
`bek::string` is less than 2^31, so that it can be increased.)
-/

namespace BekOS

/-! ## Building the stack -/

/-- `stack_offset`, and the bytes of the stack. -/
structure StackBuild where
  offset : ℕ
  bytes : Memory Byte

/-- `put_string_on_stack` -/
def StackBuild.putStringOnStack (stack : StackBuild) (str : List Byte) :
    Except ErrorCode StackBuild :=
  let neededSize := str.length + 1
  if stack.offset < neededSize then .error .ENOMEM
  else
    .ok
      { offset := stack.offset - neededSize
        bytes := copyRange stack.bytes (stack.offset - neededSize) (fun i => str.getD i 0) 0
          neededSize }

/-- The loops over the strings, with the pointers that they push back. -/
def StackBuild.putStrings (start : U64) :
    List (List Byte) → StackBuild → Except ErrorCode (StackBuild × List U64)
  | [], stack => .ok (stack, [])
  | str :: rest, stack => do
      let stack ← stack.putStringOnStack str
      let pointer := start + BitVec.ofNat 64 stack.offset
      let (stack, pointers) ← putStrings start rest stack
      return (stack, pointer :: pointers)

/-- Pointers in a memory. -/
def putWords : List U64 → ℕ → Memory Byte → Memory Byte
  | [], _, bytes => bytes
  | word :: rest, offset, bytes => putWords rest (offset + 8) (leWrite bytes offset word.toNat 8)

/-- What `execute_executable` does to the stack, from its size on. -/
def buildStack (start : U64) (arguments environ : List (List Byte)) :
    Except ErrorCode StackBuild := do
  let (stack, args) ← StackBuild.putStrings start arguments
    ⟨defaultUserStack.toNat, fun _ => 0⟩
  let (stack, envs) ← stack.putStrings start environ
  let initStackPtrArray := args ++ [0] ++ (envs ++ [0])
  let neededSize := initStackPtrArray.length * 8 + stack.offset % 16
  if stack.offset < neededSize then .error .ENOMEM
  else
    .ok
      { offset := stack.offset - neededSize
        bytes := copyRange stack.bytes (stack.offset - neededSize)
          (putWords initStackPtrArray 0 fun _ => 0) 0 (initStackPtrArray.length * 8) }

/-! ## The program -/

/-- The memory as the program has it, where the stack starts. -/
def StackBuild.memory (stack : StackBuild) (start : ℕ) : Memory Byte :=
  fun address => stack.bytes (address - start)

/-- A pointer at an address. -/
def pointerAt (memory : Memory Byte) (address : ℕ) : ℕ := leRead memory address 8

/-- The loop of `_entry`, from `argc` on. -/
def countArguments (memory : Memory Byte) (argv : ℕ) : ℕ → ℕ → Option ℕ
  | 0, _ => none
  | fuel + 1, argc =>
      if pointerAt memory (argv + argc * 8) = 0 then some argc
      else countArguments memory argv fuel (argc + 1)

/-- A string at an address, with its last zero. -/
def StringAt (memory : Memory Byte) (address : ℕ) (str : List Byte) : Prop :=
  slice memory address (str.length + 1) = str ++ [0]

/-- Pointers from an address on. -/
def pointersAt (memory : Memory Byte) (address n : ℕ) : List ℕ :=
  (List.range n).map fun i => pointerAt memory (address + i * 8)

/-- The places of two strings do not meet. -/
def StringsApart (first second : ℕ × List Byte) : Prop :=
  first.1 + first.2.length + 1 ≤ second.1 ∨ second.1 + second.2.length + 1 ≤ first.1

/-- What a program is to find, with a stack pointer. -/
structure StackFound (start sp : ℕ) (memory : Memory Byte) (arguments environ : List (List Byte)) :
    Prop where
  aligned : sp % 16 = 0
  inside : start ≤ sp ∧ sp + (arguments.length + environ.length + 2) * 8 ≤
    start + defaultUserStack.toNat
  pointers : ∃ args envs : List ℕ,
    pointersAt memory sp (arguments.length + environ.length + 2) = args ++ [0] ++ (envs ++ [0]) ∧
      List.Forall₂ (StringAt memory) args arguments ∧ List.Forall₂ (StringAt memory) envs environ ∧
      (∀ string ∈ (args ++ envs).zip (arguments ++ environ),
        sp + (arguments.length + environ.length + 2) * 8 ≤ string.1 ∧
          string.1 + string.2.length + 1 ≤ start + defaultUserStack.toNat) ∧
      ((args ++ envs).zip (arguments ++ environ)).Pairwise StringsApart
  argc : ∀ fuel > arguments.length, countArguments memory sp fuel 0 = some arguments.length

/-- The bytes of some strings. -/
def stringsSize (strings : List (List Byte)) : ℕ := (strings.map fun str => str.length + 1).sum

/-- The bytes of the pointers to the strings, and of two nulls. -/
def pointersSize (arguments environ : List (List Byte)) : ℕ :=
  (arguments.length + environ.length + 2) * 8

/-- The bytes of the strings and of the pointers. -/
def stackNeeded (arguments environ : List (List Byte)) : ℕ :=
  stringsSize (arguments ++ environ) + pointersSize arguments environ

/-- What building the stack is to do. -/
structure StackRight (start : U64) (arguments environ : List (List Byte)) : Prop where
  fits : stackNeeded arguments environ ≤ defaultUserStack.toNat →
    ∃ stack, buildStack start arguments environ = .ok stack ∧
      StackFound start.toNat (start.toNat + stack.offset) (stack.memory start.toNat) arguments
        environ
  refused : defaultUserStack.toNat < stackNeeded arguments environ →
    buildStack start arguments environ = .error .ENOMEM

/-! ## Strings -/

/-- Strings have been put on the stack, at these offsets. -/
structure StackBuild.Holds (stack : StackBuild) (entries : List (ℕ × List Byte)) : Prop where
  inside : ∀ entry ∈ entries,
    stack.offset ≤ entry.1 ∧ entry.1 + entry.2.length + 1 ≤ defaultUserStack.toNat
  strings : ∀ entry ∈ entries, StringAt stack.bytes entry.1 entry.2
  apart : entries.Pairwise fun first second => second.1 + second.2.length + 1 ≤ first.1

section Strings

variable {start : U64} {stack out : StackBuild} {str : List Byte} {strings : List (List Byte)}
  {entries : List (ℕ × List Byte)}

theorem StringAt.congr {memory memory' : Memory Byte} {address address' : ℕ}
    (h : StringAt memory address str)
    (hsame : ∀ i ≤ str.length, memory' (address' + i) = memory (address + i)) :
    StringAt memory' address' str :=
  (slice_congr fun i hi => hsame i (Nat.le_of_lt_succ hi)).trans h

theorem StackBuild.Holds.below (holds : stack.Holds entries) (hle : out.offset ≤ stack.offset)
    (hsame : ∀ i ≥ stack.offset, out.bytes i = stack.bytes i) : out.Holds entries where
  inside entry hentry := (holds.inside entry hentry).imp_left hle.trans
  strings entry hentry := (holds.strings entry hentry).congr fun _ _ =>
    hsame _ ((holds.inside entry hentry).1.trans (Nat.le_add_right _ _))
  apart := holds.apart

/-- **One string** goes below the others. -/
theorem StackBuild.Holds.put (str : List Byte) (holds : stack.Holds entries)
    (hfits : str.length + 1 ≤ stack.offset) (hoffset : stack.offset ≤ defaultUserStack.toNat) :
    ∃ out : StackBuild, stack.putStringOnStack str = .ok out ∧
      out.offset = stack.offset - (str.length + 1) ∧ out.Holds (entries ++ [(out.offset, str)]) := by
  refine ⟨_, if_neg (Nat.not_lt.mpr hfits), rfl, ?_⟩
  have hkept : StackBuild.Holds ⟨stack.offset - (str.length + 1),
      copyRange stack.bytes (stack.offset - (str.length + 1)) (fun i => str.getD i 0) 0
        (str.length + 1)⟩ entries := by
    refine holds.below (Nat.sub_le _ _) fun i _ => ?_
    dsimp only
    rw [copyRange_of_not_mem (by omega)]
  refine ⟨fun entry hentry => ?_, fun entry hentry => ?_, ?_⟩
  · rcases List.mem_append.mp hentry with hold | hnew
    · exact hkept.inside entry hold
    · rw [List.mem_singleton.mp hnew]
      exact ⟨le_rfl, by dsimp only; omega⟩
  · rcases List.mem_append.mp hentry with hold | hnew
    · exact hkept.strings entry hold
    · rw [List.mem_singleton.mp hnew]
      unfold StringAt
      dsimp only
      rw [slice_copyRange_self]
      refine List.ext_getElem ?_ fun i hi hi' => ?_
      · rw [length_slice, List.length_append, List.length_singleton]
      · rw [getElem_slice, Nat.zero_add]
        rcases Nat.lt_or_ge i str.length with hlt | hge
        · rw [List.getD_eq_getElem _ _ hlt, List.getElem_append_left hlt]
        · rw [List.getD_eq_default _ _ hge, List.getElem_append_right hge, List.getElem_singleton]
  · refine List.pairwise_append.mpr ⟨holds.apart, List.pairwise_singleton _ _, ?_⟩
    intro entry hentry new hnew
    rw [List.mem_singleton.mp hnew]
    have := (holds.inside entry hentry).1
    dsimp only
    omega

theorem stringsSize_cons (str : List Byte) (strings : List (List Byte)) :
    stringsSize (str :: strings) = str.length + 1 + stringsSize strings :=
  List.sum_cons

/-- **The strings** go below each other, as long as there is room for all. -/
theorem StackBuild.Holds.putStrings (start : U64) (strings : List (List Byte))
    (holds : stack.Holds entries) (hfits : stringsSize strings ≤ stack.offset)
    (hoffset : stack.offset ≤ defaultUserStack.toNat) :
    ∃ (out : StackBuild) (offsets : List ℕ), stack.putStrings start strings =
        .ok (out, offsets.map fun offset => start + BitVec.ofNat 64 offset) ∧
      offsets.length = strings.length ∧ out.offset = stack.offset - stringsSize strings ∧
      out.Holds (entries ++ offsets.zip strings) := by
  induction strings generalizing stack entries with
  | nil =>
      refine ⟨stack, [], rfl, rfl, rfl, ?_⟩
      rwa [List.zip_nil_left, List.append_nil]
  | cons str rest ih =>
      rw [stringsSize_cons] at hfits
      obtain ⟨next, hnext, hnextOffset, hholds⟩ := holds.put str (by omega) hoffset
      obtain ⟨out, offsets, hout, hlength, houtOffset, houtHolds⟩ :=
        ih hholds (by omega) (by omega)
      refine ⟨out, next.offset :: offsets, ?_, congrArg Nat.succ hlength, ?_, ?_⟩
      · rw [StackBuild.putStrings, hnext]
        show Except.bind (next.putStrings start rest) _ = _
        rw [hout]
        rfl
      · rw [stringsSize_cons]
        omega
      · rwa [List.zip_cons_cons, ← List.singleton_append, ← List.append_assoc]

theorem StackBuild.putStrings_full (start : U64) (strings : List (List Byte))
    (hfull : stack.offset < stringsSize strings) :
    stack.putStrings start strings = .error .ENOMEM := by
  induction strings generalizing stack with
  | nil => exact absurd hfull (Nat.not_lt_zero _)
  | cons str rest ih =>
      rw [stringsSize_cons] at hfull
      unfold putStrings putStringOnStack
      by_cases hfits : stack.offset < str.length + 1
      · rw [if_pos hfits]
        rfl
      · rw [if_neg hfits]
        show Except.bind (StackBuild.putStrings start rest _) _ = _
        rw [ih (by dsimp only; omega)]
        rfl

end Strings

/-! ## Pointers -/

section Words

variable {bytes : Memory Byte} {words : List U64}

theorem putWords_of_lt {i : ℕ} (words : List U64) :
    ∀ {offset : ℕ} {bytes : Memory Byte}, i < offset → putWords words offset bytes i = bytes i := by
  induction words with
  | nil => exact fun _ => rfl
  | cons word rest ih =>
      intro offset bytes hi
      rw [putWords, ih (Nat.lt_add_right 8 hi), leWrite_of_not_mem (by omega)]

theorem leRead_putWords : ∀ (offset : ℕ) {i : ℕ} (bytes : Memory Byte) (hi : i < words.length),
    leRead (putWords words offset bytes) (offset + i * 8) 8 = words[i].toNat := by
  induction words with
  | nil => exact fun _ _ _ hi => absurd hi (Nat.not_lt_zero _)
  | cons word rest ih =>
      intro offset i bytes hi
      rw [putWords]
      cases i with
      | zero =>
          have hread : leRead (putWords rest (offset + 8) (leWrite bytes offset word.toNat 8))
              (offset + 0 * 8) 8 = leRead (leWrite bytes offset word.toNat 8) offset 8 := by
            refine leRead_congr fun j hj => ?_
            rw [Nat.zero_mul, Nat.add_zero]
            exact putWords_of_lt rest (by omega)
          rw [hread, leRead_leWrite, List.getElem_cons_zero]
          exact Nat.mod_eq_of_lt word.isLt
      | succ i =>
          rw [List.getElem_cons_succ, ← ih _ _ (Nat.lt_of_succ_lt_succ hi)]
          congr 1
          omega

theorem countArguments_eq {memory : Memory Byte} {argv n : ℕ}
    (hnull : pointerAt memory (argv + n * 8) = 0)
    (hargs : ∀ i < n, pointerAt memory (argv + i * 8) ≠ 0) :
    ∀ {fuel argc : ℕ}, argc ≤ n → n < argc + fuel →
      countArguments memory argv fuel argc = some n := by
  intro fuel
  induction fuel with
  | zero => exact fun hle hlt => absurd hlt (Nat.not_lt.mpr hle)
  | succ fuel ih =>
      intro argc hle hlt
      rw [countArguments]
      rcases Nat.eq_or_lt_of_le hle with rfl | hbefore
      · exact if_pos hnull
      · rw [if_neg (hargs argc hbefore)]
        exact ih hbefore (by omega)

end Words

/-! ## The whole stack -/

section Build

variable {start : U64} {arguments environ : List (List Byte)} {stack : StackBuild}

/-- The array of pointers. -/
def initStackPtrArray (start : U64) (args envs : List ℕ) : List U64 :=
  args.map (fun offset => start + BitVec.ofNat 64 offset) ++ [0] ++
    (envs.map (fun offset => start + BitVec.ofNat 64 offset) ++ [0])

/-- What `buildStack` leaves, with the offsets of the strings. -/
structure StackBuild.Built (start : U64) (arguments environ : List (List Byte))
    (stack : StackBuild) (args envs : List ℕ) : Prop where
  args_length : args.length = arguments.length
  envs_length : envs.length = environ.length
  offset : stack.offset + pointersSize arguments environ +
      (defaultUserStack.toNat - stringsSize (arguments ++ environ)) % 16 +
        stringsSize (arguments ++ environ) = defaultUserStack.toNat
  holds : stack.Holds (args.zip arguments ++ envs.zip environ)
  above : ∀ entry ∈ args.zip arguments ++ envs.zip environ,
    stack.offset + pointersSize arguments environ ≤ entry.1
  words : ∀ i (hi : i < (initStackPtrArray start args envs).length),
    leRead stack.bytes (stack.offset + i * 8) 8 = (initStackPtrArray start args envs)[i].toNat

theorem length_initStackPtrArray (start : U64) {args envs : List ℕ}
    (hargs : args.length = arguments.length)
    (henvs : envs.length = environ.length) :
    (initStackPtrArray start args envs).length * 8 = pointersSize arguments environ := by
  unfold initStackPtrArray pointersSize
  simp only [List.length_append, List.length_map, List.length_singleton]
  omega

theorem StackBuild.Holds.built {above : StackBuild} {args envs : List ℕ}
    (holds : above.Holds (args.zip arguments ++ envs.zip environ))
    (hargs : args.length = arguments.length) (henvs : envs.length = environ.length)
    (habove : above.offset + stringsSize (arguments ++ environ) = defaultUserStack.toNat)
    (hroom : pointersSize arguments environ + above.offset % 16 ≤ above.offset) :
    StackBuild.Built start arguments environ
      ⟨above.offset - (pointersSize arguments environ + above.offset % 16),
        copyRange above.bytes (above.offset - (pointersSize arguments environ + above.offset % 16))
          (putWords (initStackPtrArray start args envs) 0 fun _ => 0) 0
          (pointersSize arguments environ)⟩ args envs := by
  have hoffset : defaultUserStack.toNat - stringsSize (arguments ++ environ) = above.offset := by
    omega
  refine ⟨hargs, henvs, ?_, ?_, fun entry hentry => ?_, fun i hi => ?_⟩
  · rw [hoffset]
    dsimp only
    omega
  · exact holds.below (Nat.sub_le _ _) fun i hi => copyRange_of_not_mem (by omega)
  · have := (holds.inside entry hentry).1
    dsimp only
    omega
  · have hlength := length_initStackPtrArray start hargs henvs
    refine Eq.trans (leRead_congr fun j hj => ?_)
      (leRead_putWords 0 (fun _ => 0) hi)
    dsimp only
    rw [copyRange_of_mem (by omega) (by omega)]
    congr 1
    omega

theorem stringsSize_append (strings others : List (List Byte)) :
    stringsSize (strings ++ others) = stringsSize strings + stringsSize others := by
  unfold stringsSize
  rw [List.map_append, List.sum_append]

/-- The bytes of the strings and of the pointers, and of the padding between them. -/
def stackTaken (arguments environ : List (List Byte)) : ℕ :=
  stackNeeded arguments environ +
    (defaultUserStack.toNat - stringsSize (arguments ++ environ)) % 16

theorem holds_nil : StackBuild.Holds ⟨defaultUserStack.toNat, fun _ => 0⟩ [] :=
  ⟨fun _ h => absurd h List.not_mem_nil, fun _ h => absurd h List.not_mem_nil,
    List.Pairwise.nil⟩

theorem buildStack_strings (start : U64) (arguments environ : List (List Byte))
    (hfits : stringsSize (arguments ++ environ) ≤ defaultUserStack.toNat) :
    ∃ (above : StackBuild) (args envs : List ℕ), args.length = arguments.length ∧
      envs.length = environ.length ∧
      above.offset + stringsSize (arguments ++ environ) = defaultUserStack.toNat ∧
      above.Holds (args.zip arguments ++ envs.zip environ) ∧
      buildStack start arguments environ =
        if above.offset < pointersSize arguments environ + above.offset % 16 then .error .ENOMEM
        else .ok
          ⟨above.offset - (pointersSize arguments environ + above.offset % 16),
            copyRange above.bytes
              (above.offset - (pointersSize arguments environ + above.offset % 16))
              (putWords (initStackPtrArray start args envs) 0 fun _ => 0) 0
              (pointersSize arguments environ)⟩ := by
  rw [stringsSize_append] at hfits
  obtain ⟨middle, args, hputArgs, hargs, hmiddle, hmiddleHolds⟩ :=
    holds_nil.putStrings start arguments (Nat.le_of_add_right_le hfits) le_rfl
  dsimp only at hmiddle
  obtain ⟨above, envs, hputEnvs, henvs, habove, hholds⟩ :=
    hmiddleHolds.putStrings start environ (by omega) (by omega)
  refine ⟨above, args, envs, hargs, henvs, ?_, hholds, ?_⟩
  · rw [stringsSize_append]
    omega
  · rw [← length_initStackPtrArray start hargs henvs]
    unfold buildStack
    rw [hputArgs]
    show Except.bind (middle.putStrings start environ) _ = _
    rw [hputEnvs]
    rfl

/-- **Building the stack** succeeds if the strings, the pointers and the padding have room. -/
theorem buildStack_of_le (start : U64) (arguments environ : List (List Byte))
    (hfits : stackTaken arguments environ ≤ defaultUserStack.toNat) :
    ∃ (stack : StackBuild) (args envs : List ℕ), buildStack start arguments environ = .ok stack ∧
      stack.Built start arguments environ args envs := by
  unfold stackTaken stackNeeded at hfits
  obtain ⟨above, args, envs, hargs, henvs, habove, hholds, hbuild⟩ :=
    buildStack_strings start arguments environ (by omega)
  have hoffset : defaultUserStack.toNat - stringsSize (arguments ++ environ) = above.offset := by
    omega
  rw [hoffset] at hfits
  have hroom : pointersSize arguments environ + above.offset % 16 ≤ above.offset := by omega
  exact ⟨_, args, envs, hbuild.trans (if_neg (Nat.not_lt.mpr hroom)),
    hholds.built hargs henvs habove hroom⟩

/-- **Lists that do not fit** are refused. -/
theorem buildStack_of_lt (start : U64) (arguments environ : List (List Byte))
    (hfull : defaultUserStack.toNat < stackTaken arguments environ) :
    buildStack start arguments environ = .error .ENOMEM := by
  unfold stackTaken stackNeeded at hfull
  by_cases hstrings : stringsSize (arguments ++ environ) ≤ defaultUserStack.toNat
  · obtain ⟨above, args, envs, hargs, henvs, habove, hholds, hbuild⟩ :=
      buildStack_strings start arguments environ hstrings
    have hoffset : defaultUserStack.toNat - stringsSize (arguments ++ environ) = above.offset := by
      omega
    rw [hoffset] at hfull
    exact hbuild.trans (if_pos (by omega))
  · rw [stringsSize_append] at hstrings
    unfold buildStack
    by_cases hfirst : stringsSize arguments ≤ defaultUserStack.toNat
    · obtain ⟨middle, args, hputArgs, hargs, hmiddle, hmiddleHolds⟩ :=
        holds_nil.putStrings start arguments hfirst le_rfl
      dsimp only at hmiddle
      rw [hputArgs]
      show Except.bind (middle.putStrings start environ) _ = _
      rw [StackBuild.putStrings_full start environ (by omega)]
      rfl
    · rw [StackBuild.putStrings_full start arguments (Nat.lt_of_not_le hfirst)]
      rfl

theorem toNat_pointer {offset : ℕ} (hstart : start.toNat + defaultUserStack.toNat ≤ 2 ^ 64)
    (hoffset : offset < defaultUserStack.toNat) :
    (start + BitVec.ofNat 64 offset).toNat = start.toNat + offset := by
  have hsmall : defaultUserStack.toNat = 16384 := rfl
  rw [BitVec.toNat_add, BitVec.toNat_ofNat, Nat.mod_eq_of_lt (a := offset) (by omega),
    Nat.mod_eq_of_lt (by omega)]

theorem map_pointer (hstart : start.toNat + defaultUserStack.toNat ≤ 2 ^ 64) {offsets : List ℕ}
    (hoffsets : ∀ offset ∈ offsets, offset < defaultUserStack.toNat) :
    (offsets.map fun offset => start + BitVec.ofNat 64 offset).map BitVec.toNat =
      offsets.map (start.toNat + ·) := by
  rw [List.map_map]
  exact List.map_congr_left fun offset h => toNat_pointer hstart (hoffsets offset h)

theorem length_pointersAt (memory : Memory Byte) (address n : ℕ) :
    (pointersAt memory address n).length = n := by
  rw [pointersAt, List.length_map, List.length_range]

theorem getElem_pointersAt {memory : Memory Byte} {address n i : ℕ}
    (h : i < (pointersAt memory address n).length) :
    (pointersAt memory address n)[i] = pointerAt memory (address + i * 8) := by
  simp only [pointersAt, List.getElem_map, List.getElem_range]

/-- The pointers as the program has them. -/
theorem StackBuild.Built.pointersAt {args envs : List ℕ}
    (built : stack.Built start arguments environ args envs)
    (hstart : start.toNat + defaultUserStack.toNat ≤ 2 ^ 64) :
    pointersAt (stack.memory start.toNat) (start.toNat + stack.offset)
        (arguments.length + environ.length + 2) =
      args.map (start.toNat + ·) ++ [0] ++ (envs.map (start.toNat + ·) ++ [0]) := by
  have hlength := length_initStackPtrArray start built.args_length built.envs_length
  unfold pointersSize at hlength
  have hwords : BekOS.pointersAt (stack.memory start.toNat) (start.toNat + stack.offset)
      (arguments.length + environ.length + 2) =
        (initStackPtrArray start args envs).map BitVec.toNat := by
    refine List.ext_getElem ?_ fun i hi hi' => ?_
    · rw [length_pointersAt, List.length_map]
      omega
    · rw [List.length_map] at hi'
      rw [getElem_pointersAt, List.getElem_map, ← built.words i hi']
      refine leRead_congr fun j hj => congrArg stack.bytes ?_
      omega
  have hbelow : ∀ entry ∈ args.zip arguments ++ envs.zip environ,
      entry.1 < defaultUserStack.toNat := by
    intro entry hentry
    have := (built.holds.inside entry hentry).2
    omega
  have hargs : ∀ offset ∈ args, offset < defaultUserStack.toNat := by
    intro offset hoffset
    obtain ⟨i, hi, rfl⟩ := List.mem_iff_getElem.mp hoffset
    have hi' : i < arguments.length := built.args_length ▸ hi
    exact hbelow (args[i], arguments[i]) (List.mem_append_left _
      (List.mem_iff_getElem.mpr ⟨i, by rw [List.length_zip]; omega, List.getElem_zip⟩))
  have henvs : ∀ offset ∈ envs, offset < defaultUserStack.toNat := by
    intro offset hoffset
    obtain ⟨i, hi, rfl⟩ := List.mem_iff_getElem.mp hoffset
    have hi' : i < environ.length := built.envs_length ▸ hi
    exact hbelow (envs[i], environ[i]) (List.mem_append_right _
      (List.mem_iff_getElem.mpr ⟨i, by rw [List.length_zip]; omega, List.getElem_zip⟩))
  rw [hwords, initStackPtrArray, List.map_append, List.map_append, List.map_append,
    map_pointer hstart hargs, map_pointer hstart henvs]
  rfl

theorem countArguments_pointers {memory : Memory Byte} {sp total : ℕ} {args rest : List ℕ}
    (hpointers : pointersAt memory sp total = args ++ 0 :: rest) (hargs : 0 ∉ args) :
    ∀ fuel > args.length, countArguments memory sp fuel 0 = some args.length := by
  have hlength : total = args.length + (rest.length + 1) := by
    rw [← length_pointersAt memory sp total, hpointers, List.length_append, List.length_cons]
  have hat : ∀ i (hi : i < (args ++ 0 :: rest).length),
      pointerAt memory (sp + i * 8) = (args ++ 0 :: rest)[i] := by
    intro i hi
    simp only [← hpointers]
    exact (getElem_pointersAt (by rwa [hpointers])).symm
  have hall : (args ++ 0 :: rest).length = args.length + (rest.length + 1) := by
    rw [List.length_append, List.length_cons]
  intro fuel hfuel
  refine countArguments_eq ?_ (fun i hi => ?_) (Nat.zero_le _) (by omega)
  · rw [hat args.length (by omega), List.getElem_append_right le_rfl]
    simp only [Nat.sub_self, List.getElem_cons_zero]
  · rw [hat i (by omega), List.getElem_append_left hi]
    exact fun hzero => hargs (hzero ▸ List.getElem_mem hi)

/-- **What is left** is what the program is to find, but that the stack pointer need not be
aligned. -/
theorem StackBuild.Built.found {args envs : List ℕ}
    (built : stack.Built start arguments environ args envs) (hpos : 0 < start.toNat)
    (hstart : start.toNat + defaultUserStack.toNat ≤ 2 ^ 64)
    (haligned : (start.toNat + stack.offset) % 16 = 0) :
    StackFound start.toNat (start.toNat + stack.offset) (stack.memory start.toNat) arguments
      environ := by
  have hpointers := built.pointersAt hstart
  have hsize : pointersSize arguments environ = (arguments.length + environ.length + 2) * 8 := rfl
  have hzip : (args.map (start.toNat + ·) ++ envs.map (start.toNat + ·)).zip
      (arguments ++ environ) = (args.zip arguments ++ envs.zip environ).map
        (Prod.map (start.toNat + ·) id) := by
    rw [List.zip_append (by rw [List.length_map, built.args_length]), List.zip_map_left,
      List.zip_map_left, List.map_append]
  have hstring : ∀ entry ∈ args.zip arguments ++ envs.zip environ,
      StringAt (stack.memory start.toNat) (start.toNat + entry.1) entry.2 := by
    intro entry hentry
    refine (built.holds.strings entry hentry).congr fun i _ => congrArg stack.bytes ?_
    omega
  have hoffset := built.offset
  refine ⟨haligned, ⟨Nat.le_add_right _ _, by omega⟩, ⟨_, _, hpointers, ?_, ?_, ?_, ?_⟩, ?_⟩
  · refine List.forall₂_iff_zip.mpr ⟨by rw [List.length_map, built.args_length], ?_⟩
    intro address str h
    rw [List.zip_map_left] at h
    obtain ⟨entry, hentry, heq⟩ := List.mem_map.mp h
    cases heq
    exact hstring entry (List.mem_append_left _ hentry)
  · refine List.forall₂_iff_zip.mpr ⟨by rw [List.length_map, built.envs_length], ?_⟩
    intro address str h
    rw [List.zip_map_left] at h
    obtain ⟨entry, hentry, heq⟩ := List.mem_map.mp h
    cases heq
    exact hstring entry (List.mem_append_right _ hentry)
  · rw [hzip]
    intro string h
    obtain ⟨entry, hentry, rfl⟩ := List.mem_map.mp h
    have habove := built.above entry hentry
    have hinside := (built.holds.inside entry hentry).2
    simp only [Prod.map_fst, Prod.map_snd, id_eq]
    omega
  · rw [hzip, List.pairwise_map]
    refine built.holds.apart.imp fun {first second} h => Or.inr ?_
    simp only [Prod.map_fst, Prod.map_snd, id_eq]
    omega
  · have hcount := countArguments_pointers
      (hpointers.trans (List.append_assoc (args.map (start.toNat + ·)) [0] _)) (fun h => ?_)
    · rwa [List.length_map, built.args_length] at hcount
    · obtain ⟨offset, -, heq⟩ := List.mem_map.mp h
      omega

theorem StackBuild.Built.aligned_iff {args envs : List ℕ}
    (built : stack.Built start arguments environ args envs) (hstart : start.toNat % 16 = 0) :
    (start.toNat + stack.offset) % 16 = 0 ↔ Even (arguments.length + environ.length) := by
  have hoffset := built.offset
  have hsize : pointersSize arguments environ = (arguments.length + environ.length + 2) * 8 := rfl
  have hdefault : defaultUserStack.toNat = 16384 := rfl
  rw [hsize, hdefault] at hoffset
  rw [Nat.even_iff]
  generalize arguments.length + environ.length = strings at *
  omega

theorem stackTaken_le_iff (heven : Even (arguments.length + environ.length)) :
    stackTaken arguments environ ≤ defaultUserStack.toNat ↔
      stackNeeded arguments environ ≤ defaultUserStack.toNat := by
  have hdefault : defaultUserStack.toNat = 16384 := rfl
  rw [Nat.even_iff] at heven
  unfold stackTaken stackNeeded pointersSize
  rw [hdefault]
  generalize arguments.length + environ.length = strings at *
  omega

end Build

/-! ## The stack of a program -/

theorem ElfFile.stackRegion_start {elf : ElfFile} (low : elf.programRange.Low) :
    0 < elf.stackRegion.start.toNat ∧ elf.stackRegion.start.toNat % 16 = 0 ∧
      elf.stackRegion.start.toNat + defaultUserStack.toNat ≤ 2 ^ 64 := by
  have hmax : maxUserStack.toNat = 4194304 := rfl
  have hdefault : defaultUserStack.toNat = 16384 := rfl
  have hgap : (2 * pageSize).toNat = 8192 := rfl
  have hfits : elf.programRange.alignToPage.Fits :=
    Nat.lt_of_le_of_lt low.alignToPage (by decide)
  have hlimit := low.alignToPage
  obtain ⟨start, hregion, hsmall, haligned⟩ : ∃ start : U64,
      elf.getSensibleStackRegion maxUserStack = ⟨start, maxUserStack⟩ ∧
        start.toNat ≤ 2 ^ 48 + 8192 ∧ start.toNat % 16 = 0 := by
    by_cases hbelow : 16 * pageSize + maxUserStack + 2 * pageSize ≤
        elf.programRange.alignToPage.start
    · exact ⟨_, getSensibleStackRegion_of_le hbelow, by decide, by decide⟩
    · refine ⟨_, getSensibleStackRegion_of_not_le hbelow, ?_⟩
      have hend := low.toNat_alignToPage.2
      rw [BitVec.toNat_add, hfits.toNat_endPtr, hgap, Nat.mod_eq_of_lt (by omega)]
      omega
  have hstart : elf.stackRegion.start.toNat = start.toNat + 4177920 := by
    show ((elf.getSensibleStackRegion maxUserStack).endPtr - defaultUserStack).toNat = _
    rw [hregion]
    show (start + maxUserStack - defaultUserStack).toNat = _
    have hend : (start + maxUserStack).toNat = start.toNat + 4194304 := by
      rw [BitVec.toNat_add, hmax, Nat.mod_eq_of_lt (by omega)]
    rw [BitVec.toNat_sub_of_le (BitVec.le_def.mpr (by omega)), hend, hdefault]
    omega
  rw [hstart, hdefault]
  omega

/-- **The stack** that an accepted file starts with is right if the arguments and the environment
are of an even number of strings together, or do not fit. -/
theorem ElfFile.stackRight_iff {file : ExecutableFile} {elf : ElfFile}
    (h : ElfFile.parseFile file = .ok elf) (arguments environ : List (List Byte)) :
    StackRight elf.stackRegion.start arguments environ ↔
      Even (arguments.length + environ.length) ∨
        defaultUserStack.toNat < stackNeeded arguments environ := by
  obtain ⟨hpos, haligned, hend⟩ := ElfFile.stackRegion_start (ElfFile.parseFile_low h).2
  have hneeded : stackNeeded arguments environ ≤ stackTaken arguments environ :=
    Nat.le_add_right _ _
  constructor
  · intro right
    by_contra hodd
    obtain ⟨heven, hfits⟩ := not_or.mp hodd
    obtain ⟨stack, hbuild, found⟩ := right.fits (Nat.le_of_not_lt hfits)
    -- Whatever has been built has its stack pointer between two multiples of 16.
    rcases Nat.lt_or_ge defaultUserStack.toNat (stackTaken arguments environ) with hfull | hroom
    · rw [buildStack_of_lt _ _ _ hfull] at hbuild
      cases hbuild
    · obtain ⟨stack', args, envs, hbuild', built⟩ :=
        buildStack_of_le elf.stackRegion.start arguments environ hroom
      cases hbuild.symm.trans hbuild'
      exact heven ((built.aligned_iff haligned).mp found.aligned)
  · intro hcase
    constructor
    · intro hfits
      have heven := hcase.resolve_right (Nat.not_lt.mpr hfits)
      obtain ⟨stack, args, envs, hbuild, built⟩ :=
        buildStack_of_le elf.stackRegion.start arguments environ
          ((stackTaken_le_iff heven).mpr hfits)
      exact ⟨stack, hbuild, built.found hpos hend ((built.aligned_iff haligned).mpr heven)⟩
    · exact fun hfull => buildStack_of_lt _ _ _ (Nat.lt_of_lt_of_le hfull hneeded)

/-- One argument and one string of the environment. -/
theorem stackRight_twoStrings : ∃ elf, ElfFile.parseFile (twoSegments 0x40 0x70) = .ok elf ∧
    StackRight elf.stackRegion.start [[0x61]] [[0x62, 0x63]] := by
  have hvalue : (ElfFile.parseFile (twoSegments 0x40 0x70)).toOption.isSome = true := by
    decide +kernel
  obtain ⟨elf, helf⟩ := Option.isSome_iff_exists.mp hvalue
  have hparse := toOption_eq_some.mp helf
  exact ⟨elf, hparse, (ElfFile.stackRight_iff hparse _ _).mpr (Or.inl (by decide))⟩

/-- With an argument alone, the stack pointer is a multiple of 8 and not of 16. -/
theorem stackRight_fails : ∃ elf, ElfFile.parseFile (twoSegments 0x40 0x70) = .ok elf ∧
    stackNeeded [[0x61]] [] ≤ defaultUserStack.toNat ∧
    (∀ stack, buildStack elf.stackRegion.start [[0x61]] [] = .ok stack →
      (elf.stackRegion.start.toNat + stack.offset) % 16 = 8) ∧
    ¬ StackRight elf.stackRegion.start [[0x61]] [] := by
  have hvalue : (ElfFile.parseFile (twoSegments 0x40 0x70)).toOption.isSome = true := by
    decide +kernel
  obtain ⟨elf, helf⟩ := Option.isSome_iff_exists.mp hvalue
  have hparse := toOption_eq_some.mp helf
  obtain ⟨-, haligned, -⟩ := ElfFile.stackRegion_start (ElfFile.parseFile_low hparse).2
  have hoffset : ∀ stack, buildStack elf.stackRegion.start [[0x61]] [] = .ok stack →
      (elf.stackRegion.start.toNat + stack.offset) % 16 = 8 := by
    intro stack hbuild
    cases hbuild
    show (elf.stackRegion.start.toNat + 16344) % 16 = 8
    omega
  refine ⟨elf, hparse, by decide, hoffset, fun right => ?_⟩
  obtain ⟨stack, hbuild, found⟩ := right.fits (by decide)
  have hzero := found.aligned
  rw [hoffset stack hbuild] at hzero
  exact absurd hzero (by decide)

end BekOS
