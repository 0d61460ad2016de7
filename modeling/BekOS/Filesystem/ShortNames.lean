import BekOS.Filesystem.FatEntries

/-!
# `generate_short_name`

The short name of a file, which is to differ from those in its directory.  It is
made of the characters of the long name; where that is in use, of fewer of them and
a numeric tail.  The loop that looks for a tail means to go on with the next number
where a candidate is in use, but the `continue` for that is one of the loop inside,
and so the first candidate is taken.
-/

namespace BekOS

/-- `.` -/
def extensionDot : Byte := 0x2E

/-- `is_valid_fat_char`, where a `char` has no sign. -/
def isValidFatChar (c : Byte) : Bool :=
  (0x41 ≤ c && c ≤ 0x5A || 0x30 ≤ c && c ≤ 0x39 || 128 ≤ c && c ≤ 228 || 230 ≤ c) ||
    [0x20, 0x21, 0x23, 0x24, 0x25, 0x26, 0x27, 0x28, 0x29, 0x2D, 0x60, 0x7B, 0x7D, 0x7E].contains c

/-- The character that a character other than a space becomes. -/
def shortNameChar (c : Byte) : Byte :=
  if 0x61 ≤ c && c ≤ 0x7A then c - 32 else if isValidFatChar c then c else 0x5F

/-- The loops that convert characters into a part of so many: what they write behind
`written`, and what is left of the name.  One of them stops at a dot. -/
def convertChars (limit : ℕ) (stopsAtDot : Bool) :
    List Byte → List Byte → List Byte × List Byte
  | written, [] => (written, [])
  | written, c :: rest =>
      if written.length ≥ limit ∨ (stopsAtDot ∧ c = extensionDot) then (written, c :: rest)
      else if c = space then convertChars limit stopsAtDot written rest
      else convertChars limit stopsAtDot (written ++ [shortNameChar c]) rest

/-- A part of a name, with spaces behind it. -/
def padTo (width : ℕ) (part : List Byte) : List Byte :=
  part ++ List.replicate (width - part.length) space

/-- What stands behind the last dot of the rest of a name. -/
def afterLastDot (name : List Byte) : List Byte :=
  if extensionDot ∈ name then (name.reverse.takeWhile (· ≠ extensionDot)).reverse else []

/-- The parts of the name that `generate_short_name` makes before it looks at the other
names, the name not being one of the special ones. -/
def shortNameParts (fullName : List Byte) : List Byte × List Byte :=
  let base := convertChars 8 true []
    (fullName.dropWhile fun c => decide (c = extensionDot ∨ c = space))
  (base.1, (convertChars 3 false [] (afterLastDot base.2)).1)

/-- `.` and `..` keep their names. -/
def IsSpecialName (fullName : List Byte) : Prop :=
  fullName = [extensionDot] ∨ fullName = [extensionDot, extensionDot]
deriving Decidable

/-- The plain conversion of a name. -/
def plainShortName (fullName : List Byte) : List Byte :=
  if IsSpecialName fullName then padTo 11 fullName
  else padTo 8 (shortNameParts fullName).1 ++ padTo 3 (shortNameParts fullName).2

/-- The tail that `format` makes of a number. -/
def numericTail (number : ℕ) : List Byte :=
  0x7E :: (Nat.toDigits 10 number).map fun digit => BitVec.ofNat 8 digit.toNat

/-- The candidate with a number. -/
def tailCandidate (name : List Byte) (baseLen number : ℕ) : List Byte :=
  let insertionPosn := min baseLen (8 - (numericTail number).length)
  name.take insertionPosn ++ numericTail number ++
    name.drop (insertionPosn + (numericTail number).length)

/-- `generate_short_name`; `none` when its assertion fails.  The loop over the numbers
ends after one round, whatever the names are that it compares the candidate with. -/
def generateShortName (fullName : List Byte) (shortNames : List (List Byte)) :
    Option (List Byte) :=
  if fullName = [] then none
  else if IsSpecialName fullName then some (plainShortName fullName)
  else if plainShortName fullName ∈ shortNames then
    some (tailCandidate (plainShortName fullName) (shortNameParts fullName).1.length 1)
  else some (plainShortName fullName)

/-! ## What is made of the characters -/

/-- The characters of short names, by the FAT specification. -/
def IsShortNameChar (c : Byte) : Prop :=
  (0x41 ≤ c ∧ c ≤ 0x5A) ∨ (0x30 ≤ c ∧ c ≤ 0x39) ∨ 0x80 ≤ c ∨
    c ∈ ([0x21, 0x23, 0x24, 0x25, 0x26, 0x27, 0x28, 0x29, 0x2D, 0x40, 0x5E, 0x5F, 0x60, 0x7B, 0x7D,
      0x7E] : List Byte)
deriving Decidable

/-- A name of eight characters and three, with spaces behind each; or one of the special
ones. -/
def IsShortName (name : List Byte) : Prop :=
  name = padTo 11 [extensionDot] ∨ name = padTo 11 [extensionDot, extensionDot] ∨
    ∃ base ext, base.length ≤ 8 ∧ ext.length ≤ 3 ∧ (∀ c ∈ base ++ ext, IsShortNameChar c) ∧
      name = padTo 8 base ++ padTo 3 ext

section Parts

variable {limit : ℕ} {stopsAtDot : Bool} {written name base ext : List Byte}

theorem isShortNameChar_shortNameChar (c : Byte) (h : c ≠ space) :
    IsShortNameChar (shortNameChar c) := by
  revert h
  decide +revert +kernel

theorem length_convertChars_le (name : List Byte) :
    ∀ written : List Byte, written.length ≤ limit →
      (convertChars limit stopsAtDot written name).1.length ≤ limit := by
  induction name with
  | nil => exact fun written h => h
  | cons c rest ih =>
      intro written h
      unfold convertChars
      split_ifs with hstop hspace
      · exact h
      · exact ih written h
      · refine ih _ ?_
        rw [List.length_append, List.length_singleton]
        rw [not_or] at hstop
        omega

theorem convertChars_valid (name : List Byte) :
    ∀ written : List Byte, (∀ c ∈ written, IsShortNameChar c) →
      ∀ c ∈ (convertChars limit stopsAtDot written name).1, IsShortNameChar c := by
  induction name with
  | nil => exact fun written h => h
  | cons c rest ih =>
      intro written h
      unfold convertChars
      split_ifs with hstop hspace
      · exact h
      · exact ih written h
      · refine ih _ fun c' hc' => ?_
        rcases List.mem_append.mp hc' with hold | hnew
        · exact h c' hold
        · rw [List.mem_singleton.mp hnew]
          exact isShortNameChar_shortNameChar c hspace

theorem shortNameParts_valid (fullName : List Byte) :
    (shortNameParts fullName).1.length ≤ 8 ∧ (shortNameParts fullName).2.length ≤ 3 ∧
      ∀ c ∈ (shortNameParts fullName).1 ++ (shortNameParts fullName).2, IsShortNameChar c := by
  refine ⟨length_convertChars_le _ [] (Nat.zero_le _), length_convertChars_le _ [] (Nat.zero_le _),
    fun c hc => ?_⟩
  rcases List.mem_append.mp hc with hbase | hext
  · exact convertChars_valid _ [] (fun _ h => absurd h List.not_mem_nil) c hbase
  · exact convertChars_valid _ [] (fun _ h => absurd h List.not_mem_nil) c hext

theorem isShortName_plain (fullName : List Byte) : IsShortName (plainShortName fullName) := by
  unfold plainShortName
  split_ifs with hspecial
  · rcases hspecial with rfl | rfl
    · exact Or.inl rfl
    · exact Or.inr (Or.inl rfl)
  · obtain ⟨hbase, hext, hvalid⟩ := shortNameParts_valid fullName
    exact Or.inr (Or.inr ⟨_, _, hbase, hext, hvalid, rfl⟩)

theorem tailCandidate_one (hbase : base.length ≤ 8) :
    tailCandidate (padTo 8 base ++ padTo 3 ext) base.length 1 =
      padTo 8 (base.take 6 ++ numericTail 1) ++ padTo 3 ext := by
  have htail : (numericTail 1).length = 2 := by decide
  have htake : (padTo 8 base ++ padTo 3 ext).take (min base.length 6) = base.take 6 := by
    rw [padTo, List.append_assoc, List.take_append_of_le_length (Nat.min_le_left _ _),
      Nat.min_comm, ← List.take_eq_take_min]
  have hdrop : (padTo 8 base ++ padTo 3 ext).drop (min base.length 6 + 2) =
      List.replicate (8 - (min base.length 6 + 2)) space ++ padTo 3 ext := by
    rw [padTo, List.append_assoc]
    rcases Nat.le_total base.length 6 with hshort | hlong
    · rw [Nat.min_eq_left hshort, ← List.drop_drop, List.drop_left,
        List.drop_append_of_le_length (by rw [List.length_replicate]; omega), List.drop_replicate,
        show 8 - base.length - 2 = 8 - (base.length + 2) by omega]
    · rw [Nat.min_eq_right hlong, ← List.append_assoc]
      have hlength : (base ++ List.replicate (8 - base.length) space).length = 8 := by
        rw [List.length_append, List.length_replicate]
        omega
      exact (congrArg (List.drop · _) hlength.symm).trans List.drop_left
  unfold tailCandidate
  rw [htail]
  dsimp only
  rw [htake, hdrop]
  conv_rhs => rw [padTo, List.length_append, htail, List.length_take, Nat.min_comm]
  simp only [List.append_assoc]

theorem isShortName_tailCandidate {fullName : List Byte} (h : ¬ IsSpecialName fullName) :
    IsShortName (tailCandidate (plainShortName fullName) (shortNameParts fullName).1.length 1) := by
  obtain ⟨hbase, hext, hvalid⟩ := shortNameParts_valid fullName
  have htail : ∀ c ∈ numericTail 1, IsShortNameChar c := by decide +kernel
  rw [plainShortName, if_neg h, tailCandidate_one hbase]
  refine Or.inr (Or.inr ⟨_, _, ?_, hext, fun c hc => ?_, rfl⟩)
  · have hlength : (numericTail 1).length = 2 := by decide
    rw [List.length_append, hlength, List.length_take]
    omega
  · rcases List.mem_append.mp hc with hc | hc
    · rcases List.mem_append.mp hc with hc | hc
      · exact hvalid c (List.mem_append_left _ (List.mem_of_mem_take hc))
      · exact htail c hc
    · exact hvalid c (List.mem_append_right _ hc)

end Parts

/-! ## When the name is a new one -/

/-- What a short name is to be for a long name, in a directory with these names. -/
def FitsDirectory (fullName : List Byte) (shortNames : List (List Byte)) (name : List Byte) :
    Prop :=
  IsShortName name ∧ (plainShortName fullName ∉ shortNames → name = plainShortName fullName) ∧
    name ∉ shortNames

/-- The plain conversion is not in use, or the name with the first tail is not; and the
special names have no tail. -/
def FirstTailFree (fullName : List Byte) (shortNames : List (List Byte)) : Prop :=
  plainShortName fullName ∉ shortNames ∨
    ¬ IsSpecialName fullName ∧
      tailCandidate (plainShortName fullName) (shortNameParts fullName).1.length 1 ∉ shortNames

/-- **When the short name is new**: for every name and every directory. -/
theorem generateShortName_fits_iff (fullName : List Byte) (shortNames : List (List Byte))
    (hne : fullName ≠ []) :
    (∃ name, generateShortName fullName shortNames = some name ∧
      FitsDirectory fullName shortNames name) ↔ FirstTailFree fullName shortNames := by
  have hresult : ∀ name, generateShortName fullName shortNames = some name →
      ((∃ name, generateShortName fullName shortNames = some name ∧
        FitsDirectory fullName shortNames name) ↔ FitsDirectory fullName shortNames name) := by
    intro name hname
    refine ⟨fun ⟨other, hother, hfits⟩ => ?_, fun hfits => ⟨name, hname, hfits⟩⟩
    rw [hname, Option.some_inj] at hother
    rwa [hother]
  unfold FirstTailFree
  by_cases hused : plainShortName fullName ∈ shortNames
  · by_cases hspecial : IsSpecialName fullName
    · -- The special names are taken whether they are in use or not.
      rw [hresult (plainShortName fullName)
        (by rw [generateShortName, if_neg hne, if_pos hspecial])]
      exact iff_of_false (fun hfits => hfits.2.2 hused)
        (not_or.mpr ⟨not_not_intro hused, fun h => h.1 hspecial⟩)
    · rw [hresult _ (by rw [generateShortName, if_neg hne, if_neg hspecial, if_pos hused])]
      constructor
      · exact fun hfits => Or.inr ⟨hspecial, hfits.2.2⟩
      · rintro (hfree | ⟨-, hfree⟩)
        · exact absurd hused hfree
        · exact ⟨isShortName_tailCandidate hspecial, fun hfree => absurd hused hfree, hfree⟩
  · have hplain : generateShortName fullName shortNames = some (plainShortName fullName) := by
      rw [generateShortName, if_neg hne, if_neg hused, ite_self]
    rw [hresult _ hplain]
    exact iff_of_true ⟨isShortName_plain fullName, fun _ => rfl, hused⟩ (Or.inl hused)

/-- A file `a` next to one that is called `A`. -/
theorem generateShortName_fits_second :
    ∃ name, generateShortName [0x61] [padTo 11 [0x41]] = some name ∧
      FitsDirectory [0x61] [padTo 11 [0x41]] name :=
  (generateShortName_fits_iff [0x61] [padTo 11 [0x41]] (by decide)).mpr
    (Or.inr ⟨by decide, by decide +kernel⟩)

/-- A file `a` next to `A` and `A~1` is called `A~1`, too. -/
theorem generateShortName_fits_fails :
    generateShortName [0x61] [padTo 11 [0x41], padTo 11 [0x41, 0x7E, 0x31]] =
        some (padTo 11 [0x41, 0x7E, 0x31]) ∧
      ¬ ∃ name, generateShortName [0x61] [padTo 11 [0x41], padTo 11 [0x41, 0x7E, 0x31]] =
          some name ∧
        FitsDirectory [0x61] [padTo 11 [0x41], padTo 11 [0x41, 0x7E, 0x31]] name := by
  have hname : generateShortName [0x61] [padTo 11 [0x41], padTo 11 [0x41, 0x7E, 0x31]] =
      some (padTo 11 [0x41, 0x7E, 0x31]) := by decide +kernel
  refine ⟨hname, fun ⟨name, hother, hfits⟩ => hfits.2.2 ?_⟩
  rw [hname, Option.some_inj] at hother
  rw [← hother]
  decide

end BekOS
