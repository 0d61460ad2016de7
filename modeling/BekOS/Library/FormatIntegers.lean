import BekOS.Lib.Bitmap
import BekOS.Library.KernelError
import Mathlib.Data.Nat.Digits.Lemmas

/-!
# Formatting integers

The integer formatters of `format.cpp`: the digits are put into a buffer of zeros from its end, so
that the padding is there already.
-/

namespace BekOS

/-- The byte of a character. -/
def charByte (c : Char) : Byte := BitVec.ofNat 8 c.toNat

/-- `UnsignedIntegralFormatter::Style` -/
inductive FormatStyle where
  | Decimal
  | UpperHex
  | LowerHex
  | Binary
  deriving DecidableEq, Repr

/-- `UnsignedIntegralFormatter` -/
structure UnsignedIntegralFormatter where
  style : FormatStyle := .Decimal
  minLength : ℕ := 1
  deriving DecidableEq, Repr

section Alphabets

def lowercaseAlphabet : List Byte :=
  ['0', '1', '2', '3', '4', '5', '6', '7', '8', '9', 'a', 'b', 'c', 'd', 'e', 'f'].map charByte

def uppercaseAlphabet : List Byte :=
  ['0', '1', '2', '3', '4', '5', '6', '7', '8', '9', 'A', 'B', 'C', 'D', 'E', 'F'].map charByte

def alphabet (uppercase : Bool) : List Byte :=
  if uppercase then uppercaseAlphabet else lowercaseAlphabet

/-- A digit of the alphabet.  No base is larger than the alphabet. -/
def digitChar (uppercase : Bool) (digit : ℕ) : Byte := (alphabet uppercase).getD digit 0

end Alphabets

/-- The loop of `convert_unsigned_to_string`, from the place that it writes next. -/
def convertLoop (base : ℕ) (uppercase : Bool) : ℕ → ℕ → List Byte → ℕ × List Byte
  | 0, v, buffer => (0, buffer.set 0 (digitChar uppercase (v % base)))
  | i + 1, v, buffer =>
      let buffer := buffer.set (i + 1) (digitChar uppercase (v % base))
      if v / base ≠ 0 then convertLoop base uppercase i (v / base) buffer else (i + 1, buffer)

/-- `convert_unsigned_to_string` -/
def convertUnsignedToString (v base : ℕ) (uppercase : Bool) (minLen : ℕ) :
    Except Fault (List Byte) := do
  verify (2 ≤ base ∧ base ≤ 16)
  verify (minLen ≤ 64)
  let buffer := List.replicate 64 (charByte '0')
  if v = 0 then return buffer.take minLen
  else
    let (i, buffer) := convertLoop base uppercase 63 v buffer
    let i := if 64 - i < minLen then 64 - minLen else i
    return buffer.drop i

namespace FormatStyle

/-- The base that `format_to` takes for a style. -/
def base : FormatStyle → ℕ
  | Decimal => 10
  | UpperHex => 16
  | LowerHex => 16
  | Binary => 2

def uppercase : FormatStyle → Bool
  | UpperHex => true
  | _ => false

theorem base_mem (style : FormatStyle) : 2 ≤ style.base ∧ style.base ≤ 16 := by
  cases style <;> decide

end FormatStyle

namespace UnsignedIntegralFormatter

/-- The style that the second character of a specification asks for. -/
def styleOf (style : FormatStyle) (c : Byte) : FormatStyle :=
  if c = charByte 'd' then .Decimal
  else if c = charByte 'x' then .LowerHex
  else if c = charByte 'X' then .UpperHex
  else if c = charByte 'b' then .Binary
  else style

/-- The length that the third character asks for. -/
def lengthOf (style : FormatStyle) (minLength : ℕ) (c : Byte) : ℕ :=
  if c = charByte 'L' then
    if style = .Binary then 64
    else if style = .UpperHex ∨ style = .LowerHex then 16
    else minLength
  else if c = charByte 'l' then
    if style = .Binary then 32
    else if style = .UpperHex ∨ style = .LowerHex then 8
    else minLength
  else minLength

/-- `UnsignedIntegralFormatter::parse` -/
def parse (formatter : UnsignedIntegralFormatter) (spec : List Byte) :
    Except Fault UnsignedIntegralFormatter :=
  match spec with
  | [] => .ok formatter
  | [colon, c] => do
      verify (colon = charByte ':')
      return { formatter with style := styleOf formatter.style c }
  | [colon, c, c'] => do
      verify (colon = charByte ':')
      let style := styleOf formatter.style c
      return { style := style, minLength := lengthOf style formatter.minLength c' }
  | _ => .error .panic

/-- `UnsignedIntegralFormatter::format_to` -/
def formatTo (formatter : UnsignedIntegralFormatter) (v : BitVec 64) : Except Fault (List Byte) :=
  convertUnsignedToString v.toNat formatter.style.base formatter.style.uppercase
    formatter.minLength

/-- `SignedIntegralFormatter::format_to`.  The least value is its own negation. -/
def formatSignedTo (formatter : UnsignedIntegralFormatter) (v : BitVec 64) :
    Except Fault (List Byte) := do
  let digits ← formatter.formatTo (if v.toInt < 0 then -v else v)
  return if v.toInt < 0 then charByte '-' :: digits else digits

end UnsignedIntegralFormatter

/-! ## Reading a number back -/

/-- The value of a digit, of either case. -/
def digitValue (c : Byte) : Option ℕ :=
  if charByte '0' ≤ c ∧ c ≤ charByte '9' then some (c - charByte '0').toNat
  else if charByte 'a' ≤ c ∧ c ≤ charByte 'f' then some (c - charByte 'a' + 10).toNat
  else if charByte 'A' ≤ c ∧ c ≤ charByte 'F' then some (c - charByte 'A' + 10).toNat
  else none

/-- What digits are worth behind those that have been read. -/
def readDigits (base : ℕ) : ℕ → List Byte → Option ℕ
  | value, [] => some value
  | value, c :: text => do
      let digit ← digitValue c
      if digit < base then readDigits base (value * base + digit) text else none

/-- The number that digits stand for, the first of them the highest. -/
def readUnsigned (base : ℕ) (text : List Byte) : Option ℕ :=
  if text = [] then none else readDigits base 0 text

/-- The number that a text stands for, with a sign or without. -/
def readInteger (base : ℕ) : List Byte → Option ℤ
  | [] => none
  | c :: text =>
      if c = charByte '-' then (readUnsigned base text).map fun n => -(n : ℤ)
      else (readUnsigned base (c :: text)).map fun n => (n : ℤ)

/-- How many digits a number has. -/
def digitCount (base n : ℕ) : ℕ := if n = 0 then 1 else (Nat.digits base n).length

/-- No letter of the other case. -/
def HasCase (uppercase : Bool) (c : Byte) : Prop :=
  ¬ (charByte (if uppercase then 'a' else 'A') ≤ c ∧ c ≤ charByte (if uppercase then 'f' else 'F'))
deriving Decidable

/-- The digits behind the sign. -/
def magnitude (text : List Byte) : List Byte :=
  if text.head? = some (charByte '-') then text.tail else text

/-- The text stands for the value, in the base and the case of a style, and its digits are at least
so many. -/
structure StandsFor (style : FormatStyle) (minLength : ℕ) (value : ℤ) (text : List Byte) :
    Prop where
  reads : readInteger style.base text = some value
  sign : text.head? = some (charByte '-') ↔ value < 0
  cased : ∀ c ∈ text, HasCase style.uppercase c
  length : (magnitude text).length = max minLength (digitCount style.base value.natAbs)
  leading : ∀ c ∈ (magnitude text).take (minLength - digitCount style.base value.natAbs),
    c = charByte '0'

section Convert

variable {base v minLen : ℕ} {uppercase : Bool}

theorem drop_set_self {buffer : List Byte} {i : ℕ} {c : Byte} (h : i < buffer.length) :
    (buffer.set i c).drop i = c :: buffer.drop (i + 1) := by
  have hlength : (buffer.take i).length = i := by
    rw [List.length_take]
    omega
  rw [List.set_eq_take_append_cons_drop, if_pos h, List.drop_left' hlength]

theorem convertLoop_eq (hbase : 2 ≤ base) {i : ℕ} {buffer : List Byte} (hv : v ≠ 0)
    (hi : v < base ^ (i + 1)) (hbuffer : i < buffer.length) :
    convertLoop base uppercase i v buffer =
      (i + 1 - (Nat.digits base v).length,
        buffer.take (i + 1 - (Nat.digits base v).length) ++
          (Nat.digits base v).reverse.map (digitChar uppercase) ++ buffer.drop (i + 1)) := by
  induction i generalizing v buffer with
  | zero =>
      rw [pow_one] at hi
      rw [convertLoop, Nat.digits_of_lt base v hv hi, Nat.mod_eq_of_lt hi,
        List.set_eq_take_append_cons_drop, if_pos hbuffer]
      rfl
  | succ i ih =>
      rw [convertLoop]
      by_cases hnext : v / base = 0
      · have hlt : v < base := (Nat.div_eq_zero_iff_lt (by omega)).mp hnext
        rw [if_neg (not_not.mpr hnext), Nat.digits_of_lt base v hv hlt, Nat.mod_eq_of_lt hlt,
          List.set_eq_take_append_cons_drop, if_pos hbuffer]
        simp
      · have hdiv : v / base < base ^ (i + 1) :=
          Nat.div_lt_of_lt_mul (by rwa [pow_succ'] at hi)
        have hlength := (Nat.digits_length_le_iff hbase (v / base)).mpr hdiv
        rw [if_pos hnext, ih hnext hdiv (by rw [List.length_set]; omega),
          Nat.digits_def' hbase (Nat.pos_of_ne_zero hv), List.take_set_of_le (by omega),
          List.length_cons, Nat.add_sub_add_right, List.reverse_cons, List.map_append,
          drop_set_self hbuffer]
        simp

theorem map_digitChar_zero (k : ℕ) :
    (List.replicate k 0).map (digitChar uppercase) = List.replicate k (charByte '0') := by
  rw [List.map_replicate]
  cases uppercase <;> rfl

theorem convertUnsignedToString_eq (hbase : 2 ≤ base ∧ base ≤ 16) (hminLen : minLen ≤ 64)
    (hv : v < 2 ^ 64) : convertUnsignedToString v base uppercase minLen =
      .ok ((Nat.digits base v ++ List.replicate (minLen - (Nat.digits base v).length) 0).reverse.map
        (digitChar uppercase)) := by
  rw [convertUnsignedToString, verify_of hbase, ok_bind, verify_of hminLen, ok_bind,
    List.reverse_append, List.reverse_replicate, List.map_append, map_digitChar_zero]
  by_cases hzero : v = 0
  · rw [if_pos hzero, hzero, Nat.digits_zero, List.take_replicate, Nat.min_eq_left hminLen,
      List.reverse_nil, List.map_nil, List.append_nil]
    rfl
  · have hpow : v < base ^ 64 := lt_of_lt_of_le hv (Nat.pow_le_pow_left hbase.1 64)
    have hlength := (Nat.digits_length_le_iff hbase.1 v).mpr hpow
    obtain ⟨count, hcount⟩ : ∃ count, (Nat.digits base v).length = count := ⟨_, rfl⟩
    have hstart : (if 64 - (64 - count) < minLen then 64 - minLen else 64 - count) +
        (minLen - count) = 64 - count := by
      split_ifs <;> omega
    rw [if_neg hzero, convertLoop_eq hbase.1 hzero hpow (by rw [List.length_replicate]; omega)]
    rw [hcount] at hlength ⊢
    dsimp only
    generalize (if 64 - (64 - count) < minLen then 64 - minLen else 64 - count) = i at hstart ⊢
    have hzeros : ((List.replicate 64 (charByte '0')).take (64 - count)).drop i =
        List.replicate (minLen - count) (charByte '0') := by
      rw [List.take_replicate, List.drop_replicate, Nat.min_eq_left (Nat.sub_le _ _), ← hstart,
        Nat.add_sub_cancel_left]
    have hbehind : (List.replicate 64 (charByte '0')).drop (63 + 1) = [] := rfl
    refine congrArg Except.ok ?_
    rw [hbehind, List.append_nil, List.drop_append_of_le_length (by simp; omega), hzeros]

theorem digitValue_digitChar {digit : ℕ} (h : digit < 16) :
    digitValue (digitChar uppercase digit) = some digit := by
  revert uppercase digit
  decide

theorem hasCase_digitChar {digit : ℕ} (h : digit < 16) :
    HasCase uppercase (digitChar uppercase digit) := by
  revert uppercase digit
  unfold HasCase
  decide

theorem digitChar_ne_minus {digit : ℕ} (h : digit < 16) :
    digitChar uppercase digit ≠ charByte '-' := by
  revert uppercase digit
  decide

theorem readDigits_reverse (hbase : base ≤ 16) {digits : List ℕ} (hdigits : ∀ d ∈ digits, d < base)
    (value : ℕ) (rest : List Byte) :
    readDigits base value (digits.reverse.map (digitChar uppercase) ++ rest) =
      readDigits base (value * base ^ digits.length + Nat.ofDigits base digits) rest := by
  induction digits generalizing rest with
  | nil => simp
  | cons d digits ih =>
      obtain ⟨hd, hdigits⟩ := List.forall_mem_cons.mp hdigits
      have hvalue : (value * base ^ digits.length + Nat.ofDigits base digits) * base + d =
          value * base ^ (d :: digits).length + Nat.ofDigits base (d :: digits) := by
        rw [List.length_cons, Nat.ofDigits_cons]
        ring
      rw [List.reverse_cons, List.map_append, List.append_assoc, ih hdigits, List.map_singleton,
        List.singleton_append, readDigits, digitValue_digitChar (by omega)]
      exact (if_pos hd).trans (by rw [hvalue])

end Convert

/-! ## What a formatter writes -/

theorem digitCount_pos (base n : ℕ) : 0 < digitCount base n := by
  unfold digitCount
  split_ifs with h
  · exact Nat.one_pos
  · exact List.length_pos_of_ne_nil (Nat.digits_ne_nil_iff_ne_zero.mpr h)

theorem length_digits_le_digitCount (base n : ℕ) :
    (Nat.digits base n).length ≤ digitCount base n := by
  unfold digitCount
  split_ifs with h
  · rw [h, Nat.digits_zero]
    exact Nat.zero_le _
  · exact Nat.le_refl _

section StandsFor

variable {style : FormatStyle} {minLength n : ℕ} {digits : List Byte}

/-- Digits without a sign. -/
structure NumeralOf (style : FormatStyle) (minLength n : ℕ) (digits : List Byte) : Prop where
  reads : readUnsigned style.base digits = some n
  unsigned : ∀ c ∈ digits, c ≠ charByte '-'
  cased : ∀ c ∈ digits, HasCase style.uppercase c
  length : digits.length = max minLength (digitCount style.base n)
  leading : ∀ c ∈ digits.take (minLength - digitCount style.base n), c = charByte '0'

/-- The digits with zeros behind them, and turned around. -/
theorem numeralOf_padded (h : 0 < minLength ∨ n ≠ 0) {padded : List ℕ}
    (hpadded : padded = Nat.digits style.base n ++
      List.replicate (minLength - (Nat.digits style.base n).length) 0) :
    NumeralOf style minLength n (padded.reverse.map (digitChar style.uppercase)) := by
  obtain ⟨hbase, hle⟩ := style.base_mem
  have hlt : ∀ d ∈ padded, d < style.base := by
    intro d hd
    rw [hpadded, List.mem_append] at hd
    rcases hd with hd | hd
    · exact Nat.digits_lt_base hbase hd
    · rw [List.eq_of_mem_replicate hd]
      omega
  have hmem : ∀ c ∈ padded.reverse.map (digitChar style.uppercase),
      ∃ d < 16, c = digitChar style.uppercase d := by
    intro c hc
    obtain ⟨d, hd, rfl⟩ := List.mem_map.mp hc
    exact ⟨d, lt_of_lt_of_le (hlt d (List.mem_reverse.mp hd)) hle, rfl⟩
  have hlength : padded.length = max minLength (digitCount style.base n) := by
    rw [hpadded, List.length_append, List.length_replicate]
    unfold digitCount
    split_ifs with hzero
    · have hpos : 0 < minLength := h.resolve_right (not_not.mpr hzero)
      rw [hzero, Nat.digits_zero, List.length_nil]
      omega
    · omega
  have hvalue : Nat.ofDigits style.base padded = n := by
    rw [hpadded, Nat.ofDigits_append_replicate_zero, Nat.ofDigits_digits]
  refine ⟨?_, ?_, ?_, ?_, ?_⟩
  · have hread := @readDigits_reverse style.base style.uppercase hle padded hlt 0 []
    have hne : padded.reverse.map (digitChar style.uppercase) ≠ [] := by
      have hpos := digitCount_pos style.base n
      rw [← List.length_pos_iff_ne_nil, List.length_map, List.length_reverse, hlength]
      omega
    rw [List.append_nil, Nat.zero_mul, Nat.zero_add, hvalue] at hread
    rw [readUnsigned, if_neg hne, hread, readDigits]
  · intro c hc
    obtain ⟨d, hd, rfl⟩ := hmem c hc
    exact digitChar_ne_minus hd
  · intro c hc
    obtain ⟨d, hd, rfl⟩ := hmem c hc
    exact hasCase_digitChar hd
  · rw [List.length_map, List.length_reverse, hlength]
  · intro c hc
    have hcount := length_digits_le_digitCount style.base n
    rw [hpadded, List.reverse_append, List.reverse_replicate, List.map_append,
      map_digitChar_zero,
      List.take_append_of_le_length (by rw [List.length_replicate]; omega)] at hc
    exact List.eq_of_mem_replicate (List.mem_of_mem_take hc)

theorem NumeralOf.ne_nil (h : NumeralOf style minLength n digits) : digits ≠ [] := by
  rintro rfl
  have := h.reads
  cases this

theorem NumeralOf.standsFor (h : NumeralOf style minLength n digits) :
    StandsFor style minLength n digits := by
  have hne := h.ne_nil
  cases digits with
  | nil => exact absurd rfl hne
  | cons c digits =>
      have hc : c ≠ charByte '-' := h.unsigned c List.mem_cons_self
      have hhead : (c :: digits).head? ≠ some (charByte '-') := fun heq => hc (Option.some.inj heq)
      have hmagnitude : magnitude (c :: digits) = c :: digits := if_neg hhead
      refine ⟨?_, ?_, h.cased, ?_, ?_⟩
      · rw [readInteger, if_neg hc, h.reads]
        rfl
      · exact iff_of_false hhead (by omega)
      · rw [hmagnitude, Int.natAbs_natCast, h.length]
      · rw [hmagnitude, Int.natAbs_natCast]
        exact h.leading

theorem NumeralOf.standsFor_neg (h : NumeralOf style minLength n digits) (hn : n ≠ 0) :
    StandsFor style minLength (-n) (charByte '-' :: digits) := by
  have hmagnitude : magnitude (charByte '-' :: digits) = digits := if_pos rfl
  refine ⟨?_, ?_, ?_, ?_, ?_⟩
  · rw [readInteger, if_pos rfl, h.reads]
    rfl
  · exact iff_of_true rfl (by omega)
  · refine List.forall_mem_cons.mpr ⟨?_, h.cased⟩
    cases style <;> decide
  · rw [hmagnitude, Int.natAbs_neg, Int.natAbs_natCast, h.length]
  · rw [hmagnitude, Int.natAbs_neg, Int.natAbs_natCast]
    exact h.leading

end StandsFor

namespace UnsignedIntegralFormatter

variable {formatter : UnsignedIntegralFormatter}

theorem formatTo_numeral {v : BitVec 64} (hlength : formatter.minLength ≤ 64)
    (h : 0 < formatter.minLength ∨ v.toNat ≠ 0) : ∃ digits, formatter.formatTo v = .ok digits ∧
      NumeralOf formatter.style formatter.minLength v.toNat digits :=
  ⟨_, convertUnsignedToString_eq formatter.style.base_mem hlength v.isLt, numeralOf_padded h rfl⟩

/-- **The integer formatters** write every value so that it is read back, with a sign only in front
of a negative one, in the case of the style and with as many zeros in front as the length asks for.
The length is not zero, or the value is not. -/
theorem formatTo_spec (formatter : UnsignedIntegralFormatter) (v : BitVec 64)
    (hlength : formatter.minLength ≤ 64) (h : 0 < formatter.minLength ∨ v ≠ 0) :
    (∃ text, formatter.formatTo v = .ok text ∧
      StandsFor formatter.style formatter.minLength v.toNat text) ∧
      ∃ text, formatter.formatSignedTo v = .ok text ∧
        StandsFor formatter.style formatter.minLength v.toInt text := by
  have hnat : 0 < formatter.minLength ∨ v.toNat ≠ 0 :=
    h.imp_right fun hv hzero => hv (BitVec.eq_of_toNat_eq hzero)
  obtain ⟨digits, hdigits, hnumeral⟩ := formatTo_numeral hlength hnat
  refine ⟨⟨digits, hdigits, hnumeral.standsFor⟩, ?_⟩
  by_cases hneg : v.toInt < 0
  · have hne : (-v).toNat ≠ 0 := by
      rw [BitVec.toInt_eq_toNat_cond] at hneg
      rw [BitVec.toNat_neg]
      split_ifs at hneg <;> omega
    have hvalue : v.toInt = -((-v).toNat : ℤ) := by
      rw [BitVec.toInt_eq_toNat_cond] at hneg ⊢
      rw [BitVec.toNat_neg]
      split_ifs at hneg ⊢ <;> omega
    obtain ⟨digits, hdigits, hnumeral⟩ := formatTo_numeral hlength (Or.inr hne)
    refine ⟨charByte '-' :: digits, ?_, ?_⟩
    · rw [formatSignedTo, if_pos hneg, hdigits, ok_bind, if_pos hneg]
      rfl
    · rw [hvalue]
      exact hnumeral.standsFor_neg hne
  · have hvalue : v.toInt = (v.toNat : ℤ) := by
      rw [BitVec.toInt_eq_toNat_cond] at hneg ⊢
      split_ifs at hneg ⊢ with hlt
      · rfl
      · omega
    refine ⟨digits, ?_, ?_⟩
    · rw [formatSignedTo, if_neg hneg, hdigits, ok_bind, if_neg hneg]
      rfl
    · rw [hvalue]
      exact hnumeral.standsFor

theorem formatTo_spec_least :
    (∃ text, formatTo ⟨.Binary, 64⟩ (BitVec.intMin 64) = .ok text ∧
      StandsFor .Binary 64 (BitVec.intMin 64).toNat text) ∧
      ∃ text, formatSignedTo ⟨.Binary, 64⟩ (BitVec.intMin 64) = .ok text ∧
        StandsFor .Binary 64 (BitVec.intMin 64).toInt text :=
  formatTo_spec ⟨.Binary, 64⟩ (BitVec.intMin 64) (by decide) (Or.inl (by decide))

/-- Of a length of zero, zero has no digit. -/
theorem formatTo_fails : ¬ ∃ text, formatTo ⟨.Decimal, 0⟩ 0 = .ok text ∧
    StandsFor .Decimal 0 ((0 : BitVec 64).toNat) text := by
  rintro ⟨text, hformat, hstands⟩
  have hempty : formatTo ⟨.Decimal, 0⟩ 0 = .ok [] := rfl
  obtain rfl : [] = text := Except.ok.inj (hempty.symm.trans hformat)
  cases hstands.reads

end UnsignedIntegralFormatter

end BekOS
