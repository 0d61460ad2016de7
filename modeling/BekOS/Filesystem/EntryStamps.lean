import BekOS.Filesystem.DirectoryParse

/-!
# An entry that is read and written back

`flush` reads an entry with `get_entry` and writes it with `update_entry`.  The
fields that are no stamps come back as they were.  The stamps do not: `decompose`
divides by the seconds of a mean year, which is no whole number of days, so the time
of day moves by 20952 seconds for each year since 1970.
-/

namespace BekOS

/-! ## The fields -/

section Fields

variable {memory : Memory Byte} {fatname : List Byte} {entry : BasicFATEntry}

theorem byte_ofMemory {i : ℕ} (h : i < 32) :
    (RawFATEntry.ofMemory memory 0).byte i = memory i := by
  simp [RawFATEntry.byte, RawFATEntry.ofMemory, h]

theorem leRead_ofMemory {off width : ℕ} (h : off + width ≤ 32) :
    leRead (RawFATEntry.ofMemory memory 0).byte off width = leRead memory off width :=
  leRead_congr fun i hi => byte_ofMemory (by omega)

/-- The fields of an item that is made from an entry. -/
theorem fields_fromBasic (hname : fatname.length = 11) :
    let item := RawFATEntry.fromBasic fatname entry
    let creation := UnixTimestamp.decompose entry.creationTimestamp
    let modified := UnixTimestamp.decompose entry.modifiedTimestamp
    (item.fatname = fatname ∧ item.attrib = entry.rawAttributes ∧
      item.clusterHigh = entry.dataCluster / 0x10000 % 0x10000 ∧
      item.clusterLow = entry.dataCluster % 0x10000 ∧ item.size = entry.size % 0x100000000) ∧
    item.createTime = dosTimeFrom creation % 0x10000 ∧
    item.createDate = dosDateFrom creation % 0x10000 ∧
    item.accessDate = dosDateFrom modified % 0x10000 ∧
    item.modifyTime = dosTimeFrom modified % 0x10000 ∧
    item.modifyDate = dosDateFrom modified % 0x10000 := by
  refine ⟨⟨?_, ?_, ?_, ?_, ?_⟩, ?_, ?_, ?_, ?_, ?_⟩
  · refine List.ext_getElem (by simp [RawFATEntry.fatname, hname]) fun i hi hi' => ?_
    have hsmall : i < 11 := hname ▸ hi'
    simp only [RawFATEntry.fatname, List.getElem_map, List.getElem_range]
    rw [RawFATEntry.fromBasic, byte_ofMemory (by omega)]
    simp (disch := omega) only [leWrite_of_not_mem]
    rw [if_neg (by omega), List.getD_eq_getElem?_getD, List.getElem?_eq_getElem hi',
      Option.getD_some]
  · rw [RawFATEntry.attrib, RawFATEntry.fromBasic, byte_ofMemory (by omega)]
    simp (disch := omega) only [leWrite_of_not_mem, if_true]
  · simp (disch := omega) only [RawFATEntry.clusterHigh, RawFATEntry.fromBasic, leRead_ofMemory,
      leRead_leWrite_of_disjoint, leRead_leWrite]
    rfl
  · simp (disch := omega) only [RawFATEntry.clusterLow, RawFATEntry.fromBasic, leRead_ofMemory,
      leRead_leWrite_of_disjoint, leRead_leWrite]
    rfl
  · simp (disch := omega) only [RawFATEntry.size, RawFATEntry.fromBasic, leRead_ofMemory,
      leRead_leWrite]
    rfl
  · simp (disch := omega) only [RawFATEntry.createTime, RawFATEntry.fromBasic, leRead_ofMemory,
      leRead_leWrite_of_disjoint, leRead_leWrite]
    rfl
  · simp (disch := omega) only [RawFATEntry.createDate, RawFATEntry.fromBasic, leRead_ofMemory,
      leRead_leWrite_of_disjoint, leRead_leWrite]
    rfl
  · simp (disch := omega) only [RawFATEntry.accessDate, RawFATEntry.fromBasic, leRead_ofMemory,
      leRead_leWrite_of_disjoint, leRead_leWrite]
    rfl
  · simp (disch := omega) only [RawFATEntry.modifyTime, RawFATEntry.fromBasic, leRead_ofMemory,
      leRead_leWrite_of_disjoint, leRead_leWrite]
    rfl
  · simp (disch := omega) only [RawFATEntry.modifyDate, RawFATEntry.fromBasic, leRead_ofMemory,
      leRead_leWrite_of_disjoint, leRead_leWrite]
    rfl

end Fields

/-! ## The stamps -/

/-- A packed time that is one of a day. -/
def ValidDosTime (time : ℕ) : Prop :=
  time < 0x10000 ∧ time / 2048 < 24 ∧ time / 32 % 64 < 60 ∧ time % 32 < 30

/-- The second of the day that a packed time is. -/
def secondOfDay (time : ℕ) : ℕ := time / 2048 * 3600 + time / 32 % 64 * 60 + time % 32 * 2

namespace UnixTimestamp

/-- The stamp of a date from 1980 to 2107 is that of a day and the time of day. -/
theorem fromDecomposed_eq {time : DecomposedTime} (hyear : 1980 ≤ time.year ∧ time.year < 2108)
    (hhour : time.hour < 24) (hminute : time.minute < 60) (hsecond : time.second < 60) :
    ∃ days, 3650 ≤ days ∧ days < 146097 ∧
      fromDecomposed time =
        days * secondsInDay + (time.hour * 3600 + time.minute * 60 + time.second) := by
  have hmonths : ∀ month < 12, monthDays.getD month 0 ≤ 365 := by decide
  unfold fromDecomposed
  rw [if_neg (show ¬ time.year < 1970 by omega)]
  dsimp only
  obtain ⟨month, hmonth, hmonth'⟩ : ∃ month < 13,
      (if time.month > 12 ∨ time.month < 1 then 1 else time.month) = month := by
    split_ifs with hout
    · exact ⟨1, by decide, rfl⟩
    · exact ⟨time.month, by omega, rfl⟩
  obtain ⟨day, hday, hday'⟩ : ∃ day < 32,
      (if time.day < 1 ∨ time.day > 31 then 1 else time.day) = day := by
    split_ifs with hout
    · exact ⟨1, by decide, rfl⟩
    · exact ⟨time.day, by omega, rfl⟩
  have hbefore := hmonths (month - 1) (by omega)
  rw [hmonth', hday']
  generalize monthDays.getD (month - 1) 0 = before at hbefore
  have hdays : 365 * (time.year - 1970) % 0x100000000 = 365 * (time.year - 1970) :=
    Nat.mod_eq_of_lt (by omega)
  have hhours : time.hour * 3600 % 0x100000000 = time.hour * 3600 := Nat.mod_eq_of_lt (by omega)
  have hminutes : time.minute * 60 % 0x100000000 = time.minute * 60 :=
    Nat.mod_eq_of_lt (by omega)
  -- The leap days of these years.
  have hfourth : 2 ≤ (time.year - 1) / 4 - 1969 / 4 ∧ (time.year - 1) / 4 - 1969 / 4 ≤ 34 := by
    omega
  have hcentury : (time.year - 1) / 100 - 1969 / 100 ≤ 2 := by omega
  have hfourhundred : (time.year - 1) / 400 - 1969 / 400 ≤ 1 := by omega
  rw [hdays, hhours, hminutes]
  have hrange : 3650 ≤ 365 * (time.year - 1970) + ((time.year - 1) / 4 - 1969 / 4) -
        ((time.year - 1) / 100 - 1969 / 100) + ((time.year - 1) / 400 - 1969 / 400) ∧
      365 * (time.year - 1970) + ((time.year - 1) / 4 - 1969 / 4) -
        ((time.year - 1) / 100 - 1969 / 100) + ((time.year - 1) / 400 - 1969 / 400) ≤ 51000 := by
    omega
  generalize 365 * (time.year - 1970) + ((time.year - 1) / 4 - 1969 / 4) -
    ((time.year - 1) / 100 - 1969 / 100) + ((time.year - 1) / 400 - 1969 / 400) = base at hrange
  unfold secondsInDay
  split_ifs with hleap
  · refine ⟨base + before + 1 + (day - 1), by omega, by omega, ?_⟩
    rw [Nat.mod_eq_of_lt (by omega)]
    omega
  · refine ⟨base + before + (day - 1), by omega, by omega, ?_⟩
    rw [Nat.mod_eq_of_lt (by omega)]
    omega

/-- Seconds of a number of days lose 20952 of a day for each mean year, which is no day
before there are 400 of them. -/
theorem mod_secondsInYear_ne {days second : ℕ} (hlow : 3650 ≤ days) (hhigh : days < 146097)
    (hsecond : second < secondsInDay) (heven : second % 2 = 0) :
    (days * secondsInDay + second) % secondsInYear % secondsInDay ≠ second ∧
      (days * secondsInDay + second) % secondsInYear % secondsInDay % 2 = 0 := by
  unfold secondsInDay secondsInYear at *
  have hyears := Nat.div_add_mod (days * 86400 + second) 31556952
  have hdays := Nat.div_add_mod ((days * 86400 + second) % 31556952) 86400
  generalize (days * 86400 + second) / 31556952 = years at hyears
  generalize (days * 86400 + second) % 31556952 / 86400 = wholeDays at hdays
  have hyear : (days * 86400 + second) % 31556952 < 31556952 := Nat.mod_lt _ (by decide)
  generalize (days * 86400 + second) % 31556952 = leftover at *
  generalize leftover % 86400 = leftoverInDay at *
  refine ⟨fun heq => ?_, by omega⟩
  subst heq
  have hpos : 0 < years := by omega
  have hless : years < 400 := by omega
  omega

theorem second_split {second : ℕ} (heven : second % 2 = 0) :
    second / 3600 * 3600 + second % 3600 / 60 * 60 + second % 60 / 2 * 2 = second := by
  omega

theorem secondOfDay_dosTimeFrom {second time : ℕ} (hsecond : second < secondsInDay)
    (heven : second % 2 = 0)
    (h : second / 3600 % 32 * 2048 + second % 3600 / 60 % 64 * 32 + second % 60 / 2 % 32 = time) :
    secondOfDay time = second := by
  unfold secondsInDay at hsecond
  unfold secondOfDay
  have hhour : second / 3600 % 32 = second / 3600 := Nat.mod_eq_of_lt (by omega)
  have hminute : second % 3600 / 60 % 64 = second % 3600 / 60 := Nat.mod_eq_of_lt (by omega)
  have hhalf : second % 60 / 2 % 32 = second % 60 / 2 := Nat.mod_eq_of_lt (by omega)
  rw [hhour, hminute, hhalf] at h
  have h₁ : time / 2048 = second / 3600 := by omega
  have h₂ : time / 32 % 64 = second % 3600 / 60 := by omega
  have h₃ : time % 32 = second % 60 / 2 := by omega
  rw [h₁, h₂, h₃]
  exact second_split heven

/-- **The time of day is not kept**, in any of these years. -/
theorem dosTimeFrom_decompose_ne (date : ℕ) {time : ℕ} (h : ValidDosTime time) :
    dosTimeFrom (decompose (fromDecomposed (datetimeFromDos date time))) ≠ time := by
  obtain ⟨hword, hhour, hminute, hsecond⟩ := h
  have hyear : date / 512 % 128 < 128 := Nat.mod_lt _ (by decide)
  have hhour' : time / 2048 % 32 = time / 2048 := Nat.mod_eq_of_lt (by omega)
  obtain ⟨days, hlow, hhigh, hstamp⟩ := @fromDecomposed_eq (datetimeFromDos date time)
    ⟨Nat.le_add_left _ _, Nat.add_lt_add_right hyear 1980⟩ (hhour'.trans_lt hhour) hminute
    (show time % 32 * 2 < 60 by omega)
  have hsecondOfDay : (datetimeFromDos date time).hour * 3600 +
      (datetimeFromDos date time).minute * 60 + (datetimeFromDos date time).second =
        secondOfDay time := by
    unfold datetimeFromDos secondOfDay
    rw [hhour']
  rw [hsecondOfDay] at hstamp
  have hday : secondOfDay time < secondsInDay := by
    unfold secondOfDay secondsInDay
    omega
  have heven : secondOfDay time % 2 = 0 := by
    unfold secondOfDay
    omega
  obtain ⟨hmoved, heven'⟩ := mod_secondsInYear_ne hlow hhigh hday heven
  rw [hstamp]
  intro heq
  exact hmoved (secondOfDay_dosTimeFrom (Nat.mod_lt _ (by decide)) heven' heq).symm

end UnixTimestamp

/-! ## Writing back -/

/-- The slot that `flush` writes where nothing of the entry has changed. -/
def PackedFATEntry.writtenBack (packed : PackedFATEntry) : RawFATEntry :=
  .fromBasic packed.entry.fatname packed.toBasic

/-- The stamps of two slots are the same. -/
def RawFATEntry.SameStamps (e e' : RawFATEntry) : Prop :=
  e.createTime = e'.createTime ∧ e.createDate = e'.createDate ∧ e.accessDate = e'.accessDate ∧
    e.modifyTime = e'.modifyTime ∧ e.modifyDate = e'.modifyDate

/-- The other fields of two slots are the same. -/
def RawFATEntry.SameFields (e e' : RawFATEntry) : Prop :=
  e.fatname = e'.fatname ∧ e.attrib = e'.attrib ∧ e.clusterHigh = e'.clusterHigh ∧
    e.clusterLow = e'.clusterLow ∧ e.size = e'.size

theorem dosTimeFrom_lt (time : DecomposedTime) : dosTimeFrom time < 0x10000 := by
  unfold dosTimeFrom
  omega

theorem PackedFATEntry.sameFields_writtenBack (packed : PackedFATEntry) :
    packed.writtenBack.SameFields packed.entry := by
  have hname : packed.entry.fatname.length = 11 := by
    rw [RawFATEntry.fatname, List.length_map, List.length_range]
  obtain ⟨⟨hfatname, hattrib, hhigh, hlow, hsize⟩, -⟩ :=
    @fields_fromBasic _ packed.toBasic hname
  have hlowLt : packed.entry.clusterLow < 0x10000 := leRead_lt _ _ 2
  have hhighLt : packed.entry.clusterHigh < 0x10000 := leRead_lt _ _ 2
  have hsizeLt : packed.entry.size < 0x100000000 := leRead_lt _ _ 4
  have hcluster : packed.toBasic.dataCluster =
      packed.entry.clusterLow + packed.entry.clusterHigh * 0x10000 := rfl
  refine ⟨hfatname, hattrib, hhigh.trans ?_, hlow.trans ?_, hsize.trans ?_⟩
  · rw [hcluster]
    omega
  · rw [hcluster]
    omega
  · exact Nat.mod_eq_of_lt hsizeLt

/-- **The stamps are never written back as they were**, whatever the dates are; the
other fields always are. -/
theorem PackedFATEntry.writtenBack_stamps (packed : PackedFATEntry)
    (hcreate : ValidDosTime packed.entry.createTime)
    (hmodify : ValidDosTime packed.entry.modifyTime) :
    packed.writtenBack.SameFields packed.entry ∧
      packed.writtenBack.createTime ≠ packed.entry.createTime ∧
      packed.writtenBack.modifyTime ≠ packed.entry.modifyTime ∧
      ¬ packed.writtenBack.SameStamps packed.entry := by
  have hname : packed.entry.fatname.length = 11 := by
    rw [RawFATEntry.fatname, List.length_map, List.length_range]
  obtain ⟨-, hcreated, -, -, hmodified, -⟩ := @fields_fromBasic _ packed.toBasic hname
  rw [Nat.mod_eq_of_lt (dosTimeFrom_lt _)] at hcreated hmodified
  have hcreateNe : packed.writtenBack.createTime ≠ packed.entry.createTime :=
    hcreated.trans_ne (UnixTimestamp.dosTimeFrom_decompose_ne _ hcreate)
  have hmodifyNe : packed.writtenBack.modifyTime ≠ packed.entry.modifyTime :=
    hmodified.trans_ne (UnixTimestamp.dosTimeFrom_decompose_ne _ hmodify)
  exact ⟨packed.sameFields_writtenBack, hcreateNe, hmodifyNe, fun hsame => hcreateNe hsame.1⟩

/-- A file of the first of January 2000, at noon. -/
def itemNoon : RawFATEntry :=
  .ofBytes ([0x41, 32, 32, 32, 32, 32, 32, 32, 32, 32, 32, 0x20, 0, 0, 0, 0x60, 0x21, 0x28, 0x21,
    0x28, 0, 0, 0, 0x60, 0x21, 0x28, 3, 0, 5, 0, 0, 0] : List Byte)

theorem writtenBack_stamps_noon :
    (PackedFATEntry.writtenBack ⟨[], itemNoon⟩).SameFields itemNoon ∧
      (PackedFATEntry.writtenBack ⟨[], itemNoon⟩).createTime ≠ itemNoon.createTime ∧
      (PackedFATEntry.writtenBack ⟨[], itemNoon⟩).modifyTime ≠ itemNoon.modifyTime ∧
      ¬ (PackedFATEntry.writtenBack ⟨[], itemNoon⟩).SameStamps itemNoon :=
  PackedFATEntry.writtenBack_stamps ⟨[], itemNoon⟩ (by unfold ValidDosTime; decide +kernel)
    (by unfold ValidDosTime; decide +kernel)

/-- It comes back from 05:24:00. -/
theorem writtenBack_stamps_fails :
    (PackedFATEntry.writtenBack ⟨[], itemNoon⟩).createTime = 5 * 2048 + 24 * 32 ∧
      ¬ (PackedFATEntry.writtenBack ⟨[], itemNoon⟩).SameStamps itemNoon := by
  refine ⟨by decide +kernel, fun hsame => absurd hsame.1 (by decide +kernel)⟩

end BekOS
