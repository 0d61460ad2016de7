import BekOS.Filesystem.DirectoryLoops
import Mathlib.Data.List.TakeWhile

/-!
# What a directory holds

The reference reading of a sequence of slots, and when `get_entries` agrees with
it.  A complete long name stands right before its item, with the pieces in
descending order; the reference takes nothing else for one.  `get_entries` takes
whatever it has collected since the last item, from the first piece that may begin
a name on, and it puts the pieces together in the order in which they are stored.
-/

namespace BekOS

universe u

/-! ## The reference -/

/-- The slots before the end of the directory. -/
def liveSlots (slots : List RawFATEntry) : List RawFATEntry :=
  slots.takeWhile (·.type ≠ .EndOfDirectory)

/-- The pieces of a long name, all of them, in the order in which they are stored. -/
def IsLongNameSet (pieces : List RawFATEntry) (checksum : Byte) : Prop :=
  pieces ≠ [] ∧ pieces.length < 64 ∧
    ∀ i e, pieces[i]? = some e → e.type = .LongFileName ∧ e.checksum = checksum ∧
      e.order.toNat = if i = 0 then pieces.length ||| 0x40 else pieces.length - i

/-- The characters of units up to the first that is zero, in a string. -/
def nameOfUnits (units : List ℕ) : List Byte :=
  cString ((units.takeWhile (· ≠ 0)).map (BitVec.ofNat 8))

/-- The long name: the last piece stored comes first. -/
def longName (pieces : List RawFATEntry) : List Byte :=
  nameOfUnits (pieces.reverse.flatMap RawFATEntry.chars)

/-- The last slots of `before` are the pieces of a long name for the item. -/
def EndsInLongName (before : List RawFATEntry) (item : RawFATEntry) (n : ℕ) : Prop :=
  n ≤ before.length ∧
    IsLongNameSet (before.drop (before.length - n)) (checksumShortname item.fatname)

instance (pieces : List RawFATEntry) (checksum : Byte) :
    Decidable (IsLongNameSet pieces checksum) :=
  decidable_of_iff (pieces ≠ [] ∧ pieces.length < 64 ∧
    ∀ i < pieces.length, ∀ e ∈ pieces[i]?, e.type = .LongFileName ∧ e.checksum = checksum ∧
      e.order.toNat = if i = 0 then pieces.length ||| 0x40 else pieces.length - i)
    (and_congr_right fun _ => and_congr_right fun _ =>
      ⟨fun h i e he => h i (List.getElem?_eq_some_iff.mp he).1 e he,
        fun h i _ e he => h i e he⟩)

instance (before : List RawFATEntry) (item : RawFATEntry) (n : ℕ) :
    Decidable (EndsInLongName before item n) :=
  inferInstanceAs (Decidable (_ ∧ _))

/-- The entry of an item with a name, at a place of the directory. -/
def RawFATEntry.withName (item : RawFATEntry) (name : List Byte) (startCluster place : ℕ) :
    LocatedFATEntry :=
  ⟨{ PackedFATEntry.toBasic ⟨[], item⟩ with name := name }, ⟨startCluster, place⟩⟩

/-- The entry of an item that stands behind the slots `before`. -/
def referenceEntry (startCluster : ℕ) (before : List RawFATEntry) (item : RawFATEntry) :
    LocatedFATEntry :=
  match (List.range' 1 63).find? fun n => decide (EndsInLongName before item n) with
  | some n =>
      item.withName (longName (before.drop (before.length - n))) startCluster (before.length - n)
  | none => item.withName (shortNameToString item.fatname) startCluster before.length

/-- One result for each item, which may depend on the slots before it. -/
def perItem (entryOf : List RawFATEntry → RawFATEntry → LocatedFATEntry) :
    List RawFATEntry → List RawFATEntry → List LocatedFATEntry
  | _, [] => []
  | before, e :: rest =>
      (if e.type = .Normal then [entryOf before e] else []) ++
        perItem entryOf (before ++ [e]) rest

theorem mem_perItem {entryOf : List RawFATEntry → RawFATEntry → LocatedFATEntry}
    {located : LocatedFATEntry} (slots : List RawFATEntry) :
    ∀ before, located ∈ perItem entryOf before slots → ∃ seen item after,
      slots = seen ++ item :: after ∧ item.type = .Normal ∧
        located = entryOf (before ++ seen) item := by
  induction slots with
  | nil => exact fun before h => absurd h List.not_mem_nil
  | cons e slots ih =>
      intro before h
      rw [perItem] at h
      rcases List.mem_append.mp h with hfirst | hrest
      · split_ifs at hfirst with hitem
        · exact ⟨[], e, slots, rfl, hitem, by rw [List.mem_singleton.mp hfirst, List.append_nil]⟩
        · exact absurd hfirst List.not_mem_nil
      · obtain ⟨seen, item, after, rfl, hitem, rfl⟩ := ih (before ++ [e]) hrest
        exact ⟨e :: seen, item, after, rfl, hitem, by
          rw [List.append_assoc, List.singleton_append]⟩

/-- **The reference parse** of a directory. -/
def referenceParse (startCluster : ℕ) (slots : List RawFATEntry) : List LocatedFATEntry :=
  perItem (referenceEntry startCluster) [] (liveSlots slots)

/-! ## When `get_entries` agrees -/

/-- The slot may begin a long name. -/
def RawFATEntry.StartsLongName (e : RawFATEntry) : Prop :=
  e.type = .LongFileName ∧ e.order &&& 0x40 ≠ 0
deriving Decidable

/-- The slots from the first that may begin a long name on, of those behind the last
item of `before`. -/
def startedSlots (before : List RawFATEntry) : List RawFATEntry :=
  (before.reverse.takeWhile (·.type ≠ .Normal)).reverse.dropWhile (¬ ·.StartsLongName)

/-- An item that `get_entries` reads right: no name has been begun since the last
item, or one that is complete and reads the same in the order in which its pieces
are stored; and its place can be held in 32 bits. -/
def ReadsRight (before : List RawFATEntry) (item : RawFATEntry) : Prop :=
  before.length - (startedSlots before).length < 0x100000000 ∧
    (startedSlots before = [] ∨
      IsLongNameSet (startedSlots before) (checksumShortname item.fatname) ∧
        nameOfUnits ((startedSlots before).flatMap RawFATEntry.chars) =
          longName (startedSlots before))

/-- No item follows an end marker in the first slot, and every item is read right. -/
def ParsesRight (slots : List RawFATEntry) : Prop :=
  ∀ before item after, visitedSlots slots = before ++ item :: after → item.type = .Normal →
    (slots.head?.map RawFATEntry.type ≠ some .EndOfDirectory) ∧ ReadsRight before item

/-! ## Slots that have been begun -/

section Started

variable {before rest : List RawFATEntry} {e : RawFATEntry}

theorem startedSlots_append_item (h : e.type = .Normal) : startedSlots (before ++ [e]) = [] := by
  rw [startedSlots, List.reverse_append, List.reverse_singleton, List.singleton_append,
    List.takeWhile_cons_of_neg (by simp [h])]
  rfl

theorem startedSlots_append (h : e.type ≠ .Normal) :
    startedSlots (before ++ [e]) =
      if startedSlots before = [] then (if e.StartsLongName then [e] else [])
      else startedSlots before ++ [e] := by
  have hsince : (before ++ [e]).reverse.takeWhile (·.type ≠ .Normal) =
      e :: before.reverse.takeWhile (·.type ≠ .Normal) := by
    rw [List.reverse_append, List.reverse_singleton, List.singleton_append,
      List.takeWhile_cons_of_pos (by simpa using h)]
  have hstarted : startedSlots (before ++ [e]) = if (startedSlots before).isEmpty then
      [e].dropWhile (¬ ·.StartsLongName) else startedSlots before ++ [e] := by
    rw [startedSlots, hsince, List.reverse_cons]
    exact List.dropWhile_append
  rw [hstarted]
  by_cases hnone : startedSlots before = []
  · rw [if_pos (List.isEmpty_iff.mpr hnone), if_pos hnone]
    split_ifs with hstarts
    · exact List.dropWhile_cons_of_neg (by simpa using hstarts)
    · exact List.dropWhile_cons_of_pos (by simpa using hstarts)
  · rw [if_neg fun h => hnone (List.isEmpty_iff.mp h), if_neg hnone]

theorem startedSlots_starts {first : RawFATEntry} (h : startedSlots before = first :: rest) :
    first.StartsLongName := by
  unfold startedSlots at h
  have hhead := List.head?_dropWhile_not (fun e : RawFATEntry => decide (¬ e.StartsLongName))
    (before.reverse.takeWhile (·.type ≠ .Normal)).reverse
  rw [h] at hhead
  simpa using hhead

theorem startedSlots_suffix : startedSlots before <:+ before := by
  have hsince : (before.reverse.takeWhile (·.type ≠ .Normal)).reverse <:+ before := by
    have hprefix := List.takeWhile_prefix (fun e : RawFATEntry => decide (e.type ≠ .Normal))
      (l := before.reverse)
    rw [← List.reverse_prefix, List.reverse_reverse]
    exact hprefix
  exact (List.dropWhile_suffix _).trans hsince

/-- Slots that begin with one that may begin a name, and are no items, add to what
has been begun. -/
theorem startedSlots_append_pieces (hstarts : e.StartsLongName)
    (hpieces : ∀ piece ∈ rest, piece.type ≠ .Normal) :
    startedSlots (before ++ e :: rest) = startedSlots before ++ e :: rest := by
  induction rest using List.reverseRecOn with
  | nil =>
      rw [startedSlots_append (by rw [hstarts.1]; decide), if_pos hstarts]
      split_ifs with hnone
      · rw [hnone, List.nil_append]
      · rfl
  | append_singleton rest piece ih =>
      have hrest := ih fun other hother => hpieces other (List.mem_append_left _ hother)
      have hpiece := hpieces piece (List.mem_append_right _ (List.mem_singleton_self piece))
      rw [← List.cons_append, ← List.append_assoc, startedSlots_append hpiece, hrest,
        if_neg (by simp), List.append_assoc]

end Started

/-! ## The pieces of a complete name -/

section Pieces

variable {pieces before : List RawFATEntry} {checksum : Byte} {item : RawFATEntry} {n : ℕ}

namespace IsLongNameSet

theorem of_mem (h : IsLongNameSet pieces checksum) {e : RawFATEntry} (he : e ∈ pieces) :
    e.type = .LongFileName ∧ e.checksum = checksum := by
  obtain ⟨i, hi⟩ := List.mem_iff_getElem?.mp he
  exact ⟨(h.2.2 i e hi).1, (h.2.2 i e hi).2.1⟩

theorem or_flag (hn : n < 64) : n ||| 0x40 = n + 0x40 := by
  rw [Nat.or_comm]
  exact (Nat.two_pow_add_eq_or_of_lt (i := 6) (b := n) (by omega) 1).symm.trans (by omega)

theorem toNat_order_low (order : Byte) : (order &&& 0x3F).toNat = order.toNat % 64 := by
  rw [BitVec.toNat_and]
  exact Nat.and_two_pow_sub_one_eq_mod order.toNat 6

theorem order_low (h : IsLongNameSet pieces checksum) {i : ℕ} {e : RawFATEntry}
    (he : pieces[i]? = some e) : (e.order &&& 0x3F).toNat = pieces.length - i := by
  have hlen := h.2.1
  have hi : i < pieces.length := (List.getElem?_eq_some_iff.mp he).1
  rw [toNat_order_low, (h.2.2 i e he).2.2]
  split_ifs with hfirst
  · rw [or_flag hlen]
    omega
  · omega

theorem starts {first : RawFATEntry} {rest : List RawFATEntry}
    (h : IsLongNameSet (first :: rest) checksum) : first.StartsLongName := by
  obtain ⟨htype, -, horder⟩ := h.2.2 0 first rfl
  refine ⟨htype, fun hclear => ?_⟩
  have hbit : first.order.getLsbD 6 = false := by
    have := congrArg (fun bits : Byte => bits.getLsbD 6) hclear
    simpa using this
  rw [if_pos rfl, or_flag h.2.1] at horder
  have hlt := h.2.1
  rw [BitVec.getLsbD, Nat.testBit_eq_decide_div_mod_eq, decide_eq_false_iff_not] at hbit
  omega

end IsLongNameSet

theorem EndsInLongName.pos (h : EndsInLongName before item n) : 0 < n := by
  by_contra hzero
  refine h.2.1 ?_
  rw [Nat.eq_zero_of_not_pos hzero, Nat.sub_zero, List.drop_length]

theorem EndsInLongName.le_started (h : EndsInLongName before item n) :
    n ≤ (startedSlots before).length := by
  obtain ⟨hle, hset⟩ := h
  have hsplit := List.take_append_drop (before.length - n) before
  have hlength : (before.drop (before.length - n)).length = n := by
    rw [List.length_drop]
    omega
  cases hpieces : before.drop (before.length - n) with
  | nil => exact absurd hpieces hset.1
  | cons first rest =>
      rw [hpieces] at hset hsplit hlength
      have hstarted : startedSlots (before.take (before.length - n) ++ first :: rest) =
          startedSlots (before.take (before.length - n)) ++ first :: rest :=
        startedSlots_append_pieces hset.starts fun piece hpiece => by
          rw [(hset.of_mem (List.mem_cons_of_mem _ hpiece)).1]
          decide
      rw [hsplit] at hstarted
      rw [hstarted, List.length_append, hlength]
      omega

theorem EndsInLongName.not_lt {n' : ℕ} (h : EndsInLongName before item n)
    (h' : EndsInLongName before item n') : ¬ n < n' := by
  intro hlt
  have hpos := h.pos
  obtain ⟨hle, hset⟩ := h
  obtain ⟨hle', hset'⟩ := h'
  have hget : before.length - n < before.length := by omega
  have hfirst : (before.drop (before.length - n))[0]? = some before[before.length - n] := by
    rw [List.getElem?_drop, Nat.add_zero, List.getElem?_eq_getElem hget]
  have hlater : (before.drop (before.length - n'))[n' - n]? = some before[before.length - n] := by
    rw [List.getElem?_drop, show before.length - n' + (n' - n) = before.length - n by omega,
      List.getElem?_eq_getElem hget]
  have hlength : (before.drop (before.length - n)).length = n := by
    rw [List.length_drop]
    omega
  have hlength' : (before.drop (before.length - n')).length = n' := by
    rw [List.length_drop]
    omega
  have hmarked := (hset.2.2 0 _ hfirst).2.2
  have hunmarked := (hset'.2.2 _ _ hlater).2.2
  have hbound := hset.2.1
  rw [hlength] at hmarked hbound
  rw [if_pos rfl, IsLongNameSet.or_flag hbound] at hmarked
  rw [if_neg (by omega), hlength'] at hunmarked
  omega

theorem EndsInLongName.unique {n' : ℕ} (h : EndsInLongName before item n)
    (h' : EndsInLongName before item n') : n = n' :=
  Nat.le_antisymm (Nat.not_lt.mp (h'.not_lt h)) (Nat.not_lt.mp (h.not_lt h'))

theorem find_endsInLongName (h : EndsInLongName before item n) :
    ((List.range' 1 63).find? fun n => decide (EndsInLongName before item n)) = some n := by
  have hlength : (before.drop (before.length - n)).length = n := by
    rw [List.length_drop]
    have := h.1
    omega
  have hmem : n ∈ List.range' 1 63 := by
    have hpos := h.pos
    have hbound := h.2.2.1
    rw [hlength] at hbound
    rw [List.mem_range'_1]
    omega
  cases hfind : (List.range' 1 63).find? fun n => decide (EndsInLongName before item n) with
  | none => exact absurd (decide_eq_true h) (List.find?_eq_none.mp hfind n hmem)
  | some found =>
      have hfound := List.find?_some hfind
      rw [(of_decide_eq_true hfound : EndsInLongName before item found).unique h]

end Pieces

/-! ## The entry that `get_entries` makes -/

section Entry

variable {pieces before : List RawFATEntry} {checksum : Byte} {item : RawFATEntry}

theorem takeWhile_append_of_mem {units rest : List ℕ} (h : 0 ∈ units) :
    (units ++ rest).takeWhile (· ≠ 0) = units.takeWhile (· ≠ 0) := by
  rw [List.takeWhile_append, if_neg]
  intro hlength
  have hall := (List.takeWhile_prefix fun unit : ℕ => decide (unit ≠ 0)).eq_of_length hlength
  have hzero := List.takeWhile_eq_self_iff.mp hall 0 h
  exact absurd rfl (of_decide_eq_true hzero)

/-- The loop over the pieces of a complete name gets to its end, or to a unit that is
zero. -/
theorem writePieces_eq {n : Byte} :
    ∀ (pieces : List RawFATEntry) (i : ℕ) (builder : List Byte),
      (∀ j e, pieces[j]? = some e → e.checksum = checksum ∧
        (e.order &&& 0x3F).toNat = n.toNat - (i + j)) →
      PackedFATEntry.writePieces n checksum i pieces builder =
        .ok (cString (builder ++
          ((pieces.flatMap RawFATEntry.chars).takeWhile (· ≠ 0)).map (BitVec.ofNat 8))) := by
  intro pieces
  induction pieces with
  | nil =>
      intro i builder _
      rw [PackedFATEntry.writePieces, List.flatMap_nil, List.takeWhile_nil, List.map_nil,
        List.append_nil]
  | cons e rest ih =>
      intro i builder h
      obtain ⟨hchecksum, horder⟩ := h 0 e rfl
      rw [Nat.add_zero] at horder
      have hrest := ih (i + 1) (builder ++ (e.chars.takeWhile (· ≠ 0)).map (BitVec.ofNat 8))
        fun j piece hj => by
          have := h (j + 1) piece hj
          rwa [show i + 1 + j = i + (j + 1) by omega]
      rw [PackedFATEntry.writePieces, if_neg (not_not_intro horder),
        if_neg (not_not_intro hchecksum), List.flatMap_cons]
      dsimp only
      by_cases hzero : 0 ∈ e.chars
      · rw [if_pos hzero, takeWhile_append_of_mem hzero]
      · have hwhole : ∀ unit ∈ e.chars, decide (unit ≠ 0) = true := fun unit hunit =>
          decide_eq_true fun heq => hzero (heq ▸ hunit)
        rw [if_neg hzero, hrest, List.takeWhile_eq_self_iff.mpr hwhole,
          List.takeWhile_append_of_pos hwhole, List.map_append, List.append_assoc]

theorem extractName_eq (h : IsLongNameSet pieces (checksumShortname item.fatname)) :
    PackedFATEntry.extractName ⟨pieces, item⟩ =
      nameOfUnits (pieces.flatMap RawFATEntry.chars) := by
  cases pieces with
  | nil => exact absurd rfl h.1
  | cons first rest =>
      have hlow := h.order_low (i := 0) rfl
      rw [Nat.sub_zero] at hlow
      have hagree : ∀ j e, (first :: rest)[j]? = some e →
          e.checksum = checksumShortname item.fatname ∧
            (e.order &&& 0x3F).toNat = (first.order &&& 0x3F).toNat - (0 + j) := fun j e hj =>
        ⟨(h.2.2 j e hj).2.1, by rw [h.order_low hj, hlow, Nat.zero_add]⟩
      have hloop := writePieces_eq (first :: rest) 0 [] hagree
      have hlong : PackedFATEntry.extractLongName ⟨first :: rest, item⟩ =
          .ok (nameOfUnits ((first :: rest).flatMap RawFATEntry.chars)) := by
        unfold PackedFATEntry.extractLongName
        dsimp only
        rw [if_neg h.starts.2, if_neg (not_not_intro hlow), hloop, List.nil_append, nameOfUnits]
      rw [PackedFATEntry.extractName, hlong]

/-- The pieces `get_entries` has collected. -/
def collected (before : List RawFATEntry) : List RawFATEntry :=
  (startedSlots before).filter (·.type = .LongFileName)

theorem collected_eq_nil_iff : collected before = [] ↔ startedSlots before = [] := by
  constructor
  · intro h
    cases hstarted : startedSlots before with
    | nil => rfl
    | cons first rest =>
        rw [collected, hstarted,
          List.filter_cons_of_pos (by simpa using (startedSlots_starts hstarted).1)] at h
        cases h
  · intro h
    rw [collected, h, List.filter_nil]

/-- The entry of an item as `get_entries` makes it. -/
def scannedEntry (startCluster : ℕ) (before : List RawFATEntry) (item : RawFATEntry) :
    LocatedFATEntry :=
  item.withName (PackedFATEntry.extractName ⟨collected before, item⟩) startCluster
    ((before.length - (startedSlots before).length) % 0x100000000)

theorem length_drop_started :
    before.drop (before.length - (startedSlots before).length) = startedSlots before :=
  (List.suffix_iff_eq_drop.mp startedSlots_suffix).symm

theorem collected_of_complete (h : IsLongNameSet (startedSlots before) checksum) :
    collected before = startedSlots before :=
  List.filter_eq_self.mpr fun _ he => decide_eq_true (h.of_mem he).1

theorem withName_inj {name name' : List Byte} {startCluster place place' : ℕ} :
    item.withName name startCluster place = item.withName name' startCluster place' ↔
      name = name' ∧ place = place' := by
  simp [RawFATEntry.withName]

theorem withName_extractName {startCluster place : ℕ} :
    item.withName (PackedFATEntry.extractName ⟨pieces, item⟩) startCluster place =
      ⟨PackedFATEntry.toBasic ⟨pieces, item⟩, ⟨startCluster, place⟩⟩ := by
  simp only [RawFATEntry.withName, PackedFATEntry.toBasic]

/-- **The entry is right exactly when the item is read right.** -/
theorem scannedEntry_eq_iff (startCluster : ℕ) :
    scannedEntry startCluster before item = referenceEntry startCluster before item ↔
      ReadsRight before item := by
  have hsuffix : (startedSlots before).length ≤ before.length := startedSlots_suffix.length_le
  have hmod := Nat.mod_le (before.length - (startedSlots before).length) 0x100000000
  unfold scannedEntry referenceEntry ReadsRight
  by_cases hname : ∃ n, EndsInLongName before item n
  · obtain ⟨n, hn⟩ := hname
    have hle := hn.le_started
    have hpos := hn.pos
    rw [find_endsInLongName hn]
    dsimp only
    rw [withName_inj]
    constructor
    · rintro ⟨hsame, hplace⟩
      have hlength : n = (startedSlots before).length := by
        have := hn.1
        omega
      subst hlength
      have hset := hn.2
      rw [length_drop_started] at hset hsame
      rw [collected_of_complete hset, extractName_eq hset] at hsame
      refine ⟨?_, Or.inr ⟨hset, hsame⟩⟩
      rw [← hplace]
      exact Nat.mod_lt _ (by decide)
    · rintro ⟨hlt, hnone | ⟨hset, hsame⟩⟩
      · rw [hnone, List.length_nil] at hle
        omega
      · have hlength : n = (startedSlots before).length := hn.unique
          ⟨hsuffix, length_drop_started.symm ▸ hset⟩
        subst hlength
        rw [length_drop_started, collected_of_complete hset, extractName_eq hset]
        exact ⟨hsame, Nat.mod_eq_of_lt hlt⟩
  · have hfind : ((List.range' 1 63).find? fun n => decide (EndsInLongName before item n)) =
        none :=
      List.find?_eq_none.mpr fun n _ hn => hname ⟨n, of_decide_eq_true hn⟩
    rw [hfind]
    dsimp only
    rw [withName_inj]
    constructor
    · rintro ⟨-, hplace⟩
      have hnone : startedSlots before = [] := List.length_eq_zero_iff.mp (by omega)
      refine ⟨?_, Or.inl hnone⟩
      rw [hnone, List.length_nil, Nat.sub_zero] at hplace ⊢
      rw [← hplace]
      exact Nat.mod_lt _ (by decide)
    · rintro ⟨hlt, hnone | ⟨hset, -⟩⟩
      · rw [collected_eq_nil_iff.mpr hnone]
        rw [hnone, List.length_nil, Nat.sub_zero] at hlt ⊢
        exact ⟨rfl, Nat.mod_eq_of_lt hlt⟩
      · exact absurd ⟨_, hsuffix, length_drop_started.symm ▸ hset⟩ hname

end Entry

/-! ## The scan -/

section Scan

variable {before rest : List RawFATEntry} {e : RawFATEntry} {scan : EntryScan}

/-- What has been collected, and where it began. -/
def EntryScan.Describes (scan : EntryScan) (before : List RawFATEntry) : Prop :=
  scan.workingEntry = collected before ∧
    (collected before ≠ [] → scan.indexInDirectory =
      (before.length - (startedSlots before).length) % 0x100000000)

theorem EntryScan.Describes.located (h : scan.Describes before) :
    scan.located before.length =
      (before.length - (startedSlots before).length) % 0x100000000 := by
  unfold EntryScan.located
  rw [h.1]
  split_ifs with hnone
  · rw [collected_eq_nil_iff.mp hnone, List.length_nil, Nat.sub_zero]
  · exact h.2 hnone

theorem collected_append (h : e.type ≠ .Normal) (hstarted : startedSlots before ≠ []) :
    collected (before ++ [e]) =
      collected before ++ if e.type = .LongFileName then [e] else [] := by
  rw [collected, startedSlots_append h, if_neg hstarted, List.filter_append, collected]
  congr 1
  by_cases htype : e.type = .LongFileName
  · rw [if_pos htype, List.filter_cons_of_pos (by simpa using htype), List.filter_nil]
  · rw [if_neg htype, List.filter_cons_of_neg (by simpa using htype), List.filter_nil]

theorem EntryScan.Describes.append (h : scan.Describes before) (hitem : e.type ≠ .Normal)
    (hstarted : startedSlots before ≠ []) (index : ℕ)
    (hindex : index = scan.located before.length) (entries : List LocatedFATEntry) :
    EntryScan.Describes
      ⟨scan.workingEntry ++ if e.type = .LongFileName then [e] else [], index, entries⟩
      (before ++ [e]) := by
  refine ⟨by rw [collected_append hitem hstarted, h.1], fun _ => ?_⟩
  rw [hindex, h.located, startedSlots_append hitem, if_neg hstarted, List.length_append,
    List.length_append, List.length_singleton, Nat.add_sub_add_right]

theorem EntryScan.Describes.of_not_started (h : startedSlots (before ++ [e]) = [])
    (hempty : scan.workingEntry = []) : scan.Describes (before ++ [e]) := by
  have hnone := collected_eq_nil_iff.mpr h
  exact ⟨hempty.trans hnone.symm, fun hsome => absurd hnone hsome⟩

theorem EntryScan.Describes.append_other (h : scan.Describes before) (hitem : e.type ≠ .Normal)
    (hpiece : e.type ≠ .LongFileName) : scan.Describes (before ++ [e]) := by
  by_cases hnone : startedSlots before = []
  · refine EntryScan.Describes.of_not_started ?_ (h.1.trans (collected_eq_nil_iff.mpr hnone))
    rw [startedSlots_append hitem, if_pos hnone, if_neg fun hstarts => hpiece hstarts.1]
  · have hplace : scan.indexInDirectory = scan.located before.length := by
      rw [h.located, h.2 fun hempty => hnone (collected_eq_nil_iff.mp hempty)]
    have happend := h.append hitem hnone _ hplace scan.entries
    rwa [if_neg hpiece, List.append_nil] at happend

theorem EntryScan.Describes.append_piece (h : scan.Describes before)
    (hpiece : e.type = .LongFileName)
    (hkept : ¬ (scan.workingEntry = [] ∧ e.order &&& 0x40 = 0)) :
    EntryScan.Describes { scan with
      workingEntry := scan.workingEntry ++ [e]
      indexInDirectory := scan.located before.length } (before ++ [e]) := by
  have hitem : e.type ≠ .Normal := by rw [hpiece]; decide
  by_cases hnone : startedSlots before = []
  · have hempty : scan.workingEntry = [] := h.1.trans (collected_eq_nil_iff.mpr hnone)
    have hstarts : e.StartsLongName := ⟨hpiece, fun hclear => hkept ⟨hempty, hclear⟩⟩
    have hstarted : startedSlots (before ++ [e]) = [e] := by
      rw [startedSlots_append hitem, if_pos hnone, if_pos hstarts]
    refine ⟨?_, fun _ => ?_⟩
    · rw [collected, hstarted, List.filter_cons_of_pos (by simpa using hpiece),
        List.filter_nil, hempty, List.nil_append]
    · rw [h.located, hstarted, hnone, List.length_append, List.length_singleton,
        List.length_nil, Nat.add_sub_cancel, Nat.sub_zero]
  · have happend := h.append hitem hnone _ rfl scan.entries
    rwa [if_pos hpiece] at happend

/-- **One slot** more, and what is known of the slots before it. -/
theorem EntryScan.Describes.scanSlot (h : scan.Describes before) (startCluster : ℕ) :
    (scan.scanSlot startCluster (e, before.length)).Describes (before ++ [e]) := by
  unfold EntryScan.scanSlot
  dsimp only
  cases htype : e.type with
  | LongFileName =>
      dsimp only
      split_ifs with hstray
      · have hnone := collected_eq_nil_iff.mp (h.1.symm.trans hstray.1)
        refine EntryScan.Describes.of_not_started ?_ hstray.1
        rw [startedSlots_append (by rw [htype]; decide), if_pos hnone,
          if_neg fun hstarts => hstarts.2 hstray.2]
      · exact h.append_piece htype hstray
  | Normal => exact EntryScan.Describes.of_not_started (startedSlots_append_item htype) rfl
  | Deleted => exact h.append_other (by rw [htype]; decide) (by rw [htype]; decide)
  | EndOfDirectory => exact h.append_other (by rw [htype]; decide) (by rw [htype]; decide)

theorem EntryScan.Describes.scanSlot_entries (h : scan.Describes before) (startCluster : ℕ) :
    (scan.scanSlot startCluster (e, before.length)).entries =
      scan.entries ++ if e.type = .Normal then [scannedEntry startCluster before e] else [] := by
  unfold EntryScan.scanSlot
  dsimp only
  cases htype : e.type with
  | LongFileName =>
      dsimp only
      rw [if_neg (c := EntryType.LongFileName = .Normal) nofun, List.append_nil]
      split_ifs <;> rfl
  | Normal =>
      dsimp only
      rw [if_pos rfl, h.located, h.1, scannedEntry, withName_extractName]
  | Deleted => exact (List.append_nil _).symm
  | EndOfDirectory => exact (List.append_nil _).symm

/-- **The scan** of the slots that come, from a state that describes those before. -/
theorem scan_entries (startCluster : ℕ) (rest : List RawFATEntry) :
    ∀ (scan : EntryScan) (before : List RawFATEntry), scan.Describes before →
      ((rest.zipIdx before.length).foldl
          (fun scan slot => scan.scanSlot startCluster slot) scan).entries =
        scan.entries ++ perItem (scannedEntry startCluster) before rest := by
  induction rest with
  | nil => exact fun scan before _ => (List.append_nil _).symm
  | cons e rest ih =>
      intro scan before h
      have hnext := ih _ (before ++ [e]) (h.scanSlot (e := e) startCluster)
      rw [List.length_append, List.length_singleton] at hnext
      rw [List.zipIdx_cons, List.foldl_cons, hnext, h.scanSlot_entries, perItem,
        List.append_assoc]

theorem perItem_eq_nil_iff {entryOf : List RawFATEntry → RawFATEntry → LocatedFATEntry}
    (slots : List RawFATEntry) :
    ∀ before : List RawFATEntry,
      perItem entryOf before slots = [] ↔ ∀ e ∈ slots, e.type ≠ .Normal := by
  induction slots with
  | nil => exact fun before => iff_of_true rfl nofun
  | cons e rest ih =>
      intro before
      rw [perItem, List.append_eq_nil_iff, ih, List.forall_mem_cons]
      refine and_congr_left fun _ => ?_
      by_cases hitem : e.type = .Normal
      · rw [if_pos hitem]
        exact iff_of_false (List.cons_ne_nil _ _) (not_not_intro hitem)
      · rw [if_neg hitem]
        exact iff_of_true rfl hitem

/-- Results for each item agree in what `f` tells of them when the items' do. -/
theorem perItem_map_eq_iff {γ : Type*} (f : LocatedFATEntry → γ)
    {entryOf entryOf' : List RawFATEntry → RawFATEntry → LocatedFATEntry}
    (slots : List RawFATEntry) :
    ∀ before : List RawFATEntry,
      (perItem entryOf before slots).map f = (perItem entryOf' before slots).map f ↔
        ∀ middle item after, slots = middle ++ item :: after → item.type = .Normal →
          f (entryOf (before ++ middle) item) = f (entryOf' (before ++ middle) item) := by
  induction slots with
  | nil =>
      intro before
      refine iff_of_true rfl fun middle item after h => ?_
      exact absurd h.symm (List.append_ne_nil_of_right_ne_nil _ (List.cons_ne_nil _ _))
  | cons e rest ih =>
      intro before
      have hrest := ih (before ++ [e])
      have hhead : (perItem entryOf before (e :: rest)).map f =
            (perItem entryOf' before (e :: rest)).map f ↔
          (e.type = .Normal → f (entryOf before e) = f (entryOf' before e)) ∧
            (perItem entryOf (before ++ [e]) rest).map f =
              (perItem entryOf' (before ++ [e]) rest).map f := by
        rw [perItem, perItem]
        by_cases hitem : e.type = .Normal
        · simp [hitem]
        · simp [hitem]
      rw [hhead, hrest]
      constructor
      · rintro ⟨hfirst, hlater⟩ middle item after h hitem
        cases middle with
        | nil =>
            obtain ⟨rfl, -⟩ := List.cons.inj h
            rw [List.append_nil]
            exact hfirst hitem
        | cons first middle =>
            obtain ⟨hsame, htail⟩ := List.cons.inj h
            subst hsame
            have hentry := hlater middle item after htail hitem
            rwa [List.append_assoc, List.singleton_append] at hentry
      · intro hall
        refine ⟨fun hitem => ?_, fun middle item after h hitem => ?_⟩
        · have hentry := hall [] e rest rfl hitem
          rwa [List.append_nil] at hentry
        · rw [List.append_assoc, List.singleton_append]
          exact hall (e :: middle) item after (by rw [h]; rfl) hitem

theorem perItem_eq_iff {entryOf entryOf' : List RawFATEntry → RawFATEntry → LocatedFATEntry}
    (slots before : List RawFATEntry) :
    perItem entryOf before slots = perItem entryOf' before slots ↔
      ∀ middle item after, slots = middle ++ item :: after → item.type = .Normal →
        entryOf (before ++ middle) item = entryOf' (before ++ middle) item := by
  have hmapped := @perItem_map_eq_iff _ id entryOf entryOf' slots before
  rwa [List.map_id, List.map_id] at hmapped

end Scan

/-! ## `get_entries` -/

/-- The list of a chain from its first slot on, as `get_entries` creates it. -/
def FATRawEntryList.fromStart (list : FATRawEntryList) : FATRawEntryList :=
  { list with startIndex := 0, startIndex_lt := Nat.zero_lt_of_lt list.startIndex_lt }

/-- A directory whose slots are read without fail. -/
def readSlot (list : FATRawEntryList) (slot : ℕ → RawFATEntry) : SlotReader Unit :=
  fun _ chainIndex entryIndex => some ((), slot (list.entriesPerCluster * chainIndex + entryIndex))

variable {list : FATRawEntryList} {slot : ℕ → RawFATEntry}

theorem readable_readSlot (k : ℕ) :
    list.Readable (readSlot list slot) (fun _ => True) slot k := by
  intro state _
  refine ⟨(), ?_, trivial⟩
  rw [readSlot, Nat.div_add_mod]

theorem getEntries_of_readable {σ : Type u} {read : SlotReader σ} {Inv : σ → Prop}
    (hstart : list.startIndex = 0)
    (readable : ∀ k < list.slotCount, list.Readable read Inv slot k) {state : σ} (inv : Inv state)
    (startCluster : ℕ) :
    ∃ state', list.getEntries startCluster read state = some (state',
      perItem (scannedEntry startCluster) [] (visitedSlots (list.slotsFrom slot 0))) ∧
        Inv state' := by
  obtain ⟨state', hloop, inv'⟩ := list.forEach_eq
    (fun scan slot => (.ok (scan.scanSlot startCluster slot) : Except Empty EntryScan))
    (readable 0 (Nat.zero_lt_of_lt list.startIndex_lt)) (fun k _ _ hk => readable k hk) inv
    EntryScan.empty
  have hfold : ∀ slots : List (RawFATEntry × ℕ),
      slots.foldlM (m := Except Empty)
        (fun scan slot => .ok (scan.scanSlot startCluster slot)) EntryScan.empty =
        .ok (slots.foldl (fun scan slot => scan.scanSlot startCluster slot) EntryScan.empty) :=
    fun slots => List.foldlM_pure
  have hempty : EntryScan.empty.Describes [] := ⟨rfl, fun hsome => absurd rfl hsome⟩
  have hscan := scan_entries startCluster (visitedSlots (list.slotsFrom slot 0)) EntryScan.empty []
    hempty
  refine ⟨state', ?_, inv'⟩
  rw [FATRawEntryList.getEntries, hloop, hfold, Option.map_some, hstart]
  exact congrArg (fun entries => some (state', entries)) hscan

theorem getEntries_eq (startCluster : ℕ) :
    (list.fromStart.getEntries startCluster (readSlot list slot) ()).map Prod.snd =
      some (perItem (scannedEntry startCluster) [] (visitedSlots (list.slotsFrom slot 0))) := by
  have readable : ∀ k, list.fromStart.Readable (readSlot list slot) (fun _ => True) slot k :=
    readable_readSlot
  obtain ⟨state', hentries, -⟩ := getEntries_of_readable
    (rfl : list.fromStart.startIndex = 0) (fun k _ => readable k)
    (trivial : (fun _ : Unit => True) ()) startCluster
  rw [hentries]
  rfl

theorem visitedSlots_eq {slots : List RawFATEntry} :
    (slots.head?.map RawFATEntry.type ≠ some .EndOfDirectory →
      visitedSlots slots = liveSlots slots) ∧
      (slots.head?.map RawFATEntry.type = some .EndOfDirectory → liveSlots slots = []) := by
  cases slots with
  | nil => exact ⟨fun _ => rfl, nofun⟩
  | cons first rest =>
      constructor
      · intro hfirst
        rw [liveSlots, List.takeWhile_cons_of_pos (by simpa using hfirst), visitedSlots]
      · intro hfirst
        exact List.takeWhile_cons_of_neg (by simpa using hfirst)

/-- **When `get_entries` returns the reference parse**: for every chain and every
sequence of slots on it. -/
theorem getEntries_parses_iff (list : FATRawEntryList) (slot : ℕ → RawFATEntry)
    (startCluster : ℕ) :
    (list.fromStart.getEntries startCluster (readSlot list slot) ()).map Prod.snd =
        some (referenceParse startCluster (list.slotsFrom slot 0)) ↔
      ParsesRight (list.slotsFrom slot 0) := by
  rw [getEntries_eq, Option.some_inj, referenceParse]
  unfold ParsesRight
  obtain ⟨hlive, hmarked⟩ := @visitedSlots_eq (list.slotsFrom slot 0)
  by_cases hfirst : (list.slotsFrom slot 0).head?.map RawFATEntry.type = some .EndOfDirectory
  · -- The reference has no entries, so there must be no item to make one of.
    rw [hmarked hfirst]
    refine (perItem_eq_nil_iff _ []).trans ?_
    constructor
    · intro hnone before item after h hitem
      exact absurd hitem (hnone item (h ▸ List.mem_append_right _ List.mem_cons_self))
    · intro hall e he hitem
      obtain ⟨before, after, h⟩ := List.mem_iff_append.mp he
      exact (hall before e after h hitem).1 hfirst
  · rw [hlive hfirst, perItem_eq_iff]
    refine forall_congr' fun before => forall_congr' fun item => forall_congr' fun after =>
      forall_congr' fun _ => forall_congr' fun _ => ?_
    rw [List.nil_append, scannedEntry_eq_iff]
    exact (and_iff_right hfirst).symm

/-- A slot of the bytes given, with zeros behind them. -/
def RawFATEntry.ofBytes (bytes : List Byte) : RawFATEntry where
  data := Vector.ofFn fun i => bytes.getD i 0

/-- The item of a file `A`. -/
def itemA : RawFATEntry :=
  .ofBytes ([0x41, 32, 32, 32, 32, 32, 32, 32, 32, 32, 32, 0x20] : List Byte)

/-- The only piece of the long name `a`, for that item. -/
def pieceA : RawFATEntry :=
  .ofBytes ([0x41, 0x61, 0, 0, 0, 0, 0, 0, 0, 0, 0, 0x0F, 0,
    checksumShortname itemA.fatname] : List Byte)

/-- A cluster of 16 slots. -/
def oneCluster : FATRawEntryList where
  clusterChain := [2]
  entriesPerCluster := 16
  startIndex := 0
  startIndex_lt := by decide

/-- A long name whose item was deleted, with another item behind it: the other one
gets the name, and the place.  And a directory whose first slot is an end marker:
the item behind it is found. -/
theorem getEntries_parses_fails :
    (oneCluster.fromStart.getEntries 2 (readSlot oneCluster fun i =>
          [pieceA, .ofBytes [0xE5], itemA].getD i (.ofBytes [])) ()).map Prod.snd ≠
        some (referenceParse 2 (oneCluster.slotsFrom (fun i =>
          [pieceA, .ofBytes [0xE5], itemA].getD i (.ofBytes [])) 0)) ∧
      (oneCluster.fromStart.getEntries 2 (readSlot oneCluster fun i =>
          [.ofBytes [], itemA].getD i (.ofBytes [])) ()).map Prod.snd ≠
        some (referenceParse 2 (oneCluster.slotsFrom (fun i =>
          [.ofBytes [], itemA].getD i (.ofBytes [])) 0)) :=
  ⟨by decide +kernel, by decide +kernel⟩

end BekOS
