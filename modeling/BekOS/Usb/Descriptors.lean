import BekOS.Lib.Bitmap
import BekOS.Library.KernelError

/-!
# USB descriptors

A device answers with its configuration descriptor and what belongs to it in one piece: records of
their own lengths, where an endpoint belongs to the interface before it.  `parse_configuration`
goes from record to record, and puts each endpoint at the last interface that it has found.
-/

namespace BekOS.Usb

/-- `TransferType` -/
inductive TransferType
  | Control | Isochronous | Bulk | Interrupt
deriving DecidableEq, Repr

/-- `Direction` -/
inductive Direction
  | In | Out
deriving DecidableEq, Repr

/-- `Endpoint` -/
structure Endpoint where
  number : Byte
  direction : Direction
  ttype : TransferType
  maxPacketSize : BitVec 16
  bInterval : Byte
  isNotification : Bool
deriving DecidableEq, Repr

/-- `Interface` -/
structure Interface where
  interfaceClass : Byte
  interfaceSubclass : Byte
  interfaceProtocol : Byte
  interfaceNumber : Byte
  interfaceAlternative : Byte
  endpoints : List Endpoint
deriving DecidableEq, Repr

/-! ## Records -/

/-- A byte of a descriptor. -/
def byteAt (data : List Byte) (offset : ℕ) : Byte := data.getD offset 0

/-- `DescriptorBase::length` -/
def descriptorLength (data : List Byte) (offset : ℕ) : ℕ := (byteAt data offset).toNat

/-- `DescriptorBase::kind` -/
def descriptorKind (data : List Byte) (offset : ℕ) : Byte := byteAt data (offset + 1)

/-- `DescriptorType::Interface` -/
def interfaceKind : Byte := 0x04

/-- `DescriptorType::Endpoint` -/
def endpointKind : Byte := 0x05

/-- `get_at`, for a type of `size` bytes. -/
def getAt (data : List Byte) (offset size : ℕ) : Except Fault Unit :=
  verify (offset + size ≤ data.length)

/-- The fields of an `InterfaceDescriptor`. -/
def interfaceAt (data : List Byte) (offset : ℕ) : Interface where
  interfaceClass := byteAt data (offset + 5)
  interfaceSubclass := byteAt data (offset + 6)
  interfaceProtocol := byteAt data (offset + 7)
  interfaceNumber := byteAt data (offset + 2)
  interfaceAlternative := byteAt data (offset + 3)
  endpoints := []

/-- The transfer type with a number. -/
def TransferType.ofBits (bits : BitVec 2) : TransferType :=
  match bits.toNat with
  | 0 => .Control
  | 1 => .Isochronous
  | 2 => .Bulk
  | _ => .Interrupt

/-- `EndpointDescriptor::to_endpoint` -/
def endpointAt (data : List Byte) (offset : ℕ) : Endpoint :=
  let endpointAddress := byteAt data (offset + 2)
  let attributes := byteAt data (offset + 3)
  { number := endpointAddress &&& 0xF
    direction := if endpointAddress.getLsbD 7 then .In else .Out
    ttype := .ofBits (attributes.setWidth 2)
    maxPacketSize := byteAt data (offset + 5) ++ byteAt data (offset + 4)
    bInterval := byteAt data (offset + 6)
    isNotification := attributes.getLsbD 4 }

/-! ## The loop -/

/-- `interfaces.back().endpoints.push_back`; the vector does not check that it has a last one. -/
def pushEndpoint (interfaces : List Interface) (endpoint : Endpoint) :
    Except Fault (List Interface) :=
  match interfaces.getLast? with
  | none => .error .outOfBounds
  | some back =>
      .ok (interfaces.dropLast ++ [{ back with endpoints := back.endpoints ++ [endpoint] }])

/-- The `switch` in `parse_configuration`. -/
def parseKind (data : List Byte) (offset : ℕ) (interfaces : List Interface) :
    Except Fault (List Interface) :=
  if descriptorKind data offset = interfaceKind then do
    getAt data offset 9
    return interfaces ++ [interfaceAt data offset]
  else if descriptorKind data offset = endpointKind then do
    getAt data offset 7
    pushEndpoint interfaces (endpointAt data offset)
  else .ok interfaces

/-- The body of the loop in `parse_configuration`: the length of the record, and the interfaces
with it. -/
def parseDescriptor (data : List Byte) (offset : ℕ) (interfaces : List Interface) :
    Except Fault (ℕ × List Interface) := do
  getAt data offset 2
  let interfaces ← parseKind data offset interfaces
  verify (descriptorLength data offset ≠ 0)
  return (descriptorLength data offset, interfaces)

/-- The loop in `parse_configuration`, while there is fuel. -/
def parseLoop (data : List Byte) :
    ℕ → ℕ → List Interface → Option (Except Fault (List Interface))
  | 0, _, _ => none
  | fuel + 1, offset, interfaces =>
      if offset < data.length then
        match parseDescriptor data offset interfaces with
        | .error fault => some (.error fault)
        | .ok (length, interfaces) => parseLoop data fuel (offset + length) interfaces
      else some (.ok interfaces)

/-- `parse_configuration` -/
def parseConfiguration (data : List Byte) : Option (Except Fault (List Interface)) :=
  match (do
      getAt data 0 9
      verify (byteAt data 4 = 1)
      verify (descriptorLength data 0 = 9) : Except Fault Unit) with
  | .error fault => some (.error fault)
  | .ok () => parseLoop data (data.length + 1) 9 []

/-! ## What the data is -/

/-- The records from an offset on, each where the one before it ends. -/
inductive Records (data : List Byte) : ℕ → List ℕ → Prop
  | nil {offset : ℕ} : data.length ≤ offset → Records data offset []
  | cons {offset : ℕ} {rest : List ℕ} : offset < data.length →
      Records data (offset + descriptorLength data offset) rest →
        Records data offset (offset :: rest)

/-- A record that has the bytes of its kind, and whose length is not zero. -/
structure RecordFits (data : List Byte) (offset : ℕ) : Prop where
  base : offset + 2 ≤ data.length
  length : descriptorLength data offset ≠ 0
  interface : descriptorKind data offset = interfaceKind → offset + 9 ≤ data.length
  endpoint : descriptorKind data offset = endpointKind → offset + 7 ≤ data.length

/-- The checks on the configuration descriptor at the front. -/
structure LeadingChecked (data : List Byte) : Prop where
  base : 9 ≤ data.length
  numInterfaces : byteAt data 4 = 1
  length : descriptorLength data 0 = 9

/-- An interface or an endpoint. -/
abbrev IsMember (data : List Byte) (offset : ℕ) : Prop :=
  descriptorKind data offset = interfaceKind ∨ descriptorKind data offset = endpointKind

/-- The first of the interfaces and endpoints, if there is one, is an interface. -/
def StartsWithInterface (data : List Byte) (offsets : List ℕ) : Prop :=
  ∀ first, offsets.find? (IsMember data ·) = some first →
    descriptorKind data first = interfaceKind

/-- Records that fit, and an interface before the endpoints. -/
def WellFormed (data : List Byte) (offsets : List ℕ) : Prop :=
  (∀ offset ∈ offsets, RecordFits data offset) ∧ StartsWithInterface data offsets

/-- The endpoints in front of the next interface. -/
def endpointsOf (data : List Byte) (offsets : List ℕ) : List Endpoint :=
  ((offsets.takeWhile (descriptorKind data · ≠ interfaceKind)).filter
    (descriptorKind data · = endpointKind)).map (endpointAt data)

/-- The interfaces in their order, each with the endpoints between it and the next one. -/
def interfacesOf (data : List Byte) : List ℕ → List Interface
  | [] => []
  | offset :: rest =>
      if descriptorKind data offset = interfaceKind then
        { interfaceAt data offset with endpoints := endpointsOf data rest } ::
          interfacesOf data rest
      else interfacesOf data rest

/-- The interfaces that have been found, with the endpoints that still belong to the last one. -/
def joined (interfaces : List Interface) (endpoints : List Endpoint) : List Interface :=
  match interfaces.getLast? with
  | none => []
  | some back =>
      interfaces.dropLast ++ [{ back with endpoints := back.endpoints ++ endpoints }]

section Parse

variable {data : List Byte} {offset : ℕ} {offsets : List ℕ} {interfaces out : List Interface}

theorem joined_nil (interfaces : List Interface) : joined interfaces [] = interfaces := by
  unfold joined
  cases hlast : interfaces.getLast? with
  | none => exact (List.getLast?_eq_none_iff.mp hlast).symm
  | some back =>
      dsimp only
      rw [List.append_nil]
      exact List.dropLast_append_getLast? back hlast

theorem joined_append (interfaces : List Interface) (new : Interface)
    (endpoints : List Endpoint) :
    joined (interfaces ++ [new]) endpoints =
      interfaces ++ [{ new with endpoints := new.endpoints ++ endpoints }] := by
  unfold joined
  rw [List.getLast?_concat, List.dropLast_concat]

theorem pushEndpoint_eq (endpoint : Endpoint) :
    pushEndpoint interfaces endpoint =
      if interfaces = [] then .error .outOfBounds else .ok (joined interfaces [endpoint]) := by
  unfold pushEndpoint joined
  cases hlast : interfaces.getLast? with
  | none => rw [if_pos (List.getLast?_eq_none_iff.mp hlast)]
  | some back =>
      rw [if_neg fun hnil => by rw [hnil] at hlast; cases hlast]

theorem joined_ne_nil (hne : interfaces ≠ []) (endpoints : List Endpoint) :
    joined interfaces endpoints ≠ [] := by
  unfold joined
  cases hlast : interfaces.getLast? with
  | none => exact absurd (List.getLast?_eq_none_iff.mp hlast) hne
  | some back => exact List.append_ne_nil_of_right_ne_nil _ (List.cons_ne_nil _ _)

theorem joined_joined (first second : List Endpoint) :
    joined (joined interfaces first) second = joined interfaces (first ++ second) := by
  cases hlast : interfaces.getLast? with
  | none =>
      rw [List.getLast?_eq_none_iff.mp hlast]
      rfl
  | some back =>
      obtain ⟨front, rfl⟩ := List.getLast?_eq_some_iff.mp hlast
      rw [joined_append, joined_append, joined_append, List.append_assoc]

/-- What a record does to the interfaces. -/
def withRecord (data : List Byte) (offset : ℕ) (interfaces : List Interface) : List Interface :=
  if descriptorKind data offset = interfaceKind then interfaces ++ [interfaceAt data offset]
  else if descriptorKind data offset = endpointKind then
    joined interfaces [endpointAt data offset]
  else interfaces

/-- **One record** is read if it fits, and is no endpoint without an interface. -/
theorem parseDescriptor_eq_ok {result : ℕ × List Interface} :
    parseDescriptor data offset interfaces = .ok result ↔
      RecordFits data offset ∧
        (descriptorKind data offset = endpointKind → interfaces ≠ []) ∧
        result = (descriptorLength data offset, withRecord data offset interfaces) := by
  have hkinds : interfaceKind ≠ endpointKind := by decide
  unfold withRecord
  constructor
  · intro h
    obtain ⟨_, hbase, h⟩ := bind_eq_ok.mp h
    obtain ⟨middle, hmiddle, h⟩ := bind_eq_ok.mp h
    obtain ⟨_, hlength, h⟩ := bind_eq_ok.mp h
    cases h
    have hbase := verify_eq_ok.mp hbase
    have hlength := verify_eq_ok.mp hlength
    unfold parseKind at hmiddle
    split_ifs at hmiddle with hinterface hendpoint
    · obtain ⟨_, hsize, hpush⟩ := bind_eq_ok.mp hmiddle
      cases hpush
      have hnot : descriptorKind data offset ≠ endpointKind := fun h => hkinds (hinterface ▸ h)
      rw [if_pos hinterface]
      exact ⟨⟨hbase, hlength, fun _ => verify_eq_ok.mp hsize, fun h => absurd h hnot⟩,
        fun h => absurd h hnot, rfl⟩
    · obtain ⟨_, hsize, hpush⟩ := bind_eq_ok.mp hmiddle
      rw [pushEndpoint_eq] at hpush
      split_ifs at hpush with hnil
      cases hpush
      rw [if_neg hinterface, if_pos hendpoint]
      exact ⟨⟨hbase, hlength, fun h => absurd h hinterface, fun _ => verify_eq_ok.mp hsize⟩,
        fun _ => hnil, rfl⟩
    · cases hmiddle
      rw [if_neg hinterface, if_neg hendpoint]
      exact ⟨⟨hbase, hlength, fun h => absurd h hinterface, fun h => absurd h hendpoint⟩,
        fun h => absurd h hendpoint, rfl⟩
  · rintro ⟨fits, hled, rfl⟩
    refine bind_eq_ok.mpr ⟨(), verify_of fits.base, bind_eq_ok.mpr ⟨_, ?_,
      bind_eq_ok.mpr ⟨(), verify_of fits.length, rfl⟩⟩⟩
    unfold parseKind
    split_ifs with hinterface hendpoint
    · exact bind_eq_ok.mpr ⟨(), verify_of (fits.interface hinterface), rfl⟩
    · refine bind_eq_ok.mpr ⟨(), verify_of (fits.endpoint hendpoint), ?_⟩
      rw [pushEndpoint_eq, if_neg (hled hendpoint)]
    · rfl

/-- The endpoints go to the last interface, and the others follow it. -/
def gathered (data : List Byte) (interfaces : List Interface) (offsets : List ℕ) :
    List Interface :=
  joined interfaces (endpointsOf data offsets) ++ interfacesOf data offsets

theorem gathered_cons :
    gathered data (withRecord data offset interfaces) offsets =
      gathered data interfaces (offset :: offsets) := by
  have hkinds : interfaceKind ≠ endpointKind := by decide
  unfold gathered withRecord
  by_cases hinterface : descriptorKind data offset = interfaceKind
  · rw [if_pos hinterface, interfacesOf, if_pos hinterface, joined_append]
    have hends : endpointsOf data (offset :: offsets) = [] := by
      unfold endpointsOf
      rw [List.takeWhile_cons_of_neg (by simpa using hinterface)]
      rfl
    rw [hends, joined_nil, List.append_assoc]
    rfl
  · rw [if_neg hinterface, interfacesOf, if_neg hinterface]
    have hends : endpointsOf data (offset :: offsets) =
        (if descriptorKind data offset = endpointKind then [endpointAt data offset] else []) ++
          endpointsOf data offsets := by
      unfold endpointsOf
      rw [List.takeWhile_cons_of_pos (by simpa using hinterface), List.filter_cons]
      split_ifs with hendpoint hendpoint' hendpoint'
      all_goals first | rfl | simp_all
    rw [hends]
    split_ifs with hendpoint
    · rw [joined_joined]
    · rfl

/-- With an interface behind them, all endpoints have one. -/
def Led (data : List Byte) (interfaces : List Interface) (offsets : List ℕ) : Prop :=
  interfaces ≠ [] ∨ StartsWithInterface data offsets

theorem led_cons_iff :
    Led data interfaces (offset :: offsets) ↔
      (descriptorKind data offset = endpointKind → interfaces ≠ []) ∧
        Led data (withRecord data offset interfaces) offsets := by
  have hkinds : interfaceKind ≠ endpointKind := by decide
  unfold Led withRecord StartsWithInterface
  by_cases hinterface : descriptorKind data offset = interfaceKind
  · have hnot : descriptorKind data offset ≠ endpointKind := fun h => hkinds (hinterface ▸ h)
    rw [if_pos hinterface, List.find?_cons_of_pos (by simpa using Or.inl hinterface)]
    refine iff_of_true (Or.inr fun first h => ?_) ⟨fun h => absurd h hnot, Or.inl ?_⟩
    · cases h
      exact hinterface
    · exact List.append_ne_nil_of_right_ne_nil _ (List.cons_ne_nil _ _)
  · rw [if_neg hinterface]
    by_cases hendpoint : descriptorKind data offset = endpointKind
    · rw [if_pos hendpoint, List.find?_cons_of_pos (by simpa using Or.inr hendpoint)]
      constructor
      · rintro (hne | hfirst)
        · exact ⟨fun _ => hne, Or.inl (joined_ne_nil hne _)⟩
        · exact absurd (hfirst offset rfl) hinterface
      · exact fun h => Or.inl (h.1 hendpoint)
    · rw [if_neg hendpoint, List.find?_cons_of_neg (by simpa using ⟨hinterface, hendpoint⟩)]
      exact ⟨fun h => ⟨fun h' => absurd h' hendpoint, h⟩, And.right⟩

/-! ## The whole walk -/

/-- **The loop** comes to its end if all records fit and no endpoint comes too early, and has
gathered them then. -/
theorem parseLoop_eq_ok {fuel : ℕ} (hfuel : data.length - offset < fuel) :
    parseLoop data fuel offset interfaces = some (.ok out) ↔
      ∃ offsets, Records data offset offsets ∧
        (∀ other ∈ offsets, RecordFits data other) ∧ Led data interfaces offsets ∧
        out = gathered data interfaces offsets := by
  induction fuel generalizing offset interfaces with
  | zero => exact absurd hfuel (Nat.not_lt_zero _)
  | succ fuel ih =>
      rw [parseLoop]
      by_cases hlt : offset < data.length
      · rw [if_pos hlt]
        constructor
        · intro h
          split at h
          · cases h
          · rename_i length interfaces' hparse
            obtain ⟨fits, hled, heq⟩ := parseDescriptor_eq_ok.mp hparse
            cases heq
            have hlength := fits.length
            obtain ⟨offsets, records, hfits, hrest, hout⟩ := (ih (by omega)).mp h
            refine ⟨offset :: offsets, .cons hlt records, ?_, led_cons_iff.mpr ⟨hled, hrest⟩, ?_⟩
            · exact List.forall_mem_cons.mpr ⟨fits, hfits⟩
            · rw [hout, gathered_cons]
        · rintro ⟨offsets, records, hfits, hled, hout⟩
          cases records with
          | nil hend => exact absurd hlt (Nat.not_lt.mpr hend)
          | @cons _ rest _ records =>
              obtain ⟨fits, hrestFits⟩ := List.forall_mem_cons.mp hfits
              obtain ⟨hhere, hrest⟩ := led_cons_iff.mp hled
              have hlength := fits.length
              rw [parseDescriptor_eq_ok.mpr ⟨fits, hhere, rfl⟩]
              refine (ih (by omega)).mpr ⟨rest, records, hrestFits, hrest, ?_⟩
              rw [hout, gathered_cons]
      · rw [if_neg hlt, Option.some_inj, Except.ok.injEq]
        have hgathered : gathered data interfaces [] = interfaces :=
          (List.append_nil _).trans (joined_nil interfaces)
        constructor
        · rintro rfl
          refine ⟨[], .nil (Nat.le_of_not_lt hlt), List.forall_mem_nil _, Or.inr fun first h => ?_,
            hgathered.symm⟩
          cases h
        · rintro ⟨offsets, records, -, -, rfl⟩
          cases records with
          | nil => exact hgathered.symm
          | cons hlt' _ => exact absurd hlt' hlt

end Parse

/-- The configuration is read: its interfaces come in their order, each with the endpoints that
follow it, and nothing fails on the way. -/
def ParsesRight (data : List Byte) : Prop :=
  ∃ offsets, Records data 9 offsets ∧
    parseConfiguration data = some (.ok (interfacesOf data offsets))

theorem parseConfiguration_eq {data : List Byte} (checked : LeadingChecked data) :
    parseConfiguration data = parseLoop data (data.length + 1) 9 [] := by
  have hchecks : (do
      getAt data 0 9
      verify (byteAt data 4 = 1)
      verify (descriptorLength data 0 = 9) : Except Fault Unit) = .ok () := by
    refine bind_eq_ok.mpr ⟨(), verify_of (by rw [Nat.zero_add]; exact checked.base), ?_⟩
    exact bind_eq_ok.mpr ⟨(), verify_of checked.numInterfaces, verify_of checked.length⟩
  unfold parseConfiguration
  rw [hchecks]

/-- **The configuration** is read if its records, each of the bytes of its kind and with a length
that is not zero, come to the end of the data, and no endpoint comes before the first interface. -/
theorem parsesRight_iff {data : List Byte} (checked : LeadingChecked data) :
    ParsesRight data ↔ ∃ offsets, Records data 9 offsets ∧ WellFormed data offsets := by
  have hgathered : ∀ offsets, gathered data [] offsets = interfacesOf data offsets :=
    fun _ => rfl
  unfold ParsesRight
  rw [parseConfiguration_eq checked]
  constructor
  · rintro ⟨_, -, hparse⟩
    obtain ⟨offsets, records, hfits, hled, -⟩ :=
      (parseLoop_eq_ok (Nat.lt_succ_of_le (Nat.sub_le _ _))).mp hparse
    exact ⟨offsets, records, hfits, hled.resolve_left fun h => h rfl⟩
  · rintro ⟨offsets, records, hfits, hfirst⟩
    exact ⟨offsets, records, (parseLoop_eq_ok (Nat.lt_succ_of_le (Nat.sub_le _ _))).mpr
      ⟨offsets, records, hfits, Or.inr hfirst, (hgathered offsets).symm⟩⟩

/-- A mouse: its configuration, an interface, what belongs to its class, and an endpoint. -/
def mouseConfiguration : List Byte :=
  [9, 2, 34, 0, 1, 1, 0, 0xA0, 50,
    9, 4, 0, 0, 1, 3, 1, 2, 0,
    9, 0x21, 0x11, 0x01, 0, 1, 0x22, 52, 0,
    7, 5, 0x81, 3, 4, 0, 10]

theorem parsesRight_mouse : ParsesRight mouseConfiguration := by
  refine (parsesRight_iff ⟨by decide, by decide, by decide⟩).mpr ⟨[9, 18, 27], ?_, ?_, ?_⟩
  · exact .cons (by decide) (.cons (by decide) (.cons (by decide) (.nil (by decide))))
  · intro offset hoffset
    have hall : ∀ offset ∈ [9, 18, 27], offset + 2 ≤ mouseConfiguration.length ∧
        descriptorLength mouseConfiguration offset ≠ 0 ∧
        (descriptorKind mouseConfiguration offset = interfaceKind →
          offset + 9 ≤ mouseConfiguration.length) ∧
        (descriptorKind mouseConfiguration offset = endpointKind →
          offset + 7 ≤ mouseConfiguration.length) := by decide
    obtain ⟨hbase, hlength, hinterface, hendpoint⟩ := hall offset hoffset
    exact ⟨hbase, hlength, hinterface, hendpoint⟩
  · intro first hfirst
    cases hfirst
    rfl

/-- An endpoint without an interface is written where there is none. -/
theorem parsesRight_fails : LeadingChecked
      [9, 2, 16, 0, 1, 1, 0, 0xA0, 50, 7, 5, 0x81, 3, 4, 0, 10] ∧
    parseConfiguration [9, 2, 16, 0, 1, 1, 0, 0xA0, 50, 7, 5, 0x81, 3, 4, 0, 10] =
      some (.error .outOfBounds) ∧
    ¬ ParsesRight [9, 2, 16, 0, 1, 1, 0, 0xA0, 50, 7, 5, 0x81, 3, 4, 0, 10] := by
  have hparse : parseConfiguration [9, 2, 16, 0, 1, 1, 0, 0xA0, 50, 7, 5, 0x81, 3, 4, 0, 10] =
      some (.error .outOfBounds) := by decide
  refine ⟨⟨by decide, by decide, by decide⟩, hparse, ?_⟩
  rintro ⟨offsets, -, hright⟩
  rw [hparse] at hright
  cases hright

end BekOS.Usb
