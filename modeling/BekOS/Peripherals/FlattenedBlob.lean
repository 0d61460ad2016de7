import BekOS.Peripherals.FlattenedTree

/-!
# Flattened device trees

A `Blob` says what a flattened device tree has in it, token by token: a node and a property each
have the `NOP`s in front of them, and a node those in front of its end.  `Describes` is what it
takes for bytes to be that blob, and `tree` is the tree that it stands for.

The functions of `dtb_struct_pointer` read each token as it is written.
-/

namespace BekOS.DeviceTree

/-! ## Blobs -/

/-- A property in the structure block, whose name is at an offset into the strings. -/
structure BlobProperty where
  nops : ℕ
  nameOffset : ℕ
  property : Property
deriving DecidableEq, Repr

/-- A node in the structure block. -/
inductive BlobNode where
  | mk (nops : ℕ) (name : List Byte) (properties : List BlobProperty) (children : List BlobNode)
      (endNops : ℕ)
deriving Repr

/-- What a blob says. -/
structure Blob where
  reserved : List ReservedRegion
  root : BlobNode
  endNops : ℕ
deriving Repr

/-- The zeros after so many bytes. -/
def padding (count : ℕ) : List Byte := List.replicate ((4 - count % 4) % 4) 0

/-- So many `NOP`s. -/
def nopTokens (count : ℕ) : List Byte := (List.replicate count (beBytes 4 nop)).flatten

namespace BlobProperty

/-- The bytes of a property. -/
def encode (p : BlobProperty) : List Byte :=
  nopTokens p.nops ++ (beBytes 4 beginProp ++ (beBytes 4 p.property.data.length ++
    (beBytes 4 p.nameOffset ++ (p.property.data ++ padding p.property.data.length))))

/-- A property that keeps the rules: its name is in the strings, terminated; a list of strings ends
with a zero, and a phandle is a number of four bytes. -/
structure Proper (strings : List Byte) (p : BlobProperty) : Prop where
  length_lt : p.property.data.length < 2 ^ 32
  nameOffset_lt : p.nameOffset < 2 ^ 32
  name_ne : 0 ∉ p.property.name
  named : p.property.name ++ [0] <+: strings.drop p.nameOffset
  terminated : p.property.name = compatibleTag →
    ∃ list : List (List Byte), p.property.data = list.flatMap (· ++ [0]) ∧ ∀ s ∈ list, 0 ∉ s
  phandle : p.property.name = phandleTag → p.property.data.length = 4

end BlobProperty

namespace BlobNode

/-- The bytes of a name, with its zero and the padding. -/
def encodeName (name : List Byte) : List Byte := name ++ 0 :: padding (name.length + 1)

mutual

/-- The bytes of a node. -/
def encode : BlobNode → List Byte
  | .mk nops name properties children endNops =>
      nopTokens nops ++ (beBytes 4 beginNode ++ (encodeName name ++
        ((properties.map BlobProperty.encode).flatten ++ (encodeAll children ++
          (nopTokens endNops ++ beBytes 4 endNode)))))

/-- The bytes of a list of nodes. -/
def encodeAll : List BlobNode → List Byte
  | [] => []
  | node :: rest => node.encode ++ encodeAll rest

end

/-- The `NOP`s in front of a node. -/
def nops : BlobNode → ℕ
  | .mk nops _ _ _ _ => nops

mutual

/-- Every name in the tree is without a zero, and its properties keep the rules. -/
def Proper (strings : List Byte) : BlobNode → Prop
  | .mk _ name properties children _ =>
      0 ∉ name ∧ (∀ p ∈ properties, p.Proper strings) ∧ ProperAll strings children

@[inherit_doc Proper]
def ProperAll (strings : List Byte) : List BlobNode → Prop
  | [] => True
  | node :: rest => node.Proper strings ∧ ProperAll strings rest

end

mutual

/-- There is no `NOP` in front of a property, or of a node below this one. -/
def Clean : BlobNode → Prop
  | .mk _ _ properties children _ => (∀ p ∈ properties, p.nops = 0) ∧ CleanAll children

/-- There is no `NOP` in front of these nodes, nor in front of anything in them but their ends. -/
def CleanAll : List BlobNode → Prop
  | [] => True
  | node :: rest => (node.nops = 0 ∧ node.Clean) ∧ CleanAll rest

end

mutual

/-- How many nodes there are. -/
def count : BlobNode → ℕ
  | .mk _ _ _ children _ => 1 + countAll children

@[inherit_doc count]
def countAll : List BlobNode → ℕ
  | [] => 0
  | node :: rest => node.count + countAll rest

end

end BlobNode

/-! ## The described tree -/

/-- The strings in a list of strings. -/
def stringsOf : List Byte → List (List Byte) :=
  List.foldr (fun byte strings =>
    if byte = 0 then [] :: strings else
      match strings with
      | [] => [[byte]]
      | first :: rest => (byte :: first) :: rest) []

/-- The last property of this name. -/
def lastOf (name : List Byte) (properties : List Property) : Option Property :=
  (properties.filter (·.name = name)).getLast?

/-- What is kept of the properties, on top of these. -/
def Attributes.extend (attributes : Attributes) (properties : List Property) : Attributes where
  properties := attributes.properties ++ properties
  compatible := ((lastOf compatibleTag properties).map (stringsOf ·.data)).getD
    attributes.compatible
  phandle := ((lastOf phandleTag properties).map (beNat ·.data)).getD attributes.phandle

/-- The phandles that the properties give to their node. -/
def phandleEntries (address : ℕ) (properties : List Property) : List (ℕ × ℕ) :=
  (properties.filter (·.name = phandleTag)).map fun property => (beNat property.data, address)

mutual

/-- Each phandle in the tree, with the address of the node that has it. -/
def ParsedNode.phandles : ParsedNode → List (ℕ × ℕ)
  | .mk address _ node _ _ children =>
      phandleEntries address node.properties ++ ParsedNode.phandlesAll children

@[inherit_doc ParsedNode.phandles]
def ParsedNode.phandlesAll : List ParsedNode → List (ℕ × ℕ)
  | [] => []
  | node :: rest => node.phandles ++ ParsedNode.phandlesAll rest

end

namespace BlobNode

mutual

/-- The tree that is described, its nodes numbered in the order in which they come from an address
on. -/
def described : BlobNode → ℕ → Option ℕ → ParsedNode
  | .mk _ name properties children _, address, parent =>
      let attributes := newAttributes.extend (properties.map BlobProperty.property)
      .mk address parent ⟨name, attributes.properties⟩ attributes.compatible attributes.phandle
        (describedAll children (address + 1) address)

@[inherit_doc described]
def describedAll : List BlobNode → ℕ → ℕ → List ParsedNode
  | [], _, _ => []
  | node :: rest, address, parent =>
      node.described address (some parent) :: describedAll rest (address + node.count) parent

end

end BlobNode

/-- The words of a header. -/
def Header.words (header : Header) : List ℕ :=
  [header.magic, header.totalsize, header.offDtStruct, header.offDtStrings, header.offMemRsvmap,
    header.version, header.lastCompVersion, header.bootCpuidPhys, header.sizeDtStrings,
    header.sizeDtStruct]

/-- The bytes of a reserved region. -/
def ReservedRegion.encode (region : ReservedRegion) : List Byte :=
  beBytes 8 region.address ++ beBytes 8 region.size

namespace Blob

/-- The bytes of the structure block. -/
def encode (described : Blob) : List Byte :=
  described.root.encode ++ (nopTokens described.endNops ++ beBytes 4 endOfTree)

/-- The bytes of the reserved regions, with the empty one that ends them. -/
def encodeReserved (described : Blob) : List Byte :=
  (described.reserved.map ReservedRegion.encode).flatten ++ ReservedRegion.encode ⟨0, 0⟩

/-- The tree that is described. -/
def tree (described : Blob) : ParsedNode := described.root.described 0 none

end Blob

/-- The bytes at the address are a blob with this header, and say this. -/
structure Describes (base : ℕ) (blob : List Byte) (header : Header) (described : Blob) : Prop where
  aligned : base % 8 = 0
  magic : header.magic = dtbMagic
  words_lt : ∀ word ∈ header.words, word < 2 ^ 32
  headed : (header.words.map (beBytes 4)).flatten <+: blob
  reserved : described.encodeReserved <+: blob.drop header.offMemRsvmap
  region_ne : ∀ region ∈ described.reserved, ¬(region.address = 0 ∧ region.size = 0)
  region_lt : ∀ region ∈ described.reserved, region.address < 2 ^ 64 ∧ region.size < 2 ^ 64
  struct_aligned : header.offDtStruct % 4 = 0
  struct : described.encode <+: blob.drop header.offDtStruct
  struct_size : header.sizeDtStruct = described.encode.length
  strings_le : header.offDtStrings + header.sizeDtStrings ≤ blob.length
  proper : described.root.Proper
    ((blob.drop header.offDtStrings).take header.sizeDtStrings)
  phandles : (described.tree.phandles.map Prod.fst).Nodup

/-! ## Tokens are read as they are written -/

namespace Cursor

variable {buf stop : ℕ}

theorem advance_append (buf stop : ℕ) {bytes : List Byte} {count : ℕ}
    (hcount : count = bytes.length) (rest : List Byte) :
    (Cursor.mk buf stop (bytes ++ rest)).advance count = ⟨buf + count, stop, rest⟩ := by
  rw [advance, hcount, List.drop_left]

theorem readU32_append {value : ℕ} (hvalue : value < 2 ^ 32) (hstop : buf + 4 ≤ stop)
    (rest : List Byte) :
    (Cursor.mk buf stop (beBytes 4 value ++ rest)).readU32 =
      .ok (value, ⟨buf + 4, stop, rest⟩) := by
  have hlen := length_beBytes 4 value
  have hroom : 4 ≤ (beBytes 4 value ++ rest).length := by
    rw [List.length_append]
    omega
  have hread : beNat ((beBytes 4 value ++ rest).take 4) = value := by
    rw [List.take_left' hlen, beNat_beBytes]
    exact Nat.mod_eq_of_lt hvalue
  rw [readU32, verify, if_pos hstop]
  simp only [hroom, hread, advance_append buf stop hlen.symm]
  rfl

theorem readTag_append {tag : ℕ} (htag : tag < 2 ^ 32) (halign : buf % 4 = 0)
    (hstop : buf + 4 ≤ stop) (rest : List Byte) :
    (Cursor.mk buf stop (beBytes 4 tag ++ rest)).readTag = .ok (tag, ⟨buf + 4, stop, rest⟩) := by
  rw [readTag, verify, if_pos halign]
  exact readU32_append htag hstop rest

theorem peekTag_append {tag : ℕ} (htag : tag < 2 ^ 32) (halign : buf % 4 = 0)
    (hstop : buf + 4 ≤ stop) (rest : List Byte) :
    (Cursor.mk buf stop (beBytes 4 tag ++ rest)).peekTag = .ok tag := by
  rw [peekTag, verify, if_pos halign]
  exact congrArg (Except.map Prod.fst) (readU32_append htag hstop rest)

end Cursor

@[simp] theorem length_nopTokens (count : ℕ) : (nopTokens count).length = 4 * count := by
  simp [nopTokens, Nat.mul_comm]

theorem nopTokens_succ (count : ℕ) : nopTokens (count + 1) = beBytes 4 nop ++ nopTokens count := by
  simp [nopTokens, List.replicate_succ]

namespace Cursor

variable {buf stop tag : ℕ} {rest : List Byte}

theorem readNopsLoop_succ {cursor : Cursor} (hpeek : cursor.peekTag = .ok tag) (fuel : ℕ) :
    readNopsLoop (fuel + 1) cursor =
      if tag = nop then readNopsLoop fuel (cursor.advance 4) else .ok cursor := by
  rw [readNopsLoop, hpeek]
  rfl

theorem readNopsLoop_append (htag : tag < 2 ^ 32) (hnop : tag ≠ nop) {count fuel : ℕ}
    (hfuel : count < fuel) (halign : buf % 4 = 0) (hstop : buf + 4 * count + 4 ≤ stop) :
    readNopsLoop fuel ⟨buf, stop, nopTokens count ++ (beBytes 4 tag ++ rest)⟩ =
      .ok ⟨buf + 4 * count, stop, beBytes 4 tag ++ rest⟩ := by
  induction count generalizing buf fuel with
  | zero =>
      obtain ⟨fuel, rfl⟩ := Nat.exists_eq_succ_of_ne_zero (Nat.ne_of_gt hfuel)
      exact (readNopsLoop_succ (peekTag_append htag halign (by omega) rest) fuel).trans (if_neg hnop)
  | succ count ih =>
      obtain ⟨fuel, rfl⟩ := Nat.exists_eq_succ_of_ne_zero (Nat.ne_of_gt (Nat.zero_lt_of_lt hfuel))
      have hpeek := peekTag_append (by decide : nop < 2 ^ 32) halign (by omega : buf + 4 ≤ stop)
        (nopTokens count ++ (beBytes 4 tag ++ rest))
      have hrest := ih (by omega : count < fuel) (by omega : (buf + 4) % 4 = 0) (by omega)
      rw [nopTokens_succ, List.append_assoc, readNopsLoop_succ hpeek, if_pos rfl]
      have hadvance := advance_append buf stop (length_beBytes 4 nop).symm
        (nopTokens count ++ (beBytes 4 tag ++ rest))
      rw [hadvance, hrest]
      congr 2
      omega

theorem readNops_append (htag : tag < 2 ^ 32) (hnop : tag ≠ nop) {count : ℕ}
    (halign : buf % 4 = 0) (hstop : buf + 4 * count + 4 ≤ stop) (rest : List Byte) :
    (Cursor.mk buf stop (nopTokens count ++ (beBytes 4 tag ++ rest))).readNops =
      .ok ⟨buf + 4 * count, stop, beBytes 4 tag ++ rest⟩ := by
  refine readNopsLoop_append htag hnop ?_ halign hstop
  simp only [List.length_append, length_nopTokens]
  omega

end Cursor

theorem strlen_append {string rest : List Byte} (hstring : 0 ∉ string) :
    strlen (string ++ 0 :: rest) = .ok string.length := by
  have hfind : (string ++ 0 :: rest).findIdx? (· = 0) = some string.length := by
    rw [List.findIdx?_append, List.findIdx?_eq_none_iff.mpr]
    · simp [List.findIdx?_cons]
    · intro byte hbyte
      have hne : byte ≠ 0 := fun h => hstring (h ▸ hbyte)
      simpa using hne
  rw [strlen, hfind]

namespace Cursor

variable {buf stop : ℕ} {rest : List Byte}

theorem readNullString_append {string : List Byte} (hstring : 0 ∉ string) (buf stop : ℕ)
    (rest : List Byte) :
    (Cursor.mk buf stop (string ++ 0 :: rest)).readNullString =
      .ok (string, ⟨buf + (string.length + 1), stop, rest⟩) := by
  have hadvance := advance_append buf stop
    (by simp : string.length + 1 = (string ++ [0]).length) rest
  rw [List.append_assoc] at hadvance
  rw [readNullString, strlen_append hstring]
  change Except.ok (_, _) = _
  rw [List.take_left]
  exact congrArg (fun cursor => Except.ok (string, cursor)) hadvance

theorem readBuffer_append {data : List Byte} (hstop : buf + data.length ≤ stop)
    (rest : List Byte) :
    (Cursor.mk buf stop (data ++ rest)).readBuffer data.length =
      .ok (data, ⟨buf + data.length, stop, rest⟩) := by
  rw [readBuffer, verify, if_pos hstop, advance_append buf stop rfl]
  change Except.ok (_, _) = _
  rw [List.take_left]

theorem readPaddingLoop_zeros {count fuel : ℕ} (hcount : count ≤ fuel)
    (halign : (buf + count) % 4 = 0) (hlt : count < 4) :
    readPaddingLoop fuel ⟨buf, stop, List.replicate count 0 ++ rest⟩ =
      ⟨buf + count, stop, rest⟩ := by
  induction count generalizing buf fuel with
  | zero =>
      cases fuel with
      | zero => rfl
      | succ fuel => exact if_neg (not_not.mpr halign)
  | succ count ih =>
      obtain ⟨fuel, rfl⟩ := Nat.exists_eq_succ_of_ne_zero (by omega : fuel ≠ 0)
      have hrest := ih (by omega : count ≤ fuel) (by omega : (buf + 1 + count) % 4 = 0) (by omega)
      have hne : buf % 4 ≠ 0 := by omega
      refine (if_pos hne).trans ?_
      have hadvance : (Cursor.mk buf stop (List.replicate (count + 1) 0 ++ rest)).advance 1 =
          ⟨buf + 1, stop, List.replicate count 0 ++ rest⟩ := rfl
      rw [hadvance, hrest]
      congr 1
      omega

theorem readPadding_append {count : ℕ} (halign : buf % 4 = count % 4) (stop : ℕ)
    (rest : List Byte) :
    (Cursor.mk buf stop (padding count ++ rest)).readPadding =
      ⟨buf + (padding count).length, stop, rest⟩ := by
  rw [padding, List.length_replicate]
  exact readPaddingLoop_zeros (by omega) (by omega) (by omega)

end Cursor

theorem getString_prefix {strings name : List Byte} {offset size : ℕ} (hname : 0 ∉ name)
    (hentry : name ++ [0] <+: (strings.take size).drop offset) :
    getString strings offset = .ok name := by
  obtain ⟨rest, hrest⟩ := hentry
  have htake : (strings.take size).drop offset <+: strings.drop offset := by
    rw [List.drop_take]
    exact List.take_prefix _ _
  obtain ⟨more, hmore⟩ := htake
  have hstrings : strings.drop offset = name ++ 0 :: (rest ++ more) := by
    rw [← hmore, ← hrest]
    simp
  rw [getString, hstrings, strlen_append hname]
  exact congrArg Except.ok List.take_left

end BekOS.DeviceTree
