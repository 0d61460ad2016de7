import BekOS.Library.Hashtable
import BekOS.Peripherals.DeviceTree

/-!
# Reading a flattened device tree

`read_dtb` reads the header of the blob and the reserved regions, and then goes through the
structure block with a recursive descent.  A pointer is an address, with the bytes of the blob that
are there; a node is numbered when it is made, and the number stands for its address.
-/

namespace BekOS.DeviceTree

/-! ## Tokens -/

/-- `DTB_MAGIC` -/
def dtbMagic : ℕ := 0xd00dfeed

/-- `dtb_struct_tag` -/
def beginNode : ℕ := 1

@[inherit_doc beginNode]
def endNode : ℕ := 2

@[inherit_doc beginNode]
def beginProp : ℕ := 3

@[inherit_doc beginNode]
def nop : ℕ := 4

@[inherit_doc beginNode]
def endOfTree : ℕ := 9

/-- `strlen`, where the bytes given go on to the end of the blob. -/
def strlen (bytes : List Byte) : Except Fault ℕ :=
  match bytes.findIdx? (· = 0) with
  | some len => .ok len
  | none => .error .outOfBounds

/-- `get_string`, from the bytes at the start of the strings. -/
def getString (strings : List Byte) (offset : ℕ) : Except Fault (List Byte) :=
  (strlen (strings.drop offset)).map (strings.drop offset).take

/-- The loop of `dtb_read_stringlist`, with `size` bytes left of its buffer.  The bytes go on
behind the buffer, as a string that is not terminated in it does. -/
def readStringlistLoop : ℕ → List Byte → ℕ → Except Fault (List (List Byte))
  | 0, _, _ => .ok []
  | fuel + 1, bytes, size =>
      if size = 0 then .ok []
      else do
        let len ← strlen bytes
        let rest ← readStringlistLoop fuel (bytes.drop (len + 1)) (size - (len + 1))
        return bytes.take len :: rest

/-- `dtb_read_stringlist` -/
def readStringlist (bytes : List Byte) (size : ℕ) : Except Fault (List (List Byte)) :=
  readStringlistLoop size bytes size

/-- `dtb_struct_pointer`: where it is, where its data ends, and the bytes from where it is on. -/
structure Cursor where
  buf : ℕ
  stop : ℕ
  bytes : List Byte
deriving DecidableEq, Repr

namespace Cursor

/-- `buf += count` -/
def advance (cursor : Cursor) (count : ℕ) : Cursor :=
  { cursor with buf := cursor.buf + count, bytes := cursor.bytes.drop count }

/-- `read_u32`, and its value alone in `peek_tag`. -/
def readU32 (cursor : Cursor) : Except Fault (ℕ × Cursor) := do
  verify (cursor.buf + 4 ≤ cursor.stop)
  if 4 ≤ cursor.bytes.length then
    return (beNat (cursor.bytes.take 4), cursor.advance 4)
  else throw .outOfBounds

/-- `read_tag` -/
def readTag (cursor : Cursor) : Except Fault (ℕ × Cursor) := do
  verify (cursor.buf % 4 = 0)
  cursor.readU32

/-- `peek_tag` -/
def peekTag (cursor : Cursor) : Except Fault ℕ := do
  verify (cursor.buf % 4 = 0)
  cursor.readU32.map Prod.fst

/-- The loop of `read_nops`. -/
def readNopsLoop : ℕ → Cursor → Except Fault Cursor
  | 0, cursor => .ok cursor
  | fuel + 1, cursor => do
      if (← cursor.peekTag) = nop then readNopsLoop fuel (cursor.advance 4) else return cursor

/-- `read_nops`.  There are fewer of them than bytes. -/
def readNops (cursor : Cursor) : Except Fault Cursor :=
  readNopsLoop (cursor.bytes.length + 1) cursor

/-- `read_null_string` -/
def readNullString (cursor : Cursor) : Except Fault (List Byte × Cursor) := do
  let len ← strlen cursor.bytes
  return (cursor.bytes.take len, cursor.advance (len + 1))

/-- The loop of `read_padding`. -/
def readPaddingLoop : ℕ → Cursor → Cursor
  | 0, cursor => cursor
  | fuel + 1, cursor =>
      if cursor.buf % 4 ≠ 0 then readPaddingLoop fuel (cursor.advance 1) else cursor

/-- `read_padding`, in three steps at most. -/
def readPadding (cursor : Cursor) : Cursor := readPaddingLoop 3 cursor

/-- `read_buffer` -/
def readBuffer (cursor : Cursor) (size : ℕ) : Except Fault (List Byte × Cursor) := do
  verify (cursor.buf + size ≤ cursor.stop)
  return (cursor.bytes.take size, cursor.advance size)

end Cursor

/-! ## Nodes -/

/-- A `Node` with its links: its own address and that of its parent, its `compatible` strings, its
`phandle` and its children. -/
inductive ParsedNode where
  | mk (address : ℕ) (parent : Option ℕ) (node : Node) (compatible : List (List Byte))
      (phandle : ℕ) (children : List ParsedNode)
deriving Repr

/-- The properties of a node, as far as they are read, and what is kept of them beside. -/
structure Attributes where
  properties : List Property
  compatible : List (List Byte)
  phandle : ℕ
deriving DecidableEq, Repr

/-- The attributes that `parse_node` makes a node with. -/
def newAttributes : Attributes := ⟨[], [], 1000⟩

/-- What a parse changes: where it is, the phandles it has found, and how many nodes are made. -/
structure ParseState where
  cursor : Cursor
  phandles : Hashtable ℕ ℕ
  made : ℕ
deriving DecidableEq, Repr

/-- The name of the property that lists what a node is compatible with. -/
def compatibleTag : List Byte := bytesOf "compatible"

/-- The name of the property that numbers a node for others. -/
def phandleTag : List Byte := bytesOf "phandle"

section Parser

variable (hash : ℕ → ℕ) (strings : List Byte)

/-- The special cases of `parse_node`, for a property of the node at the address.  The bytes are
those from the start of its data on. -/
def specialCases (address : ℕ) (property : Property) (bytes : List Byte) (attributes : Attributes)
    (phandles : Hashtable ℕ ℕ) : Except Fault (Attributes × Hashtable ℕ ℕ) :=
  if property.name = compatibleTag then do
    let compatible ← readStringlist bytes property.data.length
    return ({ attributes with compatible := compatible }, phandles)
  else if property.name = phandleTag then do
    let phandle ← getAtBe property.data 0 4
    match phandles.insert hash (phandle, address) with
    | some inserted => return ({ attributes with phandle := phandle }, inserted.1)
    | none => throw .panic
  else .ok (attributes, phandles)

/-- The loop of `parse_node` over the properties. -/
def parseProperties (address : ℕ) : ℕ → Attributes → Cursor → Hashtable ℕ ℕ →
    Except Fault (Attributes × Cursor × Hashtable ℕ ℕ)
  | 0, attributes, cursor, phandles => .ok (attributes, cursor, phandles)
  | fuel + 1, attributes, cursor, phandles => do
      if (← cursor.peekTag) = beginProp then
        let tag ← cursor.readTag
        let len ← tag.2.readU32
        let nameOff ← len.2.readU32
        let data ← nameOff.2.readBuffer len.1
        let name ← getString strings nameOff.1
        let property : Property := ⟨name, data.1⟩
        let special ← specialCases hash address property nameOff.2.bytes
          { attributes with properties := attributes.properties ++ [property] } phandles
        parseProperties address fuel special.1 data.2.readPadding special.2
      else return (attributes, cursor, phandles)

/-- The end of `parse_node`. -/
def closeNode (cursor : Cursor) : Except Fault Cursor := do
  let cursor ← cursor.readNops
  let tag ← cursor.readTag
  verify (tag.1 = endNode)
  return tag.2

mutual

/-- `parse_node`.  The fuel is for the recursion and for the loop over the children. -/
def parseNode : ℕ → Option ℕ → ParseState → Except Fault (ParsedNode × ParseState)
  | 0, _, _ => .error .outOfBounds
  | fuel + 1, parent, state => do
      let cursor ← state.cursor.readNops
      let tag ← cursor.readTag
      verify (tag.1 = beginNode)
      let name ← tag.2.readNullString
      let cursor := name.2.readPadding
      let read ← parseProperties hash strings state.made (cursor.bytes.length + 1) newAttributes
        cursor state.phandles
      let children ← parseChildren fuel state.made ⟨read.2.1, read.2.2, state.made + 1⟩
      let cursor ← closeNode children.2.cursor
      return (.mk state.made parent ⟨name.1, read.1.properties⟩ read.1.compatible read.1.phandle
        children.1, { children.2 with cursor := cursor })

/-- The loop of `parse_node` over the children. -/
def parseChildren : ℕ → ℕ → ParseState → Except Fault (List ParsedNode × ParseState)
  | 0, _, _ => .error .outOfBounds
  | fuel + 1, parent, state => do
      if (← state.cursor.peekTag) = beginNode then
        let child ← parseNode fuel (some parent) state
        let rest ← parseChildren fuel parent child.2
        return (child.1 :: rest.1, rest.2)
      else return ([], state)

end

end Parser

/-! ## The whole blob -/

/-- `reserved_region` -/
structure ReservedRegion where
  address : ℕ
  size : ℕ
deriving DecidableEq, Repr

/-- `device_tree` -/
structure Tree where
  reservedRegions : List ReservedRegion
  rootNode : Option ParsedNode
  phandles : Hashtable ℕ ℕ
deriving Repr

/-- A number in the blob, read through a pointer. -/
def wordAt (blob : List Byte) (offset width : ℕ) : Except Fault ℕ :=
  if offset + width ≤ blob.length then .ok (beNat ((blob.drop offset).take width))
  else .error .outOfBounds

/-- The loop of `read_dtb` over the reserved regions. -/
def readReserved (blob : List Byte) : ℕ → ℕ → Except Fault (List ReservedRegion)
  | 0, _ => .error .outOfBounds
  | fuel + 1, offset => do
      let address ← wordAt blob offset 8
      let size ← wordAt blob (offset + 8) 8
      if address = 0 ∧ size = 0 then return []
      else do
        let rest ← readReserved blob fuel (offset + 16)
        return ⟨address, size⟩ :: rest

/-- `fdt_header` -/
structure Header where
  magic : ℕ
  totalsize : ℕ
  offDtStruct : ℕ
  offDtStrings : ℕ
  offMemRsvmap : ℕ
  version : ℕ
  lastCompVersion : ℕ
  bootCpuidPhys : ℕ
  sizeDtStrings : ℕ
  sizeDtStruct : ℕ
deriving DecidableEq, Repr

/-- The header of the blob, in the endianness of the processor. -/
def readHeader (blob : List Byte) : Except Fault Header := do
  return ⟨← wordAt blob 0 4, ← wordAt blob 4 4, ← wordAt blob 8 4, ← wordAt blob 12 4,
    ← wordAt blob 16 4, ← wordAt blob 20 4, ← wordAt blob 24 4, ← wordAt blob 28 4,
    ← wordAt blob 32 4, ← wordAt blob 36 4⟩

/-- `read_dtb`, of the blob at this address. -/
def readDtb (hash : ℕ → ℕ) (base : ℕ) (blob : List Byte) : Except Fault Tree := do
  let header ← readHeader blob
  if header.magic ≠ dtbMagic then return ⟨[], none, .new 4⟩
  else
    let reserved ← readReserved blob (blob.length + 1) header.offMemRsvmap
    verify (header.offDtStruct + header.sizeDtStruct ≤ blob.length)
    verify (header.offDtStrings + header.sizeDtStrings ≤ blob.length)
    let cursor : Cursor := ⟨base + header.offDtStruct,
      base + header.offDtStruct + header.sizeDtStruct, blob.drop header.offDtStruct⟩
    let root ← parseNode hash (blob.drop header.offDtStrings) (cursor.bytes.length + 1) none
      ⟨cursor, .new 4, 0⟩
    return ⟨reserved, some root.1, root.2.phandles⟩

end BekOS.DeviceTree
