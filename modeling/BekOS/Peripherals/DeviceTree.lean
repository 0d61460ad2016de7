import BekOS.Lib.BigEndian
import BekOS.Library.KernelError

/-!
# Nodes of the device tree

What a node of the device tree has in it, and how numbers are read from its properties.  Where the
ancestors of a node matter it is given with the list of them, its parent first and the root last.
-/

namespace BekOS.DeviceTree

/-- The bytes of a string literal. -/
def bytesOf (literal : String) : List Byte := literal.toList.map fun c => BitVec.ofNat 8 c.toNat

/-- `property` -/
structure Property where
  name : List Byte
  data : List Byte
deriving DecidableEq, Repr

/-- `Node`, without its links. -/
structure Node where
  name : List Byte
  properties : List Property
deriving DecidableEq, Repr

/-- `ADDRESS_CELLS_TAG` -/
def addressCellsTag : List Byte := bytesOf "#address-cells"

/-- `SIZE_CELLS_TAG` -/
def sizeCellsTag : List Byte := bytesOf "#size-cells"

/-- `get_property` -/
def Node.getProperty (node : Node) (name : List Byte) : Option (List Byte) :=
  (node.properties.find? (·.name = name)).map Property.data

/-- `get_at_be`, for a type of `width` bytes. -/
def getAtBe (buffer : List Byte) (byteOffset width : ℕ) : Except Fault ℕ :=
  if byteOffset + width ≤ buffer.length then .ok (beNat ((buffer.drop byteOffset).take width))
  else .error .panic

/-- `get_property_u32` -/
def getPropertyU32 (node : Node) (name : List Byte) : Except Fault (Option ℕ) :=
  match node.getProperty name with
  | none => .ok none
  | some data => if data.length = 4 then (getAtBe data 0 4).map some else .error .panic

/-- `read_from_buffer`: the number, and the offset after it. -/
def readFromBuffer (buffer : List Byte) (offset cells : ℕ) : Except Fault (ℕ × ℕ) :=
  match cells with
  | 0 => .ok (0, offset)
  | 1 => (getAtBe buffer offset 4).map fun value => (value, offset + 4)
  | 2 => (getAtBe buffer offset 8).map fun value => (value, offset + 8)
  | _ => .error .panic

end BekOS.DeviceTree
