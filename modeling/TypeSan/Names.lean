import TypeSan.Types

/-! Type names and the class hashes computed from them. -/
namespace TypeSan

/-- The bytes of a `std::string`. -/
def bytes (str : String) : List UInt8 := str.toUTF8.data.toList

def startswith (name start : String) : Bool := (bytes start).isPrefixOf (bytes name)

def endswith (name ending : String) : Bool := (bytes ending).isSuffixOf (bytes name)

/-- `StringRef::find(part) != npos`. -/
def nameContains (name part : String) : Bool :=
  (bytes name).tails.any fun rest => (bytes part).isPrefixOf rest

/-- One of the eight steps that fill an entry of the table of `crc64c`. -/
def crcStep (crc : BitVec 64) : BitVec 64 :=
  let mask := -(crc &&& 1#64)
  (crc >>> 1) ^^^ (0xC96C5795D7870F42#64 &&& mask)

/-- The table of `crc64c`. -/
def crcTable (byte : BitVec 64) : BitVec 64 := Nat.repeat crcStep 8 byte

/-- The loop of `crc64c`, up to the byte that ends the string. -/
def crcLoop (crc : BitVec 64) : List UInt8 → BitVec 64
  | [] => crc
  | byte :: message =>
    if byte = 0 then crc
    else crcLoop ((crc >>> 8) ^^^ crcTable ((crc ^^^ byte.toBitVec.setWidth 64) &&& 0xFF#64)) message

def crc64c (message : List UInt8) : BitVec 64 := ~~~ crcLoop 0xFFFFFFFFFFFFFFFF#64 message

/-- `str.erase(str.find(part), part.length())`, when `part` occurs. -/
def eraseFirst (part : List UInt8) : List UInt8 → List UInt8
  | [] => []
  | byte :: rest =>
    if part.isPrefixOf (byte :: rest) then (byte :: rest).drop part.length
    else byte :: eraseFirst part rest

/-- `remove_useless_str`: no asterisk, no apostrophe, and not the first `.base`. -/
def removeUselessStr (str : List UInt8) : List UInt8 :=
  eraseFirst (bytes ".base") (str.filter fun byte => byte ≠ 0x2A && byte ≠ 0x27)

/-- `TypeSanUtil::getHashCodeFromStruct`. -/
def getHashCodeFromStruct (type : StructType) : Nat :=
  let str := type.name.getD "trackedtype._"
  (crc64c (removeUselessStr (bytes str))).toNat

/-- A struct type of the C++ front end that is not on the blacklist. -/
def StructType.isTracked (s : StructType) : Bool :=
  match s.name with
  | some name => startswith name "trackedtype."
  | none => false

def StructType.isBlacklisted (s : StructType) : Bool :=
  match s.name with
  | some name => startswith name "blacklistedtype."
  | none => false

end TypeSan
