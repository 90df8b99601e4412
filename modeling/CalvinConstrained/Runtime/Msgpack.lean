import CalvinConstrained.Runtime.Coder

namespace CalvinConstrained

namespace Msgpack

/-- What the first bytes of a value say: its type, the number of values inside it, the
number of bytes of its text, and its number. -/
structure Head where
  type : CoderType
  children : Nat
  payload : Nat
  number : Nat
  deriving DecidableEq,Repr

/-- A number of `n` bytes, most significant byte first. -/
def bigEndian (n : Nat) (b : Bytes) : Option (Nat × Bytes) :=
  if n ≤ b.length then
    some ((b.take n).foldl (fun acc x => acc*256+x.toNat) 0,b.drop n)
  else none

def littleDigits : Nat → Nat → Bytes
  | 0,_ => []
  | n+1,x => UInt8.ofNat (x%256)::littleDigits n (x/256)

def toBigEndian (n x : Nat) : Bytes := (littleDigits n x).reverse

def head : Bytes → Option (Head × Bytes)
  | [] => none
  | c::r =>
    let sized := fun (n : Nat) (f : Nat → Head) => (bigEndian n r).map fun v => (f v.1,v.2)
    let str := fun n => Head.mk .str 0 n 0
    let bin := fun n => Head.mk .bin 0 n 0
    let array := fun n => Head.mk .array n 0 n
    let map := fun n => Head.mk .map (2*n) 0 n
    let uint := fun n => Head.mk .uint 0 0 n
    let int := fun n => Head.mk .int 0 0 n
    if c<0x80 then some (uint c.toNat,r)
    else if c<0x90 then some (map (c.toNat-0x80),r)
    else if c<0xa0 then some (array (c.toNat-0x90),r)
    else if c<0xc0 then some (str (c.toNat-0xa0),r)
    else if c=0xc0 then some (⟨.nil,0,0,0⟩,r)
    else if c=0xc2 then some (⟨.bool,0,0,0⟩,r)
    else if c=0xc3 then some (⟨.bool,0,0,1⟩,r)
    else if c=0xc4 then sized 1 bin
    else if c=0xc5 then sized 2 bin
    else if c=0xc6 then sized 4 bin
    else if c=0xca then some (⟨.float,0,4,0⟩,r)
    else if c=0xcb then some (⟨.double,0,8,0⟩,r)
    else if c=0xcc then sized 1 uint
    else if c=0xcd then sized 2 uint
    else if c=0xce then sized 4 uint
    else if c=0xcf then sized 8 uint
    else if c=0xd0 then sized 1 int
    else if c=0xd1 then sized 2 int
    else if c=0xd2 then sized 4 int
    else if c=0xd3 then sized 8 int
    else if c=0xd9 then sized 1 str
    else if c=0xda then sized 2 str
    else if c=0xdb then sized 4 str
    else if c=0xdc then sized 2 array
    else if c=0xdd then sized 4 array
    else if c=0xde then sized 2 map
    else if c=0xdf then sized 4 map
    else if 0xe0 ≤ c then some (int c.toNat,r)
    else none

/-- Skips `count` values; every value takes at least one byte, so the length of the message
bounds the recursion. -/
def skipValues : Nat → Nat → Bytes → Option Bytes
  | _,0,b => some b
  | 0,_+1,_ => none
  | fuel+1,count+1,b => do
      let (h,r) ← head b
      if h.payload ≤ r.length then
        skipValues fuel (count+h.children) (r.drop h.payload)
      else none

def typed (type : CoderType) (b : Bytes) : Option (Head × Bytes) := do
  let (h,r) ← head b
  if h.type=type then some (h,r) else none

end Msgpack

/-- MessagePack as its specification defines it. -/
def msgpack : Msgpuck where
  typeOf b := (Msgpack.head b).map fun h => h.1.type
  next b := Msgpack.skipValues b.length 1 b
  decodeMap b := (Msgpack.typed .map b).map fun h => (h.1.number,h.2)
  decodeArray b := (Msgpack.typed .array b).map fun h => (h.1.number,h.2)
  decodeStr b := (Msgpack.typed .str b).map fun h => ⟨h.2,h.1.payload⟩
  decodeUint b := (Msgpack.typed .uint b).map fun h => UInt32.ofNat h.1.number
  decodeBool b := (Msgpack.typed .bool b).map fun h => h.1.number=1
  encodeMap n :=
    if n<16 then [UInt8.ofNat (0x80+n)]
    else if n<65536 then 0xde::Msgpack.toBigEndian 2 n
    else 0xdf::Msgpack.toBigEndian 4 n
  encodeArray n :=
    if n<16 then [UInt8.ofNat (0x90+n)]
    else if n<65536 then 0xdc::Msgpack.toBigEndian 2 n
    else 0xdd::Msgpack.toBigEndian 4 n
  encodeStr b :=
    (if b.length<32 then [UInt8.ofNat (0xa0+b.length)]
    else if b.length<256 then 0xd9::Msgpack.toBigEndian 1 b.length
    else if b.length<65536 then 0xda::Msgpack.toBigEndian 2 b.length
    else 0xdb::Msgpack.toBigEndian 4 b.length)++b
  encodeUint x :=
    if x<128 then [UInt8.ofNat x.toNat]
    else if x<256 then 0xcc::Msgpack.toBigEndian 1 x.toNat
    else if x<65536 then 0xcd::Msgpack.toBigEndian 2 x.toNat
    else 0xce::Msgpack.toBigEndian 4 x.toNat
  encodeBool b := [if b then 0xc3 else 0xc2]
  encodeNil := [0xc0]

example : msgpack.decodeMap (msgpack.encodeMap 2++[0xa1,0x61])=some (2,[0xa1,0x61]) := by decide

end CalvinConstrained
