import CalvinConstrained.Runtime.Scalars

namespace CalvinConstrained

/-- The objects of MicroPython that are encoded; a float is its bits, `other` any other object. -/
inductive PyObj
  | none
  | bool (b : Bool)
  | int (i : Int)
  | float (x : UInt64)
  | str (s : Bytes)
  | bytes (b : Bytes)
  | list (items : List PyObj)
  | dict (entries : List (PyObj × PyObj))
  | other

/-- A list or a dict is no key of a dict. -/
def PyObj.hashable : PyObj → Bool
  | .list _ => false
  | .dict _ => false
  | _ => true

/-- What MicroPython decides for a platform: which numbers are small integers and which fit a machine
word, which keys of a dict are equal, and how its floating point numbers are converted. -/
structure MicroPython where
  isSmallInt : Int → Bool
  isMachineInt : Int → Bool
  equal : PyObj → PyObj → Bool
  newFloat : UInt32 → PyObj
  newDouble : UInt64 → PyObj
  encodeFloat : UInt64 → Bytes

/-- Why a conversion gives no result: `CC_FAIL`, or an exception of MicroPython, which leaves the C
code at once. -/
inductive MpyError
  | fail
  | raised
  deriving DecidableEq

/-- The memory behind a buffer. -/
abbrev Memory := Nat → UInt8

def Memory.write (mem : Memory) (pos : Nat) (b : Bytes) : Memory :=
  fun i => if pos ≤ i ∧ i<pos+b.length then b.getD (i-pos) 0 else mem i

/-- A write into a buffer of `room` bytes, or into one that is large enough. -/
def Memory.writeIn (mem : Memory) (room : Option Nat) (pos : Nat) (b : Bytes) : Option Memory :=
  if ∀ n ∈ room, pos+b.length ≤ n then some (mem.write pos b) else none

/-- The bytes that a length of 32 bits leaves of a text. -/
def clip (b : Bytes) : Bytes := b.take (b.length%2^32)

namespace MicroPython

variable (py : MicroPython) (mp : MsgpuckScalars) (room : Option Nat)

/-- A value without parts, and its size. -/
def put (mem : Memory) (pos : Nat) (b : Bytes) : Option (Except MpyError (Nat × Memory)) :=
  (mem.writeIn room pos b).map fun mem => .ok (b.length,mem)

mutual

/-- `cc_mpy_encode_from_mpy_obj` into a buffer that starts at `pos`, where `size` is what `*size`
holds before. For bytes `*size` stays as it is; `mp_obj_get_int` raises for an int that is longer
than a machine word. -/
def encodeFromMpyObj : PyObj → Nat → Nat → Memory → Option (Except MpyError (Nat × Memory))
  | .int i,pos,_,mem =>
    let value := UInt32.ofInt i
    if py.isSmallInt i then put room mem pos (mp.encodeUint value)
    else if !py.isMachineInt i then some (.error .raised)
    else do put room mem pos (← mp.encodeInt value.toNat)
  | .float x,pos,_,mem => put room mem pos (py.encodeFloat x)
  | .bool b,pos,_,mem => put room mem pos (mp.encodeBool b)
  | .none,pos,_,mem => put room mem pos mp.encodeNil
  | .str s,pos,_,mem => put room mem pos (mp.encodeStr (clip (cstr s)))
  | .bytes b,pos,size,mem => do
    return .ok (size,← mem.writeIn room pos (mp.encodeBin (clip b)))
  | .list items,pos,size,mem => do
    let header := mp.encodeArray (items.length%2^32)
    match ← encodeItems items (pos+header.length) size (← mem.writeIn room pos header) with
    | .error e => return .error e
    | .ok (stop,mem) => return .ok (stop-pos,mem)
  | .dict entries,pos,size,mem => do
    let header := mp.encodeMap (entries.length%2^32)
    match ← encodeEntries entries (pos+header.length) size (← mem.writeIn room pos header) with
    | .error e => return .error e
    | .ok (stop,mem) => return .ok (stop-pos,mem)
  | .other,_,_,_ => some (.error .fail)

/-- The loop over a list: where the next item goes, and the memory. -/
def encodeItems : List PyObj → Nat → Nat → Memory → Option (Except MpyError (Nat × Memory))
  | [],pos,_,mem => some (.ok (pos,mem))
  | item::items,pos,size,mem => do
    match ← encodeFromMpyObj item pos size mem with
    | .error e => return .error e
    | .ok (size,mem) => encodeItems items (pos+size) size mem

def encodeEntries : List (PyObj × PyObj) → Nat → Nat → Memory →
    Option (Except MpyError (Nat × Memory))
  | [],pos,_,mem => some (.ok (pos,mem))
  | (key,value)::entries,pos,size,mem => do
    match ← encodeFromMpyObj key pos size mem with
    | .error e => return .error e
    | .ok (size,mem) =>
      match ← encodeFromMpyObj value (pos+size) size mem with
      | .error e => return .error e
      | .ok (size',mem) => encodeEntries entries (pos+size+size') size' mem

end

/-- `mp_obj_dict_store`. -/
def dictStore (entries : List (PyObj × PyObj)) (key value : PyObj) : List (PyObj × PyObj) :=
  if entries.any fun e => py.equal e.1 key then
    entries.map fun e => if py.equal e.1 key then (e.1,value) else e
  else entries++[(key,value)]

/-- The loop over an array; every item is looked up from the start. -/
def decodeArray (decode : Bytes → Option (Except MpyError PyObj)) (buffer : Bytes) :
    Nat → Nat → Option (Except MpyError (List PyObj))
  | 0,_ => some (.ok [])
  | n+1,i => do
    let some item ← Coder.getValueFromArray mp.toMsgpuck buffer i | failure
    match ← decode item with
    | .error e => return .error e
    | .ok value =>
      match ← decodeArray decode buffer n (i+1) with
      | .error e => return .error e
      | .ok values => return .ok (value::values)

/-- The loop over a map. `mp_obj_dict_store` raises for a key that cannot be hashed. -/
def decodeMap (decode : Bytes → Option (Except MpyError PyObj)) :
    Nat → Bytes → List (PyObj × PyObj) → Option (Except MpyError (List (PyObj × PyObj)))
  | 0,_,entries => some (.ok entries)
  | n+1,r,entries => do
    match ← decode r with
    | .error e => return .error e
    | .ok key =>
      let r ← mp.next r
      match ← decode r with
      | .error e => return .error e
      | .ok value =>
        let r ← mp.next r
        if key.hashable then decodeMap decode n r (py.dictStore entries key value)
        else return .error .raised

/-- A scalar that can be decoded, or `CC_FAIL`. -/
def decoded {α : Type} (make : α → PyObj) (value : Option α) : Except MpyError PyObj :=
  match value with
  | none => .error .fail
  | some value => .ok (make value)

/-- `cc_mpy_decode_to_mpy_obj`, to the depth `fuel`. -/
def decodeToMpyObj : Nat → Bytes → Option (Except MpyError PyObj)
  | 0,_ => none
  | fuel+1,buffer => do
    match ← mp.typeOf buffer with
    | .nil => return .ok .none
    | .str => return decoded (fun t => .str (t.ptr.take t.len)) (← Coder.decodeStr mp.toMsgpuck buffer)
    | .uint => return .ok (.int (← mp.decodeUint buffer).toNat)
    | .int => return .ok (.int ((← mp.decodeInt buffer).bmod (2^32)))
    | .bool => return decoded .bool (← Coder.decodeBool mp.toMsgpuck buffer)
    | .float => return decoded py.newFloat (← Coder.decodeFloat mp buffer)
    | .double => return decoded py.newDouble (← Coder.decodeDouble mp buffer)
    | .array =>
      let size ← Coder.getSizeOfArray mp.toMsgpuck buffer
      let items ← decodeArray mp (decodeToMpyObj fuel) buffer size 0
      return items.map .list
    | .map =>
      let (size,r) ← mp.decodeMap buffer
      let entries ← decodeMap py mp (decodeToMpyObj fuel) size r []
      return entries.map .dict
    | .bin => return decoded (fun t => .bytes (t.ptr.take t.len)) (← Coder.decodeBin mp buffer)
    | .undef => return .error .fail

end MicroPython

end CalvinConstrained
