import CalvinConstrained.Runtime.CString

namespace CalvinConstrained

/-- `cc_coder_type_t`. -/
inductive CoderType
  | undef
  | nil
  | str
  | uint
  | int
  | float
  | double
  | map
  | array
  | bool
  | bin
  deriving DecidableEq,Repr

/-- The MessagePack library, which is not part of the repository. A position in a message
is the rest of the message; `none` is a read the library leaves undefined, such as a map
header where there is none. -/
structure Msgpuck where
  typeOf : Bytes → Option CoderType
  next : Bytes → Option Bytes
  decodeMap : Bytes → Option (Nat × Bytes)
  decodeArray : Bytes → Option (Nat × Bytes)
  decodeStr : Bytes → Option Text
  decodeUint : Bytes → Option UInt32
  decodeBool : Bytes → Option Bool
  encodeMap : Nat → Bytes
  encodeArray : Nat → Bytes
  encodeStr : Bytes → Bytes
  encodeUint : UInt32 → Bytes
  encodeBool : Bool → Bytes
  encodeNil : Bytes

namespace Coder

variable (mp : Msgpuck)

/-- `cc_coder_decode_str`; the inner `none` is `CC_FAIL`. -/
def decodeStr (buffer : Bytes) : Option (Option Text) := do
  if (← mp.typeOf buffer)=.str then
    return some (← mp.decodeStr buffer)
  else
    return none

def decodeBool (buffer : Bytes) : Option (Option Bool) := do
  if (← mp.typeOf buffer)=.bool then
    return some (← mp.decodeBool buffer)
  else
    return none

/-- A key that is no string is skipped without its value. -/
def hasKeyLoop (key : Bytes) : Nat → Bytes → Option Bool
  | 0,_ => some false
  | n+1,r => do
      match ← decodeStr mp r with
      | some tmp =>
        let r ← mp.next r
        if strncmpEq tmp.ptr key tmp.len then
          return true
        hasKeyLoop key n (← mp.next r)
      | none => hasKeyLoop key n (← mp.next r)

def hasKey (buffer key : Bytes) : Option Bool := do
  if (← mp.typeOf buffer)=.map then
    let (n,r) ← mp.decodeMap buffer
    hasKeyLoop mp key n r
  else
    return false

def getSizeOfArray (buffer : Bytes) : Option Nat := do
  return (← mp.decodeArray buffer).1

/-- `mp_next`, `n` times. -/
def skip : Nat → Bytes → Option Bytes
  | 0,r => some r
  | n+1,r => do skip n (← mp.next r)

def getValueFromArray (buffer : Bytes) (index : Nat) : Option (Option Bytes) := do
  let (size,r) ← mp.decodeArray buffer
  if index<size then
    return some (← skip mp index r)
  else
    return none

/-- The comparison runs over the length of the requested key, also past the end of a
shorter key of the message. -/
def getValueFromMapLoop (key : Text) : Nat → Bytes → Option (Option Bytes)
  | 0,_ => some none
  | n+1,r => do
      match ← decodeStr mp r with
      | some tmp =>
        let r ← mp.next r
        if strncmpEq key.ptr tmp.ptr key.len then
          return some r
        getValueFromMapLoop key n (← mp.next r)
      | none => return none

def getValueFromMapN (buffer : Bytes) (key : Text) : Option (Option Bytes) := do
  if (← mp.typeOf buffer)=.map then
    let (n,r) ← mp.decodeMap buffer
    getValueFromMapLoop mp key n r
  else
    return none

def getValueFromMap (buffer key : Bytes) : Option (Option Bytes) :=
  getValueFromMapN mp buffer (.ofString key)

/-- The loop of the lookups of strings and binaries, which check the type of the value. The
comparison runs over the length of the key in the message, and a key that is no string is skipped
without its value. -/
def decodeCheckedFromMapLoop {α : Type} (decode : Bytes → Option (Option α)) (key : Bytes) :
    Nat → Bytes → Option (Option α)
  | 0,_ => some none
  | n+1,r => do
      match ← decodeStr mp r with
      | some tmp =>
        let r ← mp.next r
        if strncmpEq tmp.ptr key tmp.len then
          decode r
        else
          decodeCheckedFromMapLoop decode key n (← mp.next r)
      | none => decodeCheckedFromMapLoop decode key n (← mp.next r)

def decodeCheckedFromMap {α : Type} (decode : Bytes → Option (Option α)) (buffer key : Bytes) :
    Option (Option α) := do
  if (← mp.typeOf buffer)=.map then
    let (n,r) ← mp.decodeMap buffer
    decodeCheckedFromMapLoop mp decode key n r
  else
    return none

def decodeStringFromMap (buffer key : Bytes) : Option (Option Text) :=
  decodeCheckedFromMap mp (decodeStr mp) buffer key

def decodeStringFromArray (buffer : Bytes) (index : Nat) : Option (Option Text) := do
  let (size,r) ← mp.decodeArray buffer
  if index<size then
    decodeStr mp (← skip mp index r)
  else
    return none

/-- The loop shared by the typed lookups for numbers and booleans: a key that is no
string is not skipped at all, and the value is decoded without a look at its type. -/
def decodeFromMapLoop {α : Type} (decode : Bytes → Option α) (key : Bytes) :
    Nat → Bytes → Option (Option α)
  | 0,_ => some none
  | n+1,r => do
      match ← decodeStr mp r with
      | some tmp =>
        let r ← mp.next r
        if strncmpEq tmp.ptr key tmp.len then
          return some (← decode r)
        decodeFromMapLoop decode key n (← mp.next r)
      | none => decodeFromMapLoop decode key n r

def decodeFromMap {α : Type} (decode : Bytes → Option α) (buffer key : Bytes) :
    Option (Option α) := do
  if (← mp.typeOf buffer)=.map then
    let (n,r) ← mp.decodeMap buffer
    decodeFromMapLoop mp decode key n r
  else
    return none

def decodeUintFromMap (buffer key : Bytes) : Option (Option UInt32) :=
  decodeFromMap mp mp.decodeUint buffer key

def decodeBoolFromMap (buffer key : Bytes) : Option (Option Bool) :=
  decodeFromMap mp mp.decodeBool buffer key

def getSizeOfValue (value : Bytes) : Option Nat := do
  return value.length-(← mp.next value).length

def encodeKvStr (key value : Bytes) : Bytes := mp.encodeStr key++mp.encodeStr value

def encodeKvUint (key : Bytes) (value : UInt32) : Bytes := mp.encodeStr key++mp.encodeUint value

/-- A value already encoded, or nil where there is none. -/
def encodeKvValue (key : Bytes) (value : Option Bytes) : Bytes :=
  mp.encodeStr key++value.getD mp.encodeNil

end Coder

end CalvinConstrained
