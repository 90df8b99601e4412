import CalvinConstrained.Runtime.Uuid

namespace CalvinConstrained

abbrev Bytes := List UInt8

/-- The C string in a buffer: what stands before the first NUL, or before the end. -/
def cstr (b : Bytes) : Bytes := b.takeWhile (· ≠ 0)

/-- `strncmp(a,b,n)==0`. -/
def strncmpEq (a b : Bytes) (n : Nat) : Bool := decide (cstr (a.take n)=cstr (b.take n))

def strnlen (b : Bytes) (n : Nat) : Nat := (cstr (b.take n)).length

/-- A string inside a message: where it starts and its length. What follows it in the
message can be read through the same pointer. -/
structure Text where
  ptr : Bytes
  len : Nat
  deriving DecidableEq

/-- The bytes of a text, without what follows it in the message. -/
def Text.content (t : Text) : Bytes := t.ptr.take t.len

/-- `strncpy` of the whole text and a terminator into a buffer of `size` bytes; undefined
when the terminator does not fit. -/
def Text.copy (t : Text) (size : Nat) : Option Bytes :=
  if t.len<size then some (cstr (t.ptr.take t.len)) else none

theorem Text.copy_eq {t : Text} {size : Nat} (h : t.len<size) : t.copy size=some (cstr t.content) :=
  if_pos h

/-- The text of a C string. -/
def Text.ofString (b : Bytes) : Text := ⟨b,b.length⟩

/-- The test of `cc_list_get_n`. -/
def listIdMatches (id : Bytes) (t : Text) : Bool :=
  decide (strnlen id uuidBufferSize=t.len) && strncmpEq id t.ptr t.len

/-- The test of `cc_list_remove`: any item whose id starts the given one. -/
def listRemoveMatches (itemId id : Bytes) : Bool := strncmpEq itemId id itemId.length

/-- ASCII text of the source. -/
def ascii (s : String) : Bytes := s.toList.map fun c => UInt8.ofNat c.toNat

end CalvinConstrained
