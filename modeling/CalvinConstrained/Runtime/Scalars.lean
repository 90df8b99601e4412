import CalvinConstrained.Runtime.MsgpackLaws
import CalvinConstrained.Runtime.Payload

namespace CalvinConstrained

/-- The rest of the MessagePack library; floating point numbers are kept as their bits.
`mp_encode_int` is defined for negative numbers only. -/
structure MsgpuckScalars extends Msgpuck where
  decodeBin : Bytes → Option Text
  decodeInt : Bytes → Option Int
  decodeFloat : Bytes → Option UInt32
  decodeDouble : Bytes → Option UInt64
  encodeBin : Bytes → Bytes
  encodeInt : Int → Option Bytes

namespace Coder

variable (mp : MsgpuckScalars)

/-- The shape of the decoders that look at the type of the value first. -/
def decodeTyped {α : Type} (type : CoderType) (decode : Bytes → Option α) (buffer : Bytes) :
    Option (Option α) := do
  if (← mp.typeOf buffer)=type then
    return some (← decode buffer)
  else
    return none

def decodeBin (buffer : Bytes) : Option (Option Text) := decodeTyped mp .bin mp.decodeBin buffer

def decodeFloat (buffer : Bytes) : Option (Option UInt32) :=
  decodeTyped mp .float mp.decodeFloat buffer

def decodeDouble (buffer : Bytes) : Option (Option UInt64) :=
  decodeTyped mp .double mp.decodeDouble buffer

def decodeBinFromMap (buffer key : Bytes) : Option (Option Text) :=
  decodeCheckedFromMap mp.toMsgpuck (decodeBin mp) buffer key

def decodeDoubleFromMap (buffer key : Bytes) : Option (Option UInt64) :=
  decodeFromMap mp.toMsgpuck mp.decodeDouble buffer key

def decodeFloatFromMap (buffer key : Bytes) : Option (Option UInt32) :=
  decodeFromMap mp.toMsgpuck mp.decodeFloat buffer key

end Coder

/-- What the repository relies on when it reads values that it did not write: where a value
can be skipped its type is known, and it can be decoded as this type and as no other. -/
structure MsgpuckScalars.Readable (mp : MsgpuckScalars) : Prop where
  next_length : ∀ {b r}, mp.next b=some r → r.length<b.length
  typed : ∀ {b r}, mp.next b=some r → ∃ type, mp.typeOf b=some type
  str : ∀ {b r}, mp.next b=some r → ((mp.decodeStr b).isSome ↔ mp.typeOf b=some .str)
  bin : ∀ {b r}, mp.next b=some r → ((mp.decodeBin b).isSome ↔ mp.typeOf b=some .bin)
  uint : ∀ {b r}, mp.next b=some r → ((mp.decodeUint b).isSome ↔ mp.typeOf b=some .uint)
  bool : ∀ {b r}, mp.next b=some r → ((mp.decodeBool b).isSome ↔ mp.typeOf b=some .bool)
  double : ∀ {b r}, mp.next b=some r → ((mp.decodeDouble b).isSome ↔ mp.typeOf b=some .double)
  float : ∀ {b r}, mp.next b=some r → ((mp.decodeFloat b).isSome ↔ mp.typeOf b=some .float)
  text : ∀ {b r t}, mp.next b=some r → mp.decodeStr b=some t → t.len ≤ t.ptr.length

namespace Msgpack

/-- Numbers in two's complement. -/
def signed (n x : Nat) : Int := if x<2^(8*n-1) then x else (x : Int)-2^(8*n)

def decodeInt : Bytes → Option Int
  | [] => none
  | c::r =>
    if c=0xd0 then (bigEndian 1 r).map fun v => signed 1 v.1
    else if c=0xd1 then (bigEndian 2 r).map fun v => signed 2 v.1
    else if c=0xd2 then (bigEndian 4 r).map fun v => signed 4 v.1
    else if c=0xd3 then (bigEndian 8 r).map fun v => signed 8 v.1
    else if 0xe0 ≤ c then some (signed 1 c.toNat)
    else none

/-- The two's complement of a number in `n` bytes. -/
def toSigned (n : Nat) (x : Int) : Bytes := toBigEndian n (x%2^(8*n)).toNat

/-- A negative number in as few bytes as it needs. -/
def encodeNegative (x : Int) : Bytes :=
  if -32 ≤ x then toSigned 1 x
  else if -128 ≤ x then 0xd0::toSigned 1 x
  else if -32768 ≤ x then 0xd1::toSigned 2 x
  else if -2147483648 ≤ x then 0xd2::toSigned 4 x
  else 0xd3::toSigned 8 x

end Msgpack

/-- MessagePack as its specification defines it. -/
def msgpackScalars : MsgpuckScalars where
  toMsgpuck := msgpack
  decodeBin b := (Msgpack.typed .bin b).map fun h => ⟨h.2,h.1.payload⟩
  decodeInt := Msgpack.decodeInt
  decodeFloat b := (Msgpack.typed .float b).bind fun h =>
    (Msgpack.bigEndian 4 h.2).map fun v => UInt32.ofNat v.1
  decodeDouble b := (Msgpack.typed .double b).bind fun h =>
    (Msgpack.bigEndian 8 h.2).map fun v => UInt64.ofNat v.1
  encodeBin b :=
    (if b.length<256 then 0xc4::Msgpack.toBigEndian 1 b.length
    else if b.length<65536 then 0xc5::Msgpack.toBigEndian 2 b.length
    else 0xc6::Msgpack.toBigEndian 4 b.length)++b
  encodeInt x := if x<0 then some (Msgpack.encodeNegative x) else none

namespace Msgpack

/-- A way to read a head whose floating point numbers have their bytes behind it. -/
def FloatsSized (x : Option (Head × Bytes)) : Prop :=
  ∀ h r, x=some (h,r) → (h.type=.float → h.payload=4) ∧ (h.type=.double → h.payload=8)

theorem floatsSized_here {h : Head} {b : Bytes} (hf : h.type=.float → h.payload=4)
    (hd : h.type=.double → h.payload=8) : FloatsSized (some (h,b)) := by
  intro h' r heq
  cases heq
  exact ⟨hf,hd⟩

theorem floatsSized_sized {b : Bytes} {n : Nat} {f : Nat × Bytes → Head × Bytes}
    (hf : ∀ v, (f v).1.type ≠ .float ∧ (f v).1.type ≠ .double) :
    FloatsSized ((bigEndian n b).map f) := by
  intro h r heq
  obtain ⟨v,-,hv⟩ := Option.map_eq_some_iff.mp heq
  have hne := hf v
  rw [hv] at hne
  exact ⟨fun hc => absurd hc hne.1,fun hc => absurd hc hne.2⟩

theorem floatsSized_ite {c : Prop} [Decidable c] {x y : Option (Head × Bytes)}
    (hx : FloatsSized x) (hy : FloatsSized y) : FloatsSized (if c then x else y) := by
  split_ifs
  · exact hx
  · exact hy

theorem head_floatsSized (b : Bytes) : FloatsSized (head b) := by
  cases b with
  | nil => exact fun _ _ h => nomatch h
  | cons c b =>
    unfold head
    repeat' apply floatsSized_ite
    all_goals first
      | exact floatsSized_here (by simp) (by simp)
      | exact floatsSized_sized fun _ => by simp
      | exact fun _ _ h => nomatch h

/-- A value that can be skipped has a head, with all its text behind it. -/
theorem head_of_next {b r : Bytes} (h : msgpack.next b=some r) :
    ∃ hd u, head b=some (hd,u) ∧ hd.payload ≤ u.length := by
  change skipValues b.length 1 b=some r at h
  cases hlen : b.length with
  | zero =>
    rw [hlen] at h
    cases h
  | succ n =>
    rw [hlen,skipValues] at h
    obtain ⟨⟨hd,u⟩,hhead,h⟩ := Option.bind_eq_some_iff.mp h
    dsimp only at h
    split at h
    · next hle => exact ⟨hd,u,hhead,hle⟩
    · cases h

theorem typed_isSome (type : CoderType) (b : Bytes) :
    (typed type b).isSome ↔ msgpack.typeOf b=some type := by
  change _ ↔ (head b).map _=some type
  unfold typed
  cases head b with
  | none => simp
  | some h =>
    by_cases ht : h.1.type=type
    · simp [ht]
    · simp [ht]

theorem typed_eq_some {type : CoderType} {b u : Bytes} {hd : Head} (h : typed type b=some (hd,u)) :
    head b=some (hd,u) ∧ hd.type=type := by
  obtain ⟨⟨hd',u'⟩,hhead,h⟩ := Option.bind_eq_some_iff.mp h
  dsimp only at h
  split at h
  · next ht =>
    cases h
    exact ⟨hhead,ht⟩
  · cases h

/-- A floating point number can be decoded as such and as nothing else. -/
theorem float_isSome {type : CoderType} {n : Nat} {b r : Bytes} {α : Type} {f : Nat × Bytes → α}
    (hnext : msgpack.next b=some r)
    (hn : ∀ hd u, head b=some (hd,u) → hd.type=type → hd.payload=n) :
    ((typed type b).bind fun h => (bigEndian n h.2).map f).isSome ↔
      msgpack.typeOf b=some type := by
  rw [← typed_isSome]
  cases ht : typed type b with
  | none => simp
  | some h =>
    obtain ⟨hd,u⟩ := h
    obtain ⟨hhead,htype⟩ := typed_eq_some ht
    obtain ⟨hd',u',hhead',hle⟩ := head_of_next hnext
    rw [hhead] at hhead'
    cases hhead'
    have hlen : n ≤ u.length := hn hd u hhead htype ▸ hle
    simp [bigEndian,hlen]

end Msgpack

open Msgpack in
theorem msgpackScalars_readable : msgpackScalars.Readable where
  next_length := msgpack_lawful.next_length
  typed h := by
    obtain ⟨hd,u,hhead,-⟩ := head_of_next h
    exact ⟨hd.type,by change (head _).map _=_; rw [hhead]; rfl⟩
  str _ := by
    change (Option.map _ (typed .str _)).isSome ↔ _
    rw [Option.isSome_map]
    exact typed_isSome _ _
  bin _ := by
    change (Option.map _ (typed .bin _)).isSome ↔ _
    rw [Option.isSome_map]
    exact typed_isSome _ _
  uint _ := by
    change (Option.map _ (typed .uint _)).isSome ↔ _
    rw [Option.isSome_map]
    exact typed_isSome _ _
  bool _ := by
    change (Option.map _ (typed .bool _)).isSome ↔ _
    rw [Option.isSome_map]
    exact typed_isSome _ _
  double h := float_isSome h fun hd u hhead => (head_floatsSized _ hd u hhead).2
  float h := float_isSome h fun hd u hhead => (head_floatsSized _ hd u hhead).1
  text h hdecode := by
    obtain ⟨⟨hd,u⟩,htyped,he⟩ := Option.map_eq_some_iff.mp hdecode
    obtain ⟨hd',u',hhead',hle⟩ := head_of_next h
    rw [(typed_eq_some htyped).1] at hhead'
    cases hhead'
    cases he
    exact hle

/-- What the repository relies on when it reads binaries that it wrote. -/
structure MsgpuckScalars.Lawful (mp : MsgpuckScalars) : Prop extends mp.toMsgpuck.LawfulTypes where
  next_bin : ∀ {b : Bytes}, b.length<2^32 → ∀ r, mp.next (mp.encodeBin b++r)=some r
  type_bin : ∀ {b : Bytes}, b.length<2^32 → ∀ r, mp.typeOf (mp.encodeBin b++r)=some .bin
  decode_bin : ∀ {b : Bytes}, b.length<2^32 → ∀ r,
    mp.decodeBin (mp.encodeBin b++r)=some ⟨b++r,b.length⟩
  encode_int : ∀ x : Int, 0 ≤ x → mp.encodeInt x=none

theorem Msgpack.head_bin {b : Bytes} (hb : b.length<2^32) (r : Bytes) :
    head (msgpackScalars.encodeBin b++r)=some (⟨.bin,0,b.length,0⟩,b++r) := by
  simp only [msgpackScalars]
  generalize b.length=n at hb
  rw [List.append_assoc]
  split_ifs with h1 h2
  · rw [List.cons_append]
    simp [head,bigEndian_toBigEndian 1 n (by omega)]
  · rw [List.cons_append]
    simp [head,bigEndian_toBigEndian 2 n (by omega)]
  · rw [List.cons_append]
    simp [head,bigEndian_toBigEndian 4 n (by omega)]

open Msgpack in
theorem msgpackScalars_lawful : msgpackScalars.Lawful where
  toLawfulTypes := msgpack_lawfulTypes
  next_bin hb r := by
    change msgpack.next _=_
    rw [next_eq (head_bin hb r) (by simp)]
    simp [Coder.skip]
  type_bin hb r := by
    change (head _).map _=_
    rw [head_bin hb r]
    rfl
  decode_bin hb r := by
    change (typed .bin _).map _=_
    rw [typed_of_head (head_bin hb r)]
    rfl
  encode_int x hx := by
    change (if x<0 then _ else none)=none
    rw [if_neg (by omega)]

end CalvinConstrained
