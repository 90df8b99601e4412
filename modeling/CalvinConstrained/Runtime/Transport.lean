import CalvinConstrained.Framework.Run
import CalvinConstrained.Runtime.Common
import CalvinConstrained.Runtime.CString

namespace CalvinConstrained

/-- `cc_transport_set_length_prefix` on the four bytes it writes. -/
def lengthPrefix (size : Nat) : Bytes :=
  [.ofNat (size>>>24),.ofNat (size>>>16),.ofNat (size>>>8),.ofNat size]

/-- `cc_transport_get_message_len`. -/
def getMessageLen (buffer : Bytes) : UInt32 :=
  (buffer.getD 3 0).toUInt32 ||| ((buffer.getD 2 0).toUInt32 <<< 8) |||
    ((buffer.getD 1 0).toUInt32 <<< 16) ||| ((buffer.getD 0 0).toUInt32 <<< 24)

/-- `cc_transport_send` for a buffer that starts with room for the prefix: the bytes handed
to the client. The size is an `int`; an overflow or a negative size is undefined. -/
def transportSend (buffer : Bytes) : Option Bytes :=
  let size := (buffer.length : Int).bmod (2^32)
  if size-4 < -2^31 ∨ size<0 ∨ buffer.length<4 then none
  else some ((lengthPrefix ((size-4)%2^32).toNat++buffer.drop 4).take size.toNat)

/-- `cc_transport_buffer_t`. `buffer` holds the bytes received so far; the rest of the
allocation is not initialised. -/
structure TransportBuffer where
  buffer : Option Bytes
  pos : UInt32
  size : UInt32
  deriving DecidableEq

/-- A transport client. `incoming` are the bytes of the connection not yet read. For the
current connection `received` are the bytes read, `dropped` those of a header that a failed
call threw away, and `handled` the messages passed to the handler. -/
structure TransportClient where
  rxBuffer : TransportBuffer
  incoming : Bytes
  received : Bytes
  dropped : Bytes
  handled : List Bytes
  deriving DecidableEq

namespace TransportBuffer

def empty : TransportBuffer := ⟨none,0,0⟩

/-- `to_read`, an `int` that is passed as a `size_t`. -/
def toRead (b : TransportBuffer) : Nat :=
  let n := (b.size-b.pos).toNat
  if n<2^31 then n else 2^64-2^32+n

end TransportBuffer

namespace TransportClient

/-- `cc_transport_create`, before a connection is made. -/
def fresh : TransportClient := ⟨.empty,[],[],[],[]⟩

/-- A read of at most `n` bytes that returns `r`. -/
def recv (n : Nat) (r : Int) (c : TransportClient) : Option (Bytes × TransportClient) :=
  if r ≤ 0 then some ([],c)
  else if r.toNat ≤ n ∧ r.toNat ≤ c.incoming.length then
    some (c.incoming.take r.toNat,{c with
      incoming := c.incoming.drop r.toNat
      received := c.received++c.incoming.take r.toNat})
  else none

/-- The message is complete: the handler is called and the buffer released. -/
def deliver (message : Bytes) (c : TransportClient) : TransportClient :=
  {c with rxBuffer := .empty,handled := c.handled++[message]}

/-- The payload part of the loop of `cc_transport_handle_data`, with the results of its
reads; it does not end before the message is complete or a read fails. -/
def readPayload : List Int → TransportClient → Option (Result × TransportClient)
  | [],_ => none
  | r::rs,c =>
      match c.rxBuffer.buffer,c.recv c.rxBuffer.toRead r with
      | some buffer,some (bytes,c) =>
        if r ≤ 0 then
          if rs=[] then some (.fail,c) else none
        else if c.rxBuffer.size.toNat<c.rxBuffer.pos.toNat+bytes.length then none
        else
          let pos := c.rxBuffer.pos+.ofNat bytes.length
          if pos=c.rxBuffer.size then
            if rs=[] then some (.success,c.deliver (buffer++bytes)) else none
          else
            readPayload rs {c with rxBuffer := ⟨some (buffer++bytes),pos,c.rxBuffer.size⟩}
      | _,_ => none

/-- The header part of `cc_transport_handle_data`; `alloc` is the outcome of allocating the
buffer. -/
def readHeader (alloc : Bool) : List Int → TransportClient → Option (Result × TransportClient)
  | [],_ => none
  | r::rs,c =>
      match c.recv 4 r with
      | none => none
      | some (bytes,c) =>
        if r<4 then
          if rs=[] then some (.fail,{c with dropped := c.dropped++bytes}) else none
        else if alloc then
          readPayload rs {c with rxBuffer := ⟨some [],0,getMessageLen bytes⟩}
        else if rs=[] then some (.fail,{c with dropped := c.dropped++bytes}) else none

/-- One call of `cc_transport_handle_data` with the results of its reads. -/
def handleData (alloc : Bool) (reads : List Int) (c : TransportClient) :
    Option (Result × TransportClient) :=
  match c.rxBuffer.buffer with
  | some _ => readPayload reads c
  | none => readHeader alloc reads c

end TransportClient

/-- `connect` is `cc_node_connect_to_proxy` with the client it already has: a new socket, and
a client that is otherwise as the last connection left it. -/
inductive TransportEvent
  | connect (stream : Bytes)
  | handleData (alloc : Bool) (reads : List Int)
  deriving DecidableEq

namespace TransportClient

def step : TransportEvent → TransportClient → Option TransportClient
  | .connect stream,c =>
      some {c with incoming := stream,received := [],dropped := [],handled := []}
  | .handleData alloc reads,c => (c.handleData alloc reads).map Prod.snd

end TransportClient

theorem byte_bit (n k j : Nat) :
    (UInt8.ofNat (n>>>k)).toBitVec.getLsbD j=(decide (j<8)&&n.testBit (k+j)) := by
  have h : (UInt8.ofNat (n>>>k)).toBitVec=BitVec.ofNat 8 (n>>>k) := rfl
  rw [h,BitVec.getLsbD_ofNat,Nat.testBit_shiftRight]

theorem getMessageLen_bit (b : Bytes) (i : Nat) (hi : i<32) :
    (getMessageLen b).toBitVec.getLsbD i=
      ((b.getD 3 0).toBitVec.getLsbD i ||
        (!decide (i<8)&&(b.getD 2 0).toBitVec.getLsbD (i-8)) ||
        (!decide (i<16)&&(b.getD 1 0).toBitVec.getLsbD (i-16)) ||
        (!decide (i<24)&&(b.getD 0 0).toBitVec.getLsbD (i-24))) := by
  simp [getMessageLen,hi]

/-- The bytes written for a length are read back as that length. -/
theorem getMessageLen_lengthPrefix (n : Nat) : getMessageLen (lengthPrefix n)=.ofNat n := by
  apply UInt32.eq_of_toBitVec_eq
  apply BitVec.eq_of_getLsbD_eq
  intro i hi
  have hn : (UInt32.ofNat n).toBitVec.getLsbD i=n.testBit i := by
    change (BitVec.ofNat 32 n).getLsbD i=n.testBit i
    rw [BitVec.getLsbD_ofNat,decide_eq_true hi,Bool.true_and]
  have h0 : (UInt8.ofNat n).toBitVec.getLsbD i=(decide (i<8)&&n.testBit i) := by
    simpa using byte_bit n 0 i
  rw [getMessageLen_bit _ i hi,hn]
  simp only [lengthPrefix,List.getD_cons_succ,List.getD_cons_zero,byte_bit,h0]
  have hbit : ∀ k, k ≤ i → k+(i-k)=i := fun k h => Nat.add_sub_cancel' h
  by_cases h8 : i<8
  · simp [h8,show i<16 by omega,show i<24 by omega]
  · by_cases h16 : i<16
    · simp [h8,h16,show i<24 by omega,hbit 8 (by omega),show i-8<8 by omega]
    · by_cases h24 : i<24
      · simp [h8,h16,h24,hbit 16 (by omega),show i-16<8 by omega,show ¬i-8<8 by omega]
      · simp [h8,h16,h24,hbit 24 (by omega),show i-24<8 by omega,show ¬i-8<8 by omega,
          show ¬i-16<8 by omega]

end CalvinConstrained
