import CalvinConstrained.Runtime.Common

namespace CalvinConstrained

/-- Port queue. A slot is `none` when its token holds no value, as after
`memset`, a commit or `cc_token_free`; positions are free-running 32-bit
counters reduced modulo `size` on access. -/
@[ext] structure Fifo (α : Type) where
  size : UInt32
  writePos : UInt32
  readPos : UInt32
  tentativeReadPos : UInt32
  tokens : List (Option α)
  deriving DecidableEq,Repr

namespace Fifo

variable {α : Type}

/-- `cc_fifo_init` without a previous queue state. -/
def init (size : UInt32) : Fifo α := ⟨size,0,0,0,List.replicate size.toNat none⟩

/-- Index of a free-running position in the token array. -/
def index (f : Fifo α) (pos : UInt32) : Nat := (pos%f.size).toNat

def slot (f : Fifo α) (pos : UInt32) : Option α := (f.tokens[f.index pos]?).join

/-- `cc_token_set_data`, or `cc_token_free` for `none`, on the slot of `pos`. -/
def setSlot (f : Fifo α) (pos : UInt32) (t : Option α) : Fifo α :=
  {f with tokens := f.tokens.set (f.index pos) t}

def cancel (f : Fifo α) : Fifo α := {f with tentativeReadPos := f.readPos}

def peek (f : Fifo α) : Option α × Fifo α :=
  (f.slot f.tentativeReadPos,{f with tentativeReadPos := f.tentativeReadPos+1})

/-- With or without `free_token` the slot is left without a value; the flag only
says whether the buffer is freed or was handed over. -/
def commitRead (f : Fifo α) (_freeToken : Bool) : Fifo α :=
  if f.readPos<f.tentativeReadPos then
    {f.setSlot f.readPos none with readPos := f.readPos+1}
  else f

def cancelCommit (f : Fifo α) : Fifo α := {f with tentativeReadPos := f.readPos}

def slotsAvailable (f : Fifo α) (length : UInt32) : Bool :=
  decide (length ≤ f.size-(f.writePos-f.readPos)%f.size-1)

def tokensAvailable (f : Fifo α) (length : UInt32) : Bool :=
  decide (length ≤ f.writePos-f.tentativeReadPos)

def write (f : Fifo α) (data : α) : Result × Fifo α :=
  if f.slotsAvailable 1 then
    (.success,{f.setSlot f.writePos (some data) with writePos := f.writePos+1})
  else (.fail,f)

def comPeek (f : Fifo α) : (Option α × UInt32) × Fifo α :=
  ((f.peek.1,f.tentativeReadPos),f.peek.2)

/-- Every outcome is reported as success; a token below `write_pos` is only logged. -/
def comWrite (f : Fifo α) (data : α) (sequencenbr : UInt32) : Result × Fifo α :=
  if f.writePos ≤ sequencenbr then (.success,(f.write data).2) else (.success,f)

def comCommitRead (f : Fifo α) (sequencenbr : UInt32) : Fifo α :=
  if f.tentativeReadPos ≤ sequencenbr then f
  else if f.readPos<f.tentativeReadPos then
    if sequencenbr=f.readPos then
      {f.setSlot f.readPos none with readPos := f.readPos+1}
    else f
  else f

def comCancelRead (f : Fifo α) (sequencenbr : UInt32) : Fifo α :=
  if f.tentativeReadPos ≤ sequencenbr ∧ sequencenbr<f.readPos then f
  else {f with tentativeReadPos := sequencenbr}

end Fifo

end CalvinConstrained
