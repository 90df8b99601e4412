import Mathlib

namespace CalvinConstrained

/-- Return codes shared by the whole runtime. -/
inductive Result
  | success
  | fail
  | pending
  deriving DecidableEq,Repr

inductive PortDirection
  | dirIn
  | dirOut
  deriving DecidableEq,Repr

/-- A state restored from a message may hold any number. -/
inductive PortState
  | disconnected
  | enabled
  | pendingLookup
  | pendingTunnel
  | pendingConnect
  | doDelete
  | unknown (value : UInt32)
  deriving DecidableEq,Repr

def PortState.ofUInt32 (value : UInt32) : PortState :=
  if value=0 then .disconnected
  else if value=1 then .enabled
  else if value=2 then .pendingLookup
  else if value=3 then .pendingTunnel
  else if value=4 then .pendingConnect
  else if value=5 then .doDelete
  else .unknown value

def PortState.toUInt32 : PortState → UInt32
  | .disconnected => 0
  | .enabled => 1
  | .pendingLookup => 2
  | .pendingTunnel => 3
  | .pendingConnect => 4
  | .doDelete => 5
  | .unknown value => value

inductive PortReplyType
  | ack
  | nack
  | abort
  deriving DecidableEq,Repr

inductive ActorState
  | pending
  | pendingImpl
  | enabled
  | doDelete
  deriving DecidableEq,Repr

def ActorState.toUInt32 : ActorState → UInt32
  | .pending => 0
  | .pendingImpl => 1
  | .enabled => 2
  | .doDelete => 3

inductive StateWas
  | actor
  | shadow
  | replica
  deriving DecidableEq,Repr

inductive TunnelState
  | disconnected
  | enabled
  | pending
  | unknown (value : UInt32)
  deriving DecidableEq,Repr

def TunnelState.ofUInt32 (value : UInt32) : TunnelState :=
  if value=0 then .disconnected
  else if value=1 then .enabled
  else if value=2 then .pending
  else .unknown value

inductive TunnelType
  | storage
  | token
  | proxy
  | unknown (value : UInt32)
  deriving DecidableEq,Repr

def TunnelType.ofUInt32 (value : UInt32) : TunnelType :=
  if value=0 then .storage
  else if value=1 then .token
  else if value=2 then .proxy
  else .unknown value

inductive NodeState
  | doStart
  | doSleep
  | pending
  | started
  | stop
  | unknown (value : UInt32)
  deriving DecidableEq,Repr

def NodeState.ofUInt32 (value : UInt32) : NodeState :=
  if value=0 then .doStart
  else if value=1 then .doSleep
  else if value=2 then .pending
  else if value=3 then .started
  else if value=4 then .stop
  else .unknown value

inductive StopMethod
  | clean
  | migrate
  deriving DecidableEq,Repr

end CalvinConstrained
