import CalvinConstrained.Runtime.Event
import CalvinConstrained.Runtime.Msgpack

namespace CalvinConstrained

namespace Message

def text (s : String) : Doc := .raw (msgpack.encodeStr (ascii s))

def number (n : UInt32) : Doc := .raw (msgpack.encodeUint n)

def nothing : Doc := .raw msgpack.encodeNil

def obj (entries : List (String × Doc)) : Doc :=
  .map entries.length (entries.map fun e => (ascii e.1,e.2))

def list (items : List Doc) : Doc := .array items.length items

/-- A port with its peer, as the description of an actor has it. -/
structure PortInfo where
  id : String
  peerId : Option String
  peerPortId : String
  constrainedState : Option UInt32

def PortInfo.doc (p : PortInfo) : Doc :=
  obj ([("id",text p.id),("name",text p.id),
    ("properties",obj [("routing",text "default"),("nbr_peers",number 1)])]++
    p.constrainedState.toList.map fun v => ("constrained_state",number v))

def PortInfo.prev (p : PortInfo) : Doc :=
  list [list [(p.peerId.map text).getD nothing,text p.peerPortId]]

/-- What `cc_actor_create` reads. -/
def actorState (type id : String) (inports outports : List PortInfo) : Doc :=
  obj [("actor_type",text type),
    ("prev_connections",obj [
      ("inports",obj (inports.map fun p => (p.id,p.prev))),
      ("outports",obj (outports.map fun p => (p.id,p.prev)))]),
    ("actor_state",obj [
      ("private",obj [("_id",text id),("_name",text id),
        ("inports",obj (inports.map fun p => (p.id,p.doc))),
        ("outports",obj (outports.map fun p => (p.id,p.doc)))]),
      ("managed",obj [])])]

def actor (type id : String) (inports outports : List PortInfo) : Bytes :=
  (obj [("state",actorState type id inports outports)]).encode msgpack

def portConnect (peerPortId tunnelId : String) : Bytes :=
  (obj [("cmd",text "PORT_CONNECT"),("from_rt_uuid",text "px"),("msg_uuid",text "m"),
    ("peer_port_id",text peerPortId),("tunnel_id",text tunnelId)]).encode msgpack

def tunnelNew (fromRtUuid tunnelId : String) : Bytes :=
  (obj [("cmd",text "TUNNEL_NEW"),("from_rt_uuid",text fromRtUuid),("msg_uuid",text "m"),
    ("type",text "token"),("tunnel_id",text tunnelId)]).encode msgpack

/-- The id of the request that gets the `i`-th uuid of the `n`-th event. -/
def msgId (n i : Nat) : Bytes := genUuid (fun j => [n,i].getD j 0) (ascii "MSGID_")

/-- The answer of the registry to the request for a port. -/
def portValue (msgUuid : Bytes) (key : String) (value : Doc) : Bytes :=
  (obj [("cmd",text "TUNNEL_DATA"),
    ("value",obj [("msg_uuid",.raw (msgpack.encodeStr msgUuid)),("key",text key),
      ("value",value)])]).encode msgpack

end Message

/-- A node with one actor type, before its first step. -/
def bareHost : Host where
  id := ascii "n"
  state := .doStart
  stopMethod := .clean
  usePython := false
  checkpointing := false
  signedChar := true
  transport := none
  pendingMsgs := []
  actorTypes := [ascii "t"]
  capabilities := []
  objects := []
  fate := ⟨[],[],[],[]⟩
  sent := []

/-- All platform calls succeed. -/
def Fate.fine : Fate := ⟨[],[],[[1],[2],[3],[4],[5],[6],[7],[8],[9]],[]⟩

/-- All platform calls of the `n`-th event succeed, with ids of its own. -/
def Fate.fresh (n : Nat) : Fate := ⟨[],[],(List.range 12).map fun i => [n,i],[]⟩

/-- A fresh node that has joined the proxy `px`. -/
def joining : List (Event × Fate) :=
  [(.start none,.fine),(.transport (some ⟨.enabled,ascii "px"⟩),.fine),(.connectStart,.fine)]

end CalvinConstrained
