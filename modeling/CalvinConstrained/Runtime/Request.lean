import CalvinConstrained.Runtime.ReplyFit

namespace CalvinConstrained

open Prog

/-- An id in a buffer with its terminator matches a text in the message exactly when it is the same
string. -/
theorem listIdMatches_iff {id : Bytes} {t : Text} (ht : t.len ≤ t.ptr.length)
    (hid : (cstr id).length<uuidBufferSize) : listIdMatches id t=true ↔ cstr id=t.content := by
  have hlen : t.content.length=t.len := by
    rw [Text.content,List.length_take,Nat.min_eq_left ht]
  have hstrnlen : strnlen id uuidBufferSize=(cstr id).length := by
    rw [strnlen,cstr_take,List.length_take,Nat.min_eq_right (Nat.le_of_lt hid)]
  rw [listIdMatches,Bool.and_eq_true,decide_eq_true_eq,hstrnlen,strncmpEq,decide_eq_true_eq,
    cstr_take id]
  constructor
  · rintro ⟨hsame,htext⟩
    rw [← hsame,List.take_length,hsame] at htext
    have hcopy : (cstr t.content).length=t.content.length := by
      rw [Text.content,← htext,hsame,← Text.content,hlen]
    rw [htext]
    have hpre := cstr_prefix t.content
    exact hpre.eq_of_length hcopy
  · intro hsame
    have hid' : cstr t.content=t.content := by
      rw [← hsame]
      exact cstr_of_not_mem (cstr_no_nul id)
    have hlen' : (cstr id).length=t.len := by rw [hsame,hlen]
    refine ⟨hlen',?_⟩
    rw [← hlen',List.take_length,hlen',hsame]
    exact hid'.symm

namespace Node

variable {s t : Node}

/-- The id of an actor, when there is one. -/
def actorUuid (s : Node) (a : Ref) : Option Bytes := (s.actorIdOf a).join.map cstr

def portUuid (s : Node) (p : Ref) : Option Bytes := (s.portMem.get p).map fun x => cstr x.id

/-- The listed actors are there, each with an id in its buffer. -/
def ActorsIdentified (s : Node) : Prop :=
  ∀ a ∈ s.actors, ∃ id, s.actorIdOf a=some (some id) ∧ (cstr id).length<uuidBufferSize

def PortsIdentified (s : Node) : Prop :=
  ∀ p x, s.portMem.get p=some x → (cstr x.id).length<uuidBufferSize

def TunnelsIdentified (s : Node) : Prop :=
  ∀ r x, s.tunnelMem.get r=some x → (cstr x.id).length<uuidBufferSize

/-- The node has the actor with the id. -/
def HasActor (s : Node) (a : Ref) (id : Bytes) : Prop := a ∈ s.actors ∧ s.actorUuid a=some id

/-- What the callback of the actor tells about its requirements. -/
def asks (s : Node) (a : Ref) : Option Bool :=
  if (s.actorMem.get a).any Actor.loaded then s.host.fate.effects.head?.map Effect.result else none

/-- The proxy tunnel and its link are there. -/
def HasProxy (s : Node) : Prop :=
  ∃ q y l, s.proxyTunnel=some q ∧ s.tunnelMem.get q=some y ∧ s.linkMem.get y.link=some l

theorem names_iff {actorId : Text} {a : Ref} (hs : s.ActorsIdentified)
    (hlen : actorId.len ≤ actorId.ptr.length) :
    s.Names actorId a ↔ s.HasActor a actorId.content := by
  refine and_congr_right fun ha => ?_
  obtain ⟨id,hid,hfits⟩ := hs a ha
  rw [actorUuid,hid,Option.join_some,Option.map_some,Option.some.injEq,
    ← listIdMatches_iff hlen hfits]
  constructor
  · rintro ⟨i,hi,hmatch⟩
    cases hi
    exact hmatch
  · exact fun hmatch => ⟨id,rfl,hmatch⟩

theorem portNamed_first {portId : Text} (hlinked : Linked s) (hs : s.PortsIdentified)
    (hlen : portId.len ≤ portId.ptr.length) :
    s.portNamed portId=firstNamed s.portUuid s.listedPorts portId.content := by
  obtain ⟨found,t,ht⟩ := Atom.defined_portGet portId s hlinked
  obtain ⟨-,hfound⟩ := Atom.portGet_find ht
  rw [portNamed,ht,Option.map_some,Option.join_some]
  refine hfound.trans (congrArg (List.find? · s.listedPorts) (funext fun p => ?_))
  rw [portUuid]
  cases hx : s.portMem.get p with
  | none => rfl
  | some x =>
    rw [Option.any_some,Option.map_some,Bool.eq_iff_iff,decide_eq_true_eq,Option.some.injEq]
    exact listIdMatches_iff hlen (hs p x hx)

end Node

/-- The commands that ask for an answer. The last one stands for all commands without an entry in
the table. -/
inductive Request
  | actorNew
  | actorMigrate
  | appDestroy
  | portConnect
  | portDisconnect
  | tunnelNew
  | unknown
  deriving DecidableEq

namespace Request

def name : Request → Option Bytes
  | .actorNew => some (ascii "ACTOR_NEW")
  | .actorMigrate => some (ascii "ACTOR_MIGRATE")
  | .appDestroy => some (ascii "APP_DESTROY")
  | .portConnect => some (ascii "PORT_CONNECT")
  | .portDisconnect => some (ascii "PORT_DISCONNECT")
  | .tunnelNew => some (ascii "TUNNEL_NEW")
  | .unknown => none

variable (mp : Msgpuck)

/-- The entry of the table for a request. -/
def entry : Request → Option (Bytes × (Bytes → Top mp Result))
  | .actorNew => some (ascii "ACTOR_NEW",Top.parseActorNew mp)
  | .actorMigrate => some (ascii "ACTOR_MIGRATE",fun r => Flow.toTop (Flow.parseActorMigrate mp r))
  | .appDestroy => some (ascii "APP_DESTROY",fun r => Flow.toTop (Flow.parseAppDestroy mp r))
  | .portConnect => some (ascii "PORT_CONNECT",fun r => Flow.toTop (Flow.parsePortConnect mp r))
  | .portDisconnect =>
    some (ascii "PORT_DISCONNECT",fun r => Flow.toTop (Flow.parsePortDisconnect mp r))
  | .tunnelNew => some (ascii "TUNNEL_NEW",fun r => Flow.toTop (Flow.parseTunnelNew mp r))
  | .unknown => none

/-- The string fields of the requests. -/
def textFields : List String :=
  ["cmd","msg_uuid","from_rt_uuid","actor_id","peer_node_id","peer_port_id","tunnel_id","type"]

/-- A well-formed message: its fields can be read, and its strings end inside it. -/
structure Readable (root : Bytes) : Prop where
  texts : ∀ key ∈ textFields, (Coder.decodeStringFromMap mp root (ascii key)).any
    (·.all fun x => decide (x.len ≤ x.ptr.length))=true
  requirements : (Coder.getValueFromMap mp root (ascii "requirements")).isSome=true
  peer : (Coder.hasKey mp root (ascii "peer_node_id")).isSome=true
  entries : ∀ objActorUuids,
    Coder.getValueFromMap mp root (ascii "actor_uuids")=some (some objActorUuids) →
    ∀ j x, Coder.decodeStringFromArray mp objActorUuids j=some (some x) → x.len ≤ x.ptr.length

/-- What the sender of a request wants to be so afterwards. -/
def CarriedOut (root : Bytes) (fromRtUuid : Text) (s t : Node) : Request → Prop
  | .actorNew => ∃ a, t.actors=s.actors++[a]
  | .actorMigrate => ∃ actorId a,
      Coder.decodeStringFromMap mp root (ascii "actor_id")=some (some actorId) ∧
      s.HasActor a actorId.content ∧
      ((∃ peerNodeId state,
        Coder.decodeStringFromMap mp root (ascii "peer_node_id")=some (some peerNodeId) ∧
        .actorNew a peerNodeId.content state ∈ s.sentSince t) ∨
      ∃ id, s.actorIdOf a=some (some id) ∧ .reqMatch id ∈ s.sentSince t)
  | .appDestroy => ∃ objActorUuids n,
      Coder.getValueFromMap mp root (ascii "actor_uuids")=some (some objActorUuids) ∧
      Coder.getSizeOfArray mp objActorUuids=some n ∧
      ∀ j, j < n → ∃ actorId a,
        Coder.decodeStringFromArray mp objActorUuids j=some (some actorId) ∧
        s.HasActor a actorId.content ∧ t.actorMem.get a=none
  | .portConnect => ∃ peerPortId tunnelId p,
      Coder.decodeStringFromMap mp root (ascii "peer_port_id")=some (some peerPortId) ∧
      Coder.decodeStringFromMap mp root (ascii "tunnel_id")=some (some tunnelId) ∧
      firstNamed s.portUuid s.listedPorts peerPortId.content=some p ∧
      t.EnabledOn p (cstr ·=tunnelId.content)
  | .portDisconnect => ∃ peerPortId p,
      Coder.decodeStringFromMap mp root (ascii "peer_port_id")=some (some peerPortId) ∧
      firstNamed s.portUuid s.listedPorts peerPortId.content=some p ∧ t.Disconnected p
  | .tunnelNew => ∃ type,
      Coder.decodeStringFromMap mp root (ascii "type")=some (some type) ∧
      type.content=ascii "token" ∧ t.LinkedTo fromRtUuid.content ∧ t.TunnelTo fromRtUuid.content
  | .unknown => False

/-- The request has the call `e` ask for a match of requirements. `requires` is what the actor
lists of its own. -/
def Asks (requires : List Bytes) (root : Bytes) (s : Node) (e : Encoder) : Request → Prop
  | .actorMigrate => Coder.hasKey mp root (ascii "peer_node_id")=some false ∧
      ∃ actorId a requirements,
        Coder.decodeStringFromMap mp root (ascii "actor_id")=some (some actorId) ∧
        firstNamed s.actorUuid s.actors actorId.content=some a ∧
        Coder.getValueFromMap mp root (ascii "requirements")=some (some requirements) ∧
        ((s.asks a=some true ∧ e=.reqMatchActor a requirements requires) ∨
        s.asks a=none ∧ ∃ n, Coder.getSizeOfValue mp requirements=some n ∧
          e=.reqMatch a (some (requirements.take n)))
  | _ => False

/-- The message is handled, with one answer to the request that tells whether it was carried out,
and what is written for it stays in its buffer. -/
def Answered (prefixLen : Nat) (requires : List Bytes) (root : Bytes) (msgUuid fromRtUuid : Text)
    (s : Node) (req : Request) : Prop :=
  (∃ r t ops status, (Top.parseMessage mp root).run s=some (r,t,ops) ∧
    (s.sentSince t).filterMap Outgoing.answer=[(msgUuid.content,fromRtUuid.content,status)] ∧
    (∀ m ∈ s.sentSince t, ∀ e ∈ m.encoder, e.Fits mp prefixLen s) ∧
    (status=200 ↔ req.CarriedOut mp root fromRtUuid s t)) ∧
  ∀ e, req.Asks mp requires root s e → e.Fits mp prefixLen s

/-- The objects that a request leads to are there, with ids that fit their buffers, and none is
taken for the one that is asked for without having its id. -/
def Regular (root : Bytes) (fromRtUuid : Text) (s : Node) : Request → Prop
  | .actorMigrate => s.ActorsIdentified
  | .appDestroy => s.ActorsIdentified
  | .portConnect => Intact s ∧ s.PortsIdentified ∧ s.TunnelsIdentified ∧
      ∀ peerPortId tunnelId p x r y,
        Coder.decodeStringFromMap mp root (ascii "peer_port_id")=some (some peerPortId) →
        Coder.decodeStringFromMap mp root (ascii "tunnel_id")=some (some tunnelId) →
        firstNamed s.portUuid s.listedPorts peerPortId.content=some p →
        s.portMem.get p=some x → x.tunnel=some r → s.tunnelMem.get r=some y →
        strncmpEq y.id tunnelId.ptr tunnelId.len=true → cstr y.id=tunnelId.content
  | .portDisconnect => Intact s ∧ s.PortsIdentified
  | .tunnelNew => Routed s ∧ fromRtUuid.Copyable ∧
      (∀ tunnelId, Coder.decodeStringFromMap mp root (ascii "tunnel_id")=some (some tunnelId) →
        tunnelId.len<uuidBufferSize) ∧
      (∀ type, Coder.decodeStringFromMap mp root (ascii "type")=some (some type) →
        strncmpEq type.ptr (ascii "token") 5=true → type.content=ascii "token") ∧
      Unshadowed s.linkName s.links fromRtUuid.content ∧
      Unshadowed (s.tunnelName .token) s.tunnels fromRtUuid.content
  | _ => True

/-- The fields that a handler needs before it answers are there, an id that is copied keeps its
bytes, and all actors of an application are on the node, unless an entry of their list is no
string. -/
def Described (root : Bytes) (msgUuid : Text) (s : Node) : Request → Prop
  | .actorNew => msgUuid.Copyable ∧ ∃ objState type,
      Coder.getValueFromMap mp root (ascii "state")=some (some objState) ∧
      Coder.decodeStringFromMap mp objState (ascii "actor_type")=some (some type)
  | .actorMigrate => msgUuid.Copyable
  | .appDestroy => msgUuid.Copyable ∧ ∃ objActorUuids n,
      Coder.getValueFromMap mp root (ascii "actor_uuids")=some (some objActorUuids) ∧
      Coder.getSizeOfArray mp objActorUuids=some n ∧
      ((∃ j, j < n ∧ Coder.decodeStringFromArray mp objActorUuids j=some none) ∨
      ∀ j, j < n → ∃ actorId a, Coder.decodeStringFromArray mp objActorUuids j=some (some actorId) ∧
        s.HasActor a actorId.content)
  | .portConnect => ∃ peerPortId tunnelId,
      Coder.decodeStringFromMap mp root (ascii "peer_port_id")=some (some peerPortId) ∧
      Coder.decodeStringFromMap mp root (ascii "tunnel_id")=some (some tunnelId)
  | .portDisconnect => ∃ peerPortId,
      Coder.decodeStringFromMap mp root (ascii "peer_port_id")=some (some peerPortId)
  | .tunnelNew => ∃ type tunnelId,
      Coder.decodeStringFromMap mp root (ascii "type")=some (some type) ∧
      Coder.decodeStringFromMap mp root (ascii "tunnel_id")=some (some tunnelId)
  | .unknown => msgUuid.Copyable

/-- What `cc_proto_send_actor_req_match` reads is there. -/
def MatchSafe (s : Node) (a : Ref) (requirements : Bytes) : Prop :=
  s.asks a=some false ∨
    (if (s.asks a).isSome then Coder.getSizeOfArray mp requirements
      else Coder.getSizeOfValue mp requirements).isSome=true ∧ s.HasProxy

/-- Creating, migrating and freeing the actors that the request is about touches no object that is
freed or missing. -/
def Safe (root : Bytes) (s : Node) : Request → Prop
  | .actorNew => (Top.actorCreate mp root).Halts s
  | .actorMigrate => ∀ actorId a,
      Coder.decodeStringFromMap mp root (ascii "actor_id")=some (some actorId) →
      firstNamed s.actorUuid s.actors actorId.content=some a →
      (Coder.hasKey mp root (ascii "peer_node_id")=some true → ∀ peerNodeId,
        Coder.decodeStringFromMap mp root (ascii "peer_node_id")=some (some peerNodeId) →
        (Flow.actorMigrate mp a peerNodeId.content).Halts s) ∧
      (Coder.hasKey mp root (ascii "peer_node_id")=some false → ∀ requirements,
        Coder.getValueFromMap mp root (ascii "requirements")=some (some requirements) →
        MatchSafe mp s a requirements)
  | .appDestroy => ∀ objActorUuids n,
      Coder.getValueFromMap mp root (ascii "actor_uuids")=some (some objActorUuids) →
      Coder.getSizeOfArray mp objActorUuids=some n →
      (Flow.appDestroyLoop mp objActorUuids n 0).Halts s
  | _ => True

/-- An answer that returns `data` bytes has room for every status. -/
def AnswerFits (prefixLen : Nat) (msgUuid fromRtUuid : Text) (s : Node) (data : Nat) : Prop :=
  prefixLen+Size.answer s.host.id msgUuid.content fromRtUuid.content 500 data ≤ 1000

/-- The texts of the message are short enough for the answer, and its requirements for the request
for a match. -/
def Roomy (prefixLen : Nat) (requires : List Bytes) (root : Bytes) (msgUuid fromRtUuid : Text)
    (s : Node) : Request → Prop
  | .actorMigrate => AnswerFits prefixLen msgUuid fromRtUuid s 0 ∧
      (Request.actorMigrate.Safe mp root s → ∀ e, Request.actorMigrate.Asks mp requires root s e →
        e.Fits mp prefixLen s)
  | .portConnect => ∀ peerPortId,
      Coder.decodeStringFromMap mp root (ascii "peer_port_id")=some (some peerPortId) →
      AnswerFits prefixLen msgUuid fromRtUuid s (8+Size.text peerPortId.content.length)
  | .portDisconnect => AnswerFits prefixLen msgUuid fromRtUuid s 18
  | .tunnelNew => ∀ tunnelId,
      Coder.decodeStringFromMap mp root (ascii "tunnel_id")=some (some tunnelId) →
      AnswerFits prefixLen msgUuid fromRtUuid s (10+Size.text tunnelId.content.length)
  | _ => AnswerFits prefixLen msgUuid fromRtUuid s 0

def Answerable (root : Bytes) (msgUuid : Text) (s : Node) (req : Request) : Prop :=
  req.Described mp root msgUuid s ∧ req.Safe mp root s

end Request

/-- A text that is the given one passes the comparison with it. -/
theorem strncmpEq_of_content {t : Text} {b : Bytes} (ht : t.len ≤ t.ptr.length) (h : t.content=b) :
    strncmpEq t.ptr b b.length=true := by
  have hlen : b.length=t.len := by
    rw [← h,Text.content,List.length_take,Nat.min_eq_left ht]
  rw [strncmpEq,decide_eq_true_eq,hlen,← Text.content,h,← hlen,List.take_length]

theorem Node.Clear.of_unshadowed {s : Node} {peerId : Text}
    (hlinks : Unshadowed s.linkName s.links peerId.content)
    (htunnels : Unshadowed (s.tunnelName .token) s.tunnels peerId.content)
    (hlen : peerId.len ≤ peerId.ptr.length) : s.Clear peerId where
  links := (scanNames_iff (fun _ _ => Node.linkName_no_nul) hlen).mpr hlinks
  tunnels := (scanNames_iff (fun _ _ => Node.tunnelName_no_nul) hlen).mpr htunnels

section Answers

variable {mp : Msgpuck} {s t : Node} {root : Bytes} {fromRtUuid msgUuid : Text} {prefixLen : Nat}
  {requires : List Bytes}

variable (mp prefixLen) in
/-- One answer was sent, in its buffer, and its status tells whether `C` holds. -/
def Node.Told (s : Node) (msgUuid fromRtUuid : Text) (C : Prop) (t : Node) : Prop :=
  ∃ status, (s.sentSince t).filterMap Outgoing.answer=
    [(msgUuid.content,fromRtUuid.content,status)] ∧
    (∀ m ∈ s.sentSince t, ∀ e ∈ m.encoder, e.Fits mp prefixLen s) ∧ (status=200 ↔ C)

/-- The answer is the only message of its kind. -/
theorem Node.Replied.encoder {m x : Outgoing} {done : Bool} {e : Encoder} (h : s.Replied m done t)
    (hx : x ∈ s.sentSince t) (he : e ∈ x.encoder) : x=m := by
  obtain ⟨new,hnew,hno,-⟩ := h
  rw [sentSince,hnew,List.drop_left] at hx
  rcases List.mem_append.mp hx with hx | hx
  · rw [Outgoing.encoder_eq_none (hno x hx)] at he
    cases he
  · exact List.mem_singleton.mp hx

theorem Node.Replied.told_iff {C : Prop} {m : Outgoing} {done : Bool} {id : Bytes} {status : Nat}
    (h : s.Replied m done t) (hmp : mp.Sized) (hs : s.Ready)
    (hm : m.answer=some (id,fromRtUuid.content,status)) (hstatus : status<65536)
    (hroom : Request.AnswerFits prefixLen msgUuid fromRtUuid s m.dataSize) :
    s.Told mp prefixLen msgUuid fromRtUuid C t ↔ id=msgUuid.content ∧ (status=200 ↔ C) := by
  have hanswers := h.answers
  rw [hm,Option.toList_some] at hanswers
  constructor
  · rintro ⟨status',hsent,-,hC⟩
    rw [hanswers,List.cons.injEq,Prod.mk.injEq,Prod.mk.injEq] at hsent
    obtain ⟨⟨hid,-,rfl⟩,-⟩ := hsent
    exact ⟨hid,hC⟩
  · rintro ⟨rfl,hC⟩
    refine ⟨status,hanswers,fun x hx e he => ?_,hC⟩
    obtain rfl := h.encoder hx he
    exact Outgoing.fits_of_room hmp hs.1 hm hstatus hroom e he

theorem Node.not_told_self {C : Prop} : ¬s.Told mp prefixLen msgUuid fromRtUuid C s := by
  rintro ⟨status,hsent,-⟩
  rw [(Node.Since.refl s).answers] at hsent
  cases hsent

theorem Text.copy_content {x : Text} {id : Bytes} (h : x.copy uuidBufferSize=some id) :
    id=x.content ↔ x.Copyable := by
  rw [Text.copy] at h
  split at h
  · next hlen =>
    cases h
    refine ⟨fun hsame => ⟨hlen,fun hzero => ?_⟩,fun hcopy => cstr_of_not_mem hcopy.2⟩
    have hlen := (cstr_prefix_zero hzero).length_le
    rw [show cstr x.content=x.content from hsame,List.length_append,List.length_singleton] at hlen
    omega
  · cases h

/-- The end of a request for an actor, a migration or the end of an application. -/
theorem Node.Replied.told_reply_iff {C : Prop} {done : Bool} {id : Bytes} {status : Nat}
    (h : s.Replied (.reply id fromRtUuid.content status) done t) (hmp : mp.Sized) (hs : s.Ready)
    (hcopy : msgUuid.copy uuidBufferSize=some id) (hstatus : status<65536)
    (hroom : Request.AnswerFits prefixLen msgUuid fromRtUuid s 0) :
    s.Told mp prefixLen msgUuid fromRtUuid C t ↔ msgUuid.Copyable ∧ (status=200 ↔ C) := by
  rw [h.told_iff hmp hs rfl hstatus hroom,Text.copy_content hcopy]

theorem Request.Readable.decodes (hread : Request.Readable mp root) (key : String)
    (hkey : key ∈ Request.textFields) :
    ∃ x, Coder.decodeStringFromMap mp root (ascii key)=some x := by
  have h := hread.texts key hkey
  cases hx : Coder.decodeStringFromMap mp root (ascii key) with
  | none =>
    rw [hx] at h
    cases h
  | some x => exact ⟨x,rfl⟩

theorem Request.Readable.text (hread : Request.Readable mp root) {key : String}
    (hkey : key ∈ Request.textFields) {x : Text}
    (hx : Coder.decodeStringFromMap mp root (ascii key)=some (some x)) : x.len ≤ x.ptr.length := by
  have h := hread.texts key hkey
  rw [hx] at h
  simpa using h

variable {ok : TopOp → Node → Prop} (hmp : mp.Sized) (hs : s.Ready)
  (hfrom : Coder.decodeStringFromMap mp root (ascii "from_rt_uuid")=some (some fromRtUuid))
  (hid : Coder.decodeStringFromMap mp root (ascii "msg_uuid")=some (some msgUuid))

include hmp hs hfrom hid

theorem parseActorNew_told (hroom : Request.AnswerFits prefixLen msgUuid fromRtUuid s 0) :
    Spec ok (fun z => z=s) (Top.parseActorNew mp root) fun _ t =>
      s.Told mp prefixLen msgUuid fromRtUuid
          (Request.actorNew.CarriedOut mp root fromRtUuid s t) t ↔
        Request.actorNew.Described mp root msgUuid s := by
  refine spec_mono (parseActorNew_replies hs hfrom hid) (fun _ h => h) ?_
  rintro r t ⟨id,status,hcopy,hreply,hstatus,hC,hdescribed⟩
  rw [hreply.told_reply_iff hmp hs hcopy hstatus hroom]
  exact and_congr_right fun _ => iff_of_true hC hdescribed

theorem parseActorMigrate_told (hread : Request.Readable mp root) (hkept : s.ActorsIdentified)
    (hroom : Request.AnswerFits prefixLen msgUuid fromRtUuid s 0) :
    Spec ok (fun z => z=s) (Flow.toTop (Flow.parseActorMigrate mp root)) fun _ t =>
      s.Told mp prefixLen msgUuid fromRtUuid
          (Request.actorMigrate.CarriedOut mp root fromRtUuid s t) t ↔
        Request.actorMigrate.Described mp root msgUuid s := by
  refine spec_lift _ (spec_mono (spec_and (parseActorMigrate_replies hs hfrom hid)
    (parseActorMigrate_posts root)) (fun _ h => ⟨h,h⟩) ?_)
  rintro r t ⟨⟨id,status,done,hcopy,hreply,hstatus,hdone⟩,hposted⟩
  rw [hreply.told_reply_iff hmp hs hcopy hstatus hroom]
  refine and_iff_left (hdone.trans ((hreply.migration rfl).symm.trans ⟨?_,?_⟩))
  · rintro ⟨m,hm,hkind⟩
    obtain ⟨new,hnew,hall⟩ := hposted
    rw [Node.sentSince,hnew,List.drop_left] at hm
    obtain ⟨actorId,a,hactor,hname,hcase⟩ := hall m hm hkind
    have hhas := (Node.names_iff hkept (hread.text (by decide) hactor)).mp hname
    refine ⟨actorId,a,hactor,hhas,?_⟩
    rw [Node.sentSince,hnew,List.drop_left]
    rcases hcase with ⟨peerNodeId,state,hpeer,rfl⟩ | ⟨i,hi,rfl⟩
    · exact .inl ⟨peerNodeId,state,hpeer,hm⟩
    · exact .inr ⟨i,hi,hm⟩
  · rintro ⟨actorId,a,-,-,⟨peerNodeId,state,-,hm⟩ | ⟨i,-,hm⟩⟩
    · exact ⟨_,hm,rfl⟩
    · exact ⟨_,hm,rfl⟩

theorem parseAppDestroy_told (hread : Request.Readable mp root) (hkept : s.ActorsIdentified)
    (hroom : Request.AnswerFits prefixLen msgUuid fromRtUuid s 0) :
    Spec ok (fun z => z=s) (Flow.toTop (Flow.parseAppDestroy mp root)) fun _ t =>
      s.Told mp prefixLen msgUuid fromRtUuid
          (Request.appDestroy.CarriedOut mp root fromRtUuid s t) t ↔
        Request.appDestroy.Described mp root msgUuid s := by
  refine spec_lift _ ?_
  simp only [Flow.parseAppDestroy,Flow.bind_text hfrom,Flow.bind_text hid]
  refine spec_bind (spec_ofOption_eq _) fun id => spec_have (fun z h => h.2) fun hcopy =>
    spec_bind (spec_ofOption_eq _) fun v => spec_have (fun z h => h.2) fun hlist => ?_
  cases v with
  | none =>
    refine spec_pure _ ?_
    rintro z ⟨⟨rfl,-⟩,-⟩
    refine iff_of_false Node.not_told_self ?_
    rintro ⟨-,objActorUuids,n,hlist',-⟩
    cases hlist.symm.trans hlist'
  | some objActorUuids =>
    refine spec_bind (spec_ofOption_eq _) fun n => spec_have (fun z h => h.2) fun hsize =>
      spec_bind (spec_mono (appDestroyLoop_destroys (s := s) n 0) ?_ fun _ _ h => h) fun r => ?_
    · rintro z ⟨⟨⟨rfl,-⟩,-⟩,-⟩
      exact ⟨.refl z,.refl z,by simp⟩
    rw [Nat.zero_add]
    refine spec_mono (spec_answer hs false _ fun _ _ h => h) (fun _ h => h) ?_
    rintro _ t ⟨hreply,hyes,hno⟩
    rw [hreply.told_reply_iff hmp hs hcopy (by split <;> decide) hroom]
    refine and_congr_right fun _ => ?_
    by_cases hr : r=.success
    · rw [if_pos hr]
      constructor
      · intro hC
        obtain ⟨l,m,hl,hm,hall⟩ := hC.mp rfl
        refine ⟨l,m,hl,hm,.inr fun j hj => ?_⟩
        obtain ⟨actorId,a,hentry,hhas,-⟩ := hall j hj
        exact ⟨actorId,a,hentry,hhas⟩
      · rintro ⟨l,m,hl,hm,hcase⟩
        cases hlist.symm.trans hl
        cases hsize.symm.trans hm
        refine iff_of_true rfl ⟨objActorUuids,n,hlist,hsize,fun j hj => ?_⟩
        obtain ⟨actorId,hentry,hdone⟩ := hyes hr j hj
        rcases hcase with ⟨k,hk,hbad⟩ | hnames
        · obtain ⟨_,hgood,-⟩ := hyes hr k hk
          cases hbad.symm.trans hgood
        · obtain ⟨actorId',a,hentry',hhas⟩ := hnames j hj
          cases hentry.symm.trans hentry'
          have hiff : ∀ b, s.Names actorId b ↔ s.HasActor b actorId.content :=
            fun b => Node.names_iff hkept (hread.entries _ hlist j actorId hentry)
          obtain ⟨b,hname,hfreed⟩ := hdone ⟨a,(hiff a).mpr hhas⟩
          exact ⟨actorId,b,hentry,(hiff b).mp hname,hfreed⟩
    · obtain ⟨k,hk,hbad⟩ := hno hr
      rw [if_neg hr]
      refine iff_of_true (iff_of_false (by decide) ?_) ⟨objActorUuids,n,hlist,hsize,.inl ⟨k,hk,hbad⟩⟩
      rintro ⟨l,m,hl,hm,hall⟩
      cases hlist.symm.trans hl
      cases hsize.symm.trans hm
      obtain ⟨actorId,a,hentry,-⟩ := hall k hk
      cases hbad.symm.trans hentry

theorem parsePortDisconnect_told (hread : Request.Readable mp root)
    (hregular : Request.portDisconnect.Regular mp root fromRtUuid s)
    (hroom : Request.AnswerFits prefixLen msgUuid fromRtUuid s 18) :
    Spec ok (fun z => z=s) (Flow.toTop (Flow.parsePortDisconnect mp root)) fun _ t =>
      s.Told mp prefixLen msgUuid fromRtUuid
          (Request.portDisconnect.CarriedOut mp root fromRtUuid s t) t ↔
        Request.portDisconnect.Described mp root msgUuid s := by
  refine spec_lift _ (spec_mono (parsePortDisconnect_replies hs hfrom hid) (fun _ h => h) ?_)
  rintro r t (⟨hport,rfl⟩ | ⟨peerPortId,status,hport,hreply,hstatus,hC⟩)
  · refine iff_of_false Node.not_told_self ?_
    rintro ⟨x,hx⟩
    cases hport.symm.trans hx
  obtain ⟨hintact,hports⟩ := hregular
  rw [Node.portNamed_first hintact.linked hports (hread.text (by decide) hport)] at hC
  rw [hreply.told_iff hmp hs rfl hstatus hroom]
  refine iff_of_true ⟨rfl,hC.trans ⟨?_,?_⟩⟩ ⟨peerPortId,hport⟩
  · rintro ⟨p,hp,hdown⟩
    exact ⟨peerPortId,p,hport,hp,hdown⟩
  · rintro ⟨x,p,hx,hp,hdown⟩
    cases hport.symm.trans hx
    exact ⟨p,hp,hdown⟩

theorem parsePortConnect_told (hread : Request.Readable mp root)
    (hregular : Request.portConnect.Regular mp root fromRtUuid s)
    (hroom : Request.portConnect.Roomy mp prefixLen requires root msgUuid fromRtUuid s) :
    Spec ok (fun z => z=s) (Flow.toTop (Flow.parsePortConnect mp root)) fun _ t =>
      s.Told mp prefixLen msgUuid fromRtUuid
          (Request.portConnect.CarriedOut mp root fromRtUuid s t) t ↔
        Request.portConnect.Described mp root msgUuid s := by
  obtain ⟨hintact,hports,htunnels,hown⟩ := hregular
  have hfirst : ∀ peerPortId,
      Coder.decodeStringFromMap mp root (ascii "peer_port_id")=some (some peerPortId) →
      s.portNamed peerPortId=firstNamed s.portUuid s.listedPorts peerPortId.content :=
    fun _ hport => Node.portNamed_first hintact.linked hports (hread.text (by decide) hport)
  refine spec_lift _ (spec_mono (parsePortConnect_replies hs hfrom hid fun peerPortId tunnelId p hport
    htunnel hp => ⟨fun r y hy => (listIdMatches_iff (hread.text (by decide) htunnel)
      (htunnels r y hy)).mp,fun x r y => hown peerPortId tunnelId p x r y hport htunnel
        ((hfirst peerPortId hport).symm.trans hp)⟩) (fun _ h => h) ?_)
  rintro r t (⟨hmissing,rfl⟩ | ⟨peerPortId,tunnelId,status,hport,htunnel,hreply,hstatus,hC⟩)
  · refine iff_of_false Node.not_told_self ?_
    rintro ⟨x,y,hx,hy⟩
    rcases hmissing with hport | htunnel
    · cases hport.symm.trans hx
    · cases htunnel.symm.trans hy
  rw [hfirst peerPortId hport] at hC
  rw [hreply.told_iff hmp hs rfl hstatus (hroom peerPortId hport)]
  refine iff_of_true ⟨rfl,hC.trans ⟨?_,?_⟩⟩ ⟨peerPortId,tunnelId,hport,htunnel⟩
  · rintro ⟨p,hp,hon⟩
    exact ⟨peerPortId,tunnelId,p,hport,htunnel,hp,hon⟩
  · rintro ⟨x,y,p,hx,hy,hp,hon⟩
    cases hport.symm.trans hx
    cases htunnel.symm.trans hy
    exact ⟨p,hp,hon⟩

theorem parseTunnelNew_told (hread : Request.Readable mp root)
    (hregular : Request.tunnelNew.Regular mp root fromRtUuid s)
    (hroom : Request.tunnelNew.Roomy mp prefixLen requires root msgUuid fromRtUuid s) :
    Spec ok (fun z => z=s) (Flow.toTop (Flow.parseTunnelNew mp root)) fun _ t =>
      s.Told mp prefixLen msgUuid fromRtUuid
          (Request.tunnelNew.CarriedOut mp root fromRtUuid s t) t ↔
        Request.tunnelNew.Described mp root msgUuid s := by
  obtain ⟨hrouted,hcopy,-,htoken,hlinks,htunnels⟩ := hregular
  have hclear := Node.Clear.of_unshadowed hlinks htunnels (hread.text (by decide) hfrom)
  refine spec_lift _ (spec_mono (parseTunnelNew_replies hs hrouted hclear hcopy hfrom hid)
    (fun _ h => h) ?_)
  rintro r t (⟨hmissing,rfl⟩ | ⟨type,tunnelId,status,htype,htunnel,hreply,hstatus,hC⟩)
  · refine iff_of_false Node.not_told_self ?_
    rintro ⟨x,y,hx,hy⟩
    rcases hmissing with htype | htunnel
    · cases htype.symm.trans hx
    · cases htunnel.symm.trans hy
  rw [hreply.told_iff hmp hs rfl hstatus (hroom tunnelId htunnel)]
  refine iff_of_true ⟨rfl,hC.trans ⟨?_,?_⟩⟩ ⟨type,tunnelId,htype,htunnel⟩
  · rintro ⟨hmatch,hyes⟩
    exact ⟨type,htype,htoken type htype hmatch,hyes⟩
  · rintro ⟨x,hx,hsame,hyes⟩
    cases htype.symm.trans hx
    exact ⟨strncmpEq_of_content (hread.text (by decide) htype) hsame,hyes⟩

/-- A command without an entry is answered with a failure. -/
theorem unknown_told (hroom : Request.AnswerFits prefixLen msgUuid fromRtUuid s 0) :
    Spec ok (fun z => z=s) (Top.answer mp root none) fun _ t =>
      s.Told mp prefixLen msgUuid fromRtUuid
          (Request.unknown.CarriedOut mp root fromRtUuid s t) t ↔
        Request.unknown.Described mp root msgUuid s := by
  rw [Top.answer,toTop_text hid,Prog.pure_bind]
  dsimp only
  refine spec_bind (spec_ofOption_eq _) fun id => spec_have (fun z h => h.2) fun hcopy => ?_
  rw [toTop_text hfrom,Prog.pure_bind]
  refine spec_lift _ (spec_mono (spec_answer (Q := fun _ => True) hs false _ fun _ _ h => h) ?_ ?_)
  · rintro z ⟨rfl,-⟩
    exact ⟨.refl z,trivial⟩
  · rintro r t ⟨hreply,-⟩
    rw [hreply.told_reply_iff hmp hs hcopy (by decide) hroom]
    exact and_iff_left (iff_of_false (by decide) fun h => h)

/-- The handler of a request answers it exactly when the message describes it. -/
theorem request_told (hread : Request.Readable mp root) (req : Request)
    (hregular : req.Regular mp root fromRtUuid s)
    (hroom : req.Roomy mp prefixLen requires root msgUuid fromRtUuid s) :
    Spec ok (fun z => z=s) (Top.answer mp root (req.entry mp)) fun _ t =>
      s.Told mp prefixLen msgUuid fromRtUuid (req.CarriedOut mp root fromRtUuid s t) t ↔
        req.Described mp root msgUuid s := by
  cases req with
  | actorNew => exact parseActorNew_told hmp hs hfrom hid hroom
  | actorMigrate => exact parseActorMigrate_told hmp hs hfrom hid hread hregular hroom.1
  | appDestroy => exact parseAppDestroy_told hmp hs hfrom hid hread hregular hroom
  | portConnect => exact parsePortConnect_told hmp hs hfrom hid hread hregular hroom
  | portDisconnect => exact parsePortDisconnect_told hmp hs hfrom hid hread hregular hroom
  | tunnelNew => exact parseTunnelNew_told hmp hs hfrom hid hread hregular hroom
  | unknown => exact unknown_told hmp hs hfrom hid hroom

end Answers

namespace Atom

variable {s : Node} {P : Node → Prop}

theorem defined_ofOption {α : Type} {x : Option α} (hx : x.isSome=true) :
    Defined P (Atom.ofOption x) := by
  obtain ⟨a,rfl⟩ := Option.isSome_iff_exists.mp hx
  exact fun s _ => ⟨a,s,rfl⟩

/-- `cc_actor_get` finds the first actor with the id. -/
theorem actorGet_first {actorId : Text} (hs : s.ActorsIdentified)
    (hlen : actorId.len ≤ actorId.ptr.length) :
    actorGet actorId s=some (firstNamed s.actorUuid s.actors actorId.content,s) := by
  have hin : ∀ as : List Ref, as ⊆ s.actors →
      actorGetIn actorId as s=some (firstNamed s.actorUuid as actorId.content,s) := by
    intro as has
    induction as with
    | nil => rfl
    | cons a as ih =>
      obtain ⟨id,hid,hfits⟩ := hs a (has List.mem_cons_self)
      obtain ⟨x,hx,hxid⟩ := Option.map_eq_some_iff.mp hid
      have hread : Atom.actorId a s=some (id,s) := by
        simp [Atom.actorId,bind_apply,actor,hx,hxid]
      have hname : s.actorUuid a=some (cstr id) := by
        rw [Node.actorUuid,hid,Option.join_some,Option.map_some]
      rw [actorGetIn,bind_apply,hread,Option.bind_some,firstNamed]
      by_cases hmatch : listIdMatches id actorId=true
      · rw [if_pos hmatch,List.find?_cons_of_pos]
        · rfl
        · rw [hname,decide_eq_true_eq,(listIdMatches_iff hlen hfits).mp hmatch]
      · rw [if_neg hmatch,List.find?_cons_of_neg]
        · exact ih fun b hb => has (List.mem_cons_of_mem a hb)
        · rw [hname,decide_eq_true_eq,Option.some.injEq]
          exact fun h => hmatch ((listIdMatches_iff hlen hfits).mpr h)
  exact hin s.actors fun _ h => h

theorem defined_linkGet (peerId : Text) :
    Defined (fun s => ∀ l ∈ s.links, ∃ x, s.linkMem.get l=some x) (linkGet peerId) := by
  have hin : ∀ ls, Defined (fun s => ∀ l ∈ ls, ∃ x, s.linkMem.get l=some x) (linkGetFrom peerId ls) := by
    intro ls
    induction ls with
    | nil => exact defined_pure _
    | cons l ls ih =>
      refine defined_seq (defined_link fun s hs => hs l (by simp)) (preserves_link l) fun x => ?_
      split
      · exact defined_pure _
      · exact defined_mono ih fun s hs k hk => hs k (by simp [hk])
  exact fun s hs => hin s.links s hs

theorem defined_linkCreate {peerId : Text} (hlen : peerId.len<uuidBufferSize) (isProxy : Bool) :
    Defined Routed (linkCreate peerId isProxy) := by
  have hcopy : (peerId.copy uuidBufferSize).isSome=true := by
    rw [Text.copy_eq hlen,Option.isSome_some]
  refine defined_bind (Q := fun _ _ => True) (defined_mono (defined_linkGet peerId)
    fun s hs => hs.links) (fun _ _ _ _ _ => trivial) fun found => ?_
  cases found with
  | some l => exact defined_pure _
  | none =>
    refine defined_seq defined_alloc (fun _ _ _ _ _ => trivial) fun b => ?_
    split
    · exact defined_pure _
    refine defined_seq (defined_ofOption hcopy) (fun _ _ _ _ _ => trivial) fun id =>
      defined_seq defined_alloc (fun _ _ _ _ _ => trivial) fun b => ?_
    split
    · exact defined_pure _
    · exact defined_seq (fun _ _ => ⟨_,_,rfl⟩) (fun _ _ _ _ _ => trivial) fun _ => defined_pure _

theorem hasProxy_of {t : Node} (h : needProxy s=some ((),t)) : s.HasProxy := by
  obtain ⟨v,w,hget,h₁⟩ := bind_eq_some.mp h
  cases hget
  cases hq : s.proxyTunnel with
  | none =>
    rw [hq] at h₁
    cases h₁
  | some q =>
    rw [hq] at h₁
    obtain ⟨y,w,hread,h₂⟩ := bind_eq_some.mp h₁
    obtain ⟨hy,rfl⟩ := tunnel_eq_some hread
    obtain ⟨l,w',hlink,-⟩ := bind_eq_some.mp h₂
    exact ⟨q,y,l,hq,hy,(link_eq_some hlink).1⟩

theorem needProxy_of (h : s.HasProxy) : needProxy s=some ((),s) := by
  obtain ⟨q,y,l,hq,hy,hl⟩ := h
  have hlink : ((fun _ => ()) <$> link y.link : Atom Unit) s=some ((),s) := by
    change (link y.link s).bind (fun r => some ((),r.2))=_
    rw [link,hl]
    rfl
  simpa [needProxy,bind_apply,tunnel,hq,hy] using hlink

/-- A token tunnel to a runtime that has a link can be created. -/
theorem defined_tunnelCreate {peerId tunnelId : Text} (hlen : tunnelId.len<uuidBufferSize) :
    Defined (fun s => Routed s ∧ s.Clear peerId ∧ s.LinkedTo peerId.content)
      (tunnelCreate .token .enabled peerId (some tunnelId)) := by
  have hcopy : (tunnelId.copy uuidBufferSize).isSome=true := by
    rw [Text.copy_eq hlen,Option.isSome_some]
  have hon : ∀ l, Defined (fun s => ∃ x, s.linkMem.get l=some x)
      (tunnelCreateOn l .token .enabled (some tunnelId)) := by
    intro l
    have halloc : Preserves (fun s => ∃ x, s.linkMem.get l=some x) alloc :=
      preserves_alloc fun _ _ _ hs => hs
    refine defined_seq defined_alloc halloc fun b => ?_
    split
    · exact defined_pure _
    refine defined_seq (defined_ofOption hcopy) (preserves_ofOption _) fun id =>
      defined_seq (x := tunnelRequest ⟨id,l,.enabled,0,.token⟩) (defined_pure _) (preserves_pure _)
        fun x => ?_
    cases x with
    | none => exact defined_pure _
    | some x =>
    refine defined_seq defined_alloc halloc fun b => ?_
    split
    · exact defined_pure _
    refine defined_seq (x := tunnelAdd x) (fun _ _ => ⟨_,_,rfl⟩)
      (fun s q t ht hs => by cases ht; exact hs) fun q => ?_
    exact defined_bind (Q := fun _ _ => True) (defined_bind (defined_link fun _ hs => hs)
      (preserves_link l) fun _ _ _ => ⟨_,_,rfl⟩) (fun _ _ _ _ _ => trivial) fun _ => defined_pure _
  intro s hs
  obtain ⟨hrouted,hclear,hlinked⟩ := hs
  obtain ⟨found,u,hget⟩ := defined_tunnelGetFromPeeridAndType peerId .token s hrouted
  obtain ⟨rfl,-⟩ := tunnelGet_first hclear hget
  obtain ⟨link,v,hlink⟩ := defined_linkGet peerId u hrouted.links
  obtain ⟨rfl,hfirst⟩ := linkGet_first hclear hlink
  rw [tunnelCreate,bind_apply,hget,Option.bind_some]
  cases found with
  | some q => exact ⟨_,_,rfl⟩
  | none =>
  cases link with
  | none => exact absurd hfirst.symm (Node.linkedTo_iff.mp hlinked)
  | some l =>
    have hlink' : tunnelLink peerId v=some (some l,v) := by
      rw [tunnelLink,bind_apply,hlink]
      rfl
    dsimp only
    rw [bind_apply,hlink',Option.bind_some]
    exact hon l v (hrouted.links l (firstNamed_some hfirst.symm).1)

end Atom

section Halts

variable {mp : Msgpuck} {s : Node} {root : Bytes} {fromRtUuid msgUuid : Text}

/-- A computation that leaves the node as it is leaves it to the rest. -/
theorem halts_look {ω α β : Type} {apply : ω → Node → Option Node} {x : Atom α} {a : α} {t : Node}
    {f : α → Prog apply β} (h : x s=some (a,t)) : (look x >>= f).Halts s ↔ (f a).Halts s :=
  halts_bind (yields_look h)

theorem halts_host {α : Type} {x : Atom α} :
    (Flow.host x : Flow mp α).Halts s ↔ (x s).isSome=true := by
  constructor
  · rintro ⟨a,t,h⟩
    obtain ⟨u,v,hread,h₁⟩ := h.of_bind
    obtain ⟨hu,hv⟩ := hread.unique (yields_read s)
    subst u v
    cases hx : x s with
    | some r => rfl
    | none =>
      rw [hx] at h₁
      obtain ⟨ops,h₁⟩ := h₁
      cases h₁
  · intro h
    obtain ⟨⟨a,t⟩,hx⟩ := Option.isSome_iff_exists.mp h
    exact ⟨a,_,Flow.yields_host hx⟩

theorem halts_toTop {α : Type} {m : Flow mp α} : (Flow.toTop m).Halts s ↔ m.Halts s := halts_lift

theorem halts_send (m : Outgoing) : (Flow.host (Atom.send m) : Flow mp Result).Halts s := by
  obtain ⟨r,t,h⟩ := Atom.defined_send (P := fun _ => True) m s trivial
  rw [halts_host,h,Option.isSome_some]

/-- The end of a request with an operation that reports its success. -/
theorem halts_outcome {m : Flow mp Result} (done failed : Outgoing) :
    (do
      if (← m)=.success then
        Flow.host (Atom.send done)
      else
        Flow.host (Atom.send failed) : Flow mp Result).Halts s ↔ m.Halts s := by
  refine halts_bind_iff fun r t _ => ?_
  split
  · exact halts_send _
  · exact halts_send _

theorem halts_refusal (m : Outgoing) :
    (do
      let _ ← Flow.host (Atom.send m)
      return Result.fail : Flow mp Result).Halts s :=
  (halts_bind_iff fun _ _ _ => halts_pure _).mpr (halts_send m)

variable (hs : s.Ready)

include hs

theorem sendReqMatch_halts {a : Ref} {id requirements : Bytes} {requires : Bool}
    (hid : s.actorIdOf a=some (some id)) :
    (Flow.sendReqMatch mp a requirements requires).Halts s ↔
      (if requires then Coder.getSizeOfArray mp requirements
        else Coder.getSizeOfValue mp requirements).isSome=true ∧ s.HasProxy := by
  have hsize : ∀ x : Option Nat, (do
      let _ ← ofOption x
      Flow.host (do
        Atom.needTransport
        Atom.needProxy
        Atom.request (.reqMatch (← Atom.actorId a)) .reqMatch none) : Flow mp Result).Halts s ↔
      x.isSome=true ∧ s.HasProxy := by
    intro x
    cases x with
    | none =>
      refine iff_of_false ?_ (by simp)
      rintro ⟨b,u,h⟩
      obtain ⟨a,t,hnone,-⟩ := h.of_bind
      cases hnone.of_ofOption.1
    | some n =>
      rw [ofOption,Prog.pure_bind,halts_host,Option.isSome_some,eq_self,true_and]
      obtain ⟨c,hc⟩ := Option.isSome_iff_exists.mp hs.1
      obtain ⟨x,hx,hxid⟩ := Option.map_eq_some_iff.mp hid
      have hread : Atom.actorId a s=some (id,s) := by
        simp [Atom.actorId,Atom.bind_apply,Atom.actor,hx,hxid]
      have hneed : Atom.needTransport s=some ((),s) := by rw [Atom.needTransport,hc,Option.map_some]
      rw [Atom.bind_apply,hneed,Option.bind_some,Atom.bind_apply]
      constructor
      · intro h
        obtain ⟨⟨r,t⟩,h⟩ := Option.isSome_iff_exists.mp h
        obtain ⟨⟨⟨⟩,u⟩,hproxy,-⟩ := Option.bind_eq_some_iff.mp h
        exact Atom.hasProxy_of hproxy
      · intro hproxy
        obtain ⟨r,t,hr⟩ := Atom.defined_request (P := fun z => z=s) (.reqMatch id) .reqMatch none
          (fun z hz => hz ▸ ⟨c,hc⟩) s rfl
        rw [Atom.needProxy_of hproxy,Option.bind_some,Atom.bind_apply,hread,Option.bind_some,hr,Option.isSome_some]
  unfold Flow.sendReqMatch
  cases requires with
  | true => exact hsize _
  | false => exact hsize _

section Migrate

variable {actorId : Text} {a : Ref} (hkept : s.ActorsIdentified) (hcopy : msgUuid.Copyable)
  (hfrom : Coder.decodeStringFromMap mp root (ascii "from_rt_uuid")=some (some fromRtUuid))
  (hid : Coder.decodeStringFromMap mp root (ascii "msg_uuid")=some (some msgUuid))
  (hactor : Coder.decodeStringFromMap mp root (ascii "actor_id")=some (some actorId))
  (hlen : actorId.len ≤ actorId.ptr.length)
  (hfound : firstNamed s.actorUuid s.actors actorId.content=some a)

include hkept hcopy hfrom hid hactor hlen hfound

omit hs in
/-- A request that names the runtime to migrate to. -/
theorem parseActorMigrate_moves_halts {peerNodeId : Text}
    (hnamed : Coder.hasKey mp root (ascii "peer_node_id")=some true)
    (hpeer : Coder.decodeStringFromMap mp root (ascii "peer_node_id")=some (some peerNodeId)) :
    (Flow.parseActorMigrate mp root).Halts s ↔
      (Flow.actorMigrate mp a peerNodeId.content).Halts s := by
  have hget := Atom.actorGet_first hkept hlen
  rw [hfound] at hget
  simp only [Flow.parseActorMigrate,Flow.bind_text hfrom,Flow.bind_text hid,
    bind_ofOption (Text.copy_eq hcopy.1),Flow.bind_text hactor]
  refine (halts_look hget).trans ?_
  dsimp only
  rw [bind_ofOption hnamed,if_pos rfl,Flow.bind_text hpeer]
  exact halts_outcome _ _

omit hs in
/-- A request without the field that it needs next. -/
theorem parseActorMigrate_refused {named : Bool}
    (hnamed : Coder.hasKey mp root (ascii "peer_node_id")=some named)
    (hnone : if named then Coder.decodeStringFromMap mp root (ascii "peer_node_id")=some none
      else Coder.getValueFromMap mp root (ascii "requirements")=some none) :
    (Flow.parseActorMigrate mp root).Halts s := by
  have hget := Atom.actorGet_first hkept hlen
  rw [hfound] at hget
  simp only [Flow.parseActorMigrate,Flow.bind_text hfrom,Flow.bind_text hid,
    bind_ofOption (Text.copy_eq hcopy.1),Flow.bind_text hactor]
  refine (halts_look hget).mpr ?_
  dsimp only
  rw [bind_ofOption hnamed]
  cases named with
  | true =>
    rw [if_pos rfl,Flow.bind_text hnone]
    exact halts_refusal _
  | false =>
    rw [if_neg (by decide),Flow.bind_value hnone]
    exact halts_refusal _

/-- A request that leaves the runtime to a match of requirements. -/
theorem parseActorMigrate_asks_halts {requirements : Bytes}
    (hnamed : Coder.hasKey mp root (ascii "peer_node_id")=some false)
    (hvalue : Coder.getValueFromMap mp root (ascii "requirements")=some (some requirements)) :
    (Flow.parseActorMigrate mp root).Halts s ↔ Request.MatchSafe mp s a requirements := by
  have hget := Atom.actorGet_first hkept hlen
  rw [hfound] at hget
  obtain ⟨id,hidOf,-⟩ := hkept a (firstNamed_some hfound).1
  obtain ⟨x,hx,-⟩ := Option.map_eq_some_iff.mp hidOf
  have hlook : Atom.actor a s=some (x,s) := by rw [Atom.actor,hx,Option.map_some]
  simp only [Flow.parseActorMigrate,Flow.bind_text hfrom,Flow.bind_text hid,
    bind_ofOption (Text.copy_eq hcopy.1),Flow.bind_text hactor]
  refine (halts_look hget).trans ?_
  dsimp only
  rw [bind_ofOption hnamed,if_neg (by decide),Flow.bind_value hvalue]
  refine (halts_look hlook).trans ?_
  rw [Request.MatchSafe,Node.asks,hx,Option.any_some]
  split
  swap
  · rw [Prog.pure_bind]
    refine (halts_outcome _ _).trans ((sendReqMatch_halts hs hidOf).trans ?_)
    simp
  cases heffects : s.host.fate.effects with
  | nil =>
    have heffect : Atom.effect s=some (none,s) := by rw [Atom.effect,heffects]
    refine (halts_bind (Flow.yields_host heffect)).trans ?_
    refine (halts_outcome _ _).trans ((sendReqMatch_halts hs hidOf).trans ?_)
    simp
  | cons e rest =>
    obtain ⟨t,ht⟩ : ∃ t, Atom.effect s=some (some e,t) := by
      rw [Atom.effect,heffects]
      exact ⟨_,rfl⟩
    have hready : Node.Ready {s with host := t.host} := by
      rw [Atom.effect,heffects] at ht
      cases ht
      exact hs
    refine (halts_bind (Flow.yields_host ht)).trans ?_
    obtain ⟨result,_,_,_,_⟩ := e
    cases result with
    | false => exact iff_of_true (halts_refusal _) (.inl rfl)
    | true =>
      refine (halts_outcome _ _).trans ((sendReqMatch_halts hready hidOf).trans ?_)
      simp [Node.HasProxy]

end Migrate

/-- A request to migrate runs to an end exactly when the migration does. -/
theorem parseActorMigrate_halts (hread : Request.Readable mp root) (hkept : s.ActorsIdentified)
    (hcopy : msgUuid.Copyable)
    (hfrom : Coder.decodeStringFromMap mp root (ascii "from_rt_uuid")=some (some fromRtUuid))
    (hid : Coder.decodeStringFromMap mp root (ascii "msg_uuid")=some (some msgUuid)) :
    (Flow.parseActorMigrate mp root).Halts s ↔ Request.actorMigrate.Safe mp root s := by
  obtain ⟨actor,hactor⟩ := hread.decodes "actor_id" (by decide)
  obtain ⟨peer,hpeer⟩ := hread.decodes "peer_node_id" (by decide)
  obtain ⟨named,hnamed⟩ := Option.isSome_iff_exists.mp hread.peer
  obtain ⟨value,hvalue⟩ := Option.isSome_iff_exists.mp hread.requirements
  cases actor with
  | none =>
    refine iff_of_true ?_ fun actorId a hactor' => ?_
    · simp only [Flow.parseActorMigrate,Flow.bind_text hfrom,Flow.bind_text hid,
   bind_ofOption (Text.copy_eq hcopy.1),Flow.bind_text hactor]
      exact halts_refusal _
    · cases hactor.symm.trans hactor'
  | some actorId =>
  have hlen := hread.text (by decide) hactor
  cases hfound : firstNamed s.actorUuid s.actors actorId.content with
  | none =>
    refine iff_of_true ?_ fun actorId' a hactor' hfound' => ?_
    · have hget := Atom.actorGet_first hkept hlen
      rw [hfound] at hget
      simp only [Flow.parseActorMigrate,Flow.bind_text hfrom,Flow.bind_text hid,
        bind_ofOption (Text.copy_eq hcopy.1),Flow.bind_text hactor]
      exact (halts_look hget).mpr (halts_refusal _)
    · cases hactor.symm.trans hactor'
      cases hfound.symm.trans hfound'
  | some a =>
  have hsafe : Request.actorMigrate.Safe mp root s ↔
      (named=true → ∀ peerNodeId, peer=some peerNodeId →
        (Flow.actorMigrate mp a peerNodeId.content).Halts s) ∧
      (named=false → ∀ requirements, value=some requirements →
        Request.MatchSafe mp s a requirements) := by
    simp only [Request.Safe,hactor,hnamed,hpeer,hvalue,Option.some.injEq]
    refine ⟨fun h => h actorId a rfl hfound,?_⟩
    rintro h _ a' rfl hfound'
    cases hfound.symm.trans hfound'
    exact h
  rw [hsafe]
  cases named with
  | true =>
    cases peer with
    | none =>
      have hhalts := parseActorMigrate_refused hkept hcopy hfrom hid hactor hlen hfound hnamed
        (by rwa [if_pos rfl])
      exact iff_of_true hhalts (by simp)
    | some peerNodeId =>
      have hhalts := parseActorMigrate_moves_halts hkept hcopy hfrom hid hactor hlen hfound hnamed
        hpeer
      simpa using hhalts
  | false =>
    cases value with
    | none =>
      have hhalts := parseActorMigrate_refused hkept hcopy hfrom hid hactor hlen hfound hnamed
        (by rwa [if_neg (by decide)])
      exact iff_of_true hhalts (by simp)
    | some requirements =>
      have hhalts := parseActorMigrate_asks_halts hs hkept hcopy hfrom hid hactor hlen hfound hnamed
        hvalue
      simpa using hhalts

omit hs in
/-- `cc_tunnel_handle_tunnel_new_request` can be called for a runtime that has a link. -/
theorem handleTunnelNewRequest_halts {peerId tunnelId : Text} (hrouted : Routed s)
    (hclear : s.Clear peerId) (hlinked : s.LinkedTo peerId.content)
    (hlen : tunnelId.len<uuidBufferSize) :
    (Flow.handleTunnelNewRequest mp peerId tunnelId).Halts s := by
  obtain ⟨found,t,hget⟩ := Atom.defined_tunnelGetFromPeeridAndType peerId .token s hrouted
  obtain ⟨-,hfound⟩ := Atom.tunnelGet_first hclear hget
  refine (halts_look hget).mpr ?_
  cases found with
  | none =>
    refine (halts_bind_iff fun q z _ => ?_).mpr (halts_perform
      (Atom.defined_tunnelCreate hlen s ⟨hrouted,hclear,hlinked⟩))
    split <;> exact halts_pure _
  | some q =>
    obtain ⟨x,hx⟩ := hrouted.tunnels q (firstNamed_some hfound.symm).1
    have hlook : Atom.tunnel q s=some (x,s) := by rw [Atom.tunnel,hx,Option.map_some]
    have hdone : ∀ id, (do
        act (.tunnelUpdate q id .enabled)
        return .success : Flow mp Result).Halts s := by
      intro id
      refine (halts_bind_iff fun _ _ _ => halts_pure _).mpr (halts_act
        ⟨{s with tunnelMem := s.tunnelMem.set q {x with id := id,state := .enabled}},?_⟩)
      rw [Op.apply,Atom.tunnelUpdate,Atom.bind_apply,hlook]
      rfl
    refine (halts_look hlook).mpr ?_
    split
    · exact halts_pure _
    · refine (halts_bind (yields_read s)).mpr ?_
      dsimp only
      split
      · rw [bind_ofOption (Text.copy_eq hlen)]
        exact hdone _
      · exact hdone _

omit hs in
/-- The end of a tunnel request over a link of the node. -/
theorem tunnelFor_halts {peerId tunnelId : Text} {l : Ref} (done failed : Outgoing)
    (hrouted : Routed s) (hclear : s.Clear peerId) (hlinked : s.LinkedTo peerId.content)
    (hl : ∃ x, s.linkMem.get l=some x) (hlen : tunnelId.len<uuidBufferSize) :
    (do
      if (← Flow.handleTunnelNewRequest mp peerId tunnelId)=.success then
        Flow.host (Atom.send done)
      else
        act (.linkRemoveRef l)
        Flow.host (Atom.send failed) : Flow mp Result).Halts s := by
  refine halts_of_spec (handleTunnelNewRequest_halts hrouted hclear hlinked hlen)
    (handleTunnelNewRequest_tunnelTo hclear hlinked) fun r t h => ?_
  split
  · exact halts_send _
  · next hr =>
    obtain ⟨⟨k,rfl⟩,-⟩ := h.2 hr
    refine (halts_bind_iff fun _ _ _ => halts_send _).mpr (halts_act ?_)
    obtain ⟨⟨⟩,t,ht⟩ := Atom.defined_linkRemoveRef (l := l) {s with host := k} ⟨hrouted.of_host k,hl⟩
    exact ⟨t,by rw [Op.apply,ht,Option.map_some]⟩

omit hs in
theorem parseTunnelNew_halts (hread : Request.Readable mp root)
    (hregular : Request.tunnelNew.Regular mp root fromRtUuid s)
    (hdescribed : Request.tunnelNew.Described mp root msgUuid s)
    (hfrom : Coder.decodeStringFromMap mp root (ascii "from_rt_uuid")=some (some fromRtUuid))
    (hid : Coder.decodeStringFromMap mp root (ascii "msg_uuid")=some (some msgUuid)) :
    (Flow.parseTunnelNew mp root).Halts s := by
  obtain ⟨hrouted,hcopy,hshort,-,hlinks,htunnels⟩ := hregular
  obtain ⟨type,tunnelId,htype,htunnel⟩ := hdescribed
  have hclear := Node.Clear.of_unshadowed hlinks htunnels (hread.text (by decide) hfrom)
  have hlen := hshort tunnelId htunnel
  simp only [Flow.parseTunnelNew,Flow.bind_text hfrom,Flow.bind_text hid,Flow.bind_text htype,
    Flow.bind_text htunnel]
  split
  · rw [Prog.pure_bind]
    dsimp only
    rw [Prog.pure_bind,if_neg (by decide)]
    exact halts_send _
  obtain ⟨found,t,hget⟩ := Atom.defined_linkGet fromRtUuid s hrouted.links
  obtain ⟨-,hfound⟩ := Atom.linkGet_first hclear hget
  refine (halts_look hget).mpr ?_
  cases found with
  | some l =>
    obtain ⟨hl,hname⟩ := firstNamed_some hfound.symm
    dsimp only
    rw [Prog.pure_bind]
    exact tunnelFor_halts _ _ hrouted hclear ⟨l,hl,hname⟩ (hrouted.links l hl) hlen
  | none =>
    have hno : ¬s.LinkedTo fromRtUuid.content := fun h => Node.linkedTo_iff.mp h hfound.symm
    obtain ⟨link,u,hcreate⟩ := Atom.defined_linkCreate hcopy.1 false s hrouted
    refine (halts_bind (yields_perform hcreate)).mpr ?_
    obtain ⟨-,hsome⟩ := Atom.linkCreate_clear hrouted hclear hcopy hno hcreate
    cases link with
    | none =>
      dsimp only
      rw [Prog.pure_bind,if_neg (by decide)]
      exact halts_send _
    | some l =>
      obtain ⟨hrouted',hclear',hlinked,hl⟩ := hsome l rfl
      exact tunnelFor_halts _ _ hrouted' hclear' hlinked hl hlen

section Fields

omit hs

variable (hfrom : Coder.decodeStringFromMap mp root (ascii "from_rt_uuid")=some (some fromRtUuid))
  (hid : Coder.decodeStringFromMap mp root (ascii "msg_uuid")=some (some msgUuid))

include hfrom hid

theorem parseActorNew_halts (hcopy : msgUuid.Copyable) :
    (Top.parseActorNew mp root).Halts s ↔ Request.actorNew.Safe mp root s := by
  rw [Top.parseActorNew,toTop_text hfrom,Prog.pure_bind]
  dsimp only
  rw [toTop_text hid,Prog.pure_bind]
  dsimp only
  rw [bind_ofOption (Text.copy_eq hcopy.1)]
  exact halts_bind_iff fun _ _ _ => halts_toTop.mpr (halts_send _)

theorem parseAppDestroy_halts (hdescribed : Request.appDestroy.Described mp root msgUuid s) :
    (Flow.parseAppDestroy mp root).Halts s ↔ Request.appDestroy.Safe mp root s := by
  obtain ⟨hcopy,objActorUuids,n,hlist,hsize,-⟩ := hdescribed
  simp only [Flow.parseAppDestroy,Flow.bind_text hfrom,Flow.bind_text hid,
    bind_ofOption (Text.copy_eq hcopy.1),Flow.bind_value hlist,bind_ofOption hsize]
  refine (halts_bind_iff fun _ _ _ => halts_send _).trans ⟨fun h l m hl hm => ?_,fun h =>
    h objActorUuids n hlist hsize⟩
  cases hlist.symm.trans hl
  cases hsize.symm.trans hm
  exact h

theorem parsePortDisconnect_halts (hintact : Intact s)
    (hdescribed : Request.portDisconnect.Described mp root msgUuid s) :
    (Flow.parsePortDisconnect mp root).Halts s := by
  obtain ⟨peerPortId,hport⟩ := hdescribed
  simp only [Flow.parsePortDisconnect,Flow.bind_text hfrom,Flow.bind_text hid,Flow.bind_text hport]
  obtain ⟨found,t,hget⟩ := Atom.defined_portGet peerPortId s hintact.linked
  refine (halts_look hget).mpr ?_
  cases found with
  | none =>
    dsimp only
    rw [Prog.pure_bind]
    exact halts_send _
  | some p =>
    obtain ⟨-,-,-,x,-,-,hx,-⟩ := (Atom.portGet_found hget).2 p rfl
    obtain ⟨⟨⟩,u,hu⟩ := Atom.defined_portHandleDisconnect p s ⟨hintact,x,hx⟩
    refine (halts_bind_iff fun _ _ _ => ?_).mpr (halts_act ⟨u,by rw [Op.apply,hu,Option.map_some]⟩)
    rw [Prog.pure_bind]
    exact halts_send _

theorem parsePortConnect_halts (hintact : Intact s)
    (hdescribed : Request.portConnect.Described mp root msgUuid s) :
    (Flow.parsePortConnect mp root).Halts s := by
  obtain ⟨peerPortId,tunnelId,hport,htunnel⟩ := hdescribed
  simp only [Flow.parsePortConnect,Flow.bind_text hfrom,Flow.bind_text hid,Flow.bind_text hport,
    Flow.bind_text htunnel]
  obtain ⟨found,t,hget⟩ := Atom.defined_portGet peerPortId s hintact.linked
  refine (halts_look hget).mpr ?_
  cases found with
  | none =>
    dsimp only
    rw [Prog.pure_bind]
    exact halts_send _
  | some p =>
    obtain ⟨-,-,-,x,-,-,hx,-⟩ := (Atom.portGet_found hget).2 p rfl
    refine (halts_bind_iff fun r _ _ => ?_).mpr (halts_perform
      (Atom.defined_portHandleConnect p tunnelId s ⟨hintact,x,hx⟩))
    split <;> rw [Prog.pure_bind] <;> exact halts_send _

/-- The handler of a described request runs to an end exactly when it touches no freed object. -/
theorem request_halts (hs : s.Ready) (hread : Request.Readable mp root) (req : Request)
    (hregular : req.Regular mp root fromRtUuid s) (hdescribed : req.Described mp root msgUuid s) :
    (Top.answer mp root (req.entry mp)).Halts s ↔ req.Safe mp root s := by
  cases req with
  | actorNew => exact parseActorNew_halts hfrom hid hdescribed.1
  | actorMigrate =>
    exact halts_toTop.trans (parseActorMigrate_halts hs hread hregular hdescribed hfrom hid)
  | appDestroy => exact halts_toTop.trans (parseAppDestroy_halts hfrom hid hdescribed)
  | portConnect =>
    exact iff_of_true (halts_toTop.mpr (parsePortConnect_halts hfrom hid hregular.1 hdescribed)) trivial
  | portDisconnect =>
    exact iff_of_true (halts_toTop.mpr (parsePortDisconnect_halts hfrom hid hregular.1 hdescribed))
      trivial
  | tunnelNew =>
    exact iff_of_true (halts_toTop.mpr (parseTunnelNew_halts hread hregular hdescribed hfrom hid))
      trivial
  | unknown =>
    refine iff_of_true ?_ trivial
    change (Top.answer mp root none).Halts s
    rw [Top.answer,toTop_text hid,Prog.pure_bind]
    dsimp only
    rw [bind_ofOption (Text.copy_eq hdescribed.1),toTop_text hfrom,Prog.pure_bind]
    exact halts_toTop.mpr (halts_send _)

end Fields

end Halts

/-- A name of the table asks for its own entry. -/
theorem Request.called_name {mp : Msgpuck} {cmd : Text} {req : Request}
    (hlen : cmd.len ≤ cmd.ptr.length) (hname : req.name=some cmd.content) :
    Top.called mp cmd=req.entry mp := by
  have hnames : (Top.commandHandlers mp).map Prod.fst=commandNames := rfl
  have hplain : ∀ req : Request, ∀ name ∈ req.name, name ≠ [] ∧ name ∈ commandNames := by
    intro req name h
    cases req <;> cases h <;> decide
  have hcalled : Top.called mp cmd=Top.named mp cmd.content :=
    (find?_received_iff (by rw [hnames]; decide) (by rw [hnames]; decide) hlen).mpr
      (.inl (hnames ▸ hplain req _ hname))
  rw [hcalled]
  cases req with
  | unknown => cases hname
  | _ =>
    rw [← Option.some.inj hname]
    rfl

/-- A field of a message that is a string. -/
def Message.field (root : Bytes) (key : String) : Text :=
  (Coder.decodeStringFromMap msgpack root (ascii key)).join.getD ⟨[],0⟩

/-- A node with a token tunnel to another runtime. -/
def tunnelledNode (peerId : String) : Node :=
  {enabledNode with
    linkMem := ⟨[some ⟨ascii peerId,1,false⟩]⟩
    tunnelMem := ⟨[some ⟨ascii "t",0,.enabled,1,.token⟩]⟩
    links := [0]
    tunnels := [0]}

/-- A request to connect a port without a tunnel id. -/
def portConnectBare : Bytes :=
  (Message.obj [("cmd",Message.text "PORT_CONNECT"),("from_rt_uuid",Message.text "px"),
    ("msg_uuid",Message.text "m"),("peer_port_id",Message.text "p")]).encode msgpack

/-- A request to destroy an application whose actor is on another node. -/
def appDestroyElsewhere : Bytes :=
  (Message.obj [("cmd",Message.text "APP_DESTROY"),("from_rt_uuid",Message.text "px"),
    ("msg_uuid",Message.text "m"),("actor_uuids",Message.list [Message.text "a"])]).encode msgpack

end CalvinConstrained
