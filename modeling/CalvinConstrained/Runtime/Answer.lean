import CalvinConstrained.Runtime.Calm
import CalvinConstrained.Runtime.DeleteDecision
import CalvinConstrained.Runtime.Dispatch
import CalvinConstrained.Runtime.Intact
import CalvinConstrained.Runtime.NameLookup

namespace CalvinConstrained

open Prog

/-- The text fits into the buffer of an id and has no NUL. -/
def Text.Copyable (x : Text) : Prop := x.len<uuidBufferSize ∧ 0 ∉ x.content

/-- Id, addressee and status of an answer. -/
def Outgoing.answer : Outgoing → Option (Bytes × Bytes × Nat)
  | .reply id toRtUuid status => some (id,toRtUuid,status)
  | .tunnelNewReply id toRtUuid status _ => some (id,toRtUuid,status)
  | .portConnectReply id toRtUuid status _ => some (id,toRtUuid,status)
  | .portDisconnectReply id toRtUuid status => some (id,toRtUuid,status)
  | _ => none

theorem Outgoing.answer_eq_none {m : Outgoing} (h : m.kind ≠ .reply) : m.answer=none := by
  cases m <;> first | rfl | exact absurd rfl h

/-- Only notices were sent, on the same transport. -/
structure Host.Quiet (h k : Host) : Prop where
  sent : ∃ new, k.sent=h.sent++new ∧ ∀ m ∈ new, m.kind=.notice
  transport : k.transport=h.transport
  sends : k.fate.sends ⊆ h.fate.sends

theorem Host.Quiet.refl (h : Host) : h.Quiet h := ⟨⟨[],by simp⟩,rfl,fun _ h => h⟩

theorem Host.Quiet.trans {h k l : Host} (hk : h.Quiet k) (hl : k.Quiet l) : h.Quiet l := by
  obtain ⟨new,hnew,hkind⟩ := hk.sent
  obtain ⟨new',hnew',hkind'⟩ := hl.sent
  refine ⟨⟨new++new',by rw [hnew',hnew,List.append_assoc],fun m hm => ?_⟩,
    hl.transport.trans hk.transport,fun _ hb => hk.sends (hl.sends hb)⟩
  exact (List.mem_append.mp hm).elim (hkind m) (hkind' m)

theorem Host.Moves.quiet {h k : Host} (hm : h.Moves k) : h.Quiet k := by
  induction hm with
  | refl => exact .refl h
  | fate f hf _ ih => exact ⟨ih.sent,ih.transport,fun _ hb => ih.sends (hf hb)⟩
  | sent m hm _ ih =>
    refine ih.trans ⟨⟨[m],rfl,?_⟩,rfl,fun _ hb => hb⟩
    simpa using hm
  | register id hne _ ih => exact ⟨ih.sent,ih.transport,ih.sends⟩
  | withdraw id _ ih => exact ⟨ih.sent,ih.transport,ih.sends⟩

instance : Host.Follows Host.Quiet where
  moves := Host.Moves.quiet
  objects := fun h _ => ⟨⟨[],by simp⟩,rfl,fun _ hb => hb⟩
  trans := Host.Quiet.trans

/-- What was sent since `s`: no answer, and a migration or a request for one as `done` tells. -/
structure Node.Since (s : Node) (done : Bool) (t : Node) : Prop where
  sent : ∃ new, t.host.sent=s.host.sent++new ∧ (∀ m ∈ new, m.kind ≠ .reply) ∧
    ((∃ m ∈ new, m.kind=.migration) ↔ done=true)
  transport : t.host.transport=s.host.transport
  sends : t.host.fate.sends ⊆ s.host.fate.sends

namespace Node.Since

variable {s t u : Node} {done : Bool}

theorem refl (s : Node) : s.Since false s := ⟨⟨[],by simp⟩,rfl,fun _ hb => hb⟩

/-- Notices are neither answers nor migrations. -/
theorem quiet (h : s.Since done t) (hq : t.host.Quiet u.host) : s.Since done u := by
  obtain ⟨new,hnew,hno,hdone⟩ := h.sent
  obtain ⟨new',hnew',hkind⟩ := hq.sent
  refine ⟨⟨new++new',by rw [hnew',hnew,List.append_assoc],fun m hm => ?_,?_⟩,
    hq.transport.trans h.transport,fun _ hb => h.sends (hq.sends hb)⟩
  · rcases List.mem_append.mp hm with hm | hm
    · exact hno m hm
    · simp [hkind m hm]
  · rw [← hdone]
    constructor
    · rintro ⟨m,hm,hk⟩
      rcases List.mem_append.mp hm with hm | hm
      · exact ⟨m,hm,hk⟩
      · simp [hkind m hm] at hk
    · rintro ⟨m,hm,hk⟩
      exact ⟨m,List.mem_append_left _ hm,hk⟩

theorem calm {ok : Op → Node → Prop} {mp : Msgpuck} {α : Type} {m : Flow mp α}
    (hm : Meets (Op.Calm Host.Quiet) m) : Spec ok (s.Since done) m fun _ => s.Since done :=
  hm.spec (spec_of_invariant (fun _ _ _ hok hs hp =>
    Op.calm_preserves (fun _ _ _ hq h => h.quiet hq) hok hs hp) m)

theorem step (h : s.Since done t) (mp : Msgpuck) (op : Op) (hok : op.Calm Host.Quiet t)
    (hs : op.apply mp t=some u) : s.Since done u :=
  Op.calm_preserves (fun _ _ _ hq h => h.quiet hq) hok hs h

end Node.Since

namespace Node

/-- The transport is there and takes every message. -/
def Ready (s : Node) : Prop :=
  s.host.transport.isSome=true ∧ ∀ b ∈ s.host.fate.sends, b=true

/-- The messages that were sent between two states. -/
def sentSince (s t : Node) : List Outgoing := t.host.sent.drop s.host.sent.length

/-- The answer `m` was sent and no other one. -/
def Replied (s : Node) (m : Outgoing) (done : Bool) (t : Node) : Prop :=
  ∃ new, t.host.sent=s.host.sent++(new++[m]) ∧ (∀ x ∈ new, x.kind ≠ .reply) ∧
    ((∃ x ∈ new, x.kind=.migration) ↔ done=true)

theorem Since.ready {s t : Node} {done : Bool} (h : s.Since done t) (hs : s.Ready) : t.Ready :=
  ⟨by rw [h.transport]; exact hs.1,fun b hb => hs.2 b (h.sends hb)⟩

theorem Since.answers {s t : Node} {done : Bool} (h : s.Since done t) :
    (s.sentSince t).filterMap Outgoing.answer=[] := by
  obtain ⟨new,hnew,hno,-⟩ := h.sent
  rw [sentSince,hnew,List.drop_left,List.filterMap_eq_nil_iff]
  exact fun m hm => Outgoing.answer_eq_none (hno m hm)

theorem Replied.answers {s t : Node} {m : Outgoing} {done : Bool} (h : s.Replied m done t) :
    (s.sentSince t).filterMap Outgoing.answer=m.answer.toList := by
  obtain ⟨new,hnew,hno,-⟩ := h
  have hnil : new.filterMap Outgoing.answer=[] :=
    List.filterMap_eq_nil_iff.mpr fun x hx => Outgoing.answer_eq_none (hno x hx)
  rw [sentSince,hnew,List.drop_left,List.filterMap_append,hnil,List.nil_append]
  cases hm : m.answer <;> simp [hm]

theorem Replied.migration {s t : Node} {m : Outgoing} {done : Bool} (h : s.Replied m done t)
    (hm : m.kind=.reply) : (∃ x ∈ s.sentSince t, x.kind=.migration) ↔ done=true := by
  obtain ⟨new,hnew,-,hdone⟩ := h
  rw [sentSince,hnew,List.drop_left,← hdone]
  constructor
  · rintro ⟨x,hx,hk⟩
    rcases List.mem_append.mp hx with hx | hx
    · exact ⟨x,hx,hk⟩
    · rw [List.mem_singleton.mp hx,hm] at hk
      cases hk
  · rintro ⟨x,hx,hk⟩
    exact ⟨x,List.mem_append_left _ hx,hk⟩

end Node

namespace Atom

/-- A transport that takes every message takes this one. -/
theorem send_ready {m : Outgoing} {s t : Node} {r : Result} (hs : s.Ready)
    (h : send m s=some (r,t)) :
    r=.success ∧ SameObjects s t ∧ t.host.sent=s.host.sent++[m] ∧
      t.host.transport=s.host.transport ∧ t.host.fate.sends ⊆ s.host.fate.sends := by
  obtain ⟨c,hc⟩ := Option.isSome_iff_exists.mp hs.1
  unfold send at h
  rw [hc] at h
  dsimp only at h
  split at h
  · cases h
    exact ⟨rfl,rfl,rfl,rfl,fun _ hb => hb⟩
  · next rest hrest =>
    cases h
    exact ⟨rfl,rfl,rfl,rfl,fun _ hb => hrest ▸ List.mem_cons_of_mem _ hb⟩
  · next rest hrest => exact absurd (hs.2 false (by simp [hrest])) (by decide)

end Atom

section Reply

variable {mp : Msgpuck} {s : Node}

/-- The last step of a request: its answer. -/
theorem spec_answer {ok : Op → Node → Prop} {Q : Node → Prop} (hs : s.Ready) (done : Bool)
    (m : Outgoing) (hQ : ∀ z h, Q z → Q {z with host := h}) :
    Spec ok (fun z => s.Since done z ∧ Q z) (Flow.host (Atom.send m) : Flow mp Result) fun _ t =>
      s.Replied m done t ∧ Q t := by
  refine spec_bind (spec_read (Q := fun w z => (s.Since done z ∧ Q z) ∧ z=w) fun _ h => ⟨h,rfl⟩)
    fun w => ?_
  split
  swap
  · exact spec_undefined
  next r t ht =>
  refine spec_bind (Q := fun _ z => s.Replied m done z ∧ Q z) (spec_act ?_) fun _ =>
    spec_pure _ fun _ h => h
  rintro z y hy _ ⟨⟨hsince,hq⟩,rfl⟩
  cases hy
  obtain ⟨-,-,hsent,-,-⟩ := Atom.send_ready (hsince.ready hs) ht
  obtain ⟨new,hnew,hno,hdone⟩ := hsince.sent
  refine ⟨⟨new,?_,hno,hdone⟩,hQ z _ hq⟩
  change t.host.sent=_
  rw [hsent,hnew,List.append_assoc]

end Reply

namespace Node

/-- The port that a lookup finds. -/
def portNamed (s : Node) (portId : Text) : Option Ref := ((Atom.portGet portId s).map Prod.fst).join

/-- The port is enabled on a tunnel with such an id. -/
def EnabledOn (t : Node) (p : Ref) (good : Bytes → Prop) : Prop :=
  ∃ x r y, t.portMem.get p=some x ∧ x.state=.enabled ∧ x.tunnel=some r ∧
    t.tunnelMem.get r=some y ∧ good y.id

/-- The port is enabled on a tunnel that is taken for the one with the given id. -/
def Connected (t : Node) (p : Ref) (tunnelId : Text) : Prop :=
  ∃ x r y, t.portMem.get p=some x ∧ x.state=.enabled ∧ x.tunnel=some r ∧
    t.tunnelMem.get r=some y ∧ strncmpEq y.id tunnelId.ptr tunnelId.len=true

/-- Tunnels that are taken for the one with the given id, in the list or on the port, have a good
id. -/
structure TunnelsGood (s : Node) (p : Ref) (tunnelId : Text) (good : Bytes → Prop) : Prop where
  listed : ∀ r y, s.tunnelMem.get r=some y → listIdMatches y.id tunnelId=true → good y.id
  own : ∀ x r y, s.portMem.get p=some x → x.tunnel=some r → s.tunnelMem.get r=some y →
    strncmpEq y.id tunnelId.ptr tunnelId.len=true → good y.id

def Disconnected (t : Node) (p : Ref) : Prop :=
  ∃ x, t.portMem.get p=some x ∧ x.state=.disconnected ∧ x.tunnel=none

end Node

namespace Atom

variable {p : Ref} {tunnelId : Text} {s t : Node}

theorem tunnelGetFromId_matches {q : Ref} {u : Node} (h : tunnelGetFromId tunnelId s=some (some q,u)) :
    ∃ x, s.tunnelMem.get q=some x ∧ listIdMatches x.id tunnelId=true := by
  have hin : ∀ ts u, tunnelGetFromIdIn tunnelId ts s=some (some q,u) →
      ∃ x, s.tunnelMem.get q=some x ∧ listIdMatches x.id tunnelId=true := by
    intro ts
    induction ts with
    | nil =>
      intro u h
      cases h
    | cons r ts ih =>
      intro u h
      obtain ⟨x,v,hread,h₁⟩ := bind_eq_some.mp h
      obtain ⟨hx,rfl⟩ := tunnel_eq_some hread
      split at h₁
      · next hmatch =>
        cases h₁
        exact ⟨x,hx,hmatch⟩
      · exact ih u h₁
  exact hin s.tunnels u h

/-- No tunnel gets another id when one is given up. -/
theorem preserves_detachIds (good : Bytes → Prop) (p : Ref) :
    Preserves (fun z => ∀ q y, z.tunnelMem.get q=some y → good y.id) (portDetach p) := by
  have hremove : ∀ r, Preserves (fun z => ∀ q y, z.tunnelMem.get q=some y → good y.id)
      (tunnelRemoveRef r) := by
    intro r
    refine ensures_bind (ensures_tunnel r) fun x => ensures_bind (Q := fun _ z => ∀ q y,
      z.tunnelMem.get q=some y → good y.id) ?_ fun _ => ?_
    · rintro z b t ht ⟨hz,hx⟩ q y hy
      cases ht
      change (z.tunnelMem.set r _).get q=some y at hy
      rw [Heap.get_set hx] at hy
      split at hy
      · cases hy
        exact hz r x hx
      · exact hz q y hy
    · split
      swap
      · exact preserves_pure _
      refine preserves_bind (preserves_sendTunnelDestroy (fun _ _ _ hz => hz) x) fun _ =>
        preserves_bind (preserves_tunnel r) fun y => preserves_bind ?_ fun _ =>
          preserves_bind preserves_get fun _ => preserves_bind (preserves_listRemove (fun q =>
            preserves_bind (preserves_tunnel q) fun _ => preserves_pure _) _ _) fun _ =>
              preserves_modify fun z hz q y hy => ?_
      · rintro z ⟨⟩ t ht hz
        rw [(linkRemoveRef_tunnels ht).1]
        exact hz
      · change (z.tunnelMem.free r).get q=some y at hy
        rw [Heap.get_free] at hy
        split at hy
        · cases hy
        · exact hz q y hy
  refine preserves_bind (preserves_port p) fun x => ?_
  split
  · exact preserves_pure _
  · exact preserves_bind (hremove _) fun _ => preserves_bind (preserves_port p) fun _ =>
      fun z b t ht hz => by cases ht; exact hz

theorem portEnableOn_enabled {q : Ref} {y : Tunnel} {good : Bytes → Prop}
    (hy : s.tunnelMem.get q=some y) (hid : good y.id)
    (h : portEnableOn p q s=some ((),t)) : t.EnabledOn p good := by
  obtain ⟨⟨⟩,u₁,h₁,h⟩ := bind_eq_some.mp h
  obtain ⟨x,hx,rfl⟩ := updatePort_eq h₁
  obtain ⟨⟨⟩,u₂,h₂,h⟩ := bind_eq_some.mp h
  obtain ⟨y',v,hread,h₂⟩ := bind_eq_some.mp h₂
  obtain ⟨hy',rfl⟩ := tunnel_eq_some hread
  cases hy.symm.trans hy'
  cases h₂
  obtain ⟨⟨⟩,u₃,h₃,h⟩ := bind_eq_some.mp h
  obtain ⟨x₃,a,state,hx₃,-,rfl⟩ := portSetState_eq h₃
  cases (Heap.get_set_self hx _).symm.trans hx₃
  obtain ⟨y₄,u₄,h₄,h⟩ := bind_eq_some.mp h
  obtain ⟨-,rfl⟩ := tunnel_eq_some h₄
  obtain ⟨l,u₅,h₅,h⟩ := bind_eq_some.mp h
  obtain ⟨-,rfl⟩ := link_eq_some h₅
  obtain ⟨x₆,hx₆,rfl⟩ := updatePort_eq h
  cases (Heap.get_set_self hx₃ _).symm.trans hx₆
  exact ⟨_,q,_,Heap.get_set_self hx₆ _,rfl,rfl,Heap.get_set_self hy _,hid⟩

/-- `cc_port_handle_connect` reports success exactly when the port is on such a tunnel. -/
theorem portHandleConnect_enabled {good : Bytes → Prop} {r : Result}
    (hgood : s.TunnelsGood p tunnelId good) (h : portHandleConnect p tunnelId s=some (r,t)) :
    r=.success ↔ t.EnabledOn p good := by
  obtain ⟨on,u,hon,h₁⟩ := bind_eq_some.mp h
  obtain ⟨x,v,hread,hcase⟩ := bind_eq_some.mp hon
  obtain ⟨hx,rfl⟩ := port_eq_some hread
  have hsame : u=v ∧ (on=true → ∃ q y, x.tunnel=some q ∧ v.tunnelMem.get q=some y ∧
      good y.id) := by
    cases htunnel : x.tunnel with
    | none =>
      simp only [htunnel] at hcase
      cases hcase
      exact ⟨rfl,by simp⟩
    | some q =>
      simp only [htunnel] at hcase
      obtain ⟨y,w,hread,hid⟩ := bind_eq_some.mp hcase
      obtain ⟨hy,rfl⟩ := tunnel_eq_some hread
      cases hid
      exact ⟨rfl,fun hid => ⟨q,y,rfl,hy,hgood.own x q y hx htunnel hy hid⟩⟩
  obtain ⟨rfl,hmatch⟩ := hsame
  split at h₁
  · next hid =>
    obtain ⟨q,y,htunnel,hy,hid⟩ := hmatch hid
    obtain ⟨⟨⟩,w',hset,h₁⟩ := bind_eq_some.mp h₁
    cases h₁
    obtain ⟨x',a,state,hx',-,rfl⟩ := portSetState_eq hset
    cases hx.symm.trans hx'
    exact iff_of_true rfl ⟨_,q,y,Heap.get_set_self hx _,rfl,htunnel,hy,hid⟩
  obtain ⟨⟨⟩,w,hdetach,h₁⟩ := bind_eq_some.mp h₁
  obtain ⟨-,-,-,hports⟩ := portDetach_ports hdetach
  obtain ⟨found,w',hfound,h₁⟩ := bind_eq_some.mp h₁
  obtain ⟨rfl,-⟩ := tunnelGetFromId_found hfound
  cases found with
  | none =>
    cases h₁
    refine iff_of_false (by decide) ?_
    rintro ⟨y,q,-,hy,-,htunnel,-⟩
    rw [hports,hx,Option.map_some,if_pos rfl] at hy
    cases hy
    cases htunnel
  | some q =>
    obtain ⟨⟨⟩,w'',henable,h₁⟩ := bind_eq_some.mp h₁
    cases h₁
    obtain ⟨y,hy,hid⟩ := tunnelGetFromId_matches hfound
    have hlisted := preserves_detachIds (fun id => listIdMatches id tunnelId=true → good id) p _ _ _
      hdetach hgood.listed
    exact iff_of_true rfl (portEnableOn_enabled hy (hlisted q y hy hid) henable)

theorem portHandleConnect_connected {r : Result} (h : portHandleConnect p tunnelId s=some (r,t)) :
    r=.success ↔ t.Connected p tunnelId := by
  have hgood : s.TunnelsGood p tunnelId fun id => strncmpEq id tunnelId.ptr tunnelId.len=true :=
    ⟨fun _ _ _ h => (Bool.and_eq_true _ _ ▸ h).2,fun _ _ _ _ _ _ h => h⟩
  exact portHandleConnect_enabled hgood h

theorem portHandleDisconnect_disconnected (h : portHandleDisconnect p s=some ((),t)) :
    t.Disconnected p := by
  obtain ⟨⟨⟩,u₁,h₁,h⟩ := bind_eq_some.mp h
  obtain ⟨⟨⟩,u₂,h₂,h⟩ := bind_eq_some.mp h
  obtain ⟨x₂,a,state,hx₂,-,rfl⟩ := portSetState_eq h₂
  obtain ⟨⟨⟩,u₃,h₃,h⟩ := bind_eq_some.mp h
  obtain ⟨x₃,hx₃,rfl⟩ := updatePort_eq h₃
  cases (Heap.get_set_self hx₂ _).symm.trans hx₃
  obtain ⟨-,-,-,hports⟩ := portDetach_ports h
  have hp := hports p
  rw [Heap.get_set_self hx₃,Option.map_some,if_pos rfl] at hp
  exact ⟨_,hp,rfl,rfl⟩

end Atom

section Ports

variable {mp : Msgpuck} {ok : Op → Node → Prop} {s : Node} {root : Bytes}
  {fromRtUuid msgUuid peerPortId tunnelId : Text}

/-- A lookup by id leaves the node alone and gives the port with that id. -/
theorem spec_portGet (portId : Text) :
    Spec ok (fun z => z=s) (look (Atom.portGet portId) : Flow mp (Option Ref)) fun found z =>
      z=s ∧ s.portNamed portId=found := by
  refine spec_mono (spec_look _) (fun _ h => h) fun found z h => ?_
  obtain ⟨rfl,t,ht⟩ := h
  refine ⟨rfl,?_⟩
  rw [Node.portNamed,ht]
  rfl

/-- A field of the message is a string or not. -/
theorem spec_field {α : Type} {P : Node → Prop} {Q : α → Node → Prop} {key : String}
    {f : Option Text → Flow mp α}
    (hnone : Coder.decodeStringFromMap mp root (ascii key)=some none → Spec ok P (f none) Q)
    (hsome : ∀ x, Coder.decodeStringFromMap mp root (ascii key)=some (some x) →
      Spec ok P (f (some x)) Q) : Spec ok P (Flow.text mp root key >>= f) Q := by
  refine spec_bind (spec_ofOption_eq _) fun x => spec_have (fun z h => h.2) fun hx => ?_
  cases x with
  | none => exact spec_mono (hnone hx) (fun _ h => h.1) fun _ _ h => h
  | some x => exact spec_mono (hsome x hx) (fun _ h => h.1) fun _ _ h => h

variable (hs : s.Ready)
  (hfrom : Coder.decodeStringFromMap mp root (ascii "from_rt_uuid")=some (some fromRtUuid))
  (hid : Coder.decodeStringFromMap mp root (ascii "msg_uuid")=some (some msgUuid))

include hs hfrom hid

theorem parsePortDisconnect_replies :
    Spec ok (fun z => z=s) (Flow.parsePortDisconnect mp root) fun _ t =>
      (Coder.decodeStringFromMap mp root (ascii "peer_port_id")=some none ∧ t=s) ∨
      ∃ peerPortId status,
        Coder.decodeStringFromMap mp root (ascii "peer_port_id")=some (some peerPortId) ∧
        s.Replied (.portDisconnectReply msgUuid.content fromRtUuid.content status) false t ∧
        status<65536 ∧ (status=200 ↔ ∃ p, s.portNamed peerPortId=some p ∧ t.Disconnected p) := by
  simp only [Flow.parsePortDisconnect,Flow.bind_text hfrom,Flow.bind_text hid]
  refine spec_field (fun hport => spec_pure _ fun z h => .inl ⟨hport,h⟩) fun peerPortId hport => ?_
  refine spec_mono (Q := fun _ t => ∃ status,
    s.Replied (.portDisconnectReply msgUuid.content fromRtUuid.content status) false t ∧
    status<65536 ∧ (status=200 ↔ ∃ p, s.portNamed peerPortId=some p ∧ t.Disconnected p)) ?_
    (fun _ h => h)
    fun _ t h => .inr ⟨peerPortId,h.choose,hport,h.choose_spec⟩
  refine spec_bind (spec_portGet _) fun found => ?_
  cases found with
  | none =>
    dsimp only
    rw [Prog.pure_bind]
    refine spec_mono (spec_answer (Q := fun _ => s.portNamed peerPortId=none) hs false _
      fun _ _ h => h) ?_ ?_
    · rintro z ⟨rfl,hnone⟩
      exact ⟨.refl z,hnone⟩
    · rintro r t ⟨hreply,hnone⟩
      exact ⟨500,hreply,by decide,by simp [hnone]⟩
  | some p =>
    dsimp only
    refine spec_bind (Q := fun _ z => s.Since false z ∧ s.portNamed peerPortId=some p ∧
      z.Disconnected p) (spec_act ?_) fun _ => ?_
    · rintro z t ht _ ⟨rfl,hp⟩
      obtain ⟨⟨⟨⟩,t'⟩,hr,he⟩ := Option.map_eq_some_iff.mp ht
      cases he
      exact ⟨(Node.Since.refl _).step mp (.handleDisconnect p) trivial ht,hp,Atom.portHandleDisconnect_disconnected hr⟩
    · rw [Prog.pure_bind]
      refine spec_mono (spec_answer hs false _ fun _ _ h => h) (fun _ h => h) ?_
      rintro r t ⟨hreply,hp,hdown⟩
      exact ⟨200,hreply,by decide,iff_of_true rfl ⟨p,hp,hdown⟩⟩

theorem parsePortConnect_replies (hgood : ∀ peerPortId tunnelId p,
    Coder.decodeStringFromMap mp root (ascii "peer_port_id")=some (some peerPortId) →
    Coder.decodeStringFromMap mp root (ascii "tunnel_id")=some (some tunnelId) →
    s.portNamed peerPortId=some p → s.TunnelsGood p tunnelId (cstr ·=tunnelId.content)) :
    Spec ok (fun z => z=s) (Flow.parsePortConnect mp root) fun _ t =>
      ((Coder.decodeStringFromMap mp root (ascii "peer_port_id")=some none ∨
        Coder.decodeStringFromMap mp root (ascii "tunnel_id")=some none) ∧ t=s) ∨
      ∃ peerPortId tunnelId status,
        Coder.decodeStringFromMap mp root (ascii "peer_port_id")=some (some peerPortId) ∧
        Coder.decodeStringFromMap mp root (ascii "tunnel_id")=some (some tunnelId) ∧
        s.Replied (.portConnectReply msgUuid.content fromRtUuid.content status peerPortId.content)
          false t ∧
        status<65536 ∧
        (status=200 ↔ ∃ p, s.portNamed peerPortId=some p ∧ t.EnabledOn p (cstr ·=tunnelId.content)) := by
  simp only [Flow.parsePortConnect,Flow.bind_text hfrom,Flow.bind_text hid]
  refine spec_field (fun hport => spec_pure _ fun z h => .inl ⟨.inl hport,h⟩) fun peerPortId hport =>
    spec_field (fun htunnel => spec_pure _ fun z h => .inl ⟨.inr htunnel,h⟩) fun tunnelId htunnel => ?_
  refine spec_mono (Q := fun _ t => ∃ status,
    s.Replied (.portConnectReply msgUuid.content fromRtUuid.content status peerPortId.content)
      false t ∧ status<65536 ∧
    (status=200 ↔ ∃ p, s.portNamed peerPortId=some p ∧ t.EnabledOn p (cstr ·=tunnelId.content))) ?_
    (fun _ h => h) fun _ t h => .inr ⟨peerPortId,tunnelId,h.choose,hport,htunnel,h.choose_spec⟩
  refine spec_bind (spec_portGet _) fun found => ?_
  cases found with
  | none =>
    dsimp only
    rw [Prog.pure_bind]
    refine spec_mono (spec_answer (Q := fun _ => s.portNamed peerPortId=none) hs false _
      fun _ _ h => h) ?_ ?_
    · rintro z ⟨rfl,hnone⟩
      exact ⟨.refl z,hnone⟩
    · rintro r t ⟨hreply,hnone⟩
      exact ⟨404,hreply,by decide,by simp [hnone]⟩
  | some p =>
    dsimp only
    refine spec_bind (Q := fun r z => s.Since false z ∧ s.portNamed peerPortId=some p ∧
      (r=.success ↔ z.EnabledOn p (cstr ·=tunnelId.content))) (spec_perform _ ?_) fun r => ?_
    · rintro z r t ht _ ⟨rfl,hp⟩
      refine ⟨(Node.Since.refl _).step mp (.handleConnect p tunnelId) trivial ?_,hp,
        Atom.portHandleConnect_enabled (hgood _ _ p hport htunnel hp) ht⟩
      rw [Op.apply,ht,Option.map_some]
    · split
      · next hr =>
        rw [Prog.pure_bind]
        refine spec_mono (spec_answer hs false _ fun _ _ h => h) (fun _ h => h) ?_
        rintro _ t ⟨hreply,hp,hon⟩
        exact ⟨200,hreply,by decide,iff_of_true rfl ⟨p,hp,hon.mp hr⟩⟩
      · next hr =>
        rw [Prog.pure_bind]
        refine spec_mono (spec_answer hs false _ fun _ _ h => h) (fun _ h => h) ?_
        rintro _ t ⟨hreply,hp,hon⟩
        refine ⟨404,hreply,by decide,iff_of_false (by decide) ?_⟩
        rintro ⟨q,hq,hcon⟩
        cases hp.symm.trans hq
        exact hr (hon.mpr hcon)

end Ports

namespace Node

/-- The node has a link to the runtime. -/
def LinkedTo (t : Node) (peerId : Bytes) : Prop := ∃ l ∈ t.links, t.linkName l=some peerId

/-- The node has an enabled token tunnel to the runtime. -/
def TunnelTo (t : Node) (peerId : Bytes) : Prop :=
  ∃ q ∈ t.tunnels, t.tunnelName .token q=some peerId ∧
    ∃ x, t.tunnelMem.get q=some x ∧ x.state=.enabled

/-- The lookups of the runtime give the first link and the first token tunnel with its id. -/
structure Clear (t : Node) (peerId : Text) : Prop where
  links : scanNames t.linkName t.links peerId=firstNamed t.linkName t.links peerId.content
  tunnels : scanNames (t.tunnelName .token) t.tunnels peerId=
    firstNamed (t.tunnelName .token) t.tunnels peerId.content

/-- A new link at the end of the list. -/
def withLink (s : Node) (x : Link) : Node :=
  {s with linkMem := s.linkMem.alloc x,links := s.links++[s.linkMem.next]}

variable {s t : Node} {peerId : Text}

theorem linkedTo_iff {peerId : Bytes} :
    s.LinkedTo peerId ↔ firstNamed s.linkName s.links peerId ≠ none := by
  rw [firstNamed,ne_eq,List.find?_eq_none]
  simp [LinkedTo]

theorem linkName_withLink (x : Link) (l : Ref) :
    (s.withLink x).linkName l=if l=s.linkMem.next then some (cstr x.peerId) else s.linkName l := by
  rw [linkName,withLink,Heap.get_alloc]
  split <;> rfl

/-- Tunnels do not notice a new link. -/
theorem tunnelName_withLink (hs : Routed s) (x : Link) (type : TunnelType) :
    (s.withLink x).tunnelName type=s.tunnelName type := by
  funext q
  change ((s.tunnelMem.get q).bind fun y =>
    if y.type=type then (s.withLink x).linkName y.link else none)=_
  rw [tunnelName]
  cases hy : s.tunnelMem.get q with
  | none => rfl
  | some y =>
    obtain ⟨l,hl⟩ := hs.link q y hy
    have hne : y.link ≠ s.linkMem.next := fun he => by
      rw [he,Heap.get_next] at hl
      cases hl
    rw [Option.bind_some,Option.bind_some,linkName_withLink,if_neg hne]

theorem Clear.withLink {x : Link} (hs : Routed s) (h : s.Clear peerId)
    (hx : cstr x.peerId=peerId.content) (hmatch : strncmpEq x.peerId peerId.ptr peerId.len=true) :
    (s.withLink x).Clear peerId where
  links := by
    have hold : ∀ l ∈ s.links, (s.withLink x).linkName l=s.linkName l := by
      intro l hl
      obtain ⟨y,hy⟩ := hs.links l hl
      rw [linkName_withLink,if_neg]
      rintro rfl
      rw [Heap.get_next] at hy
      cases hy
    have hnew : (s.withLink x).linkName s.linkMem.next=some peerId.content := by
      rw [linkName_withLink,if_pos rfl,hx]
    have hscan : scanNames (s.withLink x).linkName s.links peerId=
        scanNames s.linkName s.links peerId := List.find?_congr fun l hl => by rw [hold l hl]
    have hfirst : firstNamed (s.withLink x).linkName s.links peerId.content=
        firstNamed s.linkName s.links peerId.content :=
      List.find?_congr fun l hl => by rw [hold l hl]
    rw [← strncmpEq_cstr,hx] at hmatch
    have happend : ∀ p : Ref → Bool, p s.linkMem.next=true →
        (s.links++[s.linkMem.next]).find? p=(s.links.find? p).or (some s.linkMem.next) := by
      intro p hp
      rw [List.find?_append,List.find?_cons_of_pos hp]
    refine (happend _ (by simp [hnew,hmatch])).trans ?_
    refine Eq.trans ?_ (happend _ (by simp [hnew])).symm
    exact congrArg (Option.or · (some s.linkMem.next)) (hscan.trans (h.links.trans hfirst.symm))
  tunnels := by
    rw [tunnelName_withLink hs]
    exact h.tunnels

theorem Routed.withLink (hs : Routed s) (x : Link) : Routed (s.withLink x) where
  tunnels := hs.tunnels
  links := by
    intro l hl
    change ∃ y, (s.linkMem.alloc x).get l=some y
    rw [Heap.get_alloc]
    split
    · exact ⟨x,rfl⟩
    next hne =>
    rcases List.mem_append.mp hl with hl | hl
    · exact hs.links l hl
    · exact absurd (List.mem_singleton.mp hl) hne
  link := by
    intro q y hy
    obtain ⟨l,hl⟩ := hs.link q y hy
    change ∃ z, (s.linkMem.alloc x).get y.link=some z
    rw [Heap.get_alloc]
    split
    · exact ⟨x,rfl⟩
    · exact ⟨l,hl⟩
  tunnel := hs.tunnel

theorem Clear.host (h : s.Clear peerId) (k : Host) : Clear {s with host := k} peerId :=
  ⟨h.links,h.tunnels⟩

end Node

namespace Atom

variable {peerId : Text} {s t : Node}

theorem alloc_host {b : Bool} (h : alloc s=some (b,t)) : ∃ k, t={s with host := k} :=
  ⟨t.host,preserves_alloc (sameObjects_host s) s b t h (.refl s)⟩

/-- A copy of an id is taken for that id. -/
theorem strncmpEq_copy {id : Bytes} {n : Nat} (h : peerId.copy n=some id) :
    strncmpEq id peerId.ptr peerId.len=true := by
  rw [Text.copy] at h
  split at h
  · cases h
    rw [strncmpEq,decide_eq_true_eq,cstr_take,cstr_take,cstr_take]
    have hidem : cstr (cstr peerId.ptr)=cstr peerId.ptr := List.takeWhile_idem
    rw [hidem,List.take_take,Nat.min_self]
  · cases h

theorem linkGet_first {found : Option Ref} (hs : s.Clear peerId) (h : linkGet peerId s=some (found,t)) :
    t=s ∧ found=firstNamed s.linkName s.links peerId.content := by
  obtain ⟨ht,hfound⟩ := linkGet_scan h
  exact ⟨ht,hfound.trans hs.links⟩

theorem tunnelGet_first {found : Option Ref} (hs : s.Clear peerId)
    (h : tunnelGetFromPeeridAndType peerId .token s=some (found,t)) :
    t=s ∧ found=firstNamed (s.tunnelName .token) s.tunnels peerId.content := by
  obtain ⟨ht,hfound⟩ := tunnelGetFromPeerid_scan h
  exact ⟨ht,hfound.trans hs.tunnels⟩

/-- What `cc_link_create` leaves behind when the runtime has no link yet. -/
theorem linkCreate_link {isProxy : Bool} {found : Option Ref} (hs : s.Clear peerId)
    (hno : ¬s.LinkedTo peerId.content) (h : linkCreate peerId isProxy s=some (found,t)) :
    (found=none ∧ ∃ k, t={s with host := k}) ∨ ∃ k id, peerId.copy uuidBufferSize=some id ∧
      found=some s.linkMem.next ∧ t=Node.withLink {s with host := k} ⟨id,0,isProxy⟩ := by
  obtain ⟨old,u,hget,h₁⟩ := bind_eq_some.mp h
  obtain ⟨rfl,hold⟩ := linkGet_first hs hget
  rw [Node.linkedTo_iff,not_not] at hno
  rw [hno] at hold
  subst hold
  obtain ⟨b,v,halloc,h₂⟩ := bind_eq_some.mp h₁
  obtain ⟨k,rfl⟩ := alloc_host halloc
  split at h₂
  · cases h₂
    exact .inl ⟨rfl,k,rfl⟩
  obtain ⟨id,v,hid,h₃⟩ := bind_eq_some.mp h₂
  obtain ⟨id',hid',he⟩ := Option.map_eq_some_iff.mp hid
  cases he
  obtain ⟨b,v,halloc,h₄⟩ := bind_eq_some.mp h₃
  obtain ⟨k',rfl⟩ := alloc_host halloc
  split at h₄
  · cases h₄
    exact .inl ⟨rfl,k',rfl⟩
  obtain ⟨l,v,hadd,h₅⟩ := bind_eq_some.mp h₄
  cases h₅
  cases hadd
  exact .inr ⟨k',id,hid',rfl,rfl⟩

/-- Once `cc_link_create` is done for a runtime without a link, the lookups find the new link, or
there is none. -/
theorem linkCreate_clear {isProxy : Bool} {found : Option Ref} (hrouted : Routed s)
    (hs : s.Clear peerId) (hcopy : peerId.Copyable) (hno : ¬s.LinkedTo peerId.content)
    (h : linkCreate peerId isProxy s=some (found,t)) :
    (found=none → ¬t.LinkedTo peerId.content) ∧
    ∀ l, found=some l → Routed t ∧ t.Clear peerId ∧ t.LinkedTo peerId.content ∧
      ∃ x, t.linkMem.get l=some x := by
  rcases linkCreate_link hs hno h with ⟨rfl,k,rfl⟩ | ⟨k,id,hid,rfl,rfl⟩
  · exact ⟨fun _ => hno,by simp⟩
  refine ⟨by simp,fun l hl => ?_⟩
  cases hl
  have hcstr : cstr id=peerId.content := by
    rw [Text.copy,if_pos hcopy.1] at hid
    cases hid
    rw [cstr_of_not_mem (cstr_no_nul _)]
    exact cstr_of_not_mem hcopy.2
  have hget : (Node.withLink {s with host := k} ⟨id,0,isProxy⟩).linkMem.get s.linkMem.next=
      some ⟨id,0,isProxy⟩ := (Heap.get_alloc _ _ _).trans (if_pos rfl)
  refine ⟨Node.Routed.withLink (hrouted.of_host k) _,
    Node.Clear.withLink (hrouted.of_host k) (hs.host k) hcstr (strncmpEq_copy hid),
    ⟨s.linkMem.next,by simp [Node.withLink],?_⟩,_,hget⟩
  rw [Node.linkName,hget,Option.map_some,hcstr]

/-- The tunnel that `cc_tunnel_create` adds over a link to the runtime. -/
theorem tunnelAdd_tunnelTo {x : Tunnel} {peerId : Bytes} {q : Ref} {u : Node} (hl : x.link ∈ s.links)
    (hname : s.linkName x.link=some peerId) (htype : x.type=.token) (hstate : x.state=.enabled)
    (hadd : tunnelAdd x s=some (q,u)) (href : linkAddRef x.link u=some ((),t)) :
    t.LinkedTo peerId ∧ t.TunnelTo peerId := by
  obtain ⟨y,hy,hid⟩ := Option.map_eq_some_iff.mp hname
  cases hadd
  obtain ⟨y',v,hread,href⟩ := bind_eq_some.mp href
  obtain ⟨hy',rfl⟩ := link_eq_some hread
  cases hy.symm.trans hy'
  cases href
  have hlink : (Heap.set s.linkMem x.link {y with refCount := y.refCount+1}).get x.link=
    some {y with refCount := y.refCount+1} := Heap.get_set_self hy _
  have hnew : (s.tunnelMem.alloc x).get s.tunnelMem.next=some x :=
    (Heap.get_alloc _ _ _).trans (if_pos rfl)
  refine ⟨⟨x.link,hl,?_⟩,s.tunnelMem.next,by simp,?_,x,hnew,hstate⟩
  · rw [Node.linkName,hlink,Option.map_some,hid]
  · rw [Node.tunnelName,hnew,Option.bind_some,if_pos htype,Node.linkName,hlink,Option.map_some,hid]

/-- `cc_tunnel_create` for a runtime with a link and without a tunnel. -/
theorem tunnelCreate_tunnelTo {tunnelId : Text} {found : Option Ref} (hs : s.Clear peerId)
    (hlinked : s.LinkedTo peerId.content)
    (hnone : firstNamed (s.tunnelName .token) s.tunnels peerId.content=none)
    (h : tunnelCreate .token .enabled peerId (some tunnelId) s=some (found,t)) :
    (found=none ∧ ∃ k, t={s with host := k}) ∨
    (found.isSome=true ∧ t.LinkedTo peerId.content ∧ t.TunnelTo peerId.content) := by
  obtain ⟨old,u,hget,h₁⟩ := bind_eq_some.mp h
  obtain ⟨rfl,hold⟩ := tunnelGet_first hs hget
  rw [hnone] at hold
  subst hold
  obtain ⟨link,v,hlink,h₂⟩ := bind_eq_some.mp h₁
  obtain ⟨l,w,hlget,hlink⟩ := bind_eq_some.mp hlink
  obtain ⟨rfl,hl⟩ := linkGet_first hs hlget
  cases l with
  | none => exact absurd hl.symm (Node.linkedTo_iff.mp hlinked)
  | some l =>
  cases hlink
  obtain ⟨hmem,hname⟩ := firstNamed_some hl.symm
  obtain ⟨b,v,halloc,h₃⟩ := bind_eq_some.mp h₂
  obtain ⟨k,rfl⟩ := alloc_host halloc
  split at h₃
  · cases h₃
    exact .inl ⟨rfl,k,rfl⟩
  obtain ⟨id,v,hid,h₄⟩ := bind_eq_some.mp h₃
  obtain ⟨id',-,he⟩ := Option.map_eq_some_iff.mp hid
  cases he
  obtain ⟨x,v,hx,h₅⟩ := bind_eq_some.mp h₄
  cases hx
  obtain ⟨b,v,halloc,h₆⟩ := bind_eq_some.mp h₅
  obtain ⟨k',rfl⟩ := alloc_host halloc
  split at h₆
  · cases h₆
    exact .inl ⟨rfl,k',rfl⟩
  obtain ⟨q,v,hadd,h₇⟩ := bind_eq_some.mp h₆
  obtain ⟨⟨⟩,v',href,h₈⟩ := bind_eq_some.mp h₇
  cases h₈
  obtain ⟨hlinked',htunnel⟩ := tunnelAdd_tunnelTo hmem hname rfl rfl hadd href
  exact .inr ⟨rfl,hlinked',htunnel⟩

/-- A reference less on a link makes no tunnel. -/
theorem linkRemoveRef_tunnelTo {l : Ref} {peerId : Bytes} (h : linkRemoveRef l s=some ((),t))
    (ht : t.TunnelTo peerId) : s.TunnelTo peerId := by
  obtain ⟨hmem,hlist⟩ := linkRemoveRef_tunnels h
  have hlinks : ∀ k id, t.linkName k=some id → s.linkName k=some id := by
    obtain ⟨x,u,hread,h₁⟩ := bind_eq_some.mp h
    obtain ⟨hx,rfl⟩ := link_eq_some hread
    obtain ⟨⟨⟩,v,hwrite,h₂⟩ := bind_eq_some.mp h₁
    cases hwrite
    have hset : ∀ k, ((u.linkMem.set l {x with refCount := x.refCount-1}).get k).map
        (fun y => cstr y.peerId)=u.linkName k := by
      intro k
      rw [Heap.get_set hx,Node.linkName]
      split
      · next hk => rw [hk,hx,Option.map_some,Option.map_some]
      · rfl
    split at h₂
    · obtain ⟨z,w,hread',h₃⟩ := bind_eq_some.mp h₂
      obtain ⟨-,rfl⟩ := link_eq_some hread'
      obtain ⟨w',w'',hgot,h₄⟩ := bind_eq_some.mp h₃
      cases hgot
      obtain ⟨links,w'',hremove,h₅⟩ := bind_eq_some.mp h₄
      have hw := preserves_listRemove (P := fun v => v=_) (fun r => preserves_bind (preserves_link r)
        fun _ => preserves_pure _) _ _ _ links w'' hremove rfl
      cases h₅
      dsimp only at hw
      subst w''
      intro k id hk
      rw [Node.linkName,Heap.get_free] at hk
      split at hk
      · cases hk
      · rw [hset] at hk
        exact hk
    · cases h₂
      intro k id hk
      exact (hset k).symm.trans hk
  obtain ⟨q,hq,hname,x,hx,hstate⟩ := ht
  rw [hmem] at hx
  refine ⟨q,hlist ▸ hq,?_,x,hx,hstate⟩
  rw [Node.tunnelName,hmem,hx,Option.bind_some] at hname
  rw [Node.tunnelName,hx,Option.bind_some]
  split
  · next htype =>
    rw [if_pos htype] at hname
    exact hlinks _ _ hname
  · next htype =>
    rw [if_neg htype] at hname
    cases hname

end Atom

section Tunnels

variable {mp : Msgpuck} {ok : Op → Node → Prop} {s : Node} {root : Bytes}
  {fromRtUuid msgUuid type tunnelId peerId : Text}

/-- An enabled tunnel over a link with the id of the runtime. -/
theorem tunnelUpdate_tunnelTo {q : Ref} {id peerId : Bytes} {t : Node}
    (hlinked : s.LinkedTo peerId) (hq : q ∈ s.tunnels) (hname : s.tunnelName .token q=some peerId)
    (h : (Op.tunnelUpdate q id .enabled).apply mp s=some t) :
    t.LinkedTo peerId ∧ t.TunnelTo peerId := by
  obtain ⟨⟨⟨⟩,t'⟩,hr,he⟩ := Option.map_eq_some_iff.mp h
  cases he
  obtain ⟨x,u,hread,h₁⟩ := Atom.bind_eq_some.mp hr
  obtain ⟨hx,rfl⟩ := Atom.tunnel_eq_some hread
  cases h₁
  rw [Node.tunnelName,hx,Option.bind_some] at hname
  have hset := Heap.get_set_self hx {x with id := id,state := .enabled}
  refine ⟨hlinked,q,hq,?_,_,hset,rfl⟩
  rw [Node.tunnelName,hset,Option.bind_some]
  exact hname

/-- `cc_tunnel_handle_tunnel_new_request` reports success exactly when there is a tunnel, and leaves
the objects alone otherwise. -/
theorem handleTunnelNewRequest_tunnelTo (hclear : s.Clear peerId)
    (hlinked : s.LinkedTo peerId.content) :
    Spec ok (fun z => z=s) (Flow.handleTunnelNewRequest mp peerId tunnelId) fun r t =>
      (r=.success → t.LinkedTo peerId.content ∧ t.TunnelTo peerId.content) ∧
      (r ≠ .success → (∃ k, t={s with host := k}) ∧ ¬t.TunnelTo peerId.content) := by
  refine spec_bind (spec_look _) fun found => spec_of_forall fun u hu => ?_
  obtain ⟨rfl,v,hv⟩ := hu
  obtain ⟨-,hfound⟩ := Atom.tunnelGet_first hclear hv
  cases found with
  | some q =>
    obtain ⟨hq,hname⟩ := firstNamed_some hfound.symm
    have hdone : ∀ id, Spec ok (fun z => z=u) (do
        act (.tunnelUpdate q id .enabled)
        return .success : Flow mp Result) fun r t =>
          (r=.success → t.LinkedTo peerId.content ∧ t.TunnelTo peerId.content) ∧
          (r ≠ .success → (∃ k, t={u with host := k}) ∧ ¬t.TunnelTo peerId.content) := by
      intro id
      refine spec_bind (Q := fun _ t => t.LinkedTo peerId.content ∧ t.TunnelTo peerId.content)
        (spec_act ?_) fun _ => spec_pure _ fun _ h => ⟨fun _ => h,by simp⟩
      rintro z t ht _ rfl
      exact tunnelUpdate_tunnelTo hlinked hq hname ht
    refine spec_bind (spec_look _) fun x => ?_
    refine spec_have (C := u.tunnelMem.get q=some x) ?_ fun hx => ?_
    · rintro z ⟨rfl,w,hw⟩
      exact (Atom.tunnel_eq_some hw).1
    refine spec_mono (P := fun z => z=u) ?_ (fun _ h => h.1) fun _ _ h => h
    split
    · next hstate =>
      refine spec_pure _ fun z hz => ⟨fun _ => ?_,by simp⟩
      subst hz
      exact ⟨hlinked,q,hq,hname,x,hx,hstate⟩
    · refine spec_bind (spec_read (Q := fun _ z => z=u) fun _ h => h) fun w => ?_
      dsimp only
      split
      · exact spec_bind (spec_ofOption _) fun id => hdone _
      · exact hdone _
  | none =>
    have hno : ∀ k, ¬Node.TunnelTo {u with host := k} peerId.content := by
      rintro k ⟨q,hq,hname,-⟩
      exact firstNamed_none.mp hfound.symm q hq hname
    refine spec_bind (Q := fun found t =>
      (found=none ∧ ∃ k, t={u with host := k}) ∨
      (found.isSome=true ∧ t.LinkedTo peerId.content ∧ t.TunnelTo peerId.content))
      (spec_perform _ ?_) fun found => ?_
    · rintro z found t ht _ rfl
      exact Atom.tunnelCreate_tunnelTo hclear hlinked hfound.symm ht
    · split
      · next hf =>
        refine spec_pure _ ?_
        rintro t (⟨rfl,-⟩ | ⟨-,hyes⟩)
        · cases hf
        · exact ⟨fun _ => hyes,by simp⟩
      · next hf =>
        refine spec_pure _ ?_
        rintro t (⟨-,k,rfl⟩ | ⟨hsome,-⟩)
        · exact ⟨by simp,fun _ => ⟨⟨k,rfl⟩,hno k⟩⟩
        · exact absurd hsome hf

/-- The end of a tunnel request once the node has a link to the runtime. -/
theorem spec_tunnelFor (hs : s.Ready) (l : Ref) (id addressee tunnel : Bytes) :
    Spec ok (fun z => s.Since false z ∧ z.Clear peerId ∧ z.LinkedTo peerId.content) (do
      if (← Flow.handleTunnelNewRequest mp peerId tunnelId)=.success then
        Flow.host (Atom.send (.tunnelNewReply id addressee 200 tunnel))
      else
        act (.linkRemoveRef l)
        Flow.host (Atom.send (.tunnelNewReply id addressee 500 tunnel)) : Flow mp Result) fun _ t =>
      ∃ status, s.Replied (.tunnelNewReply id addressee status tunnel) false t ∧ status<65536 ∧
        (status=200 ↔ t.LinkedTo peerId.content ∧ t.TunnelTo peerId.content) := by
  refine spec_of_forall fun u hu => ?_
  obtain ⟨hstart,hclear,hlinked⟩ := hu
  refine spec_bind (spec_mono (spec_and (Node.Since.calm (handleTunnelNewRequest_calm _ _))
    (handleTunnelNewRequest_tunnelTo hclear hlinked)) (fun z hz => ⟨hz ▸ hstart,hz⟩)
      fun _ _ h => h) fun r => ?_
  split
  · next hr =>
    subst hr
    refine spec_mono (spec_answer (Q := fun z => z.LinkedTo peerId.content ∧ z.TunnelTo peerId.content)
      hs false _ fun _ _ h => h) ?_ ?_
    · rintro z ⟨hsince,hyes,-⟩
      exact ⟨hsince,hyes rfl⟩
    · rintro r t ⟨hreply,hyes⟩
      exact ⟨200,hreply,by decide,iff_of_true rfl hyes⟩
  · next hr =>
    refine spec_bind (Q := fun _ z => s.Since false z ∧ ¬z.TunnelTo peerId.content) (spec_act ?_)
      fun _ => ?_
    · rintro z t ht _ ⟨hsince,-,hnone⟩
      refine ⟨hsince.step mp (.linkRemoveRef l) trivial ht,?_⟩
      obtain ⟨⟨⟨⟩,t'⟩,hremove,he⟩ := Option.map_eq_some_iff.mp ht
      cases he
      exact fun hyes => (hnone hr).2 (Atom.linkRemoveRef_tunnelTo hremove hyes)
    · refine spec_mono (spec_answer hs false _ fun _ _ h => h) (fun _ h => h) ?_
      rintro r t ⟨hreply,hno⟩
      exact ⟨500,hreply,by decide,iff_of_false (by decide) fun h => hno h.2⟩

theorem parseTunnelNew_replies (hs : s.Ready) (hrouted : Routed s) (hclear : s.Clear fromRtUuid)
    (hcopy : fromRtUuid.Copyable)
    (hfrom : Coder.decodeStringFromMap mp root (ascii "from_rt_uuid")=some (some fromRtUuid))
    (hid : Coder.decodeStringFromMap mp root (ascii "msg_uuid")=some (some msgUuid)) :
    Spec ok (fun z => z=s) (Flow.parseTunnelNew mp root) fun _ t =>
      ((Coder.decodeStringFromMap mp root (ascii "type")=some none ∨
        Coder.decodeStringFromMap mp root (ascii "tunnel_id")=some none) ∧ t=s) ∨
      ∃ type tunnelId status,
        Coder.decodeStringFromMap mp root (ascii "type")=some (some type) ∧
        Coder.decodeStringFromMap mp root (ascii "tunnel_id")=some (some tunnelId) ∧
        s.Replied (.tunnelNewReply msgUuid.content fromRtUuid.content status tunnelId.content)
          false t ∧ status<65536 ∧
        (status=200 ↔ strncmpEq type.ptr (ascii "token") 5=true ∧ t.LinkedTo fromRtUuid.content ∧
          t.TunnelTo fromRtUuid.content) := by
  simp only [Flow.parseTunnelNew,Flow.bind_text hfrom,Flow.bind_text hid]
  refine spec_field (fun htype => spec_pure _ fun z h => .inl ⟨.inl htype,h⟩) fun type htype =>
    spec_field (fun htunnel => spec_pure _ fun z h => .inl ⟨.inr htunnel,h⟩) fun tunnelId htunnel => ?_
  refine spec_mono (Q := fun _ t => ∃ status,
    s.Replied (.tunnelNewReply msgUuid.content fromRtUuid.content status tunnelId.content)
      false t ∧ status<65536 ∧
    (status=200 ↔ strncmpEq type.ptr (ascii "token") 5=true ∧ t.LinkedTo fromRtUuid.content ∧
      t.TunnelTo fromRtUuid.content)) ?_ (fun _ h => h)
    fun _ t h => .inr ⟨type,tunnelId,h.choose,htype,htunnel,h.choose_spec⟩
  dsimp only
  have hnone : Spec ok (fun z => s.Since false z ∧
      ¬(strncmpEq type.ptr (ascii "token") 5=true ∧ z.LinkedTo fromRtUuid.content))
      (Flow.host (Atom.send (.tunnelNewReply msgUuid.content fromRtUuid.content 500 tunnelId.content))
        : Flow mp Result) fun _ t => ∃ status,
      s.Replied (.tunnelNewReply msgUuid.content fromRtUuid.content status tunnelId.content)
        false t ∧ status<65536 ∧
      (status=200 ↔ strncmpEq type.ptr (ascii "token") 5=true ∧ t.LinkedTo fromRtUuid.content ∧
        t.TunnelTo fromRtUuid.content) := by
    refine spec_mono (spec_answer hs false _ fun _ _ h => h) (fun _ h => h) ?_
    rintro r t ⟨hreply,hno⟩
    exact ⟨500,hreply,by decide,iff_of_false (by decide) fun h => hno ⟨h.1,h.2.1⟩⟩
  split
  · next h =>
    rw [Prog.pure_bind]
    dsimp only
    rw [Prog.pure_bind,if_neg (by decide)]
    refine spec_mono hnone ?_ fun _ _ h => h
    rintro z rfl
    refine ⟨.refl z,fun hc => ?_⟩
    rw [hc.1] at h
    cases h
  next h =>
  have htoken : strncmpEq type.ptr (ascii "token") 5=true := by simpa using h
  simp only [htoken,true_and] at hnone ⊢
  refine spec_bind (spec_look _) fun found => ?_
  cases found with
  | some l =>
    dsimp only
    rw [Prog.pure_bind]
    refine spec_mono (spec_tunnelFor hs l _ _ _) ?_ fun _ _ h => h
    rintro z ⟨rfl,t,ht⟩
    obtain ⟨-,hfound⟩ := Atom.linkGet_first hclear ht
    obtain ⟨hl,hname⟩ := firstNamed_some hfound.symm
    exact ⟨.refl z,hclear,l,hl,hname⟩
  | none =>
    refine spec_bind (Q := fun link z => s.Since false z ∧
      (link=none → ¬z.LinkedTo fromRtUuid.content) ∧
      ∀ l, link=some l → z.Clear fromRtUuid ∧ z.LinkedTo fromRtUuid.content)
      (spec_perform _ ?_) fun link => ?_
    · rintro z link t ht _ ⟨rfl,u,hu⟩
      obtain ⟨-,hno⟩ := Atom.linkGet_first hclear hu
      have hno' : ¬z.LinkedTo fromRtUuid.content := fun h => Node.linkedTo_iff.mp h hno.symm
      refine ⟨(Node.Since.refl _).step mp (.linkCreate fromRtUuid false) trivial ?_,?_⟩
      · rw [Op.apply,ht,Option.map_some]
      obtain ⟨hnone',hsome⟩ := Atom.linkCreate_clear hrouted hclear hcopy hno' ht
      exact ⟨hnone',fun l hl => ⟨(hsome l hl).2.1,(hsome l hl).2.2.1⟩⟩
    · cases link with
      | none =>
        dsimp only
        rw [Prog.pure_bind,if_neg (by decide)]
        exact spec_mono hnone (fun z h => ⟨h.1,h.2.1 rfl⟩) fun _ _ h => h
      | some l =>
        exact spec_mono (spec_tunnelFor hs l _ _ _) (fun z h => ⟨h.1,h.2.2 l rfl⟩) fun _ _ h => h

end Tunnels

section Migrate

variable {mp : Msgpuck} {ok : Op → Node → Prop} {s : Node}

theorem Node.Since.moves (w : Node) (h : Host) (hm : w.host.Moves h) (hw : s.Since false w) :
    s.Since false {w with host := h} := hw.quiet hm.quiet

/-- What is known of the messages that a computation sends. -/
theorem spec_hostSince {α : Type} {x : Atom α} {d : α → Bool}
    (hx : Ensures (s.Since false) x fun a => s.Since (d a)) :
    Spec ok (s.Since false) (Flow.host x : Flow mp α) fun a => s.Since (d a) := by
  refine spec_bind (spec_read (Q := fun w z => s.Since false z ∧ z=w) fun _ h => ⟨h,rfl⟩) fun w => ?_
  split
  swap
  · exact spec_undefined
  next a t ht =>
  refine spec_bind (Q := fun _ => s.Since (d a)) (spec_act ?_) fun _ => spec_pure _ fun _ h => h
  rintro z y hy _ ⟨hsince,rfl⟩
  cases hy
  have h := hx z a t ht hsince
  exact ⟨h.sent,h.transport,h.sends⟩

variable (hs : s.Ready)

include hs

/-- A migration, or the request for one, that is registered is sent. -/
theorem Atom.post_since {m : Outgoing} (hm : m.kind=.migration) (id : Bytes) (handler : Handler)
    (msgData : Option Ref) : Ensures (s.Since false) (do
      if (← addPendingMsg ⟨id,handler,msgData⟩)=.success then
        if (← send m)=.success then
          return .success
        removePendingMsg id
      return .fail : Atom Result) fun r => s.Since (decide (r=.success)) := by
  have hadd : Preserves (s.Since false) (addPendingMsg ⟨id,handler,msgData⟩) := by
    refine preserves_bind (preserves_allocN Node.Since.moves 3) fun b => ?_
    split
    · exact preserves_pure _
    · refine preserves_bind ?_ fun _ => preserves_pure _
      intro z _ t ht hz
      cases ht
      exact ⟨hz.sent,hz.transport,hz.sends⟩
  refine ensures_bind hadd fun r => ?_
  split
  swap
  · exact ensures_pure fun _ h => h
  intro z r' t ht hz
  obtain ⟨sent,u,hsend,ht⟩ := bind_eq_some.mp ht
  obtain ⟨rfl,-,hsent,htransport,hsends⟩ := send_ready (hz.ready hs) hsend
  cases ht
  obtain ⟨new,hnew,hno,hdone⟩ := hz.sent
  refine ⟨⟨new++[m],by rw [hsent,hnew,List.append_assoc],fun x hx => ?_,?_⟩,
    htransport.trans hz.transport,fun _ hb => hz.sends (hsends hb)⟩
  · rcases List.mem_append.mp hx with hx | hx
    · exact hno x hx
    · rw [List.mem_singleton.mp hx,hm]
      decide
  · exact iff_of_true ⟨m,by simp,hm⟩ (by decide)

/-- `cc_actor_migrate` reports success exactly when the actor is sent. -/
theorem actorMigrate_since (a : Ref) (toRtUuid : Bytes) :
    Spec ok (s.Since false) (Flow.actorMigrate mp a toRtUuid) fun r =>
      s.Since (decide (r=.success)) := by
  have hstep : ∀ op : Op, (∀ z, op.Calm Host.Quiet z) →
      Spec ok (s.Since false) (act op : Flow mp Unit) fun _ => s.Since false :=
    fun op hop => spec_act fun z t ht _ hz => hz.step mp op (hop z) ht
  refine spec_bind (hstep (.callbackIfSet a) fun _ => trivial) fun _ =>
    spec_bind (hstep (.disconnectPorts a) fun _ => trivial) fun _ =>
      spec_bind (spec_hostSince (d := fun _ => false) ?_) fun id =>
        spec_bind (Q := fun _ => s.Since false) (spec_perform _ fun z d t ht _ hz => ?_) fun d => ?_
  · exact preserves_bind Atom.preserves_needTransport fun _ =>
      Atom.preserves_uuid Node.Since.moves _
  · exact hz.step mp (.serialize a false) trivial (by rw [Op.apply,ht,Option.map_some])
  · split
    · exact spec_undefined
    · exact spec_hostSince (Atom.post_since hs rfl _ _ _)

/-- `cc_proto_send_req_match` reports success exactly when the request is sent. -/
theorem sendReqMatch_since (a : Ref) (requirements : Bytes) (requires : Bool) :
    Spec ok (s.Since false) (Flow.sendReqMatch mp a requirements requires) fun r =>
      s.Since (decide (r=.success)) := by
  have hsend : Spec ok (s.Since false) (Flow.host (do
      Atom.needTransport
      Atom.needProxy
      Atom.request (.reqMatch (← Atom.actorId a)) .reqMatch none) : Flow mp Result) fun r =>
        s.Since (decide (r=.success)) := by
    refine spec_hostSince (ensures_bind Atom.preserves_needTransport fun _ =>
      ensures_bind Atom.preserves_needProxy fun _ => ensures_bind (Q := fun _ => s.Since false) ?_
        fun id => ensures_bind Atom.preserves_needTransport fun _ =>
          ensures_bind (Atom.preserves_uuid Node.Since.moves _) fun msgId =>
            Atom.post_since hs rfl _ _ _)
    refine preserves_bind (Atom.preserves_actor a) fun x => ?_
    split
    · exact Atom.preserves_undefined
    · exact preserves_pure _
  unfold Flow.sendReqMatch
  split <;> exact spec_bind (spec_ofOption _) fun _ => hsend

/-- The answer after a migration or the request for one. -/
theorem spec_outcome (r : Result) (id addressee : Bytes) :
    Spec ok (s.Since (decide (r=.success))) (if r=.success then
        Flow.host (Atom.send (.reply id addressee 200))
      else Flow.host (Atom.send (.reply id addressee 500)) : Flow mp Result) fun _ t =>
      ∃ status done, s.Replied (.reply id addressee status) done t ∧ status<65536 ∧
        (status=200 ↔ done=true) := by
  split
  · next hr =>
    refine spec_mono (spec_answer (Q := fun _ => True) hs _ _ fun _ _ h => h) (fun _ h => ⟨h,trivial⟩)
      fun _ t h => ⟨200,_,h.1,by decide,?_⟩
    simp [hr]
  · next hr =>
    refine spec_mono (spec_answer (Q := fun _ => True) hs _ _ fun _ _ h => h) (fun _ h => ⟨h,trivial⟩)
      fun _ t h => ⟨500,_,h.1,by decide,?_⟩
    simp [hr]

/-- An answer that turns a request down. -/
theorem spec_refusal (id addressee : Bytes) {status : Nat} (hstatus : status ≠ 200)
    (hsmall : status<65536) :
    Spec ok (s.Since false) (do
      let _ ← Flow.host (Atom.send (.reply id addressee status))
      return Result.fail : Flow mp Result) fun _ t =>
      ∃ status done, s.Replied (.reply id addressee status) done t ∧ status<65536 ∧
        (status=200 ↔ done=true) :=
  spec_bind (spec_mono (spec_answer (Q := fun _ => True) hs false _ fun _ _ h => h)
    (fun _ h => ⟨h,trivial⟩) fun _ _ h => h) fun _ => spec_pure _ fun t h =>
      ⟨status,false,h.1,hsmall,iff_of_false hstatus (by decide)⟩

theorem parseActorMigrate_replies {root : Bytes} {fromRtUuid msgUuid : Text}
    (hfrom : Coder.decodeStringFromMap mp root (ascii "from_rt_uuid")=some (some fromRtUuid))
    (hid : Coder.decodeStringFromMap mp root (ascii "msg_uuid")=some (some msgUuid)) :
    Spec ok (fun z => z=s) (Flow.parseActorMigrate mp root) fun _ t => ∃ id status done,
      msgUuid.copy uuidBufferSize=some id ∧ s.Replied (.reply id fromRtUuid.content status) done t ∧
      status<65536 ∧ (status=200 ↔ done=true) := by
  simp only [Flow.parseActorMigrate,Flow.bind_text hfrom,Flow.bind_text hid]
  refine spec_bind (spec_ofOption_eq _) fun id => ?_
  refine spec_have (fun z h => h.2) fun hcopy => ?_
  refine spec_mono (P := s.Since false) (Q := fun _ t => ∃ status done,
    s.Replied (.reply id fromRtUuid.content status) done t ∧ status<65536 ∧
    (status=200 ↔ done=true)) ?_ (fun z h => h.1 ▸ .refl s) fun _ t h => ?_
  swap
  · obtain ⟨status,done,h⟩ := h
    exact ⟨id,status,done,hcopy,h⟩
  refine spec_bind (spec_ofOption _) fun actorId => ?_
  cases actorId with
  | none => exact spec_refusal hs _ _ (by decide) (by decide)
  | some actorId =>
  refine spec_bind (spec_mono (spec_look _) (fun _ h => h) fun _ _ h => h.1) fun found => ?_
  cases found with
  | none => exact spec_refusal hs _ _ (by decide) (by decide)
  | some a =>
  refine spec_bind (spec_ofOption _) fun b => ?_
  cases b with
  | true =>
    refine spec_bind (spec_ofOption _) fun peerNodeId => ?_
    cases peerNodeId with
    | none => exact spec_refusal hs _ _ (by decide) (by decide)
    | some peerNodeId => exact spec_bind (actorMigrate_since hs a _) fun r => spec_outcome hs r _ _
  | false =>
    refine spec_bind (spec_ofOption _) fun requirements => ?_
    cases requirements with
    | none => exact spec_refusal hs _ _ (by decide) (by decide)
    | some requirements =>
    refine spec_bind (spec_mono (spec_look _) (fun _ h => h) fun _ _ h => h.1) fun x => ?_
    split
    · refine spec_bind (spec_hostSince (d := fun _ => false)
        (Atom.preserves_effect Node.Since.moves)) fun requires => ?_
      split
      · exact spec_refusal hs _ _ (by decide) (by decide)
      · exact spec_bind (sendReqMatch_since hs a _ _) fun r => spec_outcome hs r _ _
    · rw [Prog.pure_bind]
      exact spec_bind (sendReqMatch_since hs a _ _) fun r => spec_outcome hs r _ _

end Migrate

section Create

variable {mp : Msgpuck} {ok : TopOp → Node → Prop} {s : Node}

/-- The actors of the node, and what was sent so far. -/
def Node.Holding (s : Node) (actors : List Ref) (z : Node) : Prop :=
  s.Since false z ∧ z.actors=actors

variable {actors : List Ref}

theorem Node.Holding.keep (u t : Node) (hactors : t.actors=u.actors) (hq : u.host.Quiet t.host)
    (h : s.Holding actors u) : s.Holding actors t :=
  ⟨h.1.quiet hq,hactors.trans h.2⟩

theorem holding_flow {α : Type} {m : Flow mp α} (hm : Meets (Op.Calm Host.Quiet) m) :
    Spec ok (s.Holding actors) (Flow.toTop m) fun _ => s.Holding actors :=
  spec_lift _ (hm.spec (spec_of_invariant (fun _ _ _ hok hs hp =>
    Op.calm_preserves Node.Holding.keep hok hs hp) m))

theorem holding_build {α : Type} {a : Ref} {m : Build mp a α}
    (hm : Meets (BuildOp.Calm Host.Quiet) m) :
    Spec ok (s.Holding actors) (Build.toTop m) fun _ => s.Holding actors :=
  spec_lift _ (hm.spec (spec_of_invariant (fun _ _ _ hok hs hp =>
    BuildOp.calm_preserves Node.Holding.keep hok hs hp) m))

theorem actorConnectPorts_holding (a : Ref) :
    Spec ok (s.Holding actors) (Top.actorConnectPorts mp a) fun _ => s.Holding actors := by
  refine spec_bind (Q := fun _ => s.Holding actors) (spec_act fun z t ht _ hz => ?_) fun _ =>
    spec_bind (spec_mono (spec_look _) (fun _ h => h) fun _ _ h => h.1) fun x =>
      spec_bind (holding_flow (connectEach_calm _)) fun enabled => spec_act fun z t ht _ hz => ?_
  · cases ht
    exact hz
  · exact preserves_state ht (calm_setActorState Node.Holding.keep a _) hz

/-- An actor that is given up is in no list. -/
theorem actorReject_holding (a : Ref) :
    Spec ok (s.Holding s.actors) (Top.actorReject mp a) fun r t =>
      s.Since false t ∧ r=none ∧ t.actors.Sublist s.actors := by
  refine spec_bind (Q := fun _ t => s.Since false t ∧ t.actors.Sublist s.actors)
    (spec_act fun z t ht _ hz => ?_) fun _ => spec_pure _ fun _ h => ⟨h.1,rfl,h.2⟩
  obtain ⟨⟨⟨⟩,t'⟩,hfree,he⟩ := Option.map_eq_some_iff.mp ht
  cases he
  refine ⟨actorFree_calm (fun u t hq h => h.quiet hq) a false z _ _ hfree hz.1,?_⟩
  obtain ⟨v,w,x,host,-,-,-,-,rfl⟩ := Atom.actorFree_eq hfree
  exact hz.2 ▸ List.eraseP_sublist

/-- `cc_actor_create` gives an actor exactly when the node has one more. -/
theorem actorCreate_created (root : Bytes) :
    Spec ok (fun z => z=s) (Top.actorCreate mp root) fun r t =>
      s.Since false t ∧ (r.isSome=true ↔ ∃ a, t.actors=s.actors++[a]) := by
  have hless : ∀ {t : Node}, t.actors.Sublist s.actors → ¬∃ a, t.actors=s.actors++[a] := by
    rintro t hsub ⟨a,ha⟩
    have hlen := hsub.length_le
    rw [ha,List.length_append,List.length_singleton] at hlen
    omega
  have hreject : ∀ a, Spec ok (s.Holding s.actors) (Top.actorReject mp a) fun r t =>
      s.Since false t ∧ (r.isSome=true ↔ ∃ a, t.actors=s.actors++[a]) := by
    refine fun a => spec_mono (actorReject_holding a) (fun _ h => h) ?_
    rintro r t ⟨hsince,rfl,hsub⟩
    exact ⟨hsince,iff_of_false (by simp) (hless hsub)⟩
  refine spec_bind (spec_ofOption _) fun objState => ?_
  split
  swap
  · exact spec_undefined
  refine spec_bind (spec_ofOption _) fun type => ?_
  split
  swap
  · exact spec_undefined
  refine spec_bind (Q := fun _ => s.Holding s.actors) (spec_perform _ ?_) fun found => ?_
  · rintro z r t ht _ rfl
    exact calm_actorCreateFromType Node.Holding.keep _ z r t ht ⟨.refl z,rfl⟩
  cases found with
  | none =>
    refine spec_pure _ fun t h => ⟨h.1,iff_of_false (by simp) (hless ?_)⟩
    rw [h.2]
  | some a =>
    refine spec_bind (holding_build (meets_bind (actorFill_calm _) fun b =>
      meets_bind (actorTidy_calm b) fun _ => meets_pure _)) fun b => ?_
    unfold Top.actorFinish
    split
    · exact hreject a
    refine spec_bind (Q := fun b z => s.Holding (if b then s.actors++[a] else s.actors) z)
      (spec_perform _ ?_) fun b => ?_
    · intro z b t ht _ hz
      obtain ⟨c,u,halloc,ht⟩ := Atom.bind_eq_some.mp ht
      have hu := Atom.preserves_alloc (P := s.Holding s.actors)
        (fun w h hm hw => ⟨hw.1.quiet hm.quiet,hw.2⟩) z c u halloc hz
      split at ht
      · cases ht
        exact hu
      · cases ht
        exact ⟨⟨hu.1.sent,hu.1.transport,hu.1.sends⟩,by rw [← hu.2]; rfl⟩
    · cases b with
      | false => exact hreject a
      | true =>
        have hdone : Spec ok (s.Holding (s.actors++[a])) (pure (some a) : Top mp (Option Ref))
            fun r t => s.Since false t ∧ (r.isSome=true ↔ ∃ a, t.actors=s.actors++[a]) :=
          spec_pure _ fun t h => ⟨h.1,iff_of_true rfl ⟨a,h.2⟩⟩
        refine spec_bind (Q := fun _ => s.Holding (s.actors++[a])) ?_ fun _ => hdone
        change Spec ok (s.Holding (s.actors++[a])) _ _
        refine spec_bind (spec_mono (spec_look _) (fun _ h => h) fun _ _ h => h.1) fun x => ?_
        split
        · exact actorConnectPorts_holding a
        · exact spec_pure _ fun _ h => h

/-- Without a state and a type nothing is created, and the cleanup is undefined. -/
theorem actorCreate_described (root : Bytes) :
    Spec ok (fun _ => True) (Top.actorCreate mp root) fun _ _ => ∃ objState type,
      Coder.getValueFromMap mp root (ascii "state")=some (some objState) ∧
      Coder.decodeStringFromMap mp objState (ascii "actor_type")=some (some type) := by
  refine spec_bind (spec_ofOption_eq _) fun v => spec_have (fun z h => h.2) fun hstate => ?_
  cases v with
  | none => exact spec_undefined
  | some objState =>
    refine spec_bind (spec_ofOption_eq _) fun x => spec_have (fun z h => h.2) fun htype => ?_
    cases x with
    | none => exact spec_undefined
    | some type => exact fun _ _ _ _ _ _ _ => ⟨objState,type,hstate,htype⟩

theorem parseActorNew_replies {root : Bytes} {fromRtUuid msgUuid : Text} (hs : s.Ready)
    (hfrom : Coder.decodeStringFromMap mp root (ascii "from_rt_uuid")=some (some fromRtUuid))
    (hid : Coder.decodeStringFromMap mp root (ascii "msg_uuid")=some (some msgUuid)) :
    Spec ok (fun z => z=s) (Top.parseActorNew mp root) fun _ t => ∃ id status,
      msgUuid.copy uuidBufferSize=some id ∧ s.Replied (.reply id fromRtUuid.content status) false t ∧
      status<65536 ∧ (status=200 ↔ ∃ a, t.actors=s.actors++[a]) ∧ ∃ objState type,
        Coder.getValueFromMap mp root (ascii "state")=some (some objState) ∧
        Coder.decodeStringFromMap mp objState (ascii "actor_type")=some (some type) := by
  rw [Top.parseActorNew,toTop_text hfrom,Prog.pure_bind]
  dsimp only
  rw [toTop_text hid,Prog.pure_bind]
  dsimp only
  refine spec_bind (spec_ofOption_eq _) fun id => spec_have (fun z h => h.2) fun hcopy =>
    spec_bind (spec_mono (spec_and (actorCreate_created root) (actorCreate_described root))
      (fun z h => ⟨h.1,trivial⟩) fun _ _ h => and_assoc.mp h) fun found => ?_
  refine spec_lift _ (spec_mono (spec_answer hs false _ fun z h hz => hz) (fun _ h => h) ?_)
  rintro r t ⟨hreply,hcreated,hdescribed⟩
  refine ⟨id,_,hcopy,hreply,by split <;> decide,?_,hdescribed⟩
  rw [← hcreated]
  split
  · next h => exact iff_of_true rfl h
  · next h => exact iff_of_false (by decide) h

end Create

namespace Node

/-- The id of an actor that is not freed. -/
def actorIdOf (s : Node) (a : Ref) : Option (Option Bytes) := (s.actorMem.get a).map Actor.id

/-- An actor of the node with the given id. -/
def Names (s : Node) (actorId : Text) (a : Ref) : Prop :=
  a ∈ s.actors ∧ ∃ id, s.actorIdOf a=some (some id) ∧ listIdMatches id actorId=true

/-- What destroying actors leaves of the actors of `s`: no other ones, the listed ones that are
left, and a list item of a freed actor once the wrong item was removed. -/
structure Razed (s u : Node) : Prop where
  known : ∀ a, u.actorIdOf a=none ∨ u.actorIdOf a=s.actorIdOf a
  actors : u.actors ⊆ s.actors
  left : (∀ a ∈ s.actors, u.actorIdOf a=none ∨ a ∈ u.actors) ∨ ∃ a ∈ u.actors, u.actorIdOf a=none

theorem Razed.refl (s : Node) : s.Razed s :=
  ⟨fun _ => .inr rfl,fun _ h => h,.inl fun _ h => .inr h⟩

end Node

namespace Atom

variable {s t u : Node} {a : Ref} {actorId : Text}

theorem actorId_eq {id : Bytes} (h : Atom.actorId a s=some (id,t)) :
    s.actorIdOf a=some (some id) ∧ t=s := by
  obtain ⟨x,v,hread,h₁⟩ := bind_eq_some.mp h
  obtain ⟨hx,rfl⟩ := actor_eq_some hread
  cases hi : x.id with
  | none =>
    rw [hi] at h₁
    cases h₁
  | some i =>
    rw [hi] at h₁
    cases h₁
    exact ⟨by rw [Node.actorIdOf,hx,Option.map_some,hi],rfl⟩

/-- What a lookup by id has seen. -/
theorem actorGet_names {found : Option Ref} (h : actorGet actorId s=some (found,t)) :
    (∀ a, found=some a → s.Names actorId a) ∧
    (found=none → ∀ a ∈ s.actors, s.actorIdOf a ≠ none ∧ ¬s.Names actorId a) := by
  have hin : ∀ as found u, actorGetIn actorId as s=some (found,u) →
      (∀ a, found=some a → a ∈ as ∧ ∃ id, s.actorIdOf a=some (some id) ∧
        listIdMatches id actorId=true) ∧
      (found=none → ∀ a ∈ as, ∃ id, s.actorIdOf a=some (some id) ∧
        listIdMatches id actorId=false) := by
    intro as
    induction as with
    | nil =>
      intro found u h
      cases h
      exact ⟨by simp,by simp⟩
    | cons b as ih =>
      intro found u h
      obtain ⟨id,v,hread,h₁⟩ := bind_eq_some.mp h
      obtain ⟨hid,rfl⟩ := actorId_eq hread
      split at h₁
      · next hmatch =>
        cases h₁
        refine ⟨?_,by simp⟩
        rintro a ⟨⟩
        exact ⟨List.mem_cons_self,id,hid,hmatch⟩
      · next hmatch =>
        obtain ⟨hsome,hnone⟩ := ih found u h₁
        refine ⟨fun a ha => ⟨List.mem_cons_of_mem _ (hsome a ha).1,(hsome a ha).2⟩,?_⟩
        intro hf a ha
        rcases List.mem_cons.mp ha with rfl | ha
        · exact ⟨id,hid,Bool.eq_false_iff.mpr hmatch⟩
        · exact hnone hf a ha
  obtain ⟨hsome,hnone⟩ := hin s.actors found t h
  refine ⟨hsome,fun hf a ha => ?_⟩
  obtain ⟨id,hid,hno⟩ := hnone hf a ha
  refine ⟨by simp [hid],?_⟩
  rintro ⟨-,id',hid',hmatch⟩
  cases hid.symm.trans hid'
  cases hno.symm.trans hmatch

/-- A freed actor has no id, the others keep theirs. -/
theorem actorFree_ids {removeFromRegistry : Bool} (h : actorFree a removeFromRegistry s=some ((),t)) :
    t.actors=s.actors.eraseP (unlinks s a) ∧
    ∀ b, t.actorIdOf b=if b=a then none else s.actorIdOf b := by
  obtain ⟨v,w,x,host,hview,-,-,hfree,rfl⟩ := actorFree_eq h
  obtain ⟨hmem,-,-,-⟩ := freePorts_ports hfree
  refine ⟨rfl,fun b => ?_⟩
  have hcore := congrArg (Option.map Actor.id) (hview.actor b)
  rw [Option.map_map,Option.map_map] at hcore
  change ((w.actorMem.free a).get b).map Actor.id=_
  rw [Heap.get_free,hmem]
  split
  · rfl
  · exact hcore

theorem unlinks_self {id : Bytes} (h : s.actorIdOf a=some (some id)) : unlinks s a a=true := by
  obtain ⟨x,hx,hid⟩ := Option.map_eq_some_iff.mp h
  simp [unlinks,hx,hid,listRemoveMatches,strncmpEq]

theorem unlinks_freed {b : Ref} (h : s.actorIdOf b=none) : unlinks s a b=false := by
  have hb : s.actorMem.get b=none := Option.map_eq_none_iff.mp h
  simp [unlinks,hb]

/-- Destroying one more actor. -/
theorem actorFree_razed {id : Bytes} {removeFromRegistry : Bool} (hu : s.Razed u)
    (ha : a ∈ u.actors) (hid : u.actorIdOf a=some (some id))
    (h : actorFree a removeFromRegistry u=some ((),t)) : s.Razed t := by
  obtain ⟨hactors,hids⟩ := actorFree_ids h
  refine ⟨fun b => ?_,fun b hb => hu.actors (List.mem_of_mem_eraseP (hactors ▸ hb)),?_⟩
  · rw [hids]
    split
    · exact .inl rfl
    · exact hu.known b
  rcases hu.left with hleft | ⟨b,hb,hfreed⟩
  swap
  · refine .inr ⟨b,?_,?_⟩
    · rw [hactors,List.mem_eraseP_of_neg (by simp [unlinks_freed hfreed])]
      exact hb
    · rw [hids]
      split
      · rfl
      · exact hfreed
  obtain ⟨e,l₁,l₂,-,-,hlist,herase⟩ := List.exists_of_eraseP ha (unlinks_self hid)
  rw [herase] at hactors
  have hothers : ∀ b, b ≠ e → b ∈ u.actors → b ∈ t.actors := by
    intro b hne hb
    rw [hlist] at hb
    rw [hactors]
    simpa [hne] using hb
  by_cases hea : e=a
  · subst hea
    refine .inl fun b hb => ?_
    rw [hids]
    by_cases hbe : b=e
    · exact .inl (if_pos hbe)
    · rw [if_neg hbe]
      exact (hleft b hb).imp_right (hothers b hbe)
  · exact .inr ⟨a,hothers a (Ne.symm hea) ha,by rw [hids,if_pos rfl]⟩

end Atom

section Destroy

variable {mp : Msgpuck} {ok : Op → Node → Prop} {s : Node}

/-- An actor of `s` with the given id was destroyed. -/
def Node.Destroyed (s : Node) (actorId : Text) (t : Node) : Prop :=
  ∃ a, s.Names actorId a ∧ t.actorMem.get a=none

variable (mp s) in
/-- The entry of the list is an id, and its actor was destroyed if there was one. -/
def EntryDone (objActorUuids : Bytes) (t : Node) (j : Nat) : Prop :=
  ∃ actorId, Coder.decodeStringFromArray mp objActorUuids j=some (some actorId) ∧
    ((∃ a, s.Names actorId a) → s.Destroyed actorId t)

variable {objActorUuids : Bytes}

theorem Node.Destroyed.keep {actorId : Text} {u t : Node} (h : s.Destroyed actorId u)
    (ht : ∀ a, u.actorIdOf a=none → t.actorIdOf a=none) : s.Destroyed actorId t := by
  obtain ⟨a,hname,ha⟩ := h
  exact ⟨a,hname,Option.map_eq_none_iff.mp (ht a (Option.map_eq_none_iff.mpr ha))⟩

/-- A lookup that fails in what is left of `s` fails in `s`, or its actors were destroyed. -/
theorem Node.Razed.destroyed {actorId : Text} {u v : Node} (hu : s.Razed u)
    (h : Atom.actorGet actorId u=some (none,v)) (hname : ∃ a, s.Names actorId a) :
    s.Destroyed actorId u := by
  obtain ⟨-,hnone⟩ := Atom.actorGet_names h
  obtain ⟨a,ha,id,hid,hmatch⟩ := hname
  rcases hu.left with hleft | ⟨b,hb,hfreed⟩
  swap
  · exact absurd hfreed (hnone rfl b hb).1
  rcases hleft a ha with hfreed | hlisted
  · exact ⟨a,⟨ha,id,hid,hmatch⟩,Option.map_eq_none_iff.mp hfreed⟩
  · refine absurd ⟨hlisted,id,?_,hmatch⟩ (hnone rfl a hlisted).2
    rcases hu.known a with hfreed | hsame
    · exact absurd hfreed (hnone rfl a hlisted).1
    · exact hsame.trans hid

theorem appDestroyLoop_destroys (n i : Nat) :
    Spec ok (fun u => s.Since false u ∧ s.Razed u ∧ ∀ j, j < i → EntryDone mp s objActorUuids u j)
      (Flow.appDestroyLoop mp objActorUuids n i) fun r t => s.Since false t ∧
        (r=.success → ∀ j, j < i+n → EntryDone mp s objActorUuids t j) ∧
        (r ≠ .success → ∃ j, j < i+n ∧ Coder.decodeStringFromArray mp objActorUuids j=some none) := by
  induction n generalizing i with
  | zero => exact spec_pure _ fun t h => ⟨h.1,fun _ => h.2.2,fun hne => absurd rfl hne⟩
  | succ n ih =>
    refine spec_bind (spec_ofOption_eq _) fun entry => spec_have (fun z h => h.2) fun hentry => ?_
    cases entry with
    | none => exact spec_pure _ fun t h => ⟨h.1.1,by simp,fun _ => ⟨i,by omega,hentry⟩⟩
    | some actorId =>
      have hnext : ∀ u, s.Since false u ∧ s.Razed u ∧ (∀ j, j < i → EntryDone mp s objActorUuids u j) ∧
          ((∃ a, s.Names actorId a) → s.Destroyed actorId u) →
          s.Since false u ∧ s.Razed u ∧ ∀ j, j < i+1 → EntryDone mp s objActorUuids u j := by
        rintro u ⟨hsince,hrazed,hdone,hlast⟩
        refine ⟨hsince,hrazed,fun j hj => ?_⟩
        rcases Nat.lt_succ_iff_lt_or_eq.mp hj with hj | rfl
        · exact hdone j hj
        · exact ⟨actorId,hentry,hlast⟩
      have hrest := ih (i+1)
      rw [show i+1+n=i+(n+1) by omega] at hrest
      refine spec_bind (spec_look _) fun found => ?_
      cases found with
      | none =>
        refine spec_mono hrest (fun u h => hnext u ?_) fun _ _ h => h
        obtain ⟨⟨⟨hsince,hrazed,hdone⟩,-⟩,v,hv⟩ := h
        exact ⟨hsince,hrazed,hdone,hrazed.destroyed hv⟩
      | some a =>
        refine spec_bind (spec_act ?_) fun _ => spec_mono hrest hnext fun _ _ h => h
        rintro u t ht _ ⟨⟨⟨hsince,hrazed,hdone⟩,-⟩,v,hv⟩
        obtain ⟨hfound,-⟩ := Atom.actorGet_names hv
        obtain ⟨ha,id,hid,hmatch⟩ := hfound a rfl
        obtain ⟨⟨⟨⟩,t'⟩,hlisted,he⟩ := Option.map_eq_some_iff.mp ht
        cases he
        obtain ⟨w,u',hget,hlisted⟩ := Atom.bind_eq_some.mp hlisted
        cases hget
        split at hlisted
        · next hno => exact absurd ha hno
        obtain ⟨-,hids⟩ := Atom.actorFree_ids hlisted
        have hkeep : ∀ b, u.actorIdOf b=none → t'.actorIdOf b=none := by
          intro b hb
          rw [hids,hb,ite_self]
        refine ⟨actorFree_calm (fun u t hq h => h.quiet hq) a true u _ _ hlisted hsince,
          Atom.actorFree_razed hrazed ha hid hlisted,fun j hj => ?_,fun _ => ?_⟩
        · obtain ⟨actorId',hentry',hdone'⟩ := hdone j hj
          exact ⟨actorId',hentry',fun h => (hdone' h).keep hkeep⟩
        · refine ⟨a,⟨hrazed.actors ha,id,?_,hmatch⟩,?_⟩
          · rcases hrazed.known a with hfreed | hsame
            · cases hfreed.symm.trans hid
            · exact hsame.symm.trans hid
          · exact Option.map_eq_none_iff.mp ((hids a).trans (if_pos rfl))

end Destroy

section Posted

variable {mp : Msgpuck} {ok : Op → Node → Prop} {s : Node}

/-- Every migration, or request for one, that was sent meets `P`. -/
def Node.Posted (s : Node) (P : Outgoing → Prop) (t : Node) : Prop :=
  ∃ new, t.host.sent=s.host.sent++new ∧ ∀ m ∈ new, m.kind=.migration → P m

variable {P : Outgoing → Prop} {t u : Node}

theorem Node.Posted.refl (s : Node) : s.Posted P s := ⟨[],by simp,by simp⟩

theorem Node.Posted.quiet (h : s.Posted P t) (hq : t.host.Quiet u.host) : s.Posted P u := by
  obtain ⟨new,hnew,hall⟩ := h
  obtain ⟨new',hnew',hkind⟩ := hq.sent
  refine ⟨new++new',by rw [hnew',hnew,List.append_assoc],fun m hm hm' => ?_⟩
  rcases List.mem_append.mp hm with hm | hm
  · exact hall m hm hm'
  · simp [hkind m hm] at hm'

theorem Node.Posted.send {m : Outgoing} {r : Result} (hm : m.kind=.migration → P m)
    (h : s.Posted P t) (hsend : Atom.send m t=some (r,u)) : s.Posted P u := by
  obtain ⟨new,hnew,hall⟩ := h
  have hadd : s.Posted P {t with host := {t.host with sent := t.host.sent++[m]}} := by
    refine ⟨new++[m],by simp [hnew],fun x hx hkind => ?_⟩
    rcases List.mem_append.mp hx with hx | hx
    · exact hall x hx hkind
    · rw [List.mem_singleton.mp hx] at hkind ⊢
      exact hm hkind
  unfold Atom.send at hsend
  split at hsend
  · cases hsend
    exact ⟨new,hnew,hall⟩
  · split at hsend <;> cases hsend
    · exact hadd
    · exact hadd
    · exact ⟨new,hnew,hall⟩

/-- What is sent from a node with such actors. -/
def Node.PostedBy (s : Node) (E : Heap Actor → Prop) (P : Outgoing → Prop) (t : Node) : Prop :=
  s.Posted P t ∧ E t.actorMem

variable {E : Heap Actor → Prop}

theorem Node.PostedBy.moves (w : Node) (h : Host) (hm : w.host.Moves h) (hw : s.PostedBy E P w) :
    s.PostedBy E P {w with host := h} := ⟨hw.1.quiet hm.quiet,hw.2⟩

theorem spec_hostPosted {α : Type} {x : Atom α} (hx : Preserves (s.PostedBy E P) x) :
    Spec ok (s.PostedBy E P) (Flow.host x : Flow mp α) fun _ => s.PostedBy E P := by
  refine spec_bind (spec_read (Q := fun w z => s.PostedBy E P z ∧ z=w) fun _ h => ⟨h,rfl⟩)
    fun w => ?_
  split
  swap
  · exact spec_undefined
  next a t ht =>
  refine spec_bind (Q := fun _ => s.PostedBy E P) (spec_act ?_) fun _ => spec_pure _ fun _ h => h
  rintro z y hy _ ⟨hposted,rfl⟩
  cases hy
  exact ⟨(hx z a t ht hposted).1,hposted.2⟩

theorem Atom.posts_send {m : Outgoing} (hm : m.kind=.migration → P m) :
    Preserves (s.PostedBy E P) (send m) := by
  intro z r t ht hz
  refine ⟨hz.1.send hm ht,?_⟩
  have hsame : t.actorMem=z.actorMem := by
    unfold send at ht
    split at ht
    · cases ht
      rfl
    · split at ht <;> cases ht <;> rfl
  rw [hsame]
  exact hz.2

theorem Atom.posts_registered {m : Outgoing} (hm : m.kind=.migration → P m) (id : Bytes)
    (handler : Handler) (msgData : Option Ref) : Preserves (s.PostedBy E P) (do
      if (← addPendingMsg ⟨id,handler,msgData⟩)=.success then
        if (← send m)=.success then
          return .success
        removePendingMsg id
      return .fail : Atom Result) := by
  refine preserves_bind (preserves_bind (preserves_allocN Node.PostedBy.moves 3) fun b => ?_)
    fun r => ?_
  · split
    · exact preserves_pure _
    · exact preserves_bind (fun z _ t ht hz => by cases ht; exact hz) fun _ => preserves_pure _
  split
  · refine preserves_bind (posts_send hm) fun r => ?_
    split
    · exact preserves_pure _
    · refine preserves_bind (fun z _ t ht hz => ?_) fun _ => preserves_pure _
      unfold removePendingMsg modifyHost at ht
      cases ht
      refine ⟨?_,hz.2⟩
      dsimp only
      split
      · exact hz.1
      · exact hz.1
  · exact preserves_pure _

/-- A migration names the actor and where it goes. -/
theorem actorMigrate_posts {a : Ref} {toRtUuid : Bytes} (hP : ∀ state, P (.actorNew a toRtUuid state)) :
    Spec ok (s.PostedBy (fun _ => True) P) (Flow.actorMigrate mp a toRtUuid) fun _ =>
      s.PostedBy (fun _ => True) P := by
  have hstep : ∀ op : Op, (∀ z, op.Calm Host.Quiet z) → ∀ z t, op.apply mp z=some t →
      s.PostedBy (fun _ => True) P z → s.PostedBy (fun _ => True) P t :=
    fun op hop z t ht hz => ⟨Op.calm_preserves (P := s.Posted P) (fun _ _ _ hq h => h.quiet hq)
      (hop z) ht hz.1,trivial⟩
  refine spec_bind (Q := fun _ => s.PostedBy (fun _ => True) P) (spec_act fun z t ht _ hz => hstep
    (.callbackIfSet a) (fun _ => trivial) z t ht hz) fun _ =>
      spec_bind (Q := fun _ => s.PostedBy (fun _ => True) P) (spec_act fun z t ht _ hz => hstep
        (.disconnectPorts a) (fun _ => trivial) z t ht hz) fun _ =>
          spec_bind (spec_hostPosted (preserves_bind Atom.preserves_needTransport fun _ =>
            Atom.preserves_uuid Node.PostedBy.moves _)) fun id =>
              spec_bind (Q := fun _ => s.PostedBy (fun _ => True) P) (spec_perform _ fun z d t ht _ hz =>
                hstep (.serialize a false) (fun _ => trivial) z t
                  (by rw [Op.apply,ht,Option.map_some]) hz) fun d => ?_
  split
  · exact spec_undefined
  · exact spec_hostPosted (Atom.posts_registered (fun _ => hP _) _ _ _)

/-- A request for a match names the actor. -/
theorem sendReqMatch_posts {a : Ref} (requirements : Bytes) (requires : Bool)
    (hP : ∀ id, s.actorIdOf a=some (some id) → P (.reqMatch id)) :
    Spec ok (s.PostedBy (·=s.actorMem) P) (Flow.sendReqMatch mp a requirements requires) fun _ =>
      s.PostedBy (·=s.actorMem) P := by
  have hsend : Spec ok (s.PostedBy (·=s.actorMem) P) (Flow.host (do
      Atom.needTransport
      Atom.needProxy
      Atom.request (.reqMatch (← Atom.actorId a)) .reqMatch none) : Flow mp Result) fun _ =>
        s.PostedBy (·=s.actorMem) P := by
    refine spec_hostPosted (preserves_bind Atom.preserves_needTransport fun _ =>
      preserves_bind Atom.preserves_needProxy fun _ => ensures_bind (Q := fun id z =>
        s.PostedBy (·=s.actorMem) P z ∧ s.actorIdOf a=some (some id)) ?_ fun id =>
          ensures_given fun hid => preserves_bind Atom.preserves_needTransport fun _ =>
            preserves_bind (Atom.preserves_uuid Node.PostedBy.moves _) fun _ =>
              Atom.posts_registered (fun _ => hP id hid) _ _ _)
    intro z id t ht hz
    obtain ⟨hid,hsame⟩ := Atom.actorId_eq ht
    have hmem : z.actorMem=s.actorMem := hz.2
    subst hsame
    exact ⟨hz,by rw [Node.actorIdOf,← hmem]; exact hid⟩
  unfold Flow.sendReqMatch
  split <;> exact spec_bind (spec_ofOption _) fun _ => hsend

variable (mp) in
/-- The message that the sender of a request to migrate asks for. -/
def Node.Requested (s : Node) (root : Bytes) (m : Outgoing) : Prop :=
  ∃ actorId a, Coder.decodeStringFromMap mp root (ascii "actor_id")=some (some actorId) ∧
    s.Names actorId a ∧ ((∃ peerNodeId state,
      Coder.decodeStringFromMap mp root (ascii "peer_node_id")=some (some peerNodeId) ∧
      m=.actorNew a peerNodeId.content state) ∨
    ∃ id, s.actorIdOf a=some (some id) ∧ m=.reqMatch id)

/-- A request to migrate leads to no other migration. -/
theorem parseActorMigrate_posts (root : Bytes) :
    Spec ok (fun z => z=s) (Flow.parseActorMigrate mp root) fun _ t =>
      s.Posted (s.Requested mp root) t := by
  have hreply : ∀ {E : Heap Actor → Prop} (id addressee : Bytes) (status : Nat),
      Spec ok (s.PostedBy E (s.Requested mp root))
        (Flow.host (Atom.send (.reply id addressee status)) : Flow mp Result) fun _ t =>
          s.Posted (s.Requested mp root) t :=
    fun id addressee status => spec_mono (spec_hostPosted (Atom.posts_send (by simp [Outgoing.kind])))
      (fun _ h => h) fun _ _ h => h.1
  have hrefuse : ∀ {E : Heap Actor → Prop} (id addressee : Bytes) (status : Nat),
      Spec ok (s.PostedBy E (s.Requested mp root)) (do
        let _ ← Flow.host (Atom.send (.reply id addressee status))
        return Result.fail : Flow mp Result) fun _ t => s.Posted (s.Requested mp root) t :=
    fun id addressee status => spec_bind (hreply id addressee status) fun _ => spec_pure _ fun _ h => h
  have hstop : ∀ r : Result, Spec ok (fun z => z=s) (pure r : Flow mp Result) fun _ t =>
      s.Posted (s.Requested mp root) t := fun r => spec_pure _ fun z hz => hz ▸ .refl _
  have hself : ∀ z, z=s → s.PostedBy (·=s.actorMem) (s.Requested mp root) z := by
    rintro z rfl
    exact ⟨.refl z,rfl⟩
  refine spec_bind (spec_ofOption _) fun fromRtUuid => ?_
  cases fromRtUuid with
  | none => exact hstop _
  | some fromRtUuid =>
  refine spec_bind (spec_ofOption _) fun tmp => ?_
  cases tmp with
  | none => exact hstop _
  | some tmp =>
  refine spec_bind (spec_ofOption _) fun id => spec_bind (spec_ofOption_eq _) fun actorId =>
    spec_have (fun z h => h.2) fun hactor => spec_mono (P := fun z => z=s) ?_ (fun _ h => h.1)
      fun _ _ h => h
  cases actorId with
  | none => exact spec_mono (hrefuse _ _ _) hself fun _ _ h => h
  | some actorId =>
  refine spec_bind (Q := fun found z => z=s ∧ ∀ a, found=some a → s.Names actorId a)
    (spec_mono (spec_look _) (fun _ h => h) ?_) fun found => ?_
  · rintro found z ⟨rfl,t,ht⟩
    exact ⟨rfl,(Atom.actorGet_names ht).1⟩
  cases found with
  | none => exact spec_mono (hrefuse _ _ _) (fun z h => hself z h.1) fun _ _ h => h
  | some a =>
  refine spec_have (fun z h => h.2 a rfl) fun hname => spec_mono (P := fun z => z=s) ?_ (fun _ h => h.1)
    fun _ _ h => h
  refine spec_bind (spec_ofOption _) fun b => ?_
  cases b with
  | true =>
    refine spec_bind (spec_ofOption_eq _) fun peerNodeId => spec_have (fun z h => h.2) fun hpeer =>
      spec_mono (P := s.PostedBy (fun _ => True) (s.Requested mp root)) ?_
        (fun z h => ⟨h.1 ▸ .refl s,trivial⟩) fun _ _ h => h
    cases peerNodeId with
    | none => exact hrefuse _ _ _
    | some peerNodeId =>
      refine spec_bind (actorMigrate_posts fun state => ⟨actorId,a,hactor,hname,.inl
        ⟨peerNodeId,state,hpeer,rfl⟩⟩) fun r => ?_
      split <;> exact hreply _ _ _
  | false =>
    refine spec_mono (P := s.PostedBy (·=s.actorMem) (s.Requested mp root)) ?_ hself fun _ _ h => h
    refine spec_bind (spec_ofOption _) fun requirements => ?_
    cases requirements with
    | none => exact hrefuse _ _ _
    | some requirements =>
    have hmatch : ∀ requires, Spec ok (s.PostedBy (·=s.actorMem) (s.Requested mp root)) (do
        if (← Flow.sendReqMatch mp a requirements requires)=.success then
          Flow.host (Atom.send (.reply id fromRtUuid.content 200))
        else
          Flow.host (Atom.send (.reply id fromRtUuid.content 500)) : Flow mp Result) fun _ t =>
            s.Posted (s.Requested mp root) t := by
      intro requires
      refine spec_bind (sendReqMatch_posts _ _ fun id hid => ⟨actorId,a,hactor,hname,.inr
        ⟨id,hid,rfl⟩⟩) fun r => ?_
      split <;> exact hreply _ _ _
    refine spec_bind (spec_mono (spec_look _) (fun _ h => h) fun _ _ h => h.1) fun x => ?_
    split
    · refine spec_bind (spec_hostPosted (Atom.preserves_effect Node.PostedBy.moves)) fun requires => ?_
      dsimp only
      split
      · exact hrefuse _ _ _
      · exact hmatch _
    · rw [Prog.pure_bind]
      exact hmatch _

end Posted

end CalvinConstrained
