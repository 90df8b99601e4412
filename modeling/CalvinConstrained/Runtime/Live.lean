import CalvinConstrained.Runtime.Frame

namespace CalvinConstrained

/-- The actors of the node, their ports and the actors of these are there. -/
structure Linked (s : Node) : Prop where
  actors : ∀ a ∈ s.actors, ∃ x, s.actorMem.get a=some x
  ports : ∀ a x, s.actorMem.get a=some x → ∀ p ∈ x.ports, ∃ y, s.portMem.get p=some y
  owner : ∀ p x, s.portMem.get p=some x → ∃ y, s.actorMem.get x.actor=some y

/-- The tunnels and links of the node and the tunnels of its ports are there. -/
structure Routed (s : Node) : Prop where
  tunnels : ∀ t ∈ s.tunnels, ∃ x, s.tunnelMem.get t=some x
  links : ∀ l ∈ s.links, ∃ x, s.linkMem.get l=some x
  link : ∀ t x, s.tunnelMem.get t=some x → ∃ y, s.linkMem.get x.link=some y
  tunnel : ∀ p x t, s.portMem.get p=some x → x.tunnel=some t → ∃ y, s.tunnelMem.get t=some y

theorem SameView.port_after {β γ : Type} {f : Port → β} {g : Actor → γ} {s t : Node}
    (h : SameView f g s t) {p : Ref} {x : Port} (hx : s.portMem.get p=some x) :
    ∃ y, t.portMem.get p=some y ∧ f y=f x := by
  have hp := h.port p
  rw [hx,Option.map_some] at hp
  exact Option.map_eq_some_iff.mp hp

theorem SameView.actor_after {β γ : Type} {f : Port → β} {g : Actor → γ} {s t : Node}
    (h : SameView f g s t) {a : Ref} {x : Actor} (hx : s.actorMem.get a=some x) :
    ∃ y, t.actorMem.get a=some y ∧ g y=g x := by
  have ha := h.actor a
  rw [hx,Option.map_some] at ha
  exact Option.map_eq_some_iff.mp ha

/-- What links actors and ports is fixed at the creation of a port. -/
theorem Linked.of_sameView {s t : Node} (h : SameView Atom.fixedPart Actor.ports s t)
    (hs : Linked s) : Linked t where
  actors := by
    intro a ha
    rw [h.actors] at ha
    obtain ⟨x,hx⟩ := hs.actors a ha
    obtain ⟨y,hy,-⟩ := h.actor_after hx
    exact ⟨y,hy⟩
  ports := by
    intro a y hy p hp
    obtain ⟨x,hx,hports⟩ := h.actor_before hy
    rw [← hports] at hp
    obtain ⟨z,hz⟩ := hs.ports a x hx p hp
    obtain ⟨w,hw,-⟩ := h.port_after hz
    exact ⟨w,hw⟩
  owner := by
    intro p y hy
    obtain ⟨x,hx,hfixed⟩ := h.port_before hy
    have hactor : x.actor=y.actor := congrArg (fun r => r.2.2.2.2) hfixed
    obtain ⟨z,hz⟩ := hs.owner p x hx
    rw [hactor] at hz
    obtain ⟨w,hw,-⟩ := h.actor_after hz
    exact ⟨w,hw⟩

theorem Routed.of_host {s : Node} (h : Routed s) (host : Host) : Routed {s with host := host} :=
  ⟨h.tunnels,h.links,h.link,h.tunnel⟩

namespace Atom

variable {P : Node → Prop}

section Reads

theorem defined_port {p : Ref} (h : ∀ s, P s → ∃ x, s.portMem.get p=some x) :
    Defined P (port p) := by
  intro s hp
  obtain ⟨x,hx⟩ := h s hp
  exact ⟨x,s,by simp [port,hx]⟩

theorem defined_actor {a : Ref} (h : ∀ s, P s → ∃ x, s.actorMem.get a=some x) :
    Defined P (actor a) := by
  intro s hp
  obtain ⟨x,hx⟩ := h s hp
  exact ⟨x,s,by simp [actor,hx]⟩

theorem defined_tunnel {t : Ref} (h : ∀ s, P s → ∃ x, s.tunnelMem.get t=some x) :
    Defined P (tunnel t) := by
  intro s hp
  obtain ⟨x,hx⟩ := h s hp
  exact ⟨x,s,by simp [tunnel,hx]⟩

theorem defined_link {l : Ref} (h : ∀ s, P s → ∃ x, s.linkMem.get l=some x) :
    Defined P (link l) := by
  intro s hp
  obtain ⟨x,hx⟩ := h s hp
  exact ⟨x,s,by simp [link,hx]⟩

theorem defined_listRemove {idOf : Ref → Atom Bytes} {id : Bytes} {refs : List Ref}
    (hk : ∀ r, Preserves P (idOf r)) (h : ∀ r ∈ refs, Defined P (idOf r)) :
    Defined P (listRemove idOf id refs) := by
  induction refs with
  | nil => exact defined_pure _
  | cons r rs ih =>
    refine defined_seq (h r (by simp)) (hk r) fun b => ?_
    split
    · exact defined_pure _
    · exact defined_seq (ih fun r hr => h r (by simp [hr])) (preserves_listRemove hk _ _)
        fun _ => defined_pure _

theorem defined_portIn {portId : Text} {ps : List Ref}
    (h : ∀ s, P s → ∀ p ∈ ps, ∃ x, s.portMem.get p=some x) : Defined P (portIn portId ps) := by
  induction ps with
  | nil => exact defined_pure _
  | cons p ps ih =>
    refine defined_seq (defined_port fun s hs => h s hs p (by simp)) (preserves_port p) fun x => ?_
    split
    · exact defined_pure _
    · exact ih fun s hs q hq => h s hs q (by simp [hq])

theorem defined_portGet (portId : Text) : Defined Linked (portGet portId) := by
  have hfrom : ∀ as, Defined (fun s => Linked s ∧ ∀ a ∈ as, ∃ x, s.actorMem.get a=some x)
      (portGetFrom portId as) := by
    intro as
    induction as with
    | nil => exact defined_pure _
    | cons a as ih =>
      refine defined_bind (defined_actor fun s hs => hs.2 a (by simp)) (ensures_actor a) fun x => ?_
      refine defined_seq (defined_portIn fun s hs => hs.1.1.ports a x hs.2)
        (preserves_portIn portId _) fun q => ?_
      cases q with
      | none => exact defined_mono ih fun s hs => ⟨hs.1.1,fun b hb => hs.1.2 b (by simp [hb])⟩
      | some q => exact defined_pure _
  intro s hs
  exact hfrom s.actors s ⟨hs,hs.actors⟩

theorem defined_tunnelGetFromPeeridAndType (peerId : Text) (type : TunnelType) :
    Defined Routed (tunnelGetFromPeeridAndType peerId type) := by
  have hin : ∀ ts, Defined (fun s => Routed s ∧ ∀ t ∈ ts, ∃ x, s.tunnelMem.get t=some x)
      (tunnelGetFromPeeridIn peerId type ts) := by
    intro ts
    induction ts with
    | nil => exact defined_pure _
    | cons t ts ih =>
      have hrest : Defined (fun s => (Routed s ∧ ∀ r ∈ t::ts, ∃ x, s.tunnelMem.get r=some x))
          (tunnelGetFromPeeridIn peerId type ts) :=
        defined_mono ih fun s hs => ⟨hs.1,fun r hr => hs.2 r (by simp [hr])⟩
      refine defined_bind (defined_tunnel fun s hs => hs.2 t (by simp)) (ensures_tunnel t)
        fun x => ?_
      dsimp only
      split
      · refine defined_seq (defined_link fun s hs => hs.1.1.link t x hs.2) (preserves_link _)
          fun y => ?_
        split
        · exact defined_pure _
        · exact defined_mono hrest fun s hs => hs.1
      · exact defined_mono hrest fun s hs => hs.1
  intro s hs
  exact hin s.tunnels s ⟨hs,hs.tunnels⟩

end Reads

section Host

theorem defined_alloc : Defined P alloc := by
  intro s _
  unfold alloc
  split
  · exact ⟨_,_,rfl⟩
  · exact ⟨_,_,rfl⟩

theorem defined_allocN (n : Nat) : Defined P (allocN n) := by
  have hall : Defined (fun _ => True) (allocN n) := by
    induction n with
    | zero => exact defined_pure _
    | succ n ih =>
      refine defined_bind defined_alloc (fun _ _ _ _ _ => trivial) fun b => ?_
      split
      · exact defined_pure _
      · exact ih
  exact defined_mono hall fun _ _ => trivial

theorem defined_modifyHost (f : Host → Host) : Defined P (modifyHost f) := fun _ _ => ⟨_,_,rfl⟩

theorem defined_send (m : Outgoing) : Defined P (send m) := by
  intro s _
  unfold send
  split
  · exact ⟨_,_,rfl⟩
  · split <;> exact ⟨_,_,rfl⟩

/-- A request only needs a transport. -/
theorem defined_request (m : Outgoing) (handler : Handler) (msgData : Option Ref)
    (h : ∀ s, P s → ∃ t, s.host.transport=some t) : Defined P (request m handler msgData) := by
  have hadd : ∀ m, Defined (fun _ => True) (addPendingMsg m) := by
    intro m
    refine defined_bind (defined_allocN 3) (fun _ _ _ _ _ => trivial) fun b => ?_
    split
    · exact defined_pure _
    · exact defined_bind (defined_modifyHost _) (fun _ _ _ _ _ => trivial) fun _ => defined_pure _
  have huuid : Defined (fun _ => True) (uuid (ascii "MSGID_")) := by
    intro s _
    unfold uuid
    split
    · exact ⟨_,_,rfl⟩
    · exact ⟨_,_,rfl⟩
  have hneed : Defined P needTransport := by
    intro s hs
    obtain ⟨t,ht⟩ := h s hs
    exact ⟨(),s,by simp [needTransport,ht]⟩
  refine defined_bind hneed (Q := fun _ _ => True) (fun _ _ _ _ _ => trivial) fun _ =>
    defined_bind huuid (Q := fun _ _ => True) (fun _ _ _ _ _ => trivial) fun msgUuid =>
      defined_bind (hadd _) (Q := fun _ _ => True) (fun _ _ _ _ _ => trivial) fun result => ?_
  split
  · refine defined_bind (defined_send m) (Q := fun _ _ => True) (fun _ _ _ _ _ => trivial)
      fun result => ?_
    split
    · exact defined_pure _
    · exact defined_bind (defined_modifyHost _) (Q := fun _ _ => True) (fun _ _ _ _ _ => trivial)
        fun _ => defined_pure _
  · exact defined_pure _

end Host

section Traffic

variable (hP : ∀ s pending fate sent, P s → P {s with host := {s.host with
  pendingMsgs := pending
  fate := fate
  sent := sent}})

include hP

theorem keeps_alloc : Preserves P alloc := by
  intro s b t h hs
  unfold alloc at h
  split at h
  · cases h
    exact hs
  · cases h
    exact hP s _ _ _ hs

theorem keeps_allocN (n : Nat) : Preserves P (allocN n) := by
  induction n with
  | zero => exact preserves_pure _
  | succ n ih =>
    refine preserves_bind (keeps_alloc hP) fun b => ?_
    split
    · exact preserves_pure _
    · exact ih

theorem keeps_uuid (pre : Bytes) : Preserves P (uuid pre) := by
  intro s b t h hs
  unfold uuid at h
  split at h
  · cases h
    exact hs
  · cases h
    exact hP s _ _ _ hs

theorem keeps_send (m : Outgoing) : Preserves P (send m) := by
  intro s b t h hs
  unfold send at h
  split at h
  · cases h
    exact hs
  · split at h <;> cases h <;> exact hP s _ _ _ hs

theorem keeps_removePendingMsg (msgUuid : Bytes) : Preserves P (removePendingMsg msgUuid) := by
  intro s b t h hs
  unfold removePendingMsg modifyHost at h
  cases h
  dsimp only
  split
  · exact hP s _ _ _ hs
  · exact hs

theorem keeps_addPendingMsg (m : PendingMsg) : Preserves P (addPendingMsg m) := by
  refine preserves_bind (keeps_allocN hP 3) fun b => ?_
  split
  · exact preserves_pure _
  · refine preserves_bind ?_ fun _ => preserves_pure _
    intro s b t h hs
    cases h
    exact hP s _ _ _ hs

theorem keeps_request (m : Outgoing) (handler : Handler) (msgData : Option Ref) :
    Preserves P (request m handler msgData) := by
  refine preserves_bind preserves_needTransport fun _ => preserves_bind (keeps_uuid hP _)
    fun msgUuid => preserves_bind (keeps_addPendingMsg hP _) fun result => ?_
  split
  · refine preserves_bind (keeps_send hP m) fun result => ?_
    split
    · exact preserves_pure _
    · exact preserves_bind (keeps_removePendingMsg hP _) fun _ => preserves_pure _
  · exact preserves_pure _

theorem keeps_sendTunnelDestroy (x : Tunnel) : Preserves P (sendTunnelDestroy x) := by
  refine preserves_bind preserves_get fun s => ?_
  dsimp only
  split
  · exact preserves_bind (preserves_link _) fun _ =>
      preserves_bind (keeps_request hP _ _ _) fun _ => preserves_pure _
  · exact preserves_pure _

variable (hG : ∀ s t, SameGraph s t → t.host=s.host → P s → P t)

include hG

omit hP in
theorem keeps_linkRemoveRef (l : Ref) : Preserves P (linkRemoveRef l) := by
  refine preserves_bind (preserves_link l) fun x => preserves_bind ?_ fun _ => ?_
  · intro s b t h hs
    cases h
    exact hG s _ ⟨rfl,rfl,rfl,.refl⟩ rfl hs
  · split
    · exact preserves_bind (preserves_link l) fun _ => preserves_bind preserves_get fun _ =>
        preserves_bind (preserves_listRemove (fun r => preserves_bind (preserves_link r)
          fun _ => preserves_pure _) _ _) fun _ =>
            preserves_modify fun s hs => hG s _ ⟨rfl,rfl,rfl,.refl⟩ rfl hs
    · exact preserves_pure _

theorem keeps_tunnelRemoveRef (t : Ref) : Preserves P (tunnelRemoveRef t) := by
  have hset : ∀ x, Preserves P (setTunnel t x) := by
    intro x s b u h hs
    cases h
    exact hG s _ ⟨rfl,rfl,rfl,.refl⟩ rfl hs
  have hunlink : ∀ id, Preserves P (tunnelUnlink t id) := fun id =>
    preserves_bind preserves_get fun _ =>
      preserves_bind (preserves_listRemove (fun r => preserves_bind (preserves_tunnel r)
        fun _ => preserves_pure _) _ _) fun _ =>
          preserves_modify fun s hs => hG s _ ⟨rfl,rfl,rfl,.refl⟩ rfl hs
  refine preserves_bind (preserves_tunnel t) fun x => preserves_bind (hset _) fun _ => ?_
  split
  · exact preserves_bind (keeps_sendTunnelDestroy hP x) fun _ =>
      preserves_bind (preserves_tunnel t) fun _ =>
        preserves_bind (keeps_linkRemoveRef hG _) fun _ => hunlink _
  · exact preserves_pure _

theorem keeps_portDetach (p : Ref)
    (hU : Preserves P (updatePort p fun x => {x with tunnel := none})) :
    Preserves P (portDetach p) := by
  refine preserves_bind (preserves_port p) fun x => ?_
  split
  · exact preserves_pure _
  · exact preserves_bind (keeps_tunnelRemoveRef hP hG _) fun _ => hU

end Traffic

section Tunnels

theorem defined_sendTunnelDestroy {x : Tunnel} (h : ∀ s, P s → ∃ l, s.linkMem.get x.link=some l) :
    Defined P (sendTunnelDestroy x) := by
  intro s hs
  change ∃ a t, (if s.host.state ≠ .doSleep && s.host.transport.isSome then _ else _ : Atom Unit) s=
    some (a,t)
  split
  · next hcond =>
    have htransport : ∃ t, s.host.transport=some t := by
      simp only [Bool.and_eq_true] at hcond
      exact Option.isSome_iff_exists.mp hcond.2
    have hd : Defined (fun v => v=s) (do
        let _ ← link x.link
        let _ ← request (.tunnelDestroy x.id) .tunnelDestroy none : Atom Unit) := by
      refine defined_seq (defined_link fun v hv => hv ▸ h s hs) (preserves_link _) fun _ => ?_
      exact defined_bind (Q := fun _ _ => True)
        (defined_request _ _ _ fun v hv => hv ▸ htransport) (fun _ _ _ _ _ => trivial)
        fun _ => defined_pure _
    exact hd s rfl
  · exact ⟨_,_,rfl⟩

theorem defined_linkRemoveRef {l : Ref} :
    Defined (fun s => Routed s ∧ ∃ x, s.linkMem.get l=some x) (linkRemoveRef l) := by
  rintro s ⟨hs,x,hx⟩
  have hset : ∀ r, (∃ y, s.linkMem.get r=some y) →
      ∃ y, (s.linkMem.set l {x with refCount := x.refCount-1}).get r=some y := by
    rintro r ⟨y,hy⟩
    rw [Heap.get_set hx]
    split
    · exact ⟨_,rfl⟩
    · exact ⟨y,hy⟩
  let u : Node := {s with linkMem := s.linkMem.set l {x with refCount := x.refCount-1}}
  have hfree : Defined (fun v => v=u) (linkFree l) := by
    refine defined_seq (defined_link fun v hv => hv ▸ hset l ⟨x,hx⟩) (preserves_link _) fun y => ?_
    refine defined_bind defined_get (Q := fun v w => v=u ∧ w=u)
      (ensures_get fun v hv => ⟨hv,hv⟩) fun v => ?_
    refine defined_bind (Q := fun _ _ => True) (defined_listRemove
      (fun r => preserves_bind (preserves_link r) fun _ => preserves_pure _) fun r hr => ?_)
      (fun _ _ _ _ _ => trivial) fun _ => defined_modify _
    rintro w ⟨rfl,rfl⟩
    exact defined_bind (P := fun v => v=u) (Q := fun _ _ => True)
      (defined_link fun v hv => hv ▸ hset r (hs.links r hr)) (fun _ _ _ _ _ => trivial)
      (fun _ => defined_pure _) u rfl
  have hread : linkRemoveRef l s=
      (if x.refCount-1=0 then linkFree l else pure () : Atom Unit) u := by
    simp [linkRemoveRef,bind_apply,link,hx,setLink,u]
  rw [hread]
  split
  · exact hfree u rfl
  · exact ⟨_,_,rfl⟩

/-- Links are given up without a look at the tunnels. -/
theorem linkRemoveRef_tunnels {l : Ref} {s t : Node} (h : linkRemoveRef l s=some ((),t)) :
    t.tunnelMem=s.tunnelMem ∧ t.tunnels=s.tunnels := by
  obtain ⟨x,u,hread,h₁⟩ := bind_eq_some.mp h
  obtain ⟨hx,rfl⟩ := link_eq_some hread
  obtain ⟨⟨⟩,v,hset,h₂⟩ := bind_eq_some.mp h₁
  cases hset
  split at h₂
  · have hfree : Ensures (fun v => v.tunnelMem=u.tunnelMem ∧ v.tunnels=u.tunnels) (linkFree l)
        fun _ v => v.tunnelMem=u.tunnelMem ∧ v.tunnels=u.tunnels :=
      preserves_bind (preserves_link l) fun _ => preserves_bind preserves_get fun _ =>
        preserves_bind (preserves_listRemove (fun r => preserves_bind (preserves_link r)
          fun _ => preserves_pure _) _ _) fun _ => preserves_modify fun _ hv => hv
    exact hfree _ _ _ h₂ ⟨rfl,rfl⟩
  · cases h₂
    exact ⟨rfl,rfl⟩

theorem defined_tunnelFree {t : Ref} :
    Defined (fun s => Routed s ∧ ∃ x, s.tunnelMem.get t=some x) (tunnelFree t true) := by
  refine defined_bind (defined_tunnel fun s hs => hs.2) (ensures_tunnel t) fun x => ?_
  rintro s ⟨⟨hs,-⟩,hx⟩
  obtain ⟨⟨⟩,u,hremove⟩ := defined_linkRemoveRef s ⟨hs,hs.link t x hx⟩
  obtain ⟨hmem,hlist⟩ := linkRemoveRef_tunnels hremove
  have hunlink : Defined (fun v => v=u) (tunnelUnlink t x.id) := by
    refine defined_bind defined_get (Q := fun v w => v=u ∧ w=u)
      (ensures_get fun v hv => ⟨hv,hv⟩) fun v => ?_
    refine defined_bind (Q := fun _ _ => True) (defined_listRemove
      (fun r => preserves_bind (preserves_tunnel r) fun _ => preserves_pure _) fun r hr => ?_)
      (fun _ _ _ _ _ => trivial) fun _ => defined_modify _
    rintro w ⟨rfl,rfl⟩
    rw [hlist] at hr
    have hlive : ∃ y, w.tunnelMem.get r=some y := by
      rw [hmem]
      exact hs.tunnels r hr
    exact defined_bind (P := fun v => v=w) (Q := fun _ _ => True)
      (defined_tunnel fun v hv => hv ▸ hlive) (fun _ _ _ _ _ => trivial)
      (fun _ => defined_pure _) w rfl
  obtain ⟨⟨⟩,v,hv⟩ := hunlink u rfl
  refine ⟨(),v,?_⟩
  simp only [if_true,bind_apply,hremove,Option.bind_some]
  exact hv

/-- A reference to a tunnel can be given up. -/
theorem defined_tunnelRemoveRef {t : Ref} :
    Defined (fun s => Routed s ∧ ∃ x, s.tunnelMem.get t=some x) (tunnelRemoveRef t) := by
  rintro s ⟨hs,x,hx⟩
  let u : Node := {s with tunnelMem := s.tunnelMem.set t {x with refCount := x.refCount-1}}
  have hset : ∀ r y, s.tunnelMem.get r=some y → ∃ z, u.tunnelMem.get r=some z := by
    intro r y hy
    change ∃ z, (s.tunnelMem.set t _).get r=some z
    rw [Heap.get_set hx]
    split
    · exact ⟨_,rfl⟩
    · exact ⟨y,hy⟩
  have hu : Routed u := by
    refine ⟨fun r hr => ?_,hs.links,fun r y hy => ?_,fun p y r hp hr => ?_⟩
    · obtain ⟨y,hy⟩ := hs.tunnels r hr
      exact hset r y hy
    · change (s.tunnelMem.set t _).get r=some y at hy
      rw [Heap.get_set hx] at hy
      split at hy
      · cases hy
        exact hs.link t x hx
      · exact hs.link r y hy
    · obtain ⟨z,hz⟩ := hs.tunnel p y r hp hr
      exact hset r z hz
  have hread : tunnelRemoveRef t s=(if x.refCount-1=0 then do
      sendTunnelDestroy x
      tunnelFree t true else pure () : Atom Unit) u := by
    simp [tunnelRemoveRef,bind_apply,tunnel,hx,setTunnel,u]
  rw [hread]
  split
  · refine defined_bind (P := fun v => v=u)
      (Q := fun _ v => Routed v ∧ ∃ y, v.tunnelMem.get t=some y)
      (defined_sendTunnelDestroy fun v hv => hv ▸ hs.link t x hx) ?_ (fun _ => defined_tunnelFree)
      u rfl
    refine ensures_mono (preserves_sendTunnelDestroy (P := fun v =>
      Routed v ∧ ∃ y, v.tunnelMem.get t=some y) (fun v h _ hv => ⟨hv.1.of_host h,hv.2⟩) x)
      (fun v hv => hv ▸ ⟨hu,hset t x hx⟩) fun _ _ h => h
  · exact ⟨_,_,rfl⟩

end Tunnels

section Ports

/-- A port that is there stays there, and so do the links between ports and actors. -/
theorem linked_rules (p : Ref) :
    PeerRules (fun _ => True) fun s => Linked s ∧ ∃ x, s.portMem.get p=some x := by
  refine fixed_rules (g := Actor.ports) ?_ fun _ _ => rfl
  rintro s t h ⟨hs,x,hx⟩
  obtain ⟨y,hy,-⟩ := h.port_after hx
  exact ⟨hs.of_sameView h,y,hy⟩

theorem defined_updatePort {p : Ref} (f : Port → Port)
    (h : ∀ s, P s → ∃ x, s.portMem.get p=some x) : Defined P (updatePort p f) :=
  defined_seq (defined_port h) (preserves_port p) fun _ _ _ => ⟨_,_,rfl⟩

theorem defined_portsState {ps : List Ref} (h : ∀ s, P s → ∀ p ∈ ps, ∃ x, s.portMem.get p=some x) :
    Defined P (portsState ps) := by
  induction ps with
  | nil => exact defined_pure _
  | cons p ps ih =>
    refine defined_seq (defined_port fun s hs => h s hs p (by simp)) (preserves_port p) fun x => ?_
    dsimp only
    split
    · exact defined_pure _
    · split
      · exact defined_pure _
      · exact ih fun s hs q hq => h s hs q (by simp [hq])

theorem defined_actorPortStateChanged (a : Ref) :
    Defined (fun s => Linked s ∧ ∃ x, s.actorMem.get a=some x) (actorPortStateChanged a) := by
  refine defined_bind (defined_actor fun s hs => hs.2) (ensures_actor a) fun x => ?_
  refine defined_seq (defined_portsState fun s hs => hs.1.1.ports a x hs.2)
    (preserves_portsState _) fun state => ?_
  exact defined_seq (defined_actor fun s hs => ⟨x,hs.2⟩) (preserves_actor a) fun _ _ _ => ⟨_,_,rfl⟩

theorem defined_portSetState (p : Ref) (state : PortState) :
    Defined (fun s => Linked s ∧ ∃ x, s.portMem.get p=some x) (portSetState p state) := by
  have hview : ∀ a s t, SameView fixedPart Actor.ports s t → SameTunnels s t →
      (Linked s ∧ ∃ y, s.actorMem.get a=some y) → Linked t ∧ ∃ y, t.actorMem.get a=some y := by
    rintro a s t h - ⟨hs,y,hy⟩
    obtain ⟨z,hz,-⟩ := h.actor_after hy
    exact ⟨hs.of_sameView h,z,hz⟩
  refine defined_bind (defined_port fun s hs => hs.2) (ensures_port p) fun x => ?_
  refine defined_bind (Q := fun _ s => Linked s ∧ ∃ y, s.actorMem.get x.actor=some y)
    (fun _ _ => ⟨_,_,rfl⟩) ?_ fun _ => defined_actorPortStateChanged x.actor
  refine ensures_mono (ensures_setPort (hview x.actor) (x := x) rfl) ?_ fun _ _ h => h
  rintro s ⟨⟨hs,-⟩,hx⟩
  exact ⟨⟨hs,hs.owner p x hx⟩,hx⟩

theorem defined_portDetach (p : Ref) :
    Defined (fun s => Routed s ∧ ∃ x, s.portMem.get p=some x) (portDetach p) := by
  have hgraph : ∀ s t, SameGraph s t → (∃ x, s.portMem.get p=some x) → ∃ x, t.portMem.get p=some x :=
    fun s t h hx => h.1 ▸ hx
  refine defined_bind (defined_port fun s hs => hs.2) (ensures_port p) fun x => ?_
  cases hx : x.tunnel with
  | none => exact defined_pure _
  | some t =>
    refine defined_bind (Q := fun _ s => ∃ x, s.portMem.get p=some x)
      (defined_mono defined_tunnelRemoveRef fun s hs => ⟨hs.1.1,hs.1.1.tunnel p x t hs.2 hx⟩)
      (ensures_mono (preserves_tunnelRemoveRef hgraph t) (fun s hs => hs.1.2) fun _ _ h => h)
      fun _ => defined_updatePort _ fun _ h => h

theorem defined_portPeer (p q : Ref) :
    Defined (fun s => Linked s ∧ ∃ x, s.portMem.get p=some x) (portPeer p q) :=
  defined_seq defined_get preserves_get fun _ =>
    defined_seq (defined_updatePort _ fun _ hs => hs.2) ((linked_rules p).peer p q _ trivial trivial) fun _ =>
      defined_portSetState p _

/-- A port without a tunnel can be connected to a port of its node. -/
theorem defined_portConnectLocal (p : Ref) :
    Defined (fun s => Linked s ∧ Routed s ∧ ∃ x, s.portMem.get p=some x ∧ x.tunnel=none)
      (portConnectLocal p) := by
  refine defined_seq (defined_port fun s hs => ?_) (preserves_port p) fun x => ?_
  · obtain ⟨-,-,x,hx,-⟩ := hs
    exact ⟨x,hx⟩
  refine defined_bind (Q := fun r s => (Linked s ∧ Routed s ∧ ∃ x, s.portMem.get p=some x ∧
      x.tunnel=none) ∧ ∀ q, r=some q → ∃ y, s.portMem.get q=some y)
    (defined_mono (defined_portGet _) fun s hs => hs.1) ?_ fun r => ?_
  · intro s r t h hs
    obtain ⟨rfl,hfound⟩ := portGet_found h
    refine ⟨hs,fun q hq => ?_⟩
    obtain ⟨-,-,-,y,-,-,hy,-⟩ := hfound q hq
    exact ⟨y,hy⟩
  cases r with
  | none => exact defined_pure _
  | some q =>
    have hstay : Ensures (fun s => (Linked s ∧ Routed s ∧ ∃ x, s.portMem.get p=some x ∧
        x.tunnel=none) ∧ ∀ r, some q=some r → ∃ y, s.portMem.get r=some y) (portDetach p)
        fun _ s => (Linked s ∧ ∃ x, s.portMem.get p=some x) ∧ Routed s ∧
          ∃ y, s.portMem.get q=some y := by
      rintro s ⟨⟩ t h ⟨⟨hs,hr,x,hx,htunnel⟩,hq⟩
      obtain ⟨y,u,hread,h₁⟩ := bind_eq_some.mp h
      obtain ⟨hy,rfl⟩ := port_eq_some hread
      cases hx.symm.trans hy
      simp only [htunnel] at h₁
      cases h₁
      exact ⟨⟨hs,x,hx⟩,hr,hq q rfl⟩
    refine defined_bind (defined_mono (defined_portDetach p) fun s hs => ?_) hstay fun _ => ?_
    · obtain ⟨⟨-,hr,x,hx,-⟩,-⟩ := hs
      exact ⟨hr,x,hx⟩
    have hboth : ∀ {x : Atom Unit}, (∀ r, Preserves (fun s => Linked s ∧
        ∃ y, s.portMem.get r=some y) x) → Preserves (fun s => (Linked s ∧
          ∃ y, s.portMem.get p=some y) ∧ Linked s ∧ ∃ y, s.portMem.get q=some y) x :=
      fun hx => ensures_and (hx p) (hx q)
    refine defined_bind (defined_mono (defined_portDetach q) fun s hs => hs.2)
      (ensures_mono (hboth fun r => ((linked_rules r).port q trivial).detach) (fun s hs => ⟨hs.1,hs.1.1,hs.2.2⟩)
        fun _ _ h => h) fun _ => ?_
    refine defined_seq (defined_mono (defined_portPeer p q) fun s hs => hs.1)
      (hboth fun r => (linked_rules r).portPeer (p := p) (q := q) trivial trivial) fun _ => ?_
    exact defined_seq (defined_mono (defined_portPeer q p) fun s hs => hs.2)
      (hboth fun r => (linked_rules r).portPeer (p := q) (q := p) trivial trivial) fun _ => defined_pure _

theorem defined_portRestoreTunnel (p : Ref) (peerId : Text) :
    Defined (fun s => Linked s ∧ Routed s ∧ ∃ x, s.portMem.get p=some x)
      (portRestoreTunnel p peerId) := by
  refine defined_bind (Q := fun r s => (Linked s ∧ ∃ x, s.portMem.get p=some x) ∧
      ∀ t, r=some t → ∃ y, s.tunnelMem.get t=some y)
    (defined_mono (defined_tunnelGetFromPeeridAndType peerId .token) fun s hs => hs.2.1) ?_
    fun r => ?_
  · intro s r t h hs
    obtain ⟨rfl,hfound⟩ := tunnelGetFromPeeridAndType_found h
    refine ⟨⟨hs.1,hs.2.2⟩,fun q hq => ?_⟩
    obtain ⟨-,y,hy,-⟩ := hfound q hq
    exact ⟨y,hy⟩
  cases r with
  | none => exact defined_mono (defined_portSetState p _) fun s hs => hs.1
  | some t =>
    refine defined_bind (Q := fun _ s => ∃ y, s.tunnelMem.get t=some y)
      (defined_updatePort _ fun s hs => hs.1.2) ?_ fun _ =>
        defined_seq (defined_tunnel fun _ h => h) (preserves_tunnel t) fun _ _ _ => ⟨_,_,rfl⟩
    refine ensures_mono (preserves_updatePort (P := fun s => ∃ y, s.tunnelMem.get t=some y)
      (M := fun _ _ => True) (f := fun _ => ()) (g := fun _ => ()) ?_ p fun _ => rfl)
      (fun s hs => hs.2 t rfl)
      fun _ _ h => h
    rintro s u - ⟨htunnels,-⟩ h
    exact htunnels ▸ h

/-- One end of a local connection changes this port and the state of its actor. -/
theorem portPeer_ports {p q : Ref} {s t : Node} (h : portPeer p q s=some ((),t)) :
    t.host=s.host ∧ t.actors=s.actors ∧ SameTunnels s t ∧
    ∃ x y retries actorState, s.portMem.get p=some x ∧ s.actorMem.get x.actor=some y ∧
      t.actorMem=s.actorMem.set x.actor {y with state := actorState} ∧
      ∀ r, t.portMem.get r=if r=p then some {x with
          peerPort := some q
          peerId := s.host.id
          state := .enabled
          retries := retries}
        else s.portMem.get r := by
  obtain ⟨v,u,hget,h₁⟩ := bind_eq_some.mp h
  cases hget
  obtain ⟨⟨⟩,u,hupdate,h₂⟩ := bind_eq_some.mp h₁
  obtain ⟨x,hx,rfl⟩ := updatePort_eq hupdate
  obtain ⟨z,y,actorState,hz,hy,rfl⟩ := portSetState_eq h₂
  change (s.portMem.set p _).get p=some z at hz
  have hset := Heap.get_set hx {x with peerPort := some q,peerId := s.host.id}
  rw [hset,if_pos rfl,Option.some.injEq] at hz
  subst z
  refine ⟨rfl,rfl,.refl s,x,y,if x.state ≠ .enabled then 0 else x.retries,actorState,hx,hy,rfl,
    fun r => ?_⟩
  change ((s.portMem.set p _).set p _).get r=_
  rw [Heap.get_set (b := {x with peerPort := some q,peerId := s.host.id})
    ((hset p).trans (if_pos rfl)),hset]
  split
  · simp
  · rfl

end Ports

end Atom

end CalvinConstrained
