import CalvinConstrained.Framework.Stateful
import CalvinConstrained.Runtime.Ops

namespace CalvinConstrained

/-- What a message of the node is: the answer to a request, the request that moves an actor
or asks where to, or something else. -/
inductive Outgoing.Kind
  | reply
  | migration
  | notice
  deriving DecidableEq

def Outgoing.kind : Outgoing → Kind
  | .reply _ _ _ => .reply
  | .tunnelNewReply _ _ _ _ => .reply
  | .portConnectReply _ _ _ _ => .reply
  | .portDisconnectReply _ _ _ => .reply
  | .actorNew _ _ _ => .migration
  | .reqMatch _ => .migration
  | _ => .notice

/-- What the host goes through while messages are sent: platform calls, messages, and
requests that are entered and withdrawn. Neither answers to requests nor the requests that
move an actor are among them. -/
inductive Host.Moves (h : Host) : Host → Prop
  | refl : Moves h h
  | fate {k : Host} (f : Fate) (hf : f.sends ⊆ k.fate.sends) (hk : Moves h k) :
      Moves h {k with fate := f}
  | sent {k : Host} (m : Outgoing) (hm : m.kind=.notice) (hk : Moves h k) :
      Moves h {k with sent := k.sent++[m]}
  | register {k : Host} (id : Bytes) {handler : Handler} (hne : handler ≠ .actorMigrate)
      (hk : Moves h k) :
      Moves h {k with pendingMsgs := k.pendingMsgs++[⟨id,handler,none⟩]}
  | withdraw {k : Host} (id : Bytes) (hk : Moves h k) :
      Moves h {k with pendingMsgs := Atom.removeById PendingMsg.msgUuid id k.pendingMsgs}

theorem Host.Moves.trans {h k l : Host} (hk : h.Moves k) (hl : k.Moves l) : h.Moves l := by
  induction hl with
  | refl => exact hk
  | fate f hf _ ih => exact .fate f hf ih
  | sent m hm _ ih => exact .sent m hm ih
  | register id hne _ ih => exact .register id hne ih
  | withdraw id _ ih => exact .withdraw id ih

/-- Ports, actors and the list of actors are as in `s`. -/
def SameGraph (s t : Node) : Prop :=
  t.portMem=s.portMem ∧ t.actorMem=s.actorMem ∧ t.actors=s.actors ∧ s.host.Moves t.host

theorem SameGraph.refl (s : Node) : SameGraph s s := ⟨rfl,rfl,rfl,.refl⟩

theorem SameGraph.trans {s t u : Node} (h : SameGraph s t) (k : SameGraph t u) : SameGraph s u :=
  ⟨k.1.trans h.1,k.2.1.trans h.2.1,k.2.2.1.trans h.2.2.1,h.2.2.2.trans k.2.2.2⟩

/-- Tunnels, links and their holders in the node are as in `s`. -/
def SameTunnels (s t : Node) : Prop :=
  t.tunnelMem=s.tunnelMem ∧ t.linkMem=s.linkMem ∧ t.tunnels=s.tunnels ∧ t.links=s.links ∧
  t.storageTunnel=s.storageTunnel ∧ t.proxyTunnel=s.proxyTunnel

/-- Nothing but the host differs from `s`. -/
def SameObjects (s t : Node) : Prop := t={s with host := t.host}

/-- An actor without what its callbacks and its serialization change. -/
def Actor.core (x : Actor) : Actor := {x with instanceState := none,privateAttributes := []}

/-- The fields of an actor that its callbacks and its description leave alone. -/
def Actor.shape (x : Actor) : Bool × ActorState × List Ref × List Ref :=
  (x.loaded,x.state,x.inPorts,x.outPorts)

theorem Actor.shape_of_core {x y : Actor} (h : x.core=y.core) : x.shape=y.shape := by
  unfold core at h
  injection h with _ _ _ _ hstate hloaded _ hin hout
  rw [shape,shape,hloaded,hstate,hin,hout]

theorem Actor.ports_withPort (x : Actor) (direction : PortDirection) (p : Ref) :
    (x.withPort direction p).ports.Perm (p::x.ports) := by
  cases direction with
  | dirIn =>
    change ((x.inPorts++[p])++x.outPorts).Perm (p::(x.inPorts++x.outPorts))
    rw [List.append_assoc]
    exact List.perm_middle
  | dirOut =>
    change (x.inPorts++(x.outPorts++[p])).Perm (p::(x.inPorts++x.outPorts))
    rw [← List.append_assoc]
    exact List.perm_append_singleton _ _

/-- A relation between hosts that holds whenever messages are sent. -/
class Host.Admits (M : Host → Host → Prop) : Prop where
  moves : ∀ {h k : Host}, h.Moves k → M h k

/-- A relation between hosts that does not look at the calvinsys objects either. -/
class Host.AdmitsObjects (M : Host → Host → Prop) : Prop extends Host.Admits M where
  objects : ∀ (h : Host) (os : List CalvinsysObject), M h {h with objects := os}

instance : Host.AdmitsObjects fun _ _ => True where
  moves := fun _ => trivial
  objects := fun _ _ => trivial

/-- The list of actors, `g` of each actor and `f` of each port are as in `s`, and the hosts
are related. -/
structure SameViewBy (M : Host → Host → Prop) {β γ : Type} (f : Port → β) (g : Actor → γ)
    (s t : Node) : Prop where
  actors : t.actors=s.actors
  port : ∀ p, (t.portMem.get p).map f=(s.portMem.get p).map f
  actor : ∀ a, (t.actorMem.get a).map g=(s.actorMem.get a).map g
  nextPort : t.portMem.next=s.portMem.next
  nextActor : t.actorMem.next=s.actorMem.next
  host : M s.host t.host

abbrev SameView {β γ : Type} (f : Port → β) (g : Actor → γ) (s t : Node) : Prop :=
  SameViewBy (fun _ _ => True) f g s t

theorem SameGraph.sameView {M : Host → Host → Prop} [Host.Admits M] {s t : Node}
    (h : SameGraph s t) {β γ : Type} (f : Port → β) (g : Actor → γ) : SameViewBy M f g s t where
  actors := h.2.2.1
  port := fun p => by rw [h.1]
  actor := fun a => by rw [h.2.1]
  nextPort := by rw [h.1]
  nextActor := by rw [h.2.1]
  host := Host.Admits.moves h.2.2.2

namespace SameView

variable {β γ : Type} {f : Port → β} {g : Actor → γ} {s t : Node} (h : SameView f g s t)

include h

theorem port_before {p : Ref} {y : Port} (hy : t.portMem.get p=some y) :
    ∃ x, s.portMem.get p=some x ∧ f x=f y := by
  have hp := h.port p
  rw [hy,Option.map_some] at hp
  exact Option.map_eq_some_iff.mp hp.symm

theorem actor_before {a : Ref} {y : Actor} (hy : t.actorMem.get a=some y) :
    ∃ x, s.actorMem.get a=some x ∧ g x=g y := by
  have ha := h.actor a
  rw [hy,Option.map_some] at ha
  exact Option.map_eq_some_iff.mp ha.symm

end SameView

theorem SameView.refl {β γ : Type} (f : Port → β) (g : Actor → γ) (s : Node) : SameView f g s s :=
  ⟨rfl,fun _ => rfl,fun _ => rfl,rfl,rfl,trivial⟩

theorem SameView.trans {β γ : Type} {f : Port → β} {g : Actor → γ} {s t u : Node}
    (h : SameView f g s t) (k : SameView f g t u) : SameView f g s u where
  actors := k.actors.trans h.actors
  port := fun p => (k.port p).trans (h.port p)
  actor := fun a => (k.actor a).trans (h.actor a)
  nextPort := k.nextPort.trans h.nextPort
  nextActor := k.nextActor.trans h.nextActor
  host := trivial

/-- A coarser look at ports and actors sees no more. -/
theorem SameView.coarsen {β β' γ γ' : Type} {f : Port → β} {g : Actor → γ} {f' : Port → β'}
    {g' : Actor → γ'} {s t : Node} (hf : ∀ x y, f x=f y → f' x=f' y)
    (hg : ∀ x y, g x=g y → g' x=g' y) (h : SameView f g s t) : SameView f' g' s t := by
  have hmap : ∀ {α δ δ' : Type} {k : α → δ} {k' : α → δ'}, (∀ x y, k x=k y → k' x=k' y) →
      ∀ {o o' : Option α}, o.map k=o'.map k → o.map k'=o'.map k' := by
    intro α δ δ' k k' hk o o' ho
    cases o with
    | none =>
      rw [Option.map_none,eq_comm,Option.map_eq_none_iff] at ho
      rw [ho,Option.map_none]
    | some x =>
      rw [Option.map_some] at ho
      obtain ⟨y,rfl,hxy⟩ := Option.map_eq_some_iff.mp ho.symm
      rw [Option.map_some,Option.map_some,hk y x hxy]
  exact ⟨h.actors,fun p => hmap hf (h.port p),fun a => hmap hg (h.actor a),h.nextPort,h.nextActor,
    trivial⟩

theorem SameObjects.refl (s : Node) : SameObjects s s := rfl

theorem SameTunnels.refl (s : Node) : SameTunnels s s := ⟨rfl,rfl,rfl,rfl,rfl,rfl⟩

namespace Node

/-- The port of the node whose id is the peer of `p`. -/
def peerFor (s : Node) (p : Ref) : Option Ref :=
  (s.portMem.get p).bind fun x =>
    ((Atom.portGet ⟨x.peerPortId,strnlen x.peerPortId uuidBufferSize⟩ s).map Prod.fst).join

end Node

namespace Atom

variable {α : Type} {P : Node → Prop}

section Reads

theorem preserves_undefined : Preserves P (undefined : Atom α) := by
  intro s a t hr
  cases hr

theorem preserves_ofOption (x : Option α) : Preserves P (ofOption x) := by
  intro s a t hr hp
  obtain ⟨b,-,he⟩ := Option.map_eq_some_iff.mp hr
  cases he
  exact hp

theorem preserves_textCopy (t : Option Text) : Preserves P (textCopy t) := by
  cases t with
  | none => exact preserves_pure _
  | some t => exact preserves_ofOption _

theorem port_eq_some {p : Ref} {x : Port} {s t : Node} (h : port p s=some (x,t)) :
    s.portMem.get p=some x ∧ t=s := by
  obtain ⟨y,hy,he⟩ := Option.map_eq_some_iff.mp h
  cases he
  exact ⟨hy,rfl⟩

theorem actor_eq_some {a : Ref} {x : Actor} {s t : Node} (h : actor a s=some (x,t)) :
    s.actorMem.get a=some x ∧ t=s := by
  obtain ⟨y,hy,he⟩ := Option.map_eq_some_iff.mp h
  cases he
  exact ⟨hy,rfl⟩

theorem tunnel_eq_some {r : Ref} {x : Tunnel} {s t : Node} (h : tunnel r s=some (x,t)) :
    s.tunnelMem.get r=some x ∧ t=s := by
  obtain ⟨y,hy,he⟩ := Option.map_eq_some_iff.mp h
  cases he
  exact ⟨hy,rfl⟩

theorem link_eq_some {l : Ref} {x : Link} {s t : Node} (h : link l s=some (x,t)) :
    s.linkMem.get l=some x ∧ t=s := by
  obtain ⟨y,hy,he⟩ := Option.map_eq_some_iff.mp h
  cases he
  exact ⟨hy,rfl⟩

theorem ensures_port (p : Ref) :
    Ensures P (port p) fun x s => P s ∧ s.portMem.get p=some x := by
  intro s x t hr hp
  obtain ⟨hx,rfl⟩ := port_eq_some hr
  exact ⟨hp,hx⟩

theorem ensures_actor (a : Ref) :
    Ensures P (actor a) fun x s => P s ∧ s.actorMem.get a=some x := by
  intro s x t hr hp
  obtain ⟨hx,rfl⟩ := actor_eq_some hr
  exact ⟨hp,hx⟩

theorem ensures_tunnel (t : Ref) :
    Ensures P (tunnel t) fun x s => P s ∧ s.tunnelMem.get t=some x := by
  intro s x u hr hp
  obtain ⟨hx,rfl⟩ := tunnel_eq_some hr
  exact ⟨hp,hx⟩

theorem ensures_link (l : Ref) :
    Ensures P (link l) fun x s => P s ∧ s.linkMem.get l=some x := by
  intro s x u hr hp
  obtain ⟨hx,rfl⟩ := link_eq_some hr
  exact ⟨hp,hx⟩

theorem preserves_port (p : Ref) : Preserves P (port p) :=
  ensures_mono (ensures_port p) (fun _ h => h) fun _ _ h => h.1

theorem preserves_actor (a : Ref) : Preserves P (actor a) :=
  ensures_mono (ensures_actor a) (fun _ h => h) fun _ _ h => h.1

theorem preserves_tunnel (t : Ref) : Preserves P (tunnel t) :=
  ensures_mono (ensures_tunnel t) (fun _ h => h) fun _ _ h => h.1

theorem preserves_link (l : Ref) : Preserves P (link l) :=
  ensures_mono (ensures_link l) (fun _ h => h) fun _ _ h => h.1

theorem preserves_listRemove {idOf : Ref → Atom Bytes} (h : ∀ r, Preserves P (idOf r))
    (id : Bytes) (refs : List Ref) : Preserves P (listRemove idOf id refs) := by
  induction refs with
  | nil => exact preserves_pure _
  | cons r rs ih =>
    refine preserves_bind (h r) fun b => ?_
    split
    · exact preserves_pure _
    · exact preserves_bind ih fun _ => preserves_pure _

/-- `cc_list_remove` takes the first item whose id matches. -/
theorem listRemove_eq {idOf : Ref → Atom Bytes} {f : Ref → Option Bytes} {s : Node}
    (h : ∀ r i t, idOf r s=some (i,t) → t=s ∧ f r=some i) {id : Bytes} {refs l : List Ref}
    {t : Node} (hr : listRemove idOf id refs s=some (l,t)) :
    t=s ∧ l=refs.eraseP fun r => (f r).any fun i => listRemoveMatches i id := by
  induction refs generalizing l t with
  | nil =>
    cases hr
    exact ⟨rfl,rfl⟩
  | cons r rs ih =>
    obtain ⟨i,u,hi,hm⟩ := bind_eq_some.mp hr
    obtain ⟨hu,hf⟩ := h r i u hi
    subst u
    split at hm
    · next hmatch =>
      cases hm
      exact ⟨rfl,by rw [List.eraseP_cons,hf,Option.any_some,hmatch,cond_true]⟩
    · next hmatch =>
      obtain ⟨l',u,hrest,he⟩ := bind_eq_some.mp hm
      obtain ⟨hu,hl⟩ := ih hrest
      cases he
      refine ⟨hu,?_⟩
      rw [List.eraseP_cons,hf,Option.any_some,Bool.eq_false_iff.mpr hmatch,cond_false,hl]

theorem preserves_linkGet (peerId : Text) : Preserves P (linkGet peerId) := by
  have hin : ∀ ls, Preserves P (linkGetFrom peerId ls) := by
    intro ls
    induction ls with
    | nil => exact preserves_pure _
    | cons l ls ih =>
      refine preserves_bind (preserves_link l) fun x => ?_
      split
      · exact preserves_pure _
      · exact ih
  exact preserves_bind preserves_get fun s => hin _

theorem preserves_portIn (portId : Text) (ps : List Ref) : Preserves P (portIn portId ps) := by
  induction ps with
  | nil => exact preserves_pure _
  | cons p ps ih =>
    refine preserves_bind (preserves_port p) fun x => ?_
    split
    · exact preserves_pure _
    · exact ih

theorem preserves_portGet (portId : Text) : Preserves P (portGet portId) := by
  have hfrom : ∀ as, Preserves P (portGetFrom portId as) := by
    intro as
    induction as with
    | nil => exact preserves_pure _
    | cons a as ih =>
      refine preserves_bind (preserves_actor a) fun x =>
        preserves_bind (preserves_portIn portId _) fun p => ?_
      split
      · exact preserves_pure _
      · exact ih
  exact preserves_bind preserves_get fun s => hfrom _

theorem preserves_tunnelGetFromId (tunnelId : Text) : Preserves P (tunnelGetFromId tunnelId) := by
  have hin : ∀ ts, Preserves P (tunnelGetFromIdIn tunnelId ts) := by
    intro ts
    induction ts with
    | nil => exact preserves_pure _
    | cons t ts ih =>
      refine preserves_bind (preserves_tunnel t) fun x => ?_
      split
      · exact preserves_pure _
      · exact ih
  exact preserves_bind preserves_get fun s => hin _

theorem preserves_tunnelGetFromPeeridAndType (peerId : Text) (type : TunnelType) :
    Preserves P (tunnelGetFromPeeridAndType peerId type) := by
  have hin : ∀ ts, Preserves P (tunnelGetFromPeeridIn peerId type ts) := by
    intro ts
    induction ts with
    | nil => exact preserves_pure _
    | cons t ts ih =>
      refine preserves_bind (preserves_tunnel t) fun x => ?_
      dsimp only
      split
      · refine preserves_bind (preserves_link _) fun y => ?_
        split
        · exact preserves_pure _
        · exact ih
      · exact ih
  exact preserves_bind preserves_get fun s => hin _

/-- The port that is found is one of an actor of the node. -/
theorem portGet_found {portId : Text} {r : Option Ref} {s t : Node}
    (h : portGet portId s=some (r,t)) :
    t=s ∧ ∀ q, r=some q → ∃ a ∈ s.actors, ∃ x y, s.actorMem.get a=some x ∧ q ∈ x.ports ∧
      s.portMem.get q=some y ∧ listIdMatches y.id portId=true := by
  have hin : ∀ ps r u, portIn portId ps s=some (r,u) → u=s ∧ ∀ q, r=some q → q ∈ ps ∧
      ∃ y, s.portMem.get q=some y ∧ listIdMatches y.id portId=true := by
    intro ps
    induction ps with
    | nil =>
      rintro r u ⟨⟩
      exact ⟨rfl,fun q hq => by cases hq⟩
    | cons p ps ih =>
      intro r u h
      obtain ⟨y,v,hread,h₁⟩ := bind_eq_some.mp h
      obtain ⟨hy,rfl⟩ := port_eq_some hread
      split at h₁
      · next hmatch =>
        cases h₁
        refine ⟨rfl,?_⟩
        rintro q ⟨⟩
        exact ⟨List.mem_cons_self,y,hy,hmatch⟩
      · obtain ⟨hu,hq⟩ := ih r u h₁
        exact ⟨hu,fun q hr => ⟨List.mem_cons_of_mem _ (hq q hr).1,(hq q hr).2⟩⟩
  have hfrom : ∀ as r u, portGetFrom portId as s=some (r,u) → u=s ∧ ∀ q, r=some q →
      ∃ a ∈ as, ∃ x y, s.actorMem.get a=some x ∧ q ∈ x.ports ∧ s.portMem.get q=some y ∧
        listIdMatches y.id portId=true := by
    intro as
    induction as with
    | nil =>
      rintro r u ⟨⟩
      exact ⟨rfl,fun q hq => by cases hq⟩
    | cons a as ih =>
      intro r u h
      obtain ⟨x,v,hread,h₁⟩ := bind_eq_some.mp h
      obtain ⟨hx,rfl⟩ := actor_eq_some hread
      obtain ⟨found,w,hports,h₂⟩ := bind_eq_some.mp h₁
      obtain ⟨rfl,hq⟩ := hin _ _ _ hports
      cases found with
      | some p =>
        cases h₂
        refine ⟨rfl,?_⟩
        rintro q ⟨⟩
        obtain ⟨hmem,y,hy,hmatch⟩ := hq p rfl
        exact ⟨a,List.mem_cons_self,x,y,hx,hmem,hy,hmatch⟩
      | none =>
        obtain ⟨hu,hrest⟩ := ih r u h₂
        refine ⟨hu,fun q hr => ?_⟩
        obtain ⟨b,hb,hfound⟩ := hrest q hr
        exact ⟨b,List.mem_cons_of_mem _ hb,hfound⟩
  exact hfrom s.actors r t h

theorem tunnelGetFromId_found {tunnelId : Text} {r : Option Ref} {s t : Node}
    (h : tunnelGetFromId tunnelId s=some (r,t)) :
    t=s ∧ ∀ q, r=some q → q ∈ s.tunnels ∧ ∃ x, s.tunnelMem.get q=some x := by
  have hin : ∀ ts r u, tunnelGetFromIdIn tunnelId ts s=some (r,u) → u=s ∧ ∀ q, r=some q →
      q ∈ ts ∧ ∃ x, s.tunnelMem.get q=some x := by
    intro ts
    induction ts with
    | nil =>
      rintro r u ⟨⟩
      exact ⟨rfl,fun q hq => by cases hq⟩
    | cons t ts ih =>
      intro r u h
      obtain ⟨x,v,hread,h₁⟩ := bind_eq_some.mp h
      obtain ⟨hx,rfl⟩ := tunnel_eq_some hread
      split at h₁
      · cases h₁
        refine ⟨rfl,?_⟩
        rintro q ⟨⟩
        exact ⟨List.mem_cons_self,x,hx⟩
      · obtain ⟨hu,hq⟩ := ih r u h₁
        exact ⟨hu,fun q hr => ⟨List.mem_cons_of_mem _ (hq q hr).1,(hq q hr).2⟩⟩
  exact hin s.tunnels r t h

theorem tunnelGetFromPeeridAndType_found {peerId : Text} {type : TunnelType} {r : Option Ref}
    {s t : Node} (h : tunnelGetFromPeeridAndType peerId type s=some (r,t)) :
    t=s ∧ ∀ q, r=some q → q ∈ s.tunnels ∧ ∃ x, s.tunnelMem.get q=some x ∧ x.type=type := by
  have hin : ∀ ts r u, tunnelGetFromPeeridIn peerId type ts s=some (r,u) → u=s ∧ ∀ q, r=some q →
      q ∈ ts ∧ ∃ x, s.tunnelMem.get q=some x ∧ x.type=type := by
    intro ts
    induction ts with
    | nil =>
      rintro r u ⟨⟩
      exact ⟨rfl,fun q hq => by cases hq⟩
    | cons t ts ih =>
      intro r u h
      obtain ⟨x,v,hread,h₁⟩ := bind_eq_some.mp h
      obtain ⟨hx,rfl⟩ := tunnel_eq_some hread
      have hrest : tunnelGetFromPeeridIn peerId type ts v=some (r,u) → u=v ∧ ∀ q, r=some q →
          q ∈ t::ts ∧ ∃ x, v.tunnelMem.get q=some x ∧ x.type=type := by
        intro h₂
        obtain ⟨hu,hq⟩ := ih r u h₂
        exact ⟨hu,fun q hr => ⟨List.mem_cons_of_mem _ (hq q hr).1,(hq q hr).2⟩⟩
      dsimp only at h₁
      split at h₁
      · next htype =>
        obtain ⟨y,w,hread,h₂⟩ := bind_eq_some.mp h₁
        obtain ⟨-,rfl⟩ := link_eq_some hread
        split at h₂
        · cases h₂
          refine ⟨rfl,?_⟩
          rintro q ⟨⟩
          exact ⟨List.mem_cons_self,x,hx,htype⟩
        · exact hrest h₂
      · exact hrest h₁
  exact hin s.tunnels r t h

end Reads

section Host

variable (hP : ∀ s h, s.host.Moves h → P s → P {s with host := h})

include hP

theorem preserves_alloc : Preserves P alloc := by
  intro s a t hr hp
  unfold alloc at hr
  split at hr
  · cases hr
    exact hp
  · cases hr
    exact hP s _ (.fate _ (fun _ h => h) .refl) hp

theorem preserves_allocN (n : Nat) : Preserves P (allocN n) := by
  induction n with
  | zero => exact preserves_pure _
  | succ n ih =>
    refine preserves_bind (preserves_alloc hP) fun b => ?_
    split
    · exact preserves_pure _
    · exact ih

theorem preserves_uuid (pre : Bytes) : Preserves P (uuid pre) := by
  intro s a t hr hp
  unfold uuid at hr
  split at hr
  · cases hr
    exact hp
  · cases hr
    exact hP s _ (.fate _ (fun _ h => h) .refl) hp

theorem preserves_send {m : Outgoing} (hm : m.kind=.notice) : Preserves P (send m) := by
  intro s a t hr hp
  unfold send at hr
  split at hr
  · cases hr
    exact hp
  · split at hr
    · cases hr
      exact hP s _ (.sent m hm .refl) hp
    · next rest hsends =>
      cases hr
      exact hP s _ (.fate _ (fun _ h => hsends ▸ List.mem_cons_of_mem _ h) (.sent m hm .refl)) hp
    · next rest hsends =>
      cases hr
      exact hP s _ (.fate _ (fun _ h => hsends ▸ List.mem_cons_of_mem _ h) .refl) hp

theorem preserves_effect : Preserves P effect := by
  intro s a t hr hp
  unfold effect at hr
  split at hr
  · cases hr
    exact hp
  · cases hr
    exact hP s _ (.fate _ (fun _ h => h) .refl) hp

omit hP in
theorem preserves_needTransport : Preserves P needTransport := by
  intro s a t hr hp
  obtain ⟨b,-,he⟩ := Option.map_eq_some_iff.mp hr
  cases he
  exact hp

omit hP in
theorem preserves_needStorage : Preserves P needStorage := by
  refine preserves_bind preserves_get fun s => preserves_bind preserves_get fun s' => ?_
  split
  · exact preserves_bind (preserves_link _) fun _ => preserves_bind (preserves_tunnel _)
      fun _ => preserves_pure _
  · exact preserves_undefined

omit hP in
theorem preserves_needProxy : Preserves P needProxy := by
  refine preserves_bind preserves_get fun s => ?_
  split
  · exact preserves_bind (preserves_tunnel _) fun _ => preserves_bind (preserves_link _)
      fun _ => preserves_pure _
  · exact preserves_undefined

theorem preserves_addPendingMsg (id : Bytes) {handler : Handler} (hne : handler ≠ .actorMigrate) :
    Preserves P (addPendingMsg ⟨id,handler,none⟩) := by
  refine preserves_bind (preserves_allocN hP 3) fun b => ?_
  split
  · exact preserves_pure _
  · refine preserves_bind ?_ fun _ => preserves_pure _
    intro s a t hr hp
    cases hr
    exact hP s _ (.register id hne .refl) hp

theorem preserves_removePendingMsg (id : Bytes) : Preserves P (removePendingMsg id) := by
  intro s a t hr hp
  cases hr
  dsimp only
  split
  · exact hP s _ (.withdraw id .refl) hp
  · exact hp

theorem preserves_request {m : Outgoing} (hm : m.kind=.notice) {handler : Handler}
    (hne : handler ≠ .actorMigrate) : Preserves P (request m handler none) := by
  refine preserves_bind preserves_needTransport fun _ => preserves_bind (preserves_uuid hP _)
    fun msgUuid => preserves_bind (preserves_addPendingMsg hP _ hne) fun result => ?_
  split
  · refine preserves_bind (preserves_send hP hm) fun result => ?_
    split
    · exact preserves_pure _
    · exact preserves_bind (preserves_removePendingMsg hP _) fun _ => preserves_pure _
  · exact preserves_pure _

theorem preserves_sendRemovePort (p : Ref) : Preserves P (sendRemovePort p) :=
  preserves_bind preserves_needTransport fun _ => preserves_bind preserves_needStorage fun _ =>
    preserves_bind (preserves_port p) fun _ => preserves_request hP rfl (by decide)

theorem preserves_sendRemoveActor (id : Bytes) : Preserves P (sendRemoveActor id) :=
  preserves_bind preserves_needTransport fun _ => preserves_bind preserves_needStorage fun _ =>
    preserves_request hP rfl (by decide)

theorem preserves_sendPortDisconnect (p : Ref) : Preserves P (sendPortDisconnect p) := by
  refine preserves_bind (preserves_port p) fun x => ?_
  split
  · exact preserves_undefined
  · exact preserves_bind (preserves_tunnel _) fun _ => preserves_request hP rfl (by decide)

theorem preserves_sendTunnelDestroy (x : Tunnel) : Preserves P (sendTunnelDestroy x) := by
  refine preserves_bind preserves_get fun s => ?_
  dsimp only
  split
  · exact preserves_bind (preserves_link _) fun _ =>
      preserves_bind (preserves_request hP rfl (by decide)) fun _ => preserves_pure _
  · exact preserves_pure _

theorem preserves_sendTunnelRequest (x : Tunnel) : Preserves P (sendTunnelRequest x) := by
  unfold sendTunnelRequest
  split
  · exact preserves_pure _
  · exact preserves_bind (preserves_link _) fun _ => preserves_request hP rfl (by decide)

theorem preserves_sendGetActorModule (type : Bytes) : Preserves P (sendGetActorModule type) :=
  preserves_bind preserves_needTransport fun _ => preserves_bind preserves_needProxy fun _ =>
    preserves_request hP rfl (by decide)

/-- A new actor waits for its implementation exactly when that is not loaded. -/
theorem preserves_actorCreateFromType (halloc : ∀ name state loaded instanceState,
      (loaded=true ∧ state=.pending ∨ loaded=false ∧ state=.pendingImpl) →
      Preserves P (actorAlloc name state loaded instanceState)) (type : Text) :
    Preserves P (actorCreateFromType type) := by
  have hnew : ∀ {name : Bytes} {state : ActorState} {loaded : Bool} {i : Option InstanceState},
      (loaded=true ∧ state=.pending ∨ loaded=false ∧ state=.pendingImpl) →
      Preserves P (actorAlloc name state loaded i >>= fun a => pure (some a)) :=
    fun h => preserves_bind (halloc _ _ _ _ h) fun _ => preserves_pure _
  refine preserves_bind (preserves_allocN hP 2) fun b => ?_
  split
  · exact preserves_pure _
  refine preserves_bind preserves_get fun s => ?_
  dsimp only
  split
  · exact hnew (.inl ⟨rfl,rfl⟩)
  split
  · exact preserves_pure _
  refine preserves_bind (preserves_effect hP) fun e => ?_
  split
  · refine preserves_bind (preserves_effect hP) fun e => ?_
    split
    · exact hnew (.inl ⟨rfl,rfl⟩)
    · exact preserves_pure _
  refine preserves_bind (preserves_sendGetActorModule hP _) fun r => ?_
  split
  · exact hnew (.inr ⟨rfl,rfl⟩)
  · exact preserves_pure _

theorem preserves_fifoTokens (mp : Msgpuck) (objTokens : Bytes) (f : Fifo Bytes) (n i : Nat) :
    Preserves P (fifoTokens mp objTokens f n i) := by
  induction n generalizing f i with
  | zero => exact preserves_pure _
  | succ n ih =>
    refine preserves_bind (preserves_ofOption _) fun objToken => ?_
    split
    swap
    · exact preserves_pure _
    refine preserves_bind (preserves_ofOption _) fun objData => ?_
    split
    swap
    · exact preserves_pure _
    split
    · refine preserves_bind (preserves_ofOption _) fun size =>
        preserves_bind (preserves_alloc hP) fun b => ?_
      split
      · exact preserves_pure _
      · dsimp only
        split
        · exact preserves_bind preserves_undefined fun _ => ih _ _
        · exact ih _ _
    · exact ih _ _

theorem preserves_fifoRestore (mp : Msgpuck) (r : Bytes) (f : Fifo Bytes) :
    Preserves P (fifoRestore mp r f) := by
  refine preserves_bind (preserves_ofOption _) fun writePos => ?_
  split
  swap
  · exact preserves_pure _
  refine preserves_bind (preserves_ofOption _) fun objTentative => ?_
  split
  swap
  · exact preserves_pure _
  refine preserves_bind (preserves_ofOption _) fun objReaders => ?_
  split
  swap
  · exact preserves_pure _
  refine preserves_bind (preserves_ofOption _) fun reader => ?_
  split
  swap
  · exact preserves_pure _
  refine preserves_bind (preserves_alloc hP) fun b => ?_
  split
  · exact preserves_pure _
  split
  · exact preserves_undefined
  refine preserves_bind (preserves_ofOption _) fun tentative =>
    preserves_bind (preserves_ofOption _) fun objReadPos => ?_
  split
  swap
  · exact preserves_pure _
  refine preserves_bind (preserves_ofOption _) fun readPos =>
    preserves_bind (preserves_ofOption _) fun objTokens =>
      preserves_bind ?_ fun _ => preserves_pure _
  unfold fifoTokensFrom
  split
  · exact preserves_pure _
  · exact preserves_bind (preserves_ofOption _) fun _ => preserves_fifoTokens hP mp _ _ _ _

theorem preserves_fifoAlloc (tokenSize : Nat) (size : UInt32) :
    Preserves P (fifoAlloc tokenSize size) := by
  refine preserves_bind (preserves_alloc hP) fun b => ?_
  split
  · exact preserves_pure _
  · split
    · exact preserves_undefined
    · exact preserves_pure _

theorem preserves_fifoInit (mp : Msgpuck) (tokenSize : Nat) (objFifo : Option Bytes)
    (objProperties : Bytes) : Preserves P (fifoInit mp tokenSize objFifo objProperties) := by
  refine preserves_bind (preserves_alloc hP) fun b => ?_
  split
  · exact preserves_pure _
  split
  · exact preserves_bind (preserves_ofOption _) fun size => preserves_fifoAlloc hP _ _
  refine preserves_bind (preserves_ofOption _) fun queuetype => ?_
  split
  swap
  · exact preserves_pure _
  split
  · exact preserves_pure _
  refine preserves_bind (preserves_ofOption _) fun size => ?_
  split
  swap
  · exact preserves_pure _
  refine preserves_bind (preserves_fifoAlloc hP _ _) fun f => ?_
  split
  · exact preserves_fifoRestore hP mp _ _
  · exact preserves_pure _

end Host

/-- A computation that touches the host alone. -/
theorem sameObjects_host (s t : Node) (h : Host) (_ : t.host.Moves h) (ht : SameObjects s t) :
    SameObjects s {t with host := h} := by
  unfold SameObjects at ht ⊢
  rw [ht]

section Graph

variable (hP : ∀ s t, SameGraph s t → P s → P t)

include hP

theorem graph_host (s : Node) (h : Host) (hm : s.host.Moves h) (hp : P s) : P {s with host := h} :=
  hP s _ ⟨rfl,rfl,rfl,hm⟩ hp

theorem preserves_setTunnel (t : Ref) (x : Tunnel) : Preserves P (setTunnel t x) := by
  intro s a u hr hp
  cases hr
  exact hP s _ ⟨rfl,rfl,rfl,.refl⟩ hp

theorem preserves_setLink (l : Ref) (x : Link) : Preserves P (setLink l x) := by
  intro s a u hr hp
  cases hr
  exact hP s _ ⟨rfl,rfl,rfl,.refl⟩ hp

theorem preserves_linkCreate (peerId : Text) (isProxy : Bool) :
    Preserves P (linkCreate peerId isProxy) := by
  refine preserves_bind (preserves_linkGet peerId) fun l => ?_
  split
  · exact preserves_pure _
  refine preserves_bind (preserves_alloc (graph_host hP)) fun b => ?_
  split
  · exact preserves_pure _
  refine preserves_bind (preserves_ofOption _) fun id => ?_
  refine preserves_bind (preserves_alloc (graph_host hP)) fun b => ?_
  split
  · exact preserves_pure _
  refine preserves_bind ?_ fun _ => preserves_pure _
  intro s a t hr hp
  cases hr
  exact hP s _ ⟨rfl,rfl,rfl,.refl⟩ hp

theorem preserves_linkFree (l : Ref) : Preserves P (linkFree l) := by
  refine preserves_bind (preserves_link l) fun x => preserves_bind preserves_get fun s =>
    preserves_bind (preserves_listRemove ?_ _ _) fun links => preserves_modify ?_
  · intro r
    exact preserves_bind (preserves_link r) fun _ => preserves_pure _
  · intro s hp
    exact hP s _ ⟨rfl,rfl,rfl,.refl⟩ hp

theorem preserves_linkAddRef (l : Ref) : Preserves P (linkAddRef l) :=
  preserves_bind (preserves_link l) fun _ => preserves_setLink hP l _

theorem preserves_linkRemoveRef (l : Ref) : Preserves P (linkRemoveRef l) := by
  refine preserves_bind (preserves_link l) fun x =>
    preserves_bind (preserves_setLink hP l _) fun _ => ?_
  split
  · exact preserves_linkFree hP l
  · exact preserves_pure _

theorem preserves_tunnelLink (peerId : Text) : Preserves P (tunnelLink peerId) := by
  refine preserves_bind (preserves_linkGet peerId) fun l => ?_
  split
  · exact preserves_pure _
  refine preserves_bind preserves_get fun s => ?_
  split
  · exact preserves_undefined
  · exact preserves_bind (preserves_link _) fun _ => preserves_linkCreate hP _ _

theorem preserves_tunnelNewId (tunnelId : Option Text) : Preserves P (tunnelNewId tunnelId) := by
  cases tunnelId with
  | none => exact preserves_uuid (graph_host hP) _
  | some t => exact preserves_ofOption _

theorem preserves_tunnelRequest (x : Tunnel) : Preserves P (tunnelRequest x) := by
  unfold tunnelRequest
  split
  · exact preserves_pure _
  refine preserves_bind (preserves_sendTunnelRequest (graph_host hP) x) fun r => ?_
  split <;> exact preserves_pure _

theorem preserves_tunnelAdd (x : Tunnel) : Preserves P (tunnelAdd x) := by
  intro s a t hr hp
  cases hr
  exact hP s _ ⟨rfl,rfl,rfl,.refl⟩ hp

theorem preserves_tunnelCreateOn (l : Ref) (type : TunnelType) (state : TunnelState)
    (tunnelId : Option Text) : Preserves P (tunnelCreateOn l type state tunnelId) := by
  refine preserves_bind (preserves_alloc (graph_host hP)) fun b => ?_
  split
  · exact preserves_pure _
  refine preserves_bind (preserves_tunnelNewId hP _) fun id =>
    preserves_bind (preserves_tunnelRequest hP _) fun x => ?_
  split
  · refine preserves_bind (preserves_alloc (graph_host hP)) fun b => ?_
    split
    · exact preserves_pure _
    · exact preserves_bind (preserves_tunnelAdd hP _) fun t =>
        preserves_bind (preserves_linkAddRef hP _) fun _ => preserves_pure _
  · exact preserves_pure _

theorem preserves_tunnelCreate (type : TunnelType) (state : TunnelState) (peerId : Text)
    (tunnelId : Option Text) : Preserves P (tunnelCreate type state peerId tunnelId) := by
  refine preserves_bind (preserves_tunnelGetFromPeeridAndType peerId type) fun t => ?_
  split
  · exact preserves_pure _
  refine preserves_bind (preserves_tunnelLink hP peerId) fun l => ?_
  split
  · exact preserves_tunnelCreateOn hP _ _ _ _
  · exact preserves_pure _

theorem preserves_tunnelUnlink (t : Ref) (id : Bytes) : Preserves P (tunnelUnlink t id) := by
  refine preserves_bind preserves_get fun s =>
    preserves_bind (preserves_listRemove ?_ _ _) fun tunnels => preserves_modify ?_
  · intro r
    exact preserves_bind (preserves_tunnel r) fun _ => preserves_pure _
  · intro s hp
    exact hP s _ ⟨rfl,rfl,rfl,.refl⟩ hp

theorem preserves_tunnelFree (t : Ref) (unrefLink : Bool) :
    Preserves P (tunnelFree t unrefLink) := by
  refine preserves_bind (preserves_tunnel t) fun x => ?_
  cases unrefLink with
  | false => exact preserves_tunnelUnlink hP t _
  | true =>
    exact preserves_bind (preserves_linkRemoveRef hP _) fun _ => preserves_tunnelUnlink hP t _

theorem preserves_tunnelAddRef (t : Ref) : Preserves P (tunnelAddRef t) :=
  preserves_bind (preserves_tunnel t) fun _ => preserves_setTunnel hP t _

theorem preserves_tunnelRemoveRef (t : Ref) : Preserves P (tunnelRemoveRef t) := by
  refine preserves_bind (preserves_tunnel t) fun x =>
    preserves_bind (preserves_setTunnel hP t _) fun _ => ?_
  split
  · exact preserves_bind (preserves_sendTunnelDestroy (graph_host hP) x) fun _ =>
      preserves_tunnelFree hP t _
  · exact preserves_pure _

theorem preserves_tunnelGetOrCreate (peerId : Text) :
    Preserves P (tunnelGetOrCreate peerId) := by
  refine preserves_bind (preserves_tunnelGetFromPeeridAndType peerId _) fun t => ?_
  split
  · exact preserves_pure _
  · exact preserves_tunnelCreate hP _ _ _ _

theorem preserves_tunnelUpdate (t : Ref) (id : Bytes) (state : TunnelState) :
    Preserves P (tunnelUpdate t id state) :=
  preserves_bind (preserves_tunnel t) fun _ => preserves_setTunnel hP t _

theorem preserves_nodeStorageTunnel (peerId : Text) : Preserves P (nodeStorageTunnel peerId) := by
  refine preserves_bind preserves_get fun s => ?_
  split
  · exact preserves_pure _
  refine preserves_bind (preserves_tunnelCreate hP _ _ _ _) fun t => ?_
  split
  · exact preserves_pure _
  · exact preserves_bind (preserves_modify fun s hp => hP s _ ⟨rfl,rfl,rfl,.refl⟩ hp) fun _ =>
      preserves_bind (preserves_tunnelAddRef hP _) fun _ => preserves_pure _

theorem preserves_nodeProxyTunnel (peerId : Text) : Preserves P (nodeProxyTunnel peerId) := by
  refine preserves_bind preserves_get fun s => ?_
  split
  · exact preserves_pure _
  refine preserves_bind (preserves_tunnelCreate hP _ _ _ _) fun t => ?_
  split
  · exact preserves_pure _
  · exact preserves_bind (preserves_modify fun s hp => hP s _ ⟨rfl,rfl,rfl,.refl⟩ hp) fun _ =>
      preserves_bind (preserves_tunnelAddRef hP _) fun _ => preserves_pure _

theorem preserves_nodeReleaseProxy : Preserves P nodeReleaseProxy := by
  refine preserves_bind preserves_get fun s => ?_
  split
  · exact preserves_pure _
  · exact preserves_bind (preserves_tunnelRemoveRef hP _) fun _ =>
      preserves_modify fun s hp => hP s _ ⟨rfl,rfl,rfl,.refl⟩ hp

theorem preserves_nodeReleaseStorage : Preserves P nodeReleaseStorage := by
  refine preserves_bind preserves_get fun s => ?_
  split
  · exact preserves_pure _
  · exact preserves_bind (preserves_tunnelRemoveRef hP _) fun _ =>
      preserves_modify fun s hp => hP s _ ⟨rfl,rfl,rfl,.refl⟩ hp

theorem preserves_tunnelFreeAll (n : Nat) : Preserves P (tunnelFreeAll n) := by
  induction n with
  | zero => exact preserves_pure _
  | succ n ih =>
    refine preserves_bind preserves_get fun s => ?_
    split
    · exact preserves_pure _
    · exact preserves_bind (preserves_modify fun s hp => hP s _ ⟨rfl,rfl,rfl,.refl⟩ hp) fun _ =>
        preserves_bind (preserves_tunnelFree hP _ _) fun _ => ih

theorem preserves_linkFreeAll (n : Nat) : Preserves P (linkFreeAll n) := by
  induction n with
  | zero => exact preserves_pure _
  | succ n ih =>
    refine preserves_bind preserves_get fun s => ?_
    split
    · exact preserves_pure _
    · exact preserves_bind (preserves_modify fun s hp => hP s _ ⟨rfl,rfl,rfl,.refl⟩ hp) fun _ =>
        preserves_bind (preserves_linkFree hP _) fun _ => ih

end Graph

section Actors

variable {M : Host → Host → Prop} [Host.Admits M]
  (hP : ∀ s t, t.actors=s.actors → t.actorMem=s.actorMem → M s.host t.host → P s → P t)

include hP

theorem preserves_portRelease (p : Ref) : Preserves P (portRelease p) := by
  have hgraph : ∀ s t, SameGraph s t → P s → P t :=
    fun s t h => hP s t h.2.2.1 h.2.1 (Host.Admits.moves h.2.2.2)
  have hfree : Preserves P (modify fun s => {s with portMem := s.portMem.free p}) :=
    preserves_modify fun s hp => hP s _ rfl rfl (Host.Admits.moves .refl) hp
  refine preserves_bind ?_ fun _ => preserves_bind (preserves_port p) fun x => ?_
  · refine preserves_bind (preserves_port p) fun x => ?_
    split
    · exact preserves_pure _
    · refine preserves_bind (preserves_tunnelRemoveRef hgraph _) fun _ =>
        preserves_bind (preserves_port p) fun x => ?_
      intro s b t hr hp
      cases hr
      exact hP s _ rfl rfl (Host.Admits.moves .refl) hp
  · split
    · exact preserves_bind preserves_undefined fun _ => hfree
    · exact hfree

theorem preserves_portFree (removeFromRegistry : Bool) (p : Ref) :
    Preserves P (portFree p removeFromRegistry) := by
  have hh : ∀ s h, s.host.Moves h → P s → P {s with host := h} :=
    fun s h hm => hP s _ rfl rfl (Host.Admits.moves hm)
  cases removeFromRegistry with
  | false => exact preserves_portRelease hP p
  | true =>
    exact preserves_bind (preserves_sendRemovePort hh p) fun _ => preserves_portRelease hP p

theorem preserves_freePorts (removeFromRegistry : Bool) (ps : List Ref) :
    Preserves P (freePorts removeFromRegistry ps) := by
  induction ps with
  | nil => exact preserves_pure _
  | cons p ps ih =>
    exact preserves_bind (preserves_portFree hP removeFromRegistry p) fun _ => ih

theorem preserves_portNew (mp : Msgpuck) (a : Ref) (direction : PortDirection)
    (d : PortDescription) : Preserves P (portNew mp a direction d) := by
  have hh : ∀ s h, s.host.Moves h → P s → P {s with host := h} :=
    fun s h hm => hP s _ rfl rfl (Host.Admits.moves hm)
  refine preserves_bind (preserves_alloc hh) fun b => ?_
  split
  · exact preserves_pure _
  refine preserves_bind ?_ fun p => preserves_bind (preserves_fifoInit hh mp _ _ _) fun f => ?_
  · refine preserves_bind (preserves_ofOption _) fun id => preserves_bind (preserves_ofOption _)
      fun name => preserves_bind (preserves_ofOption _) fun peerPortId =>
        preserves_bind (preserves_textCopy _) fun peerId => ?_
    intro s p t h hs
    cases h
    exact hP s _ rfl rfl (Host.Admits.moves .refl) hs
  split
  · exact preserves_bind (preserves_portFree hP _ p) fun _ => preserves_pure _
  · refine preserves_bind (preserves_bind (preserves_port p) fun x => ?_) fun _ => preserves_pure _
    intro s u t h hs
    cases h
    exact hP s _ rfl rfl (Host.Admits.moves .refl) hs

end Actors

/-- The actors that `cc_list_remove` takes for `a`. -/
def unlinks (s : Node) (a b : Ref) : Bool :=
  ((s.actorMem.get a).bind Actor.id).any fun id =>
    ((s.actorMem.get b).bind Actor.id).any fun i => listRemoveMatches i id

theorem actorUnlink_eq {a : Ref} {removeFromRegistry : Bool} {s t : Node}
    (h : actorUnlink a removeFromRegistry s=some ((),t)) :
    ∃ host, t={s with
      host := host
      actors := s.actors.eraseP (unlinks s a)
      actorMem := s.actorMem.free a} := by
  have hremove : ∀ {x : Actor} {id : Bytes} {u t : Node}, s.actorMem.get a=some x → x.id=some id →
      SameObjects s u → (do
        let actors ← listRemove actorId id (← get).actors
        modify fun s => {s with actors := actors}
        modify fun s => {s with actorMem := s.actorMem.free a} : Atom Unit) u=some ((),t) →
      ∃ host, t={s with
        host := host
        actors := s.actors.eraseP (unlinks s a)
        actorMem := s.actorMem.free a} := by
    intro x id u t hx hid hu h
    obtain ⟨w,v,hw,h⟩ := bind_eq_some.mp h
    cases hw
    obtain ⟨l,v,hl,h⟩ := bind_eq_some.mp h
    cases h
    have hread : ∀ r i w, actorId r u=some (i,w) → w=u ∧ (u.actorMem.get r).bind Actor.id=some i := by
      intro r i w hr
      obtain ⟨y,w',hy,hr⟩ := bind_eq_some.mp hr
      obtain ⟨hy',hw'⟩ := actor_eq_some hy
      subst w'
      cases hi : y.id with
      | none =>
        simp only [hi] at hr
        cases hr
      | some j =>
        simp only [hi] at hr
        cases hr
        exact ⟨rfl,by rw [hy',Option.bind_some,hi]⟩
    obtain ⟨hv,hl⟩ := listRemove_eq hread hl
    refine ⟨u.host,?_⟩
    unfold SameObjects at hu
    have hp : (fun r => ((u.actorMem.get r).bind Actor.id).any fun i => listRemoveMatches i id)=
        unlinks s a := by
      funext b
      rw [unlinks,hx,Option.bind_some,hid,Option.any_some,hu]
    rw [hl,hv,hp,hu]
  obtain ⟨x,s',hx,h⟩ := bind_eq_some.mp h
  obtain ⟨hx',hs'⟩ := actor_eq_some hx
  subst s'
  cases hid : x.id with
  | none =>
    simp only [hid] at h
    cases h
    refine ⟨s.host,?_⟩
    have hnone : unlinks s a=fun _ => false := by
      funext b
      rw [unlinks,hx',Option.bind_some,hid,Option.any_none]
    rw [hnone,List.eraseP_of_forall_not (by simp)]
  | some id =>
    simp only [hid] at h
    cases removeFromRegistry with
    | false => exact hremove hx' hid (.refl s) h
    | true =>
      obtain ⟨r,u,hr,h⟩ := bind_eq_some.mp h
      exact hremove hx' hid (preserves_sendRemoveActor (sameObjects_host s) id s r u hr (.refl s)) h

/-- `cc_actor_free` in its three parts: callbacks and calvinsys objects, ports, list. -/
theorem ensures_actorFree {Q R : Node → Prop} {a : Ref} {removeFromRegistry : Bool}
    (hcall : Preserves P (callbackIfSet a)) (hclose : Preserves P (closeOwn a))
    (hports : ∀ x : Actor, Ensures (fun s => P s ∧ s.actorMem.get a=some x)
      (freePorts removeFromRegistry x.ports) fun _ => Q)
    (hunlink : Ensures Q (actorUnlink a removeFromRegistry) fun _ => R) :
    Ensures P (actorFree a removeFromRegistry) fun _ => R := by
  have hrest : Ensures P (do
      closeOwn a
      freePorts removeFromRegistry (← actor a).ports
      actorUnlink a removeFromRegistry) fun _ => R :=
    ensures_bind hclose fun _ => ensures_bind (ensures_actor a) fun x =>
      ensures_bind (hports x) fun _ => hunlink
  refine ensures_bind hcall fun _ => ensures_bind (preserves_actor a) fun x => ?_
  dsimp only
  split
  · exact ensures_bind hcall fun _ => hrest
  · exact hrest

section View

variable {M : Host → Host → Prop} {β γ : Type} {f : Port → β} {g : Actor → γ}
  (hP : ∀ s t, SameViewBy M f g s t → SameTunnels s t → P s → P t)

include hP

theorem view_relate (s : Node) (h : Host) (hm : M s.host h) (hp : P s) : P {s with host := h} :=
  hP s _ ⟨rfl,fun _ => rfl,fun _ => rfl,rfl,rfl,hm⟩ (.refl s) hp

theorem view_objects [Host.AdmitsObjects M] (s : Node) (os : List CalvinsysObject) (hp : P s) :
    P {s with host := {s.host with objects := os}} :=
  view_relate hP s _ (Host.AdmitsObjects.objects _ os) hp

variable [Host.Admits M]

theorem view_host (s : Node) (h : Host) (hm : s.host.Moves h) (hp : P s) : P {s with host := h} :=
  view_relate hP s h (Host.Admits.moves hm) hp

theorem ensures_setPort {p : Ref} {x y : Port} (h : f y=f x) :
    Ensures (fun s => P s ∧ s.portMem.get p=some x) (setPort p y) fun _ => P := by
  rintro s a t hr ⟨hp,hx⟩
  cases hr
  refine hP s _ ⟨rfl,fun q => ?_,fun _ => rfl,Heap.next_set _ _ _,rfl,Host.Admits.moves .refl⟩
    (.refl s) hp
  change ((s.portMem.set p y).get q).map f=(s.portMem.get q).map f
  rw [Heap.get_set hx]
  split
  · next hq => rw [hq,hx,Option.map_some,Option.map_some,h]
  · rfl

theorem preserves_updatePort (p : Ref) {k : Port → Port} (h : ∀ x, f (k x)=f x) :
    Preserves P (updatePort p k) :=
  ensures_bind (ensures_port p) fun x => ensures_setPort hP (h x)

theorem ensures_setActor {a : Ref} {x y : Actor} (h : g y=g x) :
    Ensures (fun s => P s ∧ s.actorMem.get a=some x) (setActor a y) fun _ => P := by
  rintro s b t hr ⟨hp,hx⟩
  cases hr
  refine hP s _ ⟨rfl,fun _ => rfl,fun c => ?_,rfl,Heap.next_set _ _ _,Host.Admits.moves .refl⟩
    (.refl s) hp
  change ((s.actorMem.set a y).get c).map g=(s.actorMem.get c).map g
  rw [Heap.get_set hx]
  split
  · next hc => rw [hc,hx,Option.map_some,Option.map_some,h]
  · rfl

theorem preserves_portFifoCancel (hf : ∀ x q, f {x with fifo := q}=f x) (p : Ref) :
    Preserves P (portFifoCancel p) := by
  refine ensures_bind (ensures_port p) fun x => ?_
  split
  · exact ensures_mono preserves_undefined (fun _ h => h.1) fun _ _ h => h
  · exact ensures_setPort hP (hf x _)

theorem preserves_setFifos (hf : ∀ x q, f {x with fifo := q}=f x) (ps : List Ref)
    (fs : List (Fifo Bytes)) : Preserves P (setFifos ps fs) := by
  induction ps generalizing fs with
  | nil => exact preserves_pure _
  | cons p ps ih =>
    cases fs with
    | nil => exact preserves_pure _
    | cons q fs =>
      exact preserves_bind (preserves_updatePort hP p fun x => hf x _) fun _ => ih fs

omit hP in
theorem preserves_setObjects (ho : ∀ s os, P s → P {s with host := {s.host with objects := os}})
    (f : Host → List CalvinsysObject) :
    Preserves P (modifyHost fun h => {h with objects := f h}) := by
  intro s a t hr hp
  cases hr
  exact ho s _ hp

omit hP in
theorem preserves_calvinsysClose (ho : ∀ s os, P s → P {s with host := {s.host with objects := os}})
    (id : Bytes) : Preserves P (calvinsysClose id) := by
  refine preserves_bind preserves_get fun s => ?_
  dsimp only
  split
  · exact preserves_pure _
  · split
    · exact preserves_bind preserves_undefined fun _ => preserves_setObjects ho _
    · exact preserves_setObjects ho _

omit hP in
theorem preserves_closeEach (ho : ∀ s os, P s → P {s with host := {s.host with objects := os}})
    (ids : List Bytes) : Preserves P (closeEach ids) := by
  induction ids with
  | nil => exact preserves_pure _
  | cons id ids ih => exact preserves_bind (preserves_calvinsysClose ho id) fun _ => ih

omit hP in
theorem preserves_closeOwn (ho : ∀ s os, P s → P {s with host := {s.host with objects := os}})
    (a : Ref) : Preserves P (closeOwn a) :=
  preserves_bind preserves_get fun _ => preserves_closeEach ho _

/-- What was read of an actor stays true while only the host changes. -/
theorem view_read (a : Ref) (x : Actor) (s : Node) (h : Host) (hm : s.host.Moves h)
    (hp : P s ∧ s.actorMem.get a=some x) :
    P {s with host := h} ∧ ({s with host := h} : Node).actorMem.get a=some x :=
  ⟨view_host hP s h hm hp.1,hp.2⟩

theorem preserves_actorDescribe (hg : ∀ x y : Actor, x.shape=y.shape → g x=g y) (a : Ref)
    (id name : Option Bytes) (privateAttributes managedAttributes : List Attribute)
    (stateWas : StateWas) :
    Preserves P (actorDescribe a id name privateAttributes managedAttributes stateWas) :=
  ensures_bind (ensures_actor a) fun _ => ensures_setActor hP (hg _ _ rfl)

variable (hg : ∀ x y : Actor, x.core=y.core → g x=g y)

include hg

theorem preserves_applyEffect (ho : ∀ s os, P s → P {s with host := {s.host with objects := os}})
    (hf : ∀ x q, f {x with fifo := q}=f x) (a : Ref) (e : Effect) :
    Preserves P (applyEffect a e) := by
  refine ensures_bind (ensures_actor a) fun x =>
    ensures_bind (ensures_setActor hP (hg _ _ rfl)) fun _ => ?_
  exact preserves_bind (preserves_setFifos hP hf _ _) fun _ =>
    preserves_bind (preserves_closeEach ho _) fun _ => preserves_setObjects ho _

omit [Host.Admits M] in
theorem preserves_callback [Host.AdmitsObjects M] (hf : ∀ x q, f {x with fifo := q}=f x) (a : Ref) :
    Preserves P (callback a) := by
  have hh := view_host hP
  have hresult : ∀ e, Preserves P (applyEffect a e >>= fun _ => pure e.result) := fun e =>
    preserves_bind (preserves_applyEffect hP hg (view_objects hP) hf a e) fun _ => preserves_pure _
  refine preserves_bind (preserves_actor a) fun x => ?_
  dsimp only
  split
  · refine preserves_bind preserves_undefined fun _ => preserves_bind (preserves_effect hh) fun e => ?_
    cases e with
    | none => exact preserves_pure _
    | some e => exact hresult e
  · refine preserves_bind (preserves_effect hh) fun e => ?_
    cases e with
    | none => exact preserves_pure _
    | some e => exact hresult e

omit [Host.Admits M] in
theorem preserves_callbackIfSet [Host.AdmitsObjects M] (hf : ∀ x q, f {x with fifo := q}=f x) (a : Ref) :
    Preserves P (callbackIfSet a) := by
  refine preserves_bind (preserves_actor a) fun x => ?_
  split
  · exact preserves_bind (preserves_callback hP hg hf a) fun _ => preserves_pure _
  · exact preserves_pure _

omit hP hg in
theorem preserves_listAddN (hh : ∀ s h, s.host.Moves h → P s → P {s with host := h}) (id : Bytes)
    (data : Option Bytes) (attributes : List Attribute) :
    Preserves P (listAddN id data attributes) := by
  refine preserves_bind (preserves_allocN hh 2) fun b => ?_
  split <;> exact preserves_pure _

omit hP hg in
theorem preserves_addAllEncoded (hh : ∀ s h, s.host.Moves h → P s → P {s with host := h})
    (attributes : List Attribute) (values : List (Bytes × Bytes)) :
    Preserves P (addAllEncoded attributes values) := by
  induction values generalizing attributes with
  | nil => exact preserves_pure _
  | cons v values ih =>
    refine preserves_bind ?_ fun r => ?_
    · refine preserves_bind (preserves_allocN hh 3) fun b => ?_
      split <;> exact preserves_pure _
    · split
      · exact preserves_pure _
      · exact ih _

theorem preserves_getManagedAttributes (mp : Msgpuck) (a : Ref) :
    Preserves P (getManagedAttributes mp a) := by
  have hdrop : ∀ {x : Actor} {α : Type} {y : Atom α},
      Preserves (fun s => P s ∧ s.actorMem.get a=some x) y →
      Ensures (fun s => P s ∧ s.actorMem.get a=some x) y fun _ => P :=
    fun h => ensures_mono h (fun _ h => h) fun _ _ h => h.1
  refine ensures_bind (ensures_actor a) fun x => ?_
  have hh := view_read hP a x
  split
  · exact hdrop (preserves_pure _)
  split
  · exact hdrop preserves_undefined
  · split
    · exact hdrop (preserves_addAllEncoded hh _ _)
    · exact hdrop (preserves_pure _)
  · refine ensures_bind (preserves_addAllEncoded hh _ _) fun r => ?_
    split
    · exact hdrop (preserves_pure _)
    · split
      · exact hdrop (preserves_pure _)
      · refine ensures_bind (preserves_listAddN hh _ _ _) fun r => ?_
        split
        · exact hdrop (preserves_pure _)
        · exact ensures_bind (ensures_setActor hP (hg _ _ rfl)) fun _ => preserves_pure _

theorem preserves_calvinsysGetAttributes (mp : Msgpuck) (a : Ref) :
    Preserves P (calvinsysGetAttributes mp a) := by
  refine preserves_bind preserves_get fun s =>
    preserves_bind (preserves_alloc (view_host hP)) fun b => ?_
  split
  · exact preserves_pure _
  refine ensures_bind (ensures_actor a) fun x =>
    ensures_bind (preserves_listAddN (view_read hP a x) _ _ _) fun r => ?_
  split
  · exact ensures_mono (preserves_pure _) (fun _ h => h) fun _ _ h => h.1
  · exact ensures_bind (ensures_setActor hP (hg _ _ rfl)) fun _ => preserves_pure _

omit hP hg in
theorem preserves_readPorts (ps : List Ref) : Preserves P (readPorts ps) := by
  induction ps with
  | nil => exact preserves_pure _
  | cons p ps ih =>
    refine preserves_bind (preserves_port p) fun x => ?_
    split
    · exact preserves_undefined
    · exact preserves_bind ih fun _ => preserves_pure _

theorem preserves_actorSerialize (mp : Msgpuck) (a : Ref) (includeState : Bool) :
    Preserves P (actorSerialize mp a includeState) := by
  refine preserves_bind (preserves_actor a) fun x => ?_
  split
  · exact preserves_pure _
  refine preserves_bind (preserves_getManagedAttributes hP hg mp a) fun r => ?_
  split
  · exact preserves_pure _
  refine preserves_bind (preserves_calvinsysGetAttributes hP hg mp a) fun r => ?_
  split
  · exact preserves_pure _
  · exact preserves_bind (preserves_actor a) fun _ => preserves_bind (preserves_readPorts _)
      fun _ => preserves_bind (preserves_readPorts _) fun _ => preserves_pure _

end View

theorem preserves_portsState (ps : List Ref) : Preserves P (portsState ps) := by
  induction ps with
  | nil => exact preserves_pure _
  | cons p ps ih =>
    refine preserves_bind (preserves_port p) fun x => ?_
    dsimp only
    split
    · exact preserves_pure _
    · split
      · exact preserves_pure _
      · exact ih

theorem portSetState_eq {p : Ref} {state : PortState} {s t : Node}
    (h : portSetState p state s=some ((),t)) :
    ∃ x y actorState, s.portMem.get p=some x ∧ s.actorMem.get x.actor=some y ∧
      t={s with
        portMem := s.portMem.set p {x with
          state := state
          retries := if state=.enabled && x.state ≠ .enabled then 0 else x.retries}
        actorMem := s.actorMem.set x.actor {y with state := actorState}} := by
  obtain ⟨x,u,hread,h₁⟩ := bind_eq_some.mp h
  obtain ⟨hx,hu⟩ := port_eq_some hread
  subst u
  obtain ⟨⟨⟩,u,hset,h₂⟩ := bind_eq_some.mp h₁
  cases hset
  obtain ⟨y,u,hread,h₃⟩ := bind_eq_some.mp h₂
  obtain ⟨hy,hu⟩ := actor_eq_some hread
  subst u
  obtain ⟨actorState,u,hstate,h₄⟩ := bind_eq_some.mp h₃
  have hu := preserves_portsState (P := fun v => v=_) y.ports _ _ u hstate rfl
  dsimp only at hu
  subst u
  obtain ⟨z,u,hread,h₅⟩ := bind_eq_some.mp h₄
  obtain ⟨hz,hu⟩ := actor_eq_some hread
  subst u
  cases hy.symm.trans hz
  cases h₅
  exact ⟨x,y,actorState,hx,hy,rfl⟩

/-- Where neither the state of a port nor that of an actor matters. -/
theorem preserves_portSetState_view {M : Host → Host → Prop} [Host.Admits M] {β γ : Type}
    {f : Port → β} {g : Actor → γ}
    (hP : ∀ s t, SameViewBy M f g s t → SameTunnels s t → P s → P t)
    (hf : ∀ x state retries, f {x with state := state,retries := retries}=f x)
    (hg : ∀ x state, g {x with state := state}=g x) (p : Ref) (state : PortState) :
    Preserves P (portSetState p state) :=
  ensures_bind (ensures_port p) fun x => ensures_bind (ensures_setPort hP (hf x _ _)) fun _ =>
    preserves_bind (preserves_actor _) fun _ => preserves_bind (preserves_portsState _) fun _ =>
      ensures_bind (ensures_actor _) fun y => ensures_setActor hP (hg y _)

theorem updatePort_eq {p : Ref} {f : Port → Port} {s t : Node}
    (h : updatePort p f s=some ((),t)) :
    ∃ x, s.portMem.get p=some x ∧ t={s with portMem := s.portMem.set p (f x)} := by
  obtain ⟨x,u,hread,h₁⟩ := bind_eq_some.mp h
  obtain ⟨hx,rfl⟩ := port_eq_some hread
  cases h₁
  exact ⟨x,hx,rfl⟩

/-- A property that the small steps on the port `p` keep, apart from its local peer. -/
structure PortRules (P : Node → Prop) (p : Ref) : Prop where
  graph : ∀ s t, SameGraph s t → P s → P t
  setState : ∀ state, Preserves P (portSetState p state)
  tunnel : ∀ t, Preserves P (updatePort p fun x => {x with tunnel := t})
  peerId : ∀ id, Preserves P (updatePort p fun x => {x with peerId := id})
  fifo : Preserves P (portFifoCancel p)

namespace PortRules

variable {p : Ref} (h : PortRules P p)

include h

theorem detach : Preserves P (portDetach p) := by
  refine preserves_bind (preserves_port p) fun x => ?_
  split
  · exact preserves_pure _
  · exact preserves_bind (preserves_tunnelRemoveRef h.graph _) fun _ => h.tunnel none

theorem handleConnect (tunnelId : Text) : Preserves P (portHandleConnect p tunnelId) := by
  refine preserves_bind ?_ fun b => ?_
  · refine preserves_bind (preserves_port p) fun x => ?_
    split
    · exact preserves_pure _
    · exact preserves_bind (preserves_tunnel _) fun _ => preserves_pure _
  split
  · exact preserves_bind (h.setState _) fun _ => preserves_pure _
  refine preserves_bind h.detach fun _ =>
    preserves_bind (preserves_tunnelGetFromId tunnelId) fun t => ?_
  split
  · exact preserves_bind (preserves_bind (h.tunnel _) fun _ =>
      preserves_bind (preserves_tunnelAddRef h.graph _) fun _ =>
        preserves_bind (h.setState _) fun _ => preserves_bind (preserves_tunnel _) fun _ =>
          preserves_bind (preserves_link _) fun _ => h.peerId _) fun _ => preserves_pure _
  · exact preserves_pure _

theorem handleDisconnect : Preserves P (portHandleDisconnect p) :=
  preserves_bind h.fifo fun _ => preserves_bind (h.setState _) fun _ =>
    preserves_bind (h.peerId _) fun _ => h.detach

theorem getTunnel : Preserves P (portGetTunnel p) := by
  refine preserves_bind (preserves_port p) fun x => ?_
  dsimp only
  split
  swap
  · exact preserves_pure _
  refine preserves_bind (preserves_tunnelGetOrCreate h.graph _) fun t => ?_
  split
  · exact preserves_pure _
  · exact preserves_bind (h.tunnel _) fun _ =>
      preserves_bind (preserves_tunnelAddRef h.graph _) fun _ => h.setState _

theorem dropTunnel : Preserves P (portDropTunnel p) :=
  preserves_bind h.detach fun _ => h.setState _

theorem leaveTunnel (unrefTunnel : Bool) : Preserves P (portLeaveTunnel p unrefTunnel) := by
  refine preserves_bind (preserves_port p) fun x => ?_
  split
  · exact preserves_bind (preserves_sendPortDisconnect (graph_host h.graph) p) fun _ => h.detach
  · exact h.tunnel none

theorem restoreTunnel (peerId : Text) : Preserves P (portRestoreTunnel p peerId) := by
  refine preserves_bind (preserves_tunnelGetFromPeeridAndType peerId _) fun t => ?_
  split
  · exact h.setState _
  · exact preserves_bind (h.tunnel _) fun _ => preserves_tunnelAddRef h.graph _

end PortRules

/-- Both ends of a local connection. -/
def portJoin (p q : Ref) : Atom Unit := do
  portDetach p
  portDetach q
  portPeer p q
  portPeer q p

theorem portConnectLocal_cases {p : Ref} {r : Result} {s t : Node}
    (h : portConnectLocal p s=some (r,t)) :
    (s.peerFor p=none ∧ r=.fail ∧ t=s) ∨
      ∃ q, s.peerFor p=some q ∧ r=.success ∧ portJoin p q s=some ((),t) := by
  obtain ⟨x,u,hread,h₁⟩ := bind_eq_some.mp h
  obtain ⟨hx,rfl⟩ := port_eq_some hread
  obtain ⟨found,v,hget,h₂⟩ := bind_eq_some.mp h₁
  obtain ⟨rfl,-⟩ := portGet_found hget
  have hpeer : v.peerFor p=found := by
    rw [Node.peerFor,hx,Option.bind_some,hget]
    rfl
  cases found with
  | none =>
    cases h₂
    exact .inl ⟨hpeer,rfl,rfl⟩
  | some q =>
    refine .inr ⟨q,hpeer,?_⟩
    obtain ⟨⟨⟩,u₁,hd,h₃⟩ := bind_eq_some.mp h₂
    obtain ⟨⟨⟩,u₂,hd',h₄⟩ := bind_eq_some.mp h₃
    obtain ⟨⟨⟩,u₃,hj,h₅⟩ := bind_eq_some.mp h₄
    obtain ⟨⟨⟩,u₄,hj',h₆⟩ := bind_eq_some.mp h₅
    cases h₆
    exact ⟨rfl,bind_eq_some.mpr ⟨(),u₁,hd,bind_eq_some.mpr ⟨(),u₂,hd',
      bind_eq_some.mpr ⟨(),u₃,hj,hj'⟩⟩⟩⟩

/-- A property that the small steps on the ports of `A` keep, their local peers included. -/
structure PeerRules (A : Ref → Prop) (P : Node → Prop) : Prop where
  port : ∀ p, A p → PortRules P p
  peer : ∀ p q id, A p → A q →
    Preserves P (updatePort p fun x => {x with peerPort := some q,peerId := id})
  clear : ∀ p, A p → Preserves P (updatePort p fun x => {x with peerPort := none})

namespace PeerRules

variable {A : Ref → Prop} (h : PeerRules A P)

include h

theorem portPeer {p q : Ref} (hp : A p) (hq : A q) : Preserves P (Atom.portPeer p q) :=
  preserves_bind preserves_get fun _ => preserves_bind (h.peer p q _ hp hq) fun _ =>
    (h.port p hp).setState _

theorem portJoin {p q : Ref} (hp : A p) (hq : A q) : Preserves P (Atom.portJoin p q) :=
  preserves_bind (h.port p hp).detach fun _ => preserves_bind (h.port q hq).detach fun _ =>
    preserves_bind (h.portPeer hp hq) fun _ => h.portPeer hq hp

theorem connectLocal {p : Ref} (hA : ∀ s q, P s → s.peerFor p=some q → A p ∧ A q) :
    Preserves P (portConnectLocal p) := by
  intro s r t hrun hs
  obtain ⟨-,-,rfl⟩ | ⟨q,hq,-,hjoin⟩ := portConnectLocal_cases hrun
  · exact hs
  · obtain ⟨hp,hq⟩ := hA s q hs hq
    exact h.portJoin hp hq s () t hjoin hs

theorem leavePeer {p : Ref} (hp : A p)
    (hA : ∀ s x q, P s → s.portMem.get p=some x → x.peerPort=some q → A q) :
    Preserves P (portLeavePeer p) := by
  refine ensures_bind (ensures_port p) fun x => ?_
  cases hpeer : x.peerPort with
  | none => exact ensures_mono (preserves_pure _) (fun _ h => h.1) fun _ _ h => h
  | some q =>
    intro s u t hrun hs
    have hq := hA s x q hs.1 hs.2 hpeer
    exact preserves_bind ((h.port q hq).setState _) (fun _ => h.clear p hp) s u t hrun hs.1

theorem disconnect {p : Ref} (unrefTunnel : Bool) (hp : A p)
    (hA : ∀ s x q, P s → s.portMem.get p=some x → x.peerPort=some q → A q) :
    Preserves P (portDisconnect p unrefTunnel) :=
  preserves_bind ((h.port p hp).leaveTunnel _) fun _ => preserves_bind (h.leavePeer hp hA) fun _ =>
    preserves_bind ((h.port p hp).peerId _) fun _ =>
      preserves_bind ((h.port p hp).setState _) fun _ => (h.port p hp).fifo

theorem disconnectEach (unrefTunnel : Bool) {ps : List Ref} (hps : ∀ p ∈ ps, A p)
    (hA : ∀ s p x q, p ∈ ps → P s → s.portMem.get p=some x → x.peerPort=some q → A q) :
    Preserves P (Atom.disconnectEach unrefTunnel ps) := by
  induction ps with
  | nil => exact preserves_pure _
  | cons p ps ih =>
    exact preserves_bind (h.disconnect _ (hps p (by simp)) fun s x q => hA s p x q (by simp))
      fun _ => ih (fun q hq => hps q (by simp [hq])) fun s q x r hq => hA s q x r (by simp [hq])

theorem restore {p : Ref} (peerIdLen : Nat) (hp : A p)
    (hA : ∀ s q, P s → s.peerFor p=some q → A q) : Preserves P (portRestore p peerIdLen) := by
  refine preserves_bind (preserves_port p) fun x => preserves_bind preserves_get fun s => ?_
  split
  · exact preserves_bind (h.connectLocal fun s q hs hq => ⟨hp,hA s q hs hq⟩) fun _ =>
      preserves_pure _
  · exact (h.port p hp).restoreTunnel _

end PeerRules

/-- The part of a port that is fixed at its creation. -/
def fixedPart (x : Port) : Bytes × Bytes × Bytes × PortDirection × Ref :=
  (x.id,x.name,x.peerPortId,x.direction,x.actor)

/-- No step on a port touches what is fixed at its creation. -/
theorem fixed_rules {γ : Type} {g : Actor → γ} (hP : ∀ s t, SameView fixedPart g s t → P s → P t)
    (hg : ∀ x state, g {x with state := state}=g x) : PeerRules (fun _ => True) P := by
  have hquiet : ∀ s t, SameView fixedPart g s t → SameTunnels s t → P s → P t :=
    fun s t h _ => hP s t h
  constructor
  · intro p _
    constructor
    · exact fun s t h => hP s t (h.sameView _ _)
    · exact preserves_portSetState_view hquiet (fun _ _ _ => rfl) hg p
    · exact fun _ => preserves_updatePort hquiet p fun _ => rfl
    · exact fun _ => preserves_updatePort hquiet p fun _ => rfl
    · exact preserves_portFifoCancel hquiet (fun _ _ => rfl) p
  · exact fun p _ _ _ _ => preserves_updatePort hquiet p fun _ => rfl
  · exact fun p _ => preserves_updatePort hquiet p fun _ => rfl

/-- `cc_port_get` reads nothing but the lists and the ids. -/
theorem portGet_view {γ : Type} {g : Actor → γ} (hg : ∀ x y : Actor, g x=g y → x.ports=y.ports)
    {s t : Node} (h : SameView fixedPart g s t) (portId : Text) :
    (portGet portId t).map Prod.fst=(portGet portId s).map Prod.fst := by
  have hin : ∀ ps, (portIn portId ps t).map Prod.fst=(portIn portId ps s).map Prod.fst := by
    intro ps
    induction ps with
    | nil => rfl
    | cons p ps ih =>
      have hp := h.port p
      simp only [portIn,bind_apply,port]
      cases hs : s.portMem.get p with
      | none =>
        rw [hs,Option.map_none,Option.map_eq_none_iff] at hp
        rw [hp]
        rfl
      | some x =>
        rw [hs,Option.map_some] at hp
        obtain ⟨y,hy,hxy⟩ := Option.map_eq_some_iff.mp hp
        have hid : y.id=x.id := congrArg Prod.fst hxy
        rw [hy]
        simp only [Option.map_some,Option.bind_some,hid]
        split
        · rfl
        · exact ih
  have hfrom : ∀ as, (portGetFrom portId as t).map Prod.fst=
      (portGetFrom portId as s).map Prod.fst := by
    intro as
    induction as with
    | nil => rfl
    | cons a as ih =>
      have ha := h.actor a
      simp only [portGetFrom,bind_apply,actor]
      cases hs : s.actorMem.get a with
      | none =>
        rw [hs,Option.map_none,Option.map_eq_none_iff] at ha
        rw [ha]
        rfl
      | some x =>
        rw [hs,Option.map_some] at ha
        obtain ⟨y,hy,hxy⟩ := Option.map_eq_some_iff.mp ha
        have hports := hin x.ports
        rw [hy]
        simp only [Option.map_some,Option.bind_some,hg y x hxy]
        cases hr : portIn portId x.ports s with
        | none =>
          rw [hr,Option.map_none,Option.map_eq_none_iff] at hports
          rw [hports]
        | some r =>
          obtain ⟨q,u⟩ := r
          have hu : s=u := preserves_portIn portId x.ports s q u hr rfl
          rw [hr,Option.map_some] at hports
          obtain ⟨⟨q',v⟩,hr',hq⟩ := Option.map_eq_some_iff.mp hports
          have hv : t=v := preserves_portIn portId x.ports t q' v hr' rfl
          subst u v
          dsimp only at hq
          subst q'
          rw [hr']
          cases q with
          | none => exact ih
          | some q => rfl
  have hlist := h.actors
  change (portGetFrom portId t.actors t).map Prod.fst=(portGetFrom portId s.actors s).map Prod.fst
  rw [hlist]
  exact hfrom _

/-- The tunnel to a peer depends on tunnels and links alone. -/
theorem tunnelGetFromPeerid_same {s t : Node} (h : SameTunnels s t) (peerId : Text)
    (type : TunnelType) :
    (tunnelGetFromPeeridAndType peerId type t).map Prod.fst=
      (tunnelGetFromPeeridAndType peerId type s).map Prod.fst := by
  obtain ⟨htunnel,hlink,hlist,-,-,-⟩ := h
  have hin : ∀ ts, (tunnelGetFromPeeridIn peerId type ts t).map Prod.fst=
      (tunnelGetFromPeeridIn peerId type ts s).map Prod.fst := by
    intro ts
    induction ts with
    | nil => rfl
    | cons r ts ih =>
      simp only [tunnelGetFromPeeridIn,bind_apply,tunnel,htunnel]
      cases hr : s.tunnelMem.get r with
      | none => rfl
      | some x =>
        simp only [Option.map_some,Option.bind_some]
        split
        · simp only [bind_apply,link,hlink]
          cases hl : s.linkMem.get x.link with
          | none => rfl
          | some y =>
            simp only [Option.map_some,Option.bind_some]
            split
            · rfl
            · exact ih
        · exact ih
  change (tunnelGetFromPeeridIn peerId type t.tunnels t).map Prod.fst=
    (tunnelGetFromPeeridIn peerId type s.tunnels s).map Prod.fst
  rw [hlist]
  exact hin _

theorem peerFor_view {γ : Type} {g : Actor → γ} (hg : ∀ x y : Actor, g x=g y → x.ports=y.ports)
    {s t : Node} (h : SameView fixedPart g s t) (p : Ref) : t.peerFor p=s.peerFor p := by
  have hp := h.port p
  unfold Node.peerFor
  cases hs : s.portMem.get p with
  | none =>
    rw [hs,Option.map_none,Option.map_eq_none_iff] at hp
    rw [hp]
    rfl
  | some x =>
    rw [hs,Option.map_some] at hp
    obtain ⟨y,hy,hxy⟩ := Option.map_eq_some_iff.mp hp
    have hpeer : y.peerPortId=x.peerPortId := congrArg (fun z => z.2.2.1) hxy
    rw [hy,Option.bind_some,Option.bind_some,hpeer,portGet_view hg h]

/-- A port keeps everything but its tunnel when it lets go of that. -/
theorem portDetach_ports {p : Ref} {s t : Node} (h : portDetach p s=some ((),t)) :
    t.actorMem=s.actorMem ∧ t.actors=s.actors ∧ t.portMem.next=s.portMem.next ∧
    ∀ q, t.portMem.get q=(s.portMem.get q).map fun x => if q=p then {x with tunnel := none} else x := by
  obtain ⟨x,u,hread,h₁⟩ := bind_eq_some.mp h
  obtain ⟨hx,hu⟩ := port_eq_some hread
  subst u
  cases htunnel : x.tunnel with
  | none =>
    simp only [htunnel] at h₁
    cases h₁
    refine ⟨rfl,rfl,rfl,fun q => ?_⟩
    by_cases hq : q=p
    · subst q
      rw [hx,Option.map_some,if_pos rfl,← htunnel]
    · simp [hq]
  | some r =>
    simp only [htunnel] at h₁
    obtain ⟨⟨⟩,u,hremove,h₂⟩ := bind_eq_some.mp h₁
    obtain ⟨hports,hactors,hlist,-⟩ := preserves_tunnelRemoveRef (P := SameGraph s)
      (fun v w hvw hv => hv.trans hvw) r s () u hremove (.refl s)
    obtain ⟨y,v,hread,h₃⟩ := bind_eq_some.mp h₂
    obtain ⟨hy,hv⟩ := port_eq_some hread
    subst v
    cases h₃
    rw [hports] at hy
    cases hx.symm.trans hy
    refine ⟨hactors,hlist,?_,fun q => ?_⟩
    · change (u.portMem.set p _).next=_
      rw [Heap.next_set,hports]
    · change (u.portMem.set p {x with tunnel := none}).get q=_
      rw [hports,Heap.get_set hx]
      split
      · next hq => rw [hq,hx,Option.map_some]
      · simp

theorem portFree_ports {p : Ref} {removeFromRegistry : Bool} {s t : Node}
    (h : portFree p removeFromRegistry s=some ((),t)) :
    t.actorMem=s.actorMem ∧ t.actors=s.actors ∧ t.portMem.next=s.portMem.next ∧
    (∃ x, s.portMem.get p=some x) ∧
    ∀ q, t.portMem.get q=if q=p then none else s.portMem.get q := by
  have hrelease : ∀ {u t : Node}, SameObjects s u → portRelease p u=some ((),t) →
      t.actorMem=s.actorMem ∧ t.actors=s.actors ∧ t.portMem.next=s.portMem.next ∧
      (∃ x, s.portMem.get p=some x) ∧
      ∀ q, t.portMem.get q=if q=p then none else s.portMem.get q := by
    intro u t hu h
    have hmem : u.actorMem=s.actorMem ∧ u.actors=s.actors ∧ u.portMem=s.portMem := by
      unfold SameObjects at hu
      rw [hu]
      exact ⟨rfl,rfl,rfl⟩
    obtain ⟨⟨⟩,v,hdetach,h₁⟩ := bind_eq_some.mp h
    obtain ⟨hactors,hlist,hnext,hget⟩ := portDetach_ports hdetach
    obtain ⟨x,w,hread,h₂⟩ := bind_eq_some.mp h₁
    obtain ⟨hx,hw⟩ := port_eq_some hread
    subst w
    cases hfifo : x.fifo with
    | none =>
      simp only [hfifo,Option.isNone_none,if_true] at h₂
      cases h₂
    | some f =>
      simp only [hfifo,Option.isNone_some,Bool.false_eq_true,if_false] at h₂
      cases h₂
      refine ⟨hactors.trans hmem.1,hlist.trans hmem.2.1,?_,?_,fun q => ?_⟩
      · change (v.portMem.free p).next=_
        rw [Heap.next_free,hnext,hmem.2.2]
      · rw [hget,hmem.2.2] at hx
        obtain ⟨y,hy,-⟩ := Option.map_eq_some_iff.mp hx
        exact ⟨y,hy⟩
      · change (v.portMem.free p).get q=_
        rw [Heap.get_free,hget,hmem.2.2]
        split
        · rfl
        · next hq => simp
  cases removeFromRegistry with
  | false => exact hrelease (.refl s) h
  | true =>
    obtain ⟨r,u,hsend,h₁⟩ := bind_eq_some.mp h
    exact hrelease (preserves_sendRemovePort (sameObjects_host s) p s r u hsend (.refl s)) h₁

theorem freePorts_ports {removeFromRegistry : Bool} {ps : List Ref} {s t : Node}
    (h : freePorts removeFromRegistry ps s=some ((),t)) :
    t.actorMem=s.actorMem ∧ t.actors=s.actors ∧ t.portMem.next=s.portMem.next ∧
    ∀ q, t.portMem.get q=if q ∈ ps then none else s.portMem.get q := by
  induction ps generalizing s with
  | nil =>
    cases h
    exact ⟨rfl,rfl,rfl,fun q => by simp⟩
  | cons p ps ih =>
    obtain ⟨⟨⟩,u,hfree,h₁⟩ := bind_eq_some.mp h
    obtain ⟨hactors,hlist,hnext,-,hget⟩ := portFree_ports hfree
    obtain ⟨hactors',hlist',hnext',hget'⟩ := ih h₁
    refine ⟨hactors'.trans hactors,hlist'.trans hlist,hnext'.trans hnext,fun q => ?_⟩
    rw [hget',hget]
    by_cases hq : q ∈ ps
    · simp [hq]
    · by_cases hqp : q=p
      · simp [hqp]
      · simp [hq,hqp]

/-- A port without its queue. -/
def apartFromFifo (x : Port) : Port := {x with fifo := none}

/-- `cc_actor_free` in its three parts: callbacks and calvinsys objects, ports, list. -/
theorem actorFree_eq {a : Ref} {removeFromRegistry : Bool} {s t : Node}
    (h : actorFree a removeFromRegistry s=some ((),t)) :
    ∃ u v x host, SameView apartFromFifo Actor.core s u ∧ SameTunnels s u ∧
      u.actorMem.get a=some x ∧ freePorts removeFromRegistry x.ports u=some ((),v) ∧
      t={v with
        host := host
        actors := s.actors.eraseP (unlinks s a)
        actorMem := v.actorMem.free a} := by
  have hquiet : ∀ v w : Node, SameView apartFromFifo Actor.core v w → SameTunnels v w →
      (SameView apartFromFifo Actor.core s v ∧ SameTunnels s v) →
      SameView apartFromFifo Actor.core s w ∧ SameTunnels s w := by
    rintro v w hvw ⟨h₁,h₂,h₃,h₄,h₅,h₆⟩ ⟨hv,k₁,k₂,k₃,k₄,k₅,k₆⟩
    exact ⟨hv.trans hvw,h₁.trans k₁,h₂.trans k₂,h₃.trans k₃,h₄.trans k₄,h₅.trans k₅,h₆.trans k₆⟩
  have hlast : Ensures (fun u => SameView apartFromFifo Actor.core s u ∧ SameTunnels s u)
      (actorFree a removeFromRegistry) fun _ t =>
        ∃ u v x host, SameView apartFromFifo Actor.core s u ∧ SameTunnels s u ∧
          u.actorMem.get a=some x ∧ freePorts removeFromRegistry x.ports u=some ((),v) ∧
          t={v with
            host := host
            actors := s.actors.eraseP (unlinks s a)
            actorMem := v.actorMem.free a} := by
    refine ensures_actorFree (Q := fun v => ∃ u x, SameView apartFromFifo Actor.core s u ∧
      SameTunnels s u ∧ u.actorMem.get a=some x ∧
      freePorts removeFromRegistry x.ports u=some ((),v))
      (preserves_callbackIfSet hquiet (fun _ _ h => h) (fun _ _ => rfl) a)
      (preserves_closeOwn (view_objects hquiet) a) (fun x => ?_) ?_
    · rintro u ⟨⟩ v hv ⟨⟨hview,htun⟩,hx⟩
      exact ⟨u,x,hview,htun,hx,hv⟩
    · rintro v ⟨⟩ w hw ⟨u,x,hview,htun,hx,hfree⟩
      obtain ⟨host,rfl⟩ := actorUnlink_eq hw
      obtain ⟨hactors,hlist,-,-⟩ := freePorts_ports hfree
      refine ⟨u,v,x,host,hview,htun,hx,hfree,?_⟩
      have hid : ∀ b, (v.actorMem.get b).bind Actor.id=(s.actorMem.get b).bind Actor.id := by
        intro b
        rw [hactors]
        have := congrArg (fun o => o.bind Actor.id) (hview.actor b)
        cases hu : u.actorMem.get b <;> cases hs : s.actorMem.get b <;>
          simp_all [Actor.core]
      have hun : unlinks v a=unlinks s a := by
        funext b
        rw [unlinks,unlinks,hid,hid]
      rw [hun,hlist,hview.actors]
  exact hlast s () t h ⟨.refl _ _ s,.refl s⟩

end Atom

end CalvinConstrained
