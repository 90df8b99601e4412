import CalvinConstrained.Runtime.Live

namespace CalvinConstrained

/-- No pointer of the node leads to a freed object, and none will after a tunnel is given up: the
tunnel leaves the list under its own id, and its link stays while another tunnel is on it. -/
structure Intact (s : Node) : Prop where
  linked : Linked s
  routed : Routed s
  queued : ∀ p x, s.portMem.get p=some x → x.fifo.isSome=true
  single : s.tunnels.Nodup
  unlinks : ∀ t ∈ s.tunnels, ∀ u ∈ s.tunnels, ∀ x y, s.tunnelMem.get t=some x →
    s.tunnelMem.get u=some y → listRemoveMatches x.id y.id=true → t=u
  shared : ∀ t u x y l, s.tunnelMem.get t=some x → s.tunnelMem.get u=some y → t ≠ u →
    x.link=y.link → s.linkMem.get x.link=some l → l.refCount ≠ 1

/-- The tunnels in the list are there, with their links. -/
def Walkable (s : Node) : Prop :=
  ∀ t ∈ s.tunnels, ∃ x l, s.tunnelMem.get t=some x ∧ s.linkMem.get x.link=some l

theorem Routed.walkable {s : Node} (h : Routed s) : Walkable s := by
  intro t ht
  obtain ⟨x,hx⟩ := h.tunnels t ht
  obtain ⟨l,hl⟩ := h.link t x hx
  exact ⟨x,l,hx,hl⟩

theorem Routed.of_view {γ : Type} {g : Actor → γ} {s t : Node} (h : SameView Port.tunnel g s t)
    (ht : SameTunnels s t) (hs : Routed s) : Routed t where
  tunnels := by
    rw [ht.1,ht.2.2.1]
    exact hs.tunnels
  links := by
    rw [ht.2.1,ht.2.2.2.1]
    exact hs.links
  link := by
    rw [ht.1,ht.2.1]
    exact hs.link
  tunnel := by
    intro p y r hy hr
    obtain ⟨x,hx,hsame⟩ := h.port_before hy
    rw [ht.1]
    exact hs.tunnel p x r hx (hsame.trans hr)

namespace Atom

variable {s t : Node}

theorem tunnelId_eq {r : Ref} {i : Bytes} (h : (do return (← tunnel r).id : Atom Bytes) s=some (i,t)) :
    t=s ∧ (s.tunnelMem.get r).map Tunnel.id=some i := by
  obtain ⟨x,u,hread,h₁⟩ := bind_eq_some.mp h
  obtain ⟨hx,rfl⟩ := tunnel_eq_some hread
  cases h₁
  exact ⟨rfl,by rw [hx,Option.map_some]⟩

/-- A link without its last reference is freed, the other links stay. -/
theorem linkRemoveRef_others {l : Ref} {x : Link} (hx : s.linkMem.get l=some x)
    (h : linkRemoveRef l s=some ((),t)) (k : Ref) (hk : k=l → x.refCount ≠ 1) {y : Link}
    (hy : s.linkMem.get k=some y) : ∃ z, t.linkMem.get k=some z := by
  obtain ⟨x',u,hread,h₁⟩ := bind_eq_some.mp h
  obtain ⟨hx',rfl⟩ := link_eq_some hread
  cases hx.symm.trans hx'
  obtain ⟨⟨⟩,v,hset,h₂⟩ := bind_eq_some.mp h₁
  cases hset
  have hget : ∃ z, (u.linkMem.set l {x with refCount := x.refCount-1}).get k=some z := by
    rw [Heap.get_set hx]
    split
    · exact ⟨_,rfl⟩
    · exact ⟨y,hy⟩
  split at h₂
  · next hzero =>
    have hne : k ≠ l := fun he => hk he (by
      rw [← sub_add_cancel x.refCount 1,hzero,zero_add])
    obtain ⟨z,w,hread',h₃⟩ := bind_eq_some.mp h₂
    obtain ⟨-,rfl⟩ := link_eq_some hread'
    obtain ⟨w',w'',hgot,h₄⟩ := bind_eq_some.mp h₃
    cases hgot
    obtain ⟨links,w'',hremove,h₅⟩ := bind_eq_some.mp h₄
    have hw := preserves_listRemove (P := fun v => v=_) (fun r => preserves_bind (preserves_link r)
      fun _ => preserves_pure _) _ _ _ links w'' hremove rfl
    cases h₅
    dsimp only at hw
    subst w''
    change ∃ z, (Heap.free _ l).get k=some z
    rw [Heap.get_free,if_neg hne]
    exact hget
  · cases h₂
    exact hget

/-- The list of an intact node names no freed tunnel once one was given up. -/
theorem tunnelRemoveRef_walkable {r : Ref} (hs : Intact s) (h : tunnelRemoveRef r s=some ((),t)) :
    Walkable t := by
  obtain ⟨x,u,hread,h₁⟩ := bind_eq_some.mp h
  obtain ⟨hx,rfl⟩ := tunnel_eq_some hread
  obtain ⟨⟨⟩,v,hset,h₂⟩ := bind_eq_some.mp h₁
  cases hset
  have hget : ∀ q y, u.tunnelMem.get q=some y →
      ∃ z, (u.tunnelMem.set r {x with refCount := x.refCount-1}).get q=some z ∧ z.id=y.id ∧
        z.link=y.link := by
    intro q y hy
    rw [Heap.get_set hx]
    split
    · next hq =>
      rw [hq] at hy
      cases hx.symm.trans hy
      exact ⟨_,rfl,rfl,rfl⟩
    · exact ⟨y,hy,rfl,rfl⟩
  split at h₂
  swap
  · cases h₂
    intro q hq
    obtain ⟨y,l,hy,hl⟩ := hs.routed.walkable q hq
    obtain ⟨z,hz,-,hlink⟩ := hget q y hy
    exact ⟨z,l,hz,by rw [hlink]; exact hl⟩
  obtain ⟨⟨⟩,v,hsend,h₃⟩ := bind_eq_some.mp h₂
  have hv := preserves_sendTunnelDestroy (P := SameObjects {u with
    tunnelMem := u.tunnelMem.set r {x with refCount := x.refCount-1}}) (sameObjects_host _) x _ _ _
      hsend (.refl _)
  obtain ⟨x',w,hread',h₄⟩ := bind_eq_some.mp h₃
  obtain ⟨hx',rfl⟩ := tunnel_eq_some hread'
  rw [hv] at hx'
  cases (Heap.get_set_self hx _).symm.trans hx'
  obtain ⟨⟨⟩,w',hremove,h₅⟩ := bind_eq_some.mp h₄
  obtain ⟨hmem,hlist⟩ := linkRemoveRef_tunnels hremove
  obtain ⟨l₀,hl₀⟩ := hs.routed.link r x hx
  have hl₁ : w.linkMem.get x.link=some l₀ := by
    rw [hv]
    exact hl₀
  obtain ⟨w₁,w₂,hgot,h₆⟩ := bind_eq_some.mp h₅
  cases hgot
  obtain ⟨tunnels,w₃,hunlink,h₇⟩ := bind_eq_some.mp h₆
  obtain ⟨rfl,htunnels⟩ := listRemove_eq (fun _ _ _ => tunnelId_eq) hunlink
  cases h₇
  have hmem' : w₃.tunnelMem=u.tunnelMem.set r {x with refCount := x.refCount-1} := by
    rw [hmem,hv]
  have hlist' : w₃.tunnels=u.tunnels := by
    rw [hlist,hv]
  rw [hlist'] at htunnels
  have hne : ∀ q ∈ tunnels, q ≠ r := by
    rintro q hq rfl
    have hin : q ∈ u.tunnels := List.mem_of_mem_eraseP (htunnels ▸ hq)
    obtain ⟨z,hz,hzid,-⟩ := hget q x hx
    obtain ⟨e,l₁,l₂,-,he,hsplit,herase⟩ := List.exists_of_eraseP
      (p := fun k => ((w₃.tunnelMem.get k).map Tunnel.id).any fun i => listRemoveMatches i x.id)
      hin (by simp [hmem',hz,hzid,listRemoveMatches,strncmpEq])
    have he' : e=q := by
      have hmem : e ∈ u.tunnels := by simp [hsplit]
      obtain ⟨y,hy⟩ := hs.routed.tunnels e hmem
      obtain ⟨z',hz',hid',-⟩ := hget e y hy
      refine hs.unlinks e hmem q hin y x hy hx ?_
      simpa [hmem',hz',hid'] using he
    subst he'
    rw [htunnels,herase] at hq
    have hnodup := hs.single
    rw [hsplit] at hnodup
    exact (List.nodup_cons.mp (List.nodup_middle.mp hnodup)).1 hq
  intro q hq
  have hin : q ∈ u.tunnels := List.mem_of_mem_eraseP (htunnels ▸ hq)
  obtain ⟨y,l,hy,hl⟩ := hs.routed.walkable q hin
  obtain ⟨z,hz,-,hlink⟩ := hget q y hy
  obtain ⟨l',hl'⟩ := linkRemoveRef_others hl₁ hremove y.link (fun he => hs.shared r q x y l₀ hx hy
    (hne q hq).symm he.symm hl₀) (y := l) (by rw [hv]; exact hl)
  refine ⟨z,l',?_,by rw [hlink]; exact hl'⟩
  change (Heap.free _ r).get q=some z
  rw [Heap.get_free,if_neg (hne q hq),hmem']
  exact hz

/-- Pointers and the port `p` are there. -/
def Reached (p : Ref) (s : Node) : Prop :=
  Linked s ∧ Routed s ∧ ∃ x, s.portMem.get p=some x

theorem reached_view (p : Ref) (s t : Node)
    (h : SameView (fun x => (fixedPart x,x.tunnel)) Actor.ports s t) (ht : SameTunnels s t)
    (hs : Reached p s) : Reached p t := by
  obtain ⟨hl,hr,x,hx⟩ := hs
  obtain ⟨y,hy,-⟩ := h.port_after hx
  exact ⟨hl.of_sameView (h.coarsen (fun _ _ he => congrArg Prod.fst he) fun _ _ he => he),
    hr.of_view (h.coarsen (fun _ _ he => congrArg Prod.snd he) fun _ _ he => he) ht,y,hy⟩

/-- `cc_port_handle_disconnect` can be called on every port of an intact node. -/
theorem defined_portHandleDisconnect (p : Ref) :
    Defined (fun s => Intact s ∧ ∃ x, s.portMem.get p=some x) (portHandleDisconnect p) := by
  have hcancel : Defined (fun s => Intact s ∧ ∃ x, s.portMem.get p=some x) (portFifoCancel p) := by
    refine defined_bind (defined_port fun s hs => hs.2) (ensures_port p) fun x => ?_
    rintro s ⟨⟨hs,-⟩,hx⟩
    obtain ⟨f,hf⟩ := Option.isSome_iff_exists.mp (hs.queued p x hx)
    exact ⟨_,_,by rw [hf]; rfl⟩
  refine defined_bind (Q := fun _ => Reached p) hcancel
    (ensures_mono (preserves_portFifoCancel (reached_view p) (fun _ _ => rfl) p)
      (fun s hs => ⟨hs.1.linked,hs.1.routed,hs.2⟩) fun _ _ h => h) fun _ => ?_
  refine defined_seq (defined_mono (defined_portSetState p _) fun s hs => ⟨hs.1,hs.2.2⟩)
    (preserves_portSetState_view (reached_view p) (fun _ _ _ => rfl) (fun _ _ => rfl) p _) fun _ => ?_
  refine defined_seq (defined_updatePort _ fun s hs => hs.2.2)
    (preserves_updatePort (reached_view p) p fun _ => rfl) fun _ => ?_
  exact defined_mono (defined_portDetach p) fun s hs => ⟨hs.2.1,hs.2.2⟩

theorem defined_tunnelGetFromId (tunnelId : Text) : Defined Walkable (tunnelGetFromId tunnelId) := by
  have hin : ∀ ts, Defined (fun s => ∀ t ∈ ts, ∃ x, s.tunnelMem.get t=some x)
      (tunnelGetFromIdIn tunnelId ts) := by
    intro ts
    induction ts with
    | nil => exact defined_pure _
    | cons r ts ih =>
      refine defined_seq (defined_tunnel fun s hs => hs r (by simp)) (preserves_tunnel r) fun x => ?_
      split
      · exact defined_pure _
      · exact defined_mono ih fun s hs q hq => hs q (by simp [hq])
  intro s hs
  refine hin s.tunnels s fun q hq => ?_
  obtain ⟨x,l,hx,-⟩ := hs q hq
  exact ⟨x,hx⟩

/-- The port and the tunnel it is put on are there. -/
def Bound (p r : Ref) (s : Node) : Prop :=
  Linked s ∧ (∃ x, s.portMem.get p=some x) ∧
    ∃ y l, s.tunnelMem.get r=some y ∧ s.linkMem.get y.link=some l

theorem bound_view (p r : Ref) (s t : Node) (h : SameView fixedPart Actor.ports s t)
    (ht : SameTunnels s t) (hs : Bound p r s) : Bound p r t := by
  obtain ⟨hl,⟨x,hx⟩,y,l,hy,hlink⟩ := hs
  obtain ⟨z,hz,-⟩ := h.port_after hx
  exact ⟨hl.of_sameView h,⟨z,hz⟩,y,l,by rw [ht.1]; exact hy,by rw [ht.2.1]; exact hlink⟩

theorem defined_portEnableOn (p r : Ref) : Defined (Bound p r) (portEnableOn p r) := by
  have hread : Defined (Bound p r) (tunnel r) := defined_tunnel fun s hs => by
    obtain ⟨-,-,y,l,hy,-⟩ := hs
    exact ⟨y,hy⟩
  have href : Preserves (Bound p r) (tunnelAddRef r) := by
    rintro s ⟨⟩ t h ⟨hl,hp,y,l,hy,hlink⟩
    obtain ⟨y',u,hread,h₁⟩ := bind_eq_some.mp h
    obtain ⟨hy',rfl⟩ := tunnel_eq_some hread
    cases hy.symm.trans hy'
    cases h₁
    exact ⟨⟨hl.actors,hl.ports,hl.owner⟩,hp,_,l,Heap.get_set_self hy _,hlink⟩
  refine defined_seq (defined_updatePort _ fun s hs => hs.2.1)
    (preserves_updatePort (bound_view p r) p fun _ => rfl) fun _ => ?_
  refine defined_seq (defined_seq hread (preserves_tunnel r) fun _ _ _ => ⟨_,_,rfl⟩) href fun _ => ?_
  refine defined_seq (defined_mono (defined_portSetState p _) fun s hs => ⟨hs.1,hs.2.1⟩)
    (preserves_portSetState_view (bound_view p r) (fun _ _ _ => rfl) (fun _ _ => rfl) p _) fun _ => ?_
  refine defined_bind hread (ensures_tunnel r) fun y => ?_
  refine defined_bind (Q := fun _ s => Bound p r s) (defined_link fun s hs => ?_)
    (ensures_mono (preserves_link _) (fun s hs => hs.1) fun _ _ h => h) fun _ =>
      defined_updatePort _ fun s hs => hs.2.1
  obtain ⟨⟨-,-,y',l,hy',hl⟩,hy⟩ := hs
  cases hy.symm.trans hy'
  exact ⟨l,hl⟩

/-- `cc_port_handle_connect` can be called on every port of an intact node. -/
theorem defined_portHandleConnect (p : Ref) (tunnelId : Text) :
    Defined (fun s => Intact s ∧ ∃ x, s.portMem.get p=some x) (portHandleConnect p tunnelId) := by
  have hkeep : Preserves (fun s => Intact s ∧ ∃ x, s.portMem.get p=some x)
      (portOnTunnel p tunnelId) := by
    refine preserves_bind (preserves_port p) fun x => ?_
    split
    · exact preserves_pure _
    · exact preserves_bind (preserves_tunnel _) fun _ => preserves_pure _
  have hon : Defined (fun s => Intact s ∧ ∃ x, s.portMem.get p=some x) (portOnTunnel p tunnelId) := by
    refine defined_bind (defined_port fun s hs => hs.2) (ensures_port p) fun x => ?_
    cases hx : x.tunnel with
    | none => exact defined_pure _
    | some r =>
      refine defined_seq (defined_tunnel fun s hs => ?_) (preserves_tunnel r) fun _ => defined_pure _
      exact hs.1.1.routed.tunnel p x r hs.2 hx
  refine defined_seq hon hkeep fun b => ?_
  split
  · exact defined_bind (Q := fun _ _ => True) (defined_mono (defined_portSetState p _)
      fun s hs => ⟨hs.1.linked,hs.2⟩) (fun _ _ _ _ _ => trivial) fun _ => defined_pure _
  refine defined_bind (Q := fun _ s => (Linked s ∧ ∃ x, s.portMem.get p=some x) ∧ Walkable s)
    (defined_mono (defined_portDetach p) fun s hs => ⟨hs.1.routed,hs.2⟩) ?_ fun _ => ?_
  · rintro s ⟨⟩ t h ⟨hs,hp⟩
    refine ⟨((linked_rules p).port p trivial).detach s () t h ⟨hs.linked,hp⟩,?_⟩
    obtain ⟨x,u,hread,h₁⟩ := bind_eq_some.mp h
    obtain ⟨hx,rfl⟩ := port_eq_some hread
    cases htunnel : x.tunnel with
    | none =>
      simp only [htunnel] at h₁
      cases h₁
      exact hs.routed.walkable
    | some r =>
      simp only [htunnel] at h₁
      obtain ⟨⟨⟩,v,hremove,h₂⟩ := bind_eq_some.mp h₁
      obtain ⟨y,-,rfl⟩ := updatePort_eq h₂
      have hlisted : Walkable v := tunnelRemoveRef_walkable hs hremove
      exact hlisted
  refine defined_bind (Q := fun found s => (Linked s ∧ ∃ x, s.portMem.get p=some x) ∧
      ∀ r, found=some r → Bound p r s)
    (defined_mono (defined_tunnelGetFromId tunnelId) fun s hs => hs.2) ?_ fun found => ?_
  · rintro s found t h ⟨hs,hlisted⟩
    obtain ⟨rfl,hfound⟩ := tunnelGetFromId_found h
    refine ⟨hs,fun r hr => ?_⟩
    obtain ⟨y,l,hy,hl⟩ := hlisted r (hfound r hr).1
    exact ⟨hs.1,hs.2,y,l,hy,hl⟩
  · cases found with
    | none => exact defined_pure _
    | some r =>
      exact defined_bind (Q := fun _ _ => True) (defined_mono (defined_portEnableOn p r)
        fun s hs => hs.2 r rfl) (fun _ _ _ _ _ => trivial) fun _ => defined_pure _

end Atom

end CalvinConstrained
