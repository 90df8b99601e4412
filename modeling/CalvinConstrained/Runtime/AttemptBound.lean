import CalvinConstrained.Runtime.Attempts

namespace CalvinConstrained

open Prog

namespace TopOp

/-- The port begins a connection attempt. -/
def begins (p : Ref) : TopOp → Bool
  | .base (.retry q) => decide (q=p)
  | _ => false

/-- The port enters the state that follows a lookup it sent. -/
def looksUp (p : Ref) : TopOp → Bool
  | .base (.setState q state) => decide (q=p ∧ state=.pendingLookup)
  | _ => false

/-- The port enters the state that follows a PORT_CONNECT it sent. -/
def asksConnect (p : Ref) : TopOp → Bool
  | .base (.setState q state) => decide (q=p ∧ state=.pendingConnect)
  | _ => false

/-- The operation does not enable the port. -/
def KeepsDisabled (mp : Msgpuck) (p : Ref) (o : TopOp) (s : Node) : Prop :=
  ∀ t, o.apply mp s=some t → t.portState p=some .enabled → s.portState p=some .enabled

end TopOp

/-- Attempts, lookups and PORT_CONNECTs of a port are paid for. -/
structure Affords (p : Ref) (s : Node) (ops : List TopOp) (t : Node) : Prop where
  attempts : ops.countP (TopOp.begins p)+t.attemptsLeft p ≤ s.attemptsLeft p
  lookups : ops.countP (TopOp.looksUp p)+t.attemptsLeft p ≤ s.attemptsLeft p
  connects : ops.countP (TopOp.asksConnect p)+t.connectsLeft p ≤ s.connectsLeft p

/-- The attempts of a port are counted, and paid for while it is not enabled. -/
def CountsAttempts (mp : Msgpuck) (p : Ref) : Trace Node TopOp := fun s ops t =>
  s.Counts p → t.Counts p ∧
    (Runs (TopOp.apply mp) (TopOp.KeepsDisabled mp p) s ops t → Affords p s ops t)

section Trace

variable {mp : Msgpuck} {p : Ref} {s t : Node}

theorem countsAttempts_closed : (CountsAttempts mp p).Closed (TopOp.apply mp) where
  nil s hs := ⟨hs,fun _ => ⟨by simp,by simp,by simp⟩⟩
  append := by
    intro s t u ops ops' hr hst htu hs
    obtain ⟨ht,hpay⟩ := hst hs
    obtain ⟨hu,hpay'⟩ := htu ht
    refine ⟨hu,fun hruns => ?_⟩
    obtain ⟨t',h₁,h₂⟩ := hruns.split
    obtain rfl : t'=t := h₁.unique hr
    obtain ⟨ha,hl,hc⟩ := hpay h₁
    obtain ⟨ha',hl',hc'⟩ := hpay' h₂
    constructor <;> rw [List.countP_append] <;> omega

theorem countsAttempts_of_advances {o : TopOp} (hs : o.apply mp s=some t) (h : s.Advances p t)
    (hb : o.begins p=false) (hl : o.looksUp p=false) (hc : o.asksConnect p=false) :
    CountsAttempts mp p s [o] t := by
  intro hcounts
  refine ⟨h.counts hcounts,fun hruns => ?_⟩
  cases hruns with
  | cons hok _ _ =>
    obtain ⟨ha,hl'⟩ := h.left hcounts (hok t hs)
    constructor <;> simp [hb,hl,hc,ha,hl']

theorem countsAttempts_op {o : TopOp} (ho : o.plain=true) (hs : o.apply mp s=some t) :
    CountsAttempts mp p s [o] t := by
  refine countsAttempts_of_advances hs (TopOp.advances ho hs) ?_ ?_ ?_ <;> cases o with
  | base o =>
    cases o with
    | setState q state =>
      have hstate : state ∉ [PortState.pendingTunnel,.pendingConnect,.pendingLookup] :=
        of_decide_eq_true ho
      simp at hstate
      simp [TopOp.begins,TopOp.looksUp,TopOp.asksConnect,hstate]
    | retry q => cases ho
    | _ => rfl
  | _ => rfl

/-- What a port does is no attempt of another port. -/
theorem countsAttempts_base {o : Op} (ho : o.Spares p) (hs : o.apply mp s=some t) :
    (CountsAttempts mp p).flow s [o] t := by
  refine countsAttempts_of_advances (o := .base o) hs (Op.advances ho hs) ?_ ?_ ?_ <;> cases o with
  | setState q state =>
    by_cases hq : q=p
    · have hstate := ho hq
      simp at hstate
      simp [TopOp.begins,TopOp.looksUp,TopOp.asksConnect,hstate]
    · simp [TopOp.begins,TopOp.looksUp,TopOp.asksConnect,hq]
  | retry q => simp [TopOp.begins,TopOp.looksUp,TopOp.asksConnect,show q ≠ p from ho]
  | _ => rfl

end Trace

section Runs

variable {mp : Msgpuck} {p : Ref} {s t : Node}

theorem run_look_eq_some {α ω : Type} {apply : ω → Node → Option Node} {x : Atom α} {a : α}
    {ops : List ω} (h : (look x : Prog apply α).run s=some (a,t,ops)) :
    t=s ∧ ops=[] ∧ ∃ u, x s=some (a,u) := by
  obtain ⟨v,u,ops₁,ops₂,hread,hrest,rfl⟩ := run_bind_eq_some h
  cases hread
  cases hx : x s with
  | none =>
    rw [hx] at hrest
    cases hrest
  | some r =>
    rw [hx] at hrest
    cases hrest
    exact ⟨rfl,rfl,r.2,rfl⟩

theorem run_host_eq_some {α : Type} {x : Atom α} {a : α} {ops : List Op}
    (h : (Flow.host x : Flow mp α).run s=some (a,t,ops)) :
    ∃ u, x s=some (a,u) ∧ t={s with host := u.host} ∧ ops=[.host u.host] := by
  obtain ⟨v,u,ops₁,ops₂,hread,hrest,rfl⟩ := run_bind_eq_some h
  cases hread
  cases hx : x s with
  | none =>
    rw [hx] at hrest
    cases hrest
  | some r =>
    rw [hx] at hrest
    obtain ⟨v,w,ops₁,ops₂,hact,hpure,rfl⟩ := run_bind_eq_some hrest
    obtain ⟨hw,rfl⟩ := run_act hact
    cases hw
    cases hpure
    exact ⟨r.2,rfl,rfl,rfl⟩

namespace Atom

theorem send_sent {m : Outgoing} {r : Result} (h : send m s=some (r,t)) :
    t.host.sent=if r=.success then s.host.sent++[m] else s.host.sent := by
  unfold send at h
  split at h
  · cases h
    rfl
  · split at h <;> cases h <;> rfl

theorem keepsSent_alloc (sent : List Outgoing) :
    Preserves (fun v : Node => v.host.sent=sent) alloc := by
  intro u b v hr hu
  unfold alloc at hr
  split at hr <;> cases hr <;> exact hu

theorem keepsSent_modifyHost (sent : List Outgoing) {f : Host → Host}
    (hf : ∀ h, (f h).sent=h.sent) :
    Preserves (fun v : Node => v.host.sent=sent) (modifyHost f) := by
  intro u b v hr hu
  cases hr
  exact (hf u.host).trans hu

theorem keepsSent_addPendingMsg (sent : List Outgoing) (m : PendingMsg) :
    Preserves (fun v : Node => v.host.sent=sent) (addPendingMsg m) := by
  have hallocs : ∀ n, Preserves (fun v : Node => v.host.sent=sent) (allocN n) := by
    intro n
    induction n with
    | zero => exact preserves_pure _
    | succ n ih =>
      refine preserves_bind (keepsSent_alloc sent) fun b => ?_
      split
      · exact preserves_pure _
      · exact ih
  refine preserves_bind (hallocs 3) fun b => ?_
  split
  · exact preserves_pure _
  · exact preserves_bind (keepsSent_modifyHost sent fun _ => rfl) fun _ => preserves_pure _

theorem keepsSent_removePendingMsg (sent : List Outgoing) (msgUuid : Bytes) :
    Preserves (fun v : Node => v.host.sent=sent) (removePendingMsg msgUuid) :=
  keepsSent_modifyHost sent fun h => by split <;> rfl

/-- A request that succeeds has sent its message, and one that fails has sent none. -/
theorem request_sent {m : Outgoing} {handler : Handler} {msgData : Option Ref} {r : Result}
    (h : request m handler msgData s=some (r,t)) :
    t.host.sent=if r=.success then s.host.sent++[m] else s.host.sent := by
  obtain ⟨⟨⟩,u₁,htransport,h₁⟩ := bind_eq_some.mp h
  obtain ⟨-,-,he⟩ := Option.map_eq_some_iff.mp htransport
  cases he
  obtain ⟨id,u₂,huuid,h₂⟩ := bind_eq_some.mp h₁
  have hid : u₂.host.sent=s.host.sent := by
    unfold uuid at huuid
    split at huuid <;> cases huuid <;> rfl
  obtain ⟨added,u₃,hadd,h₃⟩ := bind_eq_some.mp h₂
  have hadded := keepsSent_addPendingMsg _ _ u₂ added u₃ hadd hid
  split at h₃
  · obtain ⟨result,u₄,hsend,h₄⟩ := bind_eq_some.mp h₃
    have hsent := send_sent hsend
    rw [hadded] at hsent
    split at h₄
    · next hresult =>
      cases h₄
      rw [hsent,if_pos hresult,if_pos rfl]
    · next hresult =>
      rw [if_neg hresult] at hsent
      obtain ⟨⟨⟩,u₅,hremove,hend⟩ := bind_eq_some.mp h₄
      cases hend
      rw [if_neg (by decide)]
      exact keepsSent_removePendingMsg _ _ u₄ () _ hremove hsent
  · cases h₃
    rw [if_neg (by decide)]
    exact hadded

theorem needTransport_eq {u : Unit} (h : needTransport s=some (u,t)) : t=s := by
  obtain ⟨-,-,he⟩ := Option.map_eq_some_iff.mp h
  cases he
  rfl

/-- A PORT_CONNECT names the port, its peer and its tunnel. -/
theorem sendPortConnect_sent {r : Result} (h : sendPortConnect p s=some (r,t)) :
    ∃ x tunnel y, s.portMem.get p=some x ∧ x.tunnel=some tunnel ∧ s.tunnelMem.get tunnel=some y ∧
      t.host.sent=if r=.success then s.host.sent++[.portConnect x.id x.peerPortId y.id]
        else s.host.sent := by
  obtain ⟨⟨⟩,u,htransport,h₁⟩ := bind_eq_some.mp h
  obtain rfl := needTransport_eq htransport
  obtain ⟨x,v,hread,h₂⟩ := bind_eq_some.mp h₁
  obtain ⟨hx,rfl⟩ := port_eq_some hread
  cases htunnel : x.tunnel with
  | none =>
    rw [htunnel] at h₂
    cases h₂
  | some tunnel =>
    rw [htunnel] at h₂
    obtain ⟨y,w,hread,h₃⟩ := bind_eq_some.mp h₂
    obtain ⟨hy,rfl⟩ := tunnel_eq_some hread
    exact ⟨x,tunnel,y,hx,htunnel,hy,request_sent h₃⟩

/-- A lookup names the peer of the port. -/
theorem sendGetPort_sent {r : Result} (h : sendGetPort p s=some (r,t)) :
    ∃ x, s.portMem.get p=some x ∧
      t.host.sent=if r=.success then s.host.sent++[.getPort x.peerPortId] else s.host.sent := by
  obtain ⟨⟨⟩,u,htransport,h₁⟩ := bind_eq_some.mp h
  obtain rfl := needTransport_eq htransport
  obtain ⟨⟨⟩,v,hstorage,h₂⟩ := bind_eq_some.mp h₁
  have hv : v=u := by
    refine preserves_bind (P := fun w => w=u) preserves_get (fun w => preserves_bind preserves_get
      fun w' => ?_) u () v hstorage rfl
    split
    · exact preserves_bind (preserves_link _) fun _ =>
        preserves_bind (preserves_tunnel _) fun _ => preserves_pure _
    · exact preserves_undefined
  subst hv
  obtain ⟨x,w,hread,h₃⟩ := bind_eq_some.mp h₂
  obtain ⟨hx,rfl⟩ := port_eq_some hread
  exact ⟨x,hx,request_sent h₃⟩

end Atom

/-- `cc_port_connect_with_pending_tunnel` goes on waiting, sends a PORT_CONNECT, or gives the
tunnel up. -/
theorem pendingTunnel_cases {r : Result} {ops : List Op}
    (h : (Flow.portConnectWithPendingTunnel mp p).run s=some (r,t,ops)) :
    (r=.success ∧ t=s ∧ ops=[]) ∨
    (∃ u, r=.success ∧ ops=[.host u.host,.setState p .pendingConnect] ∧
      Atom.sendPortConnect p s=some (.success,u) ∧
      Atom.portSetState p .pendingConnect {s with host := u.host}=some ((),t)) ∨
    (∃ host sends, r=.fail ∧ ops=sends++[.dropTunnel p] ∧
      (sends=[] ∧ host=s.host ∨
        ∃ result u, sends=[.host host] ∧ Atom.sendPortConnect p s=some (result,u) ∧
          result ≠ .success ∧ host=u.host) ∧
      Atom.portDropTunnel p {s with host := host}=some ((),t)) := by
  have hdrop : ∀ {u : Node} {ops : List Op}, (do
      act (.dropTunnel p)
      return .fail : Flow mp Result).run u=some (r,t,ops) →
      r=.fail ∧ ops=[.dropTunnel p] ∧ Atom.portDropTunnel p u=some ((),t) := by
    intro u ops hrun
    obtain ⟨⟨⟩,v,ops₁,ops₂,hact,hpure,rfl⟩ := run_bind_eq_some hrun
    obtain ⟨hv,rfl⟩ := run_act hact
    cases hpure
    obtain ⟨⟨⟨⟩,v'⟩,hv',he⟩ := Option.map_eq_some_iff.mp hv
    cases he
    exact ⟨rfl,rfl,hv'⟩
  obtain ⟨tunnel,u,ops₁,ops₂,hlook,hrest,rfl⟩ := run_bind_eq_some h
  obtain ⟨rfl,rfl,-⟩ := run_look_eq_some hlook
  split at hrest
  · cases hrest
    exact .inl ⟨rfl,rfl,rfl⟩
  dsimp only at hrest
  split at hrest
  swap
  · obtain ⟨hr,rfl,hu⟩ := hdrop hrest
    exact .inr (.inr ⟨u.host,[],hr,rfl,.inl ⟨rfl,rfl⟩,hu⟩)
  obtain ⟨result,v,ops₃,ops₄,hhost,hrest',rfl⟩ := run_bind_eq_some hrest
  obtain ⟨w,hsend,rfl,rfl⟩ := run_host_eq_some hhost
  split at hrest'
  · next hresult =>
    subst hresult
    obtain ⟨⟨⟩,v,ops₅,ops₆,hact,hpure,rfl⟩ := run_bind_eq_some hrest'
    obtain ⟨hv,rfl⟩ := run_act hact
    cases hpure
    obtain ⟨⟨⟨⟩,v'⟩,hv',he⟩ := Option.map_eq_some_iff.mp hv
    cases he
    exact .inr (.inl ⟨w,rfl,rfl,hsend,hv'⟩)
  · next hresult =>
    obtain ⟨hr,rfl,hu⟩ := hdrop hrest'
    exact .inr (.inr ⟨w.host,[.host w.host],hr,rfl,.inr ⟨result,w,rfl,hsend,hresult,rfl⟩,hu⟩)

/-- `cc_port_do_peer_lookup` sends a lookup or gives up. -/
theorem peerLookup_cases {ops : List Op}
    (h : (Flow.portDoPeerLookup mp p).run s=some ((),t,ops)) :
    ∃ r u state, Atom.sendGetPort p s=some (r,u) ∧
      state=(if r=.success then PortState.pendingLookup else .disconnected) ∧
      ops=[.host u.host,.setState p state] ∧
      Atom.portSetState p state {s with host := u.host}=some ((),t) := by
  obtain ⟨r,u,ops₁,ops₂,hhost,hrest,rfl⟩ := run_bind_eq_some h
  obtain ⟨v,hsend,rfl,rfl⟩ := run_host_eq_some hhost
  have hset : ∀ state, (Flow.setState p state : Flow mp Unit).run {s with host := v.host}=
      some ((),t,ops₂) → ops₂=[.setState p state] ∧
        Atom.portSetState p state {s with host := v.host}=some ((),t) := by
    intro state hrun
    obtain ⟨hv,rfl⟩ := run_act hrun
    obtain ⟨⟨⟨⟩,v'⟩,hv',he⟩ := Option.map_eq_some_iff.mp hv
    cases he
    exact ⟨rfl,hv'⟩
  split at hrest
  · next hr =>
    obtain ⟨rfl,ht⟩ := hset _ hrest
    exact ⟨r,v,.disconnected,hsend,(if_neg hr).symm,rfl,ht⟩
  · next hr =>
    obtain ⟨rfl,ht⟩ := hset _ hrest
    exact ⟨r,v,.pendingLookup,hsend,(if_pos (not_not.mp hr)).symm,rfl,ht⟩

end Runs

end CalvinConstrained
