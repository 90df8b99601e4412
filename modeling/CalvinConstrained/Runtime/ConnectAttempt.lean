import CalvinConstrained.Runtime.AttemptBound

namespace CalvinConstrained

open Prog

/-- The attempts of the port are counted to `n`, and it is not enabled. -/
def Node.Tried (s : Node) (p : Ref) (n : UInt8) : Prop :=
  ∃ x, s.portMem.get p=some x ∧ x.retries=n ∧ x.state ≠ .enabled

namespace Atom

variable {p : Ref} {n : UInt8} {s t : Node}

theorem tried_ports (h : t.portMem=s.portMem) (hs : s.Tried p n) : t.Tried p n := by
  rw [Node.Tried,h]
  exact hs

theorem tried_set {q : Ref} {x y : Port} (hs : s.Tried p n) (hx : s.portMem.get q=some x)
    (ht : t.portMem=s.portMem.set q y) (hretries : y.retries=x.retries)
    (hstate : x.state ≠ .enabled → y.state ≠ .enabled) : t.Tried p n := by
  obtain ⟨z,hz,hn,henabled⟩ := hs
  rw [Node.Tried,ht,Heap.get_set hx]
  split
  · next hp =>
    subst hp
    cases hx.symm.trans hz
    exact ⟨y,rfl,hretries.trans hn,hstate henabled⟩
  · exact ⟨z,hz,hn,henabled⟩

theorem tried_setState {q : Ref} {state : PortState} (hstate : state ≠ .enabled)
    (hs : s.Tried p n) (h : portSetState q state s=some ((),t)) : t.Tried p n := by
  obtain ⟨x,y,actorState,hx,-,rfl⟩ := portSetState_eq h
  exact tried_set hs hx rfl (by simp [hstate]) fun _ => hstate

theorem tried_rules (p : Ref) (n : UInt8) : PartRules (Node.Tried · p n) where
  graph s t h hs := tried_ports h.1 hs
  tunnel q := by
    intro s _ t h hs
    obtain ⟨x,hx,rfl⟩ := updatePort_eq h
    exact tried_set hs hx rfl rfl fun hstate => hstate
  peerId q := by
    intro s _ t h hs
    obtain ⟨x,hx,rfl⟩ := updatePort_eq h
    exact tried_set hs hx rfl rfl fun hstate => hstate
  clear q := by
    intro s _ t h hs
    obtain ⟨x,hx,rfl⟩ := updatePort_eq h
    exact tried_set hs hx rfl rfl fun hstate => hstate
  fifo q := by
    intro s _ t h hs
    obtain ⟨x,f,hx,rfl⟩ := portFifoCancel_eq h
    exact tried_set hs hx rfl rfl fun hstate => hstate
  disconnected q := by
    intro s _ t h hs
    exact tried_setState (by simp) hs h
  actor a state := by
    intro s _ t h hs
    obtain ⟨y,u,hread,hset⟩ := bind_eq_some.mp h
    obtain ⟨-,rfl⟩ := actor_eq_some hread
    cases hset
    exact tried_ports rfl hs

theorem tried_getTunnel {q : Ref} (hs : s.Tried p n) (h : portGetTunnel q s=some ((),t)) :
    t.Tried p n := by
  obtain ⟨-,hsame⟩ | ⟨-,u,r,hsame,hattach⟩ := portGetTunnel_cases h
  · exact tried_ports hsame.1 hs
  obtain ⟨⟨⟩,v,hupdate,h₁⟩ := bind_eq_some.mp hattach
  obtain ⟨x,hx,rfl⟩ := updatePort_eq hupdate
  obtain ⟨⟨⟩,w,hadd,h₂⟩ := bind_eq_some.mp h₁
  have hv : Node.Tried {u with portMem := u.portMem.set q {x with tunnel := some r}} p n :=
    tried_set (tried_ports hsame.1 hs) hx rfl rfl fun hstate => hstate
  exact tried_setState (by simp) (preserves_tunnelAddRef (tried_rules p n).graph r _ () w hadd hv) h₂

/-- After its state is set, a port is in that state. -/
theorem setState_port {state : PortState} (hstate : state ≠ .enabled) (hs : s.Tried p n)
    (h : portSetState p state s=some ((),t)) :
    ∃ x, t.portMem.get p=some x ∧ x.retries=n ∧ x.state=state := by
  obtain ⟨x,y,actorState,hx,-,rfl⟩ := portSetState_eq h
  obtain ⟨z,hz,hn,-⟩ := hs
  cases hx.symm.trans hz
  exact ⟨_,Heap.get_set_self hx _,by simpa [hstate] using hn,rfl⟩

/-- A local connection enables the port. -/
theorem portJoin_enables {q : Ref} (h : portJoin p q s=some ((),t)) :
    t.portState p=some .enabled := by
  have hset : ∀ {r : Ref} {u v : Node}, (r=p ∨ u.portState p=some .enabled) →
      portSetState r .enabled u=some ((),v) → v.portState p=some .enabled := by
    intro r u v hu hr
    obtain ⟨x,y,actorState,hx,-,rfl⟩ := portSetState_eq hr
    change ((u.portMem.set r _).get p).map Port.state=_
    rw [Heap.get_set hx]
    split
    · rfl
    · next hp => exact hu.resolve_left (Ne.symm hp)
  have hpeer : ∀ {r r' : Ref} {u v : Node}, (r=p ∨ u.portState p=some .enabled) →
      portPeer r r' u=some ((),v) → v.portState p=some .enabled := by
    intro r r' u v hu hr
    obtain ⟨w,w₁,hget,h₁⟩ := bind_eq_some.mp hr
    cases hget
    obtain ⟨⟨⟩,w₂,hupdate,h₂⟩ := bind_eq_some.mp h₁
    obtain ⟨x,hx,rfl⟩ := updatePort_eq hupdate
    refine hset (hu.imp_right fun henabled => ?_) h₂
    change ((u.portMem.set r _).get p).map Port.state=_
    rw [Heap.get_set hx]
    split
    · next hp =>
      subst hp
      rw [Node.portState,hx] at henabled
      exact henabled
    · exact henabled
  obtain ⟨⟨⟩,u₁,-,h₁⟩ := bind_eq_some.mp h
  obtain ⟨⟨⟩,u₂,-,h₂⟩ := bind_eq_some.mp h₁
  obtain ⟨⟨⟩,u₃,hj,hj'⟩ := bind_eq_some.mp h₂
  exact hpeer (.inr (hpeer (.inl rfl) hj)) hj'

end Atom

/-- A connection attempt of the port: at most one lookup, and at most one PORT_CONNECT or a tunnel
to wait for. -/
structure Attempted (p : Ref) (n : UInt8) (ops : List Op) (t : Node) : Prop where
  tried : t.Tried p n
  begins : (ops.map TopOp.base).countP (TopOp.begins p)=1
  lookups : (ops.map TopOp.base).countP (TopOp.looksUp p) ≤ 1
  connects : (ops.map TopOp.base).countP (TopOp.asksConnect p)+
    (if (t.portMem.get p).any Port.awaitsTunnel then 1 else 0) ≤ 1

namespace Attempted

variable {mp : Msgpuck} {p : Ref} {s t u : Node} {n : UInt8} {x : Port} {ops : List Op}

/-- An attempt is paid for by the attempts that the port had left. -/
theorem affords (h : Attempted p n ops t) (hx : s.portMem.get p=some x)
    (hn : n.toNat=x.retries.toNat+1) (hle : n.toNat ≤ 5) :
    t.Counts p ∧ Affords p s (ops.map .base) t := by
  obtain ⟨y,hy,hretries,hstate⟩ := h.tried
  have hcounts : t.Counts p := by
    constructor <;> intro z hz <;> cases hy.symm.trans hz
    · rw [hretries]
      exact hle
    · intro _
      rw [hretries]
      omega
    · exact fun henabled => absurd henabled hstate
  have hbegins := h.begins
  have hlookups := h.lookups
  have hconnects := h.connects
  have hleft : s.attemptsLeft p ≤ s.connectsLeft p := s.attemptsLeft_le p
  rw [Node.attemptsLeft_some hx] at hleft
  rw [hy] at hconnects
  change _+(if y.awaitsTunnel=true then 1 else 0) ≤ 1 at hconnects
  refine ⟨hcounts,?_,?_,?_⟩
  · rw [Node.attemptsLeft_some hx,Node.attemptsLeft_some hy,hretries]
    omega
  · rw [Node.attemptsLeft_some hx,Node.attemptsLeft_some hy,hretries]
    omega
  · rw [Node.connectsLeft_some hy,hretries]
    omega

end Attempted

section Others

variable {mp : Msgpuck} {p : Ref} {α : Type}

theorem counts_flowClosed : (CountsAttempts mp p).flow.Closed (Op.apply mp) :=
  countsAttempts_closed.comap (f := TopOp.base) fun _ _ => rfl

theorem counts_of_spares {m : Flow mp α} (hm : Meets (fun o _ => o.Spares p) m) :
    Traces (CountsAttempts mp p).flow m :=
  counts_flowClosed.of_meets countsAttempts_base hm

theorem spares_host (x : Atom α) : Meets (fun o _ => o.Spares p) (Flow.host x : Flow mp α) := by
  refine meets_bind meets_read fun s => ?_
  split
  · exact meets_bind (meets_act fun _ => trivial) fun _ => meets_pure _
  · exact meets_undefined

theorem spares_look (x : Atom α) : Meets (fun o _ => o.Spares p) (look x : Flow mp α) := by
  refine meets_bind meets_read fun s => ?_
  split
  · exact meets_pure _
  · exact meets_undefined

/-- Setting another port is no attempt. -/
theorem spares_setState {q : Ref} (hq : q ≠ p) (state : PortState) :
    Meets (fun o _ => o.Spares p) (Flow.setState q state : Flow mp Unit) :=
  meets_act fun _ h => absurd h hq

theorem spares_act {o : Op} (h : o.Spares p) :
    Meets (fun o _ => o.Spares p) (act o : Flow mp Unit) := meets_act fun _ => h

theorem pendingTunnel_spares {q : Ref} (hq : q ≠ p) :
    Meets (fun o _ => o.Spares p) (Flow.portConnectWithPendingTunnel mp q) := by
  have hdrop : Meets (fun o _ => o.Spares p) (do
      act (.dropTunnel q)
      pure Result.fail : Flow mp Result) :=
    meets_bind (spares_act trivial) fun _ => meets_pure _
  refine meets_bind (spares_look _) fun x => ?_
  split
  · exact meets_pure _
  dsimp only
  split
  · refine meets_bind (spares_host _) fun r => ?_
    split
    · exact meets_bind (spares_setState hq _) fun _ => meets_pure _
    · exact hdrop
  · exact hdrop

/-- An attempt of another port. -/
theorem portConnect_spares {q : Ref} (hq : q ≠ p) :
    Meets (fun o _ => o.Spares p) (Flow.portConnect mp q) := by
  have hlast : Meets (fun o _ => o.Spares p) (do
      act (.setPeerId q [])
      Flow.setState q .disconnected
      Flow.portDoPeerLookup mp q : Flow mp Unit) := by
    refine meets_bind (spares_act trivial) fun _ => meets_bind (spares_setState hq _) fun _ =>
      meets_bind (spares_host _) fun r => ?_
    split <;> exact spares_setState hq _
  refine meets_bind (spares_look _) fun x => ?_
  split
  · exact meets_pure _
  dsimp only
  split
  · exact meets_bind (spares_setState hq _) fun _ => meets_pure _
  refine meets_bind (spares_act hq) fun _ => meets_bind (meets_perform _ fun _ => trivial) fun r => ?_
  split
  · exact meets_pure _
  refine meets_bind (spares_act hq) fun _ => meets_bind (spares_look _) fun x => ?_
  split
  · refine meets_bind (pendingTunnel_spares hq) fun r => ?_
    split
    · exact meets_pure _
    · exact hlast
  · exact hlast

/-- Tokens are no attempts. -/
theorem portTransmitToken_spares (q : Ref) (x : Port) :
    Meets (fun o _ => o.Spares p) (Flow.portTransmitToken mp q x) := by
  refine meets_bind (spares_look _) fun f => ?_
  split
  swap
  · exact meets_pure _
  refine meets_bind (spares_act trivial) fun _ => ?_
  split
  · refine meets_bind (spares_host _) fun r => ?_
    split
    · exact spares_act trivial
    · exact meets_pure _
  · refine meets_bind (spares_look _) fun g => meets_bind (spares_act trivial) fun _ =>
      meets_bind (spares_look _) fun f' => ?_
    split <;> exact spares_act trivial
  · exact spares_act trivial

end Others

section Own

variable {mp : Msgpuck} {p : Ref} {s t u : Node} {n : UInt8} {x : Port} {ops : List Op}

/-- An operation that is an atom without a result. -/
theorem run_act_atom {o : Op} {f : Atom Unit} {v : Unit}
    (hf : ∀ s, o.apply mp s=(f s).map Prod.snd) (h : (act o : Flow mp Unit).run s=some (v,t,ops)) :
    f s=some ((),t) ∧ ops=[o] := by
  obtain ⟨hs,rfl⟩ := run_act h
  rw [hf] at hs
  obtain ⟨⟨⟨⟩,w⟩,hw,rfl⟩ := Option.map_eq_some_iff.mp hs
  exact ⟨hw,rfl⟩

/-- The end of an attempt: the port asks for its peer, or gives up. -/
theorem peerLookup_attempted (hu : u.Tried p n) (h : (do
      act (.setPeerId p [])
      Flow.setState p .disconnected
      Flow.portDoPeerLookup mp p : Flow mp Unit).run u=some ((),t,ops)) :
    t.Tried p n ∧ (t.portMem.get p).any Port.awaitsTunnel=false ∧
      (ops.map TopOp.base).countP (TopOp.begins p)=0 ∧
      (ops.map TopOp.base).countP (TopOp.looksUp p) ≤ 1 ∧
      (ops.map TopOp.base).countP (TopOp.asksConnect p)=0 := by
  obtain ⟨⟨⟩,v₁,ops₁,ops₂,hid,hrest,rfl⟩ := run_bind_eq_some h
  obtain ⟨hupdate,rfl⟩ := run_act_atom (fun _ => rfl) hid
  have hu₁ : v₁.Tried p n := (Atom.tried_rules p n).peerId p u () v₁ hupdate hu
  obtain ⟨⟨⟩,v₂,ops₃,ops₄,hdisconnected,hlookup,rfl⟩ := run_bind_eq_some hrest
  obtain ⟨hset,rfl⟩ := run_act_atom (f := Atom.portSetState p .disconnected) (fun _ => rfl)
    hdisconnected
  have hu₂ : v₂.Tried p n := Atom.tried_setState (by simp) hu₁ hset
  obtain ⟨r,w,state,-,hstate,rfl,hlast⟩ := peerLookup_cases hlookup
  have hne : state ≠ .enabled ∧ state ≠ .pendingTunnel ∧ state ≠ .pendingConnect := by
    rw [hstate]
    split <;> simp
  have hw : Node.Tried {v₂ with host := w.host} p n := Atom.tried_ports rfl hu₂
  obtain ⟨y,hy,-,hystate⟩ := Atom.setState_port hne.1 hw hlast
  refine ⟨Atom.tried_setState hne.1 hw hlast,?_,?_,?_,?_⟩
  · rw [hy,Option.any_some,Port.awaitsTunnel,hystate]
    simp [hne.2.1]
  · simp [TopOp.begins]
  · simp only [List.map_cons,List.map_nil,List.cons_append,List.nil_append]
    simp only [List.countP_cons,List.countP_nil,TopOp.looksUp]
    split <;> simp
  · simp [TopOp.asksConnect,hne.2.2]

/-- What follows the local connection of an attempt. -/
theorem remote_attempted (hu : u.Tried p n) (h : (do
      act (.getTunnel p)
      if (← look (Atom.port p)).tunnel.isSome then
        if (← Flow.portConnectWithPendingTunnel mp p)=.success then return
      act (.setPeerId p [])
      Flow.setState p .disconnected
      Flow.portDoPeerLookup mp p : Flow mp Unit).run u=some ((),t,ops)) :
    t.Tried p n ∧ (ops.map TopOp.base).countP (TopOp.begins p)=0 ∧
      (ops.map TopOp.base).countP (TopOp.looksUp p) ≤ 1 ∧
      (ops.map TopOp.base).countP (TopOp.asksConnect p)+
        (if (t.portMem.get p).any Port.awaitsTunnel then 1 else 0) ≤ 1 := by
  obtain ⟨⟨⟩,v,ops₁,ops₂,hact,hrest,rfl⟩ := run_bind_eq_some h
  obtain ⟨hget,rfl⟩ := run_act_atom (f := Atom.portGetTunnel p) (fun _ => rfl) hact
  have hv : v.Tried p n := Atom.tried_getTunnel hu hget
  obtain ⟨y,w,ops₃,ops₄,hlook,hbranch,rfl⟩ := run_bind_eq_some hrest
  obtain ⟨rfl,rfl,-⟩ := run_look_eq_some hlook
  dsimp only at hbranch
  have hlookup : ∀ {z : Node} {os : List Op} {before : List Op}, z.Tried p n →
      (before.map TopOp.base).countP (TopOp.begins p)=0 →
      (before.map TopOp.base).countP (TopOp.looksUp p)=0 →
      (before.map TopOp.base).countP (TopOp.asksConnect p)=0 → (do
        act (.setPeerId p [])
        Flow.setState p .disconnected
        Flow.portDoPeerLookup mp p : Flow mp Unit).run z=some ((),t,os) →
      t.Tried p n ∧ ((before++os).map TopOp.base).countP (TopOp.begins p)=0 ∧
        ((before++os).map TopOp.base).countP (TopOp.looksUp p) ≤ 1 ∧
        ((before++os).map TopOp.base).countP (TopOp.asksConnect p)+
          (if (t.portMem.get p).any Port.awaitsTunnel then 1 else 0) ≤ 1 := by
    intro z os before hz hb hl hc hrun
    obtain ⟨ht,hawaits,hb',hl',hc'⟩ := peerLookup_attempted hz hrun
    rw [List.map_append,List.countP_append,List.countP_append,List.countP_append,hb,hb',hl,hc,hc',
      hawaits]
    exact ⟨ht,rfl,by omega,by simp⟩
  split at hbranch
  swap
  · exact hlookup hv rfl rfl rfl hbranch
  obtain ⟨r,z,ops₅,ops₆,hpending,hlast,rfl⟩ := run_bind_eq_some hbranch
  rcases pendingTunnel_cases hpending with ⟨rfl,rfl,rfl⟩ | ⟨z',rfl,rfl,-,hset⟩ |
    ⟨host,sends,rfl,rfl,hsends,hdrop⟩
  · cases hlast
    have hone : (if (t.portMem.get p).any Port.awaitsTunnel then 1 else 0) ≤ 1 := by
      split <;> omega
    exact ⟨hv,rfl,by simp [TopOp.looksUp],Nat.le_trans (Nat.le_of_eq (Nat.zero_add _)) hone⟩
  · cases hlast
    have hw : Node.Tried {w with host := z'.host} p n := Atom.tried_ports rfl hv
    obtain ⟨y',hy',-,hstate⟩ := Atom.setState_port (by simp) hw hset
    refine ⟨Atom.tried_setState (by simp) hw hset,rfl,by simp [TopOp.looksUp],?_⟩
    rw [hy',Option.any_some,Port.awaitsTunnel,hstate]
    simp [TopOp.asksConnect]
  · have hw : Node.Tried {w with host := host} p n := Atom.tried_ports rfl hv
    have hz : z.Tried p n := (Atom.tried_rules p n).dropTunnel p _ () z hdrop hw
    have hquiet : ∀ f : TopOp → Bool, (∀ h, f (.base (.host h))=false) →
        f (.base (.getTunnel p))=false → f (.base (.dropTunnel p))=false →
        (([Op.getTunnel p]++(sends++[Op.dropTunnel p])).map TopOp.base).countP f=0 := by
      intro f hhost hget hdrop
      rcases hsends with ⟨rfl,-⟩ | ⟨result,z',rfl,-⟩ <;> simp [hhost,hget,hdrop]
    have hend := hlookup hz (hquiet _ (fun _ => rfl) rfl rfl) (hquiet _ (fun _ => rfl) rfl rfl)
      (hquiet _ (fun _ => rfl) rfl rfl) hlast
    simpa only [List.append_assoc,List.nil_append] using hend

/-- A call of `cc_port_connect` for the port itself. -/
theorem portConnect_own : Traces (CountsAttempts mp p).flow (Flow.portConnect mp p) := by
  intro s _ t ops h hcounts
  obtain ⟨x,u,ops₁,ops₂,hlook,hrest,rfl⟩ := run_bind_eq_some h
  obtain ⟨rfl,rfl,v,hread⟩ := run_look_eq_some hlook
  obtain ⟨hx,-⟩ := Atom.port_eq_some hread
  rw [List.nil_append]
  dsimp only at hrest
  split at hrest
  · cases hrest
    exact countsAttempts_closed.nil t hcounts
  next hstate =>
  split at hrest
  · obtain ⟨⟨⟩,w,ops₃,ops₄,hact,hpure,rfl⟩ := run_bind_eq_some hrest
    obtain ⟨hs,rfl⟩ := run_act hact
    cases hpure
    exact countsAttempts_base (fun _ => by simp) hs hcounts
  next hretries =>
  have hle := hcounts.le x hx
  have hlt : x.retries.toNat<5 := by
    have hne : x.retries.toNat ≠ 5 := fun h => hretries (UInt8.toNat_inj.mp h)
    omega
  have hn : (x.retries+1).toNat=x.retries.toNat+1 := by
    rw [UInt8.toNat_add]
    simp
    omega
  obtain ⟨⟨⟩,v₁,ops₃,ops₄,hact,hrest₁,rfl⟩ := run_bind_eq_some hrest
  obtain ⟨hretry,rfl⟩ := run_act_atom
    (f := Atom.updatePort p fun x => {x with retries := x.retries+1}) (fun _ => rfl) hact
  have hv₁ : v₁.Tried p (x.retries+1) := by
    obtain ⟨y,hy,rfl⟩ := Atom.updatePort_eq hretry
    cases hx.symm.trans hy
    exact ⟨_,Heap.get_set_self hx _,rfl,hstate⟩
  obtain ⟨r,v₂,ops₅,ops₆,hlocal,hrest₂,rfl⟩ := run_bind_eq_some hrest₁
  obtain ⟨hconnect,rfl⟩ := run_perform hlocal
  rcases Atom.portConnectLocal_cases hconnect with ⟨-,rfl,rfl⟩ | ⟨q,-,rfl,hjoin⟩
  · obtain ⟨ht,hbegins,hlookups,hconnects⟩ := remote_attempted hv₁ hrest₂
    have hattempted : Attempted p (x.retries+1) ([.retry p]++([.connectLocal p]++ops₆)) t := by
      refine ⟨ht,?_,?_,?_⟩ <;> rw [List.map_append,List.map_append,List.countP_append,
        List.countP_append]
      · rw [hbegins]
        simp [TopOp.begins]
      · simpa [TopOp.looksUp] using hlookups
      · simpa [TopOp.asksConnect] using hconnects
    obtain ⟨hcounts',hpay⟩ := hattempted.affords hx hn (by omega)
    exact ⟨hcounts',fun _ => hpay⟩
  · cases hrest₂
    have hcounts₁ : v₁.Counts p := by
      obtain ⟨y,hy,hyn,hystate⟩ := hv₁
      refine ⟨fun z hz => ?_,fun z hz _ => ?_,fun z hz henabled => ?_⟩ <;> cases hy.symm.trans hz
      · rw [hyn]
        omega
      · rw [hyn]
        omega
      · exact absurd henabled hystate
    have hadvances : v₁.Advances p t := Atom.portJoin_advances hjoin
    refine ⟨hadvances.counts hcounts₁,fun hruns => ?_⟩
    exfalso
    cases hruns with
    | cons _ hs hr =>
      cases hr with
      | cons hok hs' _ =>
        have hfirst : TopOp.apply mp (.base (.retry p)) _=some v₁ :=
          congrArg (Option.map Prod.snd) hretry
        obtain rfl := Option.some.inj (hs.symm.trans hfirst)
        have hsecond : TopOp.apply mp (.base (.connectLocal p)) _=some t :=
          congrArg (Option.map Prod.snd) hconnect
        have henabled := hok t hsecond (Atom.portJoin_enables hjoin)
        obtain ⟨y,hy,-,hystate⟩ := hv₁
        rw [Node.portState,hy] at henabled
        exact hystate (Option.some.inj henabled)

/-- A port that waits for its tunnel has a PORT_CONNECT left. -/
theorem pendingConnect_counts (hx : s.portMem.get p=some x) (hwait : x.awaitsTunnel=true)
    (h : Atom.portSetState p .pendingConnect {s with host := u.host}=some ((),t)) :
    (CountsAttempts mp p).flow s [.host u.host,.setState p .pendingConnect] t := by
  intro hcounts
  obtain ⟨y,z,actorState,hy,-,rfl⟩ := Atom.portSetState_eq h
  cases hx.symm.trans hy
  have hle := hcounts.le x hx
  have hpos := hcounts.awaits x hx hwait
  have hget := Heap.get_set_self hx
    {x with state := .pendingConnect,retries := x.retries}
  have hwaits : ({x with state := .pendingConnect,retries := x.retries} : Port).awaitsTunnel=false := rfl
  refine ⟨⟨fun w hw => ?_,fun w hw hawaits => ?_,fun w hw henabled => ?_⟩,fun _ => ⟨?_,?_,?_⟩⟩
  · cases hget.symm.trans hw
    exact hle
  · cases hget.symm.trans hw
    exact hpos
  · cases hget.symm.trans hw
    cases henabled
  · rw [Node.attemptsLeft_some hx,Node.attemptsLeft_some hget]
    simp [TopOp.begins]
  · rw [Node.attemptsLeft_some hx,Node.attemptsLeft_some hget]
    simp [TopOp.looksUp]
  · rw [Node.connectsLeft_some hx,Node.connectsLeft_some hget,hwaits,hwait]
    simp [TopOp.asksConnect]
    omega

theorem portTransmit_own : Traces (CountsAttempts mp p).flow (Flow.portTransmit mp p) := by
  have hk : (CountsAttempts mp p).flow.Closed (Op.apply mp) := counts_flowClosed
  intro s _ t ops h
  obtain ⟨x,u,ops₁,ops₂,hlook,hrest,rfl⟩ := run_bind_eq_some h
  obtain ⟨rfl,rfl,v,hread⟩ := run_look_eq_some hlook
  obtain ⟨hx,-⟩ := Atom.port_eq_some hread
  rw [List.nil_append]
  split at hrest
  · refine counts_of_spares (meets_bind (spares_look _) fun y => ?_) _ _ _ _ hrest
    split
    · split
      · exact portTransmitToken_spares p x
      · exact meets_pure _
    · exact meets_pure _
  split at hrest
  swap
  · cases hrest
    exact hk.nil t
  next hpending =>
  split at hrest
  · cases hrest
    exact hk.nil t
  next tunnel htunnel =>
  have hwait : x.awaitsTunnel=true := by simp [Port.awaitsTunnel,hpending,htunnel]
  obtain ⟨y,w,ops₃,ops₄,hlook',hbranch,rfl⟩ := run_bind_eq_some hrest
  obtain ⟨rfl,rfl,-⟩ := run_look_eq_some hlook'
  rw [List.nil_append]
  split at hbranch
  swap
  · cases hbranch
    exact hk.nil t
  obtain ⟨r,z,ops₅,ops₆,hconnect,hpure,rfl⟩ := run_bind_eq_some hbranch
  cases hpure
  rw [List.append_nil]
  rcases pendingTunnel_cases hconnect with ⟨rfl,rfl,rfl⟩ | ⟨z',rfl,rfl,-,hset⟩ |
    ⟨host,sends,rfl,rfl,hsends,hdrop⟩
  · exact hk.nil t
  · exact pendingConnect_counts hx hwait hset
  · have hlast : (CountsAttempts mp p).flow {w with host := host} [.dropTunnel p] t :=
      countsAttempts_base trivial (congrArg (Option.map Prod.snd) hdrop)
    rcases hsends with ⟨rfl,rfl⟩ | ⟨result,z',rfl,-,-,rfl⟩
    · exact hlast
    · exact hk.append (.cons trivial rfl (.nil _)) (countsAttempts_base trivial rfl) hlast

end Own

end CalvinConstrained
