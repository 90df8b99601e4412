import CalvinConstrained.Runtime.ConnectAttempt
import CalvinConstrained.Runtime.Message

namespace CalvinConstrained

open Prog

/-- A new port: it has made no attempt and has no tunnel. -/
def Node.Fresh (s : Node) (p : Ref) : Prop :=
  ∃ x, s.portMem.get p=some x ∧ x.retries=0 ∧ x.tunnel=none

namespace Prog

theorem run_ofOption_eq_some {σ ω α : Type} {apply : ω → σ → Option σ} {x : Option α} {s t : σ} {a : α}
    {ops : List ω} (h : (ofOption x : Prog apply α).run s=some (a,t,ops)) : t=s ∧ ops=[] := by
  cases x with
  | none => cases h
  | some b =>
    cases h
    exact ⟨rfl,rfl⟩

end Prog

namespace Atom

variable {mp : Msgpuck} {p q : Ref} {s t u : Node}

theorem portMem_host (mem : Heap Port) (v : Node) (h : Host) (_ : v.host.Moves h)
    (hv : v.portMem=mem) : ({v with host := h} : Node).portMem=mem := hv

theorem portAlloc_ports {a : Ref} {direction : PortDirection} {d : PortDescription}
    (h : portAlloc a direction d s=some (q,t)) :
    q=s.portMem.next ∧ ∃ x, t.portMem=s.portMem.alloc x ∧
      x.retries=0 ∧ x.tunnel=none := by
  have hread : ∀ {α : Type} {x : Atom α} {b : α} {v w : Node},
      Preserves (fun z : Node => z.portMem=v.portMem) x → x v=some (b,w) →
      w.portMem=v.portMem := fun hx hr => hx _ _ _ hr rfl
  obtain ⟨id,u₁,h₁,hrest₁⟩ := bind_eq_some.mp h
  obtain ⟨name,u₂,h₂,hrest₂⟩ := bind_eq_some.mp hrest₁
  obtain ⟨peerPortId,u₃,h₃,hrest₃⟩ := bind_eq_some.mp hrest₂
  obtain ⟨peerId,u₄,h₄,hadd⟩ := bind_eq_some.mp hrest₃
  have hmem : u₄.portMem=s.portMem :=
    (hread (preserves_textCopy _) h₄).trans ((hread (preserves_ofOption _) h₃).trans
      ((hread (preserves_ofOption _) h₂).trans (hread (preserves_ofOption _) h₁)))
  cases hadd
  refine ⟨by rw [hmem],_,by rw [hmem],rfl,rfl⟩

/-- The middle of `cc_port_create` touches no port but the new one. -/
theorem portNew_ports {a : Ref} {direction : PortDirection} {d : PortDescription} {r : Option Ref}
    (h : portNew mp a direction d s=some (r,t)) :
    s.portMem.next ≤ t.portMem.next ∧
      (∀ p ≠ s.portMem.next, t.portMem.get p=s.portMem.get p) ∧
      (r=none → t.portMem.get s.portMem.next=none) ∧
      ∀ q, r=some q → q=s.portMem.next ∧ t.Fresh q := by
  obtain ⟨b,u₁,halloc,h₁⟩ := bind_eq_some.mp h
  have hu₁ : u₁.portMem=s.portMem := preserves_alloc (portMem_host s.portMem) s b u₁ halloc rfl
  cases b with
  | false =>
    cases h₁
    rw [hu₁]
    exact ⟨Nat.le_refl _,fun _ _ => rfl,fun _ => Heap.get_next _,fun q hq => by cases hq⟩
  | true =>
  obtain ⟨q,u₂,hport,h₂⟩ := bind_eq_some.mp h₁
  obtain ⟨rfl,x,hmem,hretries,htunnel⟩ := portAlloc_ports hport
  rw [hu₁] at hmem h₂
  obtain ⟨f,u₃,hinit,h₃⟩ := bind_eq_some.mp h₂
  have hu₃ : u₃.portMem=s.portMem.alloc x :=
    (preserves_fifoInit (portMem_host u₂.portMem) mp _ _ _ u₂ f u₃ hinit rfl).trans hmem
  have hother : ∀ p ≠ s.portMem.next, u₃.portMem.get p=s.portMem.get p := by
    intro p hp
    rw [hu₃,Heap.get_alloc,if_neg hp]
  have hown : u₃.portMem.get s.portMem.next=some x := by rw [hu₃,Heap.get_alloc,if_pos rfl]
  have hnext : s.portMem.next ≤ u₃.portMem.next := by
    rw [hu₃,Heap.next_alloc]
    exact Nat.le_succ _
  cases f with
  | none =>
    obtain ⟨⟨⟩,u₄,hfree,hend⟩ := bind_eq_some.mp h₃
    cases hend
    obtain ⟨-,-,hnext',-,hget⟩ := portFree_ports hfree
    refine ⟨hnext' ▸ hnext,fun p hp => ?_,fun _ => ?_,fun q hq => by cases hq⟩
    · rw [hget,if_neg hp]
      exact hother p hp
    · rw [hget,if_pos rfl]
  | some f =>
    obtain ⟨⟨⟩,u₄,hupdate,hend⟩ := bind_eq_some.mp h₃
    cases hend
    obtain ⟨y,hy,rfl⟩ := updatePort_eq hupdate
    cases hown.symm.trans hy
    refine ⟨(Heap.next_set _ _ _).symm ▸ hnext,fun p hp => ?_,(nomatch ·),fun q hq => ?_⟩
    · exact (Heap.get_set hown _ p).trans ((if_neg hp).trans (hother p hp))
    · cases hq
      exact ⟨rfl,_,Heap.get_set_self hown _,hretries,htunnel⟩

theorem SamePort.advances (h : SamePort p s u) (k : u.Advances p t) : s.Advances p t where
  next := Nat.le_trans (Nat.le_of_eq h.2.symm) k.next
  port y hy := h.1 ▸ k.port y hy

/-- Taking over the peer of a port whose saved state is enabled is no attempt. -/
theorem portRestore_advances {n : Nat} (hq : u.portState q=some .enabled)
    (h : portRestore q n u=some ((),t)) : u.Advances p t := by
  obtain ⟨x,v,hread,h₁⟩ := bind_eq_some.mp h
  obtain ⟨hx,rfl⟩ := port_eq_some hread
  obtain ⟨w,w',hget,h₂⟩ := bind_eq_some.mp h₁
  cases hget
  split at h₂
  · obtain ⟨r,w,hconnect,hend⟩ := bind_eq_some.mp h₂
    cases hend
    obtain ⟨-,-,rfl⟩ | ⟨q',-,-,hjoin⟩ := portConnectLocal_cases hconnect
    · exact (Node.Eases.refl p _).advances
    · exact portJoin_advances hjoin
  · obtain ⟨found,w,hfind,h₃⟩ := bind_eq_some.mp h₂
    obtain ⟨rfl,-⟩ := tunnelGetFromPeeridAndType_found hfind
    cases found with
    | none => exact (setState_eases (by simp) (by simp) h₃).advances
    | some r =>
      obtain ⟨⟨⟩,w₁,hupdate,hadd⟩ := bind_eq_some.mp h₃
      obtain ⟨y,hy,rfl⟩ := updatePort_eq hupdate
      have henabled : y.state=.enabled := by
        rw [Node.portState,hy] at hq
        exact Option.some.inj hq
      refine (preserves_tunnelAddRef (eases_rules p _).graph r _ () t hadd ?_).advances
      exact .set hy rfl fun _ => ⟨rfl,fun hwait => by simp [Port.awaitsTunnel,henabled] at hwait,
        fun _ => henabled⟩

end Atom

section Build

variable {mp : Msgpuck} {p q a : Ref} {s t u : Node}

theorem Node.Fresh.counts (h : s.Fresh p) :
    s.Counts p ∧ s.attemptsLeft p=5 ∧ s.connectsLeft p=5 := by
  obtain ⟨x,hx,hretries,htunnel⟩ := h
  have hwait : x.awaitsTunnel=false := by simp [Port.awaitsTunnel,htunnel]
  refine ⟨⟨fun y hy => ?_,fun y hy hawaits => ?_,fun y hy henabled => ?_⟩,?_,?_⟩
  · cases hx.symm.trans hy
    rw [hretries]
    decide
  · cases hx.symm.trans hy
    rw [hwait] at hawaits
    cases hawaits
  · cases hx.symm.trans hy
    exact hretries
  · rw [Node.attemptsLeft_some hx,hretries]
    rfl
  · rw [Node.connectsLeft_some hx,hretries,hwait]
    rfl

/-- The creation of a port gives it its attempts and takes none from another port. -/
theorem createPort_counts {direction : PortDirection} {d : PortDescription} {r : Option Ref}
    (h : Atom.portNew mp a direction d s=some (r,t)) :
    (CountsAttempts mp p).build a s [.createPort direction d] t := by
  obtain ⟨hnext,hother,hgone,hnew⟩ := Atom.portNew_ports h
  have hs : TopOp.apply mp (.build a (.createPort direction d)) s=some t :=
    congrArg (Option.map Prod.snd) h
  by_cases hp : p=s.portMem.next
  · subst hp
    cases r with
    | none =>
      refine countsAttempts_of_advances hs ⟨hnext,fun y hy => ?_⟩ rfl rfl rfl
      rw [hgone rfl] at hy
      cases hy
    | some q =>
      obtain ⟨rfl,hfresh⟩ := hnew q rfl
      obtain ⟨hcounts,hattempts,hconnects⟩ := hfresh.counts
      have hbefore : s.attemptsLeft s.portMem.next=5 := by
        rw [Node.attemptsLeft,Heap.get_next]
        exact if_neg (Nat.lt_irrefl _)
      have hle := s.attemptsLeft_le s.portMem.next
      refine fun _ => ⟨hcounts,fun _ => ⟨?_,?_,?_⟩⟩
      · simp [BuildOp.toTop,TopOp.begins,hattempts,hbefore]
      · simp [BuildOp.toTop,TopOp.looksUp,hattempts,hbefore]
      · simp [BuildOp.toTop,TopOp.asksConnect,hconnects]
        omega
  · exact countsAttempts_of_advances hs ⟨hnext,fun y hy => ⟨y,hother p hp ▸ hy,.inl (.refl y)⟩⟩
      rfl rfl rfl

/-- A saved state is no attempt: a port takes it over when it is new. -/
theorem takeState_counts {value : UInt32} {n : Nat} (hq : q=p → s.Fresh p)
    (h : Atom.portTakeState q value n s=some ((),t)) :
    (CountsAttempts mp p).build a s [.takeState q value n] t := by
  have hs : TopOp.apply mp (.build a (.takeState q value n)) s=some t :=
    congrArg (Option.map Prod.snd) h
  obtain ⟨⟨⟩,u,hset,h₁⟩ := Atom.bind_eq_some.mp h
  obtain ⟨x,hx,hu⟩ := Atom.updatePort_eq hset
  have hrest : u.Advances p t ∧ (q=p → t.portState p=some .enabled → u.portState p=some .enabled) := by
    obtain ⟨y,v,hread,h₂⟩ := Atom.bind_eq_some.mp h₁
    obtain ⟨hy,hv⟩ := Atom.port_eq_some hread
    subst v
    split at h₂
    · next henabled =>
      have hstate : u.portState q=some .enabled := by
        rw [Node.portState,hy,Option.map_some,henabled]
      exact ⟨Atom.portRestore_advances hstate h₂,fun hp _ => hp ▸ hstate⟩
    · cases h₂
      exact ⟨(Node.Eases.refl p _).advances,fun _ h => h⟩
  by_cases hp : q=p
  · have hfresh : u.Fresh p := by
      obtain ⟨y,hy,hretries,htunnel⟩ := hq hp
      subst hp
      cases hx.symm.trans hy
      exact ⟨{x with state := .ofUInt32 value},by rw [hu]; exact Heap.get_set_self hx _,hretries,htunnel⟩
    obtain ⟨-,hattempts,hconnects⟩ := (hq hp).counts
    obtain ⟨hcounts,hattempts',hconnects'⟩ := hfresh.counts
    obtain ⟨ha,hc⟩ := hrest.1.left hcounts (hrest.2 hp)
    refine fun _ => ⟨hrest.1.counts hcounts,fun _ => ⟨?_,?_,?_⟩⟩
    · simp [BuildOp.toTop,TopOp.begins]
      omega
    · simp [BuildOp.toTop,TopOp.looksUp]
      omega
    · simp [BuildOp.toTop,TopOp.asksConnect]
      omega
  · refine countsAttempts_of_advances hs (Atom.SamePort.advances ?_ hrest.1) rfl rfl rfl
    exact (Atom.SamePort.refl p s).set hp hx (by rw [hu])

theorem freePort_counts (h : Atom.portFree q false s=some ((),t)) :
    (CountsAttempts mp p).build a s [.freePort q] t := by
  obtain ⟨-,-,hnext,-,hget⟩ := Atom.portFree_ports h
  refine countsAttempts_of_advances (o := .build a (.freePort q)) (congrArg (Option.map Prod.snd) h)
    ⟨Nat.le_of_eq hnext.symm,fun y hy => ?_⟩ rfl rfl rfl
  rw [hget] at hy
  split at hy
  · cases hy
  · exact ⟨y,hy,.inl (.refl y)⟩

theorem linkPort_counts {direction : PortDirection} {b : Bool}
    (h : Atom.portLink a direction q s=some (b,t)) :
    (CountsAttempts mp p).build a s [.linkPort direction q] t := by
  have hports : t.portMem=s.portMem := by
    obtain ⟨c,u,halloc,h₁⟩ := Atom.bind_eq_some.mp h
    have hu := Atom.preserves_alloc (Atom.portMem_host s.portMem) s c u halloc rfl
    cases c with
    | false =>
      cases h₁
      exact hu
    | true =>
      obtain ⟨x,v,hread,h₂⟩ := Atom.bind_eq_some.mp h₁
      obtain ⟨-,rfl⟩ := Atom.actor_eq_some hread
      obtain ⟨⟨⟩,w,hset,hend⟩ := Atom.bind_eq_some.mp h₂
      cases hset
      cases hend
      exact hu
  exact countsAttempts_of_advances (o := .build a (.linkPort direction q))
    (congrArg (Option.map Prod.snd) h) (Node.Eases.of_ports hports).advances rfl rfl rfl

/-- The end of `cc_port_create`, for the port that was created just before. -/
theorem portFinish_counts {objPort : Bytes} {n : Nat} {b : Bool} {ops : List BuildOp}
    (hq : q=p → s.Fresh p) (h : (Build.portFinish mp a q objPort n).run s=some (b,t,ops)) :
    (CountsAttempts mp p).build a s ops t := by
  have hk : ((CountsAttempts mp p).build a).Closed (BuildOp.apply mp a) :=
    countsAttempts_closed.comap (f := BuildOp.toTop a) (BuildOp.apply_toTop mp a)
  have hreject : Traces ((CountsAttempts mp p).build a) (Build.portReject mp a q) := by
    refine hk.bind (Trace.Closed.act fun u v hs => ?_) fun _ => hk.pure _
    obtain ⟨⟨⟨⟩,w⟩,hw,he⟩ := Option.map_eq_some_iff.mp hs
    cases he
    exact freePort_counts hw
  obtain ⟨known,u,ops₁,ops₂,hread,hrest,rfl⟩ := run_bind_eq_some h
  obtain ⟨rfl,rfl⟩ := run_ofOption_eq_some hread
  rw [List.nil_append]
  split at hrest
  · obtain ⟨value,v,ops₃,ops₄,hread',hstate,rfl⟩ := run_bind_eq_some hrest
    obtain ⟨rfl,rfl⟩ := run_ofOption_eq_some hread'
    rw [List.nil_append]
    cases value with
    | none => exact hreject _ _ _ _ hstate
    | some value =>
      obtain ⟨⟨⟩,w,ops₅,ops₆,hact,hpure,rfl⟩ := run_bind_eq_some hstate
      obtain ⟨hs,rfl⟩ := run_act hact
      cases hpure
      obtain ⟨⟨⟨⟩,w⟩,hw,he⟩ := Option.map_eq_some_iff.mp hs
      cases he
      exact takeState_counts hq hw
  · refine (hk.bind hk.read fun v => Trace.Closed.ite (hk.pure _) (hk.bind ?_ fun r =>
      Trace.Closed.ite (hk.pure _) hreject)) _ _ _ _ hrest
    exact Traced.toBuild a (counts_of_spares (spares_host _))

/-- An iteration of `cc_actor_create_ports`. -/
theorem addPort_counts (objPort objPrevConnections : Bytes) (direction : PortDirection)
    (objConnectionList : Option Bytes) :
    Traces ((CountsAttempts mp p).build a)
      (Build.addPort mp a objPort objPrevConnections direction objConnectionList) := by
  have hk : ((CountsAttempts mp p).build a).Closed (BuildOp.apply mp a) :=
    countsAttempts_closed.comap (f := BuildOp.toTop a) (BuildOp.apply_toTop mp a)
  refine hk.option (hk.ofOption _) (hk.pure _) fun d => ?_
  intro s b t ops h
  obtain ⟨r,u,ops₁,ops₂,hcreate,hrest,rfl⟩ := run_bind_eq_some h
  obtain ⟨hnew,rfl⟩ := run_perform hcreate
  refine hk.append (.cons trivial (congrArg (Option.map Prod.snd) hnew) (.nil _)) (createPort_counts hnew) ?_
  cases r with
  | none =>
    cases hrest
    exact hk.nil _
  | some q =>
    obtain ⟨-,-,-,hfresh⟩ := Atom.portNew_ports hnew
    obtain ⟨ok,v,ops₃,ops₄,hfinish,hlink,rfl⟩ := run_bind_eq_some hrest
    refine hk.append (Prog.runs _ hfinish) (portFinish_counts (fun hp => hp ▸ (hfresh q rfl).2) hfinish) ?_
    refine (Trace.Closed.ite ?_ (hk.pure _)) _ _ _ _ hlink
    intro v' c w ops' hrun
    obtain ⟨hw,rfl⟩ := run_perform hrun
    exact linkPort_counts hw

end Build

section Bound

variable {mp : Msgpuck} {p : Ref} {s t : Node}

/-- Transmitting for another port is no attempt. -/
theorem portTransmit_spares {q : Ref} (hq : q ≠ p) :
    Meets (fun o _ => o.Spares p) (Flow.portTransmit mp q) := by
  refine meets_bind (spares_look _) fun x => ?_
  split
  · refine meets_bind (spares_look _) fun y => ?_
    split
    · split
      · exact portTransmitToken_spares q x
      · exact meets_pure _
    · exact meets_pure _
  · split
    · split
      · exact meets_pure _
      · refine meets_bind (spares_look _) fun y => ?_
        split
        · exact meets_bind (pendingTunnel_spares hq) fun _ => meets_pure _
        · exact meets_pure _
    · exact meets_pure _

theorem countsAttempts_traced (p : Ref) : Traced mp (CountsAttempts mp p) where
  closed := countsAttempts_closed
  op ho hs := countsAttempts_op ho hs
  connect q := by
    by_cases hq : q=p
    · exact hq ▸ portConnect_own
    · exact counts_of_spares (portConnect_spares hq)
  transmit q := by
    by_cases hq : q=p
    · exact hq ▸ portTransmit_own
    · exact counts_of_spares (portTransmit_spares hq)
  addPort a objPort objPrevConnections direction objConnectionList :=
    addPort_counts objPort objPrevConnections direction objConnectionList

theorem Node.init_counts (h : Host) (p : Ref) : (Node.init h).Counts p where
  le x hx := by cases hx
  awaits x hx := by cases hx
  enabled x hx := by cases hx

/-- The attempts of every port are counted in every state that events lead to. -/
theorem runs_counts {h : Host} {es : List (Event × Fate)} (p : Ref)
    (hr : Runs (Event.step mp) (fun _ _ => True) (.init h) es s) : s.Counts p := by
  refine hr.invariant (Node.Counts p) (fun e u v _ hv hu => ?_) (Node.init_counts h p)
  obtain ⟨⟨⟨⟩,w,ops⟩,hrun,rfl⟩ := Option.map_eq_some_iff.mp hv
  exact ((countsAttempts_traced p).event e u () w ops hrun hu).1

end Bound

namespace Outgoing

def isGetPort : Outgoing → Bool
  | .getPort _ => true
  | _ => false

def isPortConnect : Outgoing → Bool
  | .portConnect _ _ _ => true
  | _ => false

end Outgoing

section Messages

variable {mp : Msgpuck} {p : Ref} {s t : Node} {ops : List Op}

/-- What depends on the host alone, and not on the messages that give up tunnels, outlives a
tunnel. -/
theorem tunnelRemoveRef_keeps {P : Host → Prop}
    (hP : ∀ tunnelId, Preserves (fun v : Node => P v.host)
      (Atom.request (.tunnelDestroy tunnelId) .tunnelDestroy none)) (r : Ref) :
    Preserves (fun v : Node => P v.host) (Atom.tunnelRemoveRef r) := by
  have hlink : ∀ l, Preserves (fun v : Node => P v.host) (Atom.linkRemoveRef l) := by
    intro l
    refine preserves_bind (Atom.preserves_link l) fun x => preserves_bind ?_ fun _ => ?_
    · intro u _ v hr hu
      cases hr
      exact hu
    split
    · refine preserves_bind (Atom.preserves_link l) fun y => preserves_bind preserves_get fun u =>
        preserves_bind (Atom.preserves_listRemove (fun q => ?_) _ _) fun links =>
          preserves_modify fun v hv => hv
      exact preserves_bind (Atom.preserves_link q) fun _ => preserves_pure _
    · exact preserves_pure _
  refine preserves_bind (Atom.preserves_tunnel r) fun x => preserves_bind ?_ fun _ => ?_
  · intro u _ v hr hu
    cases hr
    exact hu
  split
  swap
  · exact preserves_pure _
  refine preserves_bind ?_ fun _ => preserves_bind (Atom.preserves_tunnel r) fun y =>
    preserves_bind (hlink _) fun _ => preserves_bind preserves_get fun u =>
      preserves_bind (Atom.preserves_listRemove (fun q => ?_) _ _) fun tunnels =>
        preserves_modify fun v hv => hv
  · refine preserves_bind preserves_get fun u => ?_
    dsimp only
    split
    · exact preserves_bind (Atom.preserves_link _) fun _ =>
        preserves_bind (hP _) fun _ => preserves_pure _
    · exact preserves_pure _
  · exact preserves_bind (Atom.preserves_tunnel q) fun _ => preserves_pure _

/-- Giving a tunnel up sends no PORT_CONNECT. -/
theorem portDropTunnel_sent (n : Nat) :
    Preserves (fun v : Node => v.host.sent.countP Outgoing.isPortConnect=n)
      (Atom.portDropTunnel p) := by
  have hupdate : ∀ f : Port → Port, Preserves
      (fun v : Node => v.host.sent.countP Outgoing.isPortConnect=n) (Atom.updatePort p f) := by
    intro f u _ v hr hu
    obtain ⟨x,-,rfl⟩ := Atom.updatePort_eq hr
    exact hu
  refine preserves_bind (preserves_bind (Atom.preserves_port p) fun x => ?_) fun _ => ?_
  · split
    · exact preserves_pure _
    refine preserves_bind (tunnelRemoveRef_keeps
      (P := fun h => h.sent.countP Outgoing.isPortConnect=n) (fun tunnelId => ?_) _) fun _ => hupdate _
    intro u r v hr hu
    have hsent := Atom.request_sent hr
    split at hsent
    · rw [hsent,List.countP_append,hu]
      rfl
    · rw [hsent]
      exact hu
  · intro u _ v hr hu
    obtain ⟨x,y,actorState,-,-,rfl⟩ := Atom.portSetState_eq hr
    exact hu

/-- The lookups that are counted are those that were sent. -/
theorem peerLookup_sent (h : (Flow.portDoPeerLookup mp p).run s=some ((),t,ops)) :
    t.host.sent.countP Outgoing.isGetPort=s.host.sent.countP Outgoing.isGetPort+
      (ops.map TopOp.base).countP (TopOp.looksUp p) := by
  obtain ⟨r,u,state,hsend,hstate,rfl,hset⟩ := peerLookup_cases h
  obtain ⟨x,-,hsent⟩ := Atom.sendGetPort_sent hsend
  obtain ⟨y,z,actorState,-,-,rfl⟩ := Atom.portSetState_eq hset
  change u.host.sent.countP Outgoing.isGetPort=_
  rw [hsent]
  split
  · next hr =>
    rw [if_pos hr] at hstate
    rw [List.countP_append,hstate]
    simp [TopOp.looksUp,Outgoing.isGetPort]
  · next hr =>
    rw [if_neg hr] at hstate
    rw [hstate]
    simp [TopOp.looksUp]

/-- The PORT_CONNECTs that are counted are those that were sent. -/
theorem pendingTunnel_sent {r : Result}
    (h : (Flow.portConnectWithPendingTunnel mp p).run s=some (r,t,ops)) :
    t.host.sent.countP Outgoing.isPortConnect=s.host.sent.countP Outgoing.isPortConnect+
      (ops.map TopOp.base).countP (TopOp.asksConnect p) := by
  rcases pendingTunnel_cases h with ⟨-,rfl,rfl⟩ | ⟨u,-,rfl,hsend,hset⟩ |
    ⟨host,sends,-,rfl,hsends,hdrop⟩
  · rfl
  · obtain ⟨x,tunnel,y,-,-,-,hsent⟩ := Atom.sendPortConnect_sent hsend
    obtain ⟨x',y',actorState,-,-,rfl⟩ := Atom.portSetState_eq hset
    change u.host.sent.countP Outgoing.isPortConnect=_
    rw [hsent,if_pos rfl,List.countP_append]
    simp [TopOp.asksConnect,Outgoing.isPortConnect]
  · have hdropped := portDropTunnel_sent _ {s with host := host} () t hdrop rfl
    change _=host.sent.countP Outgoing.isPortConnect at hdropped
    rw [hdropped]
    rcases hsends with ⟨rfl,rfl⟩ | ⟨result,u,rfl,hsend,hresult,rfl⟩
    · simp [TopOp.asksConnect]
    · obtain ⟨x,tunnel,y,-,-,-,hsent⟩ := Atom.sendPortConnect_sent hsend
      rw [hsent,if_neg hresult]
      simp [TopOp.asksConnect]

end Messages

section Exhausted

variable {mp : Msgpuck} {p : Ref} {s t : Node} {x : Port}

/-- After the last attempt `cc_port_connect` only marks the port. -/
theorem portConnect_exhausted (hretries : ∀ x, s.portMem.get p=some x →
      x.retries=5 ∧ x.state ≠ .enabled) :
    (Flow.portConnect mp p).run s=
      (Op.apply mp (.setState p .doDelete) s).map fun t => ((),t,[.setState p .doDelete]) := by
  cases hx : s.portMem.get p with
  | none =>
    have hset : Op.apply mp (.setState p .doDelete) s=none := by
      simp [Op.apply,Atom.portSetState,Atom.bind_apply,Atom.port,hx]
    rw [hset]
    cases hrun : (Flow.portConnect mp p).run s with
    | none => rfl
    | some r =>
      obtain ⟨x,u,ops₁,ops₂,hlook,-⟩ := run_bind_eq_some hrun
      obtain ⟨-,-,v,hread⟩ := run_look_eq_some hlook
      cases hx.symm.trans (Atom.port_eq_some hread).1
  | some x =>
    obtain ⟨hfive,hstate⟩ := hretries x hx
    have hread : Atom.port p s=some (x,s) := by rw [Atom.port,hx]; rfl
    refine (run_bind_of_quiet (run_look hread)).trans ?_
    dsimp only
    rw [if_neg hstate,if_pos hfive]
    change (Prog.bind (act _) _).run s=_
    cases hset : Op.apply mp (.setState p .doDelete) s with
    | none => simp [Prog.bind,act,perform,hset]
    | some t => simp [Prog.bind,act,perform,hset]; rfl

theorem setState_quiet {state : PortState} (h : Op.apply mp (.setState p state) s=some t) :
    t.portState p=some state ∧ t.host=s.host := by
  obtain ⟨⟨⟨⟩,u⟩,hu,he⟩ := Option.map_eq_some_iff.mp h
  cases he
  obtain ⟨x,y,actorState,hx,-,rfl⟩ := Atom.portSetState_eq hu
  refine ⟨?_,rfl⟩
  rw [Node.portState]
  exact congrArg (Option.map Port.state) (Heap.get_set_self hx _)

/-- What follows from the account of a port that has spent its attempts. -/
theorem Node.Counts.exhausted (hs : s.Counts p) (hleft : s.attemptsLeft p=0)
    (hx : s.portMem.get p=some x) : x.retries=5 ∧ x.state ≠ .enabled := by
  have hle := hs.le x hx
  rw [Node.attemptsLeft_some hx] at hleft
  have hfive : x.retries.toNat=5 := by omega
  have hretries : x.retries=5 := UInt8.toNat_inj.mp hfive
  refine ⟨hretries,fun henabled => ?_⟩
  rw [hs.enabled x hx henabled] at hretries
  cases hretries

theorem Node.attemptsLeft_le_five (s : Node) (p : Ref) : s.attemptsLeft p ≤ 5 := by
  unfold Node.attemptsLeft
  split
  · exact Nat.sub_le _ _
  · split <;> simp

end Exhausted

section Claim

variable (mp : Msgpuck) {s t : Node} {p : Ref} {h : Host} {es es' : List (Event × Fate)}
  {ops : List TopOp}

/-- While a port is not enabled it makes at most five attempts, with at most one lookup and one
PORT_CONNECT each, and the next one only marks it for deletion. -/
theorem reconnecting_bounded
    (hs : Runs (Event.step mp) (fun _ _ => True) (.init h) es s)
    (hr : (Prog.each (Event.run mp) es').run s=some ((),t,ops))
    (hdisabled : Runs (TopOp.apply mp) (TopOp.KeepsDisabled mp p) s ops t) :
    ops.countP (TopOp.begins p) ≤ 5 ∧ ops.countP (TopOp.looksUp p) ≤ 5 ∧
      ops.countP (TopOp.asksConnect p) ≤ 5 ∧
      (∀ x, t.portMem.get p=some x → x.retries.toNat ≤ 5) ∧
      (ops.countP (TopOp.begins p)=5 →
        (Flow.portConnect mp p).run t=
          (Op.apply mp (.setState p .doDelete) t).map (fun u => ((),u,[.setState p .doDelete])) ∧
        ∀ u, Op.apply mp (.setState p .doDelete) t=some u →
          u.portState p=some .doDelete ∧ u.host=t.host) ∧
      (∀ u v os, (Flow.portDoPeerLookup mp p).run u=some ((),v,os) →
        v.host.sent.countP Outgoing.isGetPort=u.host.sent.countP Outgoing.isGetPort+
          (os.map TopOp.base).countP (TopOp.looksUp p)) ∧
      (∀ u r v os, (Flow.portConnectWithPendingTunnel mp p).run u=some (r,v,os) →
        v.host.sent.countP Outgoing.isPortConnect=u.host.sent.countP Outgoing.isPortConnect+
          (os.map TopOp.base).countP (TopOp.asksConnect p)) := by
  have hcounts := runs_counts p hs
  obtain ⟨hcounts',hpay⟩ := (countsAttempts_traced p).events es' s () t ops hr hcounts
  obtain ⟨hattempts,hlookups,hconnects⟩ := hpay hdisabled
  have hfive := s.attemptsLeft_le_five p
  have hfive' := hcounts.connectsLeft_le
  refine ⟨by omega,by omega,by omega,hcounts'.le,fun hall => ?_,fun _ _ _ => peerLookup_sent,
    fun _ _ _ _ => pendingTunnel_sent⟩
  have hleft : t.attemptsLeft p=0 := by omega
  exact ⟨portConnect_exhausted fun x hx => hcounts'.exhausted hleft hx,fun u => setState_quiet⟩

instance (p : Ref) (o : TopOp) (s : Node) : Decidable (TopOp.KeepsDisabled mp p o s) :=
  inferInstanceAs (Decidable (∀ t, o.apply mp s=some t →
    t.portState p=some .enabled → s.portState p=some .enabled))

/-- An actor whose only port looks for its peer, and four more attempts. -/
def fiveAttempts : List (Event × Fate) :=
  (.actorCreate (Message.actor "t" "a" [] [⟨"p",none,"q",none⟩]),.fresh 10)::
    [11,12,13,14].map fun n => (.portConnect 0,.fresh n)

theorem reconnecting_bounded_five :
    ∃ s t ops, Runs (Event.step msgpack) (fun _ _ => True) (.init bareHost) joining s ∧
      (Prog.each (Event.run msgpack) fiveAttempts).run s=some ((),t,ops) ∧
      Runs (TopOp.apply msgpack) (TopOp.KeepsDisabled msgpack 0) s ops t ∧
      ops.countP (TopOp.begins 0)=5 ∧ ops.countP (TopOp.looksUp 0)=5 ∧
      ∀ u, Op.apply msgpack (.setState 0 .doDelete) t=some u → u.portState 0=some .doDelete := by
  have hrun : (Event.runAll (Event.step msgpack) joining (.init bareHost)).any (fun s =>
      ((Prog.each (Event.run msgpack) fiveAttempts).run s).any fun r =>
        decide (r.2.2.countP (TopOp.begins 0)=5 ∧ r.2.2.countP (TopOp.looksUp 0)=5) &&
        (runChecked (TopOp.apply msgpack) (TopOp.KeepsDisabled msgpack 0) r.2.2 s).isSome)=true := by
    decide +kernel
  obtain ⟨s,hs,hrest⟩ := exists_of_any hrun
  obtain ⟨⟨⟨⟩,t,ops⟩,hr,hend⟩ := exists_of_any hrest
  rw [Bool.and_eq_true] at hend
  obtain ⟨hbegins,hlookups⟩ := of_decide_eq_true hend.1
  obtain ⟨w,hw⟩ := Option.isSome_iff_exists.mp hend.2
  have hchecked := Runs.of_runChecked hw
  have hdisabled : Runs (TopOp.apply msgpack) (TopOp.KeepsDisabled msgpack 0) s ops t :=
    hchecked.unique (Prog.runs _ hr) ▸ hchecked
  obtain ⟨-,-,-,-,hlast,-,-⟩ := reconnecting_bounded msgpack (Event.runs_of_step msgpack hs) hr hdisabled
  exact ⟨s,t,ops,Event.runs_of_step msgpack hs,hr,hdisabled,hbegins,hlookups,
    fun u hu => ((hlast hbegins).2 u hu).1⟩

end Claim

end CalvinConstrained
