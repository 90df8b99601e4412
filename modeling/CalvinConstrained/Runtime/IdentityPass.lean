import CalvinConstrained.Runtime.IdentityChain
import CalvinConstrained.Runtime.SchedulerPass

namespace CalvinConstrained

open Prog QueueChain

namespace Node

def fifoOf (s : Node) (p : Ref) : Option (Fifo Bytes) := (s.portMem.get p).bind Port.fifo

/-- An enabled Identity actor with its in-port `r` and its out-port `q`, which is connected to the
in-port `p`. -/
structure IsStage (s : Node) (a r q p : Ref) : Prop where
  actor : ∃ y, s.actorMem.get a=some y ∧ y.state=.enabled ∧ y.loaded=true ∧ y.inPorts=[r] ∧
    y.outPorts=[q]
  inPort : ∃ x, s.portMem.get r=some x ∧ x.state=.enabled ∧ x.direction=.dirIn ∧ x.actor=a
  outPort : ∃ x, s.portMem.get q=some x ∧ x.state=.enabled ∧ x.direction=.dirOut ∧
    x.tunnel=none ∧ x.peerPort=some p ∧ x.actor=a
  peer : ∃ x, s.portMem.get p=some x

/-- Everything but the tokens is as it was. -/
structure SameWiring (s t : Node) : Prop where
  actors : t.actors=s.actors
  actor : ∀ a, t.actorMem.get a=s.actorMem.get a
  port : ∀ p, (t.portMem.get p).map (fun x => {x with fifo := none})=
    (s.portMem.get p).map (fun x => {x with fifo := none})

variable {s t u : Node} {a p q r : Ref}

theorem SameWiring.refl (s : Node) : s.SameWiring s := ⟨rfl,fun _ => rfl,fun _ => rfl⟩

theorem SameWiring.trans (h : s.SameWiring t) (k : t.SameWiring u) : s.SameWiring u :=
  ⟨k.actors.trans h.actors,fun a => (k.actor a).trans (h.actor a),
    fun p => (k.port p).trans (h.port p)⟩

theorem SameWiring.live (h : s.SameWiring t) {x : Port} (hx : s.portMem.get p=some x) :
    ∃ f, t.portMem.get p=some {x with fifo := f} := by
  have hport := h.port p
  rw [hx,Option.map_some] at hport
  obtain ⟨y,hy,he⟩ := Option.map_eq_some_iff.mp hport
  refine ⟨y.fifo,?_⟩
  rw [hy]
  cases x
  cases y
  simp only [Port.mk.injEq] at he
  simp [he]

theorem IsStage.wiring (hs : s.IsStage a r q p) (h : s.SameWiring t) : t.IsStage a r q p where
  actor := by
    obtain ⟨y,hy,hrest⟩ := hs.actor
    exact ⟨y,(h.actor a).trans hy,hrest⟩
  inPort := by
    obtain ⟨x,hx,hrest⟩ := hs.inPort
    obtain ⟨f,hf⟩ := h.live hx
    exact ⟨_,hf,hrest⟩
  outPort := by
    obtain ⟨x,hx,hrest⟩ := hs.outPort
    obtain ⟨f,hf⟩ := h.live hx
    exact ⟨_,hf,hrest⟩
  peer := by
    obtain ⟨x,hx⟩ := hs.peer
    obtain ⟨f,hf⟩ := h.live hx
    exact ⟨_,hf⟩

end Node

/-- What an Identity actor does when it is fired, as the node sees it. -/
def identityEffect (instanceState : Option InstanceState) (f g : Fifo Bytes) : Effect where
  result := (identityFire f g).1
  instanceState := instanceState
  fifos := [(identityFire f g).2.1,(identityFire f g).2.2]
  closed := []
  opened := []

section Turn

variable {mp : Msgpuck} {s t : Node} {a p q r : Ref} {f g h : Fifo Bytes} {y : Actor}

/-- `actor->fire` of an Identity actor. -/
theorem fire_identity {rest : List Effect} (hs : s.IsStage a r q p) (hne : r ≠ q)
    (hy : s.actorMem.get a=some y)
    (he : s.host.fate.effects=identityEffect y.instanceState f g::rest) :
    ∃ t, Atom.callback a s=some ((identityFire f g).1,t) ∧ s.SameWiring t ∧
      t.host.fate.effects=rest ∧ t.fifoOf r=some (identityFire f g).2.1 ∧
      t.fifoOf q=some (identityFire f g).2.2 ∧ ∀ o, o ≠ r → o ≠ q → t.fifoOf o=s.fifoOf o := by
  obtain ⟨y',hy',-,hloaded,hin,hout⟩ := hs.actor
  cases hy.symm.trans hy'
  obtain ⟨x,hx,-⟩ := hs.inPort
  obtain ⟨z,hz,-⟩ := hs.outPort
  let m := s.portMem.set r {x with fifo := some (identityFire f g).2.1}
  let n := m.set q {z with fifo := some (identityFire f g).2.2}
  have hmz : m.get q=some z := by rw [Heap.get_set hx,if_neg hne.symm,hz]
  have hget : ∀ o, n.get o=if o=q then some {z with fifo := some (identityFire f g).2.2}
      else if o=r then some {x with fifo := some (identityFire f g).2.1} else s.portMem.get o := by
    intro o
    rw [Heap.get_set hmz,Heap.get_set hx]
  have hports : y.ports=[r,q] := by rw [Actor.ports,hin,hout]; rfl
  refine ⟨{s with
    host := {s.host with
      fate := {s.host.fate with effects := rest}
      objects := s.host.objects++[]}
    portMem := n
    actorMem := s.actorMem.set a y},?_,?_,rfl,?_,?_,?_⟩
  · have hset : ∀ u : Node, u.portMem=s.portMem → Atom.setFifos [r,q]
        [(identityFire f g).2.1,(identityFire f g).2.2] u=some ((),{u with portMem := n}) := by
      intro u hu
      have hr : Atom.updatePort r (fun x => {x with fifo := some (identityFire f g).2.1}) u=
          some ((),{u with portMem := m}) := by
        simp [Atom.updatePort,Atom.bind_apply,Atom.port,Atom.setPort,hu,hx,m]
      have hq : Atom.updatePort q (fun x => {x with fifo := some (identityFire f g).2.2})
          {u with portMem := m}=some ((),{u with portMem := n}) := by
        simp [Atom.updatePort,Atom.bind_apply,Atom.port,Atom.setPort,hmz,n]
      exact Atom.bind_eq_some.mpr ⟨(),_,hr,Atom.bind_eq_some.mpr ⟨(),_,hq,rfl⟩⟩
    have hread : Atom.actor a s=some (y,s) := by rw [Atom.actor,hy]; rfl
    refine Atom.bind_eq_some.mpr ⟨y,s,hread,?_⟩
    simp only [hloaded,Bool.not_true,Bool.false_eq_true,if_false]
    refine Atom.bind_eq_some.mpr ⟨_,_,by rw [Atom.effect,he],?_⟩
    refine Atom.bind_eq_some.mpr ⟨(),_,?_,rfl⟩
    refine Atom.bind_eq_some.mpr ⟨y,_,by rw [Atom.actor]; exact congrArg (Option.map _) hy,?_⟩
    refine Atom.bind_eq_some.mpr ⟨(),_,rfl,?_⟩
    rw [hports]
    exact Atom.bind_eq_some.mpr ⟨(),_,hset _ rfl,rfl⟩
  · refine ⟨rfl,fun b => ?_,fun o => ?_⟩
    · change (s.actorMem.set a y).get b=_
      rw [Heap.set_self hy]
    · change (n.get o).map _=_
      rw [hget]
      split
      · next ho =>
        subst ho
        rw [hz]
        rfl
      · split
        · next ho =>
          subst ho
          rw [hx]
          rfl
        · rfl
  · exact congrArg (·.bind Port.fifo) ((hget r).trans (by rw [if_neg hne,if_pos rfl]))
  · exact congrArg (·.bind Port.fifo) ((hget q).trans (if_pos rfl))
  · intro o hr hq
    exact congrArg (·.bind Port.fifo) ((hget o).trans (by rw [if_neg hq,if_neg hr]))

/-- `cc_port_transmit` does nothing for an enabled in-port. -/
theorem portTransmit_inPort (hs : s.IsStage a r q p) : (Flow.portTransmit mp r).Yields s () s := by
  obtain ⟨x,hx,henabled,hdir,hactor⟩ := hs.inPort
  obtain ⟨y,hy,hstate,-⟩ := hs.actor
  have hread : Atom.port r s=some (x,s) := by rw [Atom.port,hx]; rfl
  have howner : Atom.actor x.actor s=some (y,s) := by rw [hactor,Atom.actor,hy]; rfl
  refine yields_bind (yields_look hread) ?_
  rw [if_pos henabled]
  refine yields_bind (yields_look howner) ?_
  rw [if_pos hstate,if_neg (by simp [hdir])]
  exact yields_pure _ _

variable (mp) in
theorem portTransmit_outPort (hs : s.IsStage a r q p) (hne : q ≠ p) (hg : s.fifoOf q=some g)
    (hh : s.fifoOf p=some h) (hgs : g.size ≠ 0) (hhs : h.size ≠ 0) :
    ∃ t, (Flow.portTransmit mp q).Yields s () t ∧ s.SameWiring t ∧ t.host=s.host ∧
      t.fifoOf q=some (transmitLocal g h).1 ∧ t.fifoOf p=some (transmitLocal g h).2 ∧
      ∀ o, o ≠ q → o ≠ p → t.fifoOf o=s.fifoOf o := by
  obtain ⟨x,hx,henabled,hdir,htunnel,hpeer,hactor⟩ := hs.outPort
  obtain ⟨z,hz⟩ := hs.peer
  obtain ⟨y,hy,hstate,-⟩ := hs.actor
  rw [Node.fifoOf,hx,Option.bind_some] at hg
  rw [Node.fifoOf,hz,Option.bind_some] at hh
  obtain ⟨m,hrun,hq,hp,hother⟩ := portTransmit_local mp {
    ne := hne
    out := hx
    inp := hz
    enabled := henabled
    direction := hdir
    actor := ⟨y,hactor ▸ hy,hstate⟩
    noTunnel := htunnel
    peer := hpeer
    outFifo := hg
    inpFifo := hh
    outSize := hgs
    inpSize := hhs}
  refine ⟨_,hrun,⟨rfl,fun _ => rfl,fun o => ?_⟩,rfl,congrArg (·.bind Port.fifo) hq,
    congrArg (·.bind Port.fifo) hp,fun o hoq hop => congrArg (·.bind Port.fifo) (hother o hoq hop)⟩
  change (m.get o).map _=_
  by_cases hoq : o=q
  · subst hoq
    rw [hq,hx]
    rfl
  · by_cases hop : o=p
    · subst hop
      rw [hp,hz]
      rfl
    · rw [hother o hoq hop]

variable (mp) in
/-- What the scheduler does with an Identity actor. -/
theorem fireActor_identity {rest : List Effect} (hs : s.IsStage a r q p) (hrq : r ≠ q)
    (hqp : q ≠ p) (hrp : r ≠ p) (hy : s.actorMem.get a=some y)
    (he : s.host.fate.effects=identityEffect y.instanceState f g::rest)
    (hh : s.fifoOf p=some h) (hgs : (identityFire f g).2.2.size ≠ 0) (hhs : h.size ≠ 0) :
    ∃ t, (Flow.fireActor mp a).Yields s () t ∧ s.SameWiring t ∧ t.host.fate.effects=rest ∧
      t.fifoOf r=some (identityFire f g).2.1 ∧
      t.fifoOf q=some (transmitLocal (identityFire f g).2.2 h).1 ∧
      t.fifoOf p=some (transmitLocal (identityFire f g).2.2 h).2 ∧
      ∀ o, o ≠ r → o ≠ q → o ≠ p → t.fifoOf o=s.fifoOf o := by
  obtain ⟨y',hy',hstate,-,hin,hout⟩ := hs.actor
  cases hy.symm.trans hy'
  obtain ⟨u,hfire,hsu,heu,hur,huq,huo⟩ := fire_identity hs hrq hy he
  have hup : u.fifoOf p=some h := (huo p hrp.symm hqp.symm).trans hh
  obtain ⟨t,hsend,hut,hhost,htq,htp,hto⟩ :=
    portTransmit_outPort mp (hs.wiring hsu) hqp huq hup hgs hhs
  have hread : Atom.actor a s=some (y,s) := by rw [Atom.actor,hy]; rfl
  have hports : y.ports=[r,q] := by rw [Actor.ports,hin,hout]; rfl
  refine ⟨t,?_,hsu.trans hut,by rw [hhost,heu],?_,htq,htp,fun o hor hoq hop => ?_⟩
  · refine yields_bind (yields_look hread) ?_
    rw [if_pos hstate,hports]
    refine yields_bind (yields_act (congrArg (Option.map Prod.snd) hfire)) ?_
    refine yields_bind (portTransmit_inPort (hs.wiring hsu)) (yields_bind hsend ?_)
    exact yields_pure _ _
  · exact (hto r hrq hrp).trans hur
  · exact (hto o hoq hop).trans (huo o hor hoq)

end Turn

theorem Fifo.writeToken_size (f : Fifo Bytes) (token : Option Bytes) :
    (f.writeToken token).2.size=f.size := by
  unfold Fifo.writeToken
  split <;> rfl

theorem Fifo.commitRead_size (f : Fifo Bytes) (free : Bool) : (f.commitRead free).size=f.size := by
  unfold Fifo.commitRead
  split <;> rfl

theorem identityFire_size (f g : Fifo Bytes) :
    (identityFire f g).2.1.size=f.size ∧ (identityFire f g).2.2.size=g.size := by
  unfold identityFire
  split
  · exact ⟨rfl,rfl⟩
  split
  · exact ⟨rfl,rfl⟩
  dsimp only
  split
  · exact ⟨rfl,g.writeToken_size _⟩
  · exact ⟨f.peek.2.commitRead_size false,g.writeToken_size _⟩

theorem transmitLocal_size (g h : Fifo Bytes) :
    (transmitLocal g h).1.size=g.size ∧ (transmitLocal g h).2.size=h.size := by
  unfold transmitLocal
  split
  swap
  · exact ⟨rfl,rfl⟩
  dsimp only
  split
  · exact ⟨g.peek.2.commitRead_size false,h.writeToken_size _⟩
  · exact ⟨rfl,h.writeToken_size _⟩

/-- A chain of enabled Identity actors, the last first, with its ports in the order of the
queues. -/
structure Node.IsChain (s : Node) (as ps : List Ref) (rings : List (Fifo Bytes)) : Prop where
  ports : ps.Nodup
  fifos : ps.map s.fifoOf=rings.map some
  sizes : ∀ f ∈ rings, f.size ≠ 0
  stages : ∀ j a, as[j]?=some a → ∃ r q p, ps[2*j+2]?=some r ∧ ps[2*j+1]?=some q ∧
    ps[2*j]?=some p ∧ s.IsStage a r q p

namespace IdentityChain

/-- What an actor of the chain does when its turn comes. -/
def effect (instanceState : Option InstanceState) (rings : List (Fifo Bytes)) (j : Nat) :
    Option Effect := do
  return identityEffect instanceState (← rings[2*j+2]?) (← rings[2*j+1]?)

/-- What the actors of the chain do in a pass. -/
def effects (instanceState : Nat → Option InstanceState) : List Nat → List (Fifo Bytes) → List Effect
  | [],_ => []
  | j::js,rings => (effect (instanceState j) rings j).toList++effects instanceState js (turn rings j)

end IdentityChain

/-- The instance state of the `j`-th actor of a chain. -/
def Node.stateOf (s : Node) (as : List Ref) (j : Nat) : Option InstanceState :=
  as[j]?.bind fun a => (s.actorMem.get a).bind Actor.instanceState

section Pass

variable {mp : Msgpuck} {s t : Node} {as ps : List Ref} {rings : List (Fifo Bytes)}

theorem ring_at {k : Nat} {p : Ref} (h : ps.map s.fifoOf=rings.map some) (hp : ps[k]?=some p) :
    ∃ f, rings[k]?=some f ∧ s.fifoOf p=some f := by
  have hk := congrArg (·[k]?) h
  simp only [List.getElem?_map,hp,Option.map_some] at hk
  obtain ⟨f,hf,he⟩ := Option.map_eq_some_iff.mp hk.symm
  exact ⟨f,hf,he.symm⟩

variable (mp) in
/-- The turn of an actor of the chain. -/
theorem chain_turn {j : Nat} {a : Ref} {rest : List Effect} (h : s.IsChain as ps rings)
    (ha : as[j]?=some a)
    (he : s.host.fate.effects=(IdentityChain.effect (s.stateOf as j) rings j).toList++rest) :
    ∃ t, (Flow.fireActor mp a).Yields s () t ∧ s.SameWiring t ∧ t.host.fate.effects=rest ∧
      t.IsChain as ps (IdentityChain.turn rings j) := by
  obtain ⟨r,q,p,hr,hq,hp,hstage⟩ := h.stages j a ha
  obtain ⟨f,hrf,hf⟩ := ring_at h.fifos hr
  obtain ⟨g,hrg,hg⟩ := ring_at h.fifos hq
  obtain ⟨i,hri,hi⟩ := ring_at h.fifos hp
  obtain ⟨y,hy,-⟩ := hstage.actor
  have hapart : ∀ {k l : Nat} {o o' : Ref}, k ≠ l → ps[k]?=some o → ps[l]?=some o' → o ≠ o' := by
    intro k l o o' hkl ho ho' heq
    subst heq
    have hk : k<ps.length := (List.getElem?_eq_some_iff.mp ho).1
    exact hkl ((List.getElem?_inj hk h.ports).mp (ho.trans ho'.symm))
  have heffect : IdentityChain.effect (s.stateOf as j) rings j=
      some (identityEffect y.instanceState f g) := by
    simp [IdentityChain.effect,Node.stateOf,ha,hy,hrf,hrg]
  rw [heffect] at he
  have hrq : r ≠ q := hapart (by omega) hr hq
  have hqp : q ≠ p := hapart (by omega) hq hp
  have hrp : r ≠ p := hapart (by omega) hr hp
  obtain ⟨t,hrun,hsame,hrest,htr,htq,htp,hother⟩ := fireActor_identity mp hstage hrq hqp hrp
    hy he hi (by rw [(identityFire_size f g).2]; exact h.sizes g (List.mem_of_getElem? hrg))
    (h.sizes i (List.mem_of_getElem? hri))
  refine ⟨t,hrun,hsame,hrest,h.ports,?_,?_,fun k b hb => ?_⟩
  · let fired : Ref → Option (Fifo Bytes) := fun o =>
      if o=r then some (identityFire f g).2.1 else if o=q then some (identityFire f g).2.2 else s.fifoOf o
    have hfired : ps.map fired=
        (stepAt (fun f g => (identityFire f g).2) (2*j+1) rings).map some := by
      refine map_stepAt h.ports h.fifos hq hr hf hg (if_pos rfl) ?_ fun o hoq hor => ?_
      · exact (if_neg hrq.symm).trans (if_pos rfl)
      · exact (if_neg hor).trans (if_neg hoq)
    have hfq : fired q=some (identityFire f g).2.2 := (if_neg hrq.symm).trans (if_pos rfl)
    have hfp : fired p=some i := (if_neg hrp.symm).trans ((if_neg hqp.symm).trans hi)
    refine map_stepAt h.ports hfired hp hq hfq hfp htq htp fun o hop hoq => ?_
    by_cases hor : o=r
    · subst hor
      exact htr.trans (if_pos rfl).symm
    · exact (hother o hor hoq hop).trans ((if_neg hor).trans (if_neg hoq)).symm
  · refine stepAt_all (fun g h hg hh => ?_) (stepAt_all (fun f g hf hg => ?_) h.sizes)
    · rw [(transmitLocal_size g h).1,(transmitLocal_size g h).2]
      exact ⟨hg,hh⟩
    · rw [(identityFire_size f g).1,(identityFire_size f g).2]
      exact ⟨hf,hg⟩
  · obtain ⟨r',q',p',hr',hq',hp',hstage'⟩ := h.stages k b hb
    exact ⟨r',q',p',hr',hq',hp',hstage'.wiring hsame⟩

theorem stateOf_wiring (h : s.SameWiring t) : t.stateOf as=s.stateOf as := by
  funext j
  rw [Node.stateOf,Node.stateOf]
  congr 1
  funext a
  rw [h.actor a]

variable (mp) in
/-- The rest of a pass over the actors of a chain. -/
theorem fireLoop_chain {kept as' : List Ref} {order : List Nat} {rest : List Effect} {n : Nat}
    (hnodup : s.actors.Nodup) (hlist : s.actors=kept++as')
    (horder : List.Forall₂ (fun a j => as[j]?=some a) as' order) (h : s.IsChain as ps rings)
    (he : s.host.fate.effects=IdentityChain.effects (s.stateOf as) order rings++rest)
    (hn : as'.length ≤ n) :
    ∃ t, (Flow.fireLoop mp n as'.head?).Yields s () t ∧ s.SameWiring t ∧
      t.IsChain as ps (IdentityChain.pass rings order) ∧ t.host.fate.effects=rest := by
  induction horder generalizing s kept rings n with
  | nil =>
    refine ⟨s,?_,.refl s,h,he⟩
    cases n <;> exact yields_pure _ _
  | @cons a j as' order ha _ ih =>
    cases n with
    | zero => simp at hn
    | succ n =>
    rw [IdentityChain.effects,List.append_assoc] at he
    obtain ⟨u,hturn,hsame,heu,hu⟩ := chain_turn mp h ha he
    have hlist' : u.actors=(kept++[a])++as' := by rw [hsame.actors,hlist]; simp
    rw [← stateOf_wiring hsame] at heu
    obtain ⟨t,hrest,hut,ht,het⟩ := ih (hsame.actors ▸ hnodup) hlist' hu heu (by simpa using hn)
    obtain ⟨r,q,p,-,-,-,hstage⟩ := h.stages j a ha
    obtain ⟨y,hy,hstate,-⟩ := hstage.actor
    have hread : Atom.actor a s=some (y,s) := by rw [Atom.actor,hy]; rfl
    have hmem : a ∈ s.actors := by rw [hlist]; simp
    have hmiss : a ∉ kept := by
      rw [hlist] at hnodup
      exact fun hk => (List.nodup_append.mp hnodup).2.2 a hk a (by simp) rfl
    refine ⟨t,?_,hsame.trans hut,ht,het⟩
    refine yields_bind (yields_read s) ?_
    rw [if_neg (by simpa using hmem)]
    refine yields_bind (yields_look hread) ?_
    rw [if_neg (by simp [hstate])]
    refine yields_bind hturn ?_
    rw [hlist,nextAfter_append hmiss]
    exact hrest

variable (mp) in
/-- `fire_actors` on a chain of Identity actors. -/
theorem fireActors_chain {order : List Nat} {rest : List Effect} (hnodup : s.actors.Nodup)
    (horder : List.Forall₂ (fun a j => as[j]?=some a) s.actors order) (h : s.IsChain as ps rings)
    (he : s.host.fate.effects=IdentityChain.effects (s.stateOf as) order rings++rest) :
    ∃ t, (Flow.fireActors mp).Yields s () t ∧ s.SameWiring t ∧
      t.IsChain as ps (IdentityChain.pass rings order) ∧ t.host.fate.effects=rest := by
  have hlist : s.actors=[]++s.actors := rfl
  obtain ⟨t,hrun,ht⟩ := fireLoop_chain mp hnodup hlist horder h he (Nat.le_refl _)
  exact ⟨t,yields_bind (yields_read s) hrun,ht⟩

end Pass

section Claim

variable (mp : Msgpuck) {rings : List (Fifo Bytes)} {qs : List (TentativeQueue Bytes)}
  {es : List ChainEvent} {t : IdentityChain}

/-- A chain of Identity actors is a queue: what the sink consumed, then what its in-port and the
queues behind it hold, is what they held at first and what was written. The passes are those of the
scheduler on a node with these actors in any order. -/
theorem identity_chain_is_queue (hrings : List.Forall₂ Fifo.Refines rings qs)
    (hnone : ∀ q ∈ qs, q.peeked=0) (hfew : Fits (2^32) (es.countP ChainEvent.writes) qs)
    (hr : Runs IdentityChain.step (fun _ _ => True) ⟨rings,[],[]⟩ es t) :
    t.consumed.map some++t.rings.flatMap Fifo.uncommitted=
      rings.flatMap Fifo.uncommitted++t.accepted.map some ∧
    ∀ s as ps order rest, s.IsChain as ps t.rings → s.actors.Nodup →
      List.Forall₂ (fun a j => as[j]?=some a) s.actors order →
      s.host.fate.effects=IdentityChain.effects (s.stateOf as) order t.rings++rest →
      ∃ u, (Flow.fireActors mp).Yields s () u ∧ u.actors=s.actors ∧
        u.IsChain as ps (IdentityChain.pass t.rings order) := by
  have hready : Ready qs := fun q hq => hnone q (List.mem_of_mem_tail hq)
  have hholds : IdentityChain.Holds (held qs) (es.countP ChainEvent.writes) rings :=
    ⟨qs,hrings,hready,hfew,rfl⟩
  constructor
  · have hstart : IdentityChain.Conserves (held qs) (es.countP ChainEvent.writes) ⟨rings,[],[]⟩ :=
      ⟨held qs,by simp,hholds⟩
    obtain ⟨left,hall,hleft⟩ := IdentityChain.run_conserves hr hstart
    rw [hleft.uncommitted,hholds.uncommitted,← List.map_append,hall,List.map_append]
  · intro s as ps order rest hchain hnodup horder he
    obtain ⟨u,hrun,hsame,hu,-⟩ := fireActors_chain mp hnodup horder hchain he
    exact ⟨u,hrun,hsame.actors,hu⟩

/-- Two actors with their ports and the sink's in-port; the one in front of the sink is listed
first. -/
def chainNode (sink out inp out' inp' : Fifo Bytes) : Node :=
  let port (direction : PortDirection) (peerPort : Option Ref) (f : Fifo Bytes) (a : Ref) : Port :=
    ⟨ascii "p",ascii "p",ascii "q",ascii "n",direction,peerPort,none,.enabled,some f,0,a⟩
  let actor (id : String) (inPort outPort : Ref) : Actor :=
    ⟨ascii "t",some (ascii id),none,.actor,.enabled,true,none,[inPort],[outPort],[],[]⟩
  {Node.init bareHost with
    portMem := ⟨[some (port .dirIn (some 1) sink 2),some (port .dirOut (some 0) out 0),
      some (port .dirIn (some 3) inp 0),some (port .dirOut (some 2) out' 1),
      some (port .dirIn none inp' 1)]⟩
    actorMem := ⟨[some (actor "a" 2 1),some (actor "b" 4 3)]⟩
    actors := [0,1]
    host := {bareHost with fate := {bareHost.fate with
      effects := IdentityChain.effects (fun _ => none) [0,1] [sink,out,inp,out',inp']}}}

theorem chainNode_isChain {sink out inp out' inp' : Fifo Bytes}
    (h : ∀ f ∈ [sink,out,inp,out',inp'], f.size ≠ 0) :
    (chainNode sink out inp out' inp').IsChain [0,1] [0,1,2,3,4] [sink,out,inp,out',inp'] where
  ports := by decide
  fifos := rfl
  sizes := h
  stages := by
    intro j a ha
    rcases j with _ | _ | j
    · cases ha
      exact ⟨2,1,0,rfl,rfl,rfl,⟨_,rfl,rfl,rfl,rfl,rfl⟩,⟨_,rfl,rfl,rfl,rfl⟩,
        ⟨_,rfl,rfl,rfl,rfl,rfl,rfl⟩,⟨_,rfl⟩⟩
    · cases ha
      exact ⟨4,3,2,rfl,rfl,rfl,⟨_,rfl,rfl,rfl,rfl,rfl⟩,⟨_,rfl,rfl,rfl,rfl⟩,
        ⟨_,rfl,rfl,rfl,rfl,rfl,rfl⟩,⟨_,rfl⟩⟩
    · cases ha

/-- A token is written while another one is in the first queue, and both actors pass them on in
either order. -/
def chainEvents : List ChainEvent :=
  [.write [8],.pass [1,0],.pass [0,1],.peek,.commit true,.pass [0,1]]

theorem identity_chain_is_queue_two :
    ∃ t, Runs IdentityChain.step (fun _ _ => True)
        ⟨[.init 2,.init 2,.init 2,.init 2,((Fifo.init 4).write [7]).2],[],[]⟩ chainEvents t ∧
      t.consumed=[[7]] ∧ t.rings.flatMap Fifo.uncommitted=[some [8]] ∧
      ∃ sink out inp out' inp' u, t.rings=[sink,out,inp,out',inp'] ∧
        (Flow.fireActors msgpack).Yields (chainNode sink out inp out' inp') () u ∧
        u.IsChain [0,1] [0,1,2,3,4] (IdentityChain.pass t.rings [0,1]) := by
  have hrun : (runChecked IdentityChain.step (fun _ _ => True) chainEvents
      ⟨[.init 2,.init 2,.init 2,.init 2,((Fifo.init 4).write [7]).2],[],[]⟩).any (fun t =>
        decide (t.consumed=[[7]] ∧ t.accepted=[[8]] ∧ t.rings.length=5 ∧
          ∀ f ∈ t.rings, f.size ≠ 0))=true := by decide +kernel
  obtain ⟨t,ht,hend⟩ := exists_of_any hrun
  obtain ⟨hconsumed,haccepted,hlen,hsizes⟩ := of_decide_eq_true hend
  have hr := Runs.of_runChecked ht
  have hinit : (Fifo.init 2 : Fifo Bytes).Refines (.empty 1) := Fifo.init_refines 2 (by decide)
  have hrings : List.Forall₂ Fifo.Refines [(Fifo.init 2 : Fifo Bytes),.init 2,.init 2,.init 2,
      ((Fifo.init 4).write [7]).2]
        [.empty 1,.empty 1,.empty 1,.empty 1,((TentativeQueue.empty 3).write [7]).2] :=
    .cons hinit (.cons hinit (.cons hinit (.cons hinit
      (.cons ((Fifo.init_refines 4 (by decide)).write [7] (by decide)).2 .nil))))
  obtain ⟨hqueue,hpass⟩ := identity_chain_is_queue msgpack hrings (by decide)
    ⟨by decide,by decide,by decide,by decide,by decide,trivial⟩ hr
  obtain ⟨sink,out,inp,out',inp',hall⟩ : ∃ sink out inp out' inp',
      t.rings=[sink,out,inp,out',inp'] := by
    obtain ⟨sink,rest,h₁⟩ := List.exists_cons_of_length_eq_add_one hlen
    obtain ⟨out,rest',h₂⟩ := List.exists_cons_of_length_eq_add_one
      (show rest.length=3+1 by rw [h₁] at hlen; simpa using hlen)
    obtain ⟨inp,out',inp',h₃⟩ := List.length_eq_three.mp
      (show rest'.length=3 by rw [h₁,h₂] at hlen; simpa using hlen)
    exact ⟨sink,out,inp,out',inp',by rw [h₁,h₂,h₃]⟩
  rw [hall] at hsizes
  have hchain := chainNode_isChain hsizes
  have hstate : (chainNode sink out inp out' inp').stateOf [0,1]=fun _ => none := by
    funext j
    rcases j with _ | _ | j <;> rfl
  obtain ⟨u,hfire,-,hu⟩ := hpass (chainNode sink out inp out' inp') [0,1] [0,1,2,3,4] [0,1] []
    (hall ▸ hchain) (by decide : ([0,1] : List Ref).Nodup) (.cons rfl (.cons rfl .nil))
    (by rw [hstate,hall]; exact (List.append_nil _).symm)
  refine ⟨t,hr,hconsumed,?_,sink,out,inp,out',inp',u,hall,hfire,hu⟩
  rw [hconsumed,haccepted] at hqueue
  exact List.append_cancel_left (hqueue.trans (by decide))

end Claim

end CalvinConstrained
