import CalvinConstrained.Runtime.Flow
import CalvinConstrained.Runtime.FifoQueue

namespace CalvinConstrained

/-- `cc_port_transmit` on an enabled out-port whose peer is on the same node: the token
moves from one queue to the other, or both stay as they are. -/
def transmitLocal (out inp : Fifo Bytes) : Fifo Bytes × Fifo Bytes :=
  if out.tokensAvailable 1 then
    let token := out.comPeek.1.1
    let out := out.comPeek.2
    let written := inp.writeToken token
    (if written.1=.success then out.commitRead false else out.cancelCommit,written.2)
  else (out,inp)

/-- An enabled out-port of an enabled actor, with its peer on the same node. -/
structure Adjacent (s : Node) (p q : Ref) (x y : Port) (f g : Fifo Bytes) : Prop where
  ne : p≠q
  out : s.portMem.get p=some x
  inp : s.portMem.get q=some y
  enabled : x.state=.enabled
  direction : x.direction=.dirOut
  actor : ∃ a, s.actorMem.get x.actor=some a ∧ a.state=.enabled
  noTunnel : x.tunnel=none
  peer : x.peerPort=some q
  outFifo : x.fifo=some f
  inpFifo : y.fifo=some g
  outSize : f.size≠0
  inpSize : g.size≠0

theorem portFifo_eq {s : Node} {p : Ref} {x : Port} {f : Fifo Bytes}
    (hx : s.portMem.get p=some x) (hf : x.fifo=some f) (hs : f.size≠0) :
    Atom.portFifo p s=some (f,s) := by
  simp [Atom.portFifo,Atom.port,Atom.bind_apply,hx,hf,hs]

theorem setFifo_apply (mp : Msgpuck) {s : Node} {p : Ref} {x : Port} (f : Fifo Bytes)
    (hx : s.portMem.get p=some x) : (Op.setFifo p f).apply mp s=
      some {s with portMem := s.portMem.set p {x with fifo := some f}} := by
  simp [Op.apply,Atom.updatePort,Atom.bind_apply,Atom.port,Atom.setPort,hx]

theorem portTransmitToken_local (mp : Msgpuck) {s : Node} {p q : Ref} {x y : Port}
    {f g : Fifo Bytes} (h : Adjacent s p q x y f g) :
    ∃ m, (Flow.portTransmitToken mp p x).Yields s () {s with portMem := m} ∧
      m.get p=some {x with fifo := some (transmitLocal f g).1} ∧
      m.get q=some {y with fifo := some (transmitLocal f g).2} ∧
      ∀ r, r≠p → r≠q → m.get r=s.portMem.get r := by
  have hread := portFifo_eq h.out h.outFifo h.outSize
  unfold Flow.portTransmitToken
  cases hsome : f.tokensAvailable 1 with
  | false =>
    refine ⟨s.portMem,Prog.yields_bind (Prog.yields_look hread) ?_,?_,?_,fun _ _ _ => rfl⟩
    · simp only [hsome,Bool.false_eq_true,if_false]
      exact Prog.yields_pure _ _
    · simp [transmitLocal,hsome,h.out,← h.outFifo]
    · simp [transmitLocal,hsome,h.inp,← h.inpFifo]
  | true =>
    have hset := Heap.get_set h.out {x with fifo := some f.comPeek.2}
    let m := s.portMem.set p {x with fifo := some f.comPeek.2}
    have hq : m.get q=some y := by rw [hset,if_neg h.ne.symm,h.inp]
    have hset' := Heap.get_set hq {y with fifo := some (g.writeToken f.comPeek.1.1).2}
    let n := m.set q {y with fifo := some (g.writeToken f.comPeek.1.1).2}
    have hp : n.get p=some {x with fifo := some f.comPeek.2} := by
      rw [hset',if_neg h.ne,hset,if_pos rfl]
    have hpeek := setFifo_apply mp f.comPeek.2 h.out
    have hpeer := portFifo_eq (s := {s with portMem := m}) hq h.inpFifo h.inpSize
    have hput := setFifo_apply mp (s := {s with portMem := m}) (g.writeToken f.comPeek.1.1).2 hq
    have hagain := portFifo_eq (s := {s with portMem := n}) hp rfl h.outSize
    have hlast := Prog.yields_act
      (setFifo_apply mp (s := {s with portMem := n}) (transmitLocal f g).1 hp)
    refine ⟨n.set p {x with fifo := some (transmitLocal f g).1},
      Prog.yields_bind (Prog.yields_look hread) ?_,?_,?_,fun r hr hr' => ?_⟩
    · simp only [hsome,if_true,h.noTunnel,h.peer]
      refine Prog.yields_bind (Prog.yields_act hpeek) (Prog.yields_bind (Prog.yields_look hpeer)
        (Prog.yields_bind (Prog.yields_act hput) (Prog.yields_bind (Prog.yields_look hagain) ?_)))
      split
      · next hwrite => simpa only [transmitLocal,hsome,if_true,hwrite,h.noTunnel,h.peer,n] using hlast
      · next hwrite =>
        simpa only [transmitLocal,hsome,if_true,hwrite,if_false,h.noTunnel,h.peer,n] using hlast
    · rw [Heap.get_set hp,if_pos rfl]
    · rw [Heap.get_set hp,if_neg h.ne.symm,hset',if_pos rfl]
      simp [transmitLocal,hsome]
    · rw [Heap.get_set hp,if_neg hr,hset',if_neg hr',hset,if_neg hr]

/-- `cc_port_transmit` on two such ports is `transmitLocal` on their queues. -/
theorem portTransmit_local (mp : Msgpuck) {s : Node} {p q : Ref} {x y : Port}
    {f g : Fifo Bytes} (h : Adjacent s p q x y f g) :
    ∃ m, (Flow.portTransmit mp p).Yields s () {s with portMem := m} ∧
      m.get p=some {x with fifo := some (transmitLocal f g).1} ∧
      m.get q=some {y with fifo := some (transmitLocal f g).2} ∧
      ∀ r, r≠p → r≠q → m.get r=s.portMem.get r := by
  obtain ⟨a,ha,hen⟩ := h.actor
  obtain ⟨m,hrun,hports⟩ := portTransmitToken_local mp h
  have hx : Atom.port p s=some (x,s) := by simp [Atom.port,h.out]
  have hactor : Atom.actor x.actor s=some (a,s) := by simp [Atom.actor,ha]
  refine ⟨m,Prog.yields_bind (Prog.yields_look hx) ?_,hports⟩
  simp only [h.enabled,if_true]
  refine Prog.yields_bind (Prog.yields_look hactor) ?_
  simpa only [hen,h.direction,if_true] using hrun

namespace Fifo

theorem Refines.peek_not_empty {f : Fifo Bytes} {q : TentativeQueue Bytes} (h : f.Refines q)
    (hp : q.peeked=0) : f.tokensAvailable 1=true ↔ q.items≠[] := by
  rw [h.peekable,decide_eq_true_eq,hp,List.length_pos_iff]

/-- Nothing moves while the in-port is full. -/
theorem Refines.transmitLocal_full {out inp : Fifo Bytes} {q : TentativeQueue Bytes}
    (h : out.Refines q) (hp : q.peeked=0) (hfull : inp.slotsAvailable 1=false) :
    transmitLocal out inp=(out,inp) := by
  have hread : out.tentativeReadPos=out.readPos := by
    rw [← UInt32.toNat_inj,h.tentative,h.stores.read,hp]
    rfl
  have hback : out.comPeek.2.cancelCommit=out := Fifo.ext rfl rfl rfl hread.symm rfl
  unfold transmitLocal
  split
  · simp only [writeToken,hfull,Bool.false_eq_true,if_false,reduceCtorEq,hback]
  · rfl

/-- The oldest token moves when the in-port has a free slot. -/
theorem Refines.transmitLocal_moves {out inp : Fifo Bytes} {q : TentativeQueue Bytes} {a : Bytes}
    {items : List Bytes} (h : out.Refines q) (hp : q.peeked=0) (ha : q.items=a::items)
    (hfree : inp.slotsAvailable 1=true) :
    (transmitLocal out inp).1.Refines q.peek.2.commit ∧
      (transmitLocal out inp).2=(inp.write a).2 := by
  have hlt : q.peeked<q.items.length := by simp [hp,ha]
  have hsome : out.tokensAvailable 1=true := (h.peek_not_empty hp).mpr (by simp [ha])
  obtain ⟨htoken,hpeek⟩ := h.peek hlt
  have hitem : out.comPeek.1.1=some a := by
    simp only [comPeek,htoken,TentativeQueue.peek,dif_pos hlt]
    simp [hp,ha]
  unfold transmitLocal
  simp only [hsome,if_true,hitem,writeToken,hfree,Fifo.write]
  exact ⟨hpeek.commitRead false,trivial⟩

/-- A commit takes the oldest token when it was handed out and does nothing otherwise. -/
theorem Refines.commit_takes {f : Fifo Bytes} {q : TentativeQueue Bytes} (h : f.Refines q)
    (free : Bool) :
    (if (f.commitRead free).readPos=f.readPos then [] else (f.slot f.readPos).toList)++
      q.commit.items=q.items := by
  have hw := f.writePos.toNat_lt
  have hstore := h.stores.write
  have hle := q.peeked_le
  unfold Fifo.commitRead TentativeQueue.commit
  by_cases hp : 0<q.peeked
  · have hlt : f.readPos<f.tentativeReadPos := h.read_lt_tentative.mpr hp
    have hne : f.readPos+1≠f.readPos := by
      rw [ne_eq,← UInt32.toNat_inj,UInt32.toNat_add,h.stores.read]
      simp only [UInt32.reduceToNat]
      omega
    have hslot : f.slot f.readPos=q.items.head? := by
      rw [h.stores.slot _ 0 (by omega) h.stores.read,List.head?_eq_getElem?,
        List.getElem?_eq_getElem]
    simp only [if_pos hlt,hne,if_false,dif_pos hp,hslot]
    cases q.items <;> rfl
  · have hge : ¬f.readPos<f.tentativeReadPos := fun hlt => hp (h.read_lt_tentative.mp hlt)
    simp [if_neg hge,dif_neg hp]

end Fifo

/-- The queues of two ports connected on one node. `committed` and `accepted` record the
tokens the consumer released and the producer's writes that succeeded. -/
structure LocalTransfer where
  out : Fifo Bytes
  inp : Fifo Bytes
  committed : List Bytes
  accepted : List Bytes
  deriving DecidableEq

inductive LocalEvent
  | write (data : Bytes)
  | transmit
  | peek
  | commit (free : Bool)
  | cancel
  deriving DecidableEq

namespace LocalTransfer

/-- A commit releases a token when it moves the read position; a peek without a token is
no step. -/
def step : LocalEvent → LocalTransfer → Option LocalTransfer
  | .write a,s =>
      some {s with
        out := (s.out.write a).2
        accepted := if (s.out.write a).1=.success then s.accepted++[a] else s.accepted}
  | .transmit,s =>
      some {s with out := (transmitLocal s.out s.inp).1,inp := (transmitLocal s.out s.inp).2}
  | .peek,s => if s.inp.tokensAvailable 1 then some {s with inp := s.inp.peek.2} else none
  | .commit free,s =>
      some {s with
        inp := s.inp.commitRead free
        committed := if (s.inp.commitRead free).readPos=s.inp.readPos then s.committed
          else s.committed++(s.inp.slot s.inp.readPos).toList}
  | .cancel,s => some {s with inp := s.inp.cancel}

/-- No write position reaches `2^32`. -/
def InRange : LocalEvent → LocalTransfer → Prop
  | .write _,s => s.out.slotsAvailable 1=true → s.out.writePos.toNat+1<2^32
  | .transmit,s => s.out.tokensAvailable 1=true → s.inp.slotsAvailable 1=true →
      s.inp.writePos.toNat+1<2^32
  | _,_ => True

instance : (e : LocalEvent) → (s : LocalTransfer) → Decidable (InRange e s)
  | .write _,_ => inferInstanceAs (Decidable (_ → _))
  | .transmit,_ => inferInstanceAs (Decidable (_ → _ → _))
  | .peek,_ => isTrue trivial
  | .commit _,_ => isTrue trivial
  | .cancel,_ => isTrue trivial

/-- The queues hold `tokens` behind what was committed, oldest first; the out-port keeps no
tentative read. -/
def Conserves (tokens : List Bytes) (s : LocalTransfer) : Prop :=
  ∃ out inp : TentativeQueue Bytes, s.out.Refines out ∧ s.inp.Refines inp ∧ out.peeked=0 ∧
    s.committed++inp.items++out.items=tokens++s.accepted

theorem step_conserves {tokens : List Bytes} {e : LocalEvent} {s t : LocalTransfer}
    (hr : InRange e s) (he : step e s=some t) (h : Conserves tokens s) : Conserves tokens t := by
  obtain ⟨out,inp,hout,hinp,hp,hall⟩ := h
  cases e with
  | write a =>
    cases he
    have hlen := hout.stores.write
    have hbound : (out.write a).2.total<2^32 := by
      by_cases hroom : out.items.length<out.cap
      · have hfree : s.out.slotsAvailable 1=true := by
          rw [hout.slotsAvailable,decide_eq_true_eq,TentativeQueue.freeSlots]
          simp only [UInt32.reduceToNat]
          omega
        have hnext := hr hfree
        simp only [TentativeQueue.write,dif_pos hroom,TentativeQueue.total,List.length_append,
          List.length_singleton]
        omega
      · simp only [TentativeQueue.write,dif_neg hroom,TentativeQueue.total]
        have hmax := s.out.writePos.toNat_lt
        omega
    obtain ⟨hresult,hwrite⟩ := hout.write a hbound
    refine ⟨(out.write a).2,inp,hwrite,hinp,?_,?_⟩
    · unfold TentativeQueue.write
      split <;> exact hp
    · simp only [hresult]
      unfold TentativeQueue.write
      split
      · simp only [if_true,← List.append_assoc,hall]
      · simpa using hall
  | transmit =>
    cases he
    cases hitems : out.items with
    | nil =>
      have hnone : s.out.tokensAvailable 1=false := by
        rw [hout.peekable,hitems,hp]
        rfl
      refine ⟨out,inp,?_,?_,hp,hall⟩
      · simpa [transmitLocal,hnone] using hout
      · simpa [transmitLocal,hnone] using hinp
    | cons a items =>
      cases hfree : s.inp.slotsAvailable 1 with
      | false =>
        simp only [hout.transmitLocal_full hp hfree]
        exact ⟨out,inp,hout,hinp,hp,hall⟩
      | true =>
        have hsome : s.out.tokensAvailable 1=true :=
          (hout.peek_not_empty hp).mpr (by simp [hitems])
        have hroom : inp.items.length < inp.cap := by
          rw [hinp.slotsAvailable,decide_eq_true_eq,TentativeQueue.freeSlots] at hfree
          simp only [UInt32.reduceToNat] at hfree
          omega
        have hlen := hinp.stores.write
        have hnext := hr hsome hfree
        have hbound : (inp.write a).2.total<2^32 := by
          simp only [TentativeQueue.write,dif_pos hroom,TentativeQueue.total,List.length_append,
            List.length_singleton]
          omega
        obtain ⟨hmoved,hput⟩ := hout.transmitLocal_moves hp hitems hfree
        refine ⟨out.peek.2.commit,(inp.write a).2,hmoved,?_,?_,?_⟩
        · rw [hput]
          exact (hinp.write a hbound).2
        · simp [TentativeQueue.peek,TentativeQueue.commit,hp,hitems]
        · have hrest : out.peek.2.commit.items=items := by
            simp [TentativeQueue.peek,TentativeQueue.commit,hp,hitems]
          simp only [hrest,TentativeQueue.write,dif_pos hroom]
          rw [← hall,hitems]
          simp
  | peek =>
    simp only [step] at he
    split at he
    · next hsome =>
      cases he
      have hlt : inp.peeked < inp.items.length := by
        rw [hinp.peekable] at hsome
        exact of_decide_eq_true hsome
      refine ⟨out,inp.peek.2,hout,(hinp.peek hlt).2,hp,?_⟩
      simpa [TentativeQueue.peek,hlt] using hall
    · cases he
  | commit free =>
    cases he
    refine ⟨out,inp.commit,hout,hinp.commitRead free,hp,?_⟩
    have htakes := hinp.commit_takes free
    rw [← hall,← htakes]
    split <;> simp
  | cancel =>
    cases he
    exact ⟨out,inp.rewind,hout,hinp.cancel,hp,hall⟩

/-- From any two queues without tentative reads, at every step of every interleaving: what
the consumer committed, then what the in-port holds, then what the out-port holds, is what
was there at first followed by what the producer's writes added, and a transmit that finds
the in-port full leaves both queues as they are. -/
theorem local_transfer_conserves (f g : Fifo Bytes) (out inp : TentativeQueue Bytes)
    (hout : f.Refines out) (hinp : g.Refines inp) (ho : out.peeked=0)
    (es : List LocalEvent) (t : LocalTransfer) (hr : Runs step InRange ⟨f,g,[],[]⟩ es t) :
    Conserves (inp.items++out.items) t ∧
    (t.inp.slotsAvailable 1=false → transmitLocal t.out t.inp=(t.out,t.inp)) := by
  have hstart : Conserves (inp.items++out.items) ⟨f,g,[],[]⟩ :=
    ⟨out,inp,hout,hinp,ho,by simp⟩
  have hend := hr.invariant _ (fun _ _ _ hok hs => step_conserves hok hs) hstart
  refine ⟨hend,fun hfull => ?_⟩
  obtain ⟨q,-,hq,-,hp,-⟩ := hend
  exact hq.transmitLocal_full hp hfull

theorem local_transfer_conserves_full_inport :
    ∃ t, Runs step InRange ⟨((Fifo.init 4).write [7]).2,.init 2,[],[]⟩
      [.write [8],.transmit,.transmit,.peek,.cancel,.peek,.commit false,.transmit] t ∧
      Conserves [[7]] t ∧ t.committed=[[7]] ∧ t.accepted=[[8]] := by
  obtain ⟨t,ht,hp⟩ := exists_of_any
    (o := runChecked step InRange [.write [8],.transmit,.transmit,.peek,.cancel,.peek,
      .commit false,.transmit] ⟨((Fifo.init 4).write [7]).2,.init 2,[],[]⟩)
    (p := fun t => decide (t.committed=[[7]] ∧ t.accepted=[[8]])) (by decide)
  have hr := Runs.of_runChecked ht
  have hout : ((Fifo.init 4 : Fifo Bytes).write [7]).2.Refines
      ((TentativeQueue.empty 3).write [7]).2 :=
    ((Fifo.init_refines 4 (by decide)).write [7] (by decide)).2
  have hinp : (Fifo.init 2 : Fifo Bytes).Refines (.empty 1) := Fifo.init_refines 2 (by decide)
  have h := local_transfer_conserves _ _ ((TentativeQueue.empty 3).write [7]).2 (.empty 1) hout
    hinp rfl _ t hr
  exact ⟨t,hr,h.1,of_decide_eq_true hp⟩

end LocalTransfer

end CalvinConstrained
