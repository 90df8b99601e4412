import CalvinConstrained.Framework.Heap
import CalvinConstrained.Runtime.FifoQueue

namespace CalvinConstrained

variable {α : Type}

/-- `cc_token_encode`: a token without a value travels as nil. -/
def tokenEncode (nil : α) (token : Option α) : α := token.getD nil

/-- `cc_node_handle_token` for an in-port of an actor in state `actor`; `alloc` is
the outcome of allocating the copy. -/
def handleToken (actor : ActorState) (alloc : Bool) (f : Fifo α) (data : α)
    (sequencenbr : UInt32) : Result × Fifo α :=
  if actor=.enabled then
    if f.slotsAvailable 1 then
      if alloc then f.comWrite data sequencenbr else (.fail,f)
    else (.fail,f)
  else (.fail,f)

/-- Either the token is refused and nothing changes, or it reaches the fifo. -/
theorem handleToken_cases (actor : ActorState) (alloc : Bool) (f : Fifo α) (a : α) (n : UInt32) :
    handleToken actor alloc f a n=(.fail,f) ∨
    (actor=.enabled ∧ f.slotsAvailable 1=true ∧ alloc=true ∧
      handleToken actor alloc f a n=f.comWrite a n) := by
  unfold handleToken
  split_ifs with ha hs hm
  · exact .inr ⟨ha,hs,hm,rfl⟩
  all_goals exact .inl rfl

/-- `cc_node_handle_token_reply` on the fifo of the port it found. -/
def handleTokenReply (f : Fifo α) (reply : PortReplyType) (sequencenbr : UInt32) : Fifo α :=
  match reply with
  | .ack => f.comCommitRead sequencenbr
  | .nack => f.comCancelRead sequencenbr
  | .abort => f

/-- `cc_port_transmit` on an enabled out-port with a tunnel: the TOKEN sent, if
any, and the fifo; `sent` is the outcome of `cc_proto_send_token`. -/
def transmitToken (nil : α) (f : Fifo α) (sent : Bool) : Option (UInt32 × α) × Fifo α :=
  if f.tokensAvailable 1 then
    let token := f.comPeek.1.1
    let sequencenbr := f.comPeek.1.2
    if sent then (some (sequencenbr,tokenEncode nil token),f.comPeek.2)
    else (none,f.comPeek.2.comCancelRead sequencenbr)
  else (none,f)

/-- An out-port and its peer in-port on another node, with the two channels between
them, oldest message first. `written` and `accepted` record the tokens that entered
the two fifos. -/
@[ext] structure Transfer (α : Type) where
  out : Fifo α
  inp : Fifo α
  receiver : ActorState
  tokens : List (UInt32 × α)
  replies : List (PortReplyType × UInt32)
  written : List α
  accepted : List α
  deriving DecidableEq

inductive TransferEvent (α : Type)
  | produce (data : α)
  | transmit (sent : Bool)
  | deliverToken (alloc : Bool)
  | deliverReply
  | consume
  | receiverState (state : ActorState)

namespace Transfer

def init (outSize inSize : UInt32) : Transfer α :=
  ⟨.init outSize,.init inSize,.pending,[],[],[],[]⟩

def step (nil : α) : TransferEvent α → Transfer α → Option (Transfer α)
  | .produce a,s =>
      some {s with
        out := (s.out.write a).2
        written := if (s.out.write a).1=.success then s.written++[a] else s.written}
  | .transmit sent,s =>
      let r := transmitToken nil s.out sent
      some {s with out := r.2,tokens := s.tokens++r.1.toList}
  | .deliverToken alloc,s =>
      match s.tokens with
      | [] => none
      | (n,a)::rest =>
        let r := handleToken s.receiver alloc s.inp a n
        some {s with
          inp := r.2
          tokens := rest
          replies := s.replies++[(if r.1=.success then .ack else .nack,n)]
          accepted := if r.2.writePos=s.inp.writePos then s.accepted else s.accepted++[a]}
  | .deliverReply,s =>
      match s.replies with
      | [] => none
      | (reply,n)::rest => some {s with out := handleTokenReply s.out reply n,replies := rest}
  | .consume,s =>
      if s.inp.tokensAvailable 1 then some {s with inp := s.inp.peek.2.commitRead true} else none
  | .receiverState state,s => some {s with receiver := state}

/-- Nothing lost, duplicated or reordered, and what the sender has released is part
of what the receiver took. -/
def ExactlyOnce (s : Transfer α) : Prop :=
  s.accepted<+:s.written ∧ s.written.take s.out.readPos.toNat<+:s.accepted

/-- The branch of `cc_fifo_com_write` marked TODO is not taken: a token the receiver
would take now is not ahead of its write position. -/
def InOrder : TransferEvent α → Transfer α → Prop
  | .deliverToken alloc,s => ∀ m ∈ s.tokens.head?,
      s.receiver=.enabled → s.inp.slotsAvailable 1=true → alloc=true → m.1 ≤ s.inp.writePos
  | _,_ => True

instance (e : TransferEvent α) (s : Transfer α) : Decidable (InOrder e s) := by
  cases e <;> unfold InOrder <;> infer_instance

/-- What holds between the two ends as long as deliveries are in order. A token in
flight that the receiver has not passed yet carries what was written under its
number; a stale one may carry anything. -/
structure Inv (s : Transfer α) : Prop where
  sender : s.out.Stores s.out.readPos.toNat (s.written.drop s.out.readPos.toNat)
  tentative : s.out.tentativeReadPos.toNat ≤ s.written.length
  receiver : ∃ q, s.inp.Refines q ∧ q.total=s.accepted.length
  inOrder : s.accepted<+:s.written
  released : s.out.readPos.toNat ≤ s.accepted.length
  tokens : ∀ m ∈ s.tokens, m.1.toNat<s.written.length ∧
    (m.1.toNat<s.accepted.length ∨ s.written[m.1.toNat]?=some m.2)
  acks : ∀ n, (.ack,n) ∈ s.replies → n.toNat<s.accepted.length
  nacks : ∀ n, (.nack,n) ∈ s.replies → n.toNat<s.written.length

theorem init_inv (outSize inSize : UInt32) (ho : 1 ≤ outSize.toNat) (hi : 1 ≤ inSize.toNat) :
    (init outSize inSize : Transfer α).Inv where
  sender := Fifo.init_stores outSize ho
  tentative := Nat.le_refl _
  receiver := ⟨_,Fifo.init_refines inSize hi,rfl⟩
  inOrder := List.prefix_refl _
  released := Nat.le_refl _
  tokens := by simp [init]
  acks := by simp [init]
  nacks := by simp [init]

theorem Inv.written_le {s : Transfer α} (h : s.Inv) : s.accepted.length ≤ s.written.length :=
  h.inOrder.length_le

theorem Inv.writePos {s : Transfer α} (h : s.Inv) : s.out.writePos.toNat=s.written.length := by
  have hr := h.released
  have hl := h.written_le
  rw [h.sender.write,List.length_drop]
  omega

theorem Inv.exactlyOnce {s : Transfer α} (h : s.Inv) : s.ExactlyOnce := by
  refine ⟨h.inOrder,?_⟩
  apply List.prefix_of_prefix_length_le (List.take_prefix _ _) h.inOrder
  exact (List.length_take_le _ _).trans h.released

theorem Inv.produce {s : Transfer α} (h : s.Inv) (nil a : α) {t : Transfer α}
    (hs : step nil (.produce a) s=some t) (hw : t.written.length<2^32) : t.Inv := by
  have hlen := h.writePos
  have hle := h.written_le
  have hrel := h.released
  simp only [step,Option.some.injEq] at hs
  subst t
  by_cases hroom : s.out.slotsAvailable 1=true
  · have hwrite : s.out.write a=
        (.success,{s.out.setSlot s.out.writePos (some a) with writePos := s.out.writePos+1}) := by
      simp [Fifo.write,hroom]
    have hsize : (s.written.drop s.out.readPos.toNat).length+1<s.out.size.toNat := by
      rw [h.sender.slotsAvailable,decide_eq_true_eq] at hroom
      simp only [UInt32.reduceToNat] at hroom
      omega
    simp only [hwrite,if_true,List.length_append,List.length_cons,List.length_nil] at hw ⊢
    have hpush := h.sender.push a hsize (by rw [List.length_drop]; omega)
    rw [← List.drop_append_of_le_length (show s.out.readPos.toNat ≤ s.written.length by omega)]
      at hpush
    exact {
      sender := hpush
      tentative := by
        have := h.tentative
        simp only [Fifo.setSlot,List.length_append,List.length_cons,List.length_nil]
        omega
      receiver := h.receiver
      inOrder := h.inOrder.trans (List.prefix_append _ _)
      released := h.released
      tokens := by
        intro m hm
        obtain ⟨hlt,hv⟩ := h.tokens m hm
        refine ⟨by simp only [List.length_append]; omega,hv.imp_right ?_⟩
        intro hv
        rw [List.getElem?_append_left hlt,hv]
      acks := h.acks
      nacks := by
        intro n hn
        have := h.nacks n hn
        simp only [List.length_append]
        omega }
  · have hwrite : s.out.write a=(.fail,s.out) := by simp [Fifo.write,hroom]
    simpa [hwrite] using h

/-- Peeking at `tentative_read_pos` gives a number below the write position and the
value written under it, unless that number was released already. -/
theorem Inv.peeked {s : Transfer α} (h : s.Inv) (nil : α)
    (ha : s.out.tokensAvailable 1=true) :
    s.out.tentativeReadPos.toNat<s.written.length ∧
    (s.out.tentativeReadPos.toNat<s.accepted.length ∨
      s.written[s.out.tentativeReadPos.toNat]?=
        some (tokenEncode nil (s.out.slot s.out.tentativeReadPos))) := by
  have hlen := h.writePos
  have hten := h.tentative
  have hrel := h.released
  have hwl := s.out.writePos.toNat_lt
  have hlt : s.out.tentativeReadPos.toNat<s.written.length := by
    rw [Fifo.tokensAvailable,decide_eq_true_eq,UInt32.le_iff_toNat_le,UInt32.toNat_sub] at ha
    simp only [UInt32.reduceToNat] at ha
    omega
  refine ⟨hlt,?_⟩
  by_cases hr : s.out.readPos.toNat ≤ s.out.tentativeReadPos.toNat
  · right
    rw [h.sender.slot _ (s.out.tentativeReadPos.toNat-s.out.readPos.toNat)
      (by rw [List.length_drop]; omega) (by omega)]
    simp only [tokenEncode,Option.getD_some,List.getElem_drop,Nat.add_sub_cancel' hr]
    exact List.getElem?_eq_getElem hlt
  · left
    omega

theorem Inv.transmit {s : Transfer α} (h : s.Inv) (nil : α) (sent : Bool) {t : Transfer α}
    (hs : step nil (.transmit sent) s=some t) : t.Inv := by
  have hwl := s.out.writePos.toNat_lt
  have hlen := h.writePos
  simp only [step,Option.some.injEq] at hs
  subst t
  by_cases ha : s.out.tokensAvailable 1=true
  · obtain ⟨hlt,hv⟩ := h.peeked nil ha
    have hnext : (s.out.tentativeReadPos+1).toNat ≤ s.written.length := by
      simp only [UInt32.toNat_add,UInt32.reduceToNat]
      omega
    cases sent with
    | true =>
      simp only [transmitToken,ha,if_true,Fifo.comPeek,Fifo.peek,Option.toList]
      exact {h with
        sender := h.sender.move _
        tentative := hnext
        tokens := by
          intro m hm
          rcases List.mem_append.mp hm with hm | hm
          · exact h.tokens m hm
          · rw [List.mem_singleton] at hm
            subst m
            exact ⟨hlt,hv⟩ }
    | false =>
      have hq : transmitToken nil s.out false=(none,s.out) := by
        simp [transmitToken,ha,s.out.comCancelRead_comPeek (by omega)]
      simpa [hq] using h
  · have hq : transmitToken nil s.out sent=(none,s.out) := by simp [transmitToken,ha]
    simpa [hq] using h

theorem Inv.deliverReply {s : Transfer α} (h : s.Inv) (nil : α) {t : Transfer α}
    (hs : step nil .deliverReply s=some t) : t.Inv := by
  have hlen := h.writePos
  have hle := h.written_le
  simp only [step] at hs
  split at hs
  · cases hs
  · next reply n rest hr =>
    simp only [Option.some.injEq] at hs
    subst t
    have hacks : ∀ k, (.ack,k) ∈ rest → k.toNat<s.accepted.length :=
      fun k hk => h.acks k (by rw [hr]; exact List.mem_cons_of_mem _ hk)
    have hnacks : ∀ k, (.nack,k) ∈ rest → k.toNat<s.written.length :=
      fun k hk => h.nacks k (by rw [hr]; exact List.mem_cons_of_mem _ hk)
    cases reply with
    | ack =>
      have hn : n.toNat<s.accepted.length := h.acks n (by rw [hr]; simp)
      simp only [handleTokenReply,Fifo.comCommitRead]
      split
      · exact {h with acks := hacks,nacks := hnacks}
      split
      · split
        · next heq =>
          subst n
          have hdrop := List.drop_eq_getElem_cons
            (show s.out.readPos.toNat<s.written.length by omega)
          have hsend := h.sender
          rw [hdrop] at hsend
          have hpop := hsend.pop
          have hread : (s.out.readPos+1).toNat=s.out.readPos.toNat+1 := hpop.read
          exact {h with
            sender := by rw [hread]; exact hpop
            released := by rw [hread]; exact hn
            acks := hacks
            nacks := hnacks }
        · exact {h with acks := hacks,nacks := hnacks}
      · exact {h with acks := hacks,nacks := hnacks}
    | nack =>
      have hn : n.toNat<s.written.length := h.nacks n (by rw [hr]; simp)
      simp only [handleTokenReply,Fifo.comCancelRead]
      split
      · exact {h with acks := hacks,nacks := hnacks}
      · exact {h with
          sender := h.sender.move _
          tentative := Nat.le_of_lt hn
          acks := hacks
          nacks := hnacks }
    | abort => exact {h with acks := hacks,nacks := hnacks}

/-- The token with the next number extends what was accepted so far. -/
private theorem prefix_next {xs ys : List α} {a : α} (h : xs<+:ys)
    (ha : ys[xs.length]?=some a) : xs++[a]<+:ys := by
  obtain ⟨rest,rfl⟩ := h
  rw [List.getElem?_append_right (Nat.le_refl _),Nat.sub_self] at ha
  cases rest with
  | nil => simp at ha
  | cons b rest =>
    simp only [List.getElem?_cons_zero,Option.some.injEq] at ha
    subst b
    exact ⟨rest,by simp⟩

theorem Inv.deliverToken {s : Transfer α} (h : s.Inv) (nil : α) (alloc : Bool) {t : Transfer α}
    (hok : InOrder (.deliverToken alloc) s)
    (hs : step nil (.deliverToken alloc) s=some t) : t.Inv := by
  have hlen := h.writePos
  have hle := h.written_le
  have hwl := s.out.writePos.toNat_lt
  obtain ⟨q,hq,htot⟩ := h.receiver
  have hpos : s.inp.writePos.toNat=s.accepted.length := hq.stores.write.trans htot
  simp only [step] at hs
  split at hs
  · cases hs
  · next n a rest hr =>
    simp only [Option.some.injEq] at hs
    obtain ⟨hn,hv⟩ := h.tokens (n,a) (by rw [hr]; simp)
    simp only at hn hv
    have hrest : ∀ m ∈ rest, m.1.toNat<s.written.length ∧
        (m.1.toNat<s.accepted.length ∨ s.written[m.1.toNat]?=some m.2) :=
      fun m hm => h.tokens m (by rw [hr]; exact List.mem_cons_of_mem _ hm)
    rcases handleToken_cases s.receiver alloc s.inp a n with he | ⟨hrec,hslot,halloc,he⟩
    · rw [he] at hs
      simp only [reduceCtorEq,if_false,if_true] at hs
      subst t
      exact {h with
        tokens := hrest
        acks := fun k hk => h.acks k (by simpa using hk)
        nacks := by
          intro k hk
          rcases List.mem_append.mp hk with hk | hk
          · exact h.nacks k hk
          · simp only [List.mem_singleton,Prod.mk.injEq,true_and] at hk
            exact hk ▸ hn }
    · rw [he] at hs
      by_cases hge : s.inp.writePos ≤ n
      · have hup : n ≤ s.inp.writePos := hok (n,a) (by simp [hr]) hrec hslot halloc
        rw [UInt32.le_iff_toNat_le] at hge hup
        have hnl : n.toNat=s.accepted.length := by omega
        have ha : s.written[s.accepted.length]?=some a := by
          rw [← hnl]
          exact hv.resolve_left (by omega)
        have hwrite := hq.write a (by
          have := q.length_le
          unfold TentativeQueue.write TentativeQueue.total at *
          split
          · simp only [List.length_append,List.length_cons,List.length_nil]
            omega
          · simp only
            omega)
        have hw : s.inp.write a=
            (.success,{s.inp.setSlot s.inp.writePos (some a) with writePos := s.inp.writePos+1}) := by
          simp [Fifo.write,hslot]
        have hcom : s.inp.comWrite a n=(.success,(s.inp.write a).2) := by
          rw [Fifo.comWrite,if_pos (by rw [UInt32.le_iff_toNat_le]; omega)]
        have hmoved : ¬(s.inp.write a).2.writePos=s.inp.writePos := by
          rw [hw]
          intro heq
          have hnat : (s.inp.writePos.toNat+(1 : UInt32).toNat)%2^32=s.inp.writePos.toNat := by
            rw [← UInt32.toNat_add]
            exact congrArg UInt32.toNat heq
          have hone : (1 : UInt32).toNat=1 := rfl
          omega
        rw [hcom] at hs
        simp only [if_true,if_neg hmoved] at hs
        subst t
        refine {h with
          receiver := ⟨_,hwrite.2,?_⟩
          inOrder := prefix_next h.inOrder ha
          released := by
            have := h.released
            simp only [List.length_append]
            omega
          tokens := fun m hm => ⟨(hrest m hm).1,(hrest m hm).2.imp_left (fun hm => by
            simp only [List.length_append]
            omega)⟩
          acks := ?_
          nacks := fun k hk => h.nacks k (by simpa using hk) }
        · have hrd := hwrite.2.stores.write
          have hwp : (s.inp.write a).2.writePos.toNat=s.accepted.length+1 := by
            rw [hw]
            simp only [UInt32.toNat_add,UInt32.reduceToNat]
            omega
          rw [TentativeQueue.total,← hrd,hwp,List.length_append]
          rfl
        · intro k hk
          simp only [List.length_append,List.length_cons,List.length_nil]
          rcases List.mem_append.mp hk with hk | hk
          · have := h.acks k hk
            omega
          · simp only [List.mem_singleton,Prod.mk.injEq,true_and] at hk
            subst k
            omega
      · have hcom : s.inp.comWrite a n=(.success,s.inp) := by rw [Fifo.comWrite,if_neg hge]
        rw [hcom] at hs
        simp only [if_true] at hs
        subst t
        rw [UInt32.le_iff_toNat_le] at hge
        exact {h with
          tokens := hrest
          acks := by
            intro k hk
            rcases List.mem_append.mp hk with hk | hk
            · exact h.acks k hk
            · simp only [List.mem_singleton,Prod.mk.injEq,true_and] at hk
              subst k
              show n.toNat<s.accepted.length
              omega
          nacks := fun k hk => h.nacks k (by simpa using hk) }

theorem Inv.consume {s : Transfer α} (h : s.Inv) (nil : α) {t : Transfer α}
    (hs : step nil .consume s=some t) : t.Inv := by
  obtain ⟨q,hq,htot⟩ := h.receiver
  simp only [step] at hs
  split at hs
  · next ha =>
    simp only [Option.some.injEq] at hs
    subst t
    rw [hq.peekable,decide_eq_true_eq] at ha
    exact {h with
      receiver := ⟨_,(hq.peek ha).2.commitRead true,by
        rw [TentativeQueue.total_commit,TentativeQueue.total_peek,htot]⟩ }
  · cases hs

theorem step_written (nil : α) (e : TransferEvent α) {s t : Transfer α}
    (hs : step nil e s=some t) : s.written.length ≤ t.written.length := by
  cases e <;> simp only [step] at hs
  case produce a =>
    cases hs
    split <;> simp
  case transmit => cases hs; exact Nat.le_refl _
  case receiverState => cases hs; exact Nat.le_refl _
  all_goals
    split at hs <;> cases hs
    exact Nat.le_refl _

/-- In-order deliveries keep both ends consistent, up to the 32-bit limit. -/
theorem Inv.step {s t : Transfer α} (h : s.Inv) (nil : α) (e : TransferEvent α)
    (hok : InOrder e s) (hs : step nil e s=some t) (hw : t.written.length<2^32) : t.Inv := by
  cases e with
  | produce a => exact h.produce nil a hs hw
  | transmit sent => exact h.transmit nil sent hs
  | deliverToken alloc => exact h.deliverToken nil alloc hok hs
  | deliverReply => exact h.deliverReply nil hs
  | consume => exact h.consume nil hs
  | receiverState st =>
    cases hs
    exact {h with}

/-- In every run in which no token is taken ahead of the in-port's write position,
transfer is exactly-once and in order in every state reached. -/
theorem exactly_once (nil : α) (outSize inSize : UInt32) (ho : 1 ≤ outSize.toNat)
    (hi : 1 ≤ inSize.toNat) (es : List (TransferEvent α)) (s : Transfer α)
    (hr : Runs (step nil) InOrder (init outSize inSize) es s) (hw : s.written.length<2^32) :
    s.ExactlyOnce := by
  have hinv : s.written.length<2^32 → s.Inv :=
    hr.invariant (fun s => s.written.length<2^32 → s.Inv)
      (fun e s t hok hs h ht =>
        (h (Nat.lt_of_le_of_lt (step_written nil e hs) ht)).step nil e hok hs ht)
      (fun _ => init_inv outSize inSize ho hi)
  exact (hinv hw).exactlyOnce

/-- Two tokens, the first of them sent again after it was refused. -/
theorem exactly_once_refused_then_sent :
    Transfer.ExactlyOnce
      (⟨⟨4,2,1,1,[none,some 8,none,none]⟩,⟨4,1,0,0,[some 7,none,none,none]⟩,.enabled,[],[],
        [7,8],[7]⟩ : Transfer Nat) :=
  exactly_once 0 4 4 (by decide) (by decide)
    [.produce 7,.transmit true,.deliverToken true,.produce 8,.deliverReply,.receiverState .enabled,
      .transmit true,.deliverToken true,.deliverReply]
    _ (.of_runChecked (by decide)) (by decide)

/-- The second token is taken although the first one was refused: the first is lost. -/
theorem refused_token_lost :
    ∃ s : Transfer Nat, Runs (step 0) (fun _ _ => True) (init 4 4)
      [.produce 7,.produce 8,.transmit true,.transmit true,.deliverToken true,
        .receiverState .enabled,.deliverToken true] s ∧
      s.written.length<2^32 ∧ s.written=[7,8] ∧ s.accepted=[8] ∧ ¬s.ExactlyOnce :=
  ⟨⟨⟨4,2,0,2,[some 7,some 8,none,none]⟩,⟨4,1,0,0,[some 8,none,none,none]⟩,.enabled,[],
      [(.nack,0),(.ack,1)],[7,8],[8]⟩,
    .of_runChecked (by decide),by decide,rfl,rfl,by unfold ExactlyOnce; decide⟩

end Transfer

end CalvinConstrained
