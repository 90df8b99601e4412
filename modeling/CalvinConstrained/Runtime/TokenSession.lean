import CalvinConstrained.Framework.AnswerLine
import CalvinConstrained.Runtime.TokenTransfer

namespace CalvinConstrained

variable {α : Type}

/-- Events of a token transfer whose connection can break. `disconnect` is what
`cc_port_handle_disconnect` and `cc_port_disconnect` do to the queue of the out-port. When a
connection is lost all that was under way is gone: behind the same proxy `cc_node_connect_to_proxy`
leaves the port as it is, behind a new one it disconnects the actors. -/
inductive SessionEvent (α : Type)
  | transfer (e : TransferEvent α)
  | disconnect
  | connectionLost
  | newProxy

namespace Transfer

/-- The queue of the out-port is disconnected. -/
def disconnect (s : Transfer α) : Transfer α := {s with out := s.out.cancel}

/-- Nothing is under way any more. -/
def lose (s : Transfer α) : Transfer α := {s with tokens := [],replies := []}

/-- A step of a transfer whose connection can break. -/
def sessionStep (nil : α) : SessionEvent α → Transfer α → Option (Transfer α)
  | .transfer e,s => step nil e s
  | .disconnect,s => some s.disconnect
  | .connectionLost,s => some s.lose
  | .newProxy,s => some s.lose.disconnect

def SessionInOrder : SessionEvent α → Transfer α → Prop
  | .transfer e,s => InOrder e s
  | _,_ => True

/-- A NACK does not name a number that was never sent: `cc_fifo_com_cancel_read` would move the
tentative position forward, over tokens that are not sent. -/
def RewindsOnly : SessionEvent α → Transfer α → Prop
  | .transfer .deliverReply,s =>
    ∀ r ∈ s.replies.head?,r.1=.nack → r.2 ≤ s.out.tentativeReadPos ∨ r.2<s.out.readPos
  | _,_ => True

/-- All tokens that are sent are released. -/
def Released (s : Transfer α) : Prop := s.out.tentativeReadPos ≤ s.out.readPos

/-- Nor does the connection to the same proxy break while a token is sent and not released. -/
def LosesNone (e : SessionEvent α) (s : Transfer α) : Prop :=
  RewindsOnly e s ∧ match e with
    | .connectionLost => s.Released
    | _ => True

instance (e : SessionEvent α) (s : Transfer α) : Decidable (SessionInOrder e s) := by
  cases e <;> unfold SessionInOrder <;> infer_instance

instance (e : SessionEvent α) (s : Transfer α) : Decidable (RewindsOnly e s) := by
  rcases e with (_ | _ | _ | _ | _ | _) | _ | _ | _ <;> unfold RewindsOnly <;> infer_instance

instance (e : SessionEvent α) (s : Transfer α) : Decidable (LosesNone e s) := by
  cases e <;> unfold LosesNone Released <;> infer_instance

section Order

variable {s t : Transfer α}

/-- A port that is disconnected takes back what it has sent. -/
theorem Inv.disconnect (h : s.Inv) : s.disconnect.Inv :=
  {h with
    sender := h.sender.move _
    tentative := h.released.trans h.written_le}

theorem Inv.lose (h : s.Inv) : s.lose.Inv :=
  {h with
    tokens := fun _ hm => by cases hm
    acks := fun _ hm => by cases hm
    nacks := fun _ hm => by cases hm}

theorem sessionStep_written (nil : α) (e : SessionEvent α) (hs : sessionStep nil e s=some t) :
    s.written.length ≤ t.written.length := by
  cases e with
  | transfer e => exact step_written nil e hs
  | disconnect =>
    cases hs
    exact Nat.le_refl _
  | connectionLost =>
    cases hs
    exact Nat.le_refl _
  | newProxy =>
    cases hs
    exact Nat.le_refl _

theorem Inv.sessionStep (h : s.Inv) (nil : α) (e : SessionEvent α) (hok : SessionInOrder e s)
    (hs : sessionStep nil e s=some t) (hw : t.written.length<2^32) : t.Inv := by
  cases e with
  | transfer e => exact h.step nil e hok hs hw
  | disconnect =>
    cases hs
    exact h.disconnect
  | connectionLost =>
    cases hs
    exact h.lose
  | newProxy =>
    cases hs
    exact h.lose.disconnect

/-- However often the connection breaks, to the same proxy or to another one, and the port is
disconnected, and whatever was under way then, each token is taken once and in order. -/
theorem session_exactly_once (nil : α) {outSize inSize : UInt32} (ho : 1 ≤ outSize.toNat)
    (hi : 1 ≤ inSize.toNat) {es : List (SessionEvent α)}
    (hr : Runs (sessionStep nil) SessionInOrder (init outSize inSize) es s)
    (hw : s.written.length<2^32) : s.ExactlyOnce := by
  have hinv : s.written.length<2^32 → s.Inv :=
    hr.invariant (fun s => s.written.length<2^32 → s.Inv)
      (fun e u v hok hs h hv =>
        (h (Nat.lt_of_le_of_lt (sessionStep_written nil e hs) hv)).sessionStep nil e hok hs hv)
      fun _ => init_inv outSize inSize ho hi
  exact (hinv hw).exactlyOnce

/-- The reply to the first of two tokens is lost with the connection, and the token is sent again
once the port is disconnected. Then the reply to the second one is lost. -/
theorem session_exactly_once_resent :
    ∃ s : Transfer Nat, Runs (sessionStep 0) SessionInOrder (init 4 4)
      [.transfer (.produce 7),.transfer (.produce 8),.transfer (.transmit true),
        .transfer (.receiverState .enabled),.transfer (.deliverToken true),.connectionLost,
        .disconnect,.transfer (.transmit true),.transfer (.transmit true),
        .transfer (.deliverToken true),.transfer (.deliverToken true),.transfer .deliverReply,
        .connectionLost] s ∧
      s.accepted=[7,8] ∧ s.out.readPos=1 ∧ s.ExactlyOnce := by
  have hr : Runs (sessionStep 0) SessionInOrder (init 4 4)
      [.transfer (.produce 7),.transfer (.produce 8),.transfer (.transmit true),
        .transfer (.receiverState .enabled),.transfer (.deliverToken true),.connectionLost,
        .disconnect,.transfer (.transmit true),.transfer (.transmit true),
        .transfer (.deliverToken true),.transfer (.deliverToken true),.transfer .deliverReply,
        .connectionLost]
      (⟨⟨4,2,1,2,[none,some 8,none,none]⟩,⟨4,2,0,0,[some 7,some 8,none,none]⟩,.enabled,[],[],
        [7,8],[7,8]⟩ : Transfer Nat) := .of_runChecked (by decide)
  exact ⟨_,hr,rfl,rfl,session_exactly_once 0 (by decide) (by decide) hr (by decide)⟩

end Order

section Orphans

variable {s t : Transfer α}

def noticeOf : PortReplyType × UInt32 → Option Notice
  | (.ack,n) => some (.receipt n.toNat)
  | (.nack,n) => some (.again n.toNat)
  | (.abort,_) => none

/-- The replies on their way to the out-port, and those its tokens will get. -/
def notices (s : Transfer α) : List Notice :=
  s.replies.filterMap noticeOf++s.tokens.map fun m => .receipt m.1.toNat

/-- Every token that is sent and not released gets its reply. -/
def Answered (s : Transfer α) : Prop :=
  Settles s.notices s.out.readPos.toNat s.out.tentativeReadPos.toNat

/-- No token waits for a reply that cannot come: it or its reply is under way, or a NACK that makes
the out-port send it again. -/
def NoOrphan (s : Transfer α) : Prop :=
  ∀ n, s.out.readPos ≤ n → n<s.out.tentativeReadPos →
    (∃ a, (n,a) ∈ s.tokens) ∨ (.ack,n) ∈ s.replies ∨ ∃ m ≤ n, (.nack,m) ∈ s.replies

/-- A token that could not be sent is taken back. -/
theorem comCancelRead_comPeek_le (f : Fifo α) :
    (f.comPeek.2.comCancelRead f.comPeek.1.2).readPos=f.readPos ∧
      (f.comPeek.2.comCancelRead f.comPeek.1.2).tentativeReadPos.toNat ≤
        f.tentativeReadPos.toNat := by
  unfold Fifo.comCancelRead
  split
  · next hwrap => exact ⟨rfl,UInt32.le_iff_toNat_le.mp hwrap.1⟩
  · exact ⟨rfl,Nat.le_refl _⟩

theorem Answered.transmit (h : s.Answered) (nil : α) (sent : Bool)
    (hs : step nil (.transmit sent) s=some t) : t.Answered := by
  obtain rfl : _=t := Option.some.inj hs
  by_cases ha : s.out.tokensAvailable 1=true
  swap
  · simpa [Answered,notices,transmitToken,ha] using h
  have hnext : (s.out.tentativeReadPos+1).toNat ≤ s.out.tentativeReadPos.toNat+1 := by
    simp only [UInt32.toNat_add,UInt32.reduceToNat]
    omega
  have hsend := h.send.mono hnext
  cases sent with
  | true =>
    simpa [Answered,notices,transmitToken,ha,Fifo.comPeek,Fifo.peek] using hsend
  | false =>
    obtain ⟨hread,hback⟩ := comCancelRead_comPeek_le s.out
    have hkept := h.mono hback
    rw [← hread] at hkept
    simpa [Answered,notices,transmitToken,ha] using hkept

theorem Answered.deliverToken (h : s.Answered) (nil : α) (alloc : Bool)
    (hs : step nil (.deliverToken alloc) s=some t) : t.Answered := by
  simp only [step] at hs
  split at hs
  · cases hs
  next n a rest htokens =>
  obtain rfl : _=t := Option.some.inj hs
  have h : Settles (s.replies.filterMap noticeOf++.receipt n.toNat::
      rest.map fun m => .receipt m.1.toNat) s.out.readPos.toNat s.out.tentativeReadPos.toNat := by
    simpa only [Answered,notices,htokens,List.map_cons] using h
  simp only [Answered,notices,List.filterMap_append,List.append_assoc]
  split
  · exact h
  · exact h.refuse

theorem Answered.ack {n : UInt32} {l : List Notice}
    (h : Settles (.receipt n.toNat::l) s.out.readPos.toNat s.out.tentativeReadPos.toNat) :
    Settles l (s.out.comCommitRead n).readPos.toNat (s.out.comCommitRead n).tentativeReadPos.toNat := by
  unfold Fifo.comCommitRead
  split
  · next hlate => exact h.late (UInt32.le_iff_toNat_le.mp hlate)
  next hsent =>
  rw [UInt32.not_le,UInt32.lt_iff_toNat_lt] at hsent
  have h : Settles l (if n.toNat=s.out.readPos.toNat then _ else _) _ := h
  split
  · next hread =>
    rw [UInt32.lt_iff_toNat_lt] at hread
    split
    · next hn =>
      have hlimit := s.out.tentativeReadPos.toNat_lt
      have hnext : (s.out.readPos+1).toNat=s.out.readPos.toNat+1 := by
        simp only [UInt32.toNat_add,UInt32.reduceToNat]
        omega
      rw [if_pos (congrArg UInt32.toNat hn),← hnext] at h
      exact h
    · next hn => rwa [if_neg fun he => hn (UInt32.toNat_inj.mp he)] at h
  · next hread =>
    rw [UInt32.not_lt,UInt32.le_iff_toNat_le] at hread
    rwa [if_neg (by omega)] at h

theorem Answered.nack {n : UInt32} {l : List Notice}
    (hn : n ≤ s.out.tentativeReadPos ∨ n<s.out.readPos)
    (h : Settles (.again n.toNat::l) s.out.readPos.toNat s.out.tentativeReadPos.toNat) :
    Settles l (s.out.comCancelRead n).readPos.toNat (s.out.comCancelRead n).tentativeReadPos.toNat := by
  rw [UInt32.le_iff_toNat_le,UInt32.lt_iff_toNat_lt] at hn
  unfold Fifo.comCancelRead
  split
  · next hignored =>
    rw [UInt32.le_iff_toNat_le] at hignored
    have h : Settles l _ (min _ n.toNat) := h
    rwa [Nat.min_eq_left hignored.1] at h
  · next htaken =>
    rw [UInt32.le_iff_toNat_le,UInt32.lt_iff_toNat_lt] at htaken
    have hback : n.toNat ≤ s.out.tentativeReadPos.toNat := by omega
    exact h.back hback

theorem Answered.deliverReply (h : s.Answered) (nil : α)
    (hok : RewindsOnly (.transfer .deliverReply) s) (hs : step nil .deliverReply s=some t) :
    t.Answered := by
  simp only [step] at hs
  split at hs
  · cases hs
  next reply n rest hreplies =>
  obtain rfl : _=t := Option.some.inj hs
  unfold Answered notices at h
  rw [hreplies] at h
  cases reply with
  | ack => exact Answered.ack h
  | nack => exact Answered.nack (hok (.nack,n) (by rw [hreplies]; rfl) rfl) h
  | abort => exact h

theorem Answered.step (h : s.Answered) (nil : α) (e : TransferEvent α)
    (hok : RewindsOnly (.transfer e) s) (hs : step nil e s=some t) : t.Answered := by
  cases e with
  | produce a =>
    cases hs
    have hwrite : (s.out.write a).2.readPos=s.out.readPos ∧
        (s.out.write a).2.tentativeReadPos=s.out.tentativeReadPos := by
      unfold Fifo.write
      split <;> exact ⟨rfl,rfl⟩
    unfold Answered
    rw [hwrite.1,hwrite.2]
    exact h
  | transmit sent => exact h.transmit nil sent hs
  | deliverToken alloc => exact h.deliverToken nil alloc hs
  | deliverReply => exact h.deliverReply nil hok hs
  | consume =>
    simp only [Transfer.step] at hs
    split at hs <;> cases hs
    exact h
  | receiverState st =>
    cases hs
    exact h

theorem Released.answered (h : s.Released) : s.Answered :=
  Settles.of_le (UInt32.le_iff_toNat_le.mp h)

theorem released_disconnect (s : Transfer α) : s.disconnect.Released := UInt32.le_refl _

theorem Answered.sessionStep (h : s.Answered) (nil : α) (e : SessionEvent α)
    (hok : LosesNone e s) (hs : sessionStep nil e s=some t) : t.Answered := by
  cases e with
  | transfer e => exact h.step nil e hok.1 hs
  | disconnect =>
    cases hs
    exact (released_disconnect s).answered
  | connectionLost =>
    cases hs
    have hreleased : s.lose.Released := hok.2
    exact hreleased.answered
  | newProxy =>
    cases hs
    exact (released_disconnect s.lose).answered

theorem Answered.noOrphan (h : s.Answered) : s.NoOrphan := by
  intro n hread hsent
  rw [UInt32.le_iff_toNat_le] at hread
  rw [UInt32.lt_iff_toNat_lt] at hsent
  have hreply : ∀ x, x ∈ s.notices → (∃ r ∈ s.replies, noticeOf r=some x) ∨
      ∃ m ∈ s.tokens, .receipt m.1.toNat=x := by
    intro x hx
    rcases List.mem_append.mp hx with hx | hx
    · exact .inl (List.mem_filterMap.mp hx)
    · exact .inr (List.mem_map.mp hx)
  rcases h.waiting hread hsent with hmem | ⟨m,hm,hmem⟩
  · rcases hreply _ hmem with ⟨⟨type,k⟩,hk,he⟩ | ⟨⟨k,a⟩,hk,he⟩
    · cases type with
      | ack =>
        have hkn : k.toNat=n.toNat := by simpa [noticeOf] using he
        exact .inr (.inl (UInt32.toNat_inj.mp hkn ▸ hk))
      | nack => simp [noticeOf] at he
      | abort => simp [noticeOf] at he
    · have hkn : k.toNat=n.toNat := by simpa using he
      exact .inl ⟨a,UInt32.toNat_inj.mp hkn ▸ hk⟩
  · rcases hreply _ hmem with ⟨⟨type,k⟩,hk,he⟩ | ⟨⟨k,a⟩,hk,he⟩
    · cases type with
      | ack => simp [noticeOf] at he
      | nack =>
        have hkm : k.toNat=m := by simpa [noticeOf] using he
        exact .inr (.inr ⟨k,UInt32.le_iff_toNat_le.mpr (by omega),hk⟩)
      | abort => simp [noticeOf] at he
    · cases he

/-- A token that is sent and not released when the connection to the same proxy breaks is never
sent again of itself: that is the one way to lose a reply. -/
theorem noOrphan_lose_iff (s : Transfer α) : s.lose.NoOrphan ↔ s.Released := by
  constructor
  · intro h
    by_contra hsent
    rw [Released,UInt32.not_le] at hsent
    rcases h s.out.readPos (UInt32.le_refl _) hsent with ⟨a,ha⟩ | ha | ⟨m,-,ha⟩ <;> cases ha
  · intro h n hread hsent
    exact absurd (UInt32.le_trans h hread) (UInt32.not_le.mpr hsent)

end Orphans

end Transfer

end CalvinConstrained
