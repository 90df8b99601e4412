import CalvinConstrained.Framework.TentativeQueue
import CalvinConstrained.Runtime.Fifo

namespace CalvinConstrained

namespace Fifo

variable {α : Type}

/-- Cancelling the number just peeked undoes the peek. -/
theorem comCancelRead_comPeek (f : Fifo α) (h : f.tentativeReadPos.toNat+1<2^32) :
    f.comPeek.2.comCancelRead f.comPeek.1.2=f := by
  unfold comCancelRead
  rw [if_neg]
  · rfl
  · simp only [comPeek,peek,UInt32.le_iff_toNat_le,UInt32.toNat_add,UInt32.reduceToNat]
    omega

/-- The slots between the read and the write position hold `items`, the token
array has its allocated length and one slot stays unused. The tentative position
is left open, because a sender's may be moved by any NACK. -/
structure Stores (f : Fifo α) (released : Nat) (items : List α) : Prop where
  length : f.tokens.length=f.size.toNat
  room : items.length<f.size.toNat
  read : f.readPos.toNat=released
  write : f.writePos.toNat=released+items.length
  slots : ∀ i (h : i < items.length),
    f.tokens[(released+i)%f.size.toNat]?=some (some items[i])

theorem init_stores (size : UInt32) (h : 0<size.toNat) :
    (init size : Fifo α).Stores 0 [] where
  length := by simp [init]
  room := by simpa [init] using h
  read := rfl
  write := rfl
  slots := fun i h => absurd h (Nat.not_lt_zero i)

theorem index_eq (f : Fifo α) (pos : UInt32) : f.index pos=pos.toNat%f.size.toNat := by
  simp [index,UInt32.toNat_mod]

/-- Two positions less than one lap apart never share a slot. -/
private theorem mod_ne_of_lap {a b n : Nat} (hlt : a<b) (hlap : b<a+n) : a%n≠b%n := by
  intro h
  have hd : n∣b-a := (Nat.modEq_iff_dvd' (Nat.le_of_lt hlt)).mp h
  have := Nat.le_of_dvd (by omega) hd
  omega

/-- Only the tentative position moves. -/
theorem Stores.move {f : Fifo α} {released : Nat} {items : List α}
    (h : f.Stores released items) (pos : UInt32) :
    ({f with tentativeReadPos := pos}).Stores released items :=
  ⟨h.length,h.room,h.read,h.write,h.slots⟩

theorem Stores.slot {f : Fifo α} {released : Nat} {items : List α}
    (h : f.Stores released items) (pos : UInt32) (i : Nat) (hi : i < items.length)
    (hp : pos.toNat=released+i) : f.slot pos=some items[i] := by
  rw [Fifo.slot,index_eq,hp,h.slots i hi]
  rfl

theorem Stores.slotsAvailable {f : Fifo α} {released : Nat} {items : List α}
    (h : f.Stores released items) (n : UInt32) :
    f.slotsAvailable n=decide (n.toNat+items.length<f.size.toNat) := by
  have hroom := h.room
  have hr := h.read
  have hw := h.write
  have hlt := f.size.toNat_lt
  have hwl := f.writePos.toNat_lt
  have hused : (f.writePos-f.readPos).toNat=items.length := by
    rw [UInt32.toNat_sub]
    omega
  have hmod : ((f.writePos-f.readPos)%f.size).toNat=items.length := by
    rw [UInt32.toNat_mod,hused,Nat.mod_eq_of_lt hroom]
  have hfree : (f.size-(f.writePos-f.readPos)%f.size-1).toNat=f.size.toNat-items.length-1 := by
    rw [UInt32.toNat_sub,UInt32.toNat_sub,hmod]
    simp only [UInt32.reduceToNat]
    omega
  rw [Fifo.slotsAvailable,decide_eq_decide,UInt32.le_iff_toNat_le,hfree]
  omega

/-- A write lands in the unused slot, so every stored token survives it. -/
theorem Stores.push {f : Fifo α} {released : Nat} {items : List α}
    (h : f.Stores released items) (a : α) (hroom : items.length+1<f.size.toNat)
    (hw : released+items.length+1<2^32) :
    ({f.setSlot f.writePos (some a) with writePos := f.writePos+1}).Stores
      released (items++[a]) where
  length := by simp [setSlot,h.length]
  room := by simpa [setSlot] using hroom
  read := h.read
  write := by
    have hp := h.write
    simp only [UInt32.toNat_add,UInt32.reduceToNat,List.length_append,List.length_cons,
      List.length_nil]
    omega
  slots := by
    intro i hi
    have hpos : 0<f.size.toNat := by omega
    simp only [List.length_append,List.length_cons,List.length_nil] at hi
    simp only [setSlot,index_eq,h.write]
    by_cases hlast : i=items.length
    · subst i
      rw [List.getElem?_set_self (by rw [h.length]; exact Nat.mod_lt _ hpos)]
      simp
    · have hlt : i < items.length := by omega
      have hne := mod_ne_of_lap (a := released+i) (b := released+items.length)
        (n := f.size.toNat) (by omega) (by omega)
      rw [List.getElem?_set_ne (Ne.symm hne),h.slots i hlt,List.getElem_append_left hlt]

/-- Clearing the oldest slot and advancing the read position drops one item. -/
theorem Stores.pop {f : Fifo α} {released : Nat} {a : α} {items : List α}
    (h : f.Stores released (a::items)) :
    ({f.setSlot f.readPos none with readPos := f.readPos+1}).Stores (released+1) items where
  length := by simp [setSlot,h.length]
  room := by
    have hr := h.room
    simp only [List.length_cons] at hr
    simp only [setSlot]
    omega
  read := by
    have hr := h.read
    have hw := h.write
    have hl := f.writePos.toNat_lt
    simp only [List.length_cons] at hw
    simp only [UInt32.toNat_add,UInt32.reduceToNat]
    omega
  write := by
    have hw := h.write
    simp only [List.length_cons] at hw
    simp only [setSlot]
    omega
  slots := by
    intro i hi
    have hr := h.room
    simp only [List.length_cons] at hr
    have hne := mod_ne_of_lap (a := released) (b := released+1+i) (n := f.size.toNat)
      (by omega) (by omega)
    have hs := h.slots (i+1) (by simpa using hi)
    simp only [setSlot,index_eq,h.read]
    rw [List.getElem?_set_ne hne,show released+1+i=released+(i+1) by omega,hs]
    rfl

/-- The ring buffer with its three counters implements the queue `q`. -/
structure Refines (f : Fifo α) (q : TentativeQueue α) : Prop where
  stores : f.Stores q.released q.items
  cap : q.cap+1=f.size.toNat
  tentative : f.tentativeReadPos.toNat=q.released+q.peeked

theorem Refines.positions {f : Fifo α} {q : TentativeQueue α} (h : f.Refines q) :
    f.readPos.toNat ≤ f.tentativeReadPos.toNat ∧
    f.tentativeReadPos.toNat ≤ f.writePos.toNat ∧
    f.writePos.toNat-f.readPos.toNat ≤ f.size.toNat-1 := by
  have hp := q.peeked_le
  have hl := q.length_le
  have hc := h.cap
  rw [h.tentative,h.stores.read,h.stores.write]
  omega

theorem Refines.tokensAvailable {f : Fifo α} {q : TentativeQueue α} (h : f.Refines q)
    (n : UInt32) : f.tokensAvailable n=decide (n.toNat ≤ q.unpeeked) := by
  have hp := q.peeked_le
  have ht := h.tentative
  have hw := h.stores.write
  have hl := f.writePos.toNat_lt
  have hd : (f.writePos-f.tentativeReadPos).toNat=q.unpeeked := by
    rw [UInt32.toNat_sub,TentativeQueue.unpeeked]
    omega
  rw [Fifo.tokensAvailable,decide_eq_decide,UInt32.le_iff_toNat_le,hd]

theorem Refines.slotsAvailable {f : Fifo α} {q : TentativeQueue α} (h : f.Refines q)
    (n : UInt32) : f.slotsAvailable n=decide (n.toNat ≤ q.freeSlots) := by
  have hl := q.length_le
  have hc := h.cap
  rw [h.stores.slotsAvailable,decide_eq_decide,TentativeQueue.freeSlots]
  omega

theorem Refines.write {f : Fifo α} {q : TentativeQueue α} (h : f.Refines q) (a : α)
    (hw : (q.write a).2.total<2^32) :
    (f.write a).1=(if (q.write a).1 then .success else .fail) ∧
      (f.write a).2.Refines (q.write a).2 := by
  have hl := q.length_le
  have hc := h.cap
  unfold Fifo.write TentativeQueue.write at *
  rw [h.slotsAvailable]
  by_cases hroom : q.items.length<q.cap
  · rw [dif_pos hroom] at hw ⊢
    have hfree : (1 : UInt32).toNat ≤ q.freeSlots := by
      simp only [UInt32.reduceToNat,TentativeQueue.freeSlots]
      omega
    simp only [TentativeQueue.total,List.length_append,List.length_cons,List.length_nil] at hw
    rw [decide_eq_true hfree,if_pos rfl]
    exact ⟨rfl,h.stores.push a (by omega) (by omega),hc,h.tentative⟩
  · have hfull : ¬(1 : UInt32).toNat ≤ q.freeSlots := by
      simp only [UInt32.reduceToNat,TentativeQueue.freeSlots]
      omega
    rw [dif_neg hroom,decide_eq_false hfull]
    exact ⟨rfl,h⟩

theorem Refines.peek {f : Fifo α} {q : TentativeQueue α} (h : f.Refines q)
    (hp : q.peeked<q.items.length) :
    f.peek.1=q.peek.1 ∧ f.peek.2.Refines q.peek.2 := by
  have ht := h.tentative
  have hw := h.stores.write
  have hl := f.writePos.toNat_lt
  unfold Fifo.peek TentativeQueue.peek
  rw [dif_pos hp]
  refine ⟨h.stores.slot _ _ hp ht,h.stores.move _,h.cap,?_⟩
  simp only [UInt32.toNat_add,UInt32.reduceToNat]
  omega

/-- Both commit paths end in the same update when something was handed out. -/
private theorem Refines.advance {f : Fifo α} {q : TentativeQueue α} (h : f.Refines q)
    (hp : 0<q.peeked) :
    ({f.setSlot f.readPos none with readPos := f.readPos+1}).Refines q.commit := by
  have hle := q.peeked_le
  unfold TentativeQueue.commit
  rw [dif_pos hp]
  have hne : q.items≠[] := List.ne_nil_of_length_pos (by omega)
  obtain ⟨a,items,hi⟩ := List.exists_cons_of_ne_nil hne
  have hs := h.stores
  rw [hi] at hs
  refine ⟨by simpa [hi] using hs.pop,h.cap,?_⟩
  have ht := h.tentative
  simp only [setSlot]
  omega

theorem Refines.read_lt_tentative {f : Fifo α} {q : TentativeQueue α} (h : f.Refines q) :
    f.readPos<f.tentativeReadPos ↔ 0<q.peeked := by
  rw [UInt32.lt_iff_toNat_lt,h.stores.read,h.tentative]
  omega

theorem Refines.commitRead {f : Fifo α} {q : TentativeQueue α} (h : f.Refines q)
    (free : Bool) : (f.commitRead free).Refines q.commit := by
  unfold Fifo.commitRead
  split
  · next hlt => exact h.advance (h.read_lt_tentative.mp hlt)
  · next hge =>
    have hz : ¬0<q.peeked := fun hp => hge (h.read_lt_tentative.mpr hp)
    rw [TentativeQueue.commit,dif_neg hz]
    exact h

theorem Refines.comCommitRead {f : Fifo α} {q : TentativeQueue α} (h : f.Refines q)
    (n : UInt32) :
    (f.comCommitRead n).Refines (if n.toNat=q.released then q.commit else q) := by
  have hr := h.stores.read
  have ht := h.tentative
  have heq : n=f.readPos ↔ n.toNat=q.released := by rw [← UInt32.toNat_inj,hr]
  unfold Fifo.comCommitRead
  by_cases hn : n.toNat=q.released
  · rw [if_pos hn]
    by_cases hp : 0<q.peeked
    · have hlow : ¬f.tentativeReadPos ≤ n := by
        rw [UInt32.le_iff_toNat_le]
        omega
      rw [if_neg hlow,if_pos (h.read_lt_tentative.mpr hp),if_pos (heq.mpr hn)]
      exact h.advance hp
    · have hhigh : f.tentativeReadPos ≤ n := by
        rw [UInt32.le_iff_toNat_le]
        omega
      rw [if_pos hhigh,TentativeQueue.commit,dif_neg hp]
      exact h
  · rw [if_neg hn,if_neg (fun he => hn (heq.mp he))]
    simp only [ite_self]
    exact h

theorem Refines.cancel {f : Fifo α} {q : TentativeQueue α} (h : f.Refines q) :
    f.cancel.Refines q.rewind :=
  ⟨h.stores.move _,h.cap,h.stores.read⟩

end Fifo

/-- Calls of the queue interface; the two queries are part of it. -/
inductive FifoOp (α : Type)
  | write (data : α)
  | peek
  | comPeek
  | commitRead (freeToken : Bool)
  | comCommitRead (sequencenbr : UInt32)
  | cancel
  | cancelCommit
  | slotsAvailable (length : UInt32)
  | tokensAvailable (length : UInt32)

/-- What a caller gets back. -/
inductive FifoReturn (α : Type)
  | nothing
  | result (r : Result)
  | token (t : Option α)
  | comToken (t : Option α) (sequencenbr : UInt32)
  | flag (b : Bool)
  deriving DecidableEq,Repr

variable {α : Type}

/-- One call on the ring buffer; every caller asks for a token before it peeks. -/
def Fifo.exec : FifoOp α → Fifo α → FifoReturn α × Fifo α
  | .write a,f => (.result (f.write a).1,(f.write a).2)
  | .peek,f => if f.tokensAvailable 1 then (.token f.peek.1,f.peek.2) else (.nothing,f)
  | .comPeek,f =>
      if f.tokensAvailable 1 then (.comToken f.comPeek.1.1 f.comPeek.1.2,f.comPeek.2)
      else (.nothing,f)
  | .commitRead free,f => (.nothing,f.commitRead free)
  | .comCommitRead n,f => (.nothing,f.comCommitRead n)
  | .cancel,f => (.nothing,f.cancel)
  | .cancelCommit,f => (.nothing,f.cancelCommit)
  | .slotsAvailable n,f => (.flag (f.slotsAvailable n),f)
  | .tokensAvailable n,f => (.flag (f.tokensAvailable n),f)

/-- The same call on the bounded queue. -/
def TentativeQueue.exec : FifoOp α → TentativeQueue α → FifoReturn α × TentativeQueue α
  | .write a,q => (.result (if (q.write a).1 then .success else .fail),(q.write a).2)
  | .peek,q => if q.peeked<q.items.length then (.token q.peek.1,q.peek.2) else (.nothing,q)
  | .comPeek,q =>
      if q.peeked<q.items.length then
        (.comToken q.peek.1 (.ofNat (q.released+q.peeked)),q.peek.2)
      else (.nothing,q)
  | .commitRead _,q => (.nothing,q.commit)
  | .comCommitRead n,q => (.nothing,if n.toNat=q.released then q.commit else q)
  | .cancel,q => (.nothing,q.rewind)
  | .cancelCommit,q => (.nothing,q.rewind)
  | .slotsAvailable n,q => (.flag (decide (n.toNat ≤ q.freeSlots)),q)
  | .tokensAvailable n,q => (.flag (decide (n.toNat ≤ q.unpeeked)),q)

theorem TentativeQueue.exec_total (op : FifoOp α) (q : TentativeQueue α) :
    q.total ≤ (q.exec op).2.total := by
  cases op with
  | write a => exact q.total_write a
  | peek => simp only [exec]; split <;> simp [total_peek]
  | comPeek => simp only [exec]; split <;> simp [total_peek]
  | commitRead free => simp [exec,total_commit]
  | comCommitRead n => simp only [exec]; split <;> simp [total_commit]
  | cancel => exact Nat.le_refl _
  | cancelCommit => exact Nat.le_refl _
  | slotsAvailable n => exact Nat.le_refl _
  | tokensAvailable n => exact Nat.le_refl _

namespace Fifo

theorem Refines.peekable {f : Fifo α} {q : TentativeQueue α} (h : f.Refines q) :
    f.tokensAvailable 1=decide (q.peeked<q.items.length) := by
  rw [h.tokensAvailable,decide_eq_decide,TentativeQueue.unpeeked]
  simp only [UInt32.reduceToNat]
  omega

/-- One call returns what the bounded queue returns and keeps the refinement. -/
theorem Refines.exec {f : Fifo α} {q : TentativeQueue α} (h : f.Refines q) (op : FifoOp α)
    (hw : (q.exec op).2.total<2^32) :
    (f.exec op).1=(q.exec op).1 ∧ (f.exec op).2.Refines (q.exec op).2 := by
  cases op with
  | write a =>
    obtain ⟨hr,hs⟩ := h.write a hw
    exact ⟨congrArg FifoReturn.result hr,hs⟩
  | peek =>
    simp only [Fifo.exec,TentativeQueue.exec,h.peekable,decide_eq_true_eq]
    split
    · next hp => exact ⟨congrArg FifoReturn.token (h.peek hp).1,(h.peek hp).2⟩
    · exact ⟨rfl,h⟩
  | comPeek =>
    have hn : f.tentativeReadPos=UInt32.ofNat (q.released+q.peeked) := by
      rw [← h.tentative,UInt32.ofNat_toNat]
    simp only [Fifo.exec,TentativeQueue.exec,h.peekable,decide_eq_true_eq,comPeek]
    split
    · next hp => exact ⟨by rw [(h.peek hp).1,hn],(h.peek hp).2⟩
    · exact ⟨rfl,h⟩
  | commitRead free => exact ⟨rfl,h.commitRead free⟩
  | comCommitRead n => exact ⟨rfl,h.comCommitRead n⟩
  | cancel => exact ⟨rfl,h.cancel⟩
  | cancelCommit => exact ⟨rfl,h.cancel⟩
  | slotsAvailable n => exact ⟨congrArg FifoReturn.flag (h.slotsAvailable n),h⟩
  | tokensAvailable n => exact ⟨congrArg FifoReturn.flag (h.tokensAvailable n),h⟩

theorem init_refines (size : UInt32) (h : 1 ≤ size.toNat) :
    (init size : Fifo α).Refines (.empty (size.toNat-1)) :=
  ⟨init_stores size h,Nat.sub_add_cancel h,rfl⟩

/-- From an empty queue and as long as the write position has not reached `2^32`,
every sequence of calls returns exactly what a bounded queue of `size-1` items
returns, and the buffer keeps holding that queue's items. -/
theorem fifo_refines_queue (size : UInt32) (hsize : 1 ≤ size.toNat) (ops : List (FifoOp α))
    (hw : (outputs TentativeQueue.exec ops (.empty (size.toNat-1))).2.total<2^32) :
    let f := outputs Fifo.exec ops (init size)
    let q := outputs TentativeQueue.exec ops (.empty (size.toNat-1))
    f.1=q.1 ∧ f.2.Refines q.2 ∧
    f.2.readPos.toNat ≤ f.2.tentativeReadPos.toNat ∧
    f.2.tentativeReadPos.toNat ≤ f.2.writePos.toNat ∧
    f.2.writePos.toNat-f.2.readPos.toNat ≤ f.2.size.toNat-1 := by
  obtain ⟨ho,hR⟩ := outputs_simulate Fifo.exec TentativeQueue.exec Refines
    (fun q => q.total<2^32) (fun op q h => Nat.lt_of_le_of_lt (q.exec_total op) h)
    (fun op f q h hd => h.exec op hd) ops _ _ (init_refines size hsize) hw
  exact ⟨ho,hR,hR.positions⟩

theorem fifo_refines_queue_four :
    let ops : List (FifoOp Nat) := [.write 7,.write 8,.comPeek,.peek,.cancel,.peek,
      .comCommitRead 0,.write 9,.write 10,.write 11,.commitRead true,.slotsAvailable 1]
    (outputs Fifo.exec ops (init 4)).1=
      [.result .success,.result .success,.comToken (some 7) 0,.token (some 8),.nothing,
        .token (some 7),.nothing,.result .success,.result .success,.result .fail,.nothing,
        .flag false] :=
  (fifo_refines_queue 4 (by decide) [.write 7,.write 8,.comPeek,.peek,.cancel,.peek,
    .comCommitRead 0,.write 9,.write 10,.write 11,.commitRead true,.slotsAvailable 1]
    (by decide)).1.trans (by decide)

end Fifo

end CalvinConstrained
