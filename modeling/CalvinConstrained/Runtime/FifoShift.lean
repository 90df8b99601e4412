import CalvinConstrained.Runtime.FifoQueue

namespace CalvinConstrained

variable {α : Type}

/-- The calls that move the positions of a queue. -/
inductive FifoCall (α : Type)
  | write (data : α)
  | peek
  | comPeek
  | commitRead (freeToken : Bool)
  | cancel
  | comCommitRead (sequencenbr : UInt32)
  | comCancelRead (sequencenbr : UInt32)

namespace Fifo

def call : FifoCall α → Fifo α → FifoReturn α × Fifo α
  | .write a,f => (.result (f.write a).1,(f.write a).2)
  | .peek,f => (.token f.peek.1,f.peek.2)
  | .comPeek,f => (.comToken f.comPeek.1.1 f.comPeek.1.2,f.comPeek.2)
  | .commitRead free,f => (.nothing,f.commitRead free)
  | .cancel,f => (.nothing,f.cancel)
  | .comCommitRead n,f => (.nothing,f.comCommitRead n)
  | .comCancelRead n,f => (.nothing,f.comCancelRead n)

end Fifo

/-- The call with its sequence number moved by `k`. -/
def FifoCall.shift (k : UInt32) : FifoCall α → FifoCall α
  | .comCommitRead n => .comCommitRead (n+k)
  | .comCancelRead n => .comCancelRead (n+k)
  | op => op

def FifoReturn.shift (k : UInt32) : FifoReturn α → FifoReturn α
  | .comToken t n => .comToken t (n+k)
  | r => r

namespace Fifo

variable {k : UInt32} {c : Nat}

/-- The slot of a position moves like the tokens do. -/
def SlotShifts (k : UInt32) (c : Nat) (f : Fifo α) (pos : UInt32) : Prop :=
  f.index (pos+k)=(f.index pos+c)%f.size.toNat

/-- The same queue with its positions moved by `k` and its tokens by `c` slots, so that the
positions have the same tokens. -/
structure Shifted (k : UInt32) (c : Nat) (f g : Fifo α) : Prop where
  pos : 0<f.size.toNat
  size : g.size=f.size
  write : g.writePos=f.writePos+k
  read : g.readPos=f.readPos+k
  tentative : g.tentativeReadPos=f.tentativeReadPos+k
  length : f.tokens.length=f.size.toNat
  length' : g.tokens.length=f.size.toNat
  tokens : ∀ i, i<f.size.toNat → g.tokens[(i+c)%f.size.toNat]?=f.tokens[i]?
  writeSlot : f.SlotShifts k c f.writePos
  readSlot : f.SlotShifts k c f.readPos
  tentativeSlot : f.SlotShifts k c f.tentativeReadPos

theorem slotShifts_of_lt {f : Fifo α} {pos : UInt32} (h : pos.toNat+k.toNat<2^32) :
    f.SlotShifts k (k.toNat%f.size.toNat) pos := by
  rw [SlotShifts,index_eq,index_eq,UInt32.toNat_add,Nat.mod_eq_of_lt h]
  simp [Nat.add_mod]

/-- A size that divides `2^32` does not see the wrap. -/
theorem slotShifts_of_dvd {f : Fifo α} {pos : UInt32} (h : f.size.toNat ∣ 2^32) :
    f.SlotShifts k (k.toNat%f.size.toNat) pos := by
  rw [SlotShifts,index_eq,index_eq,UInt32.toNat_add,Nat.mod_mod_of_dvd _ h]
  simp [Nat.add_mod]

/-- No wrap lies between the positions that the call compares, and the slot of the position that it
moves on to moves like the tokens. -/
def Aligned (k : UInt32) (c : Nat) : FifoCall α → Fifo α → Prop
  | .write _,f => f.slotsAvailable 1=true → f.SlotShifts k c (f.writePos+1)
  | .peek,f => f.SlotShifts k c (f.tentativeReadPos+1)
  | .comPeek,f => f.SlotShifts k c (f.tentativeReadPos+1)
  | .commitRead _,f =>
      (f.readPos+k<f.tentativeReadPos+k ↔ f.readPos<f.tentativeReadPos) ∧
      (f.readPos<f.tentativeReadPos → f.SlotShifts k c (f.readPos+1))
  | .cancel,_ => True
  | .comCommitRead n,f => n=f.readPos →
      (f.readPos+k<f.tentativeReadPos+k ↔ f.readPos<f.tentativeReadPos) ∧
      (f.readPos<f.tentativeReadPos → f.SlotShifts k c (f.readPos+1))
  | .comCancelRead n,f => n=f.tentativeReadPos ∨
      ((f.tentativeReadPos+k ≤ n+k ∧ n+k<f.readPos+k ↔ f.tentativeReadPos ≤ n ∧ n<f.readPos) ∧
      (f.tentativeReadPos ≤ n ∧ n<f.readPos ∨ f.SlotShifts k c n))

namespace Shifted

variable {f g : Fifo α}

theorem index (h : Shifted k c f g) (pos : UInt32) : g.index pos=f.index pos := by
  rw [Fifo.index,Fifo.index,h.size]

theorem index_lt (h : Shifted k c f g) (pos : UInt32) : f.index pos<f.size.toNat := by
  rw [index_eq]
  exact Nat.mod_lt _ h.pos

/-- A position whose slot is moved has the same token. -/
theorem slot (h : Shifted k c f g) {pos : UInt32} (hslot : f.SlotShifts k c pos) :
    g.slot (pos+k)=f.slot pos := by
  rw [Fifo.slot,Fifo.slot,h.index,hslot,h.tokens _ (h.index_lt pos)]

theorem slotsAvailable (h : Shifted k c f g) (n : UInt32) :
    g.slotsAvailable n=f.slotsAvailable n := by
  have hused : f.writePos+k-(f.readPos+k)=f.writePos-f.readPos := by grind
  rw [Fifo.slotsAvailable,Fifo.slotsAvailable,h.size,h.write,h.read,hused]

/-- Turning by `c` slots maps different slots to different slots. -/
theorem turn_inj {i j n : Nat} (hi : i<n) (hj : j<n) (h : (i+c)%n=(j+c)%n) : i=j :=
  (Nat.ModEq.add_right_cancel' c h).eq_of_lt_of_lt hi hj

/-- The same token is put into the slot of a position. -/
theorem tokens_set (h : Shifted k c f g) {pos : UInt32} (hslot : f.SlotShifts k c pos)
    (t : Option α) (i : Nat) (hi : i<f.size.toNat) :
    (g.tokens.set (g.index (pos+k)) t)[(i+c)%f.size.toNat]?=(f.tokens.set (f.index pos) t)[i]? := by
  rw [h.index,hslot,List.getElem?_set,List.getElem?_set,h.tokens i hi,h.length,h.length']
  have hmod := Nat.mod_lt (f.index pos+c) h.pos
  by_cases he : f.index pos=i
  · rw [he,if_pos rfl,if_pos rfl,if_pos (he ▸ hmod),if_pos hi]
  · rw [if_neg he,if_neg fun hc => he (turn_inj (h.index_lt pos) hi hc)]

/-- The write position moves on. -/
theorem write_iff (h : Shifted k c f g) (a : Option α) :
    Shifted k c {f.setSlot f.writePos a with writePos := f.writePos+1}
      {g.setSlot g.writePos a with writePos := g.writePos+1} ↔
    f.SlotShifts k c (f.writePos+1) := by
  refine ⟨fun hs => hs.writeSlot,fun hslot => ⟨h.pos,h.size,?_,h.read,h.tentative,?_,?_,?_,hslot,
    h.readSlot,h.tentativeSlot⟩⟩
  · simp only [h.write]
    grind
  · simp [setSlot,h.length]
  · simp [setSlot,h.length']
  · intro i hi
    simp only [setSlot]
    rw [h.write]
    exact h.tokens_set h.writeSlot a i hi

/-- The read position moves on. -/
theorem read_iff (h : Shifted k c f g) :
    Shifted k c {f.setSlot f.readPos none with readPos := f.readPos+1}
      {g.setSlot g.readPos none with readPos := g.readPos+1} ↔
    f.SlotShifts k c (f.readPos+1) := by
  refine ⟨fun hs => hs.readSlot,fun hslot => ⟨h.pos,h.size,h.write,?_,h.tentative,?_,?_,?_,
    h.writeSlot,hslot,h.tentativeSlot⟩⟩
  · simp only [h.read]
    grind
  · simp [setSlot,h.length]
  · simp [setSlot,h.length']
  · intro i hi
    simp only [setSlot]
    rw [h.read]
    exact h.tokens_set h.readSlot none i hi

/-- The tentative read position goes to `n`. -/
theorem tentative_iff (h : Shifted k c f g) (n : UInt32) :
    Shifted k c {f with tentativeReadPos := n} {g with tentativeReadPos := n+k} ↔
    f.SlotShifts k c n :=
  ⟨fun hs => hs.tentativeSlot,fun hslot => ⟨h.pos,h.size,h.write,h.read,rfl,h.length,h.length',
    h.tokens,h.writeSlot,h.readSlot,hslot⟩⟩

theorem peek_iff (h : Shifted k c f g) :
    g.peek.1=f.peek.1 ∧ Shifted k c f.peek.2 g.peek.2 ↔ f.SlotShifts k c (f.tentativeReadPos+1) := by
  have hnext : g.tentativeReadPos+1=f.tentativeReadPos+1+k := by
    rw [h.tentative]
    grind
  rw [peek,peek,hnext,h.tentative,h.slot h.tentativeSlot,eq_self_iff_true,true_and]
  exact h.tentative_iff _

/-- A commit is the same on both queues exactly when both do it or both do not. -/
theorem commit_iff (h : Shifted k c f g) :
    Shifted k c (f.commitRead true) (g.commitRead true) ↔
    (f.readPos+k<f.tentativeReadPos+k ↔ f.readPos<f.tentativeReadPos) ∧
    (f.readPos<f.tentativeReadPos → f.SlotShifts k c (f.readPos+1)) := by
  have hone : ∀ x : UInt32, x+1 ≠ x := by
    intro x hx
    have : (1 : UInt32)=0 := by grind
    exact absurd this (by decide)
  unfold commitRead
  rw [h.read,h.tentative]
  by_cases hf : f.readPos<f.tentativeReadPos <;>
    by_cases hg : f.readPos+k<f.tentativeReadPos+k <;> simp only [hf,hg,if_true,if_false]
  · rw [← h.read,h.read_iff]
    simp
  · refine iff_of_false (fun hs => hone (f.readPos) ?_) (by simp)
    have := hs.read
    simp only [h.read] at this
    grind
  · refine iff_of_false (fun hs => hone (f.readPos+k) ?_) (by simp)
    exact hs.read
  · exact iff_of_true h (by simp)

/-- A commit with a sequence number is a commit when it has the number of the read position. -/
theorem comCommitRead_eq (f : Fifo α) (n : UInt32) :
    f.comCommitRead n=if n=f.readPos then f.commitRead true else f := by
  unfold comCommitRead commitRead
  by_cases hn : n=f.readPos
  · subst hn
    by_cases hlt : f.readPos<f.tentativeReadPos
    · simp [hlt,UInt32.not_le.mpr hlt]
    · simp [hlt]
  · simp [hn]

theorem comCommit_iff (h : Shifted k c f g) (n : UInt32) :
    Shifted k c (f.comCommitRead n) (g.comCommitRead (n+k)) ↔ Aligned k c (.comCommitRead n) f := by
  have hsame : n+k=g.readPos ↔ n=f.readPos := by
    rw [h.read]
    exact UInt32.add_left_inj k
  rw [comCommitRead_eq,comCommitRead_eq,Aligned]
  by_cases hn : n=f.readPos
  · rw [if_pos hn,if_pos (hsame.mpr hn),h.commit_iff]
    exact ⟨fun ha _ => ha,fun ha => ha hn⟩
  · rw [if_neg hn,if_neg fun hg => hn (hsame.mp hg)]
    exact iff_of_true h fun hc => absurd hc hn

theorem comCancel_iff (h : Shifted k c f g) (n : UInt32) :
    Shifted k c (f.comCancelRead n) (g.comCancelRead (n+k)) ↔ Aligned k c (.comCancelRead n) f := by
  have hcond : g.tentativeReadPos ≤ n+k ∧ n+k<g.readPos ↔
      f.tentativeReadPos+k ≤ n+k ∧ n+k<f.readPos+k := by rw [h.tentative,h.read]
  unfold comCancelRead Aligned
  dsimp only
  rw [← hcond]
  by_cases hn : n=f.tentativeReadPos
  · subst hn
    have hg : {g with tentativeReadPos := f.tentativeReadPos+k}=g := by rw [← h.tentative]
    rw [hg,ite_self,ite_self]
    exact iff_of_true h (.inl rfl)
  have hmoved : f.tentativeReadPos+k ≠ n+k := fun he => hn ((UInt32.add_left_inj k).mp he).symm
  by_cases hf : f.tentativeReadPos ≤ n ∧ n<f.readPos <;>
    by_cases hg : g.tentativeReadPos ≤ n+k ∧ n+k<g.readPos
  · rw [if_pos hf,if_pos hg]
    exact iff_of_true h (.inr ⟨iff_of_true hg hf,.inl hf⟩)
  · rw [if_pos hf,if_neg hg]
    refine iff_of_false (fun hs => hmoved hs.tentative.symm) ?_
    rintro (he | ⟨hiff,-⟩)
    · exact hn he
    · exact hg (hiff.mpr hf)
  · rw [if_neg hf,if_pos hg]
    refine iff_of_false (fun hs => hmoved (h.tentative.symm.trans hs.tentative)) ?_
    rintro (he | ⟨hiff,-⟩)
    · exact hn he
    · exact hf (hiff.mp hg)
  · rw [if_neg hf,if_neg hg,h.tentative_iff]
    simp [hn,hf,hg]

/-- One call returns the same on both queues and keeps the one moved from the other exactly when
it is aligned. -/
theorem call_iff (h : Shifted k c f g) (op : FifoCall α) :
    (g.call (op.shift k)).1=(f.call op).1.shift k ∧
      Shifted k c (f.call op).2 (g.call (op.shift k)).2 ↔ Aligned k c op f := by
  cases op with
  | write a =>
    simp only [call,FifoCall.shift,FifoReturn.shift,Fifo.write,h.slotsAvailable,Aligned]
    by_cases hroom : f.slotsAvailable 1=true
    · simpa [hroom] using h.write_iff (some a)
    · simp [hroom,h]
  | peek =>
    have hpeek := h.peek_iff
    simp only [call,FifoCall.shift,FifoReturn.shift,Aligned,FifoReturn.token.injEq]
    exact hpeek
  | comPeek =>
    have hpeek := h.peek_iff
    simp only [call,FifoCall.shift,FifoReturn.shift,Aligned,comPeek,FifoReturn.comToken.injEq,
      h.tentative,and_true]
    exact hpeek
  | commitRead free =>
    simp only [call,FifoCall.shift,FifoReturn.shift,Aligned,true_and]
    exact h.commit_iff
  | cancel =>
    refine iff_of_true ⟨rfl,?_⟩ trivial
    have hback := (h.tentative_iff f.readPos).mpr h.readSlot
    rw [← h.read] at hback
    exact hback
  | comCommitRead n =>
    simp only [call,FifoCall.shift,FifoReturn.shift,true_and]
    exact h.comCommit_iff n
  | comCancelRead n =>
    simp only [call,FifoCall.shift,FifoReturn.shift,true_and]
    exact h.comCancel_iff n

end Shifted

/-- The queue with its positions moved by `k` and its tokens turned by `c` slots. -/
def moved (k : UInt32) (c : Nat) (f : Fifo α) : Fifo α where
  size := f.size
  writePos := f.writePos+k
  readPos := f.readPos+k
  tentativeReadPos := f.tentativeReadPos+k
  tokens := f.tokens.rotate (f.size.toNat-c%f.size.toNat)

/-- A queue can be moved by `k` when the slots of its positions agree on the turn. -/
theorem moved_shifted {f : Fifo α} (hpos : 0<f.size.toNat) (hlength : f.tokens.length=f.size.toNat)
    (hwrite : f.SlotShifts k c f.writePos) (hread : f.SlotShifts k c f.readPos)
    (htentative : f.SlotShifts k c f.tentativeReadPos) : Shifted k c f (f.moved k c) := by
  refine ⟨hpos,rfl,rfl,rfl,rfl,hlength,by simp [moved,hlength],fun i hi => ?_,hwrite,hread,htentative⟩
  have hturn := Nat.mod_lt c hpos
  have hlt := Nat.mod_lt (i+c) hpos
  have hback : ((i+c)%f.size.toNat+(f.size.toNat-c%f.size.toNat))%f.size.toNat=i := by
    have hsum : i+c%f.size.toNat+(f.size.toNat-c%f.size.toNat)=i+f.size.toNat := by omega
    rw [← Nat.add_mod_mod i c,Nat.mod_add_mod,hsum,Nat.add_mod_right,Nat.mod_eq_of_lt hi]
  rw [moved,List.getElem?_rotate (by rw [hlength]; exact hlt),hlength,hback]

/-- Whatever is called on a queue and on the same queue moved by `k`, up to any point of the run the
results and the tokens are the same and the positions `k` apart, exactly when all calls are
aligned. -/
theorem shifted_run_iff {f g : Fifo α} (h : Shifted k c f g) (ops : List (FifoCall α)) :
    (∀ js, js <+: ops →
      (outputs call (js.map (.shift k)) g).1=(outputs call js f).1.map (.shift k) ∧
      Shifted k c (outputs call js f).2 (outputs call (js.map (.shift k)) g).2) ↔
    Always (fun op f => (f.call op).2) (Aligned k c) ops f :=
  outputs_related_iff call (.shift k) (.shift k) (Shifted k c) (Aligned k c)
    (fun op _ _ h => h.call_iff op) ops f g h

/-- As long as no position reaches `2^32` all calls are aligned. -/
theorem shifted_run_three :
    (outputs call (([.write 7,.write 8,.comPeek,.comCommitRead 0,.write 9,.comPeek,.comCancelRead 1,
      .peek] : List (FifoCall Nat)).map (.shift 5)) ((init 3).moved 5 2)).1=
    [.result .success,.result .success,.comToken (some 7) 5,.nothing,.result .success,
      .comToken (some 8) 6,.nothing,.token (some 8)] :=
  ((shifted_run_iff (moved_shifted (by decide) rfl (by unfold SlotShifts; decide)
    (by unfold SlotShifts; decide) (by unfold SlotShifts; decide)) _).mpr (by
      simp only [Always,Aligned,SlotShifts]; decide) _ List.prefix_rfl).1.trans (by decide)

/-- A queue of four slots that starts at the last position keeps the token that was acknowledged,
and one of three slots overwrites a token that was not read yet. -/
theorem wrapped_queue_differs :
    Shifted (2^32-1) 3 (init 4 : Fifo Nat) ((init 4).moved (2^32-1) 3) ∧
    (outputs call (([.write 7,.comPeek,.comCommitRead 0,.write 8,.write 9,.write 10] :
      List (FifoCall Nat)).map (.shift (2^32-1))) ((init 4).moved (2^32-1) 3)).1 ≠
    (outputs call ([.write 7,.comPeek,.comCommitRead 0,.write 8,.write 9,.write 10] :
      List (FifoCall Nat)) (init 4)).1.map (.shift (2^32-1)) ∧
    Shifted (2^32-2) 2 (init 3 : Fifo Nat) ((init 3).moved (2^32-2) 2) ∧
    (outputs call (([.write 7,.write 8,.peek,.commitRead true,.write 9,.peek] :
      List (FifoCall Nat)).map (.shift (2^32-2))) ((init 3).moved (2^32-2) 2)).1 ≠
    (outputs call ([.write 7,.write 8,.peek,.commitRead true,.write 9,.peek] :
      List (FifoCall Nat)) (init 3)).1.map (.shift (2^32-2)) := by
  refine ⟨moved_shifted (by decide) rfl ?_ ?_ ?_,by decide,moved_shifted (by decide) rfl ?_ ?_ ?_,
    by decide⟩ <;> unfold SlotShifts <;> decide

end Fifo

end CalvinConstrained
