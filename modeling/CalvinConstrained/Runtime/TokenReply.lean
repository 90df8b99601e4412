import CalvinConstrained.Runtime.TokenTransfer

namespace CalvinConstrained

variable {α : Type}

/-- Where the token of an enabled port goes, with the outcome there. -/
inductive Route
  | tunnel (sent : Bool)
  | peer (taken : Bool)
  | nowhere

/-- What reaches the queue of an out-port; `transmit` is `cc_port_transmit` on an enabled
port of an enabled actor. -/
inductive OutPortEvent (α : Type)
  | reply (type : PortReplyType) (sequencenbr : UInt32)
  | transmit (route : Route)
  | write (data : α)
  | disconnect

namespace Fifo

/-- `cc_port_transmit`, seen from the queue of the port. -/
def transmit (f : Fifo α) (route : Route) : Fifo α :=
  if f.tokensAvailable 1 then
    let sequencenbr := f.comPeek.1.2
    let f := f.comPeek.2
    match route with
    | .tunnel sent => if sent then f else f.comCancelRead sequencenbr
    | .peer taken => if taken then f.commitRead false else f.cancelCommit
    | .nowhere => f.comCancelRead sequencenbr
  else f

def receive : OutPortEvent α → Fifo α → Fifo α
  | .reply type n,f => handleTokenReply f type n
  | .transmit route,f => f.transmit route
  | .write a,f => (f.write a).2
  | .disconnect,f => f.cancel

/-- The positions are in order and one slot stays unused. -/
def Positions (f : Fifo α) : Prop :=
  1 ≤ f.size ∧ f.readPos ≤ f.tentativeReadPos ∧ f.tentativeReadPos ≤ f.writePos ∧
  f.writePos-f.readPos<f.size

instance (f : Fifo α) : Decidable f.Positions :=
  inferInstanceAs (Decidable (_ ∧ _ ∧ _ ∧ _))

/-- A NACK rewinds to a number that waits for its reply and is ignored otherwise. -/
def Rewinds (f : Fifo α) (n : UInt32) : Prop :=
  handleTokenReply f .nack n=
    if f.readPos ≤ n ∧ n<f.tentativeReadPos then {f with tentativeReadPos := n} else f

/-- The step leaves the positions in order, and a NACK does nothing but rewind. -/
def Survives (e : OutPortEvent α) (f : Fifo α) : Prop :=
  (receive e f).Positions ∧ ∀ n, e=.reply .nack n → f.Rewinds n

/-- A NACK names a number not yet released and not beyond the tentative position, and the
write position does not wrap. -/
def Answers : OutPortEvent α → Fifo α → Prop
  | .reply .nack n,f => f.readPos ≤ n ∧ n ≤ f.tentativeReadPos
  | .write _,f => f.slotsAvailable 1=true → f.writePos.toNat+1<2^32
  | _,_ => True

instance : (e : OutPortEvent α) → (f : Fifo α) → Decidable (Answers e f)
  | .reply .nack _,_ => inferInstanceAs (Decidable (_ ∧ _))
  | .write _,_ => inferInstanceAs (Decidable (_ → _))
  | .reply .ack _,_ => isTrue trivial
  | .reply .abort _,_ => isTrue trivial
  | .transmit _,_ => isTrue trivial
  | .disconnect,_ => isTrue trivial

theorem positions_iff (f : Fifo α) :
    f.Positions ↔ 1 ≤ f.size.toNat ∧ f.readPos.toNat ≤ f.tentativeReadPos.toNat ∧
      f.tentativeReadPos.toNat ≤ f.writePos.toNat ∧
      f.writePos.toNat<f.readPos.toNat+f.size.toNat := by
  have hw := f.writePos.toNat_lt
  have hr := f.readPos.toNat_lt
  unfold Positions
  simp only [UInt32.le_iff_toNat_le,UInt32.lt_iff_toNat_lt,UInt32.toNat_sub,UInt32.reduceToNat]
  omega

/-- On ordered positions the two-sided test of `cc_fifo_com_cancel_read` never holds. -/
theorem handleTokenReply_nack {f : Fifo α} (hf : f.Positions) (n : UInt32) :
    handleTokenReply f .nack n={f with tentativeReadPos := n} := by
  rw [positions_iff] at hf
  simp only [handleTokenReply,comCancelRead]
  rw [if_neg]
  simp only [UInt32.le_iff_toNat_le,UInt32.lt_iff_toNat_lt]
  omega

theorem rewinds_iff {f : Fifo α} (hf : f.Positions) (n : UInt32) :
    f.Rewinds n ↔ f.readPos ≤ n ∧ n ≤ f.tentativeReadPos := by
  have hread : f.readPos.toNat ≤ f.tentativeReadPos.toNat := ((positions_iff f).mp hf).2.1
  unfold Rewinds
  rw [handleTokenReply_nack hf]
  simp only [UInt32.le_iff_toNat_le,UInt32.lt_iff_toNat_lt]
  split
  · next hwait =>
    simp only [true_iff]
    omega
  · next hwait =>
    constructor
    · intro h
      have hn : n=f.tentativeReadPos := congrArg Fifo.tentativeReadPos h
      subst n
      exact ⟨hread,Nat.le_refl _⟩
    · intro h
      have hn : n=f.tentativeReadPos := UInt32.toNat_inj.mp (by omega)
      subst n
      rfl

theorem positions_nack {f : Fifo α} (hf : f.Positions) {n : UInt32} (hread : f.readPos ≤ n)
    (hn : n ≤ f.tentativeReadPos) : (handleTokenReply f .nack n).Positions := by
  rw [handleTokenReply_nack hf]
  rw [positions_iff] at hf ⊢
  simp only [UInt32.le_iff_toNat_le] at hread hn
  simp only
  omega

theorem positions_ack {f : Fifo α} (hf : f.Positions) (n : UInt32) :
    (handleTokenReply f .ack n).Positions := by
  have hw := f.writePos.toNat_lt
  simp only [handleTokenReply,comCommitRead]
  split_ifs with hlate hpeeked hread
  · exact hf
  · rw [positions_iff] at hf ⊢
    simp only [UInt32.lt_iff_toNat_lt] at hpeeked
    simp only [setSlot,UInt32.toNat_add,UInt32.reduceToNat]
    omega
  · exact hf
  · exact hf

theorem positions_cancel {f : Fifo α} (hf : f.Positions) : f.cancel.Positions := by
  rw [positions_iff] at hf ⊢
  simp only [cancel]
  omega

theorem positions_commitRead {f : Fifo α} (hf : f.Positions) (free : Bool) :
    (f.commitRead free).Positions := by
  have hw := f.writePos.toNat_lt
  unfold commitRead
  split
  · next hread =>
    rw [positions_iff] at hf ⊢
    rw [UInt32.lt_iff_toNat_lt] at hread
    simp only [setSlot,UInt32.toNat_add,UInt32.reduceToNat]
    omega
  · exact hf

theorem positions_transmit {f : Fifo α} (hf : f.Positions) (route : Route) :
    (f.transmit route).Positions := by
  unfold transmit
  split
  · next hsome =>
    have hn := (positions_iff f).mp hf
    have hw := f.writePos.toNat_lt
    have hlt : f.tentativeReadPos.toNat<f.writePos.toNat := by
      simp only [tokensAvailable,decide_eq_true_eq,UInt32.le_iff_toNat_le,UInt32.toNat_sub,
        UInt32.reduceToNat] at hsome
      omega
    have hpeek : f.comPeek.2.Positions := by
      rw [positions_iff]
      simp only [comPeek,peek,UInt32.toNat_add,UInt32.reduceToNat]
      omega
    have hback : f.comPeek.2.comCancelRead f.comPeek.1.2=f := comCancelRead_comPeek f (by omega)
    cases route with
    | tunnel sent =>
      cases sent with
      | true => exact hpeek
      | false => simpa only [hback,Bool.false_eq_true,if_false] using hf
    | peer taken =>
      cases taken with
      | true => exact positions_commitRead hpeek false
      | false => exact positions_cancel hpeek
    | nowhere => simpa only [hback] using hf
  · exact hf

theorem positions_write {f : Fifo α} (hf : f.Positions) (a : α) :
    (f.write a).2.Positions ↔ (f.slotsAvailable 1=true → f.writePos.toNat+1<2^32) := by
  have hn := (positions_iff f).mp hf
  have hw := f.writePos.toNat_lt
  have hs := f.size.toNat_lt
  unfold write
  split
  · next hfree =>
    have hroom : f.writePos.toNat+1<f.readPos.toNat+f.size.toNat := by
      have hlap : (f.writePos-f.readPos).toNat<f.size.toNat := by
        rw [UInt32.toNat_sub]
        omega
      simp only [slotsAvailable,decide_eq_true_eq,UInt32.le_iff_toNat_le,UInt32.toNat_sub,
        UInt32.toNat_mod,UInt32.reduceToNat] at hfree
      rw [UInt32.toNat_sub] at hlap
      rw [Nat.mod_eq_of_lt hlap] at hfree
      omega
    rw [positions_iff]
    simp only [setSlot,UInt32.toNat_add,UInt32.reduceToNat,hfree,true_imp_iff]
    omega
  · next hfull => simp [hfull,hf]

/-- One step: the condition is exactly what the positions need. -/
theorem survives_iff {f : Fifo α} (hf : f.Positions) (e : OutPortEvent α) :
    Survives e f ↔ Answers e f := by
  have hother : ∀ {e : OutPortEvent α}, (∀ n, e≠.reply .nack n) →
      (Survives e f ↔ (receive e f).Positions) := fun he =>
    ⟨fun h => h.1,fun h => ⟨h,fun n hn => absurd hn (he n)⟩⟩
  cases e with
  | reply type n =>
    cases type with
    | ack => exact (hother (by simp)).trans (iff_true_intro (positions_ack hf n))
    | nack =>
      constructor
      · intro h
        exact (rewinds_iff hf n).mp (h.2 n rfl)
      · intro h
        refine ⟨positions_nack hf h.1 h.2,?_⟩
        intro m hm
        cases hm
        exact (rewinds_iff hf n).mpr h
    | abort => exact (hother (by simp)).trans (iff_true_intro hf)
  | transmit route => exact (hother (by simp)).trans (iff_true_intro (positions_transmit hf route))
  | write a => exact (hother (by simp)).trans (positions_write hf a)
  | disconnect => exact (hother (by simp)).trans (iff_true_intro (positions_cancel hf))

/-- A whole run keeps the positions in order, with NACKs that do nothing but rewind, exactly
when every NACK in it answers a number still waiting or about to be sent. -/
theorem positions_survive_iff (f : Fifo α) (hf : f.Positions) (es : List (OutPortEvent α)) :
    Always receive Survives es f ↔ Always receive Answers es f :=
  always_congr Positions (fun e _ hg => survives_iff hg e)
    (fun e _ hg h => ((survives_iff hg e).mpr h).1) es f hf

/-- Two tokens are sent, the first is refused and sent again, and the second is
acknowledged late. -/
theorem positions_survive_refused_token :
    Always receive Survives [.write 7,.write 8,.transmit (.tunnel true),
      .transmit (.tunnel true),.reply .nack 0,.transmit (.tunnel true),.reply .ack 0,
      .reply .nack 1,.transmit (.peer false),.disconnect] (init 4 : Fifo Nat) :=
  (positions_survive_iff (init 4) (by decide) _).mpr (by decide)

/-- One of two tokens is out, and the peer refuses a number that was never sent. -/
theorem foreign_nack_moves_tentative :
    (init 4 : Fifo Nat).Positions ∧
    ¬Always receive Survives [.write 7,.write 8,.transmit (.tunnel true),.reply .nack 9]
      (init 4 : Fifo Nat) := by
  refine ⟨by decide,?_⟩
  intro h
  have hlast := h.2.2.2.1.1
  revert hlast
  decide

end Fifo

end CalvinConstrained
