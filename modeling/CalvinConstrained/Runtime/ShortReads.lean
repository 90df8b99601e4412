import CalvinConstrained.Runtime.Framing

namespace CalvinConstrained

/-- A payload behind its length. -/
def framed (payload : Bytes) : Bytes := lengthPrefix payload.length++payload

/-- The bytes of messages sent one after the other. -/
def streamOf (payloads : List Bytes) : Bytes := (payloads.map framed).flatten

/-- The payloads whose frames lie within the first `n` bytes of the stream. -/
def consumed : List Bytes → Nat → List Bytes
  | [],_ => []
  | p::ps,n => if (framed p).length ≤ n then p::consumed ps (n-(framed p).length) else []

theorem framed_length (p : Bytes) : (framed p).length=4+p.length := by
  simp only [framed,lengthPrefix,List.length_append,List.length_cons,List.length_nil]

theorem streamOf_append (ps qs : List Bytes) : streamOf (ps++qs)=streamOf ps++streamOf qs := by
  simp [streamOf]

theorem consumed_append (ps qs : List Bytes) (n : Nat) :
    consumed (ps++qs) ((streamOf ps).length+n)=ps++consumed qs n := by
  induction ps with
  | nil => simp [streamOf]
  | cons p ps ih =>
    have hlen : (streamOf (p::ps)).length=(framed p).length+(streamOf ps).length := by
      simp [streamOf]
    rw [List.cons_append,consumed,if_pos (by omega),List.cons_append,← ih]
    congr 2
    omega

theorem consumed_none {ps : List Bytes} {n : Nat} (h : ∀ p ∈ ps.head?, n<(framed p).length) :
    consumed ps n=[] := by
  cases ps with
  | nil => rfl
  | cons p ps =>
    have hp := h p rfl
    rw [consumed,if_neg (by omega)]

theorem consumed_eq_nil {p : Bytes} {ps : List Bytes} {n : Nat} (h : consumed (p::ps) n=[]) :
    n<(framed p).length := by
  by_contra hle
  rw [consumed,if_pos (by omega)] at h
  cases h

theorem consumed_prefix (ps : List Bytes) (n : Nat) : ∃ rest, ps=consumed ps n++rest := by
  induction ps generalizing n with
  | nil => exact ⟨[],rfl⟩
  | cons p ps ih =>
    unfold consumed
    split
    · obtain ⟨rest,hrest⟩ := ih (n-(framed p).length)
      exact ⟨rest,by rw [List.cons_append,← hrest]⟩
    · exact ⟨p::ps,rfl⟩

namespace TransportClient

/-- What the receive buffer remembers of a message that is not complete. -/
def held (c : TransportClient) : Bytes :=
  match c.rxBuffer.buffer with
  | none => []
  | some buffer => lengthPrefix c.rxBuffer.size.toNat++buffer

/-- The handler was given the payloads whose frames were consumed, and every other consumed byte
is remembered. -/
structure Kept (payloads : List Bytes) (c : TransportClient) : Prop where
  stream : c.received++c.incoming=streamOf payloads
  handed : c.handled=consumed payloads c.received.length
  remembered : c.received=streamOf c.handled++c.held
  pos : ∀ buffer, c.rxBuffer.buffer=some buffer → c.rxBuffer.pos.toNat=buffer.length

/-- One call of `cc_transport_handle_data`: the outcome of the allocation and the results of its
reads. -/
def call (e : Bool × List Int) (c : TransportClient) : Option TransportClient :=
  (c.handleData e.1 e.2).map Prod.snd

/-- A call that starts with a header gets nothing of it, or all of it at once; then it announces
a payload and the buffer can be allocated. -/
def Whole (e : Bool × List Int) (c : TransportClient) : Prop :=
  c.rxBuffer.buffer=none → ∀ r ∈ e.2.head?,
    r ≤ 0 ∨ (r=4 ∧ e.1=true ∧ getMessageLen (c.incoming.take 4) ≠ 0)

instance (e : Bool × List Int) (c : TransportClient) : Decidable (Whole e c) :=
  inferInstanceAs (Decidable (_ → _))

/-- What is still to come: the messages that were not handed over. -/
structure Ahead (rest : List Bytes) (c : TransportClient) : Prop where
  stream : c.held++c.incoming=streamOf rest
  unfinished : ∀ p ∈ rest.head?, c.held.length<(framed p).length

theorem Kept.ahead {payloads : List Bytes} {c : TransportClient} (h : c.Kept payloads) :
    ∃ rest, payloads=c.handled++rest ∧ c.Ahead rest := by
  obtain ⟨rest,hrest⟩ := consumed_prefix payloads c.received.length
  rw [← h.handed] at hrest
  refine ⟨rest,hrest,?_,?_⟩
  · have hstream := h.stream
    rw [h.remembered,hrest,streamOf_append,List.append_assoc] at hstream
    exact List.append_cancel_left hstream
  · have hhanded := h.handed
    rw [h.remembered,List.length_append] at hhanded
    rw [hrest,consumed_append] at hhanded
    have hnil : consumed rest c.held.length=[] := by simpa using hhanded.symm
    intro p hp
    cases rest with
    | nil => cases hp
    | cons q rest =>
      cases hp
      exact consumed_eq_nil hnil

theorem kept_of_ahead {payloads : List Bytes} (rest : List Bytes) {c : TransportClient}
    (hrest : payloads=c.handled++rest) (hrem : c.received=streamOf c.handled++c.held)
    (hpos : ∀ buffer, c.rxBuffer.buffer=some buffer → c.rxBuffer.pos.toNat=buffer.length)
    (h : c.Ahead rest) : c.Kept payloads where
  stream := by rw [hrem,List.append_assoc,h.stream,hrest,streamOf_append]
  handed := by
    rw [hrest,hrem,List.length_append,consumed_append,consumed_none h.unfinished,List.append_nil]
  remembered := hrem
  pos := hpos

/-- The message that the receive buffer holds a part of. -/
theorem Ahead.buffered {rest : List Bytes} {c : TransportClient} {buffer : Bytes}
    (hmax : ∀ p ∈ rest, p.length<2^32) (h : c.Ahead rest) (hb : c.rxBuffer.buffer=some buffer) :
    ∃ p ps, rest=p::ps ∧ c.rxBuffer.size.toNat=p.length ∧ buffer++c.incoming=p++streamOf ps ∧
      buffer.length<p.length := by
  have hheld : c.held=lengthPrefix c.rxBuffer.size.toNat++buffer := by simp [held,hb]
  have hstream := h.stream
  rw [hheld] at hstream
  cases rest with
  | nil =>
    have hlen := congrArg List.length hstream
    simp [streamOf,lengthPrefix] at hlen
  | cons p ps =>
    have hsplit : lengthPrefix c.rxBuffer.size.toNat++(buffer++c.incoming)=
        lengthPrefix p.length++(p++streamOf ps) := by
      rw [← List.append_assoc,hstream]
      simp [streamOf,framed]
    obtain ⟨hpre,hbytes⟩ := List.append_inj hsplit rfl
    have hsize := congrArg getMessageLen hpre
    rw [getMessageLen_lengthPrefix,getMessageLen_lengthPrefix,UInt32.ofNat_toNat] at hsize
    have hshort := h.unfinished p rfl
    rw [hheld,framed_length,List.length_append,show (lengthPrefix _).length=4 from rfl] at hshort
    refine ⟨p,ps,rfl,?_,hbytes,by omega⟩
    rw [hsize,UInt32.toNat_ofNat']
    exact Nat.mod_eq_of_lt (hmax p List.mem_cons_self)

theorem recv_pos {n : Nat} {r : Int} {c d : TransportClient} {bytes : Bytes}
    (h : c.recv n r=some (bytes,d)) (hr : 0<r) :
    r.toNat ≤ n ∧ bytes.length=r.toNat ∧ c.incoming=bytes++d.incoming ∧
      d={c with incoming := d.incoming,received := c.received++bytes} := by
  unfold recv at h
  rw [if_neg (by omega)] at h
  split at h
  · next hle =>
    cases h
    refine ⟨hle.1,?_,(List.take_append_drop _ _).symm,rfl⟩
    rw [List.length_take]
    omega
  · cases h

theorem recv_nonpos {n : Nat} {r : Int} {c d : TransportClient} {bytes : Bytes}
    (h : c.recv n r=some (bytes,d)) (hr : r ≤ 0) : bytes=[] ∧ d=c := by
  unfold recv at h
  rw [if_pos hr] at h
  cases h
  exact ⟨rfl,rfl⟩

section Steps

variable {payloads : List Bytes} (hmax : ∀ p ∈ payloads, p.length<2^32)

include hmax

/-- The bytes of a payload are remembered, whatever the reads return. -/
theorem readPayload_kept {reads : List Int} {c d : TransportClient} {r : Result} {buffer : Bytes}
    (hb : c.rxBuffer.buffer=some buffer) (hc : c.Kept payloads)
    (hrun : c.readPayload reads=some (r,d)) : d.Kept payloads := by
  induction reads generalizing c buffer with
  | nil => cases hrun
  | cons n reads ih =>
    obtain ⟨rest,hrest,hahead⟩ := hc.ahead
    have hmax' : ∀ p ∈ rest, p.length<2^32 :=
      fun p hp => hmax p (hrest ▸ List.mem_append_right _ hp)
    obtain ⟨p,ps,rfl,hsize,hbytes,hshort⟩ := hahead.buffered hmax' hb
    have hpos := hc.pos buffer hb
    have hp := hmax' p List.mem_cons_self
    simp only [readPayload,hb] at hrun
    cases hread : c.recv c.rxBuffer.toRead n with
    | none => simp [hread] at hrun
    | some x =>
      obtain ⟨bytes,e⟩ := x
      simp only [hread] at hrun
      split at hrun
      · next hn =>
        obtain ⟨rfl,rfl⟩ := recv_nonpos hread hn
        split at hrun
        · cases hrun
          exact hc
        · cases hrun
      · next hn =>
        obtain ⟨-,hlen,hincoming,he⟩ := recv_pos hread (by omega)
        rw [hincoming,← List.append_assoc] at hbytes
        have hheld : c.held=lengthPrefix c.rxBuffer.size.toNat++buffer := by simp [held,hb]
        rw [he] at hrun
        split at hrun
        · cases hrun
        · next hfits =>
          have hnext : (c.rxBuffer.pos+.ofNat bytes.length).toNat=buffer.length+bytes.length := by
            rw [UInt32.toNat_add,UInt32.toNat_ofNat']
            dsimp only at hfits
            omega
          split at hrun
          · next hend =>
            split at hrun
            · cases hrun
              have htotal : (buffer++bytes).length=p.length := by
                rw [List.length_append,← hnext,← hsize,hend]
              obtain ⟨rfl,hrest'⟩ := List.append_inj hbytes htotal
              refine kept_of_ahead ps ?_ ?_ ?_ ⟨?_,?_⟩
              · simpa [deliver] using hrest
              · have hrem := hc.remembered
                simp only [deliver,held,TransportBuffer.empty,List.append_nil,streamOf_append]
                rw [hrem,hheld,hsize]
                simp [streamOf,framed]
              · intro buffer' hb'
                cases hb'
              · simpa [deliver,held,TransportBuffer.empty] using hrest'
              · intro q hq
                simp [deliver,held,TransportBuffer.empty,framed_length]
            · cases hrun
          · next hend =>
            refine @ih _ (buffer++bytes) rfl ?_ hrun
            refine kept_of_ahead (p::ps) hrest ?_ ?_ ⟨?_,?_⟩
            · rw [hc.remembered,hheld]
              simp [held]
            · intro buffer' hb'
              cases hb'
              rw [List.length_append]
              exact hnext
            · have hstream := hahead.stream
              rw [hheld,hincoming] at hstream
              simpa [held] using hstream
            · intro q hq
              cases hq
              have hne : buffer.length+bytes.length ≠ c.rxBuffer.size.toNat := by
                intro h
                exact hend (UInt32.toNat_inj.mp (hnext.trans h))
              dsimp only at hfits
              simp only [held,framed_length,List.length_append,show (lengthPrefix _).length=4 from rfl]
              omega

/-- A header is that of the next message. -/
theorem Kept.header {c : TransportClient} {bytes incoming : Bytes} (hc : c.Kept payloads)
    (hb : c.rxBuffer.buffer=none) (hbytes : bytes.length=4) (hi : c.incoming=bytes++incoming) :
    ∃ p ps, payloads=c.handled++p::ps ∧ bytes=lengthPrefix p.length ∧
      (getMessageLen bytes).toNat=p.length ∧ incoming=p++streamOf ps := by
  obtain ⟨rest,hrest,hahead⟩ := hc.ahead
  have hstream := hahead.stream
  rw [show c.held=[] by simp [held,hb],List.nil_append,hi] at hstream
  cases rest with
  | nil =>
    have hlen := congrArg List.length hstream
    simp [streamOf,hbytes] at hlen
  | cons p ps =>
    have hsplit : bytes++incoming=lengthPrefix p.length++(p++streamOf ps) := by
      rw [hstream]
      simp [streamOf,framed]
    obtain ⟨hpre,hincoming⟩ := List.append_inj hsplit hbytes
    refine ⟨p,ps,hrest,hpre,?_,hincoming⟩
    have hp : p.length<2^32 := hmax p (by rw [hrest]; simp)
    rw [hpre,getMessageLen_lengthPrefix,UInt32.toNat_ofNat']
    exact Nat.mod_eq_of_lt hp

omit hmax in
/-- Bytes read without a place to keep them are forgotten. -/
theorem not_kept_of_dropped {c d : TransportClient} {bytes : Bytes} (hc : c.Kept payloads)
    (hb : c.rxBuffer.buffer=none) (hd : d.rxBuffer.buffer=none) (hhandled : d.handled=c.handled)
    (hreceived : d.received=c.received++bytes) (hbytes : bytes ≠ []) : ¬d.Kept payloads := by
  intro h
  have hrem := h.remembered
  rw [hhandled,hreceived,hc.remembered,show c.held=[] by simp [held,hb],
    show d.held=[] by simp [held,hd],List.append_nil] at hrem
  exact hbytes (by simpa using hrem)

omit hmax in
/-- A message without payload is not handed over. -/
theorem readPayload_empty {c d : TransportClient} {reads : List Int} {r : Result}
    {p : Bytes} {ps : List Bytes} (hrun : c.readPayload reads=some (r,d))
    (hb : c.rxBuffer=⟨some [],0,0⟩) (hrest : payloads=c.handled++p::ps) (hp : p.length=0) :
    ¬d.Kept payloads := by
  have hstuck : d=c := by
    cases reads with
    | nil => cases hrun
    | cons n reads =>
      simp only [readPayload,hb] at hrun
      cases hread : c.recv (TransportBuffer.toRead ⟨some [],0,0⟩) n with
      | none => simp [hread] at hrun
      | some x =>
        obtain ⟨bytes,e⟩ := x
        simp only [hread] at hrun
        split at hrun
        · next hn =>
          obtain ⟨rfl,rfl⟩ := recv_nonpos hread hn
          split at hrun
          · cases hrun
            rfl
          · cases hrun
        · next hn =>
          obtain ⟨hle,-⟩ := recv_pos hread (by omega)
          have hzero : TransportBuffer.toRead ⟨some [],0,0⟩=0 := by decide
          omega
  rw [hstuck]
  intro h
  obtain ⟨rest,hrest',hahead⟩ := h.ahead
  rw [hrest] at hrest'
  have heq := List.append_cancel_left hrest'
  have hshort := hahead.unfinished p (by rw [← heq]; rfl)
  simp only [held,hb,framed_length,hp,List.append_nil] at hshort
  exact absurd hshort (by simp [lengthPrefix])

/-- A call keeps the bytes it consumes exactly when it does not break off within a header, or
behind the header of a message without payload. -/
theorem handleData_kept_iff {alloc : Bool} {reads : List Int} {c d : TransportClient} {r : Result}
    (hc : c.Kept payloads) (hrun : c.handleData alloc reads=some (r,d)) :
    d.Kept payloads ↔ Whole (alloc,reads) c := by
  unfold handleData at hrun
  split at hrun
  · next buffer hb =>
    refine iff_of_true (readPayload_kept hmax hb hc hrun) fun hnone => ?_
    rw [hb] at hnone
    cases hnone
  · next hb =>
    cases reads with
    | nil => cases hrun
    | cons n reads =>
      have hwhole : Whole (alloc,n::reads) c ↔
          n ≤ 0 ∨ (n=4 ∧ alloc=true ∧ getMessageLen (c.incoming.take 4) ≠ 0) := by
        simp [Whole,hb]
      rw [hwhole]
      simp only [readHeader] at hrun
      cases hread : c.recv 4 n with
      | none => simp [hread] at hrun
      | some x =>
        obtain ⟨bytes,e⟩ := x
        simp only [hread] at hrun
        by_cases hn : n ≤ 0
        · obtain ⟨rfl,rfl⟩ := recv_nonpos hread hn
          rw [if_pos (by omega)] at hrun
          split at hrun
          · cases hrun
            exact iff_of_true ⟨hc.stream,hc.handed,hc.remembered,hc.pos⟩ (.inl hn)
          · cases hrun
        · obtain ⟨hle,hlen,hincoming,he⟩ := recv_pos hread (by omega)
          have hne : bytes ≠ [] := by
            rintro rfl
            simp at hlen
            omega
          rw [he] at hrun
          split at hrun
          · split at hrun
            · cases hrun
              refine iff_of_false (not_kept_of_dropped hc hb hb rfl rfl hne) ?_
              omega
            · cases hrun
          · next hfour =>
            have htake : c.incoming.take 4=bytes := by
              rw [hincoming,List.take_left' (by omega)]
            split at hrun
            · next halloc =>
              obtain ⟨p,ps,hrest,hpre,hsize,hinc⟩ := hc.header hmax hb (by omega) hincoming
              by_cases hzero : getMessageLen bytes=0
              · refine iff_of_false ?_ (by rw [htake,hzero]; simp; omega)
                refine readPayload_empty hrun ?_ hrest ?_
                · simp [hzero]
                · rw [← hsize,hzero]
                  rfl
              · refine iff_of_true ?_ (.inr ⟨by omega,halloc,by rwa [htake]⟩)
                refine readPayload_kept hmax rfl ?_ hrun
                have hsplit : c.held++c.incoming=streamOf (p::ps) := by
                  obtain ⟨rest,hrest',hahead⟩ := hc.ahead
                  rw [hrest] at hrest'
                  rw [List.append_cancel_left hrest']
                  exact hahead.stream
                have hheld : c.held=[] := by simp [held,hb]
                refine kept_of_ahead (p::ps) hrest ?_ ?_ ⟨?_,?_⟩
                · rw [hc.remembered,hheld,List.append_nil]
                  simp only [held,List.append_nil]
                  rw [hsize,← hpre]
                · intro buffer hbuffer
                  cases hbuffer
                  rfl
                · rw [hheld,hincoming,hpre] at hsplit
                  simpa [held,hsize] using hsplit
                · intro q hq
                  cases hq
                  have hpos : 0<(getMessageLen bytes).toNat :=
                    Nat.pos_of_ne_zero fun h => hzero (UInt32.toNat_inj.mp h)
                  simp only [held,framed_length,List.length_append,List.length_nil,
                    show (lengthPrefix _).length=4 from rfl]
                  omega
            · next halloc =>
              split at hrun
              · cases hrun
                refine iff_of_false (not_kept_of_dropped hc hb hb rfl rfl hne) ?_
                rintro (hneg | ⟨-,halloc',-⟩)
                · exact hn hneg
                · exact halloc halloc'
              · cases hrun

end Steps

/-- What the reads of a message that misses `n` bytes may return when `m` bytes are there: between
one byte and the number requested, until the message is complete or a read fails. -/
inductive Answers : Nat → Nat → List Int → Prop
  | fail {n m : Nat} {r : Int} (h : r ≤ 0) : Answers n m [r]
  | last {n m : Nat} (hn : 1 ≤ n) (hm : n ≤ m) : Answers n m [(n : Int)]
  | more {n m k : Nat} {reads : List Int} (hk : 1 ≤ k) (hlt : k<n) (hm : k ≤ m)
      (h : Answers (n-k) (m-k) reads) : Answers n m ((k : Int)::reads)

/-- What the reads of one call may return. -/
def Answered (c : TransportClient) (e : Bool × List Int) : Prop :=
  match c.rxBuffer.buffer with
  | some buffer => Answers (c.rxBuffer.size.toNat-buffer.length) c.incoming.length e.2
  | none =>
    (∃ r<4, e.2=[r] ∧ r.toNat ≤ c.incoming.length) ∨
    (∃ reads, e.2=4::reads ∧ 4 ≤ c.incoming.length ∧
      if e.1 then
        Answers (getMessageLen (c.incoming.take 4)).toNat (c.incoming.length-4) reads
      else reads=[])

theorem readPayload_isSome {n m : Nat} {reads : List Int} (h : Answers n m reads)
    {c : TransportClient} {buffer : Bytes} (hb : c.rxBuffer.buffer=some buffer)
    (hpos : c.rxBuffer.pos.toNat=buffer.length) (hsize : c.rxBuffer.size.toNat=buffer.length+n)
    (hmax : buffer.length+n<2^31) (hm : c.incoming.length=m) :
    (c.readPayload reads).isSome=true := by
  have hread : c.rxBuffer.toRead=n := by
    simp only [TransportBuffer.toRead,UInt32.toNat_sub]
    rw [if_pos (by omega)]
    omega
  induction h generalizing c buffer with
  | @fail n m r hr => simp [readPayload,hb,recv,hr]
  | @last n m hn hle =>
    have hlen : (c.incoming.take n).length=n := by
      rw [List.length_take]
      omega
    have hrecv := recv_eq hn (Nat.le_refl n) hlen (List.take_append_drop n c.incoming).symm
    have hend : c.rxBuffer.pos+.ofNat n=c.rxBuffer.size := by
      rw [← UInt32.toNat_inj,UInt32.toNat_add,UInt32.toNat_ofNat']
      omega
    simp only [readPayload,hb,hread,hrecv,hlen]
    rw [if_neg (by omega),if_neg (by omega),if_pos hend]
    rfl
  | @more n m k reads hk hlt hle h ih =>
    have hlen : (c.incoming.take k).length=k := by
      rw [List.length_take]
      omega
    have hrecv := recv_eq hk (Nat.le_of_lt hlt) hlen (List.take_append_drop k c.incoming).symm
    have hnext : (c.rxBuffer.pos+.ofNat k).toNat=buffer.length+k := by
      rw [UInt32.toNat_add,UInt32.toNat_ofNat']
      omega
    have hend : c.rxBuffer.pos+.ofNat k ≠ c.rxBuffer.size := by
      intro heq
      have := congrArg UInt32.toNat heq
      omega
    simp only [readPayload,hb,hread,hrecv,hlen]
    rw [if_neg (by omega),if_neg (by omega),if_neg hend]
    refine @ih _ (buffer++c.incoming.take k) rfl ?_ ?_ ?_ ?_ ?_
    · simp only [List.length_append,hlen,hnext]
    · simp only [List.length_append,hlen]
      omega
    · simp only [List.length_append,hlen]
      omega
    · rw [List.length_drop,hm]
    · simp only [TransportBuffer.toRead,UInt32.toNat_sub]
      rw [if_pos (by omega)]
      omega

/-- A call on a client that has kept all bytes returns, whatever it reads. -/
theorem call_isSome {payloads : List Bytes} (hmax : ∀ p ∈ payloads, p.length<2^31)
    {c : TransportClient} (hc : c.Kept payloads) {e : Bool × List Int} (he : c.Answered e) :
    (call e c).isSome=true := by
  have hmax' : ∀ p ∈ payloads, p.length<2^32 := fun p hp => by
    have := hmax p hp
    omega
  obtain ⟨alloc,reads⟩ := e
  rw [call,Option.isSome_map]
  unfold handleData
  unfold Answered at he
  split
  · next buffer hb =>
    simp only [hb] at he
    obtain ⟨rest,hrest,hahead⟩ := hc.ahead
    obtain ⟨p,ps,rfl,hsize,-,hshort⟩ := hahead.buffered
      (fun p hp => hmax' p (hrest ▸ List.mem_append_right _ hp)) hb
    have hp : p.length<2^31 := hmax p (by rw [hrest]; simp)
    exact readPayload_isSome he hb (hc.pos buffer hb) (by omega) (by omega) rfl
  · next hb =>
    simp only [hb] at he
    obtain ⟨r,hr,rfl,hle⟩ | ⟨reads,rfl,hfour,hrest⟩ := he
    · by_cases hpos : r ≤ 0
      · simp [readHeader,recv,hpos,hr]
      · have hle' : r.toNat ≤ 4 ∧ r.toNat ≤ c.incoming.length := by omega
        simp [readHeader,recv,hpos,hr,hle']
    · have hlen : (c.incoming.take 4).length=4 := by
        rw [List.length_take]
        omega
      have hsplit := (List.take_append_drop 4 c.incoming).symm
      have hrecv := recv_eq (n := 4) (k := 4) (by omega) (Nat.le_refl 4) hlen hsplit
      obtain ⟨p,ps,hps,-,hsize,-⟩ := hc.header hmax' hb hlen hsplit
      have hp : p.length<2^31 := hmax p (by rw [hps]; simp)
      rw [Nat.cast_ofNat] at hrecv
      simp only [readHeader,hrecv]
      rw [if_neg (by omega)]
      split at hrest
      · next halloc =>
        rw [if_pos halloc]
        refine @readPayload_isSome _ _ reads hrest _ [] rfl rfl ?_ ?_ ?_
        · simp
        · rw [hsize]
          simpa using hp
        · simp
      · next halloc =>
        rw [if_neg halloc,if_pos hrest]
        rfl

/-- A client at the start of a stream. -/
def start (payloads : List Bytes) : TransportClient := {fresh with incoming := streamOf payloads}

theorem start_kept (payloads : List Bytes) : (start payloads).Kept payloads := by
  refine kept_of_ahead payloads rfl rfl ?_ ⟨rfl,?_⟩
  · intro buffer hb
    cases hb
  · intro p hp
    simp [start,fresh,held,TransportBuffer.empty,framed_length]

/-- Over any number of calls, the handler is given exactly the messages consumed and no other
byte is forgotten, exactly when no call breaks off within a header or meets a message without
payload; and then every further call returns, where the sizes fit into an `int`. -/
theorem short_reads_kept_iff (payloads : List Bytes) (hmax : ∀ p ∈ payloads, p.length<2^32)
    (es : List (Bool × List Int)) (c : TransportClient)
    (hr : Runs call (fun _ _ => True) (start payloads) es c) :
    ((Runs call (fun _ u => u.Kept payloads) (start payloads) es c ∧ c.Kept payloads) ↔
      Runs call Whole (start payloads) es c) ∧
    ((∀ p ∈ payloads, p.length<2^31) → Runs call Whole (start payloads) es c →
      ∀ e, c.Answered e → (call e c).isSome=true) := by
  have hiff := hr.inside_iff (Kept payloads) (fun e u v hs hu => by
    obtain ⟨⟨r,v'⟩,hrun,rfl⟩ := Option.map_eq_some_iff.mp hs
    exact handleData_kept_iff hmax hu hrun) (start_kept payloads)
  exact ⟨hiff,fun hsmall h e he => call_isSome hsmall (hiff.mpr h).2 he⟩

/-- A payload in two pieces, a read that fails between them, and a header that is not there. -/
theorem short_reads_kept_pieces :
    ∃ c, Runs call Whole (start [[1,2,3],[9]])
      [(true,[4,1,0]),(true,[2]),(true,[0]),(true,[4,1])] c ∧ c.Kept [[1,2,3],[9]] ∧
      c.handled=[[1,2,3],[9]] := by
  obtain ⟨c,hc,hh⟩ := exists_of_any
    (o := runChecked call Whole [(true,[4,1,0]),(true,[2]),(true,[0]),(true,[4,1])]
      (start [[1,2,3],[9]]))
    (p := fun c => decide (c.handled=[[1,2,3],[9]])) (by decide)
  have hr := Runs.of_runChecked hc
  have hkept := (short_reads_kept_iff [[1,2,3],[9]] (by decide) _ c
    (hr.mono fun _ _ _ => trivial)).1.mpr hr
  exact ⟨c,hr,hkept.2,of_decide_eq_true hh⟩

/-- Two bytes of a header are forgotten, and the rest of the stream is taken for something else;
and a message without payload stays in front of the others. -/
theorem short_header_lost :
    (∃ c, Runs call (fun _ _ => True) (start [[1,2],[0,0,0,0]])
      [(true,[2]),(true,[4,0])] c ∧ ¬c.Kept [[1,2],[0,0,0,0]] ∧ c.handled=[] ∧
      c.rxBuffer.size=0x00020102) ∧
    (∃ c, Runs call (fun _ _ => True) (start [[],[7]])
      [(true,[4,0]),(true,[0]),(true,[0])] c ∧ ¬c.Kept [[],[7]] ∧ c.handled=[] ∧
      c.incoming=framed [7]) := by
  constructor
  · obtain ⟨c,hc,hh⟩ := exists_of_any
      (o := runChecked call (fun _ _ => True) [(true,[2]),(true,[4,0])] (start [[1,2],[0,0,0,0]]))
      (p := fun c => decide (c.handled ≠ consumed [[1,2],[0,0,0,0]] c.received.length ∧ c.handled=[] ∧
        c.rxBuffer.size=0x00020102)) (by decide)
    obtain ⟨hlost,hrest⟩ := of_decide_eq_true hh
    exact ⟨c,Runs.of_runChecked hc,fun h => hlost h.handed,hrest⟩
  · obtain ⟨c,hc,hh⟩ := exists_of_any
      (o := runChecked call (fun _ _ => True) [(true,[4,0]),(true,[0]),(true,[0])] (start [[],[7]]))
      (p := fun c => decide (c.handled ≠ consumed [[],[7]] c.received.length ∧ c.handled=[] ∧
        c.incoming=framed [7])) (by decide)
    obtain ⟨hlost,hrest⟩ := of_decide_eq_true hh
    exact ⟨c,Runs.of_runChecked hc,fun h => hlost h.handed,hrest⟩

end TransportClient

end CalvinConstrained
