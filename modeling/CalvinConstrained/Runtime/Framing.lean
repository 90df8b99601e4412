import CalvinConstrained.Runtime.Transport

namespace CalvinConstrained

/-- Reads that bring `n` payload bytes: each returns at least one byte and at most the number
requested. -/
inductive Pieces : Nat → List Int → Prop
  | last {n : Nat} (h : 1 ≤ n) : Pieces n [(n : Int)]
  | more {n k : Nat} {reads : List Int} (hk : 1 ≤ k) (hlt : k<n) (h : Pieces (n-k) reads) :
      Pieces n ((k : Int)::reads)

/-- Reads of one message with `n` payload bytes; the header comes at once. -/
def Splits (n : Nat) (reads : List Int) : Prop := ∃ pieces, reads=4::pieces ∧ Pieces n pieces

theorem transportSend_eq (buffer : Bytes) (hlow : 4 ≤ buffer.length) (hhigh : buffer.length<2^31) :
    transportSend buffer=some (lengthPrefix (buffer.length-4)++buffer.drop 4) := by
  have hsize : (buffer.length : Int).bmod (2^32)=buffer.length := by
    rw [Int.bmod_eq_of_le] <;> omega
  have hlen : (lengthPrefix (buffer.length-4)++buffer.drop 4).length=buffer.length := by
    simp [lengthPrefix]
    omega
  have hcount : (((buffer.length : Int)-4)%2^32).toNat=buffer.length-4 := by omega
  unfold transportSend
  simp only [hsize]
  rw [if_neg (by omega),hcount,Int.toNat_natCast]
  rw [List.take_of_length_le (Nat.le_of_eq hlen)]

namespace TransportClient

theorem recv_eq {n k : Nat} {c : TransportClient} {bytes rest : Bytes} (hk : 1 ≤ k) (hn : k ≤ n)
    (hb : bytes.length=k) (hi : c.incoming=bytes++rest) :
    c.recv n k=some (bytes,{c with incoming := rest,received := c.received++bytes}) := by
  unfold recv
  rw [if_neg (by omega),if_pos ⟨by simpa using hn,by simp [hi,hb]⟩]
  simp [hi,← hb]

theorem readPayload_pieces {n : Nat} {reads : List Int} (hp : Pieces n reads)
    {c : TransportClient} {buffer payload rest : Bytes} (hb : c.rxBuffer.buffer=some buffer)
    (hpos : c.rxBuffer.pos.toNat=buffer.length) (hsize : c.rxBuffer.size.toNat=buffer.length+n)
    (hmax : buffer.length+n<2^31) (hlen : payload.length=n) (hi : c.incoming=payload++rest) :
    c.readPayload reads=some (.success,{c with
      rxBuffer := .empty
      incoming := rest
      received := c.received++payload
      handled := c.handled++[buffer++payload]}) := by
  induction hp generalizing c buffer payload with
  | @last n hn =>
    have hread : c.rxBuffer.toRead=n := by
      simp only [TransportBuffer.toRead,UInt32.toNat_sub]
      rw [if_pos (by omega)]
      omega
    have hend : c.rxBuffer.pos+.ofNat payload.length=c.rxBuffer.size := by
      rw [← UInt32.toNat_inj,UInt32.toNat_add,UInt32.toNat_ofNat']
      omega
    simp only [readPayload,hb,hread,recv_eq hn (Nat.le_refl n) hlen hi]
    rw [if_neg (by omega),if_neg (by omega),if_pos hend]
    rfl
  | @more n k reads hk hlt hp ih =>
    have hread : c.rxBuffer.toRead=n := by
      simp only [TransportBuffer.toRead,UInt32.toNat_sub]
      rw [if_pos (by omega)]
      omega
    have htake : (payload.take k).length=k := by simp; omega
    have hrest : c.incoming=payload.take k++(payload.drop k++rest) := by
      rw [hi,← List.append_assoc,List.take_append_drop]
    have hnext : (c.rxBuffer.pos+.ofNat (payload.take k).length).toNat=buffer.length+k := by
      rw [UInt32.toNat_add,UInt32.toNat_ofNat']
      omega
    have hend : c.rxBuffer.pos+.ofNat (payload.take k).length≠c.rxBuffer.size := by
      intro h
      have := congrArg UInt32.toNat h
      omega
    simp only [readPayload,hb,hread,recv_eq hk (Nat.le_of_lt hlt) htake hrest]
    rw [if_neg (by omega),if_neg (by omega),if_neg hend]
    rw [ih rfl (by simpa only [List.length_append,htake] using hnext)
      (by simp only [List.length_append,htake]; omega)
      (by simp only [List.length_append,htake]; omega) (by simp [hlen]) rfl]
    simp

/-- One call takes one whole frame off the stream. -/
theorem handleData_frame {n : Nat} {reads : List Int} (hs : Splits n reads) {c : TransportClient}
    {payload rest : Bytes} (hc : c.rxBuffer=.empty) (hmax : n<2^31) (hlen : payload.length=n)
    (hi : c.incoming=lengthPrefix n++payload++rest) :
    c.handleData true reads=some (.success,{c with
      incoming := rest
      received := c.received++lengthPrefix n++payload
      handled := c.handled++[payload]}) := by
  obtain ⟨pieces,rfl,hp⟩ := hs
  have hbuffer : c.rxBuffer.buffer=none := by rw [hc]; rfl
  have hlength : getMessageLen (lengthPrefix n)=.ofNat n := getMessageLen_lengthPrefix n
  have hheader := recv_eq (c := c) (n := 4) (k := 4) (by omega) (Nat.le_refl 4)
    (show (lengthPrefix n).length=4 from rfl) (by rw [hi,List.append_assoc])
  simp only [handleData,hbuffer,readHeader]
  rw [show (4 : Int)=((4 : Nat) : Int) from rfl,hheader]
  simp only [if_true,hlength]
  rw [if_neg (by omega)]
  have hpieces := fun c' => @readPayload_pieces n pieces hp c' [] payload rest
  rw [hpieces _ rfl rfl (by simp [UInt32.toNat_ofNat']; omega) (by simpa using hmax) hlen rfl]
  simp [hc]

/-- What a call of `cc_transport_send` puts on the connection. -/
def frame (buffer : Bytes) : Bytes := lengthPrefix (buffer.length-4)++buffer.drop 4

/-- A buffer the sender can pass on, and reads of its frame. -/
def Fits (buffer : Bytes) (reads : List Int) : Prop :=
  5 ≤ buffer.length ∧ buffer.length<2^31 ∧ Splits (buffer.length-4) reads

theorem map_transportSend {buffers : List Bytes} {reads : List (List Int)}
    (h : List.Forall₂ Fits buffers reads) :
    buffers.map transportSend=(buffers.map frame).map some := by
  induction h with
  | nil => simp
  | @cons buffer read buffers reads hb _ ih =>
    have hlow : 4 ≤ buffer.length := by
      have := hb.1
      omega
    simp only [List.map_cons,ih,transportSend_eq buffer hlow hb.2.1,frame]

theorem runs_frames {buffers : List Bytes} {reads : List (List Int)}
    (h : List.Forall₂ Fits buffers reads) {c : TransportClient} {rest : Bytes}
    (hc : c.rxBuffer=.empty) (hi : c.incoming=(buffers.map frame).flatten++rest) :
    ∃ d, Runs step (fun _ _ => True) c (reads.map (.handleData true)) d ∧
      d.handled=c.handled++buffers.map (List.drop 4) ∧ d.rxBuffer=.empty ∧ d.incoming=rest := by
  induction h generalizing c with
  | nil => exact ⟨c,.nil c,by simp,hc,by simpa using hi⟩
  | @cons buffer read buffers reads hb _ ih =>
    obtain ⟨-,hmax,hs⟩ := hb
    have hfront : c.incoming=lengthPrefix (buffer.length-4)++buffer.drop 4++
        ((buffers.map frame).flatten++rest) := by
      simp [hi,frame]
    have hcall := handleData_frame hs hc (by omega) (by simp) hfront
    have hafter : {c with
        incoming := (buffers.map frame).flatten++rest
        received := c.received++lengthPrefix (buffer.length-4)++buffer.drop 4
        handled := c.handled++[buffer.drop 4]}.rxBuffer=.empty := hc
    obtain ⟨d,hr,hd,hempty,hrest⟩ := ih hafter rfl
    refine ⟨d,.cons trivial ?_ hr,?_,hempty,hrest⟩
    · simp only [step,hcall]
      rfl
    · simp [hd]

/-- Whatever pieces the reads return, the calls of `cc_transport_handle_data` pass on exactly
the payloads sent, one per call and in order, and the receive buffer is empty after each. -/
theorem framing_roundtrip (buffers : List Bytes) (reads : List (List Int))
    (h : List.Forall₂ Fits buffers reads) :
    ∃ frames : List Bytes, buffers.map transportSend=frames.map some ∧
      ∀ k, k ≤ buffers.length → ∃ c,
        Runs step (fun _ _ => True) {fresh with incoming := frames.flatten}
          ((reads.take k).map (.handleData true)) c ∧
        c.handled=(buffers.take k).map (List.drop 4) ∧ c.rxBuffer=.empty ∧
        c.incoming=(frames.drop k).flatten := by
  refine ⟨buffers.map frame,?_,?_⟩
  · exact map_transportSend h
  · intro k hk
    have htake : List.Forall₂ Fits (buffers.take k) (reads.take k) := List.forall₂_take k h
    have hsplit : (buffers.map frame).flatten=
        ((buffers.take k).map frame).flatten++((buffers.map frame).drop k).flatten := by
      rw [← List.flatten_append,List.map_take,List.take_append_drop]
    obtain ⟨c,hr,hc,hempty,hrest⟩ := runs_frames htake
      (c := {fresh with incoming := (buffers.map frame).flatten}) rfl hsplit
    exact ⟨c,hr,by simpa [fresh] using hc,hempty,hrest⟩

theorem framing_roundtrip_two_messages :
    ∃ frames : List Bytes, [[0,0,0,0,1,2,3],[0,0,0,0,9]].map transportSend=frames.map some ∧
      ∃ c, Runs step (fun _ _ => True) {fresh with incoming := frames.flatten}
          [.handleData true [4,1,2],.handleData true [4,1]] c ∧
        c.handled=[[1,2,3],[9]] ∧ c.rxBuffer=.empty ∧ c.incoming=[] := by
  have hfirst : Fits [0,0,0,0,1,2,3] [4,1,2] :=
    ⟨by decide,by decide,[1,2],rfl,.more (k := 1) (by decide) (by decide) (.last (by decide))⟩
  have hsecond : Fits [0,0,0,0,9] [4,1] := ⟨by decide,by decide,[1],rfl,.last (by decide)⟩
  obtain ⟨frames,hf,hk⟩ := framing_roundtrip [[0,0,0,0,1,2,3],[0,0,0,0,9]] [[4,1,2],[4,1]]
    (.cons hfirst (.cons hsecond .nil))
  have hlen : frames.length=2 := by simpa using congrArg List.length hf.symm
  obtain ⟨c,hr,hc,hempty,hi⟩ := hk 2 (by decide)
  refine ⟨frames,hf,c,hr,hc,hempty,?_⟩
  rw [hi,List.drop_of_length_le (Nat.le_of_eq hlen)]
  rfl

/-- A payload of `2^31-1` bytes has no size as an `int`, and a message whose buffer cannot be
allocated never reaches the handler. -/
theorem framing_breaks :
    transportSend (List.replicate (4+(2^31-1)) 0)=none ∧
    (handleData false [4] {fresh with incoming := [0,0,0,1,9]}).map
      (fun r => (r.1,r.2.handled,r.2.incoming))=some (.fail,[],[9]) := by
  refine ⟨?_,by decide⟩
  have hsize : ((4+(2^31-1) : Nat) : Int).bmod (2^32)=-2^31+3 := by decide
  unfold transportSend
  simp only [List.length_replicate,hsize]
  rw [if_pos (.inl (by decide))]

end TransportClient

end CalvinConstrained
