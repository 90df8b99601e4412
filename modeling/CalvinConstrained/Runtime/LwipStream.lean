import CalvinConstrained.Runtime.Transport

namespace CalvinConstrained

/-- `CC_TRANSPORT_RX_BUFFER_SIZE`. -/
def transportRxBufferSize : Nat := 512

/-- `cc_transport_lwip_rx_buffer_t`: the bytes received and not yet read. -/
structure LwipRxBuffer where
  bytes : Bytes
  length_le : bytes.length ≤ transportRxBufferSize

namespace LwipRxBuffer

def empty : LwipRxBuffer := ⟨[],Nat.zero_le _⟩

/-- `cc_transport_lwip_data_handler` on a packet without error; one that does not fit is dropped. -/
def dataHandler (payload : Bytes) (b : LwipRxBuffer) : LwipRxBuffer :=
  if h : transportRxBufferSize-b.bytes.length<payload.length then b
  else ⟨b.bytes++payload,by
    have hle := b.length_le
    rw [List.length_append]
    omega⟩

/-- `cc_transport_lwip_recv`: the status, what is copied and the buffer. Without data it goes on
waiting. -/
def recv (size : Nat) (b : LwipRxBuffer) : Option (Int × Bytes × LwipRxBuffer) :=
  if b.bytes=[] then none
  else if size<b.bytes.length then some (-1,[],b)
  else some (b.bytes.length,b.bytes,.empty)

end LwipRxBuffer

/-- A connection: the payloads that arrived and the bytes that `recv` returned, in order. -/
structure LwipClient where
  rxBuffer : LwipRxBuffer
  arrived : Bytes
  returned : Bytes

inductive LwipEvent
  | packet (payload : Bytes)
  | recv (size : Nat)

namespace LwipClient

def fresh : LwipClient := ⟨.empty,[],[]⟩

def step : LwipEvent → LwipClient → Option LwipClient
  | .packet payload,c =>
      some {c with rxBuffer := c.rxBuffer.dataHandler payload,arrived := c.arrived++payload}
  | .recv size,c =>
      (c.rxBuffer.recv size).map fun r =>
        {c with rxBuffer := r.2.2,returned := c.returned++r.2.1}

/-- A packet fits behind what is not yet read. -/
def Fits : LwipEvent → LwipClient → Prop
  | .packet payload,c => c.rxBuffer.bytes.length+payload.length ≤ transportRxBufferSize
  | .recv _,_ => True

/-- A read returns at least one byte. -/
def Returns : LwipEvent → LwipClient → Prop
  | .packet _,_ => True
  | .recv size,c => ∀ r ∈ c.rxBuffer.recv size, 1 ≤ r.1

/-- A read asks for at least as much as there is. -/
def AsksForAll : LwipEvent → LwipClient → Prop
  | .packet _,_ => True
  | .recv size,c => c.rxBuffer.bytes.length ≤ size

/-- The bytes returned are the first that arrived, and the others are still there. -/
structure Delivers (c : LwipClient) : Prop where
  before : c.returned <+: c.arrived
  kept : c.arrived=c.returned++c.rxBuffer.bytes

variable {c d : LwipClient}

theorem delivers_fresh : fresh.Delivers := ⟨List.prefix_rfl,rfl⟩

/-- A read that is refused leaves everything in place, so nothing gets lost or out of order. -/
theorem delivers_step {e : LwipEvent} (hfits : Fits e c) (hs : step e c=some d) (hc : c.Delivers) :
    d.Delivers := by
  have hkept := hc.kept
  cases e with
  | packet payload =>
    cases hs
    have hroom : ¬transportRxBufferSize-c.rxBuffer.bytes.length<payload.length := by
      have hle : c.rxBuffer.bytes.length+payload.length ≤ transportRxBufferSize := hfits
      omega
    have hbytes : (c.rxBuffer.dataHandler payload).bytes=c.rxBuffer.bytes++payload := by
      rw [LwipRxBuffer.dataHandler,dif_neg hroom]
    refine ⟨hc.before.trans (List.prefix_append _ _),?_⟩
    rw [hbytes,hkept,List.append_assoc]
  | recv size =>
    obtain ⟨r,hr,rfl⟩ := Option.map_eq_some_iff.mp hs
    rw [LwipRxBuffer.recv] at hr
    split at hr
    · cases hr
    · split at hr <;> cases hr
      · exact ⟨by simpa using hc.before,by simpa using hkept⟩
      · exact ⟨⟨[],by simpa using hkept.symm⟩,by simpa [LwipRxBuffer.empty] using hkept⟩

theorem returns_iff {e : LwipEvent} (hs : step e c=some d) : Returns e c ↔ AsksForAll e c := by
  cases e with
  | packet payload => exact Iff.rfl
  | recv size =>
    obtain ⟨r,hr,-⟩ := Option.map_eq_some_iff.mp hs
    rw [Returns,AsksForAll]
    rw [LwipRxBuffer.recv] at hr ⊢
    split at hr
    · cases hr
    · next hdata =>
      have hpos : 0<c.rxBuffer.bytes.length := List.length_pos_iff.mpr hdata
      rw [if_neg hdata]
      split
      · next hless =>
        simp only [Option.mem_some_iff,forall_eq']
        omega
      · next hless =>
        simp only [Option.mem_some_iff,forall_eq']
        omega

/-- The connection delivers the bytes it received, with something for every read, exactly when
every read asks for all there is. -/
theorem delivers_iff {es : List LwipEvent} (hr : Runs step Fits c es d) (hc : c.Delivers) :
    (Runs step (fun e u => u.Delivers ∧ Returns e u) c es d ∧ d.Delivers) ↔
      Runs step AsksForAll c es d := by
  induction hr with
  | nil c => exact iff_of_true ⟨.nil c,hc⟩ (.nil c)
  | cons hfits hs _ ih =>
    have hnext := delivers_step hfits hs hc
    constructor
    · intro h
      obtain ⟨hrun,hd⟩ := h
      cases hrun with
      | cons hok hs' hrest =>
        cases hs.symm.trans hs'
        exact .cons ((returns_iff hs).mp hok.2) hs ((ih hnext).mp ⟨hrest,hd⟩)
    · intro h
      cases h with
      | cons hok hs' hrest =>
        cases hs.symm.trans hs'
        obtain ⟨hrun,hd⟩ := (ih hnext).mpr hrest
        exact ⟨.cons ⟨hc,(returns_iff hs).mpr hok⟩ hs hrun,hd⟩

/-- The stream of a connection from its start. -/
theorem stream_delivered_iff (es : List LwipEvent) (d : LwipClient)
    (hr : Runs step Fits fresh es d) :
    (Runs step (fun e u => u.Delivers ∧ Returns e u) fresh es d ∧ d.Delivers) ↔
      Runs step AsksForAll fresh es d := delivers_iff hr delivers_fresh

/-- A header that arrives on its own is read, and so is the payload behind it. -/
theorem stream_delivered_split :
    let es := [LwipEvent.packet [0,0,0,1],.recv 4,.packet [42],.recv 1]
    Runs step (fun e u => u.Delivers ∧ Returns e u) fresh es ⟨.empty,[0,0,0,1,42],[0,0,0,1,42]⟩ := by
  have hruns : ∀ ok : LwipEvent → LwipClient → Prop,
      ok (.packet [0,0,0,1]) fresh →
      ok (.recv 4) ⟨⟨[0,0,0,1],by decide⟩,[0,0,0,1],[]⟩ →
      ok (.packet [42]) ⟨.empty,[0,0,0,1],[0,0,0,1]⟩ →
      ok (.recv 1) ⟨⟨[42],by decide⟩,[0,0,0,1,42],[0,0,0,1]⟩ →
      Runs step ok fresh [.packet [0,0,0,1],.recv 4,.packet [42],.recv 1]
        ⟨.empty,[0,0,0,1,42],[0,0,0,1,42]⟩ :=
    fun ok h₁ h₂ h₃ h₄ => .cons h₁ rfl (.cons h₂ rfl (.cons h₃ rfl (.cons h₄ rfl (.nil _))))
  exact ((stream_delivered_iff _ _ (hruns Fits (by simp [Fits,fresh,LwipRxBuffer.empty,
    transportRxBufferSize]) trivial (by simp [Fits,LwipRxBuffer.empty,transportRxBufferSize])
    trivial)).mpr (hruns AsksForAll trivial (by simp [AsksForAll]) trivial
      (by simp [AsksForAll]))).1

/-- A packet that carries a header and its payload: the read of the header is refused, and
`cc_transport_handle_data` gives up. -/
theorem stream_not_delivered :
    Runs step Fits fresh [.packet [0,0,0,1,42],.recv 4] ⟨⟨[0,0,0,1,42],by decide⟩,[0,0,0,1,42],[]⟩ ∧
      ¬Runs step (fun e u => u.Delivers ∧ Returns e u) fresh [.packet [0,0,0,1,42],.recv 4]
        ⟨⟨[0,0,0,1,42],by decide⟩,[0,0,0,1,42],[]⟩ ∧
      (TransportClient.fresh.handleData true [-1]).map Prod.fst=some .fail := by
  have hruns : Runs step Fits fresh [.packet [0,0,0,1,42],.recv 4]
      ⟨⟨[0,0,0,1,42],by decide⟩,[0,0,0,1,42],[]⟩ :=
    .cons (by simp [Fits,fresh,LwipRxBuffer.empty,transportRxBufferSize]) rfl
      (.cons trivial rfl (.nil _))
  refine ⟨hruns,fun h => ?_,by decide⟩
  cases h with
  | cons _ hs h =>
    cases hs
    cases h with
    | cons hok _ _ =>
      have hret := hok.2
      revert hret
      simp [Returns,fresh,LwipRxBuffer.dataHandler,LwipRxBuffer.empty,LwipRxBuffer.recv,
        transportRxBufferSize]

end LwipClient

end CalvinConstrained
