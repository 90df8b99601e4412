import CalvinConstrained.Runtime.Message
import CalvinConstrained.Runtime.TypedLookup

namespace CalvinConstrained

/-- The string is one of the names, or no comparison over its length takes it for one: it starts
none of them, and continues none of them with a NUL. -/
def Plain (names : List Bytes) (b : Bytes) : Prop :=
  (b ≠ [] ∧ b ∈ names) ∨ ∀ name ∈ names, ¬b <+: name ∧ ¬name++[0] <+: b

instance (names : List Bytes) (b : Bytes) : Decidable (Plain names b) :=
  inferInstanceAs (Decidable (_ ∨ _))

section Tables

variable {γ : Type} {table : List (Bytes × γ)} {t : Text}

/-- A table searched with a comparison over the length of the string gives the entry that has the
string as its name exactly for plain strings. -/
theorem find?_received_iff (hnul : ∀ name ∈ table.map Prod.fst, 0 ∉ name)
    (hfree : ∀ n ∈ table.map Prod.fst, ∀ m ∈ table.map Prod.fst, n ≠ [] → n <+: m → n=m)
    (ht : t.len ≤ t.ptr.length) :
    (table.find? fun c => strncmpEq t.ptr c.1 t.len)=
      table.find? (fun c => decide (c.1 ≠ [] ∧ c.1=t.content)) ↔
        Plain (table.map Prod.fst) t.content := by
  have hhit : ∀ c ∈ table, strncmpEq t.ptr c.1 t.len=true ↔
      t.content <+: c.1 ∨ c.1++[0] <+: t.content :=
    fun c hc => strncmpEq_text (hnul c.1 (List.mem_map_of_mem hc)) ht
  by_cases hname : t.content ≠ [] ∧ t.content ∈ table.map Prod.fst
  · obtain ⟨hne,hmem⟩ := hname
    refine iff_of_true (List.find?_congr fun c hc => ?_) (.inl ⟨hne,hmem⟩)
    rw [Bool.eq_iff_iff,hhit c hc,decide_eq_true_eq]
    constructor
    · rintro (h | h)
      · have heq := hfree _ hmem _ (List.mem_map_of_mem hc) hne h
        exact ⟨heq ▸ hne,heq.symm⟩
      · exact absurd (h.subset (by simp)) (hnul _ hmem)
    · rintro ⟨-,heq⟩
      exact .inl (heq ▸ List.prefix_rfl)
  · have hnone : table.find? (fun c => decide (c.1 ≠ [] ∧ c.1=t.content))=none := by
      rw [List.find?_eq_none]
      intro c hc h
      obtain ⟨hne,heq⟩ := of_decide_eq_true h
      exact hname ⟨heq ▸ hne,heq ▸ List.mem_map_of_mem hc⟩
    rw [hnone,List.find?_eq_none,Plain,or_iff_right hname,List.forall_mem_map]
    refine forall₂_congr fun c hc => ?_
    rw [hhit c hc,not_or]

/-- A comparison over the length of the name. -/
theorem strncmpEq_name {name : Bytes} (hname : 0 ∉ name) :
    strncmpEq t.ptr name name.length=true ↔ name <+: t.ptr := by
  rw [strncmpEq,decide_eq_true_eq,cstr_key hname]
  constructor
  · intro h
    rw [← take_of_cstr_eq h rfl]
    exact List.take_prefix _ _
  · intro h
    rw [← List.prefix_iff_eq_take.mp h,cstr_of_not_mem hname]

end Tables

namespace Top

variable (mp : Msgpuck)

/-- The entry of the table that is called for a command. -/
def called (cmd : Text) : Option (Bytes × (Bytes → Top mp Result)) :=
  (commandHandlers mp).find? fun c => strncmpEq cmd.ptr c.1 cmd.len

/-- The entry that has the command as its name. -/
def named (cmd : Bytes) : Option (Bytes × (Bytes → Top mp Result)) :=
  (commandHandlers mp).find? fun c => decide (c.1 ≠ [] ∧ c.1=cmd)

/-- What `cc_proto_parse_message` does once an entry is found, or none. -/
def answer (data : Bytes) : Option (Bytes × (Bytes → Top mp Result)) → Top mp Result
  | some c => c.2 data
  | none => do
      let some tmp ← Flow.toTop (Flow.text mp data "msg_uuid") | return .fail
      let msgUuid ← Prog.ofOption (tmp.copy uuidBufferSize)
      let some fromRtUuid ← Flow.toTop (Flow.text mp data "from_rt_uuid") | return .fail
      Flow.toTop (Flow.host (Atom.send (.reply msgUuid fromRtUuid.content 500)))

end Top

/-- The messages through a tunnel that are no replies. -/
inductive TunnelCommand
  | tokenReply
  | token
  | destroy
  deriving DecidableEq

namespace TunnelCommand

def name : TunnelCommand → Bytes
  | .tokenReply => ascii "TOKEN_REPLY"
  | .token => ascii "TOKEN"
  | .destroy => ascii "DESTROY"

/-- The comparisons of `cc_proto_parse_tunnel_data`. -/
def called (cmd : Text) : Option TunnelCommand :=
  if strncmpEq cmd.ptr (ascii "TOKEN_REPLY") 11 then some .tokenReply
  else if strncmpEq cmd.ptr (ascii "TOKEN") 5 then some .token
  else if strncmpEq cmd.ptr (ascii "DESTROY") 7 then some .destroy
  else none

def named (cmd : Bytes) : Option TunnelCommand :=
  [tokenReply,token,destroy].find? fun c => decide (c.name=cmd)

def answer (mp : Msgpuck) (root : Bytes) : Option TunnelCommand → Top mp Result
  | some .tokenReply => Flow.toTop (Flow.parseTokenReply mp root)
  | some .token => Flow.toTop (Flow.parseToken mp root)
  | some .destroy => Flow.toTop (Flow.parseDestroy mp root)
  | none => return .fail

/-- The string is a command and is not read on to a longer one, or what stands in its place starts
no command. -/
def Plain (cmd : Text) : Prop :=
  cmd.content=ascii "TOKEN_REPLY" ∨ cmd.content=ascii "DESTROY" ∨
  (cmd.content=ascii "TOKEN" ∧ ¬ascii "TOKEN_REPLY" <+: cmd.ptr) ∨
  (¬ascii "TOKEN" <+: cmd.ptr ∧ ¬ascii "DESTROY" <+: cmd.ptr)

instance (cmd : Text) : Decidable (Plain cmd) := inferInstanceAs (Decidable (_ ∨ _ ∨ _ ∨ _))

end TunnelCommand

namespace PortReplyType

/-- The statuses of `proto_parse_token_reply`, in their order. -/
def names : List (Bytes × PortReplyType) :=
  [(ascii "ACK",.ack),(ascii "NACK",.nack),(ascii "ABORT",.abort)]

def called (status : Text) : Option (Bytes × PortReplyType) :=
  names.find? fun c => strncmpEq status.ptr c.1 status.len

def named (status : Bytes) : Option (Bytes × PortReplyType) :=
  names.find? fun c => decide (c.1 ≠ [] ∧ c.1=status)

def answer (mp : Msgpuck) (portId : Text) (sequencenbr : UInt32) :
    Option (Bytes × PortReplyType) → Flow mp Result
  | some c => do
      Flow.handleTokenReply mp portId c.2 sequencenbr
      return .success
  | none => return .fail

end PortReplyType

section Programs

variable {mp : Msgpuck} {s : Node}

theorem toTop_text {r : Bytes} {key : String} {x : Option Text}
    (h : Coder.decodeStringFromMap mp r (ascii key)=some x) :
    Flow.toTop (Flow.text mp r key)=pure x := by
  rw [Flow.text,h]
  rfl

theorem toTop_value {r : Bytes} {key : String} {x : Option Bytes}
    (h : Coder.getValueFromMap mp r (ascii key)=some x) :
    Flow.toTop (Flow.value mp r key)=pure x := by
  rw [Flow.value,h]
  rfl

theorem parseMessage_called {client : Transport} (hs : s.host.transport=some client)
    (hclient : client.state=.enabled) {data : Bytes} {cmd : Text}
    (hcmd : Coder.decodeStringFromMap mp data (ascii "cmd")=some (some cmd)) :
    (Top.parseMessage mp data).run s=(Top.answer mp data (Top.called mp cmd)).run s := by
  rw [Top.parseMessage,Prog.run_bind_of_quiet (a := s) rfl,hs]
  dsimp only
  rw [if_neg (by simp [hclient]),toTop_text hcmd,Prog.pure_bind]
  change Prog.run (match Top.called mp cmd with | some c => c.2 data | none => _) s=_
  cases Top.called mp cmd with
  | none => rfl
  | some c => rfl

theorem parseTunnelData_called {root v : Bytes} {cmd : Text}
    (hv : Coder.getValueFromMap mp root (ascii "value")=some (some v))
    (hmsg : Coder.hasKey mp v (ascii "msg_uuid")=some false)
    (hhas : Coder.hasKey mp v (ascii "cmd")=some true)
    (hcmd : Coder.decodeStringFromMap mp v (ascii "cmd")=some (some cmd)) :
    Top.parseTunnelData mp root=TunnelCommand.answer mp root (TunnelCommand.called cmd) := by
  rw [Top.parseTunnelData,toTop_value hv,Prog.pure_bind]
  dsimp only
  rw [Prog.bind_ofOption hmsg,if_neg (by simp),Prog.bind_ofOption hhas,if_pos rfl,toTop_text hcmd,
    Prog.pure_bind]
  dsimp only
  unfold TunnelCommand.called
  split_ifs <;> rfl

theorem parseTokenReply_called {root v : Bytes} {portId status : Text} {sequencenbr : UInt32}
    (hv : Coder.getValueFromMap mp root (ascii "value")=some (some v))
    (hport : Coder.decodeStringFromMap mp v (ascii "port_id")=some (some portId))
    (hstatus : Coder.decodeStringFromMap mp v (ascii "value")=some (some status))
    (hnumber : Coder.decodeUintFromMap mp v (ascii "sequencenbr")=some (some sequencenbr)) :
    Flow.parseTokenReply mp root=
      PortReplyType.answer mp portId sequencenbr (PortReplyType.called status) := by
  simp only [Flow.parseTokenReply,Flow.bind_value hv,Flow.bind_text hport,Flow.bind_text hstatus]
  rw [Flow.number,hnumber,Prog.ofOption,Prog.pure_bind]
  dsimp only
  unfold PortReplyType.called PortReplyType.names
  split_ifs <;> simp_all [PortReplyType.answer]

end Programs

/-- The command of a message is handled by the entry called, which is the one it names. -/
structure ExactCommand (mp : Msgpuck) (s : Node) (cmd : Text) : Prop where
  handled : ∀ data, Coder.decodeStringFromMap mp data (ascii "cmd")=some (some cmd) →
    (Top.parseMessage mp data).run s=(Top.answer mp data (Top.called mp cmd)).run s
  exact : Top.called mp cmd=Top.named mp cmd.content

/-- The command of tunnel data that is no reply is handled as the one it names. -/
structure ExactTunnelCommand (mp : Msgpuck) (cmd : Text) : Prop where
  handled : ∀ root v, Coder.getValueFromMap mp root (ascii "value")=some (some v) →
    Coder.hasKey mp v (ascii "msg_uuid")=some false →
    Coder.hasKey mp v (ascii "cmd")=some true →
    Coder.decodeStringFromMap mp v (ascii "cmd")=some (some cmd) →
    Top.parseTunnelData mp root=TunnelCommand.answer mp root (TunnelCommand.called cmd)
  exact : TunnelCommand.called cmd=TunnelCommand.named cmd.content

/-- The status of a reply to a token is handled as the one it names. -/
structure ExactStatus (mp : Msgpuck) (status : Text) : Prop where
  handled : ∀ root v portId sequencenbr,
    Coder.getValueFromMap mp root (ascii "value")=some (some v) →
    Coder.decodeStringFromMap mp v (ascii "port_id")=some (some portId) →
    Coder.decodeStringFromMap mp v (ascii "value")=some (some status) →
    Coder.decodeUintFromMap mp v (ascii "sequencenbr")=some (some sequencenbr) →
    Flow.parseTokenReply mp root=
      PortReplyType.answer mp portId sequencenbr (PortReplyType.called status)
  exact : PortReplyType.called status=PortReplyType.named status.content

/-- The names of the command table, with the empty one of its unfilled entry. -/
def commandNames : List Bytes :=
  [ascii "REPLY",ascii "TUNNEL_DATA",ascii "ACTOR_NEW",ascii "APP_DESTROY",ascii "PORT_DISCONNECT",
    ascii "PORT_CONNECT",ascii "TUNNEL_NEW",ascii "ACTOR_MIGRATE",[]]

section Exact

variable {mp : Msgpuck} {cmd : Text} (hcmd : cmd.len ≤ cmd.ptr.length)

include hcmd

theorem command_exact_iff {s : Node} {client : Transport} (hs : s.host.transport=some client)
    (hclient : client.state=.enabled) :
    ExactCommand mp s cmd ↔ Plain commandNames cmd.content := by
  have hnames : (Top.commandHandlers mp).map Prod.fst=commandNames := rfl
  have hiff : Top.called mp cmd=Top.named mp cmd.content ↔
      Plain ((Top.commandHandlers mp).map Prod.fst) cmd.content :=
    find?_received_iff (by rw [hnames]; decide) (by rw [hnames]; decide) hcmd
  rw [← hnames,← hiff]
  exact ⟨fun h => h.exact,fun h => ⟨fun _ hdata => parseMessage_called hs hclient hdata,h⟩⟩

theorem status_exact_iff :
    ExactStatus mp cmd ↔ Plain (PortReplyType.names.map Prod.fst) cmd.content := by
  have hiff : PortReplyType.called cmd=PortReplyType.named cmd.content ↔
      Plain (PortReplyType.names.map Prod.fst) cmd.content :=
    find?_received_iff (by decide) (by decide) hcmd
  rw [← hiff]
  exact ⟨fun h => h.exact,
    fun h => ⟨fun _ _ _ _ hv hport hst hn => parseTokenReply_called hv hport hst hn,h⟩⟩

omit hcmd

theorem prefix_exclusive {a b c : Bytes} (hab : ¬a <+: b) (hba : ¬b <+: a) (ha : a <+: c) :
    ¬b <+: c := by
  intro hb
  obtain h | h := List.prefix_or_prefix_of_prefix ha hb
  · exact hab h
  · exact hba h

theorem TunnelCommand.some_eq_named {b : Bytes} {c : TunnelCommand} :
    some c=named b ↔ b=c.name := by
  constructor
  · intro h
    have hname := List.find?_some h.symm
    exact (of_decide_eq_true hname).symm
  · rintro rfl
    cases c <;> decide

theorem TunnelCommand.none_eq_named {b : Bytes} : none=named b ↔ ∀ c : TunnelCommand, b ≠ c.name := by
  constructor
  · rintro h c rfl
    rw [← some_eq_named.mpr rfl] at h
    cases h
  · intro h
    cases hn : named b with
    | none => rfl
    | some c => exact absurd (some_eq_named.mp hn.symm) (h c)

theorem tunnelCommand_exact_iff : ExactTunnelCommand mp cmd ↔ TunnelCommand.Plain cmd := by
  have hcontent : ∀ {name : Bytes}, cmd.content=name → name <+: cmd.ptr :=
    fun h => h ▸ List.take_prefix _ _
  have hreply : strncmpEq cmd.ptr (ascii "TOKEN_REPLY") 11=true ↔ ascii "TOKEN_REPLY" <+: cmd.ptr :=
    strncmpEq_name (by decide)
  have htoken : strncmpEq cmd.ptr (ascii "TOKEN") 5=true ↔ ascii "TOKEN" <+: cmd.ptr :=
    strncmpEq_name (by decide)
  have hdestroy : strncmpEq cmd.ptr (ascii "DESTROY") 7=true ↔ ascii "DESTROY" <+: cmd.ptr :=
    strncmpEq_name (by decide)
  have hexact : ExactTunnelCommand mp cmd ↔
      TunnelCommand.called cmd=TunnelCommand.named cmd.content :=
    ⟨fun h => h.exact,fun h => ⟨fun _ _ hv hmsg hhas h => parseTunnelData_called hv hmsg hhas h,h⟩⟩
  rw [hexact]
  unfold TunnelCommand.called TunnelCommand.Plain
  simp only [hreply,htoken,hdestroy]
  by_cases h₁ : ascii "TOKEN_REPLY" <+: cmd.ptr
  · have h₂ : ascii "TOKEN" <+: cmd.ptr := .trans (by decide) h₁
    have h₃ : ¬ascii "DESTROY" <+: cmd.ptr := prefix_exclusive (by decide) (by decide) h₁
    have hno : cmd.content ≠ ascii "DESTROY" := fun h => h₃ (hcontent h)
    simp [h₁,h₂,hno,TunnelCommand.some_eq_named,TunnelCommand.name]
  · have hno : cmd.content ≠ ascii "TOKEN_REPLY" := fun h => h₁ (hcontent h)
    by_cases h₂ : ascii "TOKEN" <+: cmd.ptr
    · have h₃ : ¬ascii "DESTROY" <+: cmd.ptr := prefix_exclusive (by decide) (by decide) h₂
      have hno' : cmd.content ≠ ascii "DESTROY" := fun h => h₃ (hcontent h)
      simp [h₁,h₂,hno,hno',TunnelCommand.some_eq_named,TunnelCommand.name]
    · have hno' : cmd.content ≠ ascii "TOKEN" := fun h => h₂ (hcontent h)
      by_cases h₃ : ascii "DESTROY" <+: cmd.ptr
      · simp [h₁,h₂,h₃,hno,hno',TunnelCommand.some_eq_named,TunnelCommand.name]
      · simp only [h₁,h₂,h₃,if_false,not_false_eq_true,and_self,or_true,iff_true]
        rw [TunnelCommand.none_eq_named]
        intro c hc
        cases c with
        | tokenReply => exact hno hc
        | token => exact hno' hc
        | destroy => exact h₃ (hcontent hc)

end Exact

/-- The command of a message, the command of tunnel data and the status of a reply to a token are
handled as what they name exactly when they are plain. -/
theorem dispatch_exact_iff (mp : Msgpuck) {s : Node} {client : Transport}
    (hs : s.host.transport=some client) (hclient : client.state=.enabled)
    (cmd tunnelCmd status : Text) (hcmd : cmd.len ≤ cmd.ptr.length)
    (hstatus : status.len ≤ status.ptr.length) :
    (ExactCommand mp s cmd ↔ Plain commandNames cmd.content) ∧
    (ExactTunnelCommand mp tunnelCmd ↔ TunnelCommand.Plain tunnelCmd) ∧
    (ExactStatus mp status ↔ Plain (PortReplyType.names.map Prod.fst) status.content) :=
  ⟨command_exact_iff hcmd hs hclient,tunnelCommand_exact_iff,status_exact_iff hstatus⟩

/-- A node whose transport is enabled. -/
def enabledNode : Node := .init {bareHost with transport := some ⟨.enabled,ascii "px"⟩}

theorem dispatch_exact_names :
    ExactCommand msgpack enabledNode (.ofString (ascii "ACTOR_NEW")) ∧
    ExactTunnelCommand msgpack (.ofString (ascii "TOKEN")) ∧
    ExactStatus msgpack (.ofString (ascii "NACK")) := by
  obtain ⟨hcmd,htunnel,hstatus⟩ := dispatch_exact_iff msgpack (s := enabledNode) rfl rfl
    (.ofString (ascii "ACTOR_NEW")) (.ofString (ascii "TOKEN")) (.ofString (ascii "NACK"))
    (by decide) (by decide)
  exact ⟨hcmd.mpr (by decide),htunnel.mpr (by decide),hstatus.mpr (by decide)⟩

/-- A message whose command is a NUL. -/
def nulCommand : Bytes := (Message.obj [("cmd",.raw (msgpack.encodeStr [0]))]).encode msgpack

/-- The unfilled entry is called for a NUL, the first one for an empty command, and a status that
starts with `A` is an acknowledgement. -/
theorem unfilled_command_called :
    Coder.decodeStringFromMap msgpack nulCommand (ascii "cmd")=some (some ⟨[0],1⟩) ∧
    (Top.called msgpack ⟨[0],1⟩).map Prod.fst=some [] ∧
    ((Top.parseMessage msgpack nulCommand).run enabledNode).isNone=true ∧
    ¬ExactCommand msgpack enabledNode ⟨[0],1⟩ ∧
    (Top.called msgpack (.ofString [])).map Prod.fst=some (ascii "REPLY") ∧
    (PortReplyType.called (.ofString (ascii "A"))).map Prod.snd=some .ack := by
  refine ⟨by decide,by decide,by decide +kernel,fun h => ?_,by decide,by decide⟩
  have hnames := congrArg (Option.map Prod.fst) h.exact
  exact absurd hnames (by decide)

end CalvinConstrained
