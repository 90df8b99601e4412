import CalvinConstrained.Runtime.Fifo
import CalvinConstrained.Runtime.MpyRoundTrip
import CalvinConstrained.Runtime.TypedLookup

namespace CalvinConstrained

/-- A port as Python code reaches it. -/
structure NamedFifo where
  name : Bytes
  fifo : Fifo Bytes
  deriving DecidableEq

/-- The two port lists of an actor. -/
@[ext] structure MpyPorts where
  inPorts : List NamedFifo
  outPorts : List NamedFifo
  deriving DecidableEq

/-- A value that an action returns, `None` apart: what `len` gives, or `none` where it raises, and
what iterating gives, or `none` where it cannot be iterated; a `none` inside raises, too. -/
structure Production where
  length : Option Nat
  iter : Option (List (Option PyObj))

/-- How a call of an action ends. -/
inductive ActionResult
  | raised
  | none
  | value (production : Production)

/-- `if production is None: production = []`; there is nothing where the action raised. -/
def ActionResult.production : ActionResult → Option Production
  | .raised => Option.none
  | .none => some ⟨some 0,some []⟩
  | .value production => some production

/-- What a wrapper hands to `fire`: the tuple, or an exception. -/
inductive FireReport
  | returned (didFire outputOk : Bool) (exhausted : List Bytes)
  | raised
  deriving DecidableEq

def FireReport.didFire : FireReport → Bool
  | .returned didFire _ _ => didFire
  | .raised => false

namespace MpyPort

/-- The test of `cc_port_get_from_name` with the length of the name. -/
def named (name : Bytes) (p : NamedFifo) : Bool := strncmpEq p.name name (cstr name).length

/-- The fifo of the port that `cc_port_get_from_name` finds. -/
def fifo (name : Bytes) : List NamedFifo → Option (Fifo Bytes)
  | [] => none
  | p::ps => if named name p then some p.fifo else fifo name ps

/-- A change of that fifo. -/
def update (name : Bytes) (f : Fifo Bytes → Fifo Bytes) : List NamedFifo → List NamedFifo
  | [] => []
  | p::ps => if named name p then {p with fifo := f p.fifo}::ps else p::update name f ps

def updateAll (f : Fifo Bytes → Fifo Bytes) : List Bytes → List NamedFifo → List NamedFifo
  | [],ps => ps
  | name::names,ps => updateAll f names (update name f ps)

/-- `ccmp_tokens_available` for one token. -/
def tokensAvailable (ps : List NamedFifo) (name : Bytes) : Bool :=
  (fifo name ps).any fun f => f.tokensAvailable 1

/-- `ccmp_slots_available` for one slot. -/
def slotsAvailable (ps : List NamedFifo) (name : Bytes) : Bool :=
  (fifo name ps).any fun f => f.slotsAvailable 1

variable (py : MicroPython) (mp : MsgpuckScalars)

/-- What `ccmp_peek_token` makes of a decoded token: `None` where it cannot be decoded, and nothing
after an exception. -/
def handed : Except MpyError PyObj → Option PyObj
  | .ok v => some v
  | .error .fail => some .none
  | .error .raised => none

/-- The value of the next token, which is nested no deeper than it has bytes. Without a port it is
`None`; a slot without a value is undefined. -/
def peekedValue (ps : List NamedFifo) (name : Bytes) : Option (Option PyObj) :=
  match fifo name ps with
  | none => some (some .none)
  | some f =>
    (f.peek.1.bind fun token => py.decodeToMpyObj mp (token.length+1) token).map handed

/-- `ccmp_peek_token`. -/
def peekToken (ps : List NamedFifo) (name : Bytes) : Option (Option PyObj × List NamedFifo) :=
  (peekedValue py mp ps name).map fun v => (v,update name (fun f => f.peek.2) ps)

/-- The loop over the inputs; no values when a peek raises. -/
def peekTokens : List Bytes → List NamedFifo → Option (Option (List PyObj) × List NamedFifo)
  | [],ps => some (some [],ps)
  | name::names,ps => do
    let (v,ps) ← peekToken py mp ps name
    let some v := v | return (none,ps)
    let (vs,ps) ← peekTokens names ps
    return (vs.map (v::·),ps)

/-- The bytes that are allocated for an object that is encoded on its own, where they need not be as
many as are written. -/
def bufferSize : PyObj → Option Nat
  | .str s => some ((mp.encodeStr (clip (cstr s))).length%2^32)
  | .bytes b => some ((b.length+10)%2^32)
  | .list _ => some 200
  | .dict _ => some 10000
  | _ => none

/-- A failed allocation. The value and the size of an int that is not a small one come first. -/
def unallocated : PyObj → Option (Except MpyError Bytes)
  | .int i =>
    if py.isSmallInt i then some (.error .fail)
    else if !py.isMachineInt i then some (.error .raised)
    else (mp.encodeInt (i.bmod (2^32))).map fun _ => .error .fail
  | _ => some (.error .fail)

/-- A list or a dict with an item that cannot be encoded: what is freed is the address of the pointer
to the buffer. -/
def freesPointer : PyObj → Except MpyError (Nat × Memory) → Bool
  | .list _,.error .fail => true
  | .dict _,.error .fail => true
  | _,_ => false

/-- `cc_mpy_encode_from_mpy_obj` into a buffer of its own, which is `none` where the allocation
fails. A dict gets cleared memory. -/
def encodeAlloc (v : PyObj) (buffer : Option Memory) : Option (Except MpyError Bytes) := do
  let some mem := buffer | unallocated py mp v
  let mem := match v with
    | .dict _ => fun _ => 0
    | _ => mem
  let result ← py.encodeFromMpyObj mp (bufferSize mp v) v 0 0 mem
  if freesPointer v result then none
  else return result.map fun (size,mem) => (List.range size).map mem

/-- What `ccmp_write_token` does once the value is encoded; it logs a failure, and `false` is an
exception. -/
def written (name : Bytes) (ps : List NamedFifo) : Except MpyError Bytes → Bool × List NamedFifo
  | .ok token => (true,update name (fun f => (f.write token).2) ps)
  | .error .fail => (true,ps)
  | .error .raised => (false,ps)

/-- `ccmp_write_token`. -/
def writeToken (ps : List NamedFifo) (name : Bytes) (v : PyObj) (buffer : Option Memory) :
    Option (Bool × List NamedFifo) :=
  match fifo name ps with
  | none => some (true,ps)
  | some _ => (encodeAlloc py mp v buffer).map (written name ps)

/-- The loop over `zip(action_output, production)`; `false` when the production or a write raises. -/
def writeTokens : List Bytes → List (Option PyObj) → (Nat → Option Memory) → List NamedFifo →
    Option (Bool × List NamedFifo)
  | [],_,_,ps => some (true,ps)
  | _::_,[],_,ps => some (true,ps)
  | _::_,none::_,_,ps => some (false,ps)
  | name::names,some v::vs,buffers,ps => do
    let (done,ps) ← writeToken py mp ps name v (buffers 0)
    if done then writeTokens names vs (fun i => buffers (i+1)) ps else return (false,ps)

/-- `condition_wrapper`. -/
def conditionWrapper (actionInput actionOutput : List Bytes) (action : List PyObj → ActionResult)
    (buffers : Nat → Option Memory) (x : MpyPorts) : Option (FireReport × MpyPorts) :=
  let inputOk := actionInput.all (tokensAvailable x.inPorts)
  let outputOk := actionOutput.all (slotsAvailable x.outPorts)
  if !inputOk || !outputOk then some (.returned false outputOk [],x)
  else do
    let (args,peeked) ← peekTokens py mp actionInput x.inPorts
    let some args := args | return (.raised,{x with inPorts := peeked})
    let some production := (action args).production | return (.raised,{x with inPorts := peeked})
    let some length := production.length | return (.raised,{x with inPorts := peeked})
    if actionOutput.length=length then
      let exhausted := actionInput.filter fun name => (fifo name peeked).isSome
      let x := {x with inPorts := updateAll (fun f => f.commitRead true) actionInput peeked}
      let some values := production.iter | return (.raised,x)
      let (done,outPorts) ← writeTokens py mp actionOutput values buffers x.outPorts
      return (if done then .returned true true exhausted else .raised,{x with outPorts := outPorts})
    else
      return (.raised,{x with inPorts := updateAll Fifo.cancelCommit actionInput peeked})

/-- `guard_wrapper` around a whole firing, where the guard may raise. -/
def guardWrapper (guard : Option Bool) (x : MpyPorts) (wrapped : Option (FireReport × MpyPorts)) :
    Option (FireReport × MpyPorts) :=
  match guard with
  | none => some (.raised,x)
  | some false => some (.returned false true [],x)
  | some true => wrapped

/-- `guard_wrapper` around the action alone: its tuple is then the production. -/
def guardedAction (guard : Option Bool) (action : List PyObj → ActionResult) :
    List PyObj → ActionResult :=
  match guard with
  | none => fun _ => .raised
  | some false => fun _ => .value ⟨some 3,some [some (.bool false),some (.bool true),some .other]⟩
  | some true => action

/-- One token less: the oldest slot is empty and both read positions have moved on. -/
def consumed (f : Fifo Bytes) : Fifo Bytes :=
  {f.setSlot f.readPos none with readPos := f.readPos+1,tentativeReadPos := f.tentativeReadPos+1}

/-- One token more. -/
def appended (f : Fifo Bytes) (token : Bytes) : Fifo Bytes :=
  {f.setSlot f.writePos (some token) with writePos := f.writePos+1}

/-- A firing takes one token from each input and gives one to each output, or leaves everything. -/
def AllOrNothing (actionInput actionOutput : List Bytes) (x y : MpyPorts) (r : FireReport) : Prop :=
  if r.didFire then
    (∀ name ∈ actionInput, ∃ f, fifo name x.inPorts=some f ∧ fifo name y.inPorts=some (consumed f)) ∧
    ∀ name ∈ actionOutput, ∃ f token, fifo name x.outPorts=some f ∧
      fifo name y.outPorts=some (appended f token)
  else y=x

/-- The value that an action gets from an input, where it gets one. -/
def argument (ps : List NamedFifo) (name : Bytes) : Option PyObj := (peekedValue py mp ps name).join

def Encodes (v : PyObj) (buffer : Option Memory) : Prop :=
  ∃ token, encodeAlloc py mp v buffer=some (.ok token)

/-- The first `n` values are there and can be encoded. -/
def Encoded : Nat → List (Option PyObj) → (Nat → Option Memory) → Prop
  | 0,_,_ => True
  | _+1,[],_ => False
  | _+1,none::_,_ => False
  | n+1,some v::vs,buffers => Encodes py mp v (buffers 0) ∧ Encoded n vs (fun i => buffers (i+1))

/-- An exception comes within the first `n` values, and all values before it are refused. -/
def Blank : Nat → List (Option PyObj) → (Nat → Option Memory) → Prop
  | 0,_,_ => False
  | _+1,[],_ => False
  | _+1,none::_,_ => True
  | n+1,some v::vs,buffers => encodeAlloc py mp v (buffers 0)=some (.error .raised) ∨
      encodeAlloc py mp v (buffers 0)=some (.error .fail) ∧ Blank n vs (fun i => buffers (i+1))

/-- The tokens and slots that a firing asks for. -/
def Ready (actionInput actionOutput : List Bytes) (x : MpyPorts) : Prop :=
  (∀ name ∈ actionInput, tokensAvailable x.inPorts name=true) ∧
    ∀ name ∈ actionOutput, slotsAvailable x.outPorts name=true

/-- What the fifos of the inputs satisfy. -/
def Inputs (actionInput : List Bytes) (x : MpyPorts) (p : Fifo Bytes → Prop) : Prop :=
  ∀ name ∈ actionInput, ∀ f, fifo name x.inPorts=some f → p f

/-- A value of the right length is all or nothing when all its items can be encoded and the read
positions do not wrap around. -/
def WritesAll (actionInput actionOutput : List Bytes) (buffers : Nat → Option Memory) (x : MpyPorts)
    (values : List (Option PyObj)) : Prop :=
  Encoded py mp actionOutput.length values buffers ∧
      Inputs actionInput x (fun f => f.readPos<f.tentativeReadPos+1) ∨
    Blank py mp actionOutput.length values buffers ∧ actionInput=[]

/-- Whether what the action does leaves the firing all or nothing. Nothing but a value of the wrong
length gives the tokens back, and only to fifos without tokens that were read before. -/
def Harmless (actionInput actionOutput : List Bytes) (buffers : Nat → Option Memory) (x : MpyPorts)
    (result : ActionResult) : Prop :=
  match result.production with
  | none => actionInput=[]
  | some production =>
    match production.length with
    | none => actionInput=[]
    | some length =>
      if actionOutput.length=length then
        match production.iter with
        | none => actionInput=[]
        | some values => WritesAll py mp actionInput actionOutput buffers x values
      else Inputs actionInput x fun f => f.tentativeReadPos=f.readPos

/-- The names are distinct, and none of them or of the ports is a prefix of another. -/
structure NamesApart (names : List Bytes) (ps : List NamedFifo) : Prop where
  nodup : names.Nodup
  prefixFree : ∀ a ∈ names++ps.map NamedFifo.name, ∀ b ∈ names++ps.map NamedFifo.name,
    cstr a <+: cstr b → a=b

/-- No port is found under two names. -/
def Apart (names : List Bytes) (ps : List NamedFifo) : Prop :=
  ∀ p ∈ ps, ∀ a ∈ names, ∀ b ∈ names, named a p=true → named b p=true → a=b

section Lookup

variable {names : List Bytes} {name other : Bytes} {ps : List NamedFifo}
  {f g : Fifo Bytes → Fifo Bytes}

theorem named_iff {p : NamedFifo} : named name p=true ↔ cstr name <+: cstr p.name := by
  rw [named,strncmpEq,decide_eq_true_eq,cstr_take,cstr_take,List.take_length,eq_comm]
  exact List.prefix_iff_eq_take.symm

theorem NamesApart.apart (h : NamesApart names ps) : Apart names ps := by
  intro p hp a ha b hb hap hbp
  have hmem : p.name ∈ names++ps.map NamedFifo.name :=
    List.mem_append_right _ (List.mem_map_of_mem hp)
  have hap' := h.prefixFree a (List.mem_append_left _ ha) p.name hmem (named_iff.mp hap)
  have hbp' := h.prefixFree b (List.mem_append_left _ hb) p.name hmem (named_iff.mp hbp)
  exact hap'.trans hbp'.symm

theorem Apart.tail (h : Apart (name::names) ps) : Apart names ps :=
  fun p hp a ha b hb => h p hp a (.tail _ ha) b (.tail _ hb)

theorem Apart.ports {p : NamedFifo} (h : Apart names (p::ps)) : Apart names ps :=
  fun q hq => h q (.tail _ hq)

/-- Names are what a lookup goes by, and a change leaves them. -/
theorem Apart.update (h : Apart names ps) (n : Bytes) (f : Fifo Bytes → Fifo Bytes) :
    Apart names (update n f ps) := by
  induction ps with
  | nil => exact h
  | cons p ps ih =>
    rw [MpyPort.update]
    split
    · intro q hq
      rcases List.mem_cons.mp hq with rfl | hq
      · exact h p (.head _)
      · exact h q (.tail _ hq)
    · intro q hq
      rcases List.mem_cons.mp hq with rfl | hq
      · exact h q (.head _)
      · exact ih h.ports q hq

theorem fifo_update_self : fifo name (update name f ps)=(fifo name ps).map f := by
  induction ps with
  | nil => rfl
  | cons p ps ih =>
    cases hp : named name p with
    | true =>
      have hp' : named name {p with fifo := f p.fifo}=true := hp
      simp [update,fifo,hp,hp']
    | false => simpa [update,fifo,hp] using ih

theorem fifo_update_ne (hne : other ≠ name) (h : Apart [other,name] ps) :
    fifo other (update name f ps)=fifo other ps := by
  induction ps with
  | nil => rfl
  | cons p ps ih =>
    cases hp : named name p with
    | true =>
      have ho : named other p=false := by
        by_contra ho
        exact hne (h p (.head _) other (by simp) name (by simp) (by simpa using ho) hp)
      have ho' : named other {p with fifo := f p.fifo}=false := ho
      simp [update,fifo,hp,ho,ho']
    | false =>
      have hrest := ih h.ports
      cases ho : named other p <;> simp [update,fifo,hp,ho,hrest]

theorem update_update : update name f (update name g ps)=update name (f ∘ g) ps := by
  induction ps with
  | nil => rfl
  | cons p ps ih =>
    cases hp : named name p with
    | true =>
      have hp' : named name {p with fifo := g p.fifo}=true := hp
      simp [update,hp,hp']
    | false => simpa [update,hp] using ih

theorem update_comm (hne : other ≠ name) (h : Apart [other,name] ps) :
    update other f (update name g ps)=update name g (update other f ps) := by
  induction ps with
  | nil => rfl
  | cons p ps ih =>
    have hrest := ih h.ports
    cases hp : named name p with
    | true =>
      have ho : named other p=false := by
        by_contra ho
        exact hne (h p (.head _) other (by simp) name (by simp) (by simpa using ho) hp)
      have ho' : named other {p with fifo := g p.fifo}=false := ho
      simp [update,hp,ho,ho']
    | false =>
      cases ho : named other p with
      | true =>
        have hp' : named name {p with fifo := f p.fifo}=false := hp
        simp [update,hp,ho,hp']
      | false => simpa [update,hp,ho] using hrest

theorem update_eq_self (h : ∀ x, fifo name ps=some x → f x=x) : update name f ps=ps := by
  induction ps with
  | nil => rfl
  | cons p ps ih =>
    cases hp : named name p with
    | true =>
      have hf : f p.fifo=p.fifo := h p.fifo (by rw [fifo,if_pos hp])
      simp [update,hp,hf]
    | false =>
      have hrest := ih fun x hx => h x (by rw [fifo,if_neg (by simp [hp]),hx])
      simp [update,hp,hrest]

theorem Apart.pair (h : Apart names ps) {a b : Bytes} (ha : a ∈ names) (hb : b ∈ names) :
    Apart [a,b] ps := by
  have hmem : ∀ c ∈ [a,b], c ∈ names := by simp [ha,hb]
  exact fun p hp c hc d hd => h p hp c (hmem c hc) d (hmem d hd)

theorem updateAll_update (hname : name ∉ names) (h : Apart (name::names) ps) :
    updateAll f names (update name g ps)=update name g (updateAll f names ps) := by
  induction names generalizing ps with
  | nil => rfl
  | cons n names ih =>
    rw [List.mem_cons,not_or] at hname
    have hpair : Apart [n,name] ps := h.pair (by simp) (by simp)
    have hrest : Apart (name::names) ps := by
      intro p hp a ha b hb
      refine h p hp a ?_ b ?_ <;> grind
    rw [updateAll,updateAll,update_comm (Ne.symm hname.1) hpair,
      ih hname.2 (hrest.update n f)]

/-- A round of changes after another is one round. -/
theorem updateAll_updateAll (hnodup : names.Nodup) (h : Apart names ps) :
    updateAll f names (updateAll g names ps)=updateAll (f ∘ g) names ps := by
  induction names generalizing ps with
  | nil => rfl
  | cons n names ih =>
    obtain ⟨hn,hrest⟩ := List.nodup_cons.mp hnodup
    have hfirst : update n f (updateAll g names (update n g ps))=
        updateAll g names (update n (f ∘ g) ps) := by
      rw [← updateAll_update hn (h.update n g),update_update]
    rw [updateAll,updateAll,updateAll,hfirst,ih hrest (h.tail.update n _)]

theorem fifo_updateAll_ne (hname : name ∉ names) (h : Apart (name::names) ps) :
    fifo name (updateAll f names ps)=fifo name ps := by
  induction names generalizing ps with
  | nil => rfl
  | cons n names ih =>
    rw [List.mem_cons,not_or] at hname
    have hrest : Apart (name::names) ps := by
      intro p hp a ha b hb
      refine h p hp a ?_ b ?_ <;> grind
    rw [updateAll,ih hname.2 (hrest.update n f),fifo_update_ne hname.1 (h.pair (by simp) (by simp))]

theorem fifo_updateAll (hnodup : names.Nodup) (h : Apart names ps) (hname : name ∈ names) :
    fifo name (updateAll f names ps)=(fifo name ps).map f := by
  induction names generalizing ps with
  | nil => simp at hname
  | cons n names ih =>
    obtain ⟨hn,hrest⟩ := List.nodup_cons.mp hnodup
    rw [updateAll]
    by_cases heq : name=n
    · subst heq
      rw [fifo_updateAll_ne hn (h.update name f),fifo_update_self]
    · have hmem : name ∈ names := (List.mem_cons.mp hname).resolve_left heq
      rw [ih hrest (h.tail.update n f) hmem,fifo_update_ne heq (h.pair hname (by simp))]

/-- A round of changes that have no effect on the fifos they are made to has none at all. -/
theorem updateAll_eq_self_iff (hnodup : names.Nodup) (h : Apart names ps) :
    updateAll f names ps=ps ↔ ∀ n ∈ names, ∀ x, fifo n ps=some x → f x=x := by
  constructor
  · intro heq n hn x hx
    have hfifo := fifo_updateAll (f := f) hnodup h hn
    rw [heq,hx,Option.map_some,Option.some.injEq] at hfifo
    exact hfifo.symm
  · intro hsame
    induction names generalizing ps with
    | nil => rfl
    | cons n names ih =>
      rw [updateAll,update_eq_self (hsame n (.head _)),
        ih (List.nodup_cons.mp hnodup).2 h.tail fun m hm => hsame m (.tail _ hm)]

end Lookup

section Peek

variable {py : MicroPython} {mp : MsgpuckScalars} {names : List Bytes} {ps : List NamedFifo}

/-- A peek of another port changes nothing for the ports that come later. -/
theorem mapM_argument_peeked {name : Bytes} (hname : name ∉ names) (h : Apart (name::names) ps) :
    names.mapM (argument py mp (update name (fun f => f.peek.2) ps))=
      names.mapM (argument py mp ps) := by
  induction names with
  | nil => rfl
  | cons n names ih =>
    rw [List.mem_cons,not_or] at hname
    have hrest : Apart (name::names) ps := by
      intro p hp a ha b hb
      refine h p hp a ?_ b ?_ <;> grind
    have hfifo := fifo_update_ne (f := fun f => f.peek.2) (Ne.symm hname.1)
      (h.pair (a := n) (b := name) (by simp) (by simp))
    have hsame : argument py mp (update name (fun f => f.peek.2) ps) n=argument py mp ps n := by
      rw [argument,argument,peekedValue,peekedValue,hfifo]
    rw [List.mapM_cons,List.mapM_cons,hsame,ih hname.2 hrest]

/-- The peeks of a firing: their values are those of the fifos before the first one. -/
theorem peekTokens_eq (hnodup : names.Nodup) (h : Apart names ps) {args : List PyObj}
    (hargs : names.mapM (argument py mp ps)=some args) :
    peekTokens py mp names ps=some (some args,updateAll (fun f => f.peek.2) names ps) := by
  induction names generalizing ps args with
  | nil =>
    cases hargs
    rfl
  | cons n names ih =>
    obtain ⟨hn,hrest⟩ := List.nodup_cons.mp hnodup
    rw [List.mapM_cons] at hargs
    obtain ⟨v,hv,hargs⟩ := Option.bind_eq_some_iff.mp hargs
    obtain ⟨vs,hvs,hargs⟩ := Option.bind_eq_some_iff.mp hargs
    cases hargs
    rw [← mapM_argument_peeked hn h] at hvs
    have hpeek : peekedValue py mp ps n=some (some v) := Option.join_eq_some_iff.mp hv
    rw [peekTokens,peekToken,hpeek]
    simp only [Option.map_some,Option.bind_eq_bind,Option.bind_some,
      ih hrest (h.tail.update n _) hvs]
    rfl

/-- Where an input gives no value, the peeks end with an exception behind it. -/
theorem peekTokens_none (hnodup : names.Nodup) (h : Apart names ps)
    (hargs : names.mapM (argument py mp ps)=none) {args : Option (List PyObj)}
    {qs : List NamedFifo} (hpeek : peekTokens py mp names ps=some (args,qs)) :
    args=none ∧ ∃ n pre, n::pre <+: names ∧ qs=updateAll (fun f => f.peek.2) (n::pre) ps := by
  induction names generalizing ps args with
  | nil => cases hargs
  | cons n names ih =>
    obtain ⟨hn,hrest⟩ := List.nodup_cons.mp hnodup
    rw [peekTokens] at hpeek
    obtain ⟨⟨v,ps₁⟩,hfirst,hpeek⟩ := Option.bind_eq_some_iff.mp hpeek
    obtain ⟨_,hvalue,hpair⟩ := Option.map_eq_some_iff.mp hfirst
    cases hpair
    cases v with
    | none =>
      cases hpeek
      exact ⟨rfl,n,[],by simp,rfl⟩
    | some v =>
      obtain ⟨⟨vs,ps₂⟩,hothers,hpeek⟩ := Option.bind_eq_some_iff.mp hpeek
      cases hpeek
      have hnone : names.mapM (argument py mp (update n (fun f => f.peek.2) ps))=none := by
        rw [mapM_argument_peeked hn h]
        have hv : argument py mp ps n=some v := Option.join_eq_some_iff.mpr hvalue
        rw [List.mapM_cons,hv] at hargs
        cases hvs : names.mapM (argument py mp ps) with
        | none => rfl
        | some vs =>
          rw [hvs] at hargs
          cases hargs
      obtain ⟨rfl,m,pre,hpre,rfl⟩ := ih hrest (h.tail.update n _) hnone hothers
      exact ⟨rfl,n,m::pre,List.cons_prefix_cons.mpr ⟨rfl,hpre⟩,rfl⟩

end Peek

/-- A position is not its successor. -/
theorem pos_ne (a : UInt32) : a+1 ≠ a := by
  intro h
  have := congrArg UInt32.toNat h
  simp only [UInt32.toNat_add,UInt32.reduceToNat] at this
  have := a.toNat_lt
  omega

theorem appended_ne (f : Fifo Bytes) (token : Bytes) : appended f token ≠ f :=
  fun h => pos_ne f.writePos (congrArg Fifo.writePos h)

section Write

variable {py : MicroPython} {mp : MsgpuckScalars} {names : List Bytes} {name : Bytes}
  {ps qs : List NamedFifo} {values : List (Option PyObj)} {buffers : Nat → Option Memory} {done : Bool}

theorem written_ne {other : Bytes} (hne : other ≠ name) (h : Apart [other,name] ps)
    (r : Except MpyError Bytes) : fifo other (written name ps r).2=fifo other ps := by
  rcases r with (_ | _) | token
  · rfl
  · rfl
  · exact fifo_update_ne hne h

theorem writeToken_ne {other : Bytes} {v : PyObj} {buffer : Option Memory} (hne : other ≠ name)
    (h : Apart [other,name] ps) (hw : writeToken py mp ps name v buffer=some (done,qs)) :
    fifo other qs=fifo other ps := by
  rw [writeToken] at hw
  cases hf : fifo name ps with
  | none =>
    rw [hf] at hw
    cases hw
    rfl
  | some f =>
    rw [hf] at hw
    obtain ⟨r,-,hr⟩ := Option.map_eq_some_iff.mp hw
    rw [← written_ne hne h r,hr]

theorem writeToken_apart {v : PyObj} {buffer : Option Memory} (h : Apart names ps)
    (hw : writeToken py mp ps name v buffer=some (done,qs)) : Apart names qs := by
  rw [writeToken] at hw
  cases hf : fifo name ps with
  | none =>
    rw [hf] at hw
    cases hw
    exact h
  | some f =>
    rw [hf] at hw
    obtain ⟨r,-,hr⟩ := Option.map_eq_some_iff.mp hw
    rcases r with (_ | _) | token <;> cases hr
    · exact h
    · exact h
    · exact h.update name _

/-- The writes leave the ports that they do not name. -/
theorem writeTokens_ne (hname : name ∉ names) (h : Apart (name::names) ps)
    (hw : writeTokens py mp names values buffers ps=some (done,qs)) :
    fifo name qs=fifo name ps := by
  induction names generalizing ps values buffers with
  | nil =>
    cases hw
    rfl
  | cons n names ih =>
    rw [List.mem_cons,not_or] at hname
    rcases values with _ | ⟨_ | v,values⟩
    · cases hw
      rfl
    · cases hw
      rfl
    · obtain ⟨⟨first,ps₁⟩,hfirst,hw⟩ := Option.bind_eq_some_iff.mp hw
      have hrest : Apart (name::names) ps := by
        intro p hp a ha b hb
        refine h p hp a ?_ b ?_ <;> grind
      have hsame : fifo name ps₁=fifo name ps :=
        writeToken_ne hname.1 (h.pair (by simp) (by simp)) hfirst
      cases first with
      | false =>
        cases hw
        exact hsame
      | true => rw [ih hname.2 (writeToken_apart hrest hfirst) hw,hsame]

/-- The loop once its first value is encoded. -/
theorem writeTokens_cons {f : Fifo Bytes} {v : PyObj} (hf : fifo name ps=some f) :
    writeTokens py mp (name::names) (some v::values) buffers ps=
      (encodeAlloc py mp v (buffers 0)).bind fun r =>
        if (written name ps r).1 then
          writeTokens py mp names values (fun i => buffers (i+1)) (written name ps r).2
        else some (false,(written name ps r).2) := by
  rw [writeTokens,writeToken,hf]
  cases encodeAlloc py mp v (buffers 0) <;> rfl

theorem fifo_written {f : Fifo Bytes} (hf : fifo name ps=some f) (hslot : f.slotsAvailable 1=true)
    (token : Bytes) : fifo name (written name ps (.ok token)).2=some (appended f token) := by
  change fifo name (update name (fun f => (f.write token).2) ps)=_
  rw [fifo_update_self,hf,Option.map_some,Fifo.write,if_pos hslot,appended]

/-- Nothing is new at a port without a token more. -/
theorem not_appended : ¬∃ f token, fifo name ps=some f ∧ fifo name ps=some (appended f token) := by
  rintro ⟨f,token,hf,hnew⟩
  exact appended_ne f token (Option.some.inj (hnew.symm.trans hf))

/-- The outputs have one token more each. -/
def Appended (names : List Bytes) (ps qs : List NamedFifo) : Prop :=
  ∀ n ∈ names, ∃ f token, fifo n ps=some f ∧ fifo n qs=some (appended f token)

/-- The outputs of the loop behind a first one are still as they were. -/
theorem appended_cons_iff (hn : name ∉ names) (h : Apart (name::names) ps)
    {r : Except MpyError Bytes} :
    Appended names (written name ps r).2 qs ↔ Appended names ps qs := by
  refine forall₂_congr fun m hm => ?_
  rw [written_ne (fun he : m=name => hn (he ▸ hm)) (h.pair (.tail _ hm) (.head _))]

theorem slotsAvailable_written (hn : name ∉ names) (h : Apart (name::names) ps)
    (hslots : ∀ n ∈ names, slotsAvailable ps n=true) (r : Except MpyError Bytes) :
    ∀ n ∈ names, slotsAvailable (written name ps r).2 n=true := by
  intro n hm
  rw [slotsAvailable,written_ne (fun he : n=name => hn (he ▸ hm)) (h.pair (.tail _ hm) (.head _))]
  exact hslots n hm

theorem Apart.written (h : Apart names ps) (n : Bytes) (r : Except MpyError Bytes) :
    Apart names (written n ps r).2 := by
  rcases r with (_ | _) | token
  · exact h
  · exact h
  · exact h.update n _

/-- The loop ends with one token more at every output exactly when all values can be encoded. -/
theorem writeTokens_all_iff (hnodup : names.Nodup) (h : Apart names ps)
    (hslots : ∀ n ∈ names, slotsAvailable ps n=true) :
    (∃ qs, writeTokens py mp names values buffers ps=some (true,qs) ∧ Appended names ps qs) ↔
      Encoded py mp names.length values buffers := by
  induction names generalizing ps values buffers with
  | nil => exact iff_of_true ⟨ps,rfl,by simp [Appended]⟩ trivial
  | cons n names ih =>
    obtain ⟨hn,hrest⟩ := List.nodup_cons.mp hnodup
    obtain ⟨f,hf,hslot⟩ := (Option.any_eq_true _ _).mp (hslots n (.head _))
    rcases values with _ | ⟨_ | v,values⟩
    · refine iff_of_false ?_ id
      rintro ⟨qs,hw,hall⟩
      cases hw
      exact not_appended (hall n (.head _))
    · refine iff_of_false ?_ id
      rintro ⟨qs,hw,-⟩
      cases hw
    · rw [writeTokens_cons hf,List.length_cons,Encoded,Encodes]
      rcases hr : encodeAlloc py mp v (buffers 0) with _ | ((_ | _) | token)
      · simp
      · refine iff_of_false ?_ (by simp)
        rintro ⟨qs,hw,hall⟩
        have hlast := writeTokens_ne hn h hw
        have hhead := hall n (.head _)
        rw [hlast] at hhead
        exact not_appended hhead
      · refine iff_of_false ?_ (by simp)
        rintro ⟨qs,hw,-⟩
        cases hw
      · have hnext := @ih (written n ps (.ok token)).2 values (fun i => buffers (i+1)) hrest
          (h.tail.written n (.ok token))
          (slotsAvailable_written hn h (fun m hm => hslots m (.tail _ hm)) (.ok token))
        rw [and_iff_right ⟨token,rfl⟩,← hnext]
        refine exists_congr fun qs => and_congr_right fun hw => ?_
        have hlast := writeTokens_ne hn (h.written n (.ok token)) hw
        rw [appended_cons_iff hn h,Appended,List.forall_mem_cons]
        exact and_iff_right ⟨f,token,hf,hlast.trans (fifo_written hf hslot token)⟩

/-- The loop raises and leaves the outputs exactly when all values before the exception are
refused. -/
theorem writeTokens_none_iff (hnodup : names.Nodup) (h : Apart names ps)
    (hslots : ∀ n ∈ names, slotsAvailable ps n=true) :
    writeTokens py mp names values buffers ps=some (false,ps) ↔
      Blank py mp names.length values buffers := by
  induction names generalizing values buffers with
  | nil => exact iff_of_false (by simp [writeTokens]) id
  | cons n names ih =>
    obtain ⟨hn,hrest⟩ := List.nodup_cons.mp hnodup
    obtain ⟨f,hf,hslot⟩ := (Option.any_eq_true _ _).mp (hslots n (.head _))
    rcases values with _ | ⟨_ | v,values⟩
    · exact iff_of_false (by simp [writeTokens]) id
    · exact iff_of_true rfl trivial
    · rw [writeTokens_cons hf,List.length_cons,Blank]
      rcases hr : encodeAlloc py mp v (buffers 0) with _ | ((_ | _) | token)
      · simp
      · have hnext := @ih values (fun i => buffers (i+1)) hrest h.tail
          fun m hm => hslots m (.tail _ hm)
        refine hnext.trans ?_
        simp
      · exact iff_of_true rfl (.inl rfl)
      · refine iff_of_false (fun hw => ?_) (by simp)
        have hlast := writeTokens_ne hn (h.written n (.ok token)) hw
        have hnew := hlast.trans (fifo_written hf hslot token)
        exact appended_ne f token (Option.some.inj (hnew.symm.trans hf))

end Write

section Inputs

variable {names : List Bytes} {x : MpyPorts} {f : Fifo Bytes} {g : Fifo Bytes → Fifo Bytes}

theorem peek_ne (f : Fifo Bytes) : f.peek.2 ≠ f :=
  fun h => pos_ne f.tentativeReadPos (congrArg Fifo.tentativeReadPos h)

/-- A commit after a peek works unless the positions have wrapped around. -/
theorem commitRead_peek (f : Fifo Bytes) : f.peek.2.commitRead true=
    if f.readPos<f.tentativeReadPos+1 then consumed f else f.peek.2 := rfl

theorem commitRead_peek_ne (f : Fifo Bytes) : f.peek.2.commitRead true ≠ f := by
  intro h
  have hpos : (f.peek.2.commitRead true).tentativeReadPos=f.tentativeReadPos+1 := by
    rw [commitRead_peek]
    split <;> rfl
  rw [h] at hpos
  exact pos_ne f.tentativeReadPos hpos.symm

theorem commitRead_peek_iff (f : Fifo Bytes) :
    f.peek.2.commitRead true=consumed f ↔ f.readPos<f.tentativeReadPos+1 := by
  rw [commitRead_peek]
  split
  · next hlt => exact iff_of_true rfl hlt
  · next hge =>
    exact iff_of_false (fun h => pos_ne f.readPos (congrArg Fifo.readPos h).symm) hge

/-- A cancel does not undo the peek alone. -/
theorem cancelCommit_peek_iff (f : Fifo Bytes) :
    f.peek.2.cancelCommit=f ↔ f.tentativeReadPos=f.readPos := by
  constructor
  · intro h
    exact (congrArg Fifo.tentativeReadPos h).symm
  · intro h
    exact Fifo.ext rfl rfl rfl h.symm rfl

theorem inPorts_eq_iff (h : NamesApart names x.inPorts) :
    updateAll g names x.inPorts=x.inPorts ↔ Inputs names x fun f => g f=f :=
  updateAll_eq_self_iff h.nodup h.apart

/-- The inputs of a firing that is ready all have fifos. -/
theorem inputs_never_iff {p : Fifo Bytes → Prop} (hp : ∀ f, ¬p f)
    (h : ∀ name ∈ names, tokensAvailable x.inPorts name=true) : Inputs names x p ↔ names=[] := by
  cases names with
  | nil => simp [Inputs]
  | cons n names =>
    obtain ⟨f,hf,-⟩ := (Option.any_eq_true _ _).mp (h n (.head _))
    exact iff_of_false (fun hall => hp f (hall n (.head _) f hf)) (by simp)

theorem inPorts_lost_iff (h : NamesApart names x.inPorts) (hg : ∀ f, g f ≠ f)
    (hready : ∀ name ∈ names, tokensAvailable x.inPorts name=true) :
    updateAll g names x.inPorts=x.inPorts ↔ names=[] :=
  (inPorts_eq_iff h).trans (inputs_never_iff hg hready)

/-- After the commits each input has one token less exactly when no position has wrapped around. -/
theorem committed_iff (h : NamesApart names x.inPorts)
    (hready : ∀ name ∈ names, tokensAvailable x.inPorts name=true) :
    (∀ name ∈ names, ∃ f, fifo name x.inPorts=some f ∧
      fifo name (updateAll (fun f => f.peek.2.commitRead true) names x.inPorts)=some (consumed f)) ↔
    Inputs names x fun f => f.readPos<f.tentativeReadPos+1 := by
  refine forall₂_congr fun name hname => ?_
  obtain ⟨f,hf,-⟩ := (Option.any_eq_true _ _).mp (hready name hname)
  rw [fifo_updateAll h.nodup h.apart hname,hf]
  simp [commitRead_peek_iff]

/-- Tokens that are read and not given back are lost unless there are no inputs. -/
theorem lost_iff (h : NamesApart names x.inPorts) (hg : ∀ f, g f ≠ f)
    (hready : ∀ name ∈ names, tokensAvailable x.inPorts name=true) :
    ({x with inPorts := updateAll g names x.inPorts} : MpyPorts)=x ↔ names=[] := by
  rw [MpyPorts.ext_iff,and_iff_left rfl]
  exact inPorts_lost_iff h hg hready

/-- What is cancelled is given back where no token was read before. -/
theorem cancelled_iff (h : NamesApart names x.inPorts) :
    ({x with inPorts := updateAll (fun f => f.peek.2.cancelCommit) names x.inPorts} : MpyPorts)=x ↔
      Inputs names x fun f => f.tentativeReadPos=f.readPos := by
  rw [MpyPorts.ext_iff,and_iff_left rfl]
  refine (inPorts_eq_iff h).trans ?_
  exact forall₂_congr fun _ _ => forall₂_congr fun f _ => cancelCommit_peek_iff f

theorem check_iff (actionInput actionOutput : List Bytes) (x : MpyPorts) :
    (!actionInput.all (tokensAvailable x.inPorts) ||
      !actionOutput.all (slotsAvailable x.outPorts))=false ↔ Ready actionInput actionOutput x := by
  rw [Bool.or_eq_false_iff,Bool.not_eq_false',Bool.not_eq_false',List.all_eq_true,
    List.all_eq_true]
  rfl

end Inputs

section Firing

variable {py : MicroPython} {mp : MsgpuckScalars} {buffers : Nat → Option Memory}
  {actionInput actionOutput : List Bytes} {x : MpyPorts} (hin : NamesApart actionInput x.inPorts)
  (hout : NamesApart actionOutput x.outPorts) (hready : Ready actionInput actionOutput x)

include hout hready

/-- The end of a firing, once the inputs are committed. -/
theorem written_iff (hin : NamesApart actionInput x.inPorts) {values : List (Option PyObj)}
    {exhausted : List Bytes} {done : Bool} {outPorts : List NamedFifo}
    (hwrite : writeTokens py mp actionOutput values buffers x.outPorts=some (done,outPorts)) :
    AllOrNothing actionInput actionOutput x
        ⟨updateAll (fun f => f.peek.2.commitRead true) actionInput x.inPorts,outPorts⟩
        (if done then .returned true true exhausted else .raised) ↔
      WritesAll py mp actionInput actionOutput buffers x values := by
  rw [WritesAll,← writeTokens_all_iff hout.nodup hout.apart hready.2,
    ← writeTokens_none_iff hout.nodup hout.apart hready.2,hwrite]
  cases done with
  | true =>
    have hall : (∃ qs, some (true,outPorts)=some (true,qs) ∧
        Appended actionOutput x.outPorts qs) ↔ Appended actionOutput x.outPorts outPorts := by simp
    rw [hall,or_iff_left (fun h => nomatch h.1),← committed_iff hin hready.1,and_comm]
    rfl
  | false =>
    have hsame : some (false,outPorts)=some (false,x.outPorts) ↔ outPorts=x.outPorts := by simp
    rw [hsame,or_iff_right (fun ⟨⟨_,hw,_⟩,_⟩ => nomatch hw),
      ← inPorts_lost_iff hin commitRead_peek_ne hready.1,and_comm]
    exact MpyPorts.ext_iff

/-- Writes that are undefined are not all or nothing. -/
theorem not_writesAll {values : List (Option PyObj)}
    (hwrite : writeTokens py mp actionOutput values buffers x.outPorts=none) :
    ¬WritesAll py mp actionInput actionOutput buffers x values := by
  rw [WritesAll,← writeTokens_all_iff hout.nodup hout.apart hready.2,
    ← writeTokens_none_iff hout.nodup hout.apart hready.2,hwrite]
  simp

omit hout hready in
theorem ran_iff {r₀ : FireReport} {y₀ : MpyPorts} {p : FireReport → MpyPorts → Prop} :
    (∃ r y, some (r₀,y₀)=some (r,y) ∧ p r y) ↔ p r₀ y₀ := by
  constructor
  · rintro ⟨r,y,h,hp⟩
    cases h
    exact hp
  · exact fun hp => ⟨r₀,y₀,rfl,hp⟩

include hin

omit hout in
/-- An exception in a peek leaves the tokens read. -/
theorem peeked_ne {n : Bytes} {pre : List Bytes} (hpre : n::pre <+: actionInput) :
    updateAll (fun f => f.peek.2) (n::pre) x.inPorts ≠ x.inPorts := by
  intro hsame
  have hsub := hpre.sublist
  have hapart : Apart (n::pre) x.inPorts := fun p hp a ha b hb =>
    hin.apart p hp a (hsub.subset ha) b (hsub.subset hb)
  have hmem : n ∈ actionInput := hsub.subset (.head _)
  obtain ⟨f,hf,-⟩ := (Option.any_eq_true _ _).mp (hready.1 n hmem)
  exact peek_ne f ((updateAll_eq_self_iff (hin.nodup.sublist hsub) hapart).mp hsame n (.head _) f hf)

/-- A firing that is ready and not held back. -/
theorem fired_iff (action : List PyObj → ActionResult) :
    (∃ r y, conditionWrapper py mp actionInput actionOutput action buffers x=some (r,y) ∧
        AllOrNothing actionInput actionOutput x y r) ↔
      ∃ args, actionInput.mapM (argument py mp x.inPorts)=some args ∧
        Harmless py mp actionInput actionOutput buffers x (action args) := by
  rw [conditionWrapper,(check_iff _ _ _).mpr hready,if_neg Bool.false_ne_true]
  cases hargs : actionInput.mapM (argument py mp x.inPorts) with
  | none =>
    refine iff_of_false ?_ (by simp)
    rintro ⟨r,y,hrun,hall⟩
    obtain ⟨⟨args,peeked⟩,hpeek,hrun⟩ := Option.bind_eq_some_iff.mp hrun
    obtain ⟨rfl,n,pre,hpre,rfl⟩ := peekTokens_none hin.nodup hin.apart hargs hpeek
    cases hrun
    exact peeked_ne hin hready hpre (congrArg MpyPorts.inPorts hall)
  | some args =>
    rw [peekTokens_eq hin.nodup hin.apart hargs]
    simp only [Option.some.injEq,exists_eq_left',Harmless,Option.bind_eq_bind,Option.bind_some]
    cases hproduction : (action args).production with
    | none => exact ran_iff.trans (lost_iff hin peek_ne hready.1)
    | some production =>
      dsimp only
      cases hlength : production.length with
      | none => exact ran_iff.trans (lost_iff hin peek_ne hready.1)
      | some length =>
        dsimp only
        by_cases hlen : actionOutput.length=length
        · rw [if_pos hlen,if_pos hlen,updateAll_updateAll hin.nodup hin.apart]
          cases hiter : production.iter with
          | none => exact ran_iff.trans (lost_iff hin commitRead_peek_ne hready.1)
          | some values =>
            dsimp only
            cases hwrite : writeTokens py mp actionOutput values buffers x.outPorts with
            | none =>
              exact iff_of_false (fun ⟨_,_,hrun,_⟩ => nomatch hrun)
                (not_writesAll hout hready hwrite)
            | some written =>
              obtain ⟨done,outPorts⟩ := written
              exact ran_iff.trans (written_iff hout hready hin hwrite)
        · rw [if_neg hlen,if_neg hlen,updateAll_updateAll hin.nodup hin.apart]
          exact ran_iff.trans (cancelled_iff hin)

end Firing

/-- A firing is defined and all or nothing exactly when a guard around it holds it back, a token or a
slot is missing, or every input gives a value and what the action does with them is harmless. -/
theorem all_or_nothing_iff (py : MicroPython) (mp : MsgpuckScalars) (guard : Option Bool)
    (action : List PyObj → ActionResult) (buffers : Nat → Option Memory)
    {actionInput actionOutput : List Bytes} {x : MpyPorts}
    (hin : NamesApart actionInput x.inPorts) (hout : NamesApart actionOutput x.outPorts) :
    (∃ r y, guardWrapper guard x
        (conditionWrapper py mp actionInput actionOutput action buffers x)=some (r,y) ∧
      AllOrNothing actionInput actionOutput x y r) ↔
    (guard=some true → Ready actionInput actionOutput x →
      ∃ args, actionInput.mapM (argument py mp x.inPorts)=some args ∧
        Harmless py mp actionInput actionOutput buffers x (action args)) := by
  rcases guard with _ | _ | _
  · exact iff_of_true ⟨.raised,x,rfl,rfl⟩ (by simp)
  · exact iff_of_true ⟨.returned false true [],x,rfl,rfl⟩ (by simp)
  rw [guardWrapper,forall_prop_of_true rfl]
  by_cases hready : Ready actionInput actionOutput x
  · rw [forall_prop_of_true hready]
    exact fired_iff hin hout hready action
  · have hcheck := mt (check_iff actionInput actionOutput x).mp hready
    rw [conditionWrapper,if_pos (Bool.not_eq_false _ ▸ hcheck)]
    exact iff_of_true ⟨_,_,rfl,rfl⟩ fun hr => absurd hr hready

/-- What is no number, text, list or dict is refused without an exception. -/
theorem not_raised (py : MicroPython) (mp : MsgpuckScalars) (buffer : Option Memory) :
    (∀ b, encodeAlloc py mp (.bool b) buffer ≠ some (.error .raised)) ∧
    encodeAlloc py mp .other buffer=some (.error .fail) := by
  cases buffer with
  | none => exact ⟨fun _ h => (nomatch h),rfl⟩
  | some mem => exact ⟨fun _ h => (nomatch h),rfl⟩

/-- A guard inside the wrapper that holds the action back is harmless where its tuple has not the
length of a production. -/
theorem guardedAction_harmless_iff (py : MicroPython) (mp : MsgpuckScalars)
    (action : List PyObj → ActionResult) (buffers : Nat → Option Memory)
    (actionInput actionOutput : List Bytes) (x : MpyPorts) (args : List PyObj) :
    Harmless py mp actionInput actionOutput buffers x (guardedAction (some false) action args) ↔
      actionOutput.length ≠ 3 ∧ Inputs actionInput x fun f => f.tentativeReadPos=f.readPos := by
  rw [Harmless,guardedAction,ActionResult.production]
  dsimp only
  split
  · next hlen =>
    have hbool := fun i => (not_raised py mp (buffers i)).1
    have hother := fun i => (not_raised py mp (buffers i)).2
    rw [WritesAll,hlen]
    simp [Encoded,Blank,Encodes,hbool,hother]
  · next hlen => exact (and_iff_right hlen).symm

/-- An actor with one input, on which a token waits, and one output. -/
def identityPorts : MpyPorts where
  inPorts := [⟨ascii "in",((Fifo.init 4).write [7]).2⟩]
  outPorts := [⟨ascii "out",.init 4⟩]

/-- The ports once the token is read and not given back. -/
def identityPeeked : MpyPorts where
  inPorts := [⟨ascii "in",⟨4,1,0,1,[some [7],none,none,none]⟩⟩]
  outPorts := [⟨ascii "out",.init 4⟩]

/-- The ports once the token is gone. -/
def identityLost : MpyPorts where
  inPorts := [⟨ascii "in",⟨4,1,1,1,[none,none,none,none]⟩⟩]
  outPorts := [⟨ascii "out",.init 4⟩]

/-- A firing of that actor with memory for one token. -/
def identityFire (action : List PyObj → ActionResult) : Option (FireReport × MpyPorts) :=
  conditionWrapper .smallBuild msgpackScalars [ascii "in"] [ascii "out"] action
    (fun _ => some fun _ => 0) identityPorts

/-- An action that returns the list of its arguments. -/
def echo (args : List PyObj) : ActionResult := .value ⟨some args.length,some (args.map some)⟩

theorem all_or_nothing_identity :
    ∃ r y, guardWrapper (some true) identityPorts (identityFire echo)=some (r,y) ∧
      AllOrNothing [ascii "in"] [ascii "out"] identityPorts y r := by
  have hin : NamesApart [ascii "in"] identityPorts.inPorts := ⟨by decide,by decide⟩
  have hout : NamesApart [ascii "out"] identityPorts.outPorts := ⟨by decide,by decide⟩
  refine (all_or_nothing_iff .smallBuild msgpackScalars (some true) echo
    (fun _ => some fun _ => 0) hin hout).mpr fun _ _ => ⟨[.int 7],rfl,?_⟩
  refine .inl ⟨⟨⟨[7],rfl⟩,trivial⟩,fun name hname f hf => ?_⟩
  cases List.mem_singleton.mp hname
  cases hf
  decide

set_option maxRecDepth 4000 in
/-- An action that raises leaves its token read, a value that cannot be encoded is lost with the
token it was made of, and a list of 200 zeros does not fit into its buffer. -/
theorem all_or_nothing_fails :
    (identityFire (fun _ => .raised)=some (.raised,identityPeeked) ∧
      ¬AllOrNothing [ascii "in"] [ascii "out"] identityPorts identityPeeked .raised) ∧
    (identityFire (fun _ => .value ⟨some 1,some [some .other]⟩)=
      some (.returned true true [ascii "in"],identityLost) ∧
      ¬AllOrNothing [ascii "in"] [ascii "out"] identityPorts identityLost
        (.returned true true [ascii "in"])) ∧
    identityFire (fun _ => .value ⟨some 1,some [some (.list (List.replicate 200 (.int 0)))]⟩)=
      none := by
  refine ⟨⟨rfl,?_⟩,⟨rfl,?_⟩,?_⟩
  · intro h
    have hsame : identityPeeked=identityPorts := h
    exact absurd hsame (by decide)
  · intro h
    obtain ⟨f,token,hf,hnew⟩ := h.2 (ascii "out") List.mem_cons_self
    exact appended_ne f token (Option.some.inj (hnew.symm.trans hf))
  · rfl

end MpyPort

end CalvinConstrained
