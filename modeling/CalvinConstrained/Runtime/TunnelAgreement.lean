import CalvinConstrained.Framework.Heap
import CalvinConstrained.Framework.Run
import CalvinConstrained.Runtime.Common
import CalvinConstrained.Runtime.Uuid

namespace CalvinConstrained

/-- The token tunnel of a node towards one peer. -/
@[ext] structure TokenTunnel where
  id : Uuid
  state : TunnelState
  deriving DecidableEq

/-- TUNNEL_NEW and the REPLY to it; both carry the id the request was made with. -/
inductive TunnelMsg
  | request (id : Uuid)
  | reply (status : Nat) (id : Uuid)
  deriving DecidableEq

/-- `cc_tunnel_create` for a token tunnel without a given id: a tunnel already there
is used as it is; `sent` is the outcome of `cc_proto_send_tunnel_request` and `added` that of
`cc_list_add`. When the tunnel cannot be listed its request is on its way all the same. -/
def createTokenTunnel (sent added : Bool) (id : Uuid) (tunnel : Option TokenTunnel) :
    Option TokenTunnel × List TunnelMsg :=
  match tunnel with
  | some t => (some t,[])
  | none =>
      if !sent then (none,[])
      else if added then (some ⟨id,.pending⟩,[.request id])
      else (none,[.request id])

/-- `cc_tunnel_handle_tunnel_new_request`; `created` is the outcome of
`cc_tunnel_create` when there is no tunnel to the peer yet. -/
def handleTunnelNewRequest (signed created : Bool) (id : Uuid) (tunnel : Option TokenTunnel) :
    Result × Option TokenTunnel :=
  match tunnel with
  | some t =>
      if t.state=.enabled then (.success,some t)
      else if requestIsHigher signed id t.id then (.success,some ⟨id,.enabled⟩)
      else (.success,some ⟨t.id,.enabled⟩)
  | none => if created then (.success,some ⟨id,.enabled⟩) else (.fail,none)

/-- `tunnel_request_handler`: the reply is matched by tunnel id. -/
def tunnelRequestHandler (status : Nat) (id : Uuid) (tunnel : Option TokenTunnel) :
    Option TokenTunnel :=
  match tunnel with
  | some t =>
      if t.id=id then some ⟨id,if status=200 then .enabled else .disconnected⟩ else some t
  | none => none

/-- One node: its token tunnel to the other one and what it sent that has not arrived,
oldest first. -/
structure Party where
  signedChar : Bool
  tunnel : Option TokenTunnel
  outbox : List TunnelMsg
  deriving DecidableEq

namespace Party

def init (signedChar : Bool) : Party := ⟨signedChar,none,[]⟩

def create (sent added : Bool) (id : Uuid) (p : Party) : Party :=
  let r := createTokenTunnel sent added id p.tunnel
  {p with tunnel := r.1,outbox := p.outbox++r.2}

/-- The last holder of the tunnel lets go. The TUNNEL_DESTROY sent is not handled by
the other node. -/
def drop (p : Party) : Party := {p with tunnel := none}

/-- `p` handles the oldest message of `q`: `cc_proto_parse_tunnel_new` or the reply
handler. -/
def receive (created : Bool) (p q : Party) : Option (Party × Party) :=
  match q.outbox with
  | [] => none
  | .request id::rest =>
      let r := handleTunnelNewRequest p.signedChar created id p.tunnel
      let status := if r.1=.success then 200 else 500
      some ({p with tunnel := r.2,outbox := p.outbox++[.reply status id]},{q with outbox := rest})
  | .reply status id::rest =>
      some ({p with tunnel := tunnelRequestHandler status id p.tunnel},{q with outbox := rest})

def requests : List TunnelMsg → List Uuid
  | [] => []
  | .request id::rest => id::requests rest
  | .reply _ _::rest => requests rest

def nextRequest : List TunnelMsg → Option Uuid
  | .request id::_ => some id
  | _ => none

/-- `p` has a tunnel under the id `x`, in whatever state. -/
def Holds (p : Party) (x : Uuid) : Prop := ∃ state, p.tunnel=some ⟨x,state⟩

theorem Holds.unique {p : Party} {x y : Uuid} (hx : p.Holds x) (hy : p.Holds y) : x=y := by
  obtain ⟨_,hx⟩ := hx
  obtain ⟨_,hy⟩ := hy
  rw [hx] at hy
  cases hy
  rfl

/-- A reply for `y` arrives before any request does. -/
def Ahead (y : Uuid) : List TunnelMsg → Prop
  | [] => False
  | .request _::_ => False
  | .reply _ z::rest => z=y ∨ Ahead y rest

end Party

inductive Side
  | left
  | right
  deriving DecidableEq

inductive TunnelEvent
  | create (side : Side) (sent added : Bool) (id : Uuid)
  | drop (side : Side)
  | receive (side : Side) (created : Bool)

@[ext] structure TunnelPair where
  left : Party
  right : Party
  deriving DecidableEq

namespace TunnelPair

open Party

def init (leftSigned rightSigned : Bool) : TunnelPair := ⟨.init leftSigned,.init rightSigned⟩

/-- The acting party first. -/
def view (s : TunnelPair) : Side → Party × Party
  | .left => (s.left,s.right)
  | .right => (s.right,s.left)

def ofView : Side → Party × Party → TunnelPair
  | .left,(p,q) => ⟨p,q⟩
  | .right,(p,q) => ⟨q,p⟩

def step : TunnelEvent → TunnelPair → Option TunnelPair
  | .create side sent added id,s =>
      some (ofView side ((s.view side).1.create sent added id,(s.view side).2))
  | .drop side,s => some (ofView side ((s.view side).1.drop,(s.view side).2))
  | .receive side created,s =>
      ((s.view side).1.receive created (s.view side).2).map (ofView side)

/-- Everything sent has been processed and both tunnels are up: the ids are the same. -/
def Agrees (s : TunnelPair) : Prop :=
  s.left.outbox=[] → s.right.outbox=[] → ∀ x y,
    s.left.tunnel=some ⟨x,.enabled⟩ → s.right.tunnel=some ⟨y,.enabled⟩ → x=y

/-- A request for `x` that `p` receives from `q` while it has a tunnel under another
id: that tunnel is not enabled, the request wins if the tunnel is not pending either, and
the two comparisons do not both ask for a renaming. -/
def Resolvable (p q : Party) (x : Uuid) : Prop := ∀ t ∈ p.tunnel, t.id ≠ x →
  t.state ≠ .enabled ∧
  (t.state ≠ .pending → requestIsHigher p.signedChar x t.id=true) ∧
  ¬(requestIsHigher p.signedChar x t.id=true ∧ requestIsHigher q.signedChar t.id x=true)

instance (p q : Party) (x : Uuid) : Decidable (Resolvable p q x) :=
  inferInstanceAs (Decidable (∀ t ∈ p.tunnel, _))

/-- Requests can be resolved when they arrive, no tunnel is torn down while a request is on
its way, and no creation fails behind the request that it sent. -/
def Orderly : TunnelEvent → TunnelPair → Prop
  | .create side sent added _,s => (s.view side).1.tunnel=none → sent=true → added=true
  | .drop _,s => requests s.left.outbox=[] ∧ requests s.right.outbox=[]
  | .receive side _,s => ∀ x ∈ nextRequest (s.view side).2.outbox,
      Resolvable (s.view side).1 (s.view side).2 x

instance (e : TunnelEvent) (s : TunnelPair) : Decidable (Orderly e s) := by
  cases e <;> unfold Orderly <;> infer_instance

/-- What holds of `p` towards `q`. A request of `p` still on its way either names the
id `p` holds, and then `q` will take it over unless `q` asked as well, or `p` has already
taken over the id of `q`. -/
structure Half (p q : Party) : Prop where
  one : (requests p.outbox).length ≤ 1
  answered : ∀ y, p.tunnel=some ⟨y,.pending⟩ →
    y ∈ requests p.outbox ∨ ∃ status, .reply status y ∈ q.outbox
  asked : ∀ x ∈ requests p.outbox,
    (p.Holds x ∧ (requests q.outbox ≠ [] ∨ ∀ y, q.tunnel=some ⟨y,.pending⟩ → y ≠ x →
      requestIsHigher p.signedChar y x=false ∨ Ahead y p.outbox)) ∨
    (requests q.outbox=[] ∧ ∃ y, p.Holds y ∧ q.Holds y ∧ requestIsHigher p.signedChar y x=true)

structure Inv (p q : Party) : Prop where
  here : Half p q
  there : Half q p
  same : requests p.outbox=[] → requests q.outbox=[] → ∀ x y, p.Holds x → q.Holds y → x=y

theorem Inv.swap {p q : Party} (h : Inv p q) : Inv q p :=
  ⟨h.there,h.here,fun hq hp x y hx hy => (h.same hp hq y x hy hx).symm⟩

theorem init_inv (leftSigned rightSigned : Bool) :
    Inv (Party.init leftSigned) (Party.init rightSigned) := by
  have hhalf : ∀ a b, Half (Party.init a) (Party.init b) := fun a b =>
    ⟨Nat.zero_le _,fun _ hy => (Option.some_ne_none _ hy.symm).elim,fun _ hx => (List.not_mem_nil hx).elim⟩
  refine ⟨hhalf _ _,hhalf _ _,?_⟩
  rintro _ _ x y ⟨_,hx⟩
  cases hx

theorem requests_append (l k : List TunnelMsg) : requests (l++k)=requests l++requests k := by
  induction l with
  | nil => rfl
  | cons m l ih => cases m <;> simp [requests,ih]

theorem ahead_append {y : Uuid} {l : List TunnelMsg} (h : Ahead y l) (k : List TunnelMsg) :
    Ahead y (l++k) := by
  induction l with
  | nil => exact h.elim
  | cons m l ih =>
    cases m with
    | request => exact h.elim
    | reply => exact h.imp_right ih

theorem ahead_of_mem {y : Uuid} {status : Nat} {l : List TunnelMsg} (hr : requests l=[])
    (h : .reply status y ∈ l) : Ahead y l := by
  induction l with
  | nil => cases h
  | cons m l ih =>
    cases m with
    | request => cases hr
    | reply st z =>
      rcases List.mem_cons.mp h with he | h
      · cases he
        exact .inl rfl
      · exact .inr (ih hr h)

theorem Inv.create {p q : Party} (h : Inv p q) (sent added : Bool) (id : Uuid)
    (hok : p.tunnel=none → sent=true → added=true) : Inv (p.create sent added id) q := by
  cases ht : p.tunnel with
  | some t =>
    have he : p.create sent added id=p := by
      simp [Party.create,createTokenTunnel,ht]
      rw [← ht]
    rwa [he]
  | none =>
    cases sent with
    | false =>
      have he : p.create false added id=p := by
        simp [Party.create,createTokenTunnel,ht]
        rw [← ht]
      rwa [he]
    | true =>
      obtain rfl := hok ht rfl
      have he : p.create true true id=
          {p with tunnel := some ⟨id,.pending⟩,outbox := p.outbox++[.request id]} := by
        simp [Party.create,createTokenTunnel,ht]
      have hno : ∀ x, ¬p.Holds x := by
        rintro x ⟨_,hx⟩
        rw [ht] at hx
        cases hx
      have hreq : requests p.outbox=[] := by
        apply List.eq_nil_iff_forall_not_mem.mpr
        intro x hx
        rcases h.here.asked x hx with ⟨hh,_⟩ | ⟨_,y,hy,_⟩
        · exact hno x hh
        · exact hno y hy
      have hreq' : requests (p.outbox++[.request id])=[id] := by
        rw [requests_append,hreq]
        rfl
      rw [he]
      refine ⟨⟨?_,?_,?_⟩,⟨h.there.one,?_,?_⟩,?_⟩
      · simp only [hreq']
        exact Nat.le_refl _
      · intro y hy
        cases hy
        left
        simp only [hreq',List.mem_singleton]
      · intro x hx
        simp only [hreq',List.mem_singleton] at hx
        subst x
        refine .inl ⟨⟨_,rfl⟩,?_⟩
        by_cases hq : requests q.outbox=[]
        · right
          intro y hy _
          right
          rcases h.there.answered y hy with hm | ⟨st,hm⟩
          · rw [hq] at hm
            cases hm
          · exact ahead_append (ahead_of_mem hreq hm) _
        · exact .inl hq
      · intro y hy
        exact (h.there.answered y hy).imp_right fun ⟨st,hm⟩ => ⟨st,List.mem_append_left _ hm⟩
      · intro x hx
        rcases h.there.asked x hx with ⟨hh,_⟩ | ⟨_,y,_,hy,_⟩
        · exact .inl ⟨hh,.inl (by simp only [hreq']; exact List.cons_ne_nil _ _)⟩
        · exact absurd hy (hno y)
      · intro hp
        simp only [hreq'] at hp
        cases hp

theorem Inv.drop {p q : Party} (h : Inv p q) (hp : requests p.outbox=[])
    (hq : requests q.outbox=[]) : Inv p.drop q := by
  refine ⟨⟨h.here.one,?_,?_⟩,⟨h.there.one,h.there.answered,?_⟩,?_⟩
  · intro y hy
    cases hy
  · intro x hx
    rw [Party.drop,hp] at hx
    cases hx
  · intro x hx
    rw [hq] at hx
    cases hx
  · rintro _ _ x y ⟨_,hx⟩
    cases hx

/-- A reply changes the state of a tunnel, never its id. -/
theorem tunnelRequestHandler_holds (status : Nat) (x : Uuid) (p : Party) (y : Uuid) :
    Holds {p with tunnel := tunnelRequestHandler status x p.tunnel} y ↔ p.Holds y := by
  cases ht : p.tunnel with
  | none => simp [Holds,tunnelRequestHandler,ht]
  | some t =>
    by_cases he : t.id=x
    · simp [Holds,tunnelRequestHandler,ht,he,TokenTunnel.ext_iff]
    · simp [Holds,tunnelRequestHandler,ht,he]

/-- A tunnel still pending after a reply was pending before, under another id. -/
theorem tunnelRequestHandler_pending {status : Nat} {x y : Uuid} {tunnel : Option TokenTunnel}
    (h : tunnelRequestHandler status x tunnel=some ⟨y,.pending⟩) :
    tunnel=some ⟨y,.pending⟩ ∧ x ≠ y := by
  cases tunnel with
  | none => cases h
  | some t =>
    simp only [tunnelRequestHandler] at h
    split at h
    · split at h <;> cases h
    · next hne =>
      cases h
      exact ⟨rfl,Ne.symm hne⟩

theorem Inv.reply {p q : Party} (h : Inv p q) {status : Nat} {x : Uuid} {rest : List TunnelMsg}
    (ho : q.outbox=.reply status x::rest) :
    Inv {p with tunnel := tunnelRequestHandler status x p.tunnel} {q with outbox := rest} := by
  have hreq : requests q.outbox=requests rest := by rw [ho]; rfl
  have hholds := tunnelRequestHandler_holds status x p
  refine ⟨⟨h.here.one,?_,?_⟩,⟨?_,?_,?_⟩,?_⟩
  · intro y hy
    obtain ⟨hp,hne⟩ := tunnelRequestHandler_pending hy
    refine (h.here.answered y hp).imp_right ?_
    rintro ⟨st,hm⟩
    rw [ho] at hm
    rcases List.mem_cons.mp hm with he | hm
    · cases he
      exact absurd rfl hne
    · exact ⟨st,hm⟩
  · intro z hz
    rcases h.here.asked z hz with ⟨hh,hc⟩ | ⟨hr,y,hy,hy',hhi⟩
    · exact .inl ⟨(hholds z).mpr hh,by rwa [hreq] at hc⟩
    · exact .inr ⟨by rwa [hreq] at hr,y,(hholds y).mpr hy,hy',hhi⟩
  · rw [← hreq]
    exact h.there.one
  · intro y hy
    simpa only [← hreq] using h.there.answered y hy
  · intro z hz
    rcases h.there.asked z (by rwa [hreq]) with ⟨hh,hc⟩ | ⟨hr,y,hy,hy',hhi⟩
    · refine .inl ⟨hh,hc.imp_right ?_⟩
      intro hall y hy hne
      obtain ⟨hp,hxy⟩ := tunnelRequestHandler_pending hy
      refine (hall y hp hne).imp_right ?_
      intro ha
      rw [ho] at ha
      exact ha.resolve_left hxy
    · exact .inr ⟨hr,y,hy,(hholds y).mpr hy',hhi⟩
  · intro hp hq a b ha hb
    exact h.same hp (by rwa [hreq]) a b ((hholds a).mp ha) hb

/-- Outcome of a request that could be resolved: never pending, and under the own id or
the requested one as the comparison says. -/
theorem handleTunnelNewRequest_holds {p q : Party} {x a : Uuid} (created : Bool)
    (hok : Resolvable p q x)
    (ha : Holds {p with tunnel := (handleTunnelNewRequest p.signedChar created x p.tunnel).2} a) :
    a=x ∨ (p.Holds a ∧ p.tunnel=some ⟨a,.pending⟩ ∧ requestIsHigher p.signedChar x a=false) := by
  obtain ⟨st,ha⟩ := ha
  cases ht : p.tunnel with
  | none =>
    rw [ht] at ha
    simp only [handleTunnelNewRequest] at ha
    split at ha <;> cases ha
    exact .inl rfl
  | some t =>
    by_cases hx : t.id=x
    · left
      rw [ht] at ha
      simp only [handleTunnelNewRequest,hx] at ha
      split at ha
      · cases ha
        exact hx
      · split at ha <;> cases ha <;> rfl
    · obtain ⟨hen,hdis,_⟩ := hok t ht hx
      rw [ht] at ha
      simp only [handleTunnelNewRequest,if_neg hen] at ha
      split at ha
      · cases ha
        exact .inl rfl
      · next hlow =>
        cases ha
        right
        have hpend : t=⟨t.id,.pending⟩ := by
          by_cases hs : t.state=.pending
          · exact TokenTunnel.ext rfl hs
          · exact absurd (hdis hs) hlow
        exact ⟨⟨_,ht⟩,congrArg some hpend,Bool.eq_false_iff.mpr hlow⟩

/-- A tunnel already there keeps its id or takes over the requested one. -/
theorem handleTunnelNewRequest_renames {p q : Party} {x z : Uuid} (created : Bool)
    (hok : Resolvable p q x) (hz : p.Holds z) :
    (Holds {p with tunnel := (handleTunnelNewRequest p.signedChar created x p.tunnel).2} z ∧
      (x=z ∨ requestIsHigher p.signedChar x z=false)) ∨
    (Holds {p with tunnel := (handleTunnelNewRequest p.signedChar created x p.tunnel).2} x ∧
      requestIsHigher p.signedChar x z=true) := by
  obtain ⟨st,ht⟩ := hz
  simp only [Holds,ht,handleTunnelNewRequest]
  by_cases hen : st=.enabled
  · refine .inl ⟨⟨st,by rw [if_pos hen]⟩,.inl ?_⟩
    by_contra hne
    exact (hok ⟨z,st⟩ ht (Ne.symm hne)).1 hen
  · rw [if_neg hen]
    by_cases hhi : requestIsHigher p.signedChar x z=true
    · exact .inr ⟨⟨.enabled,by rw [if_pos hhi]⟩,hhi⟩
    · exact .inl ⟨⟨.enabled,by rw [if_neg hhi]⟩,.inr (Bool.eq_false_iff.mpr hhi)⟩

theorem handleTunnelNewRequest_not_pending (signed created : Bool) (x y : Uuid)
    (tunnel : Option TokenTunnel) :
    (handleTunnelNewRequest signed created x tunnel).2 ≠ some ⟨y,.pending⟩ := by
  intro h
  cases tunnel with
  | none =>
    simp only [handleTunnelNewRequest] at h
    split at h <;> cases h
  | some t =>
    simp only [handleTunnelNewRequest] at h
    split at h
    · next he =>
      cases h
      cases he
    · split at h <;> cases h

theorem Inv.request {p q : Party} (h : Inv p q) (created : Bool) {x : Uuid}
    {rest : List TunnelMsg} (ho : q.outbox=.request x::rest) (hok : Resolvable p q x)
    (status : Nat) :
    Inv {p with
        tunnel := (handleTunnelNewRequest p.signedChar created x p.tunnel).2
        outbox := p.outbox++[.reply status x]}
      {q with outbox := rest} := by
  have hq : requests q.outbox=x::requests rest := by rw [ho]; rfl
  have hrest : requests rest=[] := by
    have := h.there.one
    rw [hq,List.length_cons] at this
    exact List.eq_nil_of_length_eq_zero (by omega)
  have hp : requests (p.outbox++[.reply status x])=requests p.outbox := by
    simp [requests_append,requests]
  have hask := h.there.asked x (by rw [hq]; exact List.mem_cons_self)
  refine ⟨⟨by rw [hp]; exact h.here.one,?_,?_⟩,⟨by simp [hrest],?_,?_⟩,?_⟩
  · intro y hy
    exact absurd hy (handleTunnelNewRequest_not_pending _ _ _ _ _)
  · intro z hz
    rw [hp] at hz
    have hz' : requests p.outbox ≠ [] := List.ne_nil_of_mem hz
    have hold : p.Holds z := by
      rcases h.here.asked z hz with ⟨hh,_⟩ | ⟨hr,_⟩
      · exact hh
      · rw [hq] at hr
        cases hr
    have hqx : q.Holds x := by
      rcases hask with ⟨hh,_⟩ | ⟨hr,_⟩
      · exact hh
      · exact absurd hr hz'
    rcases handleTunnelNewRequest_renames created hok hold with ⟨hk,hc⟩ | ⟨hr,hhi⟩
    · refine .inl ⟨hk,.inr ?_⟩
      intro y hy hne
      have hyx : y=x := Holds.unique ⟨_,hy⟩ hqx
      subst y
      exact .inl (hc.resolve_left hne)
    · exact .inr ⟨hrest,x,hr,hqx,hhi⟩
  · intro y hy
    right
    rcases h.there.answered y hy with hm | ⟨st,hm⟩
    · rw [hq,hrest,List.mem_singleton] at hm
      subst y
      exact ⟨status,List.mem_append_right _ List.mem_cons_self⟩
    · exact ⟨st,List.mem_append_left _ hm⟩
  · intro z hz
    rw [hrest] at hz
    cases hz
  · intro hr _ a b ha hb
    rw [hp] at hr
    have ha' := handleTunnelNewRequest_holds created hok ha
    rcases hask with ⟨hx,hc⟩ | ⟨_,y,hqy,hpy,hhi⟩
    · rw [show b=x from Holds.unique hb hx]
      by_contra hne
      obtain ⟨_,hpend,hlow⟩ := ha'.resolve_left hne
      have hlow' : requestIsHigher q.signedChar a x=false := by
        have := hc.resolve_left (fun hn => hn hr) a hpend hne
        rw [ho] at this
        exact this.resolve_right id
      exact hne (eq_of_not_requestIsHigher hlow' hlow)
    · rw [show b=y from Holds.unique hb hqy]
      by_cases hyx : y=x
      · rcases ha' with hax | ⟨hpa,_⟩
        · rw [hax,hyx]
        · exact hpa.unique hpy
      · rcases handleTunnelNewRequest_renames created hok hpy with ⟨hk,_⟩ | ⟨_,hr'⟩
        · exact Holds.unique ha hk
        · obtain ⟨st,ht⟩ := hpy
          exact absurd ⟨hr',hhi⟩ (hok ⟨y,st⟩ ht hyx).2.2

theorem Inv.receive {p q p' q' : Party} (h : Inv p q) (created : Bool)
    (hok : ∀ x ∈ nextRequest q.outbox, Resolvable p q x)
    (hs : p.receive created q=some (p',q')) : Inv p' q' := by
  unfold Party.receive at hs
  split at hs
  · cases hs
  · next id rest ho =>
    cases hs
    exact h.request created ho (hok id (by rw [ho]; rfl)) _
  · next status id rest ho =>
    cases hs
    exact h.reply ho

theorem inv_view {s : TunnelPair} (h : Inv s.left s.right) (side : Side) :
    Inv (s.view side).1 (s.view side).2 := by
  cases side
  · exact h
  · exact h.swap

theorem inv_ofView {p q : Party} (h : Inv p q) (side : Side) :
    Inv (ofView side (p,q)).left (ofView side (p,q)).right := by
  cases side
  · exact h
  · exact h.swap

/-- Orderly steps keep the two ends consistent. -/
theorem inv_step (e : TunnelEvent) (s t : TunnelPair) (hok : Orderly e s) (hs : step e s=some t)
    (h : Inv s.left s.right) : Inv t.left t.right := by
  cases e with
  | create side sent added id =>
    cases hs
    exact inv_ofView ((inv_view h side).create sent added id hok) side
  | drop side =>
    cases hs
    obtain ⟨hl,hr⟩ := hok
    refine inv_ofView ((inv_view h side).drop ?_ ?_) side
    all_goals
      cases side
      all_goals assumption
  | receive side created =>
    simp only [step,Option.map_eq_some_iff] at hs
    obtain ⟨⟨p,q⟩,hr,rfl⟩ := hs
    exact inv_ofView ((inv_view h side).receive created hok hr) side

/-- In every orderly run the two nodes agree on the id of an established tunnel. -/
theorem tunnel_ids_agree (leftSigned rightSigned : Bool) (es : List TunnelEvent) (s : TunnelPair)
    (hr : Runs step Orderly (init leftSigned rightSigned) es s) : s.Agrees := by
  have h : Inv s.left s.right :=
    hr.invariant (fun s => Inv s.left s.right) inv_step (init_inv leftSigned rightSigned)
  intro hl hq x y hx hy
  exact h.same (by rw [hl]; rfl) (by rw [hq]; rfl) x y ⟨_,hx⟩ ⟨_,hy⟩

/-- Crossing requests with ids of which one is higher in every digit. -/
theorem tunnel_ids_agree_crossing :
    Agrees ⟨⟨true,some ⟨.gen fun _ => 2,.enabled⟩,[]⟩,⟨true,some ⟨.gen fun _ => 2,.enabled⟩,[]⟩⟩ :=
  tunnel_ids_agree true true
    [.create .left true true (.gen fun _ => 1),.create .right true true (.gen fun _ => 2),
      .receive .left true,.receive .right true,.receive .left true,.receive .right true]
    _ (.of_runChecked (by decide))

/-- Crossing requests for 12222222-… and 21111111-…: each id is higher than the other,
so the two nodes swap them. And a request whose tunnel could not be listed: its sender takes
over the id of the other node, which has taken over the one requested. -/
theorem crossing_requests_swap_ids :
    (∃ s, Runs step (fun _ _ => True) (init true true)
      [.create .left true true (.gen fun i => if i=0 then 1 else 2),
        .create .right true true (.gen fun i => if i=0 then 2 else 1),
        .receive .left true,.receive .right true,.receive .left true,.receive .right true] s ∧
      s.left.outbox=[] ∧ s.right.outbox=[] ∧
      s.left.tunnel=some ⟨.gen fun i => if i=0 then 2 else 1,.enabled⟩ ∧
      s.right.tunnel=some ⟨.gen fun i => if i=0 then 1 else 2,.enabled⟩ ∧ ¬s.Agrees) ∧
    ∃ s, Runs step (fun _ _ => True) (init true true)
      [.create .left true false (.gen fun _ => 2),.create .right true true (.gen fun _ => 1),
        .receive .left true,.receive .right true,.receive .left true,.receive .right true] s ∧
      s.left.outbox=[] ∧ s.right.outbox=[] ∧
      s.left.tunnel=some ⟨.gen fun _ => 1,.enabled⟩ ∧
      s.right.tunnel=some ⟨.gen fun _ => 2,.enabled⟩ ∧ ¬s.Agrees := by
  constructor
  · refine ⟨⟨⟨true,some ⟨.gen fun i => if i=0 then 2 else 1,.enabled⟩,[]⟩,
      ⟨true,some ⟨.gen fun i => if i=0 then 1 else 2,.enabled⟩,[]⟩⟩,
      .of_runChecked (by decide),rfl,rfl,rfl,rfl,?_⟩
    intro h
    exact absurd (h rfl rfl _ _ rfl rfl) (by decide)
  · refine ⟨⟨⟨true,some ⟨.gen fun _ => 1,.enabled⟩,[]⟩,⟨true,some ⟨.gen fun _ => 2,.enabled⟩,[]⟩⟩,
      .of_runChecked (by decide),rfl,rfl,rfl,rfl,?_⟩
    intro h
    exact absurd (h rfl rfl _ _ rfl rfl) (by decide)

end TunnelPair

end CalvinConstrained
