import CalvinConstrained.Runtime.Message
import CalvinConstrained.Runtime.NodeRun
import CalvinConstrained.Runtime.Touch
import CalvinConstrained.Runtime.TypedLookup

namespace CalvinConstrained

namespace Atom

def actorNamedIn (name : Text) : List Ref → Atom (Option Ref)
  | [] => return none
  | a::as => do
      match (← actor a).name with
      | none => undefined
      | some n =>
        if strncmpEq n name.ptr name.len then
          return some a
        actorNamedIn name as

/-- `cc_actor_get_from_name`. -/
def actorGetFromName (name : Text) : Atom (Option Ref) := do
  actorNamedIn name (← get).actors

def portNamedIn (name : Text) (direction : PortDirection) : List Ref → Atom (Option Ref)
  | [] => return none
  | p::ps => do
      let x ← port p
      if x.direction=direction && strncmpEq x.name name.ptr name.len then
        return some p
      portNamedIn name direction ps

def portsFor (x : Actor) : PortDirection → List Ref
  | .dirIn => x.inPorts
  | .dirOut => x.outPorts

/-- `cc_port_get_from_name`. -/
def portGetFromName (a : Ref) (name : Text) (direction : PortDirection) : Atom (Option Ref) := do
  portNamedIn name direction (portsFor (← actor a) direction)

end Atom

/-- The first item that has the name. -/
def firstNamed (nameOf : Ref → Option Bytes) (refs : List Ref) (name : Bytes) : Option Ref :=
  refs.find? fun r => decide (nameOf r=some name)

/-- No item in front of the first one with the name has a longer name, or one that the name goes on
from with a NUL. -/
def Unshadowed (nameOf : Ref → Option Bytes) (refs : List Ref) (name : Bytes) : Prop :=
  ∀ r ∈ refs.takeWhile (fun r => decide (nameOf r ≠ some name)), ∀ n, nameOf r=some n →
    ¬name <+: n ∧ ¬n++[0] <+: name

section Scan

variable {nameOf : Ref → Option Bytes} {refs : List Ref} {t : Text}

/-- What a scan with a comparison over the length of the text finds. -/
def scanNames (nameOf : Ref → Option Bytes) (refs : List Ref) (t : Text) : Option Ref :=
  refs.find? fun r => (nameOf r).any fun n => strncmpEq n t.ptr t.len

theorem firstNamed_some {name : Bytes} {r : Ref} (h : firstNamed nameOf refs name=some r) :
    r ∈ refs ∧ nameOf r=some name := by
  rw [firstNamed] at h
  exact ⟨List.mem_of_find?_eq_some h,by simpa using List.find?_some h⟩

theorem firstNamed_none {name : Bytes} :
    firstNamed nameOf refs name=none ↔ ∀ r ∈ refs, nameOf r ≠ some name := by
  simp [firstNamed]

theorem find?_eq_find?_iff {p q : Ref → Bool} (hqp : ∀ r, q r=true → p r=true) :
    refs.find? p=refs.find? q ↔ ∀ r ∈ refs.takeWhile (fun r => !q r), p r=false := by
  induction refs with
  | nil => simp
  | cons r refs ih =>
    cases hq : q r with
    | true => simp [hq,hqp r hq]
    | false =>
      cases hp : p r with
      | true =>
        refine iff_of_false (fun h => ?_) (by simp [hq,hp])
        rw [List.find?_cons_of_pos hp] at h
        exact absurd (List.find?_some h.symm) (by simp [hq])
      | false =>
        rw [List.find?_cons_of_neg (by simp [hp]),List.find?_cons_of_neg (by simp [hq]),ih]
        simp [hq,hp]

/-- A scan finds the first item with the name exactly when that is not shadowed. -/
theorem scanNames_iff (hnul : ∀ r n, nameOf r=some n → 0 ∉ n) (ht : t.len ≤ t.ptr.length) :
    scanNames nameOf refs t=firstNamed nameOf refs t.content ↔ Unshadowed nameOf refs t.content := by
  have hhit : ∀ r n, nameOf r=some n → (strncmpEq n t.ptr t.len=true ↔
      t.content <+: n ∨ n++[0] <+: t.content) := by
    intro r n hn
    rw [← strncmpEq_text (hnul r n hn) ht,strncmpEq,strncmpEq,decide_eq_true_eq,decide_eq_true_eq,
      eq_comm]
  rw [scanNames,firstNamed,find?_eq_find?_iff,Unshadowed]
  · have hnot : (fun r => !decide (nameOf r=some t.content))=
        fun r => decide (nameOf r ≠ some t.content) := by
      funext r
      simp
    rw [hnot]
    refine forall₂_congr fun r _ => ?_
    cases hn : nameOf r with
    | none => simp
    | some n =>
      rw [Option.any_some,Bool.eq_false_iff,ne_eq,hhit r n hn,not_or]
      simp
  · intro r hr
    have hn := of_decide_eq_true hr
    rw [hn,Option.any_some,hhit r _ hn]
    exact .inl List.prefix_rfl

end Scan

namespace Node

def linkName (s : Node) (l : Ref) : Option Bytes := (s.linkMem.get l).map fun y => cstr y.peerId

/-- The name of the other end of a tunnel of the given type. -/
def tunnelName (s : Node) (type : TunnelType) (r : Ref) : Option Bytes :=
  (s.tunnelMem.get r).bind fun x => if x.type=type then s.linkName x.link else none

def peerPortName (s : Node) (p : Ref) : Option Bytes :=
  (s.portMem.get p).map fun x => cstr x.peerPortId

def actorName (s : Node) (a : Ref) : Option Bytes := (s.actorMem.get a).bind fun x => x.name.map cstr

def portName (s : Node) (direction : PortDirection) (p : Ref) : Option Bytes :=
  (s.portMem.get p).bind fun x => if x.direction=direction then some (cstr x.name) else none

end Node

theorem cstr_no_nul (b : Bytes) : 0 ∉ cstr b := by
  intro h
  simpa using List.mem_takeWhile_imp h

theorem Node.linkName_no_nul {s : Node} {l : Ref} {n : Bytes} (h : s.linkName l=some n) : 0 ∉ n := by
  obtain ⟨y,-,rfl⟩ := Option.map_eq_some_iff.mp h
  exact cstr_no_nul _

theorem Node.tunnelName_no_nul {s : Node} {type : TunnelType} {r : Ref} {n : Bytes}
    (h : s.tunnelName type r=some n) : 0 ∉ n := by
  obtain ⟨y,-,hy⟩ := Option.bind_eq_some_iff.mp h
  split at hy
  · exact linkName_no_nul hy
  · cases hy

theorem strncmpEq_cstr (a b : Bytes) (n : Nat) : strncmpEq (cstr a) b n=strncmpEq a b n := by
  have hidem : cstr (cstr a)=cstr a := cstr_of_not_mem (cstr_no_nul a)
  rw [strncmpEq,strncmpEq,cstr_take (cstr a),cstr_take a,hidem]

namespace Atom

variable {t : Text} {s u : Node} {found : Option Ref}

/-- A loop that stops at the first item it is looking for. -/
theorem find_of_loop {hit : Ref → Bool} {l : List Ref → Atom (Option Ref)}
    (hnil : l [] s=some (none,s))
    (hcons : ∀ r rs found u, l (r::rs) s=some (found,u) →
      hit r=true ∧ u=s ∧ found=some r ∨ hit r=false ∧ l rs s=some (found,u))
    (rs : List Ref) (h : l rs s=some (found,u)) : u=s ∧ found=rs.find? hit := by
  induction rs with
  | nil =>
    rw [hnil] at h
    cases h
    exact ⟨rfl,rfl⟩
  | cons r rs ih =>
    rcases hcons r rs found u h with ⟨hhit,rfl,rfl⟩ | ⟨hmiss,hrest⟩
    · exact ⟨rfl,(List.find?_cons_of_pos hhit).symm⟩
    · obtain ⟨hu,hf⟩ := ih hrest
      exact ⟨hu,hf.trans (List.find?_cons_of_neg (by simp [hmiss])).symm⟩

/-- A search through the ports of one actor after the other. -/
theorem find_of_actors {hit : Ref → Bool} {l search : List Ref → Atom (Option Ref)}
    (hsearch : ∀ ps found u, search ps s=some (found,u) → u=s ∧ found=ps.find? hit)
    (hnil : l [] s=some (none,s))
    (hcons : ∀ a as found u, l (a::as) s=some (found,u) → ∃ x first v,
      s.actorMem.get a=some x ∧ search x.ports s=some (first,v) ∧
      ((∃ p, first=some p ∧ found=some p ∧ u=v) ∨ first=none ∧ l as v=some (found,u)))
    (as : List Ref) (h : l as s=some (found,u)) : u=s ∧ found=(as.flatMap s.portsOf).find? hit := by
  induction as with
  | nil =>
    rw [hnil] at h
    cases h
    exact ⟨rfl,rfl⟩
  | cons a as ih =>
    obtain ⟨x,first,v,hx,hscan,hcase⟩ := hcons a as found u h
    obtain ⟨rfl,hfirst⟩ := hsearch _ _ _ hscan
    have hof : v.portsOf a=x.ports := by rw [Node.portsOf,hx]; rfl
    rw [List.flatMap_cons,hof,List.find?_append,← hfirst]
    rcases hcase with ⟨p,rfl,rfl,rfl⟩ | ⟨rfl,hrest⟩
    · exact ⟨rfl,rfl⟩
    · exact ih hrest

theorem linkGet_scan (h : linkGet t s=some (found,u)) : u=s ∧ found=scanNames s.linkName s.links t := by
  refine find_of_loop (l := linkGetFrom t) rfl ?_ s.links h
  intro l ls found u h
  obtain ⟨y,v,hread,h₁⟩ := bind_eq_some.mp h
  obtain ⟨hy,rfl⟩ := link_eq_some hread
  rw [Node.linkName,hy,Option.map_some,Option.any_some,strncmpEq_cstr]
  split at h₁
  · next hmatch =>
    cases h₁
    exact .inl ⟨hmatch,rfl,rfl⟩
  · next hmatch => exact .inr ⟨Bool.eq_false_iff.mpr hmatch,h₁⟩

theorem tunnelGetFromPeerid_scan {type : TunnelType}
    (h : tunnelGetFromPeeridAndType t type s=some (found,u)) :
    u=s ∧ found=scanNames (s.tunnelName type) s.tunnels t := by
  refine find_of_loop (l := tunnelGetFromPeeridIn t type) rfl ?_ s.tunnels h
  intro r ts found u h
  obtain ⟨x,v,hread,h₁⟩ := bind_eq_some.mp h
  obtain ⟨hx,rfl⟩ := tunnel_eq_some hread
  rw [Node.tunnelName,hx,Option.bind_some]
  dsimp only at h₁
  split at h₁
  · next htype =>
    obtain ⟨y,w,hread,h₂⟩ := bind_eq_some.mp h₁
    obtain ⟨hy,rfl⟩ := link_eq_some hread
    rw [if_pos htype,Node.linkName,hy,Option.map_some,Option.any_some,strncmpEq_cstr]
    split at h₂
    · next hmatch =>
      cases h₂
      exact .inl ⟨hmatch,rfl,rfl⟩
    · next hmatch => exact .inr ⟨Bool.eq_false_iff.mpr hmatch,h₂⟩
  · next htype =>
    rw [if_neg htype]
    exact .inr ⟨rfl,h₁⟩

theorem portWithPeerIn_scan {ps : List Ref} (h : portWithPeerIn t ps s=some (found,u)) :
    u=s ∧ found=scanNames s.peerPortName ps t := by
  refine find_of_loop (l := portWithPeerIn t) rfl ?_ ps h
  intro p ps found u h
  obtain ⟨x,v,hread,h₁⟩ := bind_eq_some.mp h
  obtain ⟨hx,rfl⟩ := port_eq_some hread
  rw [Node.peerPortName,hx,Option.map_some,Option.any_some,strncmpEq_cstr]
  split at h₁
  · next hmatch =>
    cases h₁
    exact .inl ⟨hmatch,rfl,rfl⟩
  · next hmatch => exact .inr ⟨Bool.eq_false_iff.mpr hmatch,h₁⟩

theorem portGetFromPeerPortId_scan (h : portGetFromPeerPortId t s=some (found,u)) :
    u=s ∧ found=scanNames s.peerPortName s.listedPorts t := by
  refine find_of_actors (l := portGetFromPeerPortIdIn t) (fun _ _ _ => portWithPeerIn_scan) rfl ?_
    s.actors h
  intro a as found u h
  obtain ⟨x,v,hread,h₁⟩ := bind_eq_some.mp h
  obtain ⟨hx,rfl⟩ := actor_eq_some hread
  obtain ⟨first,w,hscan,h₂⟩ := bind_eq_some.mp h₁
  refine ⟨x,first,w,hx,hscan,?_⟩
  cases first with
  | some p =>
    cases h₂
    exact .inl ⟨p,rfl,rfl,rfl⟩
  | none => exact .inr ⟨rfl,h₂⟩

/-- `cc_port_get` finds the first port whose id passes the comparison of lengths and bytes. -/
theorem portGet_find (h : portGet t s=some (found,u)) :
    u=s ∧ found=s.listedPorts.find? fun p => (s.portMem.get p).any fun x => listIdMatches x.id t := by
  have hin : ∀ ps found u, portIn t ps s=some (found,u) →
      u=s ∧ found=ps.find? fun p => (s.portMem.get p).any fun x => listIdMatches x.id t := by
    intro ps found u h
    refine find_of_loop (l := portIn t) rfl ?_ ps h
    intro p ps found u h
    obtain ⟨x,v,hread,h₁⟩ := bind_eq_some.mp h
    obtain ⟨hx,rfl⟩ := port_eq_some hread
    rw [hx,Option.any_some]
    split at h₁
    · next hmatch =>
      cases h₁
      exact .inl ⟨hmatch,rfl,rfl⟩
    · next hmatch => exact .inr ⟨Bool.eq_false_iff.mpr hmatch,h₁⟩
  refine find_of_actors (l := portGetFrom t) hin rfl ?_ s.actors h
  intro a as found u h
  obtain ⟨x,v,hread,h₁⟩ := bind_eq_some.mp h
  obtain ⟨hx,rfl⟩ := actor_eq_some hread
  obtain ⟨first,w,hscan,h₂⟩ := bind_eq_some.mp h₁
  refine ⟨x,first,w,hx,hscan,?_⟩
  cases first with
  | some p =>
    cases h₂
    exact .inl ⟨p,rfl,rfl,rfl⟩
  | none => exact .inr ⟨rfl,h₂⟩

theorem actorGetFromName_scan (h : actorGetFromName t s=some (found,u)) :
    u=s ∧ found=scanNames s.actorName s.actors t := by
  refine find_of_loop (l := actorNamedIn t) rfl ?_ s.actors h
  intro a as found u h
  obtain ⟨x,v,hread,h₁⟩ := bind_eq_some.mp h
  obtain ⟨hx,rfl⟩ := actor_eq_some hread
  cases hn : x.name with
  | none =>
    rw [hn] at h₁
    cases h₁
  | some n =>
    rw [hn] at h₁
    rw [Node.actorName,hx,Option.bind_some,hn,Option.map_some,Option.any_some,strncmpEq_cstr]
    dsimp only at h₁
    split at h₁
    · next hmatch =>
      cases h₁
      exact .inl ⟨hmatch,rfl,rfl⟩
    · next hmatch => exact .inr ⟨Bool.eq_false_iff.mpr hmatch,h₁⟩

theorem portGetFromName_scan {a : Ref} {direction : PortDirection}
    (h : portGetFromName a t direction s=some (found,u)) :
    u=s ∧ ∃ x, s.actorMem.get a=some x ∧
      found=scanNames (s.portName direction) (portsFor x direction) t := by
  obtain ⟨x,v,hread,h₁⟩ := bind_eq_some.mp h
  obtain ⟨hx,rfl⟩ := actor_eq_some hread
  suffices hscan : u=v ∧ found=scanNames (v.portName direction) (portsFor x direction) t from
    ⟨hscan.1,x,hx,hscan.2⟩
  refine find_of_loop (l := portNamedIn t direction) rfl ?_ _ h₁
  intro p ps found u h
  obtain ⟨y,w,hread,h₂⟩ := bind_eq_some.mp h
  obtain ⟨hy,rfl⟩ := port_eq_some hread
  rw [Node.portName,hy,Option.bind_some]
  by_cases hdir : y.direction=direction
  · rw [if_pos hdir,Option.any_some,strncmpEq_cstr]
    split at h₂
    · next hmatch =>
      cases h₂
      rw [Bool.and_eq_true] at hmatch
      exact .inl ⟨hmatch.2,rfl,rfl⟩
    · next hmatch =>
      refine .inr ⟨Bool.eq_false_iff.mpr fun hm => hmatch ?_,h₂⟩
      rw [hm,Bool.and_true,decide_eq_true_eq]
      exact hdir
  · rw [if_neg hdir]
    rw [if_neg (by simp [hdir])] at h₂
    exact .inr ⟨rfl,h₂⟩

end Atom

/-- All lookups by a name that is not unique in the first bytes: each gives the first item with
exactly the requested name, or none, exactly when that item is not shadowed. -/
theorem lookups_exact_iff (s : Node) {t : Text} (ht : t.len ≤ t.ptr.length) :
    (∀ found u, Atom.linkGet t s=some (found,u) →
      (found=firstNamed s.linkName s.links t.content ↔
        Unshadowed s.linkName s.links t.content)) ∧
    (∀ type found u, Atom.tunnelGetFromPeeridAndType t type s=some (found,u) →
      (found=firstNamed (s.tunnelName type) s.tunnels t.content ↔
        Unshadowed (s.tunnelName type) s.tunnels t.content)) ∧
    (∀ found u, Atom.portGetFromPeerPortId t s=some (found,u) →
      (found=firstNamed s.peerPortName s.listedPorts t.content ↔
        Unshadowed s.peerPortName s.listedPorts t.content)) ∧
    (∀ a x direction found u, s.actorMem.get a=some x →
      Atom.portGetFromName a t direction s=some (found,u) →
      (found=firstNamed (s.portName direction) (Atom.portsFor x direction) t.content ↔
        Unshadowed (s.portName direction) (Atom.portsFor x direction) t.content)) ∧
    (∀ found u, Atom.actorGetFromName t s=some (found,u) →
      (found=firstNamed s.actorName s.actors t.content ↔
        Unshadowed s.actorName s.actors t.content)) := by
  refine ⟨fun found u h => ?_,fun type found u h => ?_,fun found u h => ?_,
    fun a x direction found u hx h => ?_,fun found u h => ?_⟩
  · rw [(Atom.linkGet_scan h).2]
    exact scanNames_iff (fun _ _ => Node.linkName_no_nul) ht
  · rw [(Atom.tunnelGetFromPeerid_scan h).2]
    exact scanNames_iff (fun _ _ => Node.tunnelName_no_nul) ht
  · rw [(Atom.portGetFromPeerPortId_scan h).2]
    refine scanNames_iff (fun r n hn => ?_) ht
    obtain ⟨y,-,rfl⟩ := Option.map_eq_some_iff.mp hn
    exact cstr_no_nul _
  · obtain ⟨-,y,hy,hf⟩ := Atom.portGetFromName_scan h
    cases hx.symm.trans hy
    rw [hf]
    refine scanNames_iff (fun r n hn => ?_) ht
    obtain ⟨z,-,hz⟩ := Option.bind_eq_some_iff.mp hn
    split at hz
    · cases hz
      exact cstr_no_nul _
    · cases hz
  · rw [(Atom.actorGetFromName_scan h).2]
    refine scanNames_iff (fun r n hn => ?_) ht
    obtain ⟨y,-,hy⟩ := Option.bind_eq_some_iff.mp hn
    obtain ⟨m,-,rfl⟩ := Option.map_eq_some_iff.mp hy
    exact cstr_no_nul _

/-- A node that has joined `px`, with further tunnels and three actors. Names that start with
another one come behind it. -/
def severalNames : List (Event × Fate) :=
  joining++[(.message (Message.tunnelNew "py" "v1"),.fresh 4),
    (.message (Message.tunnelNew "pyz" "v2"),.fresh 5),
    (.actorCreate (Message.actor "t" "ac" [] [⟨"p1",none,"q1",none⟩]),.fresh 10),
    (.actorCreate (Message.actor "t" "ab" [] [⟨"p2",none,"q2",none⟩,⟨"p3",none,"q3",none⟩,
      ⟨"p34",none,"q34",none⟩]),.fresh 11),
    (.actorCreate (Message.actor "t" "abc" [] [⟨"p5",none,"q5",none⟩]),.fresh 12)]

theorem lookups_exact_several :
    ∃ s x, Runs (Event.step msgpack) (fun _ _ => True) (.init bareHost) severalNames s ∧
      s.actorMem.get 1=some x ∧
      (firstNamed s.linkName s.links (ascii "py")=some 1 ∧
        Unshadowed s.linkName s.links (ascii "py")) ∧
      (firstNamed (s.tunnelName .token) s.tunnels (ascii "py")=some 2 ∧
        Unshadowed (s.tunnelName .token) s.tunnels (ascii "py")) ∧
      (firstNamed s.peerPortName s.listedPorts (ascii "q3")=some 2 ∧
        Unshadowed s.peerPortName s.listedPorts (ascii "q3")) ∧
      (firstNamed (s.portName .dirOut) (Atom.portsFor x .dirOut) (ascii "p3")=some 2 ∧
        Unshadowed (s.portName .dirOut) (Atom.portsFor x .dirOut) (ascii "p3")) ∧
      firstNamed s.actorName s.actors (ascii "ab")=some 1 ∧
        Unshadowed s.actorName s.actors (ascii "ab") := by
  have hrun : (Event.runAll (Event.step msgpack) severalNames (.init bareHost)).any (fun s =>
      (s.actorMem.get 1).any fun x =>
        decide (((Atom.linkGet (.ofString (ascii "py")) s).map Prod.fst=some (some 1) ∧
          firstNamed s.linkName s.links (ascii "py")=some 1) ∧
        ((Atom.tunnelGetFromPeeridAndType (.ofString (ascii "py")) .token s).map Prod.fst=
            some (some 2) ∧
          firstNamed (s.tunnelName .token) s.tunnels (ascii "py")=some 2) ∧
        ((Atom.portGetFromPeerPortId (.ofString (ascii "q3")) s).map Prod.fst=some (some 2) ∧
          firstNamed s.peerPortName s.listedPorts (ascii "q3")=some 2) ∧
        ((Atom.portGetFromName 1 (.ofString (ascii "p3")) .dirOut s).map Prod.fst=some (some 2) ∧
          firstNamed (s.portName .dirOut) (Atom.portsFor x .dirOut) (ascii "p3")=some 2) ∧
        (Atom.actorGetFromName (.ofString (ascii "ab")) s).map Prod.fst=some (some 1) ∧
          firstNamed s.actorName s.actors (ascii "ab")=some 1))=true := by decide +kernel
  obtain ⟨s,hs,hany⟩ := exists_of_any hrun
  obtain ⟨x,hx,hdec⟩ := exists_of_any hany
  obtain ⟨⟨hlink,hfirst₁⟩,⟨htunnel,hfirst₂⟩,⟨hpeer,hfirst₃⟩,⟨hport,hfirst₄⟩,hname,hfirst₅⟩ :=
    of_decide_eq_true hdec
  obtain ⟨⟨found₁,u₁⟩,hget₁,rfl⟩ := Option.map_eq_some_iff.mp hlink
  obtain ⟨⟨found₂,u₂⟩,hget₂,rfl⟩ := Option.map_eq_some_iff.mp htunnel
  obtain ⟨⟨found₃,u₃⟩,hget₃,rfl⟩ := Option.map_eq_some_iff.mp hpeer
  obtain ⟨⟨found₄,u₄⟩,hget₄,rfl⟩ := Option.map_eq_some_iff.mp hport
  obtain ⟨⟨found₅,u₅⟩,hget₅,rfl⟩ := Option.map_eq_some_iff.mp hname
  refine ⟨s,x,Event.runs_of_step msgpack hs,hx,⟨hfirst₁,?_⟩,⟨hfirst₂,?_⟩,⟨hfirst₃,?_⟩,
    ⟨hfirst₄,?_⟩,hfirst₅,?_⟩
  · exact ((lookups_exact_iff s (t := .ofString (ascii "py")) (by decide)).1 _ u₁ hget₁).mp
      hfirst₁.symm
  · exact ((lookups_exact_iff s (t := .ofString (ascii "py")) (by decide)).2.1 .token _ u₂ hget₂).mp
      hfirst₂.symm
  · exact ((lookups_exact_iff s (t := .ofString (ascii "q3")) (by decide)).2.2.1 _ u₃ hget₃).mp
      hfirst₃.symm
  · exact ((lookups_exact_iff s (t := .ofString (ascii "p3")) (by decide)).2.2.2.1 1 x .dirOut _ u₄
      hx hget₄).mp hfirst₄.symm
  · exact ((lookups_exact_iff s (t := .ofString (ascii "ab")) (by decide)).2.2.2.2 _ u₅ hget₅).mp
      hfirst₅.symm

/-- An actor with a port on a node that has joined `px`. -/
def joinedActor : List (Event × Fate) :=
  joining++[(.actorCreate (Message.actor "t" "ab" [] [⟨"pq",none,"qr",none⟩]),.fresh 10)]

/-- Beginnings of names are taken for the names. -/
theorem lookups_by_beginning :
    ∃ s, Runs (Event.step msgpack) (fun _ _ => True) (.init bareHost) joinedActor s ∧
      ((Atom.linkGet (.ofString (ascii "p")) s).map Prod.fst=some (some 0) ∧
        firstNamed s.linkName s.links (ascii "p")=none) ∧
      ((Atom.tunnelGetFromPeeridAndType (.ofString (ascii "p")) .storage s).map Prod.fst=
          some (some 0) ∧
        firstNamed (s.tunnelName .storage) s.tunnels (ascii "p")=none) ∧
      ((Atom.portGetFromPeerPortId (.ofString (ascii "q")) s).map Prod.fst=some (some 0) ∧
        firstNamed s.peerPortName s.listedPorts (ascii "q")=none) ∧
      ((Atom.portGetFromName 0 (.ofString (ascii "p")) .dirOut s).map Prod.fst=some (some 0) ∧
        firstNamed (s.portName .dirOut) (s.portsOf 0) (ascii "p")=none) ∧
      ((Atom.actorGetFromName (.ofString []) s).map Prod.fst=some (some 0) ∧
        firstNamed s.actorName s.actors []=none) := by
  have hrun : (Event.runAll (Event.step msgpack) joinedActor (.init bareHost)).any (fun s =>
      decide (((Atom.linkGet (.ofString (ascii "p")) s).map Prod.fst=some (some 0) ∧
        firstNamed s.linkName s.links (ascii "p")=none) ∧
      ((Atom.tunnelGetFromPeeridAndType (.ofString (ascii "p")) .storage s).map Prod.fst=
          some (some 0) ∧
        firstNamed (s.tunnelName .storage) s.tunnels (ascii "p")=none) ∧
      ((Atom.portGetFromPeerPortId (.ofString (ascii "q")) s).map Prod.fst=some (some 0) ∧
        firstNamed s.peerPortName s.listedPorts (ascii "q")=none) ∧
      ((Atom.portGetFromName 0 (.ofString (ascii "p")) .dirOut s).map Prod.fst=some (some 0) ∧
        firstNamed (s.portName .dirOut) (s.portsOf 0) (ascii "p")=none) ∧
      ((Atom.actorGetFromName (.ofString []) s).map Prod.fst=some (some 0) ∧
        firstNamed s.actorName s.actors []=none)))=true := by decide +kernel
  obtain ⟨s,hs,hdec⟩ := exists_of_any hrun
  exact ⟨s,Event.runs_of_step msgpack hs,of_decide_eq_true hdec⟩

end CalvinConstrained
