import CalvinConstrained.Framework.Run

namespace CalvinConstrained

namespace Runs

variable {ι σ : Type*} {step : ι → σ → Option σ} {ok : ι → σ → Prop}

theorem append {s t u : σ} {is js : List ι} (h : Runs step ok s is t) (k : Runs step ok t js u) :
    Runs step ok s (is++js) u := by
  induction h with
  | nil => exact k
  | cons hok hs _ ih => exact .cons hok hs (ih k)

theorem split {s u : σ} {is js : List ι} (h : Runs step ok s (is++js) u) :
    ∃ t, Runs step ok s is t ∧ Runs step ok t js u := by
  induction is generalizing s with
  | nil => exact ⟨s,.nil s,h⟩
  | cons i is ih =>
    cases h with
    | cons hok hs hr =>
      obtain ⟨t,ht,hu⟩ := ih hr
      exact ⟨t,.cons hok hs ht,hu⟩

theorem unique {ok' : ι → σ → Prop} {s t u : σ} {is : List ι} (h : Runs step ok s is t)
    (k : Runs step ok' s is u) : t=u := by
  induction h with
  | nil =>
    cases k
    rfl
  | cons _ hs _ ih =>
    cases k with
    | cons _ hs' hr =>
      rw [hs] at hs'
      cases hs'
      exact ih hr

end Runs

/-- A program over a state `σ` that changes it only through the operations of `apply`.
A run gives the result, the final state and the operations performed, oldest first;
no outcome is undefined behaviour. -/
structure Prog {σ ω : Type} (apply : ω → σ → Option σ) (α : Type) where
  run : σ → Option (α × σ × List ω)
  runs : ∀ {s a t ops}, run s=some (a,t,ops) → Runs apply (fun _ _ => True) s ops t

namespace Prog

variable {σ ω α β : Type} {apply : ω → σ → Option σ}

protected def pure (a : α) : Prog apply α where
  run s := some (a,s,[])
  runs := by
    intro s b t ops h
    cases h
    exact .nil s

protected def bind (m : Prog apply α) (f : α → Prog apply β) : Prog apply β where
  run s :=
    match m.run s with
    | none => none
    | some (a,t,ops) =>
      match (f a).run t with
      | none => none
      | some (b,u,ops') => some (b,u,ops++ops')
  runs := by
    intro s b u ops h
    split at h
    · cases h
    · next a t ops₁ hm =>
      split at h
      · cases h
      · next b' u' ops₂ hf =>
        cases h
        exact (m.runs hm).append ((f a).runs hf)

instance : Monad (Prog apply) where
  pure := Prog.pure
  bind := Prog.bind

/-- Programs with the same runs are the same. -/
theorem ext_run {m m' : Prog apply α} (h : ∀ s, m.run s=m'.run s) : m=m' := by
  cases m with
  | mk run runs =>
    cases m' with
    | mk run' runs' =>
      obtain rfl : run=run' := funext h
      rfl

theorem pure_bind (a : α) (f : α → Prog apply β) : (pure a : Prog apply α) >>= f=f a := by
  refine ext_run fun s => ?_
  change (Prog.bind (Prog.pure a) f).run s=_
  simp only [Prog.bind,Prog.pure]
  cases (f a).run s with
  | none => rfl
  | some r => rfl

theorem bind_assoc {γ : Type} (m : Prog apply α) (f : α → Prog apply β) (g : β → Prog apply γ) :
    m >>= f >>= g=m >>= fun a => f a >>= g := by
  refine ext_run fun s => ?_
  change (Prog.bind (Prog.bind m f) g).run s=(Prog.bind m fun a => Prog.bind (f a) g).run s
  simp only [Prog.bind]
  cases m.run s with
  | none => rfl
  | some r =>
    dsimp only
    cases (f r.1).run r.2.1 with
    | none => rfl
    | some r' =>
      dsimp only
      cases (g r'.1).run r'.2.1 with
      | none => rfl
      | some r'' => simp

/-- The current state. -/
def read : Prog apply σ where
  run s := some (s,s,[])
  runs := by
    intro s b t ops h
    cases h
    exact .nil s

def undefined : Prog apply α where
  run _ := none
  runs := by
    intro s b t ops h
    cases h

/-- `none` stands for undefined behaviour of a computation that leaves the state alone. -/
def ofOption : Option α → Prog apply α
  | some a => pure a
  | none => undefined

theorem bind_ofOption {x : Option α} {a : α} (h : x=some a) (f : α → Prog apply β) :
    (ofOption x : Prog apply α) >>= f=f a := by
  rw [h,ofOption,pure_bind]

/-- One operation, with a result computed along with the new state. -/
def perform (op : ω) (f : σ → Option (α × σ)) (h : ∀ s, (f s).map Prod.snd=apply op s) :
    Prog apply α where
  run s := (f s).map fun r => (r.1,r.2,[op])
  runs := by
    intro s a t ops hr
    obtain ⟨⟨b,u⟩,hf,he⟩ := Option.map_eq_some_iff.mp hr
    cases he
    refine .cons trivial ?_ (.nil _)
    rw [← h s,hf]
    rfl

def act (op : ω) : Prog apply Unit :=
  perform op (fun s => (apply op s).map fun t => ((),t)) fun s => by
    cases apply op s <;> rfl

/-- The same program over more operations. -/
def lift {ω' : Type} {apply' : ω' → σ → Option σ} (f : ω → ω')
    (h : ∀ o s, apply' (f o) s=apply o s) (m : Prog apply α) : Prog apply' α where
  run s := (m.run s).map fun r => (r.1,r.2.1,r.2.2.map f)
  runs := by
    intro s a t ops hr
    obtain ⟨⟨b,u,os⟩,hm,he⟩ := Option.map_eq_some_iff.mp hr
    cases he
    have hruns := m.runs hm
    clear hm hr
    induction hruns with
    | nil => exact .nil _
    | cons _ hs _ ih => exact .cons trivial ((h _ _).trans hs) ih

/-- A loop over a list fixed at its start. -/
def each (f : β → Prog apply Unit) : List β → Prog apply Unit
  | [] => pure ()
  | b::bs => do
      f b
      each f bs

/-- The program runs from `s` to `t` with the result `a`. -/
def Yields (m : Prog apply α) (s : σ) (a : α) (t : σ) : Prop := ∃ ops, m.run s=some (a,t,ops)

section Results

variable {s t u : σ} {a : α} {b : β}

theorem yields_pure (a : α) (s : σ) : (pure a : Prog apply α).Yields s a s := ⟨[],rfl⟩

theorem yields_bind {m : Prog apply α} {f : α → Prog apply β} (hm : m.Yields s a t)
    (hf : (f a).Yields t b u) : (m >>= f).Yields s b u := by
  obtain ⟨ops,hm⟩ := hm
  obtain ⟨ops',hf⟩ := hf
  refine ⟨ops++ops',?_⟩
  change (Prog.bind m f).run s=some (b,u,ops++ops')
  simp only [Prog.bind,hm,hf]

theorem yields_act {o : ω} (h : apply o s=some t) : (act o : Prog apply Unit).Yields s () t := by
  refine ⟨[o],?_⟩
  simp only [act,perform,h]
  rfl

theorem yields_read (s : σ) : (read : Prog apply σ).Yields s s s := ⟨[],rfl⟩

theorem yields_ofOption (a : α) (s : σ) : (ofOption (some a) : Prog apply α).Yields s a s :=
  yields_pure a s

theorem yields_perform {o : ω} {f : σ → Option (α × σ)} {h : ∀ s, (f s).map Prod.snd=apply o s}
    (hf : f s=some (a,t)) : (perform o f h).Yields s a t :=
  ⟨[o],by simp [perform,hf]⟩

theorem yields_lift {ω' : Type} {apply' : ω' → σ → Option σ} {f : ω → ω'}
    {h : ∀ o s, apply' (f o) s=apply o s} {m : Prog apply α} (hm : m.Yields s a t) :
    (m.lift f h).Yields s a t := by
  obtain ⟨ops,hm⟩ := hm
  exact ⟨ops.map f,by simp [lift,hm]⟩

theorem Yields.of_bind {m : Prog apply α} {f : α → Prog apply β} (h : (m >>= f).Yields s b u) :
    ∃ a t, m.Yields s a t ∧ (f a).Yields t b u := by
  obtain ⟨ops,h⟩ := h
  change (Prog.bind m f).run s=_ at h
  unfold Prog.bind at h
  dsimp only at h
  split at h
  · cases h
  next a t ops₁ hm =>
  split at h
  · cases h
  next b' u' ops₂ hf =>
  cases h
  exact ⟨a,t,⟨ops₁,hm⟩,ops₂,hf⟩

theorem Yields.unique {m : Prog apply α} {a' : α} (h : m.Yields s a t) (k : m.Yields s a' u) :
    a=a' ∧ t=u := by
  obtain ⟨ops,h⟩ := h
  obtain ⟨ops',k⟩ := k
  cases h.symm.trans k
  exact ⟨rfl,rfl⟩

theorem Yields.of_perform {o : ω} {f : σ → Option (α × σ)} {hf : ∀ s, (f s).map Prod.snd=apply o s}
    (h : (perform o f hf).Yields s a t) : f s=some (a,t) := by
  obtain ⟨ops,h⟩ := h
  obtain ⟨r,hr,he⟩ := Option.map_eq_some_iff.mp h
  cases he
  exact hr

theorem Yields.of_act {o : ω} (h : (act o : Prog apply Unit).Yields s () t) : apply o s=some t := by
  obtain ⟨u,hu,he⟩ := Option.map_eq_some_iff.mp h.of_perform
  cases he
  exact hu

theorem Yields.of_ofOption {o : Option α} (h : (ofOption o : Prog apply α).Yields s a t) :
    o=some a ∧ t=s := by
  obtain ⟨ops,h⟩ := h
  cases o with
  | none => cases h
  | some b =>
    cases h
    exact ⟨rfl,rfl⟩

theorem Yields.of_lift {ω' : Type} {apply' : ω' → σ → Option σ} {f : ω → ω'}
    {hf : ∀ o s, apply' (f o) s=apply o s} {m : Prog apply α} (h : (m.lift f hf).Yields s a t) :
    m.Yields s a t := by
  obtain ⟨ops,h⟩ := h
  obtain ⟨⟨b,u,ops'⟩,hr,he⟩ := Option.map_eq_some_iff.mp h
  cases he
  exact ⟨ops',hr⟩

end Results

/-- A first part without operations leaves the run to the rest. -/
theorem run_bind_of_quiet {m : Prog apply α} {f : α → Prog apply β} {s : σ} {a : α}
    (hm : m.run s=some (a,s,[])) : (m >>= f).run s=(f a).run s := by
  change (Prog.bind m f).run s=_
  simp only [Prog.bind,hm]
  cases (f a).run s with
  | none => rfl
  | some r => rfl

/-- Partial correctness, for the runs whose operations all meet `ok`. -/
def Spec (ok : ω → σ → Prop) (P : σ → Prop) (m : Prog apply α) (Q : α → σ → Prop) : Prop :=
  ∀ s a t ops, m.run s=some (a,t,ops) → Runs apply ok s ops t → P s → Q a t

section Rules

variable {ok : ω → σ → Prop} {P P' : σ → Prop} {Q Q' : α → σ → Prop}

/-- What every operation preserves, every program preserves. -/
theorem spec_of_invariant (h : ∀ o s t, ok o s → apply o s=some t → P s → P t)
    (m : Prog apply α) : Spec ok P m (fun _ => P) :=
  fun _ _ _ _ _ hr hp => hr.invariant P h hp

theorem spec_pure (a : α) (h : ∀ s, P s → Q a s) : Spec ok P (pure a : Prog apply α) Q := by
  intro s b t ops hr _ hp
  cases hr
  exact h s hp

theorem spec_bind {R : β → σ → Prop} {m : Prog apply α} {f : α → Prog apply β}
    (hm : Spec ok P m Q) (hf : ∀ a, Spec ok (Q a) (f a) R) : Spec ok P (m >>= f) R := by
  intro s b u ops hr hruns hp
  change (Prog.bind m f).run s=some (b,u,ops) at hr
  simp only [Prog.bind] at hr
  split at hr
  · cases hr
  · next a t ops₁ hrun =>
    split at hr
    · cases hr
    · next b' u' ops₂ hrun' =>
      cases hr
      obtain ⟨t',h₁,h₂⟩ := hruns.split
      have ht : t'=t := h₁.unique (m.runs hrun)
      subst t'
      exact hf a _ _ _ _ hrun' h₂ (hm _ _ _ _ hrun h₁ hp)

theorem spec_read {Q : σ → σ → Prop} (h : ∀ s, P s → Q s s) :
    Spec ok P (read : Prog apply σ) Q := by
  intro s b t ops hr _ hp
  cases hr
  exact h s hp

theorem spec_perform {op : ω} {f : σ → Option (α × σ)}
    (hf : ∀ s, (f s).map Prod.snd=apply op s)
    (h : ∀ s a t, f s=some (a,t) → ok op s → P s → Q a t) : Spec ok P (perform op f hf) Q := by
  intro s a t ops hr hruns hp
  obtain ⟨⟨b,u⟩,hfs,he⟩ := Option.map_eq_some_iff.mp hr
  cases he
  cases hruns with
  | cons hok _ _ => exact h _ _ _ hfs hok hp

theorem spec_mono {m : Prog apply α} (hm : Spec ok P m Q) (hP : ∀ s, P' s → P s)
    (hQ : ∀ a s, Q a s → Q' a s) : Spec ok P' m Q' :=
  fun _ _ _ _ hr hruns hp => hQ _ _ (hm _ _ _ _ hr hruns (hP _ hp))

theorem spec_and {m : Prog apply α} (hm : Spec ok P m Q) (hm' : Spec ok P' m Q') :
    Spec ok (fun s => P s ∧ P' s) m fun a s => Q a s ∧ Q' a s :=
  fun s a t ops hr hruns hp => ⟨hm s a t ops hr hruns hp.1,hm' s a t ops hr hruns hp.2⟩

/-- A property that may depend on where the program starts. -/
theorem spec_of_forall {m : Prog apply α} (h : ∀ s₀, P s₀ → Spec ok (fun s => s=s₀) m Q) :
    Spec ok P m Q :=
  fun s a t ops hr hruns hp => h s hp s a t ops hr hruns rfl

/-- A fact that follows from the precondition may be used throughout. -/
theorem spec_have {C : Prop} {m : Prog apply α} (hC : ∀ s, P s → C) (h : C → Spec ok P m Q) :
    Spec ok P m Q :=
  fun s a t ops hr hruns hp => h (hC s hp) s a t ops hr hruns hp

theorem spec_each {f : β → Prog apply Unit} {bs : List β}
    (h : ∀ b ∈ bs, Spec ok P (f b) (fun _ => P)) : Spec ok P (each f bs) (fun _ => P) := by
  induction bs with
  | nil => exact spec_pure () fun _ hp => hp
  | cons b bs ih =>
    refine spec_bind (h b List.mem_cons_self) fun _ => ?_
    exact ih fun b' hb' => h b' (List.mem_cons_of_mem _ hb')

theorem spec_undefined : Spec ok P (undefined : Prog apply α) Q := by
  intro s a t ops hr
  cases hr

theorem spec_ofOption (x : Option α) : Spec ok P (ofOption x : Prog apply α) (fun _ => P) := by
  cases x with
  | none => exact spec_undefined
  | some a => exact spec_pure a fun _ hp => hp

/-- The value that is taken from an option is known afterwards. -/
theorem spec_ofOption_eq (x : Option α) :
    Spec ok P (ofOption x : Prog apply α) fun a s => P s ∧ x=some a := by
  cases x with
  | none => exact spec_undefined
  | some a => exact spec_pure a fun _ hp => ⟨hp,rfl⟩

theorem spec_act {op : ω} {Q : Unit → σ → Prop}
    (h : ∀ s t, apply op s=some t → ok op s → P s → Q () t) :
    Spec ok P (act op : Prog apply Unit) Q := by
  refine spec_perform _ fun s u t hf hok hp => ?_
  obtain ⟨t',ht,he⟩ := Option.map_eq_some_iff.mp hf
  cases he
  exact h s t ht hok hp

theorem runs_of_map {ω' : Type} {apply' : ω' → σ → Option σ} {ok' : ω' → σ → Prop} {f : ω → ω'}
    (h : ∀ o s, apply' (f o) s=apply o s) {s t : σ} {ops : List ω}
    (hr : Runs apply' ok' s (ops.map f) t) : Runs apply (fun o s => ok' (f o) s) s ops t := by
  induction ops generalizing s with
  | nil =>
    cases hr
    exact .nil _
  | cons o ops ih =>
    cases hr with
    | cons hok hs hr => exact .cons hok ((h _ _).symm.trans hs) (ih hr)

theorem spec_lift {ω' : Type} {apply' : ω' → σ → Option σ} {ok' : ω' → σ → Prop} {f : ω → ω'}
    (h : ∀ o s, apply' (f o) s=apply o s) {m : Prog apply α}
    (hm : Spec (fun o s => ok' (f o) s) P m Q) : Spec ok' P (m.lift f h) Q := by
  intro s a t ops hr hruns hp
  obtain ⟨⟨b,u,os⟩,hrun,he⟩ := Option.map_eq_some_iff.mp hr
  cases he
  exact hm _ _ _ _ hrun (runs_of_map h hruns) hp

end Rules

/-- Every operation that a run of the program performs meets `ok`. -/
def Meets (ok : ω → σ → Prop) (m : Prog apply α) : Prop :=
  ∀ s a t ops, m.run s=some (a,t,ops) → Runs apply ok s ops t

section Meets

variable {ok ok' : ω → σ → Prop}

/-- What is known of the runs that meet a condition holds of all runs of such a program. -/
theorem Meets.run {m : Prog apply α} {P : σ → Prop} {Q : α → σ → Prop} (hm : Meets ok m)
    (h : Spec ok P m Q) {s t : σ} {a : α} {ops : List ω} (hr : m.run s=some (a,t,ops)) (hp : P s) :
    Q a t :=
  h s a t ops hr (hm s a t ops hr) hp

theorem Meets.spec {m : Prog apply α} {P : σ → Prop} {Q : α → σ → Prop} (hm : Meets ok m)
    (h : Spec ok P m Q) : Spec ok' P m Q :=
  fun _ _ _ _ hr _ hp => hm.run h hr hp

theorem meets_pure (a : α) : Meets ok (pure a : Prog apply α) := by
  intro s b t ops hr
  cases hr
  exact .nil s

theorem meets_bind {m : Prog apply α} {f : α → Prog apply β} (hm : Meets ok m)
    (hf : ∀ a, Meets ok (f a)) : Meets ok (m >>= f) := by
  intro s b u ops hr
  change (Prog.bind m f).run s=some (b,u,ops) at hr
  simp only [Prog.bind] at hr
  split at hr
  · cases hr
  · next a t ops₁ hrun =>
    split at hr
    · cases hr
    · next b' u' ops₂ hrun' =>
      cases hr
      exact (hm s a t ops₁ hrun).append (hf a t b u ops₂ hrun')

theorem meets_read : Meets ok (read : Prog apply σ) := by
  intro s b t ops hr
  cases hr
  exact .nil s

theorem meets_undefined : Meets ok (undefined : Prog apply α) := by
  intro s a t ops hr
  cases hr

theorem meets_ofOption (x : Option α) : Meets ok (ofOption x : Prog apply α) := by
  cases x with
  | none => exact meets_undefined
  | some a => exact meets_pure a

theorem meets_perform {op : ω} {f : σ → Option (α × σ)} (hf : ∀ s, (f s).map Prod.snd=apply op s)
    (h : ∀ s, ok op s) : Meets ok (perform op f hf) := by
  intro s a t ops hr
  obtain ⟨⟨b,u⟩,hfs,he⟩ := Option.map_eq_some_iff.mp hr
  cases he
  refine .cons (h s) ?_ (.nil _)
  rw [← hf s,hfs]
  rfl

theorem meets_act {op : ω} (h : ∀ s, ok op s) : Meets ok (act op : Prog apply Unit) :=
  meets_perform _ h

theorem meets_lift {ω' : Type} {apply' : ω' → σ → Option σ} {okLift : ω' → σ → Prop} {f : ω → ω'}
    (h : ∀ o s, apply' (f o) s=apply o s) {m : Prog apply α}
    (hm : Meets (fun o s => okLift (f o) s) m) : Meets okLift (m.lift f h) := by
  intro s a t ops hr
  obtain ⟨⟨b,u,os⟩,hrun,he⟩ := Option.map_eq_some_iff.mp hr
  cases he
  have hruns := hm s b u os hrun
  clear hrun hr
  induction hruns with
  | nil => exact .nil _
  | cons hok hs _ ih => exact .cons hok ((h _ _).trans hs) ih

theorem meets_each {f : β → Prog apply Unit} {bs : List β} (h : ∀ b, Meets ok (f b)) :
    Meets ok (each f bs) := by
  induction bs with
  | nil => exact meets_pure ()
  | cons b bs ih => exact meets_bind (h b) fun _ => ih

end Meets

/-- The program runs to an end from `s`. -/
def Halts (m : Prog apply α) (s : σ) : Prop := ∃ a t, m.Yields s a t

section Halts

variable {s t : σ} {m : Prog apply α} {f : α → Prog apply β}

theorem halts_pure (a : α) : (pure a : Prog apply α).Halts s := ⟨a,s,yields_pure a s⟩

theorem halts_iff : m.Halts s ↔ (m.run s).isSome=true := by
  rw [Option.isSome_iff_exists]
  constructor
  · rintro ⟨a,t,ops,h⟩
    exact ⟨(a,t,ops),h⟩
  · rintro ⟨⟨a,t,ops⟩,h⟩
    exact ⟨a,t,ops,h⟩

theorem halts_bind (hm : m.Yields s a t) : (m >>= f).Halts s ↔ (f a).Halts t := by
  constructor
  · rintro ⟨b,u,h⟩
    obtain ⟨a',t',hm',hf⟩ := h.of_bind
    obtain ⟨rfl,rfl⟩ := hm.unique hm'
    exact ⟨b,u,hf⟩
  · rintro ⟨b,u,hu⟩
    exact ⟨b,u,yields_bind hm hu⟩

/-- A rest that always runs to an end leaves it to the first part. -/
theorem halts_bind_iff (hf : ∀ a t, m.Yields s a t → (f a).Halts t) :
    (m >>= f).Halts s ↔ m.Halts s := by
  constructor
  · rintro ⟨b,u,h⟩
    obtain ⟨a,t,hm,-⟩ := h.of_bind
    exact ⟨a,t,hm⟩
  · rintro ⟨a,t,hm⟩
    exact (halts_bind hm).mpr (hf a t hm)

/-- What is known of the first part may be used for the rest. -/
theorem halts_of_spec {Q : α → σ → Prop} (hm : m.Halts s)
    (hq : Spec (fun _ _ => True) (fun z => z=s) m Q) (hf : ∀ a t, Q a t → (f a).Halts t) :
    (m >>= f).Halts s := by
  obtain ⟨a,t,ops,ht⟩ := hm
  exact (halts_bind ⟨ops,ht⟩).mpr (hf a t (hq s a t ops ht (m.runs ht) rfl))

theorem halts_perform {o : ω} {g : σ → Option (α × σ)} {h : ∀ s, (g s).map Prod.snd=apply o s}
    (hg : ∃ a t, g s=some (a,t)) : (perform o g h).Halts s := by
  obtain ⟨a,t,ht⟩ := hg
  exact ⟨a,t,yields_perform ht⟩

theorem halts_act {o : ω} (h : ∃ t, apply o s=some t) : (act o : Prog apply Unit).Halts s := by
  obtain ⟨t,ht⟩ := h
  exact ⟨(),t,yields_act ht⟩

theorem halts_lift {ω' : Type} {apply' : ω' → σ → Option σ} {g : ω → ω'}
    {h : ∀ o s, apply' (g o) s=apply o s} : (m.lift g h).Halts s ↔ m.Halts s := by
  rw [halts_iff,halts_iff,lift,Option.isSome_map]

end Halts

end Prog

end CalvinConstrained
