import Mathlib

namespace CalvinConstrained

/-- Partial correctness of a stateful computation that may be undefined. -/
def Ensures {σ α : Type} (P : σ → Prop) (x : StateT σ Option α) (Q : α → σ → Prop) : Prop :=
  ∀ s a t, x s=some (a,t) → P s → Q a t

/-- The computation keeps `P`, whatever its result. -/
def Preserves {σ α : Type} (P : σ → Prop) (x : StateT σ Option α) : Prop :=
  Ensures P x fun _ => P

section Rules

variable {σ α β : Type} {P P' : σ → Prop} {Q Q' : α → σ → Prop}

theorem ensures_pure {a : α} (h : ∀ s, P s → Q a s) :
    Ensures P (pure a : StateT σ Option α) Q := by
  intro s b t hr hp
  cases hr
  exact h s hp

theorem ensures_bind {x : StateT σ Option α} {f : α → StateT σ Option β} {R : β → σ → Prop}
    (hx : Ensures P x Q) (hf : ∀ a, Ensures (Q a) (f a) R) : Ensures P (x >>= f) R := by
  intro s b u hr hp
  change (x s).bind (fun r => f r.1 r.2)=some (b,u) at hr
  obtain ⟨⟨a,t⟩,hs,ht⟩ := Option.bind_eq_some_iff.mp hr
  exact hf a t b u ht (hx s a t hs hp)

/-- Where nothing has to be known of the first part. -/
theorem ensures_seq {x : StateT σ Option α} {f : α → StateT σ Option β} {R : β → σ → Prop}
    (hf : ∀ a, Ensures (fun _ => True) (f a) R) : Ensures P (x >>= f) R :=
  ensures_bind (Q := fun _ _ => True) (fun _ _ _ _ _ => trivial) hf

/-- What is known of an earlier result and not of the state. -/
theorem ensures_fact {φ : Prop} {x : StateT σ Option α}
    (h : φ → Ensures (fun _ => True) x Q) : Ensures (fun _ => φ) x Q :=
  fun s a t hr hφ => h hφ s a t hr trivial

theorem ensures_given {φ : Prop} {x : StateT σ Option α} (h : φ → Ensures P x Q) :
    Ensures (fun s => P s ∧ φ) x Q :=
  fun s a t hr hp => h hp.2 s a t hr hp.1

theorem ensures_mono {x : StateT σ Option α} (hx : Ensures P x Q) (hP : ∀ s, P' s → P s)
    (hQ : ∀ a s, Q a s → Q' a s) : Ensures P' x Q' :=
  fun s a t hr hp => hQ a t (hx s a t hr (hP s hp))

theorem ensures_and {x : StateT σ Option α} (hx : Ensures P x Q) (hx' : Ensures P' x Q') :
    Ensures (fun s => P s ∧ P' s) x fun a s => Q a s ∧ Q' a s :=
  fun s a t hr hp => ⟨hx s a t hr hp.1,hx' s a t hr hp.2⟩

/-- What a computation keeps can be carried along. -/
theorem ensures_keep {x : StateT σ Option α} (hx : Ensures (fun s => P s ∧ P' s) x Q)
    (hk : Preserves P' x) : Ensures (fun s => P s ∧ P' s) x fun a s => Q a s ∧ P' s :=
  fun s a t hr hp => ⟨hx s a t hr hp,hk s a t hr hp.2⟩

theorem ensures_get {Q : σ → σ → Prop} (h : ∀ s, P s → Q s s) :
    Ensures P (get : StateT σ Option σ) Q := by
  intro s b t hr hp
  cases hr
  exact h s hp

theorem ensures_modify {f : σ → σ} {Q : PUnit → σ → Prop} (h : ∀ s, P s → Q () (f s)) :
    Ensures P (modify f : StateT σ Option PUnit) Q := by
  intro s b t hr hp
  cases hr
  exact h s hp

theorem preserves_pure (a : α) : Preserves P (pure a : StateT σ Option α) :=
  ensures_pure fun _ hp => hp

theorem preserves_get : Preserves P (get : StateT σ Option σ) := ensures_get fun _ hp => hp

theorem preserves_modify {f : σ → σ} (h : ∀ s, P s → P (f s)) :
    Preserves P (modify f : StateT σ Option PUnit) := ensures_modify h

theorem preserves_bind {x : StateT σ Option α} {f : α → StateT σ Option β}
    (hx : Preserves P x) (hf : ∀ a, Preserves P (f a)) : Preserves P (x >>= f) :=
  ensures_bind hx hf

/-- Where the result of the computation is dropped. -/
theorem preserves_state {x : StateT σ Option α} {s t : σ} (hr : (x s).map Prod.snd=some t)
    (hx : Preserves P x) (hp : P s) : P t := by
  obtain ⟨⟨a,t'⟩,hx',he⟩ := Option.map_eq_some_iff.mp hr
  cases he
  exact hx s a t' hx' hp

end Rules

/-- The computation is defined wherever `P` holds. -/
def Defined {σ α : Type} (P : σ → Prop) (x : StateT σ Option α) : Prop :=
  ∀ s, P s → ∃ a t, x s=some (a,t)

section Defined

variable {σ α β : Type} {P P' : σ → Prop} {Q : α → σ → Prop}

theorem defined_pure (a : α) : Defined P (pure a : StateT σ Option α) := fun s _ => ⟨a,s,rfl⟩

theorem defined_get : Defined P (get : StateT σ Option σ) := fun s _ => ⟨s,s,rfl⟩

theorem defined_modify (f : σ → σ) : Defined P (modify f : StateT σ Option PUnit) :=
  fun s _ => ⟨(),f s,rfl⟩

theorem defined_mono {x : StateT σ Option α} (hx : Defined P x) (hP : ∀ s, P' s → P s) :
    Defined P' x :=
  fun s hp => hx s (hP s hp)

/-- A sequence is defined where its first part is and leads to where the rest is. -/
theorem defined_bind {x : StateT σ Option α} {f : α → StateT σ Option β} (hx : Defined P x)
    (hq : Ensures P x Q) (hf : ∀ a, Defined (Q a) (f a)) : Defined P (x >>= f) := by
  intro s hp
  obtain ⟨a,t,ht⟩ := hx s hp
  obtain ⟨b,u,hu⟩ := hf a t (hq s a t ht hp)
  refine ⟨b,u,?_⟩
  change (x s).bind (fun r => f r.1 r.2)=some (b,u)
  rw [ht]
  exact hu

/-- Where the first part keeps what the rest needs. -/
theorem defined_seq {x : StateT σ Option α} {f : α → StateT σ Option β} (hx : Defined P x)
    (hk : Preserves P x) (hf : ∀ a, Defined P (f a)) : Defined P (x >>= f) :=
  defined_bind hx hk hf

end Defined

end CalvinConstrained
