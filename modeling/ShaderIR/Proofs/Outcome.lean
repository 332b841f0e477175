import ShaderIR.Command

/-! How an edit ends. An edit answers or stops, and leaves a store either way; what is said about
the two ends of its parts is put together along the edit. -/

namespace ShaderIR.Edit

variable {α β : Type} {e : Edit α} {f : α → Edit β} {s : Store}
variable {Q : α → Store → Prop} {E : Fault → Store → Prop}

/-- What holds of the answer and the store if the edit answers, and of the fault and the store if
it stops. -/
def Ends (e : Edit α) (s : Store) (Q : α → Store → Prop) (E : Fault → Store → Prop) : Prop :=
  match e s with
  | .ok a s' => Q a s'
  | .error x s' => E x s'

instance [∀ a s', Decidable (Q a s')] [∀ x s', Decidable (E x s')] : Decidable (Ends e s Q E) :=
  match h : e s with
  | .ok a s' => decidable_of_iff (Q a s') (by rw [Ends, h])
  | .error x s' => decidable_of_iff (E x s') (by rw [Ends, h])

theorem Ends.of_ok {a : α} {s' : Store} (h : Ends e s Q E) (he : e s = .ok a s') : Q a s' := by
  simpa only [Ends, he] using h

theorem Ends.of_error {x : Fault} {s' : Store} (h : Ends e s Q E) (he : e s = .error x s') :
    E x s' := by
  simpa only [Ends, he] using h

theorem ends_true (e : Edit α) (s : Store) : Ends e s (fun _ _ => True) fun _ _ => True := by
  unfold Ends
  cases e s <;> trivial

theorem Ends.exists_ok (h : Ends e s Q fun _ _ => False) : ∃ a s', e s = .ok a s' ∧ Q a s' := by
  cases he : e s with
  | ok a s' => exact ⟨a, s', rfl, h.of_ok he⟩
  | error x s' => exact (h.of_error he).elim

theorem Ends.eq_ok {a : α} {s' : Store} (h : Ends e s (fun b p => b = a ∧ p = s') fun _ _ => False) :
    e s = .ok a s' := by
  obtain ⟨b, p, he, rfl, rfl⟩ := h.exists_ok
  exact he

theorem Ends.mono {Q' : α → Store → Prop} {E' : Fault → Store → Prop} (h : Ends e s Q E)
    (hq : ∀ a s', Q a s' → Q' a s') (hx : ∀ x s', E x s' → E' x s') : Ends e s Q' E' := by
  unfold Ends at h ⊢
  cases he : e s with
  | ok a s' => simpa only [he] using hq a s' (by simpa only [he] using h)
  | error x s' => simpa only [he] using hx x s' (by simpa only [he] using h)

theorem Ends.weaken {Q' : α → Store → Prop} (h : Ends e s Q fun _ _ => False)
    (hq : ∀ a s', Q a s' → Q' a s') : Ends e s Q' E :=
  h.mono hq fun _ _ hf => hf.elim

theorem Ends.and {Q' : α → Store → Prop} {E' : Fault → Store → Prop} (h : Ends e s Q E)
    (h' : Ends e s Q' E') :
    Ends e s (fun a s' => Q a s' ∧ Q' a s') (fun x s' => E x s' ∧ E' x s') := by
  unfold Ends at *
  cases he : e s with
  | ok a s' => exact ⟨by simpa only [he] using h, by simpa only [he] using h'⟩
  | error x s' => exact ⟨by simpa only [he] using h, by simpa only [he] using h'⟩

section Steps

variable {R : β → Store → Prop}

@[simp] theorem ends_pure (a : α) : Ends (pure a) s Q E ↔ Q a s := Iff.rfl

theorem ends_bind : Ends (e >>= f) s R E ↔ Ends e s (fun a s' => Ends (f a) s' R E) E := by
  change (match EStateM.bind e f s with | .ok a s' => R a s' | .error x s' => E x s') ↔ _
  unfold EStateM.bind Ends
  cases e s <;> rfl

theorem Ends.bind (h : Ends e s Q E) (hf : ∀ a s', Q a s' → Ends (f a) s' R E) :
    Ends (e >>= f) s R E :=
  ends_bind.2 (h.mono hf fun _ _ hx => hx)

theorem Ends.map {g : α → β} (h : Ends e s (fun a => R (g a)) E) : Ends (g <$> e) s R E := by
  rw [map_eq_pure_bind]
  exact h.bind fun _ _ hr => hr

@[simp] theorem ends_throw (x : Fault) : Ends (throw x : Edit α) s Q E ↔ E x s := Iff.rfl

@[simp] theorem ends_raise (v : Violation) :
    Ends (raise v : Edit α) s Q E ↔ E (.violation v) s := Iff.rfl

@[simp] theorem ends_get {Q : Store → Store → Prop} : Ends (get : Edit Store) s Q E ↔ Q s s :=
  Iff.rfl

@[simp] theorem ends_modify (g : Store → Store) {Q : Unit → Store → Prop} :
    Ends (modify g : Edit Unit) s Q E ↔ Q () (g s) := Iff.rfl

@[simp] theorem ends_modifyGet (g : Store → α × Store) :
    Ends (modifyGet g : Edit α) s Q E ↔ Q (g s).1 (g s).2 := Iff.rfl

theorem ends_lift {q : Query α} :
    Ends (liftM q : Edit α) s Q E ↔ (∀ a, q s = .ok a → Q a s) ∧ ∀ x, q s = .error x → E x s := by
  change (match Query.asEdit q s with | .ok a s' => Q a s' | .error x s' => E x s') ↔ _
  unfold Query.asEdit
  cases q s <;> simp

theorem lift_congr_of_ok {q : Query α} {f f' : α → Edit β}
    (h : ∀ a, q s = .ok a → f a s = f' a s) :
    ((liftM q : Edit α) >>= f) s = ((liftM q : Edit α) >>= f') s := by
  change EStateM.bind (Query.asEdit q) f s = EStateM.bind (Query.asEdit q) f' s
  unfold EStateM.bind Query.asEdit
  cases hq : q s with
  | ok a => exact h a hq
  | error x => rfl

theorem lift_congr {q : Query α} {f f' : α → Edit β} (h : ∀ a, f a s = f' a s) :
    ((liftM q : Edit α) >>= f) s = ((liftM q : Edit α) >>= f') s :=
  lift_congr_of_ok fun a _ => h a

theorem ends_checked {q : Query α} {Q : β → Store → Prop}
    (h : ∀ a, q s = .ok a → Ends (f a) s Q fun _ _ => False) :
    Ends ((liftM q : Edit α) >>= f) s Q fun x s' => q s = .error x ∧ s' = s :=
  ends_bind.2 (ends_lift.2 ⟨fun a ha => (h a ha).weaken fun _ _ hq => hq, fun _ hx => ⟨hx, rfl⟩⟩)

theorem get_apply (k : Store → Edit β) (s : Store) : (get >>= k) s = k s s := rfl

theorem ends_lift_ok {q : Query α} {a : α} (h : q s = .ok a) :
    Ends (liftM q : Edit α) s Q E ↔ Q a s := by
  simp [ends_lift, h]

end Steps

theorem ends_forM {f : α → Edit Unit} {E : Fault → Store → Prop} (I : List α → Store → Prop)
    (step : ∀ a rest s, I (a :: rest) s → Ends (f a) s (fun _ => I rest) E)
    (as : List α) (s : Store) (h : I as s) : Ends (as.forM f) s (fun _ => I []) E := by
  induction as generalizing s with
  | nil => exact h
  | cons a rest ih =>
    change Ends (f a >>= fun _ => rest.forM f) s _ E
    exact (step a rest s h).bind fun _ s' hs => ih s' hs

theorem ends_foldlM {f : β → α → Edit β} {E : Fault → Store → Prop} (I : List α → β → Store → Prop)
    (step : ∀ a rest b s, I (a :: rest) b s → Ends (f b a) s (fun b' => I rest b') E)
    (as : List α) (b : β) (s : Store) (h : I as b s) :
    Ends (as.foldlM f b) s (fun b' => I [] b') E := by
  induction as generalizing b s with
  | nil => exact h
  | cons a rest ih =>
    rw [List.foldlM_cons]
    exact (step a rest b s h).bind fun b' s' hs => ih b' s' hs

theorem ends_mapM {f : α → Edit β} {E : Fault → Store → Prop} (I : List α → List β → Store → Prop)
    (step : ∀ a rest bs s, I (a :: rest) bs s → Ends (f a) s (fun b => I rest (bs ++ [b])) E)
    (as : List α) (bs : List β) (s : Store) (h : I as bs s) :
    Ends (as.mapM f) s (fun cs => I [] (bs ++ cs)) E := by
  induction as generalizing bs s with
  | nil =>
    rw [← List.append_nil bs] at h
    exact h
  | cons a rest ih =>
    rw [List.mapM_cons]
    refine (step a rest bs s h).bind fun b s' hs => (ih (bs ++ [b]) s' hs).bind fun cs s'' hs' => ?_
    rw [List.append_assoc] at hs'
    exact hs'

theorem ends_forM_visited {f : α → Edit Unit} {E : Fault → Store → Prop} (as : List α)
    (I : List α → Store → Prop) (step : ∀ done a rest s, as = done ++ a :: rest → I done s →
      Ends (f a) s (fun _ => I (done ++ [a])) E)
    (s : Store) (h : I [] s) : Ends (as.forM f) s (fun _ => I as) E := by
  refine (ends_forM (fun rest s => ∃ done, as = done ++ rest ∧ I done s) ?_ as s
    ⟨[], rfl, h⟩).mono ?_ fun _ _ hx => hx
  · rintro a rest s ⟨done, has, hi⟩
    exact (step done a rest s has hi).mono (fun _ _ hi' => ⟨_, by simp [has], hi'⟩)
      fun _ _ hx => hx
  · rintro _ s ⟨done, has, hi⟩
    rw [List.append_nil] at has
    exact has ▸ hi

/-- An edit that keeps what it is given, however it ends. -/
def Keeps (I : Store → Prop) (e : Edit α) : Prop :=
  ∀ s, I s → Ends e s (fun _ => I) (fun _ => I)

section Keeps

variable {I : Store → Prop}

theorem Keeps.pure (a : α) : Keeps I (Pure.pure a : Edit α) := fun _ h => h

theorem Keeps.throw (x : Fault) : Keeps I (throw x : Edit α) := fun _ h => h

theorem Keeps.raise (v : Violation) : Keeps I (raise v : Edit α) := fun _ h => h

theorem Keeps.get : Keeps I (MonadState.get : Edit Store) := fun _ h => h

theorem Keeps.lift (q : Query α) : Keeps I (liftM q : Edit α) := fun _ h =>
  ends_lift.2 ⟨fun _ _ => h, fun _ _ => h⟩

theorem Keeps.modify {g : Store → Store} (h : ∀ s, I s → I (g s)) :
    Keeps I (modify g : Edit Unit) := fun s hs => h s hs

theorem Keeps.modifyGet {g : Store → α × Store} (h : ∀ s, I s → I (g s).2) :
    Keeps I (modifyGet g : Edit α) := fun s hs => h s hs

theorem Keeps.bind (he : Keeps I e) (hf : ∀ a, Keeps I (f a)) : Keeps I (e >>= f) :=
  fun s hs => (he s hs).bind fun a s' h => hf a s' h

theorem Keeps.and {J : Store → Prop} (hI : Keeps I e) (hJ : Keeps J e) :
    Keeps (fun s => I s ∧ J s) e := fun s hs => (hI s hs.1).and (hJ s hs.2)

theorem Keeps.map (he : Keeps I e) (g : α → β) : Keeps I (g <$> e) := by
  rw [map_eq_pure_bind]
  exact he.bind fun a => Keeps.pure (g a)

theorem Keeps.ite {p : Prop} [Decidable p] {d : Edit α} (he : Keeps I e) (hd : Keeps I d) :
    Keeps I (if p then e else d) := by
  split
  · exact he
  · exact hd

theorem Keeps.guard {p : Prop} [Decidable p] {d : Edit Unit} {k : Unit → Edit β}
    (hd : Keeps I d) (hk : Keeps I (k ())) : Keeps I (if p then d >>= k else k ()) :=
  .ite (.bind hd fun _ => hk) hk

theorem Keeps.forM_of_mem {f : α → Edit Unit} {as : List α} (h : ∀ a ∈ as, Keeps I (f a)) :
    Keeps I (as.forM f) := by
  induction as with
  | nil => exact .pure _
  | cons a as ih =>
    exact .bind (h a (List.mem_cons_self ..)) fun _ => ih fun a ha => h a (List.mem_cons_of_mem _ ha)

theorem Keeps.forM {f : α → Edit Unit} (h : ∀ a, Keeps I (f a)) (as : List α) :
    Keeps I (as.forM f) := .forM_of_mem fun a _ => h a

theorem Keeps.mapM {f : α → Edit β} (h : ∀ a, Keeps I (f a)) (as : List α) :
    Keeps I (as.mapM f) := by
  induction as with
  | nil => exact Keeps.pure []
  | cons a rest ih =>
    rw [List.mapM_cons]
    exact (h a).bind fun b => ih.bind fun bs => Keeps.pure (b :: bs)

theorem Keeps.foldlM {f : β → α → Edit β} (h : ∀ b a, Keeps I (f b a)) (as : List α) (b : β) :
    Keeps I (as.foldlM f b) := by
  induction as generalizing b with
  | nil => exact Keeps.pure b
  | cons a rest ih =>
    rw [List.foldlM_cons]
    exact (h b a).bind fun b' => ih b'

end Keeps

/-- An edit that keeps what it is given if it answers, and also if it stops in certain ways. -/
def Carries (X : Fault → Store → Prop) (I : Store → Prop) (e : Edit α) : Prop :=
  ∀ s, I s → Ends e s (fun _ => I) fun x s' => X x s' → I s'

section Carries

variable {X : Fault → Store → Prop} {I : Store → Prop}

theorem Keeps.carries (h : Keeps I e) : Carries X I e := fun s hs =>
  (h s hs).mono (fun _ _ h => h) fun _ _ h _ => h

theorem Carries.keeps (h : Carries (fun _ _ => True) I e) : Keeps I e := fun s hs =>
  (h s hs).mono (fun _ _ h => h) fun _ _ h => h trivial

theorem Carries.pure (a : α) : Carries X I (Pure.pure a : Edit α) := (Keeps.pure a).carries

theorem Carries.raise (v : Violation) : Carries X I (raise v : Edit α) := (Keeps.raise v).carries

theorem Carries.get : Carries X I (MonadState.get : Edit Store) := Keeps.get.carries

theorem Carries.lift (q : Query α) : Carries X I (liftM q : Edit α) := (Keeps.lift q).carries

theorem Carries.bind (he : Carries X I e) (hf : ∀ a, Carries X I (f a)) : Carries X I (e >>= f) :=
  fun s hs => (he s hs).bind fun a s' h => hf a s' h

theorem Carries.map (he : Carries X I e) (g : α → β) : Carries X I (g <$> e) := by
  rw [map_eq_pure_bind]
  exact he.bind fun a => Carries.pure (g a)

theorem Carries.ite {p : Prop} [Decidable p] {d : Edit α} (he : Carries X I e)
    (hd : Carries X I d) : Carries X I (if p then e else d) := by
  split
  · exact he
  · exact hd

theorem Carries.guard {p : Prop} [Decidable p] {d : Edit Unit} {k : Unit → Edit β}
    (hd : Carries X I d) (hk : Carries X I (k ())) : Carries X I (if p then d >>= k else k ()) :=
  .ite (.bind hd fun _ => hk) hk

theorem Carries.forM {f : α → Edit Unit} (h : ∀ a, Carries X I (f a)) (as : List α) :
    Carries X I (as.forM f) :=
  fun s hs => ends_forM (fun _ => I) (fun a _ s' hs' => h a s' hs') as s hs

end Carries

/-- An edit that leaves a view of the store as it was, however it ends. -/
def Fixes {γ : Type} (view : Store → γ) (e : Edit α) : Prop :=
  ∀ c, Keeps (fun s => view s = c) e

section Fixes

variable {γ : Type} {view : Store → γ}

theorem Fixes.keeps (h : Fixes view e) (P : γ → Prop) : Keeps (fun s => P (view s)) e :=
  fun s hs => (h (view s) s rfl).mono (fun _ _ hv => hv ▸ hs) fun _ _ hv => hv ▸ hs

theorem Fixes.ends (h : Fixes view e) (s : Store) :
    Ends e s (fun _ s' => view s' = view s) (fun _ s' => view s' = view s) :=
  h (view s) s rfl

theorem Fixes.pure (a : α) : Fixes view (Pure.pure a : Edit α) := fun _ => Keeps.pure a

theorem Fixes.throw (x : Fault) : Fixes view (throw x : Edit α) := fun _ => Keeps.throw x

theorem Fixes.raise (v : Violation) : Fixes view (raise v : Edit α) := fun _ => Keeps.raise v

theorem Fixes.get : Fixes view (MonadState.get : Edit Store) := fun _ => Keeps.get

theorem Fixes.lift (q : Query α) : Fixes view (liftM q : Edit α) := fun _ => Keeps.lift q

theorem Fixes.modify {g : Store → Store} (h : ∀ s, view (g s) = view s) :
    Fixes view (modify g : Edit Unit) :=
  fun _ => Keeps.modify fun s hs => (h s).trans hs

theorem Fixes.bind (he : Fixes view e) (hf : ∀ a, Fixes view (f a)) : Fixes view (e >>= f) :=
  fun c => (he c).bind fun a => hf a c

theorem Fixes.map (he : Fixes view e) (g : α → β) : Fixes view (g <$> e) :=
  fun c => (he c).map g

theorem Fixes.ite {p : Prop} [Decidable p] {d : Edit α} (he : Fixes view e)
    (hd : Fixes view d) : Fixes view (if p then e else d) :=
  fun c => (he c).ite (hd c)

theorem Fixes.guard {p : Prop} [Decidable p] {d : Edit Unit} {k : Unit → Edit β}
    (hd : Fixes view d) (hk : Fixes view (k ())) : Fixes view (if p then d >>= k else k ()) :=
  .ite (.bind hd fun _ => hk) hk

theorem Fixes.forM {f : α → Edit Unit} (h : ∀ a, Fixes view (f a)) (as : List α) :
    Fixes view (as.forM f) :=
  fun c => Keeps.forM (fun a => h a c) as

end Fixes

end ShaderIR.Edit
