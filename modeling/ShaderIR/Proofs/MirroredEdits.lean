import ShaderIR.Proofs.Outcome

/-! Two edits that do the same. What one does to a store the other does to the image of the store,
answer for answer and fault for fault, unless one of them stops with a fault that is excepted. -/

namespace ShaderIR.Edit

variable {α β γ : Type} {P : Fault → Prop} {φ : Store → Store} {s : Store}
variable {e e' : Edit α} {f f' : α → Edit β}

def mapStore (φ : Store → Store) : EStateM.Result Fault Store α → EStateM.Result Fault Store α
  | .ok a s => .ok a (φ s)
  | .error x s => .error x (φ s)

theorem mapStore_id (r : EStateM.Result Fault Store α) : mapStore id r = r := by
  cases r <;> rfl

def Stops (P : Fault → Prop) (e : Edit α) (s : Store) : Prop := ∃ x s', e s = .error x s' ∧ P x

theorem stops_iff : Stops P e s ↔ ¬ Ends e s (fun _ _ => True) fun x _ => ¬ P x := by
  unfold Stops Ends
  cases e s <;> simp

theorem Stops.bind (h : Stops P e s) : Stops P (e >>= f) s := by
  obtain ⟨x, s', he, hx⟩ := h
  refine ⟨x, s', ?_, hx⟩
  change EStateM.bind e f s = _
  rw [EStateM.bind, he]

theorem Stops.bind_ok {a : α} {s' : Store} (he : e s = .ok a s') (h : Stops P (f a) s') :
    Stops P (e >>= f) s := by
  obtain ⟨x, s'', hf, hx⟩ := h
  refine ⟨x, s'', ?_, hx⟩
  change EStateM.bind e f s = _
  rw [EStateM.bind, he]
  exact hf

/-- What one edit does to a store the other does to its image, unless one of them stops with an
excepted fault. -/
def Alike (P : Fault → Prop) (φ : Store → Store) (e e' : Edit α) : Prop :=
  ∀ s, Stops P e s ∨ Stops P e' (φ s) ∨ e' (φ s) = mapStore φ (e s)

theorem Alike.of_eq (h : ∀ s, e' (φ s) = mapStore φ (e s)) : Alike P φ e e' :=
  fun s => .inr (.inr (h s))

theorem Alike.refl (e : Edit α) : Alike P id e e := .of_eq fun _ => (mapStore_id _).symm

theorem Alike.pure (a : α) : Alike P φ (Pure.pure a : Edit α) (Pure.pure a) := .of_eq fun _ => rfl

theorem Alike.throw (x : Fault) : Alike P φ (throw x : Edit α) (throw x) := .of_eq fun _ => rfl

theorem Alike.lift {q : Query α} (h : ∀ s, q (φ s) = q s) :
    Alike P φ (liftM q : Edit α) (liftM q) := by
  refine .of_eq fun s => ?_
  change Query.asEdit q (φ s) = mapStore φ (Query.asEdit q s)
  rw [Query.asEdit, Query.asEdit, h]
  cases q s <;> rfl

theorem Alike.modify {g : Store → Store} (h : ∀ s, g (φ s) = φ (g s)) :
    Alike P φ (modify g : Edit Unit) (modify g) := .of_eq fun s => by
  change EStateM.Result.ok () (g (φ s)) = .ok () (φ (g s))
  rw [h]

theorem Alike.modifyGet {g : Store → α × Store} (h : ∀ s, g (φ s) = ((g s).1, φ (g s).2)) :
    Alike P φ (modifyGet g : Edit α) (modifyGet g) := .of_eq fun s => by
  change EStateM.Result.ok (g (φ s)).1 (g (φ s)).2 = .ok (g s).1 (φ (g s).2)
  rw [h]

theorem Alike.bind (he : Alike P φ e e') (hf : ∀ a, Alike P φ (f a) (f' a)) :
    Alike P φ (e >>= f) (e' >>= f') := by
  intro s
  obtain h | h | h := he s
  · exact .inl h.bind
  · exact .inr (.inl h.bind)
  · cases hs : e s with
    | error x s' =>
      rw [hs] at h
      refine .inr (.inr ?_)
      change EStateM.bind e' f' (φ s) = mapStore φ (EStateM.bind e f s)
      rw [EStateM.bind, EStateM.bind, hs, h]
      rfl
    | ok a s' =>
      rw [hs] at h
      refine (hf a s').imp (.bind_ok hs) (.imp (.bind_ok h) fun heq => ?_)
      change EStateM.bind e' f' (φ s) = mapStore φ (EStateM.bind e f s)
      rw [EStateM.bind, EStateM.bind, hs, h]
      exact heq

theorem Alike.get_bind {k k' : Store → Edit β} (hk : ∀ s, Alike P φ (k s) (k' (φ s))) :
    Alike P φ (get >>= k) (get >>= k') := fun s => hk s s

theorem Alike.ite {p : Prop} [Decidable p] {d d' : Edit α} (he : Alike P φ e e')
    (hd : Alike P φ d d') : Alike P φ (if p then e else d) (if p then e' else d') := by
  split
  · exact he
  · exact hd

theorem Alike.guard {p : Prop} [Decidable p] {d d' : Edit Unit} {k k' : Unit → Edit β}
    (hd : Alike P φ d d') (hk : Alike P φ (k ()) (k' ())) :
    Alike P φ (if p then d >>= k else k ()) (if p then d' >>= k' else k' ()) :=
  .ite (.bind hd fun _ => hk) hk

theorem Alike.forM {f f' : α → Edit Unit} (h : ∀ a, Alike P φ (f a) (f' a)) (as : List α) :
    Alike P φ (as.forM f) (as.forM f') := by
  induction as with
  | nil => exact .pure ()
  | cons a rest ih => exact (h a).bind fun _ => ih

theorem Alike.eq_of_ends (h : Alike P φ e e') (he : Ends e s (fun _ _ => True) fun x _ => ¬ P x)
    (he' : Ends e' (φ s) (fun _ _ => True) fun x _ => ¬ P x) : e' (φ s) = mapStore φ (e s) :=
  ((h s).resolve_left fun hs => stops_iff.1 hs he).resolve_left fun hs => stops_iff.1 hs he'

end ShaderIR.Edit
