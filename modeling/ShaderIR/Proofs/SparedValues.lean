import ShaderIR.Proofs.OperandLists
import ShaderIR.Proofs.ValueDestruction

/-! What merging spares. A merge destroys and rewires some values; all values with certain payloads
stay as they are and where they are used. -/

namespace ShaderIR

def Payload.IsMergeable (p : Payload) : Prop := p.kind = .metadata ∨ p = .constant .blockAddress

def Value.constant? (d : Value) : Option (TypeId × ConstantData) :=
  match d.payload with
  | .constant data => some (d.ty, data)
  | _ => none

theorem Value.constant?_eq_some {d : Value} {ty : TypeId} {data : ConstantData} :
    d.constant? = some (ty, data) ↔ d.ty = ty ∧ d.payload = .constant data := by
  obtain ⟨_, p, _, _, _⟩ := d
  cases p <;> simp [constant?]

theorem Value.constant?_eq_none {d : Value} : d.constant? = none ↔ d.kind ≠ .constant := by
  obtain ⟨_, p, _, _, _⟩ := d
  cases p <;> simp [constant?, kind, Payload.kind]

theorem Value.constant?_of_kind {d : Value} (hk : d.kind = .metadata) : d.constant? = none :=
  constant?_eq_none.2 (by simp [hk])

theorem Value.IsAddress.kind {d : Value} (h : d.IsAddress) : d.kind = .constant := by
  rw [Value.kind, h]
  rfl

namespace Store

def WrapsLive (s : Store) : Prop :=
  ∀ {v : ValueId} {n : NodeId}, s.metadata.nodeOf[v]? = some n → ∃ d, s.values.get? v = some d

/-- Values of certain payloads stay, but for their attachments, and are used where they have been
used before by the values that stay. No value is new, and none becomes another constant. -/
structure Spares (P : Payload → Prop) (s s' : Store) : Prop where
  sort : ∀ {v d'}, s'.values.get? v = some d' →
    ∃ d, s.values.get? v = some d ∧ d'.kind = d.kind ∧ d'.constant? = d.constant?
  value : ∀ {v d}, s.values.get? v = some d → P d.payload →
    ∃ d', s'.values.get? v = some d' ∧ d'.unattached = d.unattached
  count : ∀ {v d'}, s'.values.get? v = some d' →
    (s'.uses.targets v).length = (s.uses.targets v).length
  operands : ∀ {v t d d'} (i : Nat), s'.values.get? v = some d' → s.values.get? t = some d →
    P d.payload → ((s'.uses.targets v)[i]? = some (some t) ↔ (s.uses.targets v)[i]? = some (some t))
  wrapped : s.WrapsLive → s'.WrapsLive

variable {P Q : Payload → Prop} {s s' s'' : Store} {v : ValueId} {d : Value}

theorem not_isMergeable {r : Location → Option NodeId} (hs : s.core.Sound r)
    (hd : s.values.get? v = some d)
    (ha : s.types.IsAddressable d.ty) : ¬ d.payload.IsMergeable := by
  have hget : s.core.values.get? v = some d.bare := by rw [get?_core, hd]; rfl
  intro hm
  refine (hs.typed.values hget).not_isAddressable ?_ ha
  exact hm.imp (fun hk => by rwa [Value.kind_bare]) Value.bare_payload_constant.2

theorem payload_of_unattached {d' : Value} (h : d'.unattached = d.unattached) :
    d'.payload = d.payload := by
  have hp : d'.unattached.payload = d.unattached.payload := congrArg Value.payload h
  exact hp

namespace Spares

theorem refl (s : Store) : s.Spares P s :=
  ⟨fun h => ⟨_, h, rfl, rfl⟩, fun h _ => ⟨_, h, rfl⟩, fun _ => rfl, fun _ _ _ _ => Iff.rfl, id⟩

theorem trans (h : s.Spares P s') (h' : s'.Spares P s'') : s.Spares P s'' where
  sort hd'' := by
    obtain ⟨d', hd', hk', hc'⟩ := h'.sort hd''
    obtain ⟨d, hd, hk, hc⟩ := h.sort hd'
    exact ⟨d, hd, hk'.trans hk, hc'.trans hc⟩
  value hd hp := by
    obtain ⟨d', hd', heq⟩ := h.value hd hp
    obtain ⟨d'', hd'', heq'⟩ := h'.value hd' (payload_of_unattached heq ▸ hp)
    exact ⟨d'', hd'', heq'.trans heq⟩
  count hd'' := by
    obtain ⟨d', hd', -⟩ := h'.sort hd''
    exact (h'.count hd'').trans (h.count hd')
  operands i hd'' ht hp := by
    obtain ⟨d', hd', -⟩ := h'.sort hd''
    obtain ⟨dt, hdt, heq⟩ := h.value ht hp
    exact (h'.operands i hd'' hdt (payload_of_unattached heq ▸ hp)).trans
      (h.operands i hd' ht hp)
  wrapped hw := h'.wrapped (h.wrapped hw)

theorem mono (h : s.Spares P s') (hpq : ∀ p, Q p → P p) : s.Spares Q s' :=
  ⟨h.sort, fun hd hq => h.value hd (hpq _ hq), h.count,
    fun i hd' ht hq => h.operands i hd' ht (hpq _ hq), h.wrapped⟩

theorem gone (h : s.Spares P s') (hv : s.values.get? v = none) : s'.values.get? v = none := by
  rw [Option.eq_none_iff_forall_ne_some]
  intro d' hd'
  obtain ⟨d, hd, -⟩ := h.sort hd'
  rw [hv] at hd
  cases hd

end Spares

structure Retains (s s' : Store) (t : ValueId) : Prop where
  live : s.isLive t → s'.isLive t
  operands : ∀ {u} (i : Nat), s'.isLive u →
    ((s'.uses.targets u)[i]? = some (some t) ↔ (s.uses.targets u)[i]? = some (some t))

theorem retains_of_eq {t : ValueId} (hv : s'.values = s.values) (hu : s'.uses = s.uses) :
    s.Retains s' t :=
  ⟨fun ht => by rwa [isLive, hv], fun _ _ => by rw [hu]⟩

theorem Spares.retains (h : s.Spares P s') (hd : s.values.get? v = some d) (hp : P d.payload) :
    s.Retains s' v := by
  refine ⟨fun _ => ?_, fun i hu => ?_⟩
  · obtain ⟨d', hd', -⟩ := h.value hd hp
    rw [isLive, hd', Option.isSome_some]
  · obtain ⟨d', hd'⟩ := Option.isSome_iff_exists.1 hu
    exact h.operands i hd' hd hp

theorem spares_of_eq (hv : s'.values = s.values) (hu : s'.uses = s.uses)
    (hw : s.WrapsLive → s'.WrapsLive) : s.Spares P s' where
  sort h := ⟨_, hv ▸ h, rfl, rfl⟩
  value h _ := ⟨_, hv ▸ h, rfl⟩
  count _ := by rw [hu]
  operands _ _ _ _ := by rw [hu]
  wrapped := hw

theorem spares_modifyValue {f : Value → Value} (hd : s.values.get? v = some d)
    (hk : (f d).kind = d.kind) (hc : (f d).constant? = d.constant?)
    (hv : (f d).unattached = d.unattached ∨ ¬ P d.payload) :
    s.Spares P (s.modifyValue v f) := by
  have hget (w : ValueId) : (s.modifyValue v f).values.get? w =
      if v = w then some (f d) else s.values.get? w := by
    refine (Arena.get?_modify ..).trans ?_
    split
    next hvw => rw [← hvw, hd, Option.map_some]
    next => rfl
  refine ⟨fun {w d'} hd' => ?_, fun {w dw} hw hp => ?_, fun _ => rfl, fun _ _ _ _ => Iff.rfl,
    fun hlive w n hn => ?_⟩
  · rw [hget] at hd'
    split at hd'
    next hvw => exact ⟨d, hvw ▸ hd, Option.some.inj hd' ▸ hk, Option.some.inj hd' ▸ hc⟩
    next => exact ⟨d', hd', rfl, rfl⟩
  · rw [hget]
    split
    next hvw =>
      obtain rfl : d = dw := Option.some.inj (hd.symm.trans (hvw ▸ hw))
      exact ⟨f d, rfl, hv.resolve_right (not_not_intro hp)⟩
    next => exact ⟨dw, hw, rfl⟩
  · obtain ⟨dw, hdw⟩ := hlive hn
    rw [hget]
    split
    · exact ⟨f d, rfl⟩
    · exact ⟨dw, hdw⟩

theorem spares_without {t : Tracker} {ws : Std.ExtTreeMap NodeId ValueId} {live : ValueId → Prop}
    (hg : s.uses.Sound live) (hd : s.values.get? v = some d) (hp : ¬ P d.payload)
    (hn : s.metadata.nodeOf[v]? = none) : s.Spares P (s.without v t ws) := by
  have hget (w : ValueId) : (s.without v t ws).values.get? w =
      if v = w then none else s.values.get? w := Arena.get?_erase ..
  have hne {w : ValueId} {d' : Value} (hd' : (s.without v t ws).values.get? w = some d') :
      v ≠ w ∧ s.values.get? w = some d' := by
    rw [hget] at hd'
    split at hd'
    · cases hd'
    next hvw => exact ⟨hvw, hd'⟩
  have htargets {w : ValueId} {d' : Value} (hd' : (s.without v t ws).values.get? w = some d') :
      (s.without v t ws).uses.targets w = s.uses.targets w :=
    (hg.targets_clearSlots w).trans (if_neg (hne hd').1)
  refine ⟨fun hd' => ⟨_, (hne hd').2, rfl, rfl⟩, fun {w dw} hw hpw => ⟨dw, ?_, rfl⟩,
    fun hd' => by rw [htargets hd'], fun i hd' _ _ => by rw [htargets hd'],
    fun hlive w n hw => ?_⟩
  · rw [hget, if_neg]
    · exact hw
    · rintro rfl
      exact hp (Option.some.inj (hd.symm.trans hw) ▸ hpw)
  · obtain ⟨dw, hdw⟩ := hlive hw
    refine ⟨dw, ?_⟩
    rw [hget, if_neg]
    · exact hdw
    · rintro rfl
      cases hn.symm.trans hw

theorem spares_withUses {g : UseGraph} {old new : ValueId} {dold dnew : Value}
    (hold : s.values.get? old = some dold) (hnew : s.values.get? new = some dnew)
    (hpold : ¬ P dold.payload) (hpnew : ¬ P dnew.payload)
    (ht : ∀ v, g.targets v = (s.uses.targets v).map fun o => if o = some old then some new else o) :
    s.Spares P { s with uses := g } := by
  refine ⟨fun h => ⟨_, h, rfl, rfl⟩, fun h _ => ⟨_, h, rfl⟩, fun _ => by rw [ht, List.length_map],
    fun {v t d d'} i _ hd hp => ?_, id⟩
  have htold : t ≠ old := by
    rintro rfl
    exact hpold (Option.some.inj (hold.symm.trans hd) ▸ hp)
  have htnew : t ≠ new := by
    rintro rfl
    exact hpnew (Option.some.inj (hnew.symm.trans hd) ▸ hp)
  rw [ht, List.getElem?_map]
  cases (s.uses.targets v)[i]? with
  | none => simp
  | some o =>
    rw [Option.map_some, Option.some.injEq, Option.some.injEq]
    split
    next ho => simp [ho, htold.symm, htnew.symm]
    next => rfl

end Store

end ShaderIR
