import ShaderIR.Proofs.ValueReplacement

/-! Interned constants. Every live constant is entered under its content, and nothing else is. While
a replacement interns block addresses anew, those still to come are entered under the content that
they had before. -/

namespace ShaderIR

section Tables

variable {κ ν : Type} [Ord κ] [Std.TransOrd κ]
variable {t : Std.ExtTreeMap κ ν} {key : ν → Option κ} {k : κ} {v w : ν}

def Indexes (t : Std.ExtTreeMap κ ν) (key : ν → Option κ) : Prop :=
  ∀ k v, t[k]? = some v ↔ key v = some k

theorem Indexes.inj (h : Indexes t key) (hv : key v = some k) (hw : key w = some k) : v = w :=
  Option.some.inj (((h k v).2 hv).symm.trans ((h k w).2 hw))

variable [Std.LawfulEqOrd κ] [DecidableEq κ] [DecidableEq ν]

theorem Indexes.erase (h : Indexes t key) (hv : key v = some k) :
    Indexes (t.erase k) (Function.update key v none) := by
  intro k' v'
  rw [getElem?_erase_eq_ite, Function.update_apply]
  by_cases hv' : v' = v
  · rw [if_pos hv']
    split
    · simp
    next hne =>
      refine iff_of_false (fun hk' => hne ?_) (by simp)
      exact Option.some.inj (hv.symm.trans (hv' ▸ (h k' v').1 hk'))
  · rw [if_neg hv']
    split
    next heq => exact iff_of_false (by simp) fun hk' => hv' (h.inj hk' (heq ▸ hv))
    next => exact h k' v'

theorem Indexes.insert (h : Indexes t key) (hk : t[k]? = none) (hv : key v = none) :
    Indexes (t.insert k v) (Function.update key v (some k)) := by
  intro k' v'
  rw [getElem?_insert_eq_ite, Function.update_apply]
  by_cases hv' : v' = v
  · rw [if_pos hv', Option.some.injEq]
    split
    next heq => simp [heq, hv']
    next hne => exact iff_of_false (fun hk' => by simpa [hv', hv] using (h k' v').1 hk') hne
  · rw [if_neg hv']
    split
    next heq =>
      refine iff_of_false (fun hvv => hv' (Option.some.inj hvv).symm) fun hk' => ?_
      have := (h k' v').2 hk'
      rw [← heq, hk] at this
      cases this
    next => exact h k' v'

end Tables

def ConstantKey.of : Option (TypeId × ConstantData) → List (Option ValueId) → Option ConstantKey
  | some (_, .blockAddress), [some function, some block] => some (.blockAddress function block)
  | some (_, .blockAddress), _ => none
  | some (ty, data), _ => some (.scalar ty data)
  | none, _ => none

theorem ConstantKey.of_congr {c : Option (TypeId × ConstantData)}
    (h : ∀ ty, c ≠ some (ty, .blockAddress)) (os os' : List (Option ValueId)) :
    ConstantKey.of c os = ConstantKey.of c os' := by
  obtain _ | ⟨ty, data⟩ := c
  · rfl
  · cases data
    case blockAddress => exact absurd rfl (h ty)
    all_goals rfl

def ConstantKey.Mentions (v : ValueId) : ConstantKey → Prop
  | .scalar .. => False
  | .blockAddress function block => function = v ∨ block = v

theorem Value.constant?_eq_address {d : Value} {ty : TypeId} :
    d.constant? = some (ty, .blockAddress) ↔ d.ty = ty ∧ d.IsAddress :=
  Value.constant?_eq_some

namespace Store

def keyOf (s : Store) (v : ValueId) : Option ConstantKey :=
  ConstantKey.of ((s.values.get? v).bind Value.constant?) (s.uses.targets v)

structure Addresses (s : Store) (c f b : ValueId) : Prop where
  targets : s.uses.targets c = [some f, some b]
  function : ∃ d result params, s.values.get? f = some d ∧
    s.types.get? d.ty = some (.function result params)
  block : ∃ d, s.values.get? b = some d ∧ s.types.get? d.ty = some .label

def Filled (s : Store) : Prop :=
  ∀ c d, s.values.get? c = some d → d.IsAddress → ∃ f b, s.Addresses c f b

def Slotless (s : Store) : Prop :=
  ∀ c d, s.values.get? c = some d → d.kind = .constant → ¬ d.IsAddress → s.uses.targets c = []

/-- Every live constant is entered under its content, and nothing else is. -/
structure Keyed (s : Store) : Prop where
  filled : s.Filled
  entered : Indexes s.constants s.keyOf
  slotless : s.Slotless

variable {s s' : Store} {r : Location → Option NodeId} {v c f b t : ValueId} {d d' : Value}

theorem keyOf_of_get? (hd : s.values.get? v = some d) :
    s.keyOf v = ConstantKey.of d.constant? (s.uses.targets v) := by
  rw [keyOf, hd, Option.bind_some]

theorem keyOf_of_dead (hv : s.values.get? v = none) : s.keyOf v = none := by
  rw [keyOf, hv, Option.bind_none]
  rfl

theorem Addresses.keyOf (h : s.Addresses c f b) (hd : s.values.get? c = some d)
    (ha : d.IsAddress) : s.keyOf c = some (.blockAddress f b) := by
  rw [keyOf_of_get? hd, Value.constant?_eq_address.2 ⟨rfl, ha⟩, h.targets]
  rfl

theorem of_keyOf_blockAddress (h : s.keyOf v = some (.blockAddress f b)) :
    ∃ d, s.values.get? v = some d ∧ d.IsAddress := by
  cases hd : s.values.get? v with
  | none => simp [keyOf_of_dead hd] at h
  | some d =>
    refine ⟨d, rfl, ?_⟩
    rw [keyOf_of_get? hd] at h
    cases hc : d.constant? with
    | none => simp [hc, ConstantKey.of] at h
    | some p =>
      obtain ⟨ty, data⟩ := p
      cases data <;> simp [hc, ConstantKey.of] at h
      exact (Value.constant?_eq_address.1 hc).2

theorem keyOf_of_kind (hd : s.values.get? v = some d) (hk : d.kind ≠ .constant) :
    s.keyOf v = none := by
  rw [keyOf_of_get? hd, Value.constant?_eq_none.2 hk]
  rfl

theorem Addresses.spares (h : s.Addresses c f b) (hs : s.core.Sound r)
    (hsp : s.Spares (fun p => ¬ p.IsMergeable) s') (ht : s'.types = s.types)
    (hc : s'.values.get? c = some d) : s'.Addresses c f b := by
  obtain ⟨df, result, params, hdf, htf⟩ := h.function
  obtain ⟨db, hdb, htb⟩ := h.block
  have hmf := not_isMergeable hs hdf (.inr ⟨result, params, htf⟩)
  have hmb := not_isMergeable hs hdb (.inl htb)
  have hty {d d' : Value} (heq : d'.unattached = d.unattached) : d'.ty = d.ty :=
    show d'.unattached.ty = d.unattached.ty from congrArg Value.ty heq
  refine ⟨?_, ?_, ?_⟩
  · have hcount : (s'.uses.targets c).length = 2 := by rw [hsp.count hc, h.targets]; rfl
    have hf := (hsp.operands 0 hc hdf hmf).2 (by rw [h.targets]; rfl)
    have hb := (hsp.operands 1 hc hdb hmb).2 (by rw [h.targets]; rfl)
    obtain ⟨x, y, hxy⟩ := List.length_eq_two.1 hcount
    rw [hxy] at hf hb ⊢
    rw [Option.some.inj hf, Option.some.inj hb]
  · obtain ⟨df', hdf', heq⟩ := hsp.value hdf hmf
    exact ⟨df', result, params, hdf', by rw [ht, hty heq, htf]⟩
  · obtain ⟨db', hdb', heq⟩ := hsp.value hdb hmb
    exact ⟨db', hdb', by rw [ht, hty heq, htb]⟩

theorem isAddress_of_constant? (h : d'.constant? = d.constant?) (ha : d'.IsAddress) :
    d.IsAddress :=
  (Value.constant?_eq_address.1 (h ▸ Value.constant?_eq_address.2 ⟨rfl, ha⟩)).2

theorem Slotless.spares {P : Payload → Prop} (h : s.Slotless) (hsp : s.Spares P s') :
    s'.Slotless := by
  intro c d' hd' hk ha
  obtain ⟨d, hd, hk', hc⟩ := hsp.sort hd'
  have hnil := h c d hd (hk' ▸ hk) fun had => ha (isAddress_of_constant? hc.symm had)
  rw [← List.length_eq_zero_iff, hsp.count hd', hnil, List.length_nil]

section Spares

variable (hs : s.core.Sound r) (hsp : s.Spares (fun p => ¬ p.IsMergeable) s')
variable (ht : s'.types = s.types)

include hs hsp ht

theorem Filled.spares (h : s.Filled) : s'.Filled := by
  intro c d' hd' ha
  obtain ⟨d, hd, -, hc⟩ := hsp.sort hd'
  obtain ⟨f, b, hfb⟩ := h c d hd (isAddress_of_constant? hc ha)
  exact ⟨f, b, hfb.spares hs hsp ht hd'⟩

theorem Filled.keyOf_spares (h : s.Filled) (hd' : s'.values.get? v = some d') :
    s'.keyOf v = s.keyOf v := by
  obtain ⟨d, hd, -, hc⟩ := hsp.sort hd'
  by_cases ha : d'.IsAddress
  · have had := isAddress_of_constant? hc ha
    obtain ⟨f, b, hfb⟩ := h v d hd had
    rw [(hfb.spares hs hsp ht hd').keyOf hd' ha, hfb.keyOf hd had]
  · rw [keyOf_of_get? hd', keyOf_of_get? hd, ← hc]
    exact ConstantKey.of_congr (fun ty hty => ha (Value.constant?_eq_address.1 hty).2) _ _

end Spares

theorem Keyed.spares (h : s.Keyed) (hs : s.core.Sound r)
    (hsp : s.Spares (fun p => p.kind ≠ .metadata) s') (ht : s'.types = s.types)
    (hc : s'.constants = s.constants) : s'.Keyed := by
  have hsp' : s.Spares (fun p => ¬ p.IsMergeable) s' := hsp.mono fun _ hp hk => hp (.inl hk)
  refine ⟨h.filled.spares hs hsp' ht, ?_, h.slotless.spares hsp⟩
  have hkey : s'.keyOf = s.keyOf := by
    funext v
    cases hd' : s'.values.get? v with
    | some d' => exact h.filled.keyOf_spares hs hsp' ht hd'
    | none =>
      rw [keyOf_of_dead hd']
      cases hd : s.values.get? v with
      | none => exact (keyOf_of_dead hd).symm
      | some d =>
        refine (keyOf_of_kind hd fun hk => ?_).symm
        obtain ⟨_, hd'', -⟩ := hsp.value hd (by simp [show d.payload.kind = .constant from hk])
        cases hd'.symm.trans hd''
  rw [hkey, hc]
  exact h.entered

theorem Filled.constantKey (h : s.Filled) (hd : s.values.get? v = some d) :
    Query.constantKey v s = .ok (s.keyOf v) := by
  unfold Query.constantKey
  rw [Query.bind_ok]
  refine ⟨d, Query.value_ok.2 hd, ?_⟩
  by_cases ha : d.IsAddress
  · obtain ⟨f, b, hfb⟩ := h v d hd ha
    have hf : Query.operand v 0 s = .ok (some f) :=
      Query.operand_ok.2 ⟨⟨d, hd⟩, by rw [hfb.targets]; rfl⟩
    have hb : Query.operand v 1 s = .ok (some b) :=
      Query.operand_ok.2 ⟨⟨d, hd⟩, by rw [hfb.targets]; rfl⟩
    rw [hfb.keyOf hd ha, show d.payload = .constant .blockAddress from ha]
    exact Query.bind_ok.2 ⟨some f, hf, Query.bind_ok.2 ⟨some b, hb, rfl⟩⟩
  · rw [keyOf_of_get? hd]
    obtain ⟨_, p, _, _, _⟩ := d
    cases p with
    | constant data =>
      cases data
      case blockAddress => exact absurd rfl ha
      all_goals rfl
    | _ => rfl

end Store

end ShaderIR
