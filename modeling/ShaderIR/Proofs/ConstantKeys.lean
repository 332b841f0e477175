import ShaderIR.Proofs.AddressFolding
import ShaderIR.Proofs.ReferenceEdits

/-! Constants under all other edits. What makes or changes values that are no constants leaves the
constants as they are; a constant is entered when it is made and its entry goes with it. -/

open ShaderIR.Core

namespace ShaderIR

structure Layout.FindsScope (L : Layout) (v : ValueId) : Prop where
  block : ∀ {b}, L.place v = some (.instructions b) → L.kind b = some .block
  table : ∀ {sc}, L.scope v = some sc → ∃ t, L.tables sc = some t

namespace Store

variable {s s' : Store} {r : Location → Option NodeId} {v c f b : ValueId} {d d' : Value}
variable {N : ValueId → Prop}

structure Extends (N : ValueId → Prop) (s s' : Store) : Prop where
  types : ∀ {ty sh}, s.types.get? ty = some sh → s'.types.get? ty = some sh
  old : ∀ {v d}, s.values.get? v = some d → ∃ d', s'.values.get? v = some d' ∧ d'.ty = d.ty ∧
    d'.constant? = d.constant?
  new : ∀ {v d'}, s.values.get? v = none → s'.values.get? v = some d' → d'.constant? ≠ none → N v
  targets : ∀ {v d}, s.values.get? v = some d → d.kind = .constant →
    s'.uses.targets v = s.uses.targets v

theorem Extends.addresses (h : s.Extends N s') (hc : s.values.get? c = some d) (ha : d.IsAddress)
    (hfb : s.Addresses c f b) : s'.Addresses c f b := by
  obtain ⟨df, result, params, hdf, htf⟩ := hfb.function
  obtain ⟨db, hdb, htb⟩ := hfb.block
  obtain ⟨df', hdf', hty, -⟩ := h.old hdf
  obtain ⟨db', hdb', hty', -⟩ := h.old hdb
  exact ⟨(h.targets hc ha.kind).trans hfb.targets,
    ⟨df', result, params, hdf', by rw [hty]; exact h.types htf⟩,
    ⟨db', hdb', by rw [hty']; exact h.types htb⟩⟩

theorem Extends.keyOf_eq (h : s.Extends N s') (hv : ¬ N v) : s'.keyOf v = s.keyOf v := by
  cases hd : s.values.get? v with
  | none =>
    rw [keyOf_of_dead hd]
    cases hd' : s'.values.get? v with
    | none => exact keyOf_of_dead hd'
    | some d' =>
      have hc : d'.constant? = none := by
        by_contra hc
        exact hv (h.new hd hd' hc)
      rw [keyOf_of_get? hd', hc]
      rfl
  | some d =>
    obtain ⟨d', hd', -, hc⟩ := h.old hd
    rw [keyOf_of_get? hd', keyOf_of_get? hd, hc]
    by_cases ha : d.IsAddress
    · rw [h.targets hd ha.kind]
    · exact ConstantKey.of_congr (fun ty hty => ha (Value.constant?_eq_address.1 hty).2) _ _

theorem Extends.filled (h : s.Extends N s') (hf : s.Filled)
    (hN : ∀ c d, N c → s'.values.get? c = some d → d.IsAddress → ∃ f b, s'.Addresses c f b) :
    s'.Filled := by
  intro c d' hd' ha
  cases hd : s.values.get? c with
  | none =>
    refine hN c d' (h.new hd hd' ?_) hd' ha
    rw [Value.constant?_eq_address.2 ⟨rfl, ha⟩]
    simp
  | some d =>
    obtain ⟨d'', hd'', -, hc⟩ := h.old hd
    obtain rfl := Option.some.inj (hd'.symm.trans hd'')
    have ha' := isAddress_of_constant? hc ha
    obtain ⟨f, b, hfb⟩ := hf c d hd ha'
    exact ⟨f, b, h.addresses hd ha' hfb⟩

theorem Extends.slotless (h : s.Extends N s') (hs : s.Slotless)
    (hN : ∀ c d, N c → s'.values.get? c = some d → ¬ d.IsAddress → s'.uses.targets c = []) :
    s'.Slotless := by
  intro c d' hd' hk ha
  cases hd : s.values.get? c with
  | none =>
    have hc : d'.constant? ≠ none := fun hc => Value.constant?_eq_none.1 hc hk
    exact hN c d' (h.new hd hd' hc) hd' ha
  | some d =>
    obtain ⟨d'', hd'', -, hc⟩ := h.old hd
    obtain rfl := Option.some.inj (hd'.symm.trans hd'')
    have hkd : d.kind = .constant := by
      by_contra hne
      exact Value.constant?_eq_none.1 (hc.trans (Value.constant?_eq_none.2 hne)) hk
    rw [h.targets hd hkd]
    exact hs c d hd hkd fun had => ha (isAddress_of_constant? hc.symm had)

theorem Keyed.extends (h : s.Keyed) (he : s.Extends (fun _ => False) s')
    (hc : s'.constants = s.constants) : s'.Keyed := by
  refine ⟨he.filled h.filled fun _ _ hN => hN.elim, ?_,
    he.slotless h.slotless fun _ _ hN => hN.elim⟩
  have hkey : s'.keyOf = s.keyOf := funext fun v => he.keyOf_eq id
  rw [hkey, hc]
  exact h.entered

theorem Keyed.insert (h : s.Keyed) (he : s.Extends (· = c) s') {key : ConstantKey}
    (hnone : s.constants[key]? = none) (hdead : s.values.get? c = none)
    (hkey : s'.keyOf c = some key) (hc : s'.constants = s.constants.insert key c)
    (ha : ∀ d, s'.values.get? c = some d → d.IsAddress → ∃ f b, s'.Addresses c f b)
    (hn : ∀ d, s'.values.get? c = some d → ¬ d.IsAddress → s'.uses.targets c = []) :
    s'.Keyed := by
  refine ⟨he.filled h.filled ?_, ?_, he.slotless h.slotless ?_⟩
  · rintro _ d rfl
    exact ha d
  · have hkeys : s'.keyOf = Function.update s.keyOf c (some key) := by
      rw [Function.eq_update_iff]
      exact ⟨hkey, fun v hv => he.keyOf_eq hv⟩
    rw [hkeys, hc]
    exact h.entered.insert hnone (keyOf_of_dead hdead)
  · rintro _ d rfl
    exact hn d

theorem Extends.of_values (ht : s'.types = s.types) (hu : s'.uses = s.uses)
    (hv : ∀ v, (s'.values.get? v).map (fun d => (d.ty, d.constant?)) =
      (s.values.get? v).map fun d => (d.ty, d.constant?)) : s.Extends N s' where
  types h := ht ▸ h
  old {v d} hd := by
    have h := hv v
    rw [hd, Option.map_some, Option.map_eq_some_iff] at h
    obtain ⟨d', hd', h⟩ := h
    obtain ⟨hty, hc⟩ := Prod.mk.inj h
    exact ⟨d', hd', hty, hc⟩
  new {v d'} hd hd' := by
    have h := hv v
    rw [hd, hd'] at h
    cases h
  targets _ _ := by rw [hu]

theorem Extends.of_core (ht : s'.types = s.types) (hu : s'.uses = s.uses)
    (hv : s'.core.values = s.core.values) : s.Extends N s' := by
  refine .of_values ht hu fun v => ?_
  have hbare (s : Store) : (s.values.get? v).map (fun d => (d.ty, d.constant?)) =
      (s.core.values.get? v).map fun d => (d.ty, d.constant?) := by
    rw [get?_core, Option.map_map]
    refine Option.map_congr fun d _ => ?_
    obtain ⟨_, p, _, _, _⟩ := d
    cases p <;> rfl
  rw [hbare s', hbare s, hv]

theorem Extends.of_body (h : s'.body = s.body) : s.Extends N s' := by
  have hvalues : s'.body.values = s.body.values := congrArg Store.values h
  refine .of_values (show s'.body.types = s.body.types by rw [h])
    (show s'.body.uses = s.body.uses by rw [h]) fun v => ?_
  have hbody (s : Store) : (s.values.get? v).map (fun d => (d.ty, d.constant?)) =
      (s.body.values.get? v).map fun d => (d.ty, d.constant?) := by
    rw [get?_body, Option.map_map]
    rfl
  rw [hbody s', hbody s, hvalues]

theorem Extends.of_push (hd : d.constant? ≠ none → N s.values.next) :
    s.Extends N (s.pushValue d).2 where
  types h := h
  old {v dv} hv := by
    refine ⟨dv, ?_, rfl, rfl⟩
    refine (Arena.get?_push ..).trans ((if_neg ?_).trans hv)
    rintro rfl
    simp at hv
  new {v d'} hv hd' hc := by
    rw [show (s.pushValue d).2.values.get? v = _ from Arena.get?_push ..] at hd'
    split at hd'
    next heq => exact heq ▸ hd (Option.some.inj hd' ▸ hc)
    next => cases hv.symm.trans hd'
  targets _ _ := rfl

theorem Extends.of_types {types : TypeTable}
    (h : ∀ {ty sh}, s.types.get? ty = some sh → types.get? ty = some sh) :
    s.Extends N { s with types := types } where
  types := h
  old hd := ⟨_, hd, rfl, rfl⟩
  new hd hd' := by cases hd.symm.trans hd'
  targets _ _ := rfl

theorem Rewired.extends (h : s.Rewired v s')
    (hv : ∀ d, s.values.get? v = some d → d.kind ≠ .constant) : s.Extends N s' := by
  have htargets := h.others
  obtain ⟨g, rfl⟩ := h.uses
  refine ⟨id, fun hd => ⟨_, hd, rfl, rfl⟩, fun hd hd' => ?_, fun {w d} hd ha => htargets w ?_⟩
  · cases hd.symm.trans hd'
  · rintro rfl
    exact hv d hd ha

section Gone

variable {t : Tracker} {ws : Std.ExtTreeMap NodeId ValueId} (hs : s.core.Sound r)

include hs

theorem targets_without {w : ValueId} (hw : w ≠ v) :
    (s.without v t ws).uses.targets w = s.uses.targets w := by
  have hg : s.uses.Sound s.core.IsLive := hs.graph
  exact (hg.targets_clearSlots w).trans (if_neg hw.symm)

theorem keyOf_without : (s.without v t ws).keyOf = Function.update s.keyOf v none := by
  have hget (w : ValueId) : (s.without v t ws).values.get? w =
      if v = w then none else s.values.get? w := Arena.get?_erase ..
  rw [Function.eq_update_iff]
  refine ⟨keyOf_of_dead ((hget v).trans (if_pos rfl)), fun w hw => ?_⟩
  rw [keyOf, targets_without hs hw, hget, if_neg hw.symm, keyOf]

theorem Filled.without (hf : s.Filled) (hu : s.uses.useList v = []) :
    (s.without v t ws).Filled := by
  have hget (w : ValueId) : (s.without v t ws).values.get? w =
      if v = w then none else s.values.get? w := Arena.get?_erase ..
  have hg : s.uses.Sound s.core.IsLive := hs.graph
  intro c d hd ha
  rw [hget] at hd
  split at hd
  · cases hd
  next hvc =>
    obtain ⟨f, b, hfb⟩ := hf c d hd ha
    obtain ⟨df, result, params, hdf, htf⟩ := hfb.function
    obtain ⟨db, hdb, htb⟩ := hfb.block
    have hfv : f ≠ v := hg.ne_of_useList (i := 0) hu (by rw [hfb.targets]; rfl)
    have hbv : b ≠ v := hg.ne_of_useList (i := 1) hu (by rw [hfb.targets]; rfl)
    exact ⟨f, b, (targets_without hs (Ne.symm hvc)).trans hfb.targets,
      ⟨df, result, params, by rw [hget, if_neg hfv.symm, hdf], htf⟩,
      ⟨db, by rw [hget, if_neg hbv.symm, hdb], htb⟩⟩

theorem Slotless.without (h : s.Slotless) : (s.without v t ws).Slotless := by
  intro c d hd hk ha
  have hget : (s.without v t ws).values.get? c = if v = c then none else s.values.get? c :=
    Arena.get?_erase ..
  rw [hget] at hd
  split at hd
  · cases hd
  next hvc => rw [targets_without hs (Ne.symm hvc), h c d hd hk ha]

end Gone

theorem WrapsLive.of_core (h : s.WrapsLive) (hc : s'.core = s.core) : s'.WrapsLive := by
  intro w n hn
  have hnodeOf : s'.metadata.nodeOf = s.metadata.nodeOf :=
    congrArg (fun c => c.metadata.nodeOf) hc
  rw [← isLive_core, hc, isLive_core]
  exact h (hnodeOf ▸ hn)

end Store

namespace Edit

variable {s : Store} {v : ValueId} {ty : TypeId} {data : ConstantData}

section Making

theorem ends_internScalar_keyed (hs : s.Settled) (hk : s.Keyed) (hdata : data ≠ .blockAddress) :
    Ends (internScalar ty data) s (fun _ => Store.Keyed) fun _ _ => False := by
  unfold internScalar
  rw [ends_bind, ends_get]
  split
  next => exact hk
  next hnone =>
    have hd : Value.constant? { ty := ty, payload := .constant data } = some (ty, data) := rfl
    rw [ends_bind, pushValue, ends_modifyGet, ends_bind, ends_modify]
    have hself : (s.pushValue { ty := ty, payload := .constant data }).2.values.get? s.values.next =
        some { ty := ty, payload := .constant data } := (Arena.get?_push ..).trans (if_pos rfl)
    have he := Store.Extends.of_push (s := s) (N := (· = s.values.next))
      (d := { ty := ty, payload := .constant data }) fun _ => rfl
    change Store.Keyed _
    refine hk.insert ⟨he.types, he.old, he.new, he.targets⟩ hnone (Arena.get?_next _) ?_ rfl
      (fun d hd' ha => ?_) ?_
    · refine (Store.keyOf_of_get? hself).trans ?_
      rw [hd]
      cases data
      case blockAddress => exact absurd rfl hdata
      all_goals rfl
    · obtain rfl := Option.some.inj (hself.symm.trans hd')
      exact absurd (Payload.constant.inj ha) hdata
    · -- What is not live has no slots.
      have hslots : s.uses.slotsOf s.values.next = [] := by
        rw [List.eq_nil_iff_forall_not_mem]
        intro e he
        obtain ⟨d, hd⟩ := Store.isLive_core.1 (hs.graph.slot_live he)
        rw [Arena.get?_next] at hd
        cases hd
      exact fun _ _ _ => congrArg (List.map _) hslots

theorem ends_blockAddress_keyed (hs : s.Settled) (hk : s.Keyed) {f b : ValueId} :
    Ends (blockAddress f b) s (fun _ => Store.Keyed) fun _ => Store.Keyed := by
  refine (ends_blockAddress hs).mono ?_ ?_
  · rintro c s' (⟨rfl, -⟩ | h)
    · exact hk
    obtain ⟨ty, hvalues⟩ := h.values
    have hget (w : ValueId) : s'.values.get? w = if w = c then
        some { ty := ty, payload := .constant .blockAddress } else s.values.get? w := by
      rw [hvalues, h.next, Arena.get?_push]
    have hold {w : ValueId} {d : Value} (hd : s.values.get? w = some d) : w ≠ c := by
      rintro rfl
      rw [h.next, Arena.get?_next] at hd
      cases hd
    have hwell {w : ValueId} {d : Value} (hd : s.values.get? w = some d) :
        d.bare.WellTyped s.types := hs.typed.values (by rw [Store.get?_core, hd]; rfl)
    obtain ⟨df, hdf, hkf⟩ := h.function
    obtain ⟨db, hdb, hkb⟩ := h.block
    obtain ⟨result, params, htf⟩ := (hwell hdf).function (by rwa [Value.kind_bare])
    have htb := (hwell hdb).block (by rwa [Value.kind_bare])
    have haddress : s'.Addresses c f b := ⟨h.targets,
      ⟨df, result, params, by rw [hget, if_neg (hold hdf), hdf], h.types htf⟩,
      ⟨db, by rw [hget, if_neg (hold hdb), hdb], h.types htb⟩⟩
    have hself := (hget c).trans (if_pos rfl)
    refine hk.insert (c := c) ⟨h.types, fun {w d} hd => ?_,
      fun {w d'} hd hd' _ => ?_, fun hd _ => h.others _ (hold hd)⟩ h.fresh ?_
      (haddress.keyOf hself rfl) h.constants (fun d hd ha => ⟨f, b, haddress⟩) fun d hd ha => ?_
    · exact ⟨d, by rw [hget, if_neg (hold hd), hd], rfl, rfl⟩
    · by_contra hwc
      rw [hget, if_neg hwc, hd] at hd'
      cases hd'
    · rw [h.next]
      exact Arena.get?_next _
    · obtain rfl := Option.some.inj (hself.symm.trans hd)
      exact absurd rfl ha
  · rintro _ _ rfl
    exact hk

end Making

section Destroying

theorem erase_of_getElem?_eq_none {t : Std.ExtTreeMap ValueId NodeId} (h : t[v]? = none) :
    t.erase v = t := by
  refine Std.ExtTreeMap.ext_getElem? fun w => ?_
  rw [getElem?_erase_eq_ite]
  split
  next hvw => exact hvw ▸ h.symm
  next => rfl

theorem ends_dropUntrackedNode (s : Store) (v : ValueId) : Ends (dropUntrackedNode v) s
    (fun _ s' => ∃ md, s' = { s with metadata := md } ∧ md.nodeOf = s.metadata.nodeOf.erase v)
    fun _ s' => s' = s := by
  unfold dropUntrackedNode dropValueNode
  rw [ends_bind, ends_get]
  split
  next hnone => exact ⟨s.metadata, rfl, (erase_of_getElem?_eq_none hnone).symm⟩
  next n hn =>
    rw [ends_bind, ends_get]
    split
    · rfl
    · rw [ends_bind, ends_get, hn]
      exact ⟨_, rfl, rfl⟩

theorem ends_condemn_keyed (hk : s.Keyed) : Ends (condemn v) s
    (fun _ s' => s'.metadata.nodeOf = s.metadata.nodeOf.erase v ∧
      Indexes s'.constants (Function.update s.keyOf v none)) fun _ s' => s' = s := by
  unfold condemn
  refine ends_bind.2 (ends_lift.2 ⟨fun kind hkind => ?_, fun _ _ => rfl⟩)
  refine ends_bind.2 (ends_lift.2 ⟨fun uses huses => ?_, fun _ _ => rfl⟩)
  obtain ⟨d, hd, -⟩ := Query.kind_ok.1 hkind
  split
  · rfl
  refine Ends.bind (ends_dropUntrackedNode s v) ?_
  rintro _ _ ⟨md, rfl, hmd⟩
  have hext : s.Extends (fun _ => False) { s with metadata := md } :=
    .of_values rfl rfl fun _ => rfl
  have hkey : Query.constantKey v { s with metadata := md } = .ok (s.keyOf v) :=
    (hk.extends hext rfl).filled.constantKey hd
  rw [ends_bind, ends_lift_ok hkey]
  cases hv : s.keyOf v with
  | none =>
    refine ⟨hmd, ?_⟩
    rw [← hv, Function.update_eq_self]
    exact hk.entered
  | some key =>
    change Ends (forgetConstant key v) _ _ _
    rw [forgetConstant, ends_modify, if_pos ((hk.entered key v).2 hv)]
    exact ⟨hmd, hk.entered.erase hv⟩

theorem ends_destroyValue_keyed (hs : s.Settled) (hk : s.Keyed) (hw : s.WrapsLive) :
    Ends (destroyValue v) s (fun _ s' => s'.Settled ∧ s'.Keyed ∧ s'.WrapsLive)
      fun _ s' => s'.Settled ∧ s'.Keyed ∧ s'.WrapsLive := by
  rw [destroyValue_eq]
  refine Ends.bind (((ends_condemn hs).and (ends_condemn_keyed hk)).mono (fun _ _ h => h) ?_) ?_
  · rintro _ _ ⟨-, rfl⟩
    exact ⟨hs, hk, hw⟩
  rintro _ p ⟨⟨⟨d, hd⟩, hu, md, cs, hp, -, hs₁, hheld⟩, hnodeOf, hentered⟩
  have hvalues : p.values = s.values := by rw [hp]
  have hname : Ends (unregisterName v) p (fun _ q => q.core = p.core)
      fun _ q => q.core = p.core ∧ s.keyOf v = none := by
    cases hv : s.keyOf v with
    | none =>
      have hcore : Fixes Store.core (unregisterName v) := fixes_unregisterName
      exact (hcore.ends p).mono (fun _ _ h => h) fun _ _ h => ⟨h, rfl⟩
    | some key =>
      have hconst : d.kind.isResident = false := by
        by_contra hres
        refine absurd (Store.keyOf_of_kind hd fun hk => hres ?_) (by simp [hv])
        rw [hk]
        rfl
      refine (ends_unregisterName_of_not_isResident (hvalues ▸ hd) hconst).weaken ?_
      rintro _ _ rfl
      rfl
  have hext {q : Store} (hq : q.core = p.core) : s.Extends (fun _ => False) q := by
    have hcore : p.core.values = s.core.values := by rw [hp]; rfl
    exact .of_core ((congrArg Core.types hq).trans (by rw [hp]; rfl))
      ((congrArg Core.uses hq).trans (by rw [hp]; rfl)) ((congrArg Core.values hq).trans hcore)
  have hkeys {q : Store} (hq : q.core = p.core) : q.keyOf = s.keyOf :=
    funext fun w => (hext hq).keyOf_eq id
  have hfilled {q : Store} (hq : q.core = p.core) : q.Filled :=
    (hext hq).filled hk.filled fun _ _ hN => hN.elim
  have hslotless {q : Store} (hq : q.core = p.core) : q.Slotless :=
    (hext hq).slotless hk.slotless fun _ _ hN => hN.elim
  have hconstants {q : Store} (hq : q.core = p.core) :
      Indexes q.constants (Function.update s.keyOf v none) := by
    rwa [show q.constants = p.constants from congrArg Core.constants hq]
  have hwraps {q : Store} (hq : q.core = p.core) {w : ValueId} {n : NodeId}
      (hn : q.metadata.nodeOf[w]? = some n) : v ≠ w ∧ ∃ d, q.values.get? w = some d := by
    have hq' : q.metadata.nodeOf = p.metadata.nodeOf := congrArg (fun c => c.metadata.nodeOf) hq
    rw [hq', hnodeOf, getElem?_erase_eq_ite] at hn
    split at hn
    · cases hn
    next hvw =>
      obtain ⟨dw, hdw⟩ := hw hn
      obtain ⟨dw', hdw', -⟩ := (hext hq).old hdw
      exact ⟨hvw, dw', hdw'⟩
  refine Ends.bind (hname.mono (fun _ _ h => h) ?_) ?_
  · rintro _ q ⟨hq, hnone⟩
    refine ⟨settled_of_eq (hq ▸ hs₁) (hq ▸ hheld), ⟨hfilled hq, ?_, hslotless hq⟩,
      fun hn => (hwraps hq hn).2⟩
    rw [hkeys hq, ← Function.update_eq_self v s.keyOf, hnone]
    exact hconstants hq
  intro _ q hq
  have hsq : q.core.Sound s.core.held := hq ▸ hs₁
  obtain ⟨dq, hdq, -⟩ := (hext hq).old hd
  have huq : q.uses.useList v = [] := by
    rw [show q.uses = p.uses from congrArg Core.uses hq, hp]
    exact hu
  refine (ends_discard hsq hdq huq).weaken ?_
  rintro _ s' ⟨t, ws, rfl, -, hs', hheld'⟩
  refine ⟨settled_of_eq hs' ?_, ⟨(hfilled hq).without hsq huq, ?_,
    (hslotless hq).without hsq⟩, fun {w n} hn => ?_⟩
  · rw [hheld', hq, hheld]
  · rw [Store.keyOf_without hsq, hkeys hq]
    exact hconstants (q := q) hq
  · obtain ⟨hvw, dw, hdw⟩ := hwraps hq hn
    exact ⟨dw, (Arena.get?_erase ..).trans ((if_neg hvw).trans hdw)⟩

theorem ends_unregisterName_answers {d : Value} (hd : s.values.get? v = some d)
    (hscope : s.layout.FindsScope v) :
    Ends (unregisterName v) s (fun _ _ => True) fun _ _ => False := by
  unfold unregisterName
  rw [ends_bind, ends_lift_ok (Query.value_ok.2 hd)]
  split
  · trivial
  · rw [ends_bind, ends_lift_ok (Query.scopeOf_of_block (fun _ => hscope.block) hd)]
    cases hsc : s.layout.scope v with
    | none => trivial
    | some sc =>
      obtain ⟨t, ht⟩ := hscope.table hsc
      dsimp only
      rw [ends_bind, ends_lift_ok (Query.symbols_ok.2 ht)]
      split
      · trivial
      · trivial

theorem ends_destroyValue_answers {d : Value} (hs : s.Settled) (hk : s.Keyed)
    (hd : s.values.get? v = some d) (hu : s.uses.useList v = [])
    (hn : ∀ n, s.metadata.nodeOf[v]? = some n → s.metadata.tracker.count n = 0)
    (hscope : s.layout.FindsScope v) :
    Ends (destroyValue v) s (fun _ s' => s'.values.get? v = none) fun _ _ => False := by
  have hdrop : Ends (dropUntrackedNode v) s (fun _ _ => True) fun _ _ => False := by
    unfold dropUntrackedNode dropValueNode
    rw [ends_bind, ends_get]
    split
    · trivial
    next n hn' =>
      rw [ends_bind, ends_get, if_neg (not_not_intro (hn n hn')), ends_bind, ends_get, hn']
      trivial
  have hcondemn : Ends (condemn v) s (fun _ _ => True) fun _ _ => False := by
    unfold condemn
    rw [ends_bind, ends_lift_ok (Query.kind_ok.2 ⟨d, hd, rfl⟩), ends_bind,
      ends_lift_ok (Query.useCount_ok.2 ⟨⟨d, hd⟩, rfl⟩), hu, if_neg (by simp)]
    refine Ends.bind ((hdrop.and (ends_dropUntrackedNode s v)).mono (fun _ _ h => h.2)
      fun _ _ h => h.1) ?_
    rintro _ _ ⟨md, rfl, -⟩
    have hext : s.Extends (fun _ => False) { s with metadata := md } :=
      .of_values rfl rfl fun _ => rfl
    have hkey : Query.constantKey v { s with metadata := md } = .ok (s.keyOf v) :=
      (hk.extends hext rfl).filled.constantKey hd
    rw [ends_bind, ends_lift_ok hkey]
    cases s.keyOf v <;> trivial
  rw [destroyValue_eq]
  refine Ends.bind (((ends_condemn hs).and hcondemn).mono (fun _ _ h => h.1) fun _ _ h => h.2) ?_
  rintro _ _ ⟨-, -, md, cs, rfl, -, hs₁, -⟩
  have hname := (ends_unregisterName_answers (s := { s with metadata := md, constants := cs }) hd
    hscope).and ((fixes_unregisterName : Fixes Store.core (unregisterName v)).ends _)
  refine Ends.bind (hname.mono (fun _ _ h => h.2) fun _ _ h => h.1) ?_
  intro _ q hq
  have hlive : q.core.IsLive v := by
    rw [hq]
    exact Store.isLive_core.2 ⟨d, hd⟩
  obtain ⟨dq, hdq⟩ := Store.isLive_core.1 hlive
  have huq : q.uses.useList v = [] := (congrArg (fun c => c.uses.useList v) hq).trans hu
  refine (ends_discard (hq ▸ hs₁) hdq huq).weaken ?_
  rintro _ s' ⟨t, ws, rfl, -⟩
  exact (Arena.get?_erase ..).trans (if_pos rfl)

end Destroying

end Edit

end ShaderIR
