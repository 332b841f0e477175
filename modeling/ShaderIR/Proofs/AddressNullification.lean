import ShaderIR.Proofs.ErasureLayout
import ShaderIR.Proofs.KeptHashes
import ShaderIR.Proofs.ReplacementWiring
import ShaderIR.Proofs.TableAgreement

/-! What becomes of the block addresses of a block that goes. One null constant takes the place of
all of them. It is made if there is none, and nothing else is made. -/

namespace ShaderIR

structure Arena.Continues {e : Entity} {α : Type} (a a' : Arena e α) : Prop where
  size : a.size ≤ a'.size
  old : ∀ {i : Index e} {x : α}, i.index < a.size → a'.get? i = some x → a.get? i = some x

namespace Arena.Continues

variable {e : Entity} {α : Type} {a a' : Arena e α}

theorem refl (a : Arena e α) : a.Continues a := ⟨Nat.le_refl _, fun _ h => h⟩

theorem erase (i : Index e) (h : a.Continues a') : a.Continues (a'.erase i) := by
  refine ⟨by rw [size_erase]; exact h.size, fun {j x} hj hx => h.old hj ?_⟩
  rw [get?_erase] at hx
  split at hx
  · cases hx
  · exact hx

theorem push (x : α) (h : a.Continues a') : a.Continues (a'.push x) := by
  refine ⟨by rw [size_push]; exact Nat.le_succ_of_le h.size, fun {j y} hj hy => h.old hj ?_⟩
  rw [get?_push, if_neg] at hy
  · exact hy
  · rintro rfl
    exact absurd h.size (Nat.not_le_of_lt hj)

theorem trans {a'' : Arena e α} (h : a.Continues a') (h' : a'.Continues a'') : a.Continues a'' :=
  ⟨Nat.le_trans h.size h'.size, fun hi hx => h.old hi (h'.old (Nat.lt_of_lt_of_le hi h.size) hx)⟩

theorem get?_eq {i : Index e} {x y : α} (h : a.Continues a') (hx : a.get? i = some x)
    (hy : a'.get? i = some y) : x = y :=
  Option.some.inj (hx.symm.trans (h.old (lt_size_of_get? hx) hy))

end Arena.Continues

theorem Query.users_ok {s : Store} {v : ValueId} {us : List ValueId} : Query.users v s = .ok us ↔
    (∃ d, s.values.get? v = some d) ∧ ((s.uses.useList v).map s.uses.use).map Use.user = us := by
  simp [Query.users, Query.uses]

open Edit Wiring

namespace Store

def PointsAt (s : Store) (c v : ValueId) : Prop :=
  s.isBlockAddress c = true ∧ ∃ slot, Query.operand c slot s = .ok (some v)

variable {s p q q' : Store} {b c null : ValueId} {ty : TypeId} {us : List ValueId} {d : Value}
variable {into into' : ValueId → ValueId}

structure Grows (s p : Store) (v : ValueId) : Prop where
  others : ∀ w, w ≠ v → p.values.get? w = s.values.get? w
  kept : ∀ {d}, s.values.get? v = some d → p.values.get? v = some d
  uses : p.uses = s.uses
  metadata : p.metadata = s.metadata

theorem Grows.refl (s : Store) (v : ValueId) : s.Grows s v :=
  ⟨fun _ _ => rfl, fun h => h, rfl, rfl⟩

theorem Grows.value (h : s.Grows p null) (hd : s.values.get? c = some d) :
    p.values.get? c = some d := by
  by_cases hc : c = null
  · subst hc
    exact h.kept hd
  · rw [h.others c hc, hd]

structure Equips (s p : Store) (b null : ValueId) : Prop extends s.Grows p null where
  made : ∀ {d}, s.values.get? null = none → p.values.get? null = some d → ∃ c, s.PointsAt c b
  content : ∀ c, s.PointsAt c b → ∃ ty, Query.typeOf c s = .ok ty ∧ Query.shape ty s = .ok .ptr ∧
    p.HasContent null (.scalar ty .null)

/-- Some block addresses have gone and a null constant is in their place. -/
structure Nullifies (p q : Store) (gone : ValueId → Prop) (null : ValueId)
    (into : ValueId → ValueId) : Prop where
  traits : p.traits.Continues q.traits
  absorbs : p.wiring.Absorbs q.wiring gone into
  address : ∀ c, gone c → p.isBlockAddress c = true
  nulled : ∀ c, gone c → into c = null
  dead : ∀ c, gone c → q.wiring.kind c = none

theorem nullifies_refl (p : Store) (null : ValueId) : p.Nullifies p (fun _ => False) null id :=
  ⟨.refl _, .refl _, fun _ h => h.elim, fun _ h => h.elim, fun _ h => h.elim⟩

theorem not_isBlockAddress_of_null (h : s.HasContent null (.scalar ty .null)) :
    s.isBlockAddress null ≠ true := by
  intro ha
  obtain ⟨d, hd, ha⟩ := isBlockAddress_iff.1 ha
  cases h with
  | scalar hd' hp hdata =>
    obtain rfl := Option.some.inj (hd.symm.trans hd')
    cases ha.symm.trans hp

theorem kind_of_null (h : s.HasContent null (.scalar ty .null)) :
    s.wiring.kind null = some .constant := by
  cases h with
  | scalar hd hp _ =>
    rw [kind_wiring hd, Value.kind, hp]
    rfl

namespace Nullifies

variable {gone : ValueId → Prop} (h : p.Nullifies q gone null into)

include h

theorem constant? {dq : Value} (hd : p.values.get? c = some d) (hdq : q.values.get? c = some dq) :
    dq.constant? = d.constant? := by
  have htraits : d.traits = dq.traits :=
    h.traits.get?_eq (by rw [get?_traits, hd]; rfl) (by rw [get?_traits, hdq]; rfl)
  exact (congrArg Prod.snd htraits).symm

theorem content (hp : p.Settled) (hnull : p.HasContent null (.scalar ty .null)) :
    q.HasContent null (.scalar ty .null) ∧ into null = null := by
  have hgone : ¬ gone null := fun hg => not_isBlockAddress_of_null hnull (h.address null hg)
  obtain ⟨hstays, hkind⟩ :=
    fixed_of_absorbs h.absorbs hp (kind_of_null hnull) (by decide) hgone
  obtain ⟨dq, hdq, -⟩ := Option.map_eq_some_iff.1 hkind
  refine ⟨?_, hstays⟩
  cases hnull with
  | scalar hd hpayload hdata =>
    have hconstant := h.constant? hd hdq
    rw [Value.constant?_eq_some.2 ⟨rfl, hpayload⟩] at hconstant
    obtain ⟨hty, hq⟩ := Value.constant?_eq_some.1 hconstant
    rw [← hty]
    exact .scalar hdq hq hdata

theorem step (hq : q.Settled) (h' : q.Nullifies q' (· = c) null into')
    (hnull : q.HasContent null (.scalar ty .null)) (hc : p.isBlockAddress c = true) {k : ValueKind}
    (hk : q.wiring.kind c = some k) :
    p.Nullifies q' (fun v => gone v ∨ v = c) null (into' ∘ into) := by
  have hstays := (h'.content hq hnull).2
  have hnot : ¬ gone c := fun hg => by
    cases hk.symm.trans (h.dead c hg)
  have hself : into c = c := (h.absorbs.survives hk).2 hnot
  refine ⟨h.traits.trans h'.traits, h.absorbs.trans h'.absorbs, ?_, ?_, ?_⟩
  · rintro v (hv | rfl)
    · exact h.address v hv
    · exact hc
  · rintro v (hv | rfl)
    · rw [Function.comp_apply, h.nulled v hv, hstays]
    · rw [Function.comp_apply, hself, h'.nulled v rfl]
  · rintro v (hv | rfl)
    · exact h'.absorbs.dead (h.dead v hv)
    · exact h'.dead v rfl

end Nullifies

theorem pointsAt_iff (hs : s.Settled) (h : Query.users b s = .ok us) :
    s.PointsAt c b ↔ c ∈ dropRepeats (us.filter s.isBlockAddress) := by
  have hg : s.uses.Sound s.core.IsLive := hs.graph
  obtain ⟨-, rfl⟩ := Query.users_ok.1 h
  rw [mem_dropRepeats, List.mem_filter]
  constructor
  · rintro ⟨hc, slot, hslot⟩
    refine ⟨List.mem_map.2 ⟨⟨c, slot⟩, ?_, rfl⟩, hc⟩
    exact hg.mem_uses_iff.2 (Query.operand_ok.1 hslot).2
  · rintro ⟨hu, hc⟩
    obtain ⟨x, hx, rfl⟩ := List.mem_map.1 hu
    obtain ⟨d, hd, -⟩ := isBlockAddress_iff.1 hc
    exact ⟨hc, x.slot, Query.operand_ok.2 ⟨⟨d, hd⟩, hg.mem_uses_iff.1 hx⟩⟩

theorem Settled.type_of_isBlockAddress (hs : s.Settled) (hc : s.isBlockAddress c = true) :
    ∃ d, s.values.get? c = some d ∧ d.IsAddress ∧ s.types.get? d.ty = some .ptr := by
  obtain ⟨d, hd, ha⟩ := isBlockAddress_iff.1 hc
  have hwell : d.bare.WellTyped s.types := hs.typed.values (by rw [get?_core, hd]; rfl)
  exact ⟨d, hd, ha, hwell.address (Value.bare_payload_constant.2 ha)⟩

theorem findsScope_of_kind (h : s.layout.kind c = none) : s.layout.FindsScope c := by
  have hnone : s.resident? c = none := Option.map_eq_none_iff.1 h
  have hplace : s.layout.place c = none := by
    change (s.resident? c).bind _ = none
    rw [hnone, Option.bind_none]
  have hposition : s.layout.position c = none := by
    change (s.resident? c).bind _ = none
    rw [hnone, Option.bind_none]
  refine ⟨fun hb => ?_, fun hsc => ?_⟩
  · cases hplace.symm.trans hb
  · cases (Layout.scope_of_unplaced hplace hposition).symm.trans hsc

/-- A block address holds a value in one slot at most, so it is one of the users of the value
once. -/
theorem nodup_addresses (hs : s.Settled) (hk : s.Keyed) (h : Query.users b s = .ok us) :
    (us.filter s.isBlockAddress).Nodup := by
  have hg : s.uses.Sound s.core.IsLive := hs.graph
  obtain ⟨-, rfl⟩ := Query.users_ok.1 h
  rw [List.filter_map]
  refine List.Nodup.map_on (fun x hx y hy hxy => ?_) ((hg.uses_nodup b).filter _)
  obtain ⟨hx, ha⟩ := List.mem_filter.1 hx
  obtain ⟨d, hd, ha⟩ := Edit.isBlockAddress_iff.1 ha
  obtain ⟨f, b', hfb⟩ := hk.filled x.user d hd ha
  have hslots : (s.uses.targets x.user).Nodup := by
    rw [hfb.targets]
    simpa using hfb.ne
  have hx := hg.mem_uses_iff.1 hx
  have hy := hg.mem_uses_iff.1 (List.mem_filter.1 hy).1
  obtain ⟨u, i⟩ := x
  obtain ⟨_, j⟩ := y
  obtain rfl : u = _ := hxy
  obtain ⟨hlt, -⟩ := List.getElem?_eq_some_iff.1 hx
  exact congrArg (Use.mk u) ((List.getElem?_inj hlt hslots).1 (hx.trans hy.symm))

end Store

open Store

namespace Edit

variable {B : ValueId → Prop} {s p q : Store} {b c null : ValueId} {ty : TypeId} {d : Value}

theorem constNull_grows (hs : Coherent B s) (ty : TypeId) : ∃ null p, constNull ty s = .ok null p ∧
    Coherent B p ∧ s.Grows p null ∧ p.HasContent null (.scalar ty .null) := by
  have hgrows : Ends (constNull ty) s (fun null p => s.Grows p null ∧
      p.HasContent null (.scalar ty .null)) fun _ _ => False := by
    unfold constNull internScalar
    rw [ends_bind, ends_get]
    split
    next null hnull => exact ⟨.refl s null, (hs.keyed.constantsAgree.table _ null).1 hnull⟩
    next =>
      let d : Value := { ty := ty, payload := .constant .null }
      have hget (v : ValueId) : (s.pushValue d).2.values.get? v =
          if v = s.values.next then some d else s.values.get? v := Arena.get?_push ..
      rw [ends_bind, pushValue, ends_modifyGet, ends_bind, ends_modify]
      refine ⟨⟨fun v hv => (hget v).trans (if_neg hv), fun hd => ?_, rfl, rfl⟩,
        .scalar (d := d) ?_ rfl (by decide)⟩
      · cases (Arena.get?_next s.values).symm.trans hd
      · exact (hget _).trans (if_pos rfl)
  exact (((keeps_constNull_coherent s hs).and hgrows).mono (fun _ _ h => h)
    fun _ _ h => h.2).exists_ok

theorem nullifyBlockAddress_of_ok (hc : Query.typeOf c s = .ok ty)
    (h : constNull ty s = .ok null p) :
    nullifyBlockAddress c s = (do replaceAllUses c null; destroyValue c) p := by
  have hquery : (liftM (Query.typeOf c) : Edit TypeId) s = .ok ty s := by
    change Query.asEdit (Query.typeOf c) s = _
    rw [Query.asEdit, hc]
  change EStateM.bind (liftM (Query.typeOf c)) _ s = _
  simp only [EStateM.bind, hquery]
  change EStateM.bind (constNull ty) _ s = _
  simp only [EStateM.bind, h]

theorem ends_nullifyBlockAddress_iff {Q : Unit → Store → Prop} {E : Fault → Store → Prop}
    (hc : Query.typeOf c s = .ok ty) (h : constNull ty s = .ok null p) :
    Ends (nullifyBlockAddress c) s Q E ↔
      Ends (do replaceAllUses c null; destroyValue c) p Q E := by
  rw [Ends, Ends, nullifyBlockAddress_of_ok hc h]

theorem ends_nullifyBlockAddress_answers (hs : Coherent B s)
    (hnull : s.HasContent null (.scalar ty .null)) (hc : s.isBlockAddress c = true)
    (hty : Query.typeOf c s = .ok ty) :
    Ends (nullifyBlockAddress c) s (fun _ _ => True) fun _ _ => False := by
  obtain ⟨d, hd, ha⟩ := isBlockAddress_iff.1 hc
  have hne : c ≠ null := by
    rintro rfl
    exact not_isBlockAddress_of_null hnull hc
  have hmerge : ¬ s.MergesItself c null := by
    rintro ⟨-, -, v, d', hv, hd', hk⟩
    have hconstant : s.wiring.kind v = some .constant := by
      obtain rfl | rfl := hv
      · rw [kind_wiring hd, ha.kind]
      · exact kind_of_null hnull
    rw [kind_wiring hd', hk] at hconstant
    cases hconstant
  have hsame : Query.expectSameType c null s = .ok () := by
    obtain ⟨d', hd', hdty⟩ := Query.typeOf_ok.1 hty
    cases hnull with
    | scalar hn _ _ => exact Query.expectSameType_ok.2 ⟨d', _, hd', hn, hdty.symm⟩
  refine (ends_nullifyBlockAddress_iff hty (hs.keyed.constantsAgree.constNull hnull)).2 ?_
  refine Ends.bind ((ends_replaceAllUses ⟨hs.settled, rfl⟩ hs.keyed hne).mono (fun _ _ h => h)
    fun _ _ h => h.2 hsame) fun _ p hp => ?_
  obtain ⟨hlive, hunused, -⟩ := hp.supersedes hs.settled hmerge
  obtain ⟨dp, hdp⟩ := Option.isSome_iff_exists.1 hlive
  have hscope : p.layout.FindsScope c :=
    findsScope_of_kind (by rw [hp.settled.2, kind_of_isBlockAddress hc])
  refine (ends_destroyValue_answers hp.settled.1 hp.keyed hdp ?_ (fun n hn => ?_) hscope).mono
    (fun _ _ _ => trivial) fun _ _ h => h
  · simpa [Query.uses, hdp] using hunused
  · cases hp.unwrapped.symm.trans hn

theorem ends_nullifyBlockAddress_nullifies (hs : Coherent B s)
    (hnull : s.HasContent null (.scalar ty .null)) (hc : s.isBlockAddress c = true)
    (hty : Query.typeOf c s = .ok ty) : Ends (nullifyBlockAddress c) s
      (fun _ s' => Coherent B s' ∧ ∃ into, s.Nullifies s' (· = c) null into) fun _ _ => False := by
  obtain ⟨d, hd, ha, -⟩ := hs.settled.type_of_isBlockAddress hc
  have hnullKind := kind_of_null hnull
  have hne : c ≠ null := by
    rintro rfl
    exact not_isBlockAddress_of_null hnull hc
  have htraits : Keeps (fun s' => s.traits.Continues s'.traits) (nullifyBlockAddress c) :=
    keeps_nullifyBlockAddress_naming (J := fun x => s.traits.Continues x.2)
      (fun _ v h => h.erase v) fun _ _ _ h => h.push _
  have hsupplant : Ends (nullifyBlockAddress c) s (fun _ s' => ∃ f,
      s.wiring.Absorbs s'.wiring (· = c) f ∧ f c = f null ∧ s'.wiring.kind c = none)
      fun _ _ => True := by
    have hconst : constNull ty s = .ok null s := hs.keyed.constantsAgree.constNull hnull
    have hsize : s.metadata.wrapperOf.size ≤ s.values.size + 1 := by
      have hin : s.SettledIn s.layout s.values.size :=
        Store.SettledWith.bounded ⟨hs.settled, rfl⟩ (Nat.le_refl _)
      exact Nat.le_succ_of_le hin.wrappers
    refine (ends_nullifyBlockAddress_iff hty hconst).2 ?_
    unfold replaceAllUses
    rw [bind_assoc, ends_bind, ends_get]
    exact ends_supplant (k := s.values.size + 1) hs.settled hsize hd ha hnullKind hne
  refine ((ends_nullifyBlockAddress_answers hs hnull hc hty).and
    ((keeps_nullifyBlockAddress_coherent s hs).and ((htraits s (.refl _)).and hsupplant))).mono
    ?_ fun _ _ h => h.1
  rintro _ s' ⟨-, hs', ht, f, hf, hsame, hdead⟩
  have hstays := (fixed_of_absorbs hf hs.settled hnullKind (by decide) (Ne.symm hne)).1
  refine ⟨hs', f, ht, hf, ?_, ?_, ?_⟩
  · rintro _ rfl
    exact hc
  · rintro _ rfl
    exact hsame.trans hstays
  · rintro _ rfl
    exact hdead

theorem ends_nullifyAll (hp : Coherent B p) (hnull : p.HasContent null (.scalar ty .null))
    (cs : List ValueId) (hnodup : cs.Nodup)
    (hcs : ∀ c ∈ cs, p.isBlockAddress c = true ∧ Query.typeOf c p = .ok ty) :
    Ends (cs.forM nullifyBlockAddress) p
      (fun _ q => Coherent B q ∧ ∃ into, p.Nullifies q (· ∈ cs) null into) fun _ _ => False := by
  have hstart : p.Nullifies p (· ∈ []) null id := by simpa using nullifies_refl p null
  refine ends_forM_visited cs (fun done q => Coherent B q ∧
    ∃ into, p.Nullifies q (· ∈ done) null into) ?_ p ⟨hp, id, hstart⟩
  rintro done c rest q rfl ⟨hq, into, h⟩
  obtain ⟨hc, hty⟩ := hcs c (by simp)
  obtain ⟨d, hd, ha⟩ := isBlockAddress_iff.1 hc
  -- A block address that has not been nullified yet is live still.
  have hnot : c ∉ done := fun hmem =>
    (List.nodup_append.1 hnodup).2.2 c hmem c (List.mem_cons_self ..) rfl
  obtain ⟨-, hkind⟩ := fixed_of_absorbs h.absorbs hp.settled
    (ha.kind ▸ kind_wiring hd) (by decide) hnot
  obtain ⟨dq, hdq, -⟩ := Option.map_eq_some_iff.1 hkind
  have hconstant := h.constant? hd hdq
  obtain ⟨hnullq, hstays⟩ := h.content hp.settled hnull
  obtain ⟨d', hd', rfl⟩ := Query.typeOf_ok.1 hty
  obtain rfl := Option.some.inj (hd.symm.trans hd')
  obtain ⟨htyq, haq⟩ := Value.constant?_eq_address.1
    (hconstant.trans (Value.constant?_eq_address.2 ⟨rfl, ha⟩))
  refine (ends_nullifyBlockAddress_nullifies hq hnullq (isBlockAddress_iff.2 ⟨dq, hdq, haq⟩)
    (Query.typeOf_ok.2 ⟨dq, hdq, htyq⟩)).mono ?_ fun _ _ h => h
  rintro _ q' ⟨hq', into', h'⟩
  refine ⟨hq', into' ∘ into, ?_⟩
  simpa only [List.mem_append, List.mem_singleton] using
    h.step hq.settled h' hnullq hc (kind_wiring hdq)

theorem ends_nullifyBlockAddresses (hs : Coherent B s) (hb : s.values.get? b = some d) :
    Ends (nullifyBlockAddresses b) s (fun _ q => Coherent B q ∧ ∃ p null into, p.Settled ∧
      s.Equips p b null ∧ p.Nullifies q (s.PointsAt · b) null into) fun _ _ => False := by
  unfold nullifyBlockAddresses
  have husers := Query.users_ok.2 ⟨⟨d, hb⟩, rfl⟩
  rw [ends_bind, ends_lift_ok husers, ends_bind, ends_get]
  have hmem (c : ValueId) := pointsAt_iff (c := c) hs.settled husers
  have hnodup := (nodup_addresses hs.settled hs.keyed husers).sublist (dropRepeats_sublist _)
  generalize dropRepeats (List.filter s.isBlockAddress _) = cs at hmem hnodup
  have hgone : (s.PointsAt · b) = (· ∈ cs) := funext fun c => propext (hmem c)
  rw [hgone]
  cases cs with
  | nil =>
    have hnone (c : ValueId) : ¬ s.PointsAt c b := fun h => List.not_mem_nil ((hmem c).1 h)
    have hequips : s.Equips s b b := ⟨.refl s b, fun hd hd' => (by cases hd.symm.trans hd'),
      fun c hc => (hnone c hc).elim⟩
    exact ⟨hs, s, b, id, hs.settled, hequips, by simpa using nullifies_refl s b⟩
  | cons c rest =>
    have hc : s.PointsAt c b := (hmem c).2 (List.mem_cons_self ..)
    obtain ⟨d, hd, -, hptr⟩ := hs.settled.type_of_isBlockAddress hc.1
    obtain ⟨null, p, hconst, hp, hgrows, hnull⟩ := constNull_grows hs d.ty
    have htype {c' : ValueId} (hc' : s.PointsAt c' b) : Query.typeOf c' s = .ok d.ty ∧
        p.isBlockAddress c' = true ∧ Query.typeOf c' p = .ok d.ty := by
      obtain ⟨d', hd', ha', hptr'⟩ := hs.settled.type_of_isBlockAddress hc'.1
      have hty : d'.ty = d.ty := TypeTable.get?_inj hs.settled.typed.distinct hptr' hptr
      have hd'p := hgrows.value hd'
      exact ⟨Query.typeOf_ok.2 ⟨d', hd', hty⟩, isBlockAddress_iff.2 ⟨d', hd'p, ha'⟩,
        Query.typeOf_ok.2 ⟨d', hd'p, hty⟩⟩
    have hequips : s.Equips p b null := ⟨hgrows, fun _ _ => ⟨c, hc⟩, fun c' hc' =>
      ⟨d.ty, (htype hc').1, Query.shape_ok.2 hptr, hnull⟩⟩
    -- The first of them finds or makes the null constant, and it is there from the start then.
    have hall := ends_nullifyAll hp hnull (c :: rest) hnodup fun c' hc' =>
      (htype ((hmem c').2 hc')).2
    have hagain : constNull d.ty p = .ok null p := hp.keyed.constantsAgree.constNull hnull
    change Ends (nullifyBlockAddress c >>= fun _ => rest.forM nullifyBlockAddress) p _ _ at hall
    rw [ends_bind, ends_nullifyBlockAddress_iff (htype hc).2.2 hagain] at hall
    change Ends (nullifyBlockAddress c >>= fun _ => rest.forM nullifyBlockAddress) s _ _
    rw [ends_bind, ends_nullifyBlockAddress_iff (htype hc).1 hconst]
    refine hall.mono (fun _ q hq => hq.mono ?_ fun _ _ h => h) fun _ _ h => h
    rintro _ q' ⟨hq', into, hinto⟩
    exact ⟨hq', p, null, into, hp.settled, hequips, hinto⟩

end Edit

end ShaderIR
