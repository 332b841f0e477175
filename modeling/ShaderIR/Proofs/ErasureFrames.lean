import ShaderIR.Proofs.UnmergedValues
import ShaderIR.Proofs.UseOrder

/-! What the steps of erasing leave of the references in a store. Values that stand in the layout
may go and let go of their operands, and block addresses may be nullified. Nothing that stays in the
layout is used by more than before, and nothing more refers to its node. -/

namespace ShaderIR

open Edit Wiring

namespace Layout

variable {L L' : Layout} {v : ValueId} {p : Place}

structure Withdraws (L L' : Layout) (v : ValueId) : Prop where
  kind : L'.kind = L.kind
  place : L'.place = Function.update L.place v none
  children : ∀ p, v ∉ L.children p → L'.children p = L.children p
  position : L'.position = L.position
  arguments : L'.arguments = L.arguments

theorem Withdraws.of_unplaced (h : L.place v = none) : L.Withdraws L v :=
  ⟨rfl, by rw [← h, Function.update_eq_self], fun _ _ => rfl, rfl, rfl⟩

theorem Withdraws.of_detach (hp : L.Placed) (h : (L.detach v p).Renamed L')
    (hv : L.place v = some p) : L.Withdraws L' v where
  kind := h.kind
  place := h.place
  children q hq := by
    rw [h.children]
    refine Function.update_of_ne ?_ ..
    rintro rfl
    exact hq ((hp.child v q).1 hv)
  position := h.position
  arguments := h.arguments

theorem Uproots.withdraws (hp : L.Placed) (h : L.Uproots L' v) : L.Withdraws L' v where
  kind := h.kind
  place := h.place
  children p hv := by
    rw [h.children, if_neg fun hplace => hv ((hp.child v p).1 hplace)]
  position := h.position
  arguments := h.arguments

end Layout

namespace Store

variable {s s' s'' : Store} {c u v b : ValueId} {k : ValueKind} {D : ValueId → Prop}

def Uses (s : Store) (u v : ValueId) : Prop := some v ∈ s.uses.targets u

instance : Decidable (s.Uses u v) := inferInstanceAs (Decidable (some v ∈ s.uses.targets u))

def usersOf (s : Store) (v : ValueId) : List ValueId :=
  ((s.uses.useList v).map s.uses.use).map Use.user

section Uses

variable (hs : s.Settled)

include hs

theorem Uses.live (h : s.Uses u v) :
    (∃ d, s.values.get? u = some d) ∧ ∃ d, s.values.get? v = some d := by
  have hg : s.uses.Sound s.core.IsLive := hs.graph
  obtain ⟨i, hi⟩ := List.mem_iff_getElem?.1 h
  exact (hg.live_of_targets hi).imp isLive_core.1 isLive_core.1

theorem uses_iff : s.Uses u v ↔ u ∈ s.usersOf v := by
  have hg : s.uses.Sound s.core.IsLive := hs.graph
  rw [Uses, usersOf, List.mem_iff_getElem?, List.mem_map]
  constructor
  · rintro ⟨i, hi⟩
    exact ⟨⟨u, i⟩, hg.mem_uses_iff.2 hi, rfl⟩
  · rintro ⟨x, hx, rfl⟩
    exact ⟨x.slot, hg.mem_uses_iff.1 hx⟩

theorem useList_eq_nil (h : ∀ u, ¬ s.Uses u v) : s.uses.useList v = [] := by
  rw [List.eq_nil_iff_forall_not_mem]
  intro e he
  exact h _ ((uses_iff hs).2 (List.mem_map_of_mem (List.mem_map_of_mem he)))

theorem Uses.of_isBlockAddress (h : s.Uses c v) (hc : s.isBlockAddress c = true) :
    ∃ d, s.values.get? v = some d ∧ d.kind ≠ .metadata ∧ ¬ d.IsAddress := by
  have hg : s.uses.Sound s.core.IsLive := hs.graph
  obtain ⟨dc, hdc, ha⟩ := isBlockAddress_iff.1 hc
  obtain ⟨i, hi⟩ := List.mem_iff_getElem?.1 h
  obtain ⟨e, he, ht⟩ := hg.mem_uses.1 (hg.mem_uses_iff (x := ⟨c, i⟩).2 hi)
  have huser : (s.uses.edge e).user = c := (hg.mem_slots (List.mem_of_getElem? he)).2.1
  obtain ⟨dv, hdv, haddressable⟩ := hs.typed.address ht
    (by rw [show (s.core.uses.edge e).user = c from huser, get?_core, hdc]; rfl)
    (Value.bare_payload_constant.2 ha)
  rw [get?_core] at hdv
  obtain ⟨d, hd, rfl⟩ := Option.map_eq_some_iff.1 hdv
  have hwell : d.bare.WellTyped s.types := hs.typed.values (by rw [get?_core, hd]; rfl)
  refine ⟨d, hd, fun hk => ?_, fun ha => ?_⟩
  · exact hwell.not_isAddressable (.inl (by rwa [Value.kind_bare])) haddressable
  · exact hwell.not_isAddressable (.inr (Value.bare_payload_constant.2 ha)) haddressable

omit hs in
theorem pointsAt_iff_uses : s.PointsAt c b ↔ s.isBlockAddress c = true ∧ s.Uses c b := by
  refine and_congr_right fun hc => ?_
  obtain ⟨d, hd, -⟩ := isBlockAddress_iff.1 hc
  rw [Uses, List.mem_iff_getElem?]
  exact exists_congr fun i => Query.operand_ok.trans (and_iff_right ⟨d, hd⟩)

end Uses

def handles (s : Store) : Arena .handle (Option NodeId) := s.metadata.handles

instance : Untabled Store.handles := ⟨fun _ _ _ => rfl⟩

def ground (s : Store) := (s.config, s.modules, s.values, s.uses, s.metadata.handles)

instance : Untabled Store.ground := ⟨fun _ _ _ => rfl⟩

def Unaddressed (D : ValueId → Prop) (s : Store) : Prop :=
  ∀ c v, D v → s.isBlockAddress c = true → ¬ s.Uses c v

structure Leaves (D : ValueId → Prop) (s s' : Store) : Prop where
  values : ∀ v, ¬ D v → s'.values.get? v = s.values.get? v
  targets : ∀ v, ¬ D v → s'.uses.targets v = s.uses.targets v
  modules : ∀ m d, s.modules.get? m = some d → (∀ v ∈ d.functions ++ d.globals, ¬ D v) →
    s'.modules.get? m = some d

theorem Leaves.refl (D : ValueId → Prop) (s : Store) : Leaves D s s :=
  ⟨fun _ _ => rfl, fun _ _ => rfl, fun _ _ h _ => h⟩

theorem Leaves.trans (h : Leaves D s s') (h' : Leaves D s' s'') : Leaves D s s'' where
  values v hv := (h'.values v hv).trans (h.values v hv)
  targets v hv := (h'.targets v hv).trans (h.targets v hv)
  modules m d hd hm := h'.modules m d (h.modules m d hd hm) hm

structure Displaces (D : ValueId → Prop) (s s' : Store) : Prop extends s.Upholds s', Leaves D s s'

theorem Displaces.refl (D : ValueId → Prop) (s : Store) : Displaces D s s := ⟨.refl s, .refl D s⟩

theorem Displaces.congr (h : Displaces D s s') (hs : s''.ground = s'.ground) :
    Displaces D s s'' := by
  obtain ⟨hc, hm, hv, hu, hh⟩ : s''.config = s'.config ∧ s''.modules = s'.modules ∧
      s''.values = s'.values ∧ s''.uses = s'.uses ∧ s''.metadata.handles = s'.metadata.handles := by
    simpa [ground] using hs
  exact ⟨h.toUpholds.of_eq hc hm hh, hv ▸ h.values, hu ▸ h.targets, hm ▸ h.modules⟩

/-- Values may have gone that stood in the layout, and with them block addresses. What stays in the
layout has no more users than before, and no more references to its node. If no block address was in
the way, nothing else has changed. -/
structure Thins (D : ValueId → Prop) (s s' : Store) : Prop where
  traits : s.traits.Continues s'.traits
  kind : ∀ {v k}, s'.layout.kind v = some k → s.layout.kind v = some k
  address : ∀ {c}, s'.isBlockAddress c = true →
    s.isBlockAddress c = true ∧ s'.uses.targets c = s.uses.targets c
  uses : ∀ {u v k}, s'.layout.kind v = some k → s'.Uses u v → s.Uses u v
  nodeOf : ∀ {v k}, s'.layout.kind v = some k → s'.metadata.nodeOf[v]? = s.metadata.nodeOf[v]?
  tracked : ∀ {v k n l}, s'.layout.kind v = some k → s.metadata.nodeOf[v]? = some n →
    s'.metadata.tracker.isTracked l n = true → s.metadata.tracker.isTracked l n = true
  upholds : s.Upholds s'
  leaves : Unaddressed D s → Leaves D s s'

namespace Thins

theorem refl (D : ValueId → Prop) (s : Store) : Thins D s s :=
  ⟨.refl _, id, fun h => ⟨h, rfl⟩, fun _ h => h, fun _ => rfl, fun _ _ h => h, .refl s,
    fun _ => .refl D s⟩

theorem unaddressed (h : Thins D s s') (hs : Unaddressed D s) : Unaddressed D s' :=
  fun c v hv hc hu => hs c v hv (h.address hc).1 (by rwa [Uses, ← (h.address hc).2])

theorem trans (h : Thins D s s') (h' : Thins D s' s'') : Thins D s s'' where
  traits := h.traits.trans h'.traits
  kind hv := h.kind (h'.kind hv)
  address hc := ⟨(h.address (h'.address hc).1).1,
    (h'.address hc).2.trans (h.address (h'.address hc).1).2⟩
  uses hv hu := h.uses (h'.kind hv) (h'.uses hv hu)
  nodeOf hv := (h'.nodeOf hv).trans (h.nodeOf (h'.kind hv))
  tracked hv hn hl := h.tracked (h'.kind hv) hn
    (h'.tracked hv ((h.nodeOf (h'.kind hv)).trans hn) hl)
  upholds := h.upholds.trans h'.upholds
  leaves hs := (h.leaves hs).trans (h'.leaves (h.unaddressed hs))

theorem dead (h : Thins D s s') (hlt : v.index < s.values.size) (hv : s.values.get? v = none) :
    s'.values.get? v = none := by
  rw [Option.eq_none_iff_forall_ne_some]
  intro d' hd'
  have hsize : s.traits.size = s.values.size := Arena.size_map ..
  have hold := h.traits.old (i := v) (hsize ▸ hlt) (by rw [get?_traits, hd']; rfl)
  rw [get?_traits, hv] at hold
  cases hold

theorem isBlockAddress (h : Thins D s s') {d : Value} (hc : s.isBlockAddress c = true)
    (hd : s'.values.get? c = some d) : s'.isBlockAddress c = true := by
  obtain ⟨d₀, hd₀, ha⟩ := isBlockAddress_iff.1 hc
  have htraits : d₀.traits = d.traits :=
    h.traits.get?_eq (by rw [get?_traits, hd₀]; rfl) (by rw [get?_traits, hd]; rfl)
  have hconstant : d₀.constant? = d.constant? := congrArg Prod.snd htraits
  exact isBlockAddress_iff.2 ⟨d, hd, isAddress_of_constant? hconstant ha⟩

end Thins

theorem layout_kind_iff : s.layout.kind v = some k ↔
    k.isResident = true ∧ s.wiring.kind v = some k := by
  rw [layout_kind]
  exact and_congr_right fun _ => Option.map_eq_some_iff.symm

theorem Thins.of_core (hcore : s'.core = s.core) (htraits : s'.traits = s.traits)
    (hu : s.Upholds s') (hl : Leaves D s s') : Thins D s s' := by
  have hwiring := wiring_of_core hcore
  have huses : s'.uses = s.uses := congrArg Core.uses hcore
  have hmetadata : s'.metadata = s.metadata := congrArg Core.metadata hcore
  have hkind {v : ValueId} {k : ValueKind} (hv : s'.layout.kind v = some k) :
      s.layout.kind v = some k := by
    rw [layout_kind_iff] at hv ⊢
    rwa [← hwiring]
  have haddress {c : ValueId} (hc : s'.isBlockAddress c = true) : s.isBlockAddress c = true := by
    obtain ⟨d', hd', ha⟩ := isBlockAddress_iff.1 hc
    have hget : s.traits.get? c = some d'.traits := by
      rw [← htraits, get?_traits, hd', Option.map_some]
    rw [get?_traits] at hget
    obtain ⟨d, hd, heq⟩ := Option.map_eq_some_iff.1 hget
    have hconstant : d.constant? = d'.constant? := congrArg Prod.snd heq
    exact isBlockAddress_iff.2 ⟨d, hd, isAddress_of_constant? hconstant.symm ha⟩
  exact ⟨htraits ▸ .refl _, hkind, fun hc => ⟨haddress hc, by rw [huses]⟩,
    fun _ h => by rwa [Uses, ← huses], fun _ => by rw [hmetadata],
    fun _ _ h => by rwa [← hmetadata], hu, fun _ => hl⟩

section Nullifying

variable {p q : Store} {null : ValueId} {gone : ValueId → Prop} {into : ValueId → ValueId}

theorem Equips.isBlockAddress (h : s.Equips p b null) (hc : p.isBlockAddress c = true) :
    s.isBlockAddress c = true := by
  obtain ⟨d, hd, ha⟩ := Edit.isBlockAddress_iff.1 hc
  cases hs : s.values.get? c with
  | some d' =>
    obtain rfl := Option.some.inj ((h.value hs).symm.trans hd)
    exact Edit.isBlockAddress_iff.2 ⟨d', hs, ha⟩
  | none =>
    obtain rfl : c = null := by
      by_contra hne
      cases (h.others c hne ▸ hd).symm.trans hs
    obtain ⟨c', hc'⟩ := h.made hs hd
    obtain ⟨ty, -, -, hcontent⟩ := h.content c' hc'
    exact absurd hc (not_isBlockAddress_of_null hcontent)

variable (h : p.Nullifies q gone null into) (hp : p.Settled)

include h hp

theorem Nullifies.uses (hq : q.Settled)
    (hnull : ∀ c, gone c → ∃ ty, p.HasContent null (.scalar ty .null))
    (hv : q.layout.kind v = some k) (hu : q.Uses u v) : p.Uses u v := by
  obtain ⟨⟨du, hdu⟩, -⟩ := hu.live hq
  obtain ⟨hresident, hkind⟩ := layout_kind_iff.1 hv
  have htargets : q.uses.targets u = (p.uses.targets u).map (Option.map into) :=
    h.absorbs.targets (kind_wiring hdu)
  rw [Uses, htargets] at hu
  obtain ⟨o, ho, hmap⟩ := List.mem_map.1 hu
  obtain ⟨t, rfl, rfl⟩ := Option.map_eq_some_iff.1 hmap
  have ht : p.Uses u t := ho
  obtain ⟨-, dt, hdt⟩ := ht.live hp
  have hsame : dt.kind = k := Option.some.inj ((h.absorbs.lands (kind_wiring hdt)).symm.trans hkind)
  have hgone : ¬ gone t := fun hg => by
    obtain ⟨ty, hcontent⟩ := hnull t hg
    have hconstant := kind_of_null (h.content hp hcontent).1
    rw [h.nulled t hg] at hkind
    obtain rfl := Option.some.inj (hconstant.symm.trans hkind)
    cases hresident
  have hmetadata : dt.kind ≠ .metadata := by
    rw [hsame]
    rintro rfl
    cases hresident
  rwa [(fixed_of_absorbs h.absorbs hp (kind_wiring hdt) hmetadata hgone).1]

omit hp in
theorem Nullifies.isBlockAddress (hc : q.isBlockAddress c = true) : p.isBlockAddress c = true := by
  obtain ⟨dq, hdq, ha⟩ := Edit.isBlockAddress_iff.1 hc
  obtain ⟨d, hd, -⟩ := Option.map_eq_some_iff.1 (h.absorbs.survives (kind_wiring hdq)).1
  exact Edit.isBlockAddress_iff.2 ⟨d, hd, isAddress_of_constant? (h.constant? hd hdq) ha⟩

theorem Nullifies.targets_address {k : ValueKind} (hc : q.wiring.kind c = some k)
    (ha : p.isBlockAddress c = true) : q.uses.targets c = p.uses.targets c := by
  have htargets : q.uses.targets c = (p.uses.targets c).map (Option.map into) :=
    h.absorbs.targets hc
  rw [htargets]
  refine (List.map_congr_left fun o ho => ?_).trans (List.map_id _)
  cases o with
  | none => rfl
  | some t =>
    have ht : p.Uses c t := ho
    obtain ⟨d, hd, hmetadata, hnot⟩ := ht.of_isBlockAddress hp ha
    have hgone : ¬ gone t := fun hg => by
      obtain ⟨d', hd', ha'⟩ := Edit.isBlockAddress_iff.1 (h.address t hg)
      obtain rfl := Option.some.inj (hd.symm.trans hd')
      exact hnot ha'
    exact congrArg some (fixed_of_absorbs h.absorbs hp (kind_wiring hd) hmetadata hgone).1

end Nullifying

end Store

namespace Edit

open Store

variable {B D : ValueId → Prop} {s s' : Store} {u v w b c f g : ValueId} {d : Value} {k : ValueKind}

theorem ends_bypasses {e : Edit Unit} {P : ValueId → Prop} (hs : Coherent B s)
    (h : ∀ w, P w → Keeps (s.Bypasses w) e) : Ends e s
      (fun _ s' => ∀ w k, P w → s.layout.kind w = some k → s.Bypasses w s') fun _ _ => True := by
  unfold Ends
  cases he : e s with
  | ok a s' => exact fun w k hw hk => (h w hw s (bypasses_self hs hk)).of_ok he
  | error x s' => trivial

section Emptying

theorem ends_putOperand_answers {i : Nat} (hd : s.values.get? u = some d)
    (hi : i < (s.uses.slotsOf u).length) : Ends (putOperand u i none) s
      (fun _ s' => s'.values = s.values ∧ s'.uses.slotsOf u = s.uses.slotsOf u) fun _ _ => False := by
  unfold putOperand
  rw [ends_bind, ends_lift_ok (Query.operandEdge_ok.2 ⟨⟨d, hd⟩, List.getElem?_eq_getElem hi⟩),
    ends_bind, ends_get]
  split
  · exact ⟨rfl, (UseGraph.sameSlots_unlink s.uses _).slotsOf u⟩
  · exact ⟨rfl, rfl⟩

theorem ends_emptyOperands_answers (hd : s.values.get? u = some d) :
    Ends (emptyOperands u) s (fun _ _ => True) fun _ _ => False := by
  unfold emptyOperands
  rw [ends_bind, ends_lift_ok (Query.operandCount_ok.2 ⟨⟨d, hd⟩, rfl⟩)]
  refine (ends_forM (fun rest s' => s'.values = s.values ∧
    s'.uses.slotsOf u = s.uses.slotsOf u ∧ ∀ i ∈ rest, i < (s.uses.slotsOf u).length) ?_ _ s
    ⟨rfl, rfl, fun i hi => List.mem_range.1 hi⟩).mono (fun _ _ _ => trivial) fun _ _ h => h
  rintro i rest p ⟨hvalues, hslots, hrest⟩
  have hi := hrest i (List.mem_cons_self ..)
  refine (ends_putOperand_answers (hvalues ▸ hd) (hslots ▸ hi)).mono ?_ fun _ _ h => h
  rintro _ q ⟨hvalues', hslots'⟩
  exact ⟨hvalues'.trans hvalues, hslots'.trans hslots, fun j hj => hrest j (List.mem_cons_of_mem _ hj)⟩

theorem thins_of_rewired (h : s.Rewired u s') (hnone : ∀ v, ¬ s'.Uses u v)
    (ha : s.isBlockAddress u ≠ true) (hD : D u) : Thins D s s' := by
  have hothers := h.others
  obtain ⟨g, rfl⟩ := h.uses
  refine ⟨.refl _, id, fun {c} hc => ⟨hc, hothers c ?_⟩, fun {w v _} _ hw => ?_, fun _ => rfl,
    fun _ _ hl => hl, .of_eq (.refl s) rfl rfl rfl, fun _ => ⟨fun _ _ => rfl, fun v hv => ?_,
      fun _ _ hm _ => hm⟩⟩
  · rintro rfl
    exact ha hc
  · have hne : w ≠ u := by
      rintro rfl
      exact hnone v hw
    rwa [Uses, hothers w hne] at hw
  · refine hothers v ?_
    rintro rfl
    exact hv hD

theorem ends_emptyOperands_thins (hs : Coherent B s) (hd : s.values.get? u = some d)
    (hk : d.kind ≠ .constant) (hD : D u) : Ends (emptyOperands u) s (fun _ s' => Coherent B s' ∧
      Thins D s s' ∧ s'.layout = s.layout ∧ ∀ v, ¬ s'.Uses u v) fun _ _ => False := by
  have hcoherent : Ends (emptyOperands u) s (fun _ => Coherent B) fun _ => Coherent B :=
    (keeps_emptyOperands_coherent (.inr rfl)).coherent_of (hs.add hd hk) fun _ => .inl
  have hall := ((ends_emptyOperands hs.settled).and (ends_emptyOperands_uses hs.settled)).and
    ((keeps_emptyOperands_layout s ⟨hs.settled, rfl⟩).and hcoherent)
  refine ((ends_emptyOperands_answers hd).and hall).mono ?_ fun _ _ h => h.1
  rintro _ s' ⟨-, ⟨hr, hmap⟩, ⟨hset, hlayout⟩, hs'⟩
  have hnone (v : ValueId) : ¬ s'.Uses u v := by
    rw [uses_iff hset, usersOf, List.mem_map]
    rintro ⟨x, hx, rfl⟩
    change x ∈ s'.uses.useMap v at hx
    rw [hmap] at hx
    simpa using (List.mem_filter.1 hx).2
  exact ⟨hs', thins_of_rewired hr hnone (fun ha => hk (by
    obtain ⟨d', hd', ha⟩ := isBlockAddress_iff.1 ha
    obtain rfl := Option.some.inj (hd.symm.trans hd')
    exact ha.kind)) hD, hlayout, hnone⟩

end Emptying

section Destroying

theorem fixes_destroyValue_handles : Fixes Store.handles (destroyValue v) := by
  have hforget {key : ConstantKey} : Fixes Store.handles (forgetConstant key v) :=
    .modify fun s => by split <;> rfl
  have huntrack {l : Location} {n : NodeId} : Fixes Store.handles (untrack l n) :=
    .bind .get fun _ => .modify fun _ => rfl
  have hattachments : Fixes Store.handles (clearAttachments v) :=
    .bind (.lift _) fun _ => .bind (.bind (.lift _) fun _ => .modify fun _ => rfl) fun _ =>
      .forM (fun _ => huntrack) _
  have hwrapper : Fixes Store.handles (dropWrapper v) := by
    refine .bind (.lift _) fun n => ?_
    split
    · exact .pure _
    · refine .bind huntrack fun _ => .modify fun s => ?_
      simp only [modifyMetadata]
      split <;> rfl
  have hnode : Fixes Store.handles (dropUntrackedNode v) := by
    refine .bind .get fun s => ?_
    split
    · exact .pure _
    · refine .bind .get fun s' => .guard (.raise _) (.bind .get fun s'' => ?_)
      split
      · exact .pure _
      · exact .modify fun _ => rfl
  rw [destroyValue_eq]
  refine .bind ?_ fun _ => .bind fixes_unregisterName fun _ => .bind (.modify fun _ => rfl) fun _ =>
    .bind hattachments fun _ => .bind hwrapper fun _ => .modify fun _ => rfl
  refine .bind (.lift _) fun _ => .bind (.lift _) fun _ => .guard (.raise _) (.bind hnode fun _ => ?_)
  refine .bind (.lift _) fun key => ?_
  split
  · exact hforget
  · exact .pure _

theorem ends_destroyValue_razes (hs : s.Settled) : Ends (destroyValue v) s (fun _ s' =>
    s'.values = s.values.erase v ∧ s'.uses = s.uses.clearSlots v ∧ s'.modules = s.modules ∧
      s'.config = s.config) fun _ _ => True := by
  rw [destroyValue_eq]
  refine Ends.bind ((ends_condemn hs).mono (fun _ _ h => h) fun _ _ _ => trivial) ?_
  rintro _ p ⟨⟨d, hd⟩, hu, md, cs, rfl, -, hp, -⟩
  have hcore : Fixes Store.core (unregisterName v) := fixes_unregisterName
  have hbare : Fixes Store.ground (unregisterName v) := fixes_unregisterName
  refine Ends.bind (((hcore.ends _).and (hbare.ends _)).mono (fun _ _ h => h) fun _ _ _ => trivial) ?_
  rintro _ q ⟨hq, hground⟩
  obtain ⟨hconfig, hmodules, hvalues, huses⟩ : q.config = s.config ∧ q.modules = s.modules ∧
      q.values = s.values ∧ q.uses = s.uses := by
    simp_all [Store.ground]
  refine (ends_discard (hq ▸ hp) (hvalues ▸ hd) (huses ▸ hu)).weaken ?_
  rintro _ s' ⟨t, ws, rfl, -⟩
  exact ⟨congrArg (·.erase v) hvalues, congrArg (·.clearSlots v) huses, hmodules, hconfig⟩

theorem ends_destroyValue_thins (hs : Coherent B s) (hk : s.layout.kind v = some k) (hD : D v)
    (hu : s.uses.useList v = [])
    (hn : ∀ n, s.metadata.nodeOf[v]? = some n → s.metadata.tracker.count n = 0)
    (hscope : s.layout.FindsScope v) : Ends (destroyValue v) s (fun _ s' => Coherent B s' ∧
      Thins D s s' ∧ s'.values.get? v = none ∧ ∃ L, s.layout.Strikes v L ∧ s'.layout = L.drop [v])
      fun _ _ => False := by
  obtain ⟨-, d, hd, -⟩ := layout_kind.1 hk
  have hg : s.uses.Sound s.core.IsLive := hs.settled.graph
  have hkeeps (w : ValueId) (hw : w ≠ v) : Keeps (s.Bypasses w) (destroyValue v) :=
    keeps_destroyValue_bypasses hw.symm
  have hbypasses := ends_bypasses hs hkeeps
  have htraits : Keeps (fun s' => s.traits.Continues s'.traits) (destroyValue v) :=
    (robust_naming (J := fun x => s.traits.Continues x.2) fun _ v h =>
      h.erase v).keeps_destroyValue
  refine ((ends_destroyValue_answers hs.settled hs.keyed hd hu hn hscope).and
    (((keeps_destroyValue_coherent s hs).and (ends_destroyValue hs.settled)).and
    (((ends_destroyValue_razes hs.settled).and (fixes_destroyValue_handles.ends s)).and
    (hbypasses.and (htraits s (.refl _)))))).mono ?_ fun _ _ h => h.1
  rintro _ s' ⟨hdead, ⟨hs', -, hlayout⟩, ⟨⟨hvalues, huses, hmodules, hconfig⟩, hhandles⟩, hby, ht⟩
  have hget (w : ValueId) : s'.values.get? w = if v = w then none else s.values.get? w := by
    rw [hvalues]
    exact Arena.get?_erase ..
  have hslots (w : ValueId) : s'.uses.targets w = if v = w then [] else s.uses.targets w := by
    rw [huses, hg.targets_clearSlots]
  have hlive {w : ValueId} {d : Value} (hw : s'.values.get? w = some d) :
      v ≠ w ∧ s.values.get? w = some d := by
    rw [hget] at hw
    split at hw
    · cases hw
    next hne => exact ⟨hne, hw⟩
  have hkind {w : ValueId} {k : ValueKind} (hw : s'.layout.kind w = some k) :
      v ≠ w ∧ s.layout.kind w = some k := by
    obtain ⟨hres, d, hd, hkd⟩ := layout_kind.1 hw
    exact ⟨(hlive hd).1, layout_kind.2 ⟨hres, d, (hlive hd).2, hkd⟩⟩
  have hbypassed {w : ValueId} {k : ValueKind} (hw : s'.layout.kind w = some k) :
      s.Bypasses w s' := hby w k (hkind hw).1.symm (hkind hw).2
  refine ⟨hs', ⟨ht, fun hw => (hkind hw).2, fun hc => ?_, fun {u w k} _ hu => ?_,
    fun hw => (hbypassed hw).nodeOf, fun hw hn hl => (hbypassed hw).tracked hn hl,
    .of_eq (.refl s) hconfig hmodules hhandles,
    fun _ => ⟨fun w hw => ?_, fun w hw => ?_, fun m d hm _ => hmodules ▸ hm⟩⟩, hdead, hlayout⟩
  · obtain ⟨d', hd', ha⟩ := isBlockAddress_iff.1 hc
    exact ⟨isBlockAddress_iff.2 ⟨d', (hlive hd').2, ha⟩, (hslots _).trans (if_neg (hlive hd').1)⟩
  · rw [Uses, hslots] at hu
    split at hu
    · cases hu
    · exact hu
  · exact (hget w).trans (if_neg fun h : v = w => hw (h ▸ hD))
  · exact (hslots w).trans (if_neg fun h : v = w => hw (h ▸ hD))

end Destroying

section Nullifying

theorem ends_nullifyBlockAddresses_none (hs : s.Settled) (hd : s.values.get? b = some d)
    (hnone : ∀ c, s.isBlockAddress c = true → ¬ s.Uses c b) :
    Ends (nullifyBlockAddresses b) s (fun _ s' => s' = s) fun _ _ => False := by
  have husers := Query.users_ok.2 ⟨⟨d, hd⟩, rfl⟩
  have hnil : dropRepeats ((((s.uses.useList b).map s.uses.use).map Use.user).filter
      s.isBlockAddress) = [] := by
    rw [List.eq_nil_iff_forall_not_mem]
    intro c hc
    have hpoints := pointsAt_iff_uses.1 ((pointsAt_iff hs husers).2 hc)
    exact hnone c hpoints.1 hpoints.2
  unfold nullifyBlockAddresses
  rw [ends_bind, ends_lift_ok husers, ends_bind, ends_get, hnil]
  rfl

theorem ends_nullifyBlockAddresses_thins (hs : Coherent B s) (hk : s.layout.kind b = some k)
    (hD : D b) : Ends (nullifyBlockAddresses b) s (fun _ s' => Coherent B s' ∧ Thins D s s' ∧
      s'.layout = s.layout ∧ ∀ c, s'.isBlockAddress c = true → ¬ s'.Uses c b)
      fun _ _ => False := by
  obtain ⟨-, d, hd, -⟩ := layout_kind.1 hk
  have hkeeps (w : ValueId) (_ : True) : Keeps (s.Bypasses w) (nullifyBlockAddresses b) :=
    keeps_nullifyBlockAddresses_bypasses
  have hbypasses := ends_bypasses hs hkeeps
  have htraits : Keeps (fun s' => s.traits.Continues s'.traits) (nullifyBlockAddresses b) :=
    .bind (.lift _) fun _ => .bind .get fun _ => .forM (fun _ =>
      keeps_nullifyBlockAddress_naming (J := fun x => s.traits.Continues x.2)
        (fun _ v h => h.erase v) fun _ _ _ h => h.push _) _
  have hnothing : Unaddressed D s → Ends (nullifyBlockAddresses b) s (fun _ s' => s' = s)
      fun _ _ => False := fun h =>
    ends_nullifyBlockAddresses_none hs.settled hd fun c hc => h c b hD hc
  have hleaves : Ends (nullifyBlockAddresses b) s (fun _ s' => Unaddressed D s → Leaves D s s')
      fun _ _ => True := by
    unfold Ends
    cases he : nullifyBlockAddresses b s with
    | ok a s' => exact fun h => (hnothing h).of_ok he ▸ .refl D s
    | error x s' => trivial
  refine ((ends_nullifyBlockAddresses hs hd).and
    ((keeps_nullifyBlockAddresses_layout s ⟨hs.settled, rfl⟩).and
    ((hbypasses.and hleaves).and (htraits s (.refl _))))).mono ?_ fun _ _ h => h.1
  rintro _ q ⟨⟨hq, p, null, into, hp, hequips, h⟩, ⟨-, hlayout⟩, ⟨hby, hl⟩, ht⟩
  have hbypassed {w : ValueId} {k : ValueKind} (hw : q.layout.kind w = some k) :
      s.Bypasses w q := hby w k trivial (hlayout ▸ hw)
  have hnull (c : ValueId) (hc : s.PointsAt c b) : ∃ ty, p.HasContent null (.scalar ty .null) := by
    obtain ⟨ty, -, -, hcontent⟩ := hequips.content c hc
    exact ⟨ty, hcontent⟩
  have haddress {c : ValueId} (hc : q.isBlockAddress c = true) : s.isBlockAddress c = true ∧
      q.uses.targets c = s.uses.targets c := by
    obtain ⟨dq, hdq, -⟩ := isBlockAddress_iff.1 hc
    have ha := h.isBlockAddress hc
    exact ⟨hequips.isBlockAddress ha, hequips.uses ▸ h.targets_address hp (kind_wiring hdq) ha⟩
  refine ⟨hq, ⟨ht, fun hw => hlayout ▸ hw, haddress, fun hw hu => ?_,
    fun hw => (hbypassed hw).nodeOf, fun hw hn hl => (hbypassed hw).tracked hn hl,
    (hbypassed (hlayout ▸ hk)).upholds, hl⟩, hlayout, fun c hc hu => ?_⟩
  · have hu := h.uses hp hq.settled hnull hw hu
    rwa [Uses, hequips.uses] at hu
  · obtain ⟨dq, hdq, -⟩ := isBlockAddress_iff.1 hc
    obtain ⟨hold, htargets⟩ := haddress hc
    rw [Uses, htargets] at hu
    cases (kind_wiring hdq).symm.trans (h.dead c (pointsAt_iff_uses.2 ⟨hold, hu⟩))

end Nullifying

section Placing

variable {s₀ : Store} {m : ModuleId} {total : Prop}

theorem Fixes.displaces {e : Edit Unit} (h : Fixes Store.ground e) :
    Keeps (Displaces D s₀) e := fun s hs =>
  (h.ends s).mono (fun _ _ hg => hs.congr hg) fun _ _ hg => hs.congr hg

theorem keeps_modifyValue_displaces {k : Value → Value} (hD : D v) :
    Keeps (Displaces D s₀) (modifyValue v k) := by
  refine .bind (.lift _) fun _ => .modify fun s hs => ⟨hs.toUpholds.of_eq rfl rfl rfl, fun w hw => ?_,
    hs.targets, hs.modules⟩
  rw [← hs.values w hw]
  refine (Arena.get?_modify ..).trans (if_neg ?_)
  rintro rfl
  exact hw hD

theorem keeps_modifyModule_displaces {k : Module → Module} (hn : ∀ d, (k d).named = d.named)
    (hm : ∀ d, s₀.modules.get? m = some d → ∃ v ∈ d.functions ++ d.globals, D v) :
    Keeps (Displaces D s₀) (modifyModule m k) := by
  refine .bind (.lift _) fun _ => .modify fun s hs => ?_
  have hget (m' : ModuleId) : (s.modifyModule m k).modules.get? m' =
      if m = m' then (s.modules.get? m').map k else s.modules.get? m' := Arena.get?_modify ..
  refine ⟨⟨hs.config, fun m' => ?_, hs.handle⟩, hs.values, hs.targets, fun m' d hd hout => ?_⟩
  · rw [hget, ← hs.named]
    split
    · rw [Option.map_map]
      exact congrArg (Option.map · _) (funext hn)
    · rfl
  · rw [hget, if_neg, hs.modules m' d hd hout]
    rintro rfl
    obtain ⟨v, hv, hvD⟩ := hm d hd
    exact hout v hv hvD

theorem thins_of_displaces (hcore : s'.core = s.core) (hnaming : s'.naming = s.naming)
    (h : Displaces D s s') : Thins D s s' :=
  .of_core hcore (traits_of_naming hnaming) h.toUpholds h.toLeaves

theorem ends_detach {α : Type} {q : Query (Option α)} {o : Option α} {e : Edit Unit}
    {Q : Unit → Store → Prop} {E : Fault → Store → Prop} (ho : q s = .ok o)
    (hnone : o = none → Q () s) (hsome : ∀ a, o = some a → Ends e s Q E) :
    Ends (do if (← q).isSome then e) s Q E := by
  rw [ends_bind, ends_lift_ok ho]
  cases o with
  | none => exact hnone rfl
  | some a => exact hsome a rfl

theorem ends_removeBlock_displaces (ho : Query.blockParent b s = .ok (some f)) (hb : D b)
    (hf : D f) :
    Ends (removeBlock b) s (fun _ => Displaces D s) fun _ => Displaces D s := by
  unfold removeBlock
  rw [ends_bind, ends_lift_ok ho]
  refine Keeps.bind (.lift _) (fun insts => .bind (.forM (fun _ => ?_) insts) fun _ =>
    .bind (Fixes.displaces fixes_unregisterName) fun _ => .bind (.bind (.lift _) fun _ =>
      keeps_modifyValue_displaces hf) fun _ => keeps_modifyValue_displaces hb) s (.refl D s)
  exact Fixes.displaces fixes_unregisterName

theorem ends_removeFunction_displaces (hp : s.layout.Placed)
    (ho : Query.functionModule f s = .ok (some m)) (hf : D f) :
    Ends (removeFunction f) s (fun _ => Displaces D s) fun _ => Displaces D s := by
  have hmodule : Keeps (Displaces D s)
      (modifyModule m fun d => { d with functions := without f d.functions }) := by
    refine keeps_modifyModule_displaces (fun _ => rfl) fun d hd => ⟨f, List.mem_append_left _ ?_, hf⟩
    rw [← layout_functions hd]
    exact (hp.child f _).1 (Query.functionModule_ok.1 ho).2
  unfold removeFunction
  rw [ends_bind, ends_lift_ok ho]
  exact Keeps.bind (Fixes.displaces fixes_unregisterName) (fun _ => .bind hmodule fun _ =>
    keeps_modifyValue_displaces hf) s (.refl D s)

theorem ends_removeGlobal_displaces (hp : s.layout.Placed)
    (ho : Query.globalModule g s = .ok (some m)) (hg : D g) :
    Ends (removeGlobal g) s (fun _ => Displaces D s) fun _ => Displaces D s := by
  have hmodule : Keeps (Displaces D s)
      (modifyModule m fun d => { d with globals := without g d.globals }) := by
    refine keeps_modifyModule_displaces (fun _ => rfl) fun d hd => ⟨g, List.mem_append_right _ ?_, hg⟩
    rw [← layout_globals hd]
    exact (hp.child g _).1 (Query.globalModule_ok.1 ho).2
  unfold removeGlobal
  rw [ends_bind, ends_lift_ok ho]
  exact Keeps.bind (Fixes.displaces fixes_unregisterName) (fun _ => .bind hmodule fun _ =>
    keeps_modifyValue_displaces hg) s (.refl D s)

theorem ends_detachBlock_thins (hs : Coherent B s) (hc : s.layout.Consistent total)
    (hb : s.layout.kind b = some .block) (hD : D b)
    (hf : ∀ f, s.layout.place b = some (.blocks f) → D f) :
    Ends (detachBlock b) s (fun _ s' => Coherent B s' ∧ Thins D s s' ∧ s'.layout.Consistent total ∧
      s.layout.Uproots s'.layout b) fun _ _ => False := by
  obtain ⟨o, ho⟩ : ∃ o, Query.blockParent b s = .ok o := by
    obtain ⟨-, ⟨_, p, _, _, _⟩, hd, hk⟩ := layout_kind.1 hb
    cases p <;> cases hk
    exact ⟨_, Query.blockParent_ok.2 ⟨hb, layout_place hd⟩⟩
  have hplace := (Query.blockParent_ok.1 ho).2
  refine ends_detach ho (fun hnone => ?_) fun f hsome => ?_
  · subst hnone
    exact ⟨hs, .refl D s, hc, Layout.uproots_of_placed hc hplace (position_of_kind hb (by simp))⟩
  · subst hsome
    have hcore : Fixes Store.core (removeBlock b) := fixes_removeBlock
    refine (((ends_removeBlock hc).and (ends_removeBlock_displaces ho hD (hf f hplace))).and
      ((keeps_removeBlock_coherent s hs).and ((hcore.ends s).and
        (naming_removeBlock.ends s)))).mono ?_ fun _ _ h => h.1.1.2 f hplace
    rintro _ s' ⟨⟨⟨hc', hd, q, hq, hr⟩, hdisplaces⟩, hs', hcore, hnaming⟩
    exact ⟨hs', thins_of_displaces hcore hnaming hdisplaces, hc', Layout.uproots_of_detach hr hq hd⟩

theorem ends_detach_thins {q : Query (Option ModuleId)} {o : Option ModuleId} {e : Edit Unit}
    {ι : ModuleId → Place} (hs : Coherent B s) (hc : s.layout.Consistent total) (ho : q s = .ok o)
    (hplace : s.layout.place v = o.map ι) (hcoherent : Keeps (Coherent B) e)
    (hcore : Fixes Store.core e) (hnaming : Fixes Store.naming e)
    (harranges : Ends e s (fun _ s' => s'.layout.Consistent total ∧ ∃ q, s.layout.place v = some q ∧
      (s.layout.detach v q).Renamed s'.layout) fun _ s' => s' = s ∧ ∀ m, s.layout.place v ≠ some (ι m))
    (hdisplaces : ∀ m, o = some m → Ends e s (fun _ => Displaces D s) fun _ => Displaces D s) :
    Ends (do if (← q).isSome then e) s (fun _ s' => Coherent B s' ∧ Thins D s s' ∧
      s'.layout.Consistent total ∧ s.layout.Withdraws s'.layout v) fun _ _ => False := by
  refine ends_detach ho (fun hnone => ?_) fun m hsome => ?_
  · subst hnone
    exact ⟨hs, .refl D s, hc, .of_unplaced hplace⟩
  · have hplace : s.layout.place v = some (ι m) := by rw [hplace, hsome, Option.map_some]
    refine ((harranges.and (hdisplaces m hsome)).and ((hcoherent s hs).and ((hcore.ends s).and
      (hnaming.ends s)))).mono ?_ fun _ _ h => h.1.1.2 m hplace
    rintro _ s' ⟨⟨⟨hc', q, hq, hr⟩, hdisplaces⟩, hs', hcore, hnaming⟩
    exact ⟨hs', thins_of_displaces hcore hnaming hdisplaces, hc', .of_detach hc.placed hr hq⟩

def detachFunction (f : ValueId) : Edit Unit := do
  if (← Query.functionModule f).isSome then removeFunction f

def detachGlobal (g : ValueId) : Edit Unit := do
  if (← Query.globalModule g).isSome then removeGlobal g

theorem ends_detachFunction_thins (hs : Coherent B s) (hc : s.layout.Consistent total)
    (hf : s.layout.kind f = some .function) (hD : D f) :
    Ends (detachFunction f) s (fun _ s' => Coherent B s' ∧ Thins D s s' ∧
      s'.layout.Consistent total ∧ s.layout.Withdraws s'.layout f) fun _ _ => False := by
  obtain ⟨o, ho⟩ : ∃ o, Query.functionModule f s = .ok o := by
    obtain ⟨-, ⟨_, p, _, _, _⟩, hd, hk⟩ := layout_kind.1 hf
    cases p <;> cases hk
    exact ⟨_, Query.functionModule_ok.2 ⟨hf, layout_place hd⟩⟩
  exact ends_detach_thins hs hc ho (Query.functionModule_ok.1 ho).2 keeps_removeFunction_coherent
    fixes_removeFunction naming_removeFunction (ends_removeFunction hc) fun m hsome =>
      ends_removeFunction_displaces hc.placed (hsome ▸ ho) hD

theorem ends_detachGlobal_thins (hs : Coherent B s) (hc : s.layout.Consistent total)
    (hg : s.layout.kind g = some .global) (hD : D g) :
    Ends (detachGlobal g) s (fun _ s' => Coherent B s' ∧ Thins D s s' ∧
      s'.layout.Consistent total ∧ s.layout.Withdraws s'.layout g) fun _ _ => False := by
  obtain ⟨o, ho⟩ : ∃ o, Query.globalModule g s = .ok o := by
    obtain ⟨-, ⟨_, p, _, _, _⟩, hd, hk⟩ := layout_kind.1 hg
    cases p <;> cases hk
    exact ⟨_, Query.globalModule_ok.2 ⟨hg, layout_place hd⟩⟩
  exact ends_detach_thins hs hc ho (Query.globalModule_ok.1 ho).2 keeps_removeGlobal_coherent
    fixes_removeGlobal naming_removeGlobal (ends_removeGlobal hc) fun m hsome =>
      ends_removeGlobal_displaces hc.placed (hsome ▸ ho) hD

theorem ends_clear_thins (hs : Coherent B s) (hb : s.layout.kind b = some .block) (hD : D b) :
    Ends (modifyInstructions b fun _ => []) s (fun _ s' => Coherent B s' ∧ Thins D s s' ∧
      s'.layout = s.layout.relist (.instructions b) fun _ => []) fun _ _ => False := by
  have hcore : Fixes Store.core (modifyInstructions b fun _ => []) := fixes_modifyInstructions
  have hdisplaces : Keeps (Displaces D s) (modifyInstructions b fun _ => []) :=
    .bind (.lift _) fun _ => keeps_modifyValue_displaces hD
  refine ((ends_modifyInstructions (r := fun _ => []) hb).and ((keeps_clear_coherent s hs).and
    ((hdisplaces s (.refl D s)).and ((hcore.ends s).and (naming_modifyInstructions.ends s))))).mono
    ?_ fun _ _ h => h.1
  rintro _ s' ⟨hlayout, hs', hdisplaces, hcore, hnaming⟩
  exact ⟨hs', thins_of_displaces hcore hnaming hdisplaces, hlayout⟩

end Placing

end Edit

end ShaderIR
