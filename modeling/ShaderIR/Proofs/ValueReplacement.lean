import ShaderIR.Proofs.NestedMerges
import ShaderIR.Proofs.Regularity

/-! Replacing values: the uses that move, the block addresses that fold, and the depth that suffices
for the merges. -/

open ShaderIR.Core

namespace ShaderIR

namespace Core

variable {c : Core} {r : Location → Option NodeId} {e : EdgeId} {old new : ValueId}
variable {dold dnew : Value}

theorem Sound.moveEdge (h : c.Sound r) (ht : (c.uses.edge e).target = some old)
    (hold : c.values.get? old = some dold) (hnew : c.values.get? new = some dnew)
    (hty : dnew.ty = dold.ty) : Sound { c with uses := (c.uses.unlink e).link e new } r := by
  obtain ⟨-, hslot⟩ := h.graph.slot_of_target ht
  have hs := UseGraph.sameSlots_unlink c.uses e
  refine (h.unlink e).link (u := (c.uses.edge e).user) ?_ ?_ ⟨dnew, hnew⟩ fun d hd ha => ?_
  · exact hs.slotsOf _ ▸ List.mem_of_getElem? hslot
  · exact (h.graph.target_unlink e e).trans (if_pos rfl)
  · obtain ⟨dt, hdt, haddr⟩ := h.typed.address ht hd ha
    obtain rfl := Option.some.inj (hold.symm.trans hdt)
    exact ⟨dnew, hnew, hty ▸ haddr⟩

theorem useList_moveEdge (h : c.Sound r) (ht : (c.uses.edge e).target = some old)
    (new v : ValueId) :
    ((c.uses.unlink e).link e new).useList v =
      if new = v then e :: (c.uses.useList v).erase e else (c.uses.useList v).erase e := by
  have hlt : e.index < (c.uses.unlink e).edges.size := by
    rw [(UseGraph.sameSlots_unlink c.uses e).size]
    exact (h.graph.mem_slots (List.mem_of_getElem? (h.graph.slot_of_target ht).2)).1
  have hnone : ((c.uses.unlink e).edge e).target = none :=
    (h.graph.target_unlink e e).trans (if_pos rfl)
  rw [(h.graph.unlink e).useList_link hlt hnone, h.graph.useList_unlink]

theorem target_moveEdge (h : c.Sound r) (ht : (c.uses.edge e).target = some old)
    (new : ValueId) (x : EdgeId) : (((c.uses.unlink e).link e new).edge x).target =
      if x = e then some new else (c.uses.edge x).target := by
  have hlt : e.index < (c.uses.unlink e).edges.size := by
    rw [(UseGraph.sameSlots_unlink c.uses e).size]
    exact (h.graph.mem_slots (List.mem_of_getElem? (h.graph.slot_of_target ht).2)).1
  have hnone : ((c.uses.unlink e).edge e).target = none :=
    (h.graph.target_unlink e e).trans (if_pos rfl)
  rw [(h.graph.unlink e).target_link hlt hnone, h.graph.target_unlink]
  split <;> rfl

end Core

/-- Edges have moved from one value to another, and the rest of them is still to move. -/
structure Store.EdgesMoved (s s' : Store) (r : Location → Option NodeId) (old new : ValueId)
    (es rest : List EdgeId) : Prop where
  uses : ∃ g, s' = { s with uses := g }
  sound : s'.core.Sound r
  slots : ∀ v, s'.uses.slotsOf v = s.uses.slotsOf v
  user : ∀ e, (s'.uses.edge e).user = (s.uses.edge e).user
  target : ∀ e, (s'.uses.edge e).target =
    if e ∈ es ∧ e ∉ rest then some new else (s.uses.edge e).target
  sub : rest ⊆ es
  nodup : rest.Nodup
  waiting : ∀ e ∈ rest, (s'.uses.edge e).target = some old
  left : ∀ e ∈ s'.uses.useList old, e ∈ s.uses.useList old ∧ (e ∈ rest ∨ e ∉ es)
  others : ∀ v, v ≠ old → v ≠ new → s'.uses.useList v = s.uses.useList v

theorem Store.edgesMoved_refl {s : Store} {r : Location → Option NodeId} {old new : ValueId}
    {es : List EdgeId} (hs : s.core.Sound r) (hes : es.Nodup)
    (ht : ∀ e ∈ es, (s.uses.edge e).target = some old) : s.EdgesMoved s r old new es es where
  uses := ⟨s.uses, rfl⟩
  sound := hs
  slots _ := rfl
  user _ := rfl
  target _ := by rw [if_neg fun hx => hx.2 hx.1]
  sub _ hx := hx
  nodup := hes
  waiting := ht
  left _ hx := ⟨hx, or_not⟩
  others _ _ _ := rfl

theorem Store.EdgesMoved.unused {s s' : Store} {r : Location → Option NodeId} {old new : ValueId}
    (h : s.EdgesMoved s' r old new (s.uses.useList old) []) : s'.uses.useList old = [] := by
  rw [List.eq_nil_iff_forall_not_mem]
  intro e he
  obtain ⟨he, hrest | hleft⟩ := h.left e he
  · cases hrest
  · exact hleft he

namespace Edit

variable {s s' : Store} {r : Location → Option NodeId} {old new : ValueId} {dold dnew : Value}
variable {e : EdgeId} {es rest : List EdgeId}

theorem ends_moveEdge (h : s.EdgesMoved s' r old new es (e :: rest)) (hne : old ≠ new)
    (hold : s.values.get? old = some dold) (hnew : s.values.get? new = some dnew)
    (hty : dnew.ty = dold.ty) :
    Ends (moveEdge new e) s' (fun _ s'' => s.EdgesMoved s'' r old new es rest)
      fun _ _ => False := by
  have hs := h.sound
  have ht := h.waiting e (List.mem_cons_self ..)
  obtain ⟨he, hrest⟩ := List.nodup_cons.1 h.nodup
  obtain ⟨g, hg⟩ := h.uses
  have hvalues : s'.values = s.values := by rw [hg]
  have hold' : s'.core.values.get? old = some dold.bare := by
    rw [Store.get?_core, hvalues, hold, Option.map_some]
  have hnew' : s'.core.values.get? new = some dnew.bare := by
    rw [Store.get?_core, hvalues, hnew, Option.map_some]
  have hmoved := hs.moveEdge ht hold' hnew' hty
  have hlist (v : ValueId) : ((s'.uses.unlink e).link e new).useList v = _ :=
    useList_moveEdge hs ht new v
  have hleft (x : EdgeId) : x ∈ ((s'.uses.unlink e).link e new).useList old ↔
      x ≠ e ∧ (s'.uses.edge x).target = some old := by
    rw [hlist, if_neg (Ne.symm hne), (hs.graph.lists.nodup old).mem_erase_iff,
      hs.graph.lists.mem]
    exact Iff.rfl
  unfold moveEdge unlink link
  rw [ends_bind, ends_modify, ends_bind]
  have hlive : Query.value new (s'.modifyUses (·.unlink e)) = .ok dnew :=
    Query.value_ok.2 (hnew ▸ congrArg (·.get? new) hvalues)
  rw [ends_lift_ok hlive, ends_modify]
  have hslots (v : ValueId) : ((s'.uses.unlink e).link e new).slotsOf v = s'.uses.slotsOf v :=
    ((UseGraph.sameSlots_link ..).slotsOf v).trans ((UseGraph.sameSlots_unlink ..).slotsOf v)
  have htarget (x : EdgeId) : (((s'.uses.unlink e).link e new).edge x).target =
      if x = e then some new else (s'.uses.edge x).target := target_moveEdge hs ht new x
  have huser (x : EdgeId) : (((s'.uses.unlink e).link e new).edge x).user = (s'.uses.edge x).user :=
    ((UseGraph.sameSlots_link ..).user x).trans ((UseGraph.sameSlots_unlink ..).user x)
  refine ⟨⟨(s'.uses.unlink e).link e new, ?_⟩, hmoved, fun v => (hslots v).trans (h.slots v),
    fun x => (huser x).trans (h.user x), fun x => ?_, fun x hx => h.sub (List.mem_cons_of_mem _ hx),
    hrest, fun x hx => ?_, fun x hx => ?_, fun v hv hv' => ?_⟩
  · rw [hg]
    rfl
  · have hin : e ∈ es := h.sub (List.mem_cons_self ..)
    refine (htarget x).trans ?_
    rw [h.target]
    by_cases hx : x = e
    · rw [if_pos hx, if_pos ⟨hx ▸ hin, hx ▸ he⟩]
    · rw [if_neg hx]
      simp only [List.mem_cons, hx, false_or]
  · refine (hmoved.graph.lists.mem old x).1 ((hleft x).2 ⟨fun hxe => he (hxe ▸ hx), ?_⟩)
    exact h.waiting x (List.mem_cons_of_mem _ hx)
  · obtain ⟨hxe, hx⟩ := (hleft x).1 hx
    obtain ⟨hs', hx'⟩ := h.left x ((hs.graph.lists.mem old x).2 hx)
    exact ⟨hs', hx'.imp_left fun hm => (List.mem_cons.1 hm).resolve_left hxe⟩
  · refine (hlist v).trans ?_
    rw [if_neg (Ne.symm hv'), List.erase_of_not_mem]
    · exact h.others v hv hv'
    · intro hm
      exact hv (Option.some.inj (((hs.graph.lists.mem v e).1 hm).symm.trans ht))

theorem targets_edgesMoved {r : Location → Option NodeId}
    (h : s.EdgesMoved s' r old new (s.uses.useList old) []) (hs : s.core.Sound r) (v : ValueId) :
    s'.uses.targets v =
      (s.uses.targets v).map fun o => if o = some old then some new else o := by
  rw [UseGraph.targets, h.slots, UseGraph.targets, List.map_map]
  apply List.map_congr_left
  intro e _
  have hmem := hs.graph.lists.mem old e
  rw [h.target, Function.comp_apply]
  simp only [List.not_mem_nil, not_false_eq_true, and_true]
  exact if_congr hmem rfl rfl

/-- The first half of moving edges: each goes to the new value, and the block addresses among
their users are noted. -/
def gather (new : ValueId) (es : List EdgeId) : Edit (List (ValueId × ConstantKey)) :=
  es.foldlM (fun noted e => do
    let noted ← noteBlockAddress e noted
    moveEdge new e
    return noted) []

theorem moveEdges_eq (nested : ValueId → ValueId → Edit Unit) (new : ValueId)
    (es : List EdgeId) : moveEdges nested new es = (do
      let noted ← gather new es
      noted.forM fun c => internBlockAddress nested c.1 c.2) := rfl

theorem isBlockAddress_iff {u : ValueId} :
    s.isBlockAddress u ↔ ∃ d, s.values.get? u = some d ∧ d.IsAddress := by
  simp [Store.isBlockAddress, Option.any_eq_true, Value.IsAddress]

theorem ends_noteBlockAddress (hs : s.core.Sound r) (ht : (s.uses.edge e).target = some old)
    (hold : s.values.get? old = some dold) {noted : List (ValueId × ConstantKey)} :
    Ends (noteBlockAddress e noted) s (fun noted' s' => s' = s ∧ (noted' = noted ∨
      ∃ u key, noted' = noted ++ [(u, key)] ∧ s.isBlockAddress u ∧
        s.types.IsAddressable dold.ty))
      fun x s' => x.IsOrdinary ∧ s' = s ∧ s.types.IsAddressable dold.ty := by
  unfold noteBlockAddress
  rw [ends_bind, ends_get]
  dsimp only
  rw [ends_bind, ends_get]
  split
  next hif =>
    have hblock : s.isBlockAddress (s.uses.edge e).user := (Bool.and_eq_true_iff.1 hif).1
    have haddr : s.types.IsAddressable dold.ty := by
      obtain ⟨du, hdu, ha⟩ := isBlockAddress_iff.1 hblock
      obtain ⟨dt, hdt, haddr⟩ := hs.typed.address (d := du.bare) ht
        (by rw [Store.get?_core]; exact congrArg _ hdu) (Value.bare_payload_constant.2 ha)
      rw [Store.get?_core, hold] at hdt
      obtain rfl := Option.some.inj hdt
      exact haddr
    refine Query.regular_constantKey.ends_bind (fun _ hx => ⟨hx, rfl, haddr⟩) fun key _ => ?_
    split
    · exact ⟨rfl, .inr ⟨_, _, rfl, hblock, haddr⟩⟩
    · exact ⟨rfl, .inl rfl⟩
  next => exact ⟨rfl, .inl rfl⟩

theorem ends_gather (hs : s.core.Sound r) (hes : es.Nodup)
    (ht : ∀ e ∈ es, (s.uses.edge e).target = some old) (hne : old ≠ new)
    (hold : s.values.get? old = some dold) (hnew : s.values.get? new = some dnew)
    (hty : dnew.ty = dold.ty) : Ends (gather new es) s
      (fun noted s' => s.EdgesMoved s' r old new es [] ∧
        ∀ c ∈ noted, s.isBlockAddress c.1 ∧ s.types.IsAddressable dold.ty)
      fun x s' => x.IsOrdinary ∧ (∃ rest, s.EdgesMoved s' r old new es rest) ∧
        s.types.IsAddressable dold.ty := by
  refine ends_foldlM (fun rest (noted : List (ValueId × ConstantKey)) s' =>
    s.EdgesMoved s' r old new es rest ∧
      ∀ c ∈ noted, s.isBlockAddress c.1 ∧ s.types.IsAddressable dold.ty) ?_ es [] s ?_
  · rintro e rest noted s' ⟨h, hnoted⟩
    obtain ⟨g, hg⟩ := h.uses
    have hvalues : s'.values = s.values := by rw [hg]
    have htypes : s'.types = s.types := by rw [hg]
    refine Ends.bind ((ends_noteBlockAddress h.sound (h.waiting e (List.mem_cons_self ..))
      (hvalues ▸ hold)).mono (fun _ _ h => h) ?_) ?_
    · rintro _ _ ⟨hx, rfl, ha⟩
      exact ⟨hx, ⟨_, h⟩, htypes ▸ ha⟩
    · rintro noted' _ ⟨rfl, hadded⟩
      refine Ends.bind (Ends.weaken (ends_moveEdge h hne hold hnew hty) fun _ _ h => h) ?_
      intro _ s'' h'
      refine ⟨h', fun c hc => ?_⟩
      obtain rfl | ⟨u, key, rfl, hu, ha⟩ := hadded
      · exact hnoted c hc
      · obtain hc | hc := List.mem_append.1 hc
        · exact hnoted c hc
        · obtain rfl := List.mem_singleton.1 hc
          exact ⟨by rwa [Store.isBlockAddress, ← hvalues], htypes ▸ ha⟩
  · exact ⟨Store.edgesMoved_refl hs hes ht, by simp⟩

section Unaddressed

variable {nested : ValueId → ValueId → Edit Unit} {k : Nat}

theorem ends_replaceStep_unaddressed {Q : Unit → Store → Prop} {E : Fault → Store → Prop}
    (hs : s.core.Sound r) (hne : old ≠ new)
    (haddr : ∀ d, s.values.get? old = some d → ¬ s.types.IsAddressable d.ty)
    (hnode : ∀ p, s.EdgesMoved p r old new (s.uses.useList old) [] →
      Query.expectSameType old new s = .ok () → Ends (moveValueNode nested old new) p Q E)
    (hx : ∀ x : Fault, x.IsOrdinary → Query.expectSameType old new s ≠ .ok () → E x s) :
    Ends (replaceStep nested old new) s Q E := by
  unfold replaceStep
  rw [if_neg hne]
  refine ends_bind.2 (ends_lift.2 ⟨fun u hu => ?_, fun x h => hx x
    (Query.regular_expectSameType.fault h) (by simp [h])⟩)
  obtain ⟨dold, dnew, hold, hnew, hty⟩ := Query.expectSameType_ok.1 hu
  have haddr := haddr dold hold
  rw [ends_bind, ends_lift_ok (Query.useList_ok.2 ⟨⟨dold, hold⟩, rfl⟩), moveEdges_eq, ends_bind]
  refine Ends.bind ((ends_gather hs (hs.graph.lists.nodup old)
    (fun e => (hs.graph.lists.mem old e).1) hne hold hnew hty).mono (fun _ _ h => h)
    fun _ _ h => absurd h.2.2 haddr) ?_
  rintro noted p ⟨hp, hnoted⟩
  obtain rfl : noted = [] := List.eq_nil_iff_forall_not_mem.2 fun c hc => haddr (hnoted c hc).2
  exact hnode p hp hu

theorem ends_replaceStep (hn : MergesWrappers k nested) (hs : s.core.Sound r) (hne : old ≠ new)
    (haddr : ∀ d, s.values.get? old = some d → ¬ s.types.IsAddressable d.ty)
    (hentered : ¬ s.IsEntered old) (hsize : s.metadata.wrapperOf.size ≤ k) :
    Ends (replaceStep nested old new) s (fun _ s' => ∃ p r',
      s.EdgesMoved p r old new (s.uses.useList old) [] ∧ p.Settles s' r r' ∧
        s'.uses.useList old = [] ∧ s'.metadata.nodeOf[old]? = none)
      fun x s' => x.IsOrdinary ∧ s' = s ∧ Query.expectSameType old new s ≠ .ok () := by
  refine ends_replaceStep_unaddressed hs hne haddr (fun p hp hty => ?_) fun _ hx h => ⟨hx, rfl, h⟩
  have hmetadata : p.metadata = s.metadata := by
    obtain ⟨g, rfl⟩ := hp.uses
    rfl
  have hlive : ∃ d, p.values.get? new = some d := by
    obtain ⟨-, dnew, -, hnew, -⟩ := Query.expectSameType_ok.1 hty
    obtain ⟨g, rfl⟩ := hp.uses
    exact ⟨dnew, hnew⟩
  have hentered' : ¬ p.IsEntered old := by rwa [Store.IsEntered, hmetadata]
  refine Ends.weaken (ends_moveValueNode hn hp.sound (hmetadata ▸ hsize) hne hlive) ?_
  rintro _ s' ⟨⟨r', hs'⟩, hnone⟩
  exact ⟨p, r', hp, hs', hs'.merged.unused hentered' hp.unused, hnone⟩

theorem merged_edgesMoved (hs : s.core.Sound r)
    (h : s.EdgesMoved s' r old new (s.uses.useList old) []) (hold : s.values.get? old = some dold)
    (hk : dold.kind = .metadata) (hnew : s.IsEntered new) : s.Merged s' := by
  obtain ⟨g, hg⟩ := h.uses
  obtain ⟨dnew, hdnew, hknew⟩ := hnew.kind hs
  have hmerged : s.Merged { s with uses := g } := by
    rw [hg] at h
    refine ⟨rfl, rfl, rfl, rfl, Nat.le_refl _, id, fun _ => rfl, fun {v} hv hu => ?_,
      Store.spares_withUses hold hdnew (not_not_intro hk) (not_not_intro hknew)
        (targets_edgesMoved h hs)⟩
    by_cases hvo : v = old
    · rw [List.eq_nil_iff_forall_not_mem]
      intro x hx
      have := (h.left x (hvo ▸ hx)).1
      rw [← hvo, hu] at this
      cases this
    · exact (h.others v hvo fun hvn => hv (hvn ▸ hnew)).trans hu
  exact hg ▸ hmerged

theorem mergesWrappers_replaceWithin (k : Nat) : MergesWrappers k (replaceWithin k) := by
  induction k with
  | zero => exact fun _ _ _ _ _ hlt => absurd hlt (Nat.not_lt_zero _)
  | succ k ih =>
    intro s r w e d hs hd hk hw he hlt
    obtain ⟨de, hde, hke⟩ := he.kind hs
    have hwell {v dv} (hv : s.values.get? v = some dv) : dv.bare.WellTyped s.types :=
      hs.typed.values (by rw [Store.get?_core, hv]; rfl)
    have hty : de.ty = d.ty := TypeTable.get?_inj hs.typed.distinct
      ((hwell hde).wrapper (by rwa [Value.kind_bare])) ((hwell hd).wrapper (by rwa [Value.kind_bare]))
    have haddr (dw : Value) (hdw : s.values.get? w = some dw) : ¬ s.types.IsAddressable dw.ty := by
      obtain rfl := Option.some.inj (hd.symm.trans hdw)
      exact (hwell hd).not_isAddressable (.inl (by rwa [Value.kind_bare]))
    have hne : w ≠ e := fun hwe => hw (hwe ▸ he)
    refine Ends.mono (ends_replaceStep ih hs hne haddr hw (Nat.le_of_lt_succ hlt)) ?_
      fun _ _ h => h.2.2 (Query.expectSameType_ok.2 ⟨d, de, hd, hde, hty⟩)
    rintro _ s' ⟨p, r', hp, hs', hu, hnone⟩
    have hmerged := merged_edgesMoved hs hp hd hk he
    have hheld : p.core.held = s.core.held := by
      obtain ⟨g, rfl⟩ := hp.uses
      rfl
    exact ⟨⟨r', (Store.settles_of_held hs hp.sound hmerged hheld).trans hs'⟩, hu, hnone⟩

end Unaddressed

end Edit

structure Store.SettledIn (L : Layout) (k : Nat) (s : Store) : Prop where
  settled : s.Settled
  layout : s.layout = L
  wrappers : s.metadata.wrapperOf.size ≤ k

theorem Core.Sound.wrapperOf_size_le_length {c : Core} {r : Location → Option NodeId}
    (h : c.Sound r) (vs : List ValueId) (hvs : ∀ {v n}, c.held (.wrapper v) = some n → v ∈ vs) :
    c.metadata.wrapperOf.size ≤ vs.length := by
  let wrappers := c.metadata.wrapperOf.toList.map Prod.snd
  have hmem {a : NodeId × ValueId} (ha : a ∈ c.metadata.wrapperOf.toList) :
      c.held (.wrapper a.2) = some a.1 :=
    h.recorded.wrapperOf (Std.ExtTreeMap.mem_toList_iff_getElem?_eq_some.1 ha)
  have hnodup : wrappers.Nodup := by
    refine List.Nodup.map_on (fun a ha b hb heq => ?_) ?_
    · exact Prod.ext (Option.some.inj ((hmem ha).symm.trans (heq ▸ hmem hb))) heq
    · refine List.Pairwise.imp ?_ (Std.ExtTreeMap.distinct_keys_toList (t := c.metadata.wrapperOf))
      rintro a _ hne rfl
      exact hne (Std.ReflCmp.compare_self)
  have hsub : wrappers ⊆ vs := by
    intro v hv
    obtain ⟨a, ha, rfl⟩ := List.mem_map.1 hv
    exact hvs (hmem ha)
  have hle := (hnodup.subperm hsub).length_le
  rwa [List.length_map, Std.ExtTreeMap.length_toList] at hle

theorem Core.Sound.wrapperOf_size_le {c : Core} {r : Location → Option NodeId} (h : c.Sound r) :
    c.metadata.wrapperOf.size ≤ c.values.size := by
  refine Nat.le_trans (h.wrapperOf_size_le_length c.values.indices fun {v n} hv => ?_) ?_
  · obtain ⟨d, hd, -⟩ := Option.bind_eq_some_iff.1 hv
    exact List.mem_map.2 ⟨v.index, List.mem_range.2 (Arena.lt_size_of_get? hd), rfl⟩
  · exact Nat.le_of_eq (by rw [Arena.indices, List.length_map, List.length_range])

namespace Edit

section Replacements

variable {s s' : Store} {L : Layout} {k : Nat} {c old new : ValueId}

theorem settledIn_of_uses (h : s.SettledIn L k) {es rest : List EdgeId}
    (hs : s.EdgesMoved s' s.core.held old new es rest) : s'.SettledIn L k := by
  have hs' := hs.sound
  obtain ⟨g, rfl⟩ := hs.uses
  exact ⟨hs', h.layout, h.wrappers⟩

theorem settledIn_of_settles (h : s.SettledIn L k) {r' : Location → Option NodeId}
    (hs : s.Settles s' s.core.held r') : s'.SettledIn L k :=
  ⟨hs.settled, hs.merged.layout.trans h.layout, Nat.le_trans hs.merged.wrappers h.wrappers⟩

theorem ends_destroyAddress (h : s.SettledIn L k)
    (hc : ∀ d, s.values.get? c = some d → d.IsAddress) : Ends (destroyValue c) s
      (fun _ s' => s'.SettledIn L k ∧ s'.values = s.values.erase c)
      fun _ s' => s'.SettledIn L k := by
  rw [destroyValue_eq]
  refine Ends.bind ((ends_condemn h.settled).mono (fun _ _ h => h) ?_) ?_
  · rintro _ _ ⟨md, rfl, hw, hs, hheld⟩
    exact ⟨settled_of_eq hs hheld, h.layout, hw ▸ h.wrappers⟩
  rintro _ p ⟨⟨d, hd⟩, hu, md, cs, hp, hw, hs, hheld⟩
  have hlayout : p.layout = s.layout := by rw [hp]; rfl
  have hvalues : p.values = s.values := by rw [hp]
  have huses : p.uses = s.uses := by rw [hp]
  have hwrappers : p.metadata.wrapperOf = s.metadata.wrapperOf := by rw [hp]; exact hw
  have hk : d.kind = .constant := by
    rw [Value.kind, hc d hd]
    rfl
  rw [← hvalues] at hd
  refine Ends.bind (Ends.weaken (ends_unregisterName_of_not_isResident hd (by rw [hk]; rfl))
    fun _ _ h => h) ?_
  intro _ q hq
  rw [hq]
  refine Ends.weaken (ends_discard hs hd (huses ▸ hu)) ?_
  rintro _ s' ⟨t, ws, rfl, hws, hs', hheld'⟩
  have hws' : ws = p.metadata.wrapperOf := Std.ExtTreeMap.ext_getElem? fun n => by
    rw [hws, if_neg]
    exact fun hn => Store.not_isEntered_of_kind hs hd (by rw [hk]; decide) ⟨n, hn⟩
  refine ⟨⟨settled_of_eq hs' (by rw [hheld', hheld]), ?_, ?_⟩, congrArg (·.erase c) hvalues⟩
  · exact (Store.layout_without hd (by rw [hk]; rfl)).trans (hlayout.trans h.layout)
  · change ws.size ≤ k
    rw [hws', hwrappers]
    exact h.wrappers

def AddressIfLive (s : Store) (c : ValueId) : Prop :=
  ∀ d, s.values.get? c = some d → d.IsAddress

/-- What folding block addresses leaves alone: which values are block addresses, and the values
that are not merged. -/
structure Outlives (L : Layout) (k : Nat) (s s' : Store) : Prop where
  settled : s'.SettledIn L k
  address : ∀ {u}, AddressIfLive s u → AddressIfLive s' u
  live : ∀ {v d}, s.values.get? v = some d → ¬ d.payload.IsMergeable →
    ∃ d', s'.values.get? v = some d' ∧ d'.unattached = d.unattached

theorem Outlives.trans {p : Store} (h : Outlives L k s p) (h' : Outlives L k p s') :
    Outlives L k s s' := by
  refine ⟨h'.settled, fun hu => h'.address (h.address hu), fun hd hm => ?_⟩
  obtain ⟨d', hd', heq⟩ := h.live hd hm
  obtain ⟨d'', hd'', heq'⟩ := h'.live hd' (Store.payload_of_unattached heq ▸ hm)
  exact ⟨d'', hd'', heq'.trans heq⟩

theorem AddressIfLive.settles {r r' : Location → Option NodeId} {p : Store}
    (h : AddressIfLive s c) (hr : s.core.Sound r) (hp : p.values = s.values)
    (hw : p.metadata.wrapperOf = s.metadata.wrapperOf) (hs : p.Settles s' r r') :
    AddressIfLive s' c := by
  intro d' hd'
  have hnot : ¬ p.IsEntered c := by
    intro hentered
    rw [Store.IsEntered, hw] at hentered
    obtain ⟨d, hd, hk⟩ := Store.IsEntered.kind hentered hr
    rw [Value.kind, h d hd] at hk
    cases hk
  have hval := hs.merged.value hnot
  rw [hd', hp, Option.map_some] at hval
  obtain ⟨d, hd, heq⟩ := Option.map_eq_some_iff.1 hval.symm
  have hpayload : d.unattached.payload = d'.unattached.payload := congrArg Value.payload heq
  exact hpayload.symm.trans (h d hd)

theorem settledIn_withConstants (h : s.SettledIn L k) (cs : Std.ExtTreeMap ConstantKey ValueId) :
    Store.SettledIn L k { s with constants := cs } :=
  ⟨h.settled.withConstants cs, h.layout, h.wrappers⟩

theorem outlives_withConstants (h : s.SettledIn L k) (cs : Std.ExtTreeMap ConstantKey ValueId) :
    Outlives L k s { s with constants := cs } :=
  ⟨settledIn_withConstants h cs, id, fun hd _ => ⟨_, hd, rfl⟩⟩

theorem ends_forgetConstant (h : s.SettledIn L k) {key : ConstantKey} :
    Ends (forgetConstant key c) s (fun _ s' => Outlives L k s s') fun _ _ => False := by
  rw [forgetConstant, ends_modify]
  split
  · exact outlives_withConstants h _
  · exact outlives_withConstants h s.constants

theorem ends_foldAddress (h : s.SettledIn L k) (hc : AddressIfLive s c) (hne : c ≠ new) :
    Ends (replaceWithin (k + 1) c new) s (fun _ s' => Outlives L k s s')
      fun x s' => x.IsOrdinary ∧ s'.SettledIn L k := by
  refine Ends.mono (ends_replaceStep (mergesWrappers_replaceWithin k) h.settled hne ?_ ?_
    h.wrappers) ?_ ?_
  · intro d hd
    have hget : s.core.values.get? c = some d.bare := by rw [Store.get?_core, hd]; rfl
    exact (h.settled.typed.values hget).not_isAddressable
      (.inr (Value.bare_payload_constant.2 (hc d hd)))
  · intro hentered
    obtain ⟨d, hd, hk⟩ := hentered.kind h.settled
    rw [Value.kind, hc d hd] at hk
    cases hk
  · rintro _ s' ⟨p, r', hp, hs', -, -⟩
    have h' := settledIn_of_uses h hp
    obtain ⟨g, rfl⟩ := hp.uses
    exact ⟨settledIn_of_settles h' hs', fun hu =>
      hu.settles (p := { s with uses := g }) h.settled rfl rfl hs',
      fun hd hm => hs'.merged.spares.value hd fun hk => hm (.inl hk)⟩
  · rintro _ _ ⟨hx, rfl, -⟩
    exact ⟨hx, h⟩

theorem ends_internBlockAddress (h : s.SettledIn L k) (hc : AddressIfLive s c)
    {before : ConstantKey} : Ends (internBlockAddress (replaceWithin (k + 1)) c before) s
      (fun _ s' => Outlives L k s s') fun x s' => x.IsOrdinary ∧ s'.SettledIn L k := by
  unfold internBlockAddress
  refine Ends.bind (Ends.weaken (ends_forgetConstant h) fun _ _ h => h) ?_
  intro _ p hp
  refine Query.regular_constantKey.ends_bind (fun _ hx => ⟨hx, hp.settled⟩) fun key _ => ?_
  split
  · rw [ends_bind, ends_get]
    split
    · exact hp.trans (outlives_withConstants hp.settled _)
    · split
      next hne =>
        refine Ends.bind ((ends_foldAddress hp.settled (hp.address hc) (Ne.symm hne)).mono
          (fun _ _ h => h) fun _ _ h => h) ?_
        intro _ q hq
        have hcq := hq.address (hp.address hc)
        refine ((ends_destroyAddress hq.settled hcq).and (regular_destroyValue.ends q)).mono ?_
          fun _ _ h => ⟨h.2, h.1⟩
        rintro _ s' ⟨⟨hs', hvalues⟩, -⟩
        have hget (v : ValueId) : s'.values.get? v = if c = v then none else q.values.get? v :=
          hvalues ▸ Arena.get?_erase ..
        refine hp.trans (hq.trans ⟨hs', fun {u} hu d hd => hu d ?_, fun {v d} hd hm => ?_⟩)
        · rw [hget] at hd
          split at hd
          · cases hd
          · exact hd
        · refine ⟨d, (hget v).trans (if_neg ?_ |>.trans hd), rfl⟩
          rintro rfl
          exact hm (.inr (hcq d hd))
      · exact hp.trans (outlives_withConstants hp.settled _)
  · exact hp

theorem ends_moveEdges (h : s.SettledIn L k) {es : List EdgeId} (hes : es.Nodup)
    (ht : ∀ e ∈ es, (s.uses.edge e).target = some old) (hne : old ≠ new)
    (hty : Query.expectSameType old new s = .ok ()) :
    Ends (moveEdges (replaceWithin (k + 1)) new es) s
      (fun _ s' => s'.SettledIn L k ∧ ∃ d, s'.values.get? new = some d)
      fun x s' => x.IsOrdinary ∧ s'.SettledIn L k := by
  obtain ⟨dold, dnew, hold, hnew, hty⟩ := Query.expectSameType_ok.1 hty
  rw [moveEdges_eq]
  refine Ends.bind ((ends_gather h.settled hes ht hne hold hnew hty).mono (fun _ _ h => h) ?_) ?_
  · rintro _ s' ⟨hx, ⟨rest, hs'⟩, -⟩
    exact ⟨hx, settledIn_of_uses h hs'⟩
  rintro noted p ⟨hp, hnoted⟩
  have hvalues : p.values = s.values := by
    obtain ⟨g, rfl⟩ := hp.uses
    rfl
  have hstart : Outlives L k p p := ⟨settledIn_of_uses h hp, id, fun hd _ => ⟨_, hd, rfl⟩⟩
  cases noted with
  | nil => exact ⟨hstart.settled, dnew, hvalues ▸ hnew⟩
  | cons c rest =>
  refine Ends.mono (ends_forM (E := fun x s' => x.IsOrdinary ∧ s'.SettledIn L k) (fun rest s' =>
    Outlives L k p s' ∧ ∀ c ∈ rest, AddressIfLive s' c.1) ?_ _ p ⟨hstart, fun c hc d hd => ?_⟩)
    ?_ fun _ _ h => h
  · rintro c rest s' ⟨hs', hrest⟩
    refine (ends_internBlockAddress hs'.settled (hrest c (List.mem_cons_self ..))).mono ?_
      fun _ _ h => h
    exact fun _ s'' hs'' => ⟨hs'.trans hs'', fun c' hc' =>
      hs''.address (hrest c' (List.mem_cons_of_mem _ hc'))⟩
  · obtain ⟨d', hd', ha⟩ := isBlockAddress_iff.1 (hnoted c hc).1
    rw [hvalues] at hd
    exact Option.some.inj (hd'.symm.trans hd) ▸ ha
  · rintro _ s' ⟨hs', -⟩
    have haddr := hty ▸ (hnoted c (List.mem_cons_self ..)).2
    obtain ⟨d, hd, -⟩ := hs'.live (hvalues ▸ hnew) (Store.not_isMergeable h.settled hnew haddr)
    exact ⟨hs'.settled, d, hd⟩

end Replacements

end Edit

def Store.SettledWith (L : Layout) (s : Store) : Prop := s.Settled ∧ s.layout = L

theorem Store.SettledWith.bounded {s : Store} {L : Layout} (h : s.SettledWith L) {k : Nat}
    (hk : s.values.size ≤ k) : s.SettledIn L k := by
  refine ⟨h.1, h.2, Nat.le_trans h.1.wrapperOf_size_le ?_⟩
  rwa [show s.core.values.size = s.values.size from Arena.size_map ..]

theorem Store.SettledIn.settledWith {s : Store} {L : Layout} {k : Nat} (h : s.SettledIn L k) :
    s.SettledWith L :=
  ⟨h.settled, h.layout⟩

theorem Metadata.Consistent.eraseTuple {md md' : Metadata} (h : md.Consistent) {n : NodeId}
    {d : Node} {ops : List (Option NodeId)} (hd : md.nodes.get? n = some d)
    (hc : d.content = .tuple ops) (hn : md'.nodes = md.nodes.erase n)
    (hi : ∀ m, md'.tracker.isReplaceable m ↔ n ≠ m ∧ md.tracker.isReplaceable m)
    (ho : md'.nodeOf = md.nodeOf) : md'.Consistent := by
  have hget (m : NodeId) : md'.nodes.get? m = if n = m then none else md.nodes.get? m :=
    hn ▸ Arena.get?_erase ..
  refine ⟨fun m => ?_, fun {m x v} hm hx => ?_, fun {m x} hm hx => ?_, fun v m => ?_⟩
  · rw [hi, h.replaceable, hget]
    by_cases hnm : n = m <;> simp [hnm]
  · rw [hget] at hm
    split at hm
    · cases hm
    · exact h.value hm hx
  · rw [hget] at hm
    split at hm
    · cases hm
    · exact h.temporary hm hx
  · rw [ho, h.nodeOf, hget]
    grind

theorem Core.Sound.eraseNode {c : Core} (h : c.Sound c.held) {md : Metadata} {n : NodeId}
    (hc : md.Consistent) (hn : md.nodes = c.metadata.nodes.erase n)
    (hh : md.handles = c.metadata.handles) (hw : md.wrapperOf = c.metadata.wrapperOf)
    (hf : md.tracker.Follows (setOperands n [] c.held)) :
    Sound { c with metadata := md } (held { c with metadata := md }) := by
  have hheld := (held_of_nodes c hn hh).trans (held_eraseNode c n)
  refine h.settle hc (by rwa [hheld]) hw fun l m hl => ?_
  rw [hheld] at hl
  rw [hn, Arena.size_erase]
  exact bound_setOperands (fun _ _ => h.recorded.bound) (by simp) l m hl

namespace Edit

variable {L : Layout} {old new : ValueId} {n m : NodeId}

section Bounded

variable {k : Nat}

/-- With so many wrappers entered, two replacements more may have to be active at a time: the one
that is called for, and one that folds a block address. -/
theorem safe_replaceWithin :
    Safe Fault.IsOrdinary (Store.SettledIn L k) (replaceWithin (k + 2) old new) := by
  intro s h
  change Ends (replaceStep (replaceWithin (k + 1)) old new) s _ _
  unfold replaceStep
  split
  · exact h
  next hne =>
    refine Query.regular_expectSameType.ends_bind (fun _ hx => ⟨hx, h⟩) fun u hu => ?_
    refine Query.regular_useList.ends_bind (fun _ hx => ⟨hx, h⟩) fun es hes => ?_
    obtain ⟨-, rfl⟩ := Query.useList_ok.1 hes
    refine Ends.bind (ends_moveEdges h (h.settled.graph.lists.nodup old)
      (fun e => (h.settled.graph.lists.mem old e).1) hne hu) ?_
    rintro _ p ⟨hp, hlive⟩
    refine Ends.weaken (ends_moveValueNode (mergesWrappers_replaceWithin (k + 1))
      hp.settled (Nat.le_succ_of_le hp.wrappers) hne hlive) ?_
    rintro _ s' ⟨⟨r', hs'⟩, -⟩
    exact settledIn_of_settles hp hs'

theorem pick_sublist {α σ : Type} (ask : σ → α → Bool × σ) (st : σ) (xs : List α) :
    (pick ask st xs).1.Sublist xs := by
  induction xs generalizing st with
  | nil => exact .slnil
  | cons x xs ih =>
    have hrest := ih (ask st x).2
    change List.Sublist (if (ask st x).1 then x :: (pick ask (ask st x).2 xs).1 else _) _
    split
    · exact hrest.cons_cons x
    · exact hrest.cons x

/-- Moving the accepted uses with so many replacements active at a time. -/
def replaceUsesIfWithin {σ : Type} (depth : Nat) (old new : ValueId) (ask : σ → Use → Bool × σ)
    (st : σ) : Edit (Nat × σ) := do
  if old = new then return (0, st)
  Query.expectSameType old new
  let es ← Query.useList old
  let use := (← get).uses.use
  let picked := pick (fun st e => ask st (use e)) st es
  moveEdges (replaceWithin depth) new picked.1
  return (picked.1.length, picked.2)

variable {σ : Type} {ask : σ → Use → Bool × σ} {st : σ}

theorem replaceUsesIf_eq (s : Store) : replaceUsesIf old new ask st s =
    replaceUsesIfWithin (nestingBound s) old new ask st s := by
  unfold replaceUsesIf replaceUsesIfWithin
  split
  · rfl
  · refine lift_congr fun _ => lift_congr fun es => ?_
    rw [get_apply, get_apply, get_apply]

theorem safe_replaceUsesIfWithin :
    Safe Fault.IsOrdinary (Store.SettledIn L k) (replaceUsesIfWithin (k + 1) old new ask st) := by
  intro s h
  unfold replaceUsesIfWithin
  split
  · exact h
  next hne =>
    refine Query.regular_expectSameType.ends_bind (fun _ hx => ⟨hx, h⟩) fun u hu => ?_
    refine Query.regular_useList.ends_bind (fun _ hx => ⟨hx, h⟩) fun es hes => ?_
    obtain ⟨-, rfl⟩ := Query.useList_ok.1 hes
    rw [ends_bind, ends_get]
    have hsub := pick_sublist (fun st e => ask st (s.uses.use e)) st (s.uses.useList old)
    exact Ends.bind (ends_moveEdges h ((h.settled.graph.lists.nodup old).sublist hsub)
      (fun e he => (h.settled.graph.lists.mem old e).1 (hsub.subset he)) hne hu)
      fun _ s' hs' => hs'.1

theorem safe_replaceNodeStep :
    Safe Fault.IsOrdinary (Store.SettledIn L k) (replaceNodeStep (replaceWithin k) n m) := by
  intro s h
  refine (ends_replaceNodeStep (mergesWrappers_replaceWithin k) h.settled h.wrappers).mono ?_ ?_
  · rintro _ s' ⟨r', hs'⟩
    exact settledIn_of_settles h hs'
  · rintro _ _ ⟨hx, rfl, -⟩
    exact ⟨hx, h⟩

theorem Safe.of_bounded {α : Type} {e : Edit α} {s : Store}
    (he : Safe Fault.IsOrdinary (Store.SettledIn L k) e) (hs : s.SettledWith L)
    (hk : s.values.size ≤ k) : Ends e s (fun _ => Store.SettledWith L)
      fun x s' => x.IsOrdinary ∧ s'.SettledWith L :=
  (he s (hs.bounded hk)).mono (fun _ _ h => h.settledWith) fun _ _ h => ⟨h.1, h.2.settledWith⟩

theorem safe_replaceAllUses :
    Safe Fault.IsOrdinary (Store.SettledWith L) (replaceAllUses old new) := by
  intro s hs
  unfold replaceAllUses
  rw [ends_bind, ends_get]
  exact safe_replaceWithin.of_bounded hs (Nat.le_refl _)

theorem safe_replaceUsesIf :
    Safe Fault.IsOrdinary (Store.SettledWith L) (replaceUsesIf old new ask st) := by
  intro s hs
  rw [Ends, replaceUsesIf_eq]
  exact safe_replaceUsesIfWithin.of_bounded hs (Nat.le_succ _)

theorem safe_replaceNode : Safe Fault.IsOrdinary (Store.SettledWith L) (replaceNode n m) := by
  intro s hs
  unfold replaceNode
  rw [ends_bind, ends_get]
  exact safe_replaceNodeStep.of_bounded hs (Nat.le_add_right _ 2)

end Bounded

section Temporaries

theorem keeps_eraseTemporary : Keeps (Store.SettledWith L) (eraseTemporary n) := by
  intro s hs
  refine ends_bind.2 (ends_lift.2 ⟨fun u hu => ?_, fun _ _ => hs⟩)
  obtain ⟨d, hd, hstorage⟩ := Query.expectTemporary_ok.1 hu
  obtain ⟨ops, hc⟩ := hs.1.consistent.temporary hd hstorage
  have hself := setOperands_held hd hc
  rw [ends_bind, ends_get]
  dsimp only
  split
  · exact hs
  · rw [untrackOperands, bind_assoc, ends_bind,
      ends_lift_ok (Query.nodeOperands_ok.2 ⟨d, hd, rfl⟩), ends_bind, hc]
    refine Ends.mono (E := fun _ _ => False) (ends_untrackOperands (r := s.core.held)
      (hself.symm ▸ hs.1.recorded.follows)) ?_ (fun _ _ hf => hf.elim)
    rintro _ _ ⟨t, rfl, ht, hi⟩
    rw [ends_modify]
    refine ⟨?_, hs.2⟩
    exact hs.1.eraseNode (hs.1.consistent.eraseTuple hd hc rfl
      (fun m => Tracker.isReplaceable_resolve.trans (and_congr_right fun _ => hi m)) rfl) rfl rfl rfl
      (ht.resolve n)

theorem settledWith_withUniqued {s : Store} (hs : s.SettledWith L)
    (u : Std.ExtTreeMap Content NodeId) :
    (s.modifyMetadata fun md => { md with uniqued := u }).SettledWith L :=
  ⟨hs.1.settle (hs.1.consistent.congr rfl rfl fun _ => Iff.rfl) hs.1.recorded.follows rfl
    fun _ _ hl => hs.1.recorded.bound hl, hs.2⟩

theorem ends_settle {s : Store} {d : Node} (hs : s.SettledWith L)
    (hd : s.metadata.nodes.get? n = some d) (ht : d.storage = .temporary) {storage : Storage}
    (hne : storage ≠ .temporary) : Ends (settle n storage) s (fun _ s' => s'.SettledWith L)
      fun _ _ => False := by
  obtain ⟨ops, hc⟩ := hs.1.consistent.temporary hd ht
  unfold settle
  rw [ends_bind, ends_modifyNode hd, ends_bind, ends_get, setTracker, ends_modify]
  refine ⟨?_, hs.2⟩
  refine hs.1.modifyNode (f := fun d => { d with storage := storage }) ?_ hd rfl rfl rfl ?_ ?_
  · refine hs.1.consistent.modify (f := fun d => { d with storage := storage }) hd rfl (fun m => ?_)
      (fun _ => Iff.rfl) (by simp [hc]) (fun _ => ⟨ops, hc⟩) rfl
    refine Tracker.isReplaceable_resolve.trans ?_
    by_cases hnm : n = m
    · simp [hnm, Node.IsReplaceable, hc, hne]
    · simp only [hnm, ne_eq, not_false_eq_true, true_and, if_false]
      exact Iff.rfl
  · rw [setOperands_eq_self fun i => held_operand s.core hd i]
    exact hs.1.recorded.follows.resolve n
  · intro m hm
    obtain ⟨i, hi⟩ := List.mem_iff_getElem?.1 hm
    exact hs.1.recorded.bound (l := .operand n i) (by rw [held_operand s.core hd, hi]; rfl)

theorem keeps_replaceWithUniqued : Keeps (Store.SettledWith L) (replaceWithUniqued n) := by
  intro s hs
  refine ends_bind.2 (ends_lift.2 ⟨fun u hu => ?_, fun _ _ => hs⟩)
  obtain ⟨d, hd, hstorage⟩ := Query.expectTemporary_ok.1 hu
  rw [ends_bind, ends_lift_ok (Query.node_ok.2 hd), ends_bind, ends_get]
  split
  · exact Keeps.bind safe_replaceNode.keeps (fun _ => .bind keeps_eraseTemporary fun _ => .pure _) s hs
  · refine Ends.bind (Ends.weaken (ends_settle hs hd hstorage (by simp)) fun _ _ h => h) ?_
    intro _ s' hs'
    exact settledWith_withUniqued hs' _

theorem keeps_replaceWithDistinct : Keeps (Store.SettledWith L) (replaceWithDistinct n) := by
  intro s hs
  refine ends_bind.2 (ends_lift.2 ⟨fun u hu => ?_, fun _ _ => hs⟩)
  obtain ⟨d, hd, hstorage⟩ := Query.expectTemporary_ok.1 hu
  exact Ends.bind (Ends.weaken (ends_settle hs hd hstorage (by simp)) fun _ _ h => h)
    fun _ _ hs' => hs'

end Temporaries

end Edit

end ShaderIR
