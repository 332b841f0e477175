import ShaderIR.Proofs.UseLists

/-! Who owns an edge. Every edge is behind one operand slot of a live value or waits to be used
again, and it points at nothing or at a live value. -/

namespace ShaderIR.UseGraph

/-- The use lists are spelled out by the links, and slots and released edges share the edges. -/
structure Sound (g : UseGraph) (live : ValueId → Prop) : Prop where
  lists : g.Lists g.useList
  slot : ∀ {v i e}, (g.slotsOf v)[i]? = some e →
    e.index < g.edges.size ∧ (g.edge e).user = v ∧ (g.edge e).slot = i
  slot_live : ∀ {v e}, e ∈ g.slotsOf v → live v
  owned : ∀ e : EdgeId, e.index < g.edges.size → e ∈ g.free ∨ ∃ v, e ∈ g.slotsOf v
  free_nodup : g.free.Nodup
  free : ∀ e ∈ g.free, e.index < g.edges.size ∧ (g.edge e).target = none ∧
    ∀ v, e ∉ g.slotsOf v
  target_live : ∀ {e t}, (g.edge e).target = some t → live t

theorem sound_empty (live : ValueId → Prop) : Sound {} live := by
  have hedge (e : EdgeId) : (({} : UseGraph).edge e).target = none := rfl
  have hslots (v : ValueId) : ({} : UseGraph).slotsOf v = [] := by
    simp [slotsOf]
  have hhead (v : ValueId) : ({} : UseGraph).head? v = none := by
    simp [head?]
  constructor
  · refine ⟨fun v => ⟨hhead v, fun as e bs h => ?_⟩, fun v => List.nodup_nil, fun v e => ?_⟩
    · cases as <;> cases h
    · simp [hedge, useList, chain]
  all_goals simp [hslots, hedge]

namespace Sound

variable {g : UseGraph} {live live' : ValueId → Prop}

theorem mono (h : g.Sound live) (hl : ∀ v, live v → live' v) : g.Sound live' :=
  { h with
    slot_live := fun he => hl _ (h.slot_live he)
    target_live := fun he => hl _ (h.target_live he) }

theorem restrict (h : g.Sound live) (hl : ∀ v, live v → live' v ∨ g.slotsOf v = [] ∧
    g.useList v = []) : g.Sound live' :=
  { h with
    slot_live := fun {v e} he => (hl v (h.slot_live he)).resolve_right fun hv => by
      simp [hv.1] at he
    target_live := fun {e t} he => (hl t (h.target_live he)).resolve_right fun ht => by
      simpa [ht.2] using (h.lists.mem t e).2 he }

theorem mem_slots (h : g.Sound live) {v : ValueId} {e : EdgeId} (he : e ∈ g.slotsOf v) :
    e.index < g.edges.size ∧ (g.edge e).user = v ∧ (g.slotsOf v)[(g.edge e).slot]? = some e := by
  obtain ⟨i, hi⟩ := List.mem_iff_getElem?.1 he
  obtain ⟨hlt, hu, hs⟩ := h.slot hi
  exact ⟨hlt, hu, hs ▸ hi⟩

theorem slots_nodup (h : g.Sound live) (v : ValueId) : (g.slotsOf v).Nodup := by
  refine List.nodup_iff_getElem?_ne_getElem?.2 fun i j hij hj heq => ?_
  obtain ⟨e, he⟩ : ∃ e, (g.slotsOf v)[j]? = some e := ⟨_, List.getElem?_eq_getElem hj⟩
  have hi := (h.slot (heq.trans he)).2.2
  have hj := (h.slot he).2.2
  omega

theorem slot_of_target (h : g.Sound live) {e : EdgeId} {t : ValueId}
    (ht : (g.edge e).target = some t) :
    live (g.edge e).user ∧ (g.slotsOf (g.edge e).user)[(g.edge e).slot]? = some e := by
  obtain hf | ⟨v, hv⟩ := h.owned e (index_lt_of_target ht)
  · rw [(h.free e hf).2.1] at ht
    cases ht
  · obtain ⟨-, hu, hs⟩ := h.mem_slots hv
    exact ⟨hu ▸ h.slot_live hv, hu ▸ hs⟩

theorem mem_uses (h : g.Sound live) {v : ValueId} {u : Use} :
    u ∈ (g.useList v).map g.use ↔
      ∃ e, (g.slotsOf u.user)[u.slot]? = some e ∧ (g.edge e).target = some v := by
  constructor
  · intro hu
    obtain ⟨e, he, rfl⟩ := List.mem_map.1 hu
    have ht := (h.lists.mem v e).1 he
    exact ⟨e, (h.slot_of_target ht).2, ht⟩
  · rintro ⟨e, he, ht⟩
    obtain ⟨-, hu, hs⟩ := h.slot he
    exact List.mem_map.2 ⟨e, (h.lists.mem v e).2 ht, by cases u; simp_all [use]⟩

theorem uses_nodup (h : g.Sound live) (v : ValueId) : ((g.useList v).map g.use).Nodup := by
  refine List.Nodup.map_on (fun e he e' he' hee' => ?_) (h.lists.nodup v)
  have hs := (h.slot_of_target ((h.lists.mem v e).1 he)).2
  have hs' := (h.slot_of_target ((h.lists.mem v e').1 he')).2
  obtain ⟨hu, hi⟩ := Use.mk.inj hee'
  rw [hu, hi, hs'] at hs
  exact (Option.some.inj hs).symm

theorem of_sameSlots {g' : UseGraph} (h : g.Sound live) (hs : SameSlots g g')
    {L : ValueId → List EdgeId} (hl : g'.Lists L)
    (ht : ∀ {e t}, (g'.edge e).target = some t → live t)
    (hf : ∀ e ∈ g.free, (g'.edge e).target = none) : g'.Sound live where
  lists := hl.useList_eq ▸ hl
  slot he := by
    rw [hs.slotsOf] at he
    rw [hs.size, hs.user, hs.slot]
    exact h.slot he
  slot_live he := h.slot_live (hs.slotsOf _ ▸ he)
  owned e he := by
    simp only [hs.free, hs.slotsOf]
    exact h.owned e (hs.size ▸ he)
  free_nodup := hs.free ▸ h.free_nodup
  free e he := by
    rw [hs.free] at he
    simp only [hs.size, hs.slotsOf]
    exact ⟨(h.free e he).1, hf e he, (h.free e he).2.2⟩
  target_live := ht

theorem useList_unlink (h : g.Sound live) (e : EdgeId) (v : ValueId) :
    (g.unlink e).useList v = (g.useList v).erase e :=
  (h.lists.unlink e).useList_apply v

theorem target_unlink (h : g.Sound live) (e x : EdgeId) :
    ((g.unlink e).edge x).target = if x = e then none else (g.edge x).target := by
  have hm (v : ValueId) : ((g.unlink e).edge x).target = some v ↔
      x ≠ e ∧ (g.edge x).target = some v := by
    rw [← (h.lists.unlink e).mem, (h.lists.nodup v).mem_erase_iff, h.lists.mem]
  refine Option.ext fun v => ?_
  rw [hm]
  split <;> simp_all

theorem unlink (h : g.Sound live) (e : EdgeId) : (g.unlink e).Sound live := by
  refine h.of_sameSlots (sameSlots_unlink g e) (h.lists.unlink e) (fun {x t} ht => ?_)
    fun x hx => ?_
  · rw [h.target_unlink] at ht
    split at ht
    · cases ht
    · exact h.target_live ht
  · rw [h.target_unlink, (h.free x hx).2.1, ite_self]

theorem useList_link (h : g.Sound live) {e : EdgeId} (he : e.index < g.edges.size)
    (hn : (g.edge e).target = none) (t v : ValueId) :
    (g.link e t).useList v = if t = v then e :: g.useList v else g.useList v :=
  (h.lists.link he hn t).useList_apply v

theorem target_link (h : g.Sound live) {e : EdgeId} (he : e.index < g.edges.size)
    (hn : (g.edge e).target = none) (t : ValueId) (x : EdgeId) :
    ((g.link e t).edge x).target = if x = e then some t else (g.edge x).target := by
  refine Option.ext fun v => ?_
  rw [← (h.lists.link he hn t).mem]
  have hm := h.lists.mem v x
  grind

theorem link (h : g.Sound live) {u : ValueId} {e : EdgeId} (he : e ∈ g.slotsOf u)
    (hn : (g.edge e).target = none) {t : ValueId} (ht : live t) : (g.link e t).Sound live := by
  have hlt := (h.mem_slots he).1
  refine h.of_sameSlots (sameSlots_link g e t) (h.lists.link hlt hn t) (fun {x w} hw => ?_)
    fun x hx => ?_
  · rw [h.target_link hlt hn] at hw
    split at hw
    · exact Option.some.inj hw ▸ ht
    · exact h.target_live hw
  · have hxe : x ≠ e := fun hxe => (h.free x hx).2.2 u (hxe ▸ he)
    rw [h.target_link hlt hn, if_neg hxe, (h.free x hx).2.1]

section AddSlot

variable {user : ValueId}

structure Allocated (g : UseGraph) (d : Edge) (e : EdgeId) (g' : UseGraph) : Prop where
  edge : ∀ x, g'.edge x = if x = e then d else g.edge x
  fresh : ∀ v, e ∉ g.slotsOf v
  target : (g.edge e).target = none
  head? : ∀ v, g'.head? v = g.head? v
  slotsOf : ∀ v, g'.slotsOf v = g.slotsOf v
  size : ∀ x : EdgeId, x.index < g'.edges.size ↔ x = e ∨ x.index < g.edges.size
  free : ∀ x, x ∈ g'.free ↔ x ∈ g.free ∧ x ≠ e
  free_nodup : g'.free.Nodup

theorem allocated (h : g.Sound live) (d : Edge) :
    Allocated g d (g.allocate d).1 (g.allocate d).2 := by
  unfold allocate
  have hd := h.free_nodup
  split
  next e rest hf =>
    rw [hf, List.nodup_cons] at hd
    obtain ⟨hlt, htarget, hfresh⟩ := h.free e (by simp [hf])
    refine ⟨fun x => ?_, hfresh, htarget, fun _ => rfl, fun _ => rfl, fun x => ?_, fun x => ?_, hd.2⟩
    · obtain ⟨n⟩ := e
      obtain ⟨m⟩ := x
      simp only [UseGraph.edge, Array.getElem?_setIfInBounds, Index.mk.injEq]
      grind
    · simp only [Array.size_setIfInBounds]
      grind
    · simp only [hf]
      grind
  next hf =>
    refine ⟨fun x => ?_, fun v hv => ?_, ?_, fun _ => rfl, fun _ => rfl, fun x => ?_, fun x => ?_, hd⟩
    · obtain ⟨m⟩ := x
      simp only [UseGraph.edge, Array.getElem?_push, Index.mk.injEq]
      grind
    · exact absurd (h.mem_slots hv).1 (Nat.lt_irrefl _)
    · exact Option.eq_none_iff_forall_ne_some.2 fun v hv =>
        Nat.lt_irrefl _ (index_lt_of_target hv)
    · obtain ⟨m⟩ := x
      simp only [Array.size_push, Index.mk.injEq]
      omega
    · simp [hf]

theorem slotsOf_addSlot (h : g.Sound live) (v : ValueId) : (g.addSlot user).2.slotsOf v =
    if user = v then g.slotsOf user ++ [(g.addSlot user).1] else g.slotsOf v := by
  have ha := h.allocated { user := user, slot := (g.slotsOf user).length }
  simp only [UseGraph.addSlot, slotsOf_setSlots, ha.slotsOf]

theorem edge_addSlot (h : g.Sound live) (x : EdgeId) : (g.addSlot user).2.edge x =
    if x = (g.addSlot user).1 then { user := user, slot := (g.slotsOf user).length }
    else g.edge x :=
  (h.allocated { user := user, slot := (g.slotsOf user).length }).edge x

theorem target_addSlot (h : g.Sound live) (x : EdgeId) :
    ((g.addSlot user).2.edge x).target = (g.edge x).target := by
  rw [h.edge_addSlot]
  split
  next hx =>
    rw [hx]
    exact (h.allocated { user := user, slot := (g.slotsOf user).length }).target.symm
  next => rfl

theorem lists_addSlot (h : g.Sound live) : (g.addSlot user).2.Lists g.useList := by
  have ha := h.allocated { user := user, slot := (g.slotsOf user).length }
  refine ⟨fun v => ⟨?_, fun as x bs hs => ?_⟩, h.lists.nodup, fun v x => ?_⟩
  · rw [← (h.lists.linked v).1]
    exact ha.head? v
  · have hx : x ≠ (g.addSlot user).1 := fun hx => by
      have := (h.lists.mem v x).1 (by simp [hs])
      rw [hx] at this
      exact absurd this (by simp [show (g.edge (g.addSlot user).1).target = none from ha.target])
    rw [h.edge_addSlot, if_neg hx]
    exact (h.lists.linked v).2 as x bs hs
  · rw [h.target_addSlot, h.lists.mem]

theorem useList_addSlot (h : g.Sound live) : (g.addSlot user).2.useList = g.useList :=
  h.lists_addSlot.useList_eq

theorem addSlot (h : g.Sound live) (hu : live user) : (g.addSlot user).2.Sound live := by
  have ha := h.allocated { user := user, slot := (g.slotsOf user).length }
  have hfree : (g.addSlot user).2.free = (g.allocate
    { user := user, slot := (g.slotsOf user).length }).2.free := rfl
  have hsize : (g.addSlot user).2.edges = (g.allocate
    { user := user, slot := (g.slotsOf user).length }).2.edges := rfl
  have he : (g.addSlot user).1 = (g.allocate
    { user := user, slot := (g.slotsOf user).length }).1 := rfl
  have hmem (v : ValueId) (x : EdgeId) : x ∈ (g.addSlot user).2.slotsOf v ↔
      x ∈ g.slotsOf v ∨ user = v ∧ x = (g.addSlot user).1 := by
    rw [h.slotsOf_addSlot]
    grind
  constructor
  · exact h.useList_addSlot ▸ h.lists_addSlot
  · intro v i x hx
    rw [h.slotsOf_addSlot] at hx
    rw [hsize, ha.size, h.edge_addSlot]
    split at hx
    next hv =>
      subst hv
      rw [List.getElem?_append] at hx
      split at hx
      next hlt =>
        have hxe : x ≠ (g.addSlot user).1 := fun hxe =>
          ha.fresh user (hxe ▸ List.mem_of_getElem? hx)
        rw [if_neg hxe]
        exact ⟨.inr (h.slot hx).1, (h.slot hx).2⟩
      next hle =>
        rw [List.getElem?_singleton] at hx
        grind
    next hv =>
      have hxe : x ≠ (g.addSlot user).1 := fun hxe => ha.fresh v (hxe ▸ List.mem_of_getElem? hx)
      rw [if_neg hxe]
      exact ⟨.inr (h.slot hx).1, (h.slot hx).2⟩
  · intro v x hx
    obtain hx | ⟨rfl, -⟩ := (hmem v x).1 hx
    · exact h.slot_live hx
    · exact hu
  · intro x hx
    rw [hsize, ha.size] at hx
    rw [hfree, ha.free]
    by_cases hxe : x = (g.addSlot user).1
    · exact .inr ⟨user, (hmem user x).2 (.inr ⟨rfl, hxe⟩)⟩
    · obtain hf | ⟨v, hv⟩ := h.owned x (hx.resolve_left hxe)
      · exact .inl ⟨hf, hxe⟩
      · exact .inr ⟨v, (hmem v x).2 (.inl hv)⟩
  · exact ha.free_nodup
  · intro x hx
    rw [hfree, ha.free] at hx
    obtain ⟨hlt, htarget, hslots⟩ := h.free x hx.1
    refine ⟨by rw [hsize, ha.size]; exact .inr hlt, by rw [h.target_addSlot, htarget], ?_⟩
    intro v hv
    obtain hv | ⟨-, hv⟩ := (hmem v x).1 hv
    · exact hslots v hv
    · exact hx.2 hv
  · intro x t ht
    rw [h.target_addSlot] at ht
    exact h.target_live ht

end AddSlot

section ClearSlots

variable {L : ValueId → List EdgeId} {user : ValueId}

theorem lists_release (h : g.Lists L) (es : List EdgeId) :
    (es.foldl release g).Lists fun v => (L v).filter (· ∉ es) := by
  induction es generalizing g L with
  | nil => simpa using h
  | cons e es ih =>
    have hu := h.unlink e
    have hr : (g.release e).Lists fun v => (L v).erase e := ⟨hu.linked, hu.nodup, hu.mem⟩
    have hf : (fun v => (L v).filter (· ∉ e :: es)) =
        fun v => ((L v).erase e).filter (· ∉ es) := by
      funext v
      rw [(h.nodup v).erase_eq_filter, List.filter_filter]
      refine List.filter_congr fun x _ => ?_
      by_cases hx : x = e <;> simp [hx]
    rw [List.foldl_cons, hf]
    exact ih hr

theorem release_foldl (g : UseGraph) (es : List EdgeId) :
    let g' := es.foldl release g
    g'.edges.size = g.edges.size ∧ g'.free = es.reverse ++ g.free ∧
      (∀ v, g'.slotsOf v = g.slotsOf v) ∧
      ∀ x, (g'.edge x).user = (g.edge x).user ∧ (g'.edge x).slot = (g.edge x).slot := by
  induction es generalizing g with
  | nil => simp
  | cons e es ih =>
    have hs := sameSlots_unlink g e
    obtain ⟨hsize, hfree, hslots, hedge⟩ := ih (g.release e)
    refine ⟨hsize.trans hs.size, ?_, fun v => (hslots v).trans (hs.slotsOf v), fun x => ?_⟩
    · rw [List.foldl_cons, hfree]
      simp [release, hs.free]
    · exact ⟨(hedge x).1.trans (hs.user x), (hedge x).2.trans (hs.slot x)⟩

theorem slotsOf_clearSlots (g : UseGraph) (user v : ValueId) :
    (g.clearSlots user).slotsOf v = if user = v then [] else g.slotsOf v := by
  rw [clearSlots, (release_foldl _ _).2.2.1]
  simp only [slotsOf, getElem?_erase_eq_ite]
  split <;> rfl

theorem lists_clearSlots (h : g.Sound live) :
    (g.clearSlots user).Lists fun v => (g.useList v).filter (· ∉ g.slotsOf user) := by
  refine lists_release (g := { g with slots := g.slots.erase user }) ?_ _
  exact ⟨h.lists.linked, h.lists.nodup, h.lists.mem⟩

theorem useList_clearSlots (h : g.Sound live) (v : ValueId) :
    (g.clearSlots user).useList v = (g.useList v).filter (· ∉ g.slotsOf user) :=
  h.lists_clearSlots.useList_apply v

theorem target_clearSlots (h : g.Sound live) (x : EdgeId) : ((g.clearSlots user).edge x).target =
    if x ∈ g.slotsOf user then none else (g.edge x).target := by
  refine Option.ext fun v => ?_
  rw [← h.lists_clearSlots.mem, List.mem_filter, h.lists.mem]
  split <;> simp_all

theorem clearSlots (h : g.Sound live) : (g.clearSlots user).Sound live := by
  obtain ⟨hsize, hfree, -, hedge⟩ :=
    release_foldl { g with slots := g.slots.erase user } (g.slotsOf user)
  replace hsize : (g.clearSlots user).edges.size = g.edges.size := hsize
  replace hfree : (g.clearSlots user).free = (g.slotsOf user).reverse ++ g.free := hfree
  constructor
  · exact h.lists_clearSlots.useList_eq ▸ h.lists_clearSlots
  · intro v i e he
    rw [slotsOf_clearSlots] at he
    split at he
    · simp at he
    · exact ⟨hsize ▸ (h.slot he).1, (hedge e).1.trans (h.slot he).2.1,
        (hedge e).2.trans (h.slot he).2.2⟩
  · intro v e he
    rw [slotsOf_clearSlots] at he
    split at he
    · simp at he
    · exact h.slot_live he
  · intro e he
    rw [hfree]
    obtain hf | ⟨v, hv⟩ := h.owned e (hsize ▸ he)
    · exact .inl (List.mem_append_right _ hf)
    · by_cases huv : user = v
      · exact .inl (by simp [huv, hv])
      · exact .inr ⟨v, by rwa [slotsOf_clearSlots, if_neg huv]⟩
  · rw [hfree]
    refine List.Nodup.append (List.nodup_reverse.2 (h.slots_nodup user)) h.free_nodup ?_
    exact fun e he hf => (h.free e hf).2.2 user (List.mem_reverse.1 he)
  · intro e he
    rw [hfree, List.mem_append, List.mem_reverse] at he
    rw [hsize, h.target_clearSlots]
    obtain he | he := he
    · refine ⟨(h.mem_slots he).1, if_pos he, fun v hv => ?_⟩
      rw [slotsOf_clearSlots] at hv
      split at hv
      · simp at hv
      next huv => exact huv ((h.mem_slots he).2.1.symm.trans (h.mem_slots hv).2.1)
    · obtain ⟨hlt, htarget, hslots⟩ := h.free e he
      refine ⟨hlt, by rw [if_neg (hslots user), htarget], fun v hv => ?_⟩
      rw [slotsOf_clearSlots] at hv
      split at hv
      · simp at hv
      · exact hslots v hv
  · intro e t ht
    rw [h.target_clearSlots] at ht
    split at ht
    · cases ht
    · exact h.target_live ht

end ClearSlots

end Sound

end ShaderIR.UseGraph
