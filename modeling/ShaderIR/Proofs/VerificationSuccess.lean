import ShaderIR.Proofs.Reachable
import ShaderIR.Proofs.ValuePlaces

/-! A settled store with a consistent layout passes its verification: each check finds nothing,
because it asks for less than what the two halves of the invariant say. -/

namespace ShaderIR.Store

variable {s : Store} {v : ValueId} {d : Value}

section Uses

theorem nodup_liveValues (s : Store) : s.liveValues.Nodup := by
  have hmap : s.liveValues = s.values.indices.filter fun v => (s.values.get? v).isSome := by
    rw [liveValues, Arena.toList, List.map_filterMap, ← List.filterMap_eq_filter]
    refine List.filterMap_congr fun v _ => ?_
    cases hv : s.values.get? v <;> simp [hv, Option.guard]
  rw [hmap]
  refine List.Nodup.filter _ (List.Nodup.map ?_ List.nodup_range)
  exact fun i j hij => Index.mk.inj hij

theorem mem_liveValues : v ∈ s.liveValues ↔ s.isLive v := by
  rw [isLive, Option.isSome_iff_exists, liveValues, List.mem_map]
  constructor
  · rintro ⟨⟨v, d⟩, hd, rfl⟩
    exact ⟨d, Arena.mem_toList.1 hd⟩
  · rintro ⟨d, hd⟩
    exact ⟨(v, d), Arena.mem_toList.2 hd, rfl⟩

theorem walk_of_linked {head : Option EdgeId} {es : List EdgeId} (hl : s.uses.Linked head es)
    (ht : ∀ e ∈ es, (s.uses.edge e).target = some v) {as bs : List EdgeId} (hs : es = as ++ bs)
    {n : Nat} (hn : bs.length ≤ n) (listed : Nat) :
    s.walk v n listed as.getLast? bs.head? = ([], listed + bs.length) := by
  induction bs generalizing as n listed with
  | nil => cases n <;> rfl
  | cons e bs ih =>
    obtain ⟨m, rfl⟩ : ∃ m, n = m + 1 := ⟨n - 1, by simp only [List.length_cons] at hn; omega⟩
    obtain ⟨hprev, hnext⟩ := hl.2 as e bs hs
    have htarget : (s.uses.edge e).target = some v := ht e (by simp [hs])
    have hs' : es = as ++ [e] ++ bs := by simp [hs]
    have hrest := ih hs' (Nat.le_of_succ_le_succ hn) (listed + 1)
    rw [List.getLast?_append_of_ne_nil _ (List.cons_ne_nil e []), List.getLast?_singleton] at hrest
    simp only [List.head?_cons, walk, hprev, hnext, hrest, htarget, ne_eq, not_true_eq_false,
      if_false, if_true, List.nil_append, List.length_cons, Prod.mk.injEq, true_and]
    omega

variable (hg : s.uses.Sound fun v => s.isLive v)
include hg

theorem mem_liveSlots {user : ValueId} {slot : Nat} {e : EdgeId} :
    (user, slot, e) ∈ s.liveSlots ↔ (s.uses.slotsOf user)[slot]? = some e := by
  simp only [liveSlots, List.mem_flatMap, List.mem_map, Prod.mk.injEq, mem_liveValues]
  constructor
  · rintro ⟨v, -, ⟨e', i⟩, he, rfl, rfl, rfl⟩
    exact List.mem_zipIdx_iff_getElem?.1 he
  · intro he
    exact ⟨user, hg.slot_live (List.mem_of_getElem? he), (e, slot),
      List.mem_zipIdx_iff_getElem?.2 he, rfl, rfl, rfl⟩

theorem nodup_liveSlots : (s.liveSlots.map fun x => x.2.2).Nodup := by
  have hmap : (s.liveSlots.map fun x => x.2.2) = s.liveValues.flatMap s.uses.slotsOf := by
    rw [liveSlots, List.map_flatMap]
    refine List.flatMap_congr fun v _ => ?_
    rw [List.map_map]
    exact List.zipIdx_map_fst ..
  rw [hmap, List.nodup_flatMap]
  refine ⟨fun v _ => hg.slots_nodup v, (nodup_liveValues s).imp fun {v w} hvw => ?_⟩
  intro e hv hw
  exact hvw ((hg.mem_slots hv).2.1.symm.trans (hg.mem_slots hw).2.1)

theorem slotsAt_eq_length (v : ValueId) : s.slotsAt v = (s.uses.useList v).length := by
  have hnodup : ((s.liveSlots.filter fun x => (s.uses.edge x.2.2).target = some v).map
      fun x => x.2.2).Nodup :=
    (nodup_liveSlots hg).sublist (List.filter_sublist.map _)
  have hperm : ((s.liveSlots.filter fun x => (s.uses.edge x.2.2).target = some v).map
      fun x => x.2.2).Perm (s.uses.useList v) := by
    refine (List.perm_ext_iff_of_nodup hnodup (hg.lists.nodup v)).2 fun e => ?_
    rw [hg.lists.mem, List.mem_map]
    constructor
    · rintro ⟨x, hx, rfl⟩
      exact of_decide_eq_true (List.mem_filter.1 hx).2
    · intro ht
      have he := (mem_liveSlots hg).2 (hg.slot_of_target ht).2
      exact ⟨_, List.mem_filter.2 ⟨he, decide_eq_true ht⟩, rfl⟩
  rw [slotsAt, ← hperm.length_eq, List.length_map]

theorem useListDefects_eq_nil (v : ValueId) : s.useListDefects v = [] := by
  have hlinked := hg.lists.linked v
  have htarget (e : EdgeId) (he : e ∈ s.uses.useList v) : (s.uses.edge e).target = some v :=
    (hg.lists.mem v e).1 he
  have hwalk := walk_of_linked hlinked htarget (List.nil_append _).symm
    (Nat.le_succ_of_le (hg.lists.length_le v)) 0
  rw [List.getLast?_nil, ← hlinked.1, Nat.zero_add] at hwalk
  simp [useListDefects, hwalk, slotsAt_eq_length hg]

theorem slotDefects_eq_nil {user : ValueId} {slot : Nat} {e : EdgeId}
    (he : (user, slot, e) ∈ s.liveSlots) : s.slotDefects user slot e = [] := by
  obtain ⟨-, huser, hslot⟩ := hg.slot ((mem_liveSlots hg).1 he)
  have htarget {t : ValueId} (ht : (s.uses.edge e).target = some t) : s.isLive t = true :=
    hg.target_live ht
  unfold slotDefects
  rw [List.append_eq_nil_iff]
  refine ⟨if_neg (by simp [huser, hslot]), ?_⟩
  split
  next t ht => exact if_pos (htarget ht)
  next => rfl

theorem useDefects_eq_nil : s.useDefects = [] := by
  rw [useDefects, List.append_eq_nil_iff, List.flatMap_eq_nil_iff, List.flatMap_eq_nil_iff]
  exact ⟨fun x hx => slotDefects_eq_nil hg hx, fun v _ => useListDefects_eq_nil hg v⟩

end Uses

section Containers

variable {m : ModuleId} {p : Place}

theorem payloadIs_iff {q : Payload → Bool} : s.payloadIs v q = true ↔
    ∃ d, s.values.get? v = some d ∧ q d.payload = true := by
  rw [payloadIs, Option.any_eq_true]

theorem strayChildren_eq_nil {container : String} {q : Payload → Bool} {vs : List ValueId}
    (h : ∀ v ∈ vs, s.payloadIs v q = true) : s.strayChildren container q vs = [] := by
  rw [strayChildren, List.map_eq_nil_iff, List.filter_eq_nil_iff]
  intro v hv
  simp [h v hv]

theorem payloadIs_of_place (h : s.layout.place v = some p) {q : Payload → Bool}
    (hq : ∀ x, x.place = some p → q x = true) : s.payloadIs v q = true := by
  obtain ⟨d, hd, hp⟩ := get?_of_place h
  exact payloadIs_iff.2 ⟨d, hd, hq _ hp⟩

theorem payloadIs_of_position {f : ValueId} {i : Nat} (h : s.layout.position v = some (f, i)) :
    s.payloadIs v (isArgumentOf f) = true := by
  obtain ⟨d, hd, hp⟩ := get?_of_position h
  exact payloadIs_iff.2 ⟨d, hd, by simp [hp, isArgumentOf]⟩

theorem namesModule_of_place {x : Payload} (h : x.place = some (.functions m) ∨
    x.place = some (.globals m)) : namesModule m x = true := by
  cases x <;> simp_all [Payload.place, namesModule]

theorem isBlockOf_of_place {f : ValueId} {x : Payload} (h : x.place = some (.blocks f)) :
    isBlockOf f x = true := by
  cases x <;> simp_all [Payload.place, isBlockOf]

theorem isInstructionOf_of_place {b : ValueId} {x : Payload}
    (h : x.place = some (.instructions b)) : isInstructionOf b x = true := by
  cases x <;> simp_all [Payload.place, isInstructionOf]

theorem payloadIs_listsArgument {f : ValueId} {i : Nat}
    (h : (s.layout.arguments f)[i]? = some v) : s.payloadIs f (listsArgument v i) = true := by
  obtain ⟨-, d, hd, -⟩ := layout_kind.1 (kind_of_mem_arguments (List.mem_of_getElem? h))
  rw [layout_arguments hd] at h
  refine payloadIs_iff.2 ⟨d, hd, ?_⟩
  obtain ⟨_, x, _, _, _⟩ := d
  cases x <;> exact decide_eq_true h

theorem payloadIs_listsBlock {f : ValueId} (h : v ∈ s.layout.children (.blocks f)) :
    s.payloadIs f (listsBlock v) = true := by
  obtain ⟨-, d, hd, -⟩ := layout_kind.1 (kind_of_mem_blocks h)
  rw [layout_blocks hd] at h
  refine payloadIs_iff.2 ⟨d, hd, ?_⟩
  obtain ⟨_, x, _, _, _⟩ := d
  cases x <;> exact List.contains_iff_mem.2 h

theorem payloadIs_listsInstruction {b : ValueId} (h : v ∈ s.layout.children (.instructions b)) :
    s.payloadIs b (listsInstruction v) = true := by
  obtain ⟨-, d, hd, -⟩ := layout_kind.1 (kind_of_mem_instructions h)
  rw [layout_instructions hd] at h
  refine payloadIs_iff.2 ⟨d, hd, ?_⟩
  obtain ⟨_, x, _, _, _⟩ := d
  cases x <;> exact List.contains_iff_mem.2 h

variable (hp : s.layout.Placed)
include hp

theorem moduleDefects_eq_nil {dm : Module} (hm : s.modules.get? m = some dm) :
    s.moduleDefects m dm = [] := by
  refine strayChildren_eq_nil fun v hv => ?_
  rw [List.mem_append, ← layout_functions hm, ← layout_globals hm, ← hp.child, ← hp.child] at hv
  rcases hv with hv | hv
  · exact payloadIs_of_place hv fun x hx => namesModule_of_place (.inl hx)
  · exact payloadIs_of_place hv fun x hx => namesModule_of_place (.inr hx)

theorem childDefects_eq_nil (hd : s.values.get? v = some d) :
    s.childDefects v d.payload = [] := by
  have hargument {w : ValueId} (hw : w ∈ d.payload.arguments) :
      s.payloadIs w (isArgumentOf v) = true := by
    rw [← layout_arguments hd, List.mem_iff_getElem?] at hw
    obtain ⟨i, hi⟩ := hw
    exact payloadIs_of_position ((hp.argument ..).2 hi)
  have hblock {w : ValueId} (hw : w ∈ d.payload.blocks) : s.payloadIs w (isBlockOf v) = true := by
    rw [← layout_blocks hd, ← hp.child] at hw
    exact payloadIs_of_place hw fun x hx => isBlockOf_of_place hx
  have hinstruction {w : ValueId} (hw : w ∈ d.payload.instructions) :
      s.payloadIs w (isInstructionOf v) = true := by
    rw [← layout_instructions hd, ← hp.child] at hw
    exact payloadIs_of_place hw fun x hx => isInstructionOf_of_place hx
  cases hx : d.payload with
  | function parent arguments blocks =>
    rw [hx] at hargument hblock
    rw [childDefects, List.append_eq_nil_iff]
    exact ⟨strayChildren_eq_nil fun w hw => hargument hw,
      strayChildren_eq_nil fun w hw => hblock hw⟩
  | block parent insts =>
    rw [hx] at hinstruction
    exact strayChildren_eq_nil fun w hw => hinstruction hw
  | _ => rfl

theorem listed_of_membership (hd : s.values.get? v = some d) {container : String} {listed : Bool}
    (h : s.membership v d.payload = some (container, listed)) : listed = true := by
  have hchild {p : Place} (hx : d.payload.place = some p) : v ∈ s.layout.children p := by
    rw [← hp.child, layout_place hd, hx]
  cases hx : d.payload with
  | argument f i =>
    have hi : (s.layout.arguments f)[i]? = some v := by
      rw [← hp.argument, layout_position hd, hx]
      rfl
    rw [hx] at h
    obtain ⟨-, rfl⟩ := Prod.mk.inj (Option.some.inj h)
    exact payloadIs_listsArgument hi
  | block parent insts =>
    cases parent with
    | none => simp [hx, membership] at h
    | some f =>
      rw [hx] at h hchild
      obtain ⟨-, rfl⟩ := Prod.mk.inj (Option.some.inj h)
      exact payloadIs_listsBlock (hchild rfl)
  | instruction parent opcode =>
    cases parent with
    | none => simp [hx, membership] at h
    | some b =>
      rw [hx] at h hchild
      obtain ⟨-, rfl⟩ := Prod.mk.inj (Option.some.inj h)
      exact payloadIs_listsInstruction (hchild rfl)
  | function parent arguments blocks =>
    cases parent with
    | none => simp [hx, membership] at h
    | some m =>
      rw [hx] at h hchild
      obtain ⟨-, rfl⟩ := Prod.mk.inj (Option.some.inj h)
      have hf : v ∈ s.layout.children (.functions m) := hchild rfl
      obtain ⟨dm, hm⟩ := module_of_mem (.inl hf)
      rw [layout_functions hm] at hf
      simpa [hm] using hf
  | global parent =>
    cases parent with
    | none => simp [hx, membership] at h
    | some m =>
      rw [hx] at h hchild
      obtain ⟨-, rfl⟩ := Prod.mk.inj (Option.some.inj h)
      have hg : v ∈ s.layout.children (.globals m) := hchild rfl
      obtain ⟨dm, hm⟩ := module_of_mem (.inr hg)
      rw [layout_globals hm] at hg
      simpa [hm] using hg
  | _ => simp [hx, membership] at h

theorem parentDefects_eq_nil (hd : s.values.get? v = some d) :
    s.parentDefects v d.payload = [] := by
  unfold parentDefects
  split
  next container h => cases listed_of_membership hp hd h
  next => rfl

theorem containerDefects_eq_nil : s.containerDefects = [] := by
  rw [containerDefects, List.append_eq_nil_iff, List.append_eq_nil_iff]
  refine ⟨⟨?_, ?_⟩, ?_⟩ <;> rw [List.flatMap_eq_nil_iff]
  · exact fun x hx => moduleDefects_eq_nil hp (Arena.mem_toList.1 hx)
  · exact fun x hx => childDefects_eq_nil hp (Arena.mem_toList.1 hx)
  · exact fun x hx => parentDefects_eq_nil hp (Arena.mem_toList.1 hx)

end Containers

section Symbols

theorem attachedScope_eq (hd : s.values.get? v = some d) :
    s.attachedScope d.payload = s.layout.scope v := by
  rw [Layout.scope, layout_place hd, layout_position hd]
  cases hx : d.payload with
  | instruction parent opcode =>
    cases parent with
    | none => rfl
    | some b =>
      cases hb : s.values.get? b with
      | none =>
        have hplace : s.layout.place b = none := by simp [layout, resident?, hb]
        simp [attachedScope, Payload.place, hb, hplace]
      | some db =>
        obtain ⟨_, q, _, _, _⟩ := db
        cases q with
        | block f insts =>
          cases f <;> simp [attachedScope, Payload.place, hb, layout_place hb]
        | function m _ _ =>
          cases m <;> simp [attachedScope, Payload.place, hb, layout_place hb]
        | global m => cases m <;> simp [attachedScope, Payload.place, hb, layout_place hb]
        | instruction c _ => cases c <;> simp [attachedScope, Payload.place, hb, layout_place hb]
        | _ => simp [attachedScope, Payload.place, hb, layout_place hb]
  | block parent _ => cases parent <;> rfl
  | function parent _ _ => cases parent <;> rfl
  | global parent => cases parent <;> rfl
  | _ => rfl

variable (hn : s.layout.Named True [])
include hn

theorem nameDefects_eq_nil (hd : s.values.get? v = some d) : s.nameDefects v d = [] := by
  unfold nameDefects
  split
  next name scope hname hscope =>
    rw [attachedScope_eq hd] at hscope
    have hsymbol : s.layout.symbol v = some d.nameHash := by
      rw [layout_symbol hd (isResident_of_scope hscope hd), Value.symbol, hname]
      rfl
    obtain ⟨t, ht, hf⟩ := hn.entered trivial List.not_mem_nil hsymbol hscope
    have ht' : s.table? scope = some t := ht
    exact if_pos (by simp [isRegistered, ht', hf])
  next => rfl

theorem symbolDefects_eq_nil {scope : Scope} (hscope : scope ∈ s.liveScopes) :
    s.symbolDefects scope = [] := by
  have ht : s.layout.tables scope = some (s.table scope) := by
    simp only [liveScopes, List.mem_append, List.mem_map, List.mem_filter] at hscope
    rcases hscope with ⟨⟨f, df⟩, ⟨hf, hfunction⟩, rfl⟩ | ⟨m, hm, rfl⟩
    · have hkind : s.payloadIs f isFunction = true :=
        payloadIs_iff.2 ⟨df, Arena.mem_toList.1 hf, hfunction⟩
      exact tables_function.2 ⟨payloadIs_isFunction.1 hkind, rfl⟩
    · obtain ⟨⟨m, dm⟩, hmem, rfl⟩ := List.mem_map.1 hm
      exact tables_module.2 ⟨⟨dm, Arena.mem_toList.1 hmem⟩, rfl⟩
  rw [symbolDefects, List.map_eq_nil_iff, List.filter_eq_nil_iff]
  rintro ⟨h, v⟩ he
  have hf : (s.table scope).find? h = some v := Std.ExtTreeMap.mem_toList_iff_getElem?_eq_some.1 he
  obtain ⟨-, hsymbol, hscope⟩ := hn.owned ht hf
  have hlive : ∃ d, s.values.get? v = some d := by
    obtain ⟨d', hr, -⟩ := Option.bind_eq_some_iff.1 hsymbol
    obtain ⟨d, hd, -⟩ := get?_of_resident? hr
    exact ⟨d, hd⟩
  obtain ⟨d, hd⟩ := hlive
  obtain ⟨name, hname, hhash⟩ := Option.map_eq_some_iff.1 (layout_symbol_eq_some hsymbol hd)
  simp [ownsSymbol, hd, hname, hhash, attachedScope_eq hd, hscope]

theorem namingDefects_eq_nil : s.namingDefects = [] := by
  rw [namingDefects, List.append_eq_nil_iff, List.flatMap_eq_nil_iff, List.flatMap_eq_nil_iff]
  exact ⟨fun x hx => nameDefects_eq_nil hn (Arena.mem_toList.1 hx),
    fun scope hscope => symbolDefects_eq_nil hn hscope⟩

end Symbols

section Tracking

theorem trackingDefects_eq_nil (hs : s.Settled) : s.trackingDefects = [] := by
  rw [trackingDefects, List.flatMap_eq_nil_iff]
  intro n _
  rw [List.map_eq_nil_iff, List.filter_eq_nil_iff]
  intro l hl
  have hn : s.metadata.tracker.isReplaceable n.1 = true := by
    by_contra hn
    have hnone : s.metadata.tracker.nodes[n.1]? = none := by
      simpa [Tracker.isReplaceable] using hn
    rw [Tracker.tracked, Tracker.stamps, hnone, Option.getD_none, Stamps.mem_locations] at hl
    simp at hl
  have hheld : s.core.held l = some n.1 := (Tracker.mem_tracked hs.recorded.follows hn).1 hl
  rw [held_core] at hheld
  simp [hheld]

end Tracking

/-- No module, function or block lists a child twice. -/
structure ListsOnce (s : Store) : Prop where
  module : ∀ {m d}, s.modules.get? m = some d → (d.functions ++ d.globals).Nodup
  function : ∀ {f d parent arguments blocks}, s.values.get? f = some d →
    d.payload = .function parent arguments blocks → (arguments ++ blocks).Nodup
  block : ∀ {b d parent insts}, s.values.get? b = some d →
    d.payload = .block parent insts → insts.Nodup

theorem nodup_arguments (hp : s.layout.Placed) (f : ValueId) : (s.layout.arguments f).Nodup := by
  refine List.nodup_iff_getElem?_ne_getElem?.2 fun i j hij hj heq => ?_
  obtain ⟨v, hv⟩ : ∃ v, (s.layout.arguments f)[j]? = some v := ⟨_, List.getElem?_eq_getElem hj⟩
  have hi : s.layout.position v = some (f, i) := (hp.argument v f i).2 (heq.trans hv)
  have hj : s.layout.position v = some (f, j) := (hp.argument v f j).2 hv
  obtain ⟨-, rfl⟩ := Prod.mk.inj (Option.some.inj (hi.symm.trans hj))
  exact Nat.lt_irrefl _ hij

theorem listsOnce (hp : s.layout.Placed) : s.ListsOnce := by
  constructor
  · intro m d hm
    rw [← layout_functions hm, ← layout_globals hm, List.nodup_append']
    refine ⟨hp.nodup _, hp.nodup _, fun v hf hg => ?_⟩
    have hplace := ((hp.child v _).2 hf).symm.trans ((hp.child v _).2 hg)
    cases hplace
  · intro f d parent arguments blocks hf hx
    have harguments : s.layout.arguments f = arguments := by rw [layout_arguments hf, hx]; rfl
    have hblocks : s.layout.children (.blocks f) = blocks := by rw [layout_blocks hf, hx]; rfl
    rw [← harguments, ← hblocks, List.nodup_append']
    refine ⟨nodup_arguments hp f, hp.nodup _, fun v ha hb => ?_⟩
    obtain ⟨i, hi⟩ := List.mem_iff_getElem?.1 ha
    have hposition := (hp.argument v f i).2 hi
    rw [position_of_place ((hp.child v _).2 hb)] at hposition
    cases hposition
  · intro b d parent insts hb hx
    have hinsts : s.layout.children (.instructions b) = insts := by
      rw [layout_instructions hb, hx]
      rfl
    rw [← hinsts]
    exact hp.nodup _

theorem verify_eq_nil (hs : s.Settled) (hc : s.layout.Consistent True) : s.verify = [] := by
  have hg : s.uses.Sound fun v => s.isLive v := hs.graph.mono fun _ hv => isLive_iff.2 hv
  rw [verify, useDefects_eq_nil hg, containerDefects_eq_nil hc.placed,
    namingDefects_eq_nil hc.named, trackingDefects_eq_nil hs]
  rfl

end ShaderIR.Store
