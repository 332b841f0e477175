import ShaderIR.Proofs.Coherence
import ShaderIR.Proofs.Reachable

/-! Use lists in order. To the uses of a value, a slot that is pointed somewhere is an entry that is
deleted from one list and put in front of another; which edges stand behind the slots does not show,
however often they are released and taken again. -/

namespace ShaderIR

abbrev UseMap := ValueId → List Use

namespace UseMap

variable {L : UseMap} {x : Use} {u v : ValueId} {o : Option ValueId}

def delete (L : UseMap) (x : Use) : UseMap := fun v => (L v).erase x

/-- Points a slot at a value or at nothing. A slot that holds the value keeps its place. -/
def redirect (L : UseMap) (x : Use) : Option ValueId → UseMap
  | none => L.delete x
  | some v => if x ∈ L v then L else Function.update (L.delete x) v (x :: L v)

/-- Points the slots of a value at its operands, the first of them first. -/
def fill (L : UseMap) (u : ValueId) (os : List (Option ValueId)) : UseMap :=
  os.zipIdx.foldl (fun L o => L.redirect ⟨u, o.2⟩ o.1) L

def dropUser (L : UseMap) (u : ValueId) : UseMap := fun v => (L v).filter (·.user ≠ u)

/-- What a command is to do to the uses, given what it answers. -/
def step (L : UseMap) : Command → Reply → UseMap
  | .setOperand u i o, _ => L.redirect ⟨u, i⟩ o
  | .pushOperand u o, .number i => L.redirect ⟨u, i⟩ o
  | .dropAllReferences u, _ => L.dropUser u
  | .buildInstruction _ _ os _ _, .value i => L.fill i os
  | .eraseInstruction i, _ => L.dropUser i
  | .createGlobal _ _ _ o, .value g => L.redirect ⟨g, 0⟩ o
  | .setInitializer g o, _ => L.redirect ⟨g, 0⟩ o
  | .eraseGlobal g, _ => L.dropUser g
  | _, _ => L

def run (L : UseMap) (cs : List (Command × Reply)) : UseMap :=
  cs.foldl (fun L c => L.step c.1 c.2) L

theorem delete_of_forall (h : ∀ v, x ∉ L v) : L.delete x = L :=
  funext fun v => List.erase_of_not_mem (h v)

end UseMap

namespace UseGraph

def useMap (g : UseGraph) : UseMap := fun v => (g.useList v).map g.use

def linkTo (g : UseGraph) (e : EdgeId) : Option ValueId → UseGraph
  | none => g
  | some t => g.link e t

namespace Sound

variable {g : UseGraph} {live : ValueId → Prop} {u t : ValueId} {e : EdgeId} {i : Nat}

theorem use_eq_iff (h : g.Sound live) (he : (g.slotsOf u)[i]? = some e) {v : ValueId} {x : EdgeId}
    (hx : x ∈ g.useList v) : g.use x = ⟨u, i⟩ ↔ x = e := by
  have hslot := (h.slot_of_target ((h.lists.mem v x).1 hx)).2
  obtain ⟨-, hu, hi⟩ := h.slot he
  constructor
  · intro hxe
    obtain ⟨hxu, hxi⟩ := Use.mk.inj hxe
    rw [hxu, hxi, he] at hslot
    exact (Option.some.inj hslot).symm
  · rintro rfl
    rw [use, hu, hi]

theorem mem_useMap (h : g.Sound live) (he : (g.slotsOf u)[i]? = some e) (v : ValueId) :
    ⟨u, i⟩ ∈ g.useMap v ↔ (g.edge e).target = some v := by
  rw [useMap, h.mem_uses]
  constructor
  · rintro ⟨x, hx, ht⟩
    obtain rfl := Option.some.inj (hx.symm.trans he)
    exact ht
  · exact fun ht => ⟨e, he, ht⟩

theorem useMap_unlink (h : g.Sound live) (he : (g.slotsOf u)[i]? = some e) :
    (g.unlink e).useMap = g.useMap.delete ⟨u, i⟩ := by
  have huse : (g.unlink e).use = g.use := by
    funext x
    rw [use, use, (sameSlots_unlink g e).user, (sameSlots_unlink g e).slot]
  funext v
  rw [useMap, huse, h.useList_unlink, (h.lists.nodup v).erase_eq_filter, UseMap.delete, useMap,
    (h.uses_nodup v).erase_eq_filter, List.filter_map]
  congr 1
  apply List.filter_congr
  intro x hx
  have hiff := h.use_eq_iff he hx
  grind

theorem useMap_link (h : g.Sound live) (he : (g.slotsOf u)[i]? = some e)
    (hn : (g.edge e).target = none) (t : ValueId) :
    (g.link e t).useMap = Function.update g.useMap t (⟨u, i⟩ :: g.useMap t) := by
  obtain ⟨hlt, hu, hi⟩ := h.slot he
  have huse : (g.link e t).use = g.use := by
    funext x
    rw [use, use, (sameSlots_link g e t).user, (sameSlots_link g e t).slot]
  have hedge : g.use e = ⟨u, i⟩ := by rw [use, hu, hi]
  funext v
  rw [useMap, huse, h.useList_link hlt hn, Function.update_apply]
  by_cases hv : t = v
  · rw [if_pos hv, if_pos hv.symm, List.map_cons, hedge, hv, useMap]
  · rw [if_neg hv, if_neg (Ne.symm hv), useMap]

theorem useMap_redirect (h : g.Sound live) (he : (g.slotsOf u)[i]? = some e) {o : Option ValueId}
    (ho : (g.edge e).target ≠ o) :
    ((g.unlink e).linkTo e o).useMap = g.useMap.redirect ⟨u, i⟩ o := by
  have hunlink := h.useMap_unlink he
  cases o with
  | none => exact hunlink
  | some t =>
    have he' : ((g.unlink e).slotsOf u)[i]? = some e := (sameSlots_unlink g e).slotsOf u ▸ he
    have hn : ((g.unlink e).edge e).target = none := (h.target_unlink e e).trans (if_pos rfl)
    have hmem : ⟨u, i⟩ ∉ g.useMap t := fun hm => ho ((h.mem_useMap he t).1 hm)
    have hdelete : g.useMap.delete ⟨u, i⟩ t = g.useMap t := List.erase_of_not_mem hmem
    rw [linkTo, (h.unlink e).useMap_link he' hn, hunlink, hdelete, UseMap.redirect, if_neg hmem]

theorem redirect_target (h : g.Sound live) (he : (g.slotsOf u)[i]? = some e) :
    g.useMap.redirect ⟨u, i⟩ (g.edge e).target = g.useMap := by
  cases ht : (g.edge e).target with
  | none =>
    apply UseMap.delete_of_forall
    intro v hv
    rw [h.mem_useMap he, ht] at hv
    cases hv
  | some t => exact if_pos ((h.mem_useMap he t).2 ht)

theorem useMap_addSlot (h : g.Sound live) : (g.addSlot u).2.useMap = g.useMap := by
  funext v
  rw [useMap, h.useList_addSlot, useMap]
  apply List.map_congr_left
  intro x hx
  have ht : (g.edge x).target = some v := (h.lists.mem v x).1 hx
  have hx : x ≠ (g.addSlot u).1 := by
    rintro rfl
    have hnone : (g.edge (g.addSlot u).1).target = none :=
      (h.allocated { user := u, slot := (g.slotsOf u).length }).target
    rw [hnone] at ht
    cases ht
  rw [use, h.edge_addSlot, if_neg hx, use]

theorem useMap_clearSlots (h : g.Sound live) : (g.clearSlots u).useMap = g.useMap.dropUser u := by
  have huse : (g.clearSlots u).use = g.use := by
    funext x
    obtain ⟨hu, hs⟩ := (release_foldl { g with slots := g.slots.erase u } (g.slotsOf u)).2.2.2 x
    exact congrArg₂ Use.mk hu hs
  funext v
  rw [useMap, huse, h.useList_clearSlots, UseMap.dropUser, useMap, List.filter_map]
  congr 1
  apply List.filter_congr
  intro x hx
  have hslot := (h.slot_of_target ((h.lists.mem v x).1 hx)).2
  have hiff : x ∈ g.slotsOf u ↔ (g.use x).user = u := by
    constructor
    · exact fun hxu => (h.mem_slots hxu).2.1
    · rintro rfl
      exact List.mem_of_getElem? hslot
  simp [hiff]

end Sound

end UseGraph

namespace Edit

variable {s : Store} {u v i g : ValueId} {k : Nat} {o : Option ValueId} {ty : TypeId}

section Operands

theorem ends_linkTo_uses {e : EdgeId} : Ends (linkTo e o) s
    (fun _ s' => s'.uses = s.uses.linkTo e o) fun _ _ => True := by
  cases o with
  | none => exact rfl
  | some t => exact ends_bind.2 (ends_lift.2 ⟨fun _ _ => rfl, fun _ _ => trivial⟩)

theorem ends_putOperand_uses (hs : s.Settled) : Ends (putOperand u k o) s
    (fun _ s' => s'.uses.useMap = s.uses.useMap.redirect ⟨u, k⟩ o) fun _ _ => True := by
  have hg : s.uses.Sound s.core.IsLive := hs.graph
  refine ends_bind.2 (ends_lift.2 ⟨fun e he => ?_, fun _ _ => trivial⟩)
  have hslot := (Query.operandEdge_ok.1 he).2
  rw [ends_bind, ends_get]
  split
  next ho =>
    rw [ends_bind, unlink, ends_modify]
    apply ends_linkTo_uses.mono _ fun _ _ h => h
    intro _ s' hs'
    rw [hs', ← hg.useMap_redirect hslot ho]
    rfl
  next ho =>
    rw [ne_eq, Decidable.not_not] at ho
    subst ho
    exact (hg.redirect_target hslot).symm

theorem ends_addOperand_uses (hs : s.Settled) : Ends (addOperand u o) s
    (fun k s' => k = (s.uses.slotsOf u).length ∧
      s'.uses.useMap = s.uses.useMap.redirect ⟨u, k⟩ o) fun _ _ => True := by
  have hg : s.uses.Sound s.core.IsLive := hs.graph
  refine ends_bind.2 (ends_lift.2 ⟨fun k hk => ?_, fun _ _ => trivial⟩)
  obtain ⟨hlive, rfl⟩ := Query.operandCount_ok.1 hk
  rw [ends_bind, ends_modifyGet, ends_bind]
  apply ends_linkTo_uses.mono _ fun _ _ h => h
  intro _ s' hs'
  refine ⟨rfl, ?_⟩
  have hadd : (s.uses.addSlot u).2.Sound s.core.IsLive := hg.addSlot (Store.isLive_core.2 hlive)
  have hslot : ((s.uses.addSlot u).2.slotsOf u)[(s.uses.slotsOf u).length]? =
      some (s.uses.addSlot u).1 := by
    rw [hg.slotsOf_addSlot, if_pos rfl]
    simp
  have hnone : ((s.uses.addSlot u).2.edge (s.uses.addSlot u).1).target = none := by
    rw [hg.edge_addSlot, if_pos rfl]
  -- The new slot holds nothing, so it is in no list that it would have to leave.
  have hempty := UseGraph.unlink_of_none hnone
  rw [hs', ← hg.useMap_addSlot (u := u)]
  by_cases ho : o = none
  · rw [ho, ← hnone, hadd.redirect_target hslot, hnone]
    rfl
  · have hne : ((s.uses.addSlot u).2.edge (s.uses.addSlot u).1).target ≠ o := by
      rw [hnone]
      exact Ne.symm ho
    rw [← hadd.useMap_redirect hslot hne, hempty]

theorem ends_emptyOperands_uses (hs : s.Settled) : Ends (emptyOperands u) s
    (fun _ s' => s'.uses.useMap = s.uses.useMap.dropUser u) fun _ _ => True := by
  have hg : s.uses.Sound s.core.IsLive := hs.graph
  refine ends_bind.2 (ends_lift.2 ⟨fun count hcount => ?_, fun _ _ => trivial⟩)
  obtain ⟨-, rfl⟩ := Query.operandCount_ok.1 hcount
  -- The slots that have been emptied so far are the ones that have left the lists.
  let I (done : List Nat) (p : Store) : Prop := p.Settled ∧
    p.uses.useMap = fun v => (s.uses.useMap v).filter fun x => ¬ (x.user = u ∧ x.slot ∈ done)
  have hstart : I [] s := ⟨hs, by simp⟩
  refine (ends_forM_visited _ I ?_ s hstart).mono ?_ fun _ _ h => h
  · rintro done k rest p - ⟨hp, hmap⟩
    have hput := (ends_putOperand hp (u := u) (i := k) mayRefer_none).and (ends_putOperand_uses hp)
    apply hput.mono _ fun _ _ _ => trivial
    rintro _ p' ⟨hp', hmap'⟩
    refine ⟨hp'.settled, ?_⟩
    have hnodup (v : ValueId) : (p.uses.useMap v).Nodup :=
      UseGraph.Sound.uses_nodup hp.graph v
    rw [hmap']
    funext v
    rw [UseMap.redirect, UseMap.delete, (hnodup v).erase_eq_filter, hmap, List.filter_filter]
    apply List.filter_congr
    intro x _
    obtain ⟨w, j⟩ := x
    simp only [List.mem_append, List.mem_singleton]
    grind
  · rintro _ s' ⟨-, hmap⟩
    rw [hmap]
    funext v
    apply List.filter_congr
    intro x hx
    have hslot : x.slot < (s.uses.slotsOf x.user).length := by
      obtain ⟨e, he, -⟩ := hg.mem_uses.1 hx
      exact (List.getElem?_eq_some_iff.1 he).1
    simp only [List.mem_range]
    grind

theorem ends_addOperands_uses (hs : s.Settled) {d : Value} (hd : s.values.get? u = some d)
    (hk : d.kind ≠ .constant) (hu : s.uses.targets u = []) (os : List (Option ValueId)) :
    Ends (os.forM fun o => do let _ ← addOperand u o) s
      (fun _ s' => s'.uses.useMap = s.uses.useMap.fill u os) fun _ _ => True := by
  -- The operands that have been added so far are all that the value has.
  let I (done : List (Option ValueId)) (p : Store) : Prop :=
    s.Rewired u p ∧ p.uses.targets u = done ∧ p.uses.useMap = s.uses.useMap.fill u done
  have hstart : I [] s := ⟨hs.rewired u, hu, rfl⟩
  refine (ends_forM_visited os I ?_ s hstart).mono (fun _ _ h => h.2.2) fun _ _ h => h
  rintro done o rest p - ⟨hp, htargets, hmap⟩
  have hmay : MayRefer p u o := by
    obtain ⟨g, rfl⟩ := hp.uses
    exact mayRefer_of_kind (s := { s with uses := g }) hd hk o
  have hadd := (ends_addOperand hp.settled hmay).and (ends_addOperand_uses hp.settled)
  apply Ends.bind (hadd.mono (fun _ _ h => h) fun _ _ _ => trivial)
  rintro k p' ⟨⟨hp', htargets'⟩, rfl, hmap'⟩
  have hlen : (p.uses.slotsOf u).length = done.length := by
    rw [← htargets, UseGraph.targets, List.length_map]
  refine ⟨hp.trans hp', by rw [htargets', htargets], ?_⟩
  rw [hmap', hmap, hlen, UseMap.fill, UseMap.fill, List.zipIdx_append, List.foldl_append]
  simp

end Operands

section Fixed

/-! Edits that leave the def-use graph as it is. -/

variable {α : Type} {e : Edit α} {text : String} {m : ModuleId}

instance : Unheld Store.uses where
  tracker _ _ := rfl
  handles _ _ := rfl
  tags _ _ := rfl
  attachments _ _ _ := rfl
  named _ _ _ := rfl

theorem Fixes.uses_of_core (h : Fixes Store.core e) : Fixes Store.uses e :=
  h.of_view fun hs => congrArg Core.uses hs

theorem Fixes.uses_of_body (h : Fixes Store.body e) : Fixes Store.uses e :=
  h.of_view fun {s s'} hs => by
    rw [show s'.uses = s'.body.uses from rfl, hs]
    rfl

theorem Fixes.ends_useMap (he : Fixes Store.uses e) {L : UseMap} (h : s.uses.useMap = L) :
    Ends e s (fun _ s' => s'.uses.useMap = L) fun _ _ => True :=
  (he.keeps (fun g => g.useMap = L) s h).mono (fun _ _ h => h) fun _ _ _ => trivial

theorem fixes_uses_pushValue {d : Value} : Fixes Store.uses (pushValue d) :=
  fun _ => Keeps.modifyGet fun _ hs => hs

theorem fixes_uses_internType {sh : TypeShape} : Fixes Store.uses (internType sh) :=
  fun _ => Keeps.modifyGet fun _ hs => hs

theorem fixes_uses_internScalar {data : ConstantData} :
    Fixes Store.uses (internScalar ty data) := by
  refine .bind .get fun s => ?_
  split
  · exact .pure _
  · exact .bind fixes_uses_pushValue fun _ => .bind (.modify fun _ => rfl) fun _ => .pure _

theorem fixes_uses_createDetachedBlock : Fixes Store.uses (createDetachedBlock text) :=
  .bind fixes_uses_internType fun _ => .bind fixes_uses_pushValue fun _ =>
    .bind (Fixes.uses_of_core fixes_writeName) fun _ => .pure _

theorem fixes_uses_createBlock : Fixes Store.uses (createBlock u text) :=
  .bind fixes_uses_createDetachedBlock fun _ =>
    .bind (Fixes.uses_of_core fixes_insertBlock) fun _ => .pure _

theorem fixes_uses_createFunction : Fixes Store.uses (createFunction m text ty) := by
  refine .bind (.lift _) fun sh => ?_
  split
  · exact .bind fixes_uses_pushValue fun _ => .bind (.modify fun _ => rfl) fun _ =>
      .bind (fun P => .mapM (fun _ => fixes_uses_pushValue P) _) fun _ =>
        .bind (.bind (.lift _) fun _ => .modify fun _ => rfl) fun _ =>
          .bind (Fixes.uses_of_core fixes_writeName) fun _ =>
            .bind (Fixes.uses_of_core fixes_appendFunction) fun _ => .pure _
  · exact .raise _

theorem fixes_uses_wrapperValue {n : NodeId} : Fixes Store.uses (wrapperValue n) := by
  refine .bind (.lift _) fun _ => .bind .get fun s => ?_
  split
  · exact .pure _
  · exact .bind fixes_uses_internType fun _ => .bind fixes_uses_pushValue fun _ =>
      .bind (.modify fun _ => rfl) fun _ => .bind fixes_track fun _ => .pure _

theorem fixes_uses_dropValueNode : Fixes Store.uses (dropValueNode v) := by
  refine .bind .get fun s => ?_
  split
  · exact .pure _
  · exact .modify fun _ => rfl

theorem fixes_uses_condemn : Fixes Store.uses (condemn v) := by
  refine .bind (.lift _) fun _ => .bind (.lift _) fun _ => .guard (.raise _) (.bind ?_ fun _ => ?_)
  · refine .bind .get fun s => ?_
    split
    · exact .pure _
    · exact .bind .get fun s => .guard (.raise _) fixes_uses_dropValueNode
  · refine .bind (.lift _) fun key => ?_
    split
    · refine .modify fun s => ?_
      split <;> rfl
    · exact .pure _

end Fixed

section Destroying

theorem ends_discard_uses : Ends (discard v) s (fun _ s' => s'.uses = s.uses.clearSlots v)
    fun _ _ => True := by
  have hrest : Fixes Store.uses (do
      clearAttachments v
      dropWrapper v
      modify fun s => { s with
        values := s.values.erase v
        scopes := s.scopes.erase (.function v) }) := by
    refine .bind ?_ fun _ => .bind ?_ fun _ => .modify fun _ => rfl
    · exact .bind (.lift _) fun _ => .bind (fixes_modifyAttachments (f := fun _ => [])) fun _ =>
        .forM (fun _ => fixes_untrack) _
    · refine .bind (.lift _) fun n => ?_
      split
      · exact .pure _
      · refine .bind fixes_untrack fun _ => .modify fun s => rfl
  exact ends_bind.2 ((hrest.ends _).mono (fun _ _ h => h) fun _ _ _ => trivial)

theorem ends_destroyValue_uses (hs : s.Settled) : Ends (destroyValue v) s
    (fun _ s' => s'.uses.useMap = s.uses.useMap.dropUser v) fun _ _ => True := by
  have hg : s.uses.Sound s.core.IsLive := hs.graph
  have hcheck : Fixes Store.uses (condemn v >>= fun _ => unregisterName v) :=
    .bind fixes_uses_condemn fun _ => Fixes.uses_of_core fixes_unregisterName
  rw [destroyValue_eq, ← bind_assoc]
  apply Ends.bind ((hcheck.ends s).mono (fun _ _ h => h) fun _ _ _ => trivial)
  intro _ p hp
  apply ends_discard_uses.mono _ fun _ _ h => h
  intro _ s' hs'
  rw [hs', hp, hg.useMap_clearSlots]

end Destroying

section Making

variable {d : Value} {opcode text : String} {m : ModuleId} {os : List (Option ValueId)}

theorem ends_pushValue_uses (hs : s.Settled)
    (hk : d.kind = .argument ∨ d.kind = .global ∨ d.kind = .instruction)
    (ha : d.attachments = []) (hw : d.wrapped? = none) : Ends (pushValue d) s
      (fun v s' => s'.Settled ∧ s'.values.get? v = some d ∧ s'.uses = s.uses ∧
        s'.uses.targets v = []) fun _ _ => False := by
  have hg : s.uses.Sound s.core.IsLive := hs.graph
  have hnew : s.uses.targets s.values.next = [] := by
    apply hg.targets_of_dead
    intro hlive
    obtain ⟨_, hd⟩ := Store.isLive_core.1 hlive
    simp at hd
  have hpush := ends_pushValue hs hk ha hw
  exact ⟨hpush.1, hpush.2, rfl, hnew⟩

theorem ends_buildInstruction_uses (hs : s.Settled) {name : Option String}
    {placement : Placement} : Ends (buildInstruction opcode ty os name placement) s
      (fun i s' => s'.uses.useMap = s.uses.useMap.fill i os) fun _ _ => True := by
  have hcreate : Ends (createInstruction opcode ty os) s
      (fun i s' => s'.uses.useMap = s.uses.useMap.fill i os) fun _ _ => True := by
    have hpush := ends_pushValue_uses hs (.inr (.inr rfl)) rfl rfl (d :=
      { ty := ty, payload := .instruction none opcode })
    apply Ends.bind (hpush.weaken fun _ _ h => h)
    rintro i p ⟨hp, hi, hu, hnew⟩
    rw [← hu]
    exact ends_bind.2 ((ends_addOperands_uses hp hi (by simp [Value.kind, Payload.kind]) hnew
      os).mono (fun _ _ h => h) fun _ _ h => h)
  have hset {i : ValueId} {text : String} : Fixes Store.uses (setName i text) :=
    Fixes.uses_of_core fixes_setName
  have hinsert {i b : ValueId} {anchor : Option ValueId} :
      Fixes Store.uses (insertInstruction b i anchor) :=
    Fixes.uses_of_core fixes_insertInstruction
  have hbefore {i a : ValueId} : Fixes Store.uses (insertInstructionBefore i a) :=
    Fixes.uses_of_core fixes_insertInstructionBefore
  apply Ends.bind hcreate
  intro i p hp
  cases name with
  | none =>
    cases placement with
    | floating => exact hp
    | append b => exact (hinsert.ends_useMap hp).bind fun _ _ hp => hp
    | before a => exact (hbefore.ends_useMap hp).bind fun _ _ hp => hp
  | some text =>
    apply (hset.ends_useMap hp).bind
    intro _ p hp
    cases placement with
    | floating => exact hp
    | append b => exact (hinsert.ends_useMap hp).bind fun _ _ hp => hp
    | before a => exact (hbefore.ends_useMap hp).bind fun _ _ hp => hp

theorem ends_createGlobal_uses (hs : s.Settled) : Ends (createGlobal m text ty o) s
    (fun g s' => s'.uses.useMap = s.uses.useMap.redirect ⟨g, 0⟩ o) fun _ _ => True := by
  have hpush := ends_pushValue_uses hs (.inr (.inl rfl)) rfl rfl (d :=
    { ty := ty, payload := .global none })
  apply Ends.bind (hpush.weaken fun _ _ h => h)
  rintro g p ⟨hp, -, hu, hnew⟩
  apply Ends.bind (ends_addOperand_uses hp)
  rintro k p' ⟨rfl, hmap⟩
  have hslots : (p.uses.slotsOf g).length = 0 := by
    rw [← List.length_map, ← UseGraph.targets, hnew, List.length_nil]
  rw [hslots, hu] at hmap
  apply (Fixes.ends_useMap (Fixes.uses_of_core fixes_writeName) hmap).bind
  intro _ p hp
  exact (Fixes.ends_useMap (Fixes.uses_of_core fixes_appendGlobal) hp).bind fun _ _ hp => hp

end Making

end Edit

namespace Command

open Edit

/-- Whether a command makes a block address, or may put one value in the place of another. -/
def replacesValues : Command → Bool
  | .blockAddress .. | .replaceAllUses .. | .replaceUsesIf .. | .eraseModule _ | .eraseFunction _
  | .eraseBlock _ | .replaceNode .. | .replaceWithUniqued _ => true
  | _ => false

def replies (s : Store) : List Command → Option (List Reply)
  | [] => some []
  | c :: cs =>
    match c.run s with
    | .ok r s' => (replies s' cs).map (r :: ·)
    | .error _ _ => none

theorem ends_quiet_uses {e : Edit Unit} {s : Store} {L : UseMap}
    (h : Ends e s (fun _ s' => s'.uses.useMap = L) fun _ _ => True) :
    Ends (quiet e) s (fun _ s' => s'.uses.useMap = L) fun _ _ => True :=
  h.bind fun _ _ hp => hp

theorem ends_checked_uses {α β : Type} {q : Query α} {f : α → Edit β} {s : Store}
    {Q : β → Store → Prop} (h : ∀ a, Ends (f a) s Q fun _ _ => True) :
    Ends (liftM q >>= f) s Q fun _ _ => True :=
  ends_bind.2 (ends_lift.2 ⟨fun a _ => h a, fun _ _ => trivial⟩)

theorem ends_erase_uses {s : Store} (hs : s.Settled) {v : ValueId} {remove : Edit Unit}
    (hr : Fixes Store.core remove) {p : Prop} [Decidable p] :
    Ends (if p then remove >>= fun _ => destroyValue v else destroyValue v) s
      (fun _ s' => s'.uses.useMap = s.uses.useMap.dropUser v) fun _ _ => True := by
  split
  · apply Ends.bind ((hr.ends s).mono (fun _ _ h => h) fun _ _ _ => trivial)
    intro _ p hp
    have hsettled : p.Settled := by rwa [Store.Settled, hp]
    have huses : p.uses = s.uses := congrArg Core.uses hp
    rw [← huses]
    exact ends_destroyValue_uses hsettled
  · exact ends_destroyValue_uses hs

theorem ends_run_uses {s : Store} (hs : s.Settled) {c : Command} (hc : c.replacesValues = false) :
    Ends c.run s (fun r s' => s'.uses.useMap = s.uses.useMap.step c r) fun _ _ => True := by
  have hfix {α : Type} {e : Edit α} {g : α → Reply} (h : Fixes Store.uses e) :
      Ends (g <$> e) s (fun _ s' => s'.uses.useMap = s.uses.useMap) fun _ _ => True :=
    (h.map g).ends_useMap rfl
  have hquiet {e : Edit Unit} (h : Fixes Store.uses e) :
      Ends (quiet e) s (fun _ s' => s'.uses.useMap = s.uses.useMap) fun _ _ => True :=
    ends_quiet_uses (h.ends_useMap rfl)
  have hplace {e : Edit Unit} (h : Fixes Store.core e) := hquiet (Fixes.uses_of_core h)
  have hnode {α : Type} {e : Edit α} {g : α → Reply} (h : Fixes Store.body e) :=
    hfix (g := g) (Fixes.uses_of_body h)
  cases c with
  | internType => exact hfix fixes_uses_internType
  | constInt => exact hfix fixes_uses_internScalar
  | constNull => exact hfix fixes_uses_internScalar
  | constUndefined => exact hfix fixes_uses_internScalar
  | setOperand => exact ends_quiet_uses (ends_checked_uses fun _ => ends_putOperand_uses hs)
  | pushOperand =>
    apply Ends.map
    exact ends_checked_uses fun _ => ends_checked_uses fun _ =>
      (ends_addOperand_uses hs).mono (fun _ _ h => h.2) fun _ _ h => h
  | dropAllReferences => exact ends_quiet_uses (ends_checked_uses fun _ => ends_emptyOperands_uses hs)
  | setName => exact hplace fixes_setName
  | takeName => exact hfix (Fixes.uses_of_core fixes_takeName)
  | createModule => exact hfix (Fixes.uses_of_core fixes_createModule)
  | createFunction => exact hfix fixes_uses_createFunction
  | appendFunction => exact hplace fixes_appendFunction
  | removeFunction => exact hplace fixes_removeFunction
  | moveFunctionTo => exact hplace fixes_moveFunctionTo
  | createGlobal => exact Ends.map (ends_createGlobal_uses hs)
  | setInitializer => exact ends_quiet_uses (ends_checked_uses fun _ => ends_putOperand_uses hs)
  | appendGlobal => exact hplace fixes_appendGlobal
  | removeGlobal => exact hplace fixes_removeGlobal
  | moveGlobalTo => exact hplace fixes_moveGlobalTo
  | eraseGlobal =>
    exact ends_quiet_uses (ends_checked_uses fun _ => ends_checked_uses fun _ =>
      ends_erase_uses hs fixes_removeGlobal)
  | createBlock => exact hfix fixes_uses_createBlock
  | createDetachedBlock => exact hfix fixes_uses_createDetachedBlock
  | appendBlock => exact hplace fixes_insertBlock
  | insertBlockBefore =>
    exact hplace (.bind (.lift _) fun _ => .bind (.lift _) fun _ => fixes_insertBlock)
  | removeBlock => exact hplace fixes_removeBlock
  | moveBlockBefore =>
    exact hplace (.bind (.lift _) fun _ => .bind (.lift _) fun _ => fixes_relocateBlock)
  | moveBlockTo => exact hplace fixes_relocateBlock
  | buildInstruction => exact Ends.map (ends_buildInstruction_uses hs)
  | appendInstruction => exact hplace fixes_insertInstruction
  | insertInstructionBefore => exact hplace fixes_insertInstructionBefore
  | removeInstruction => exact hplace fixes_removeInstruction
  | moveInstructionBefore =>
    exact hplace (.bind (.lift _) fun _ => .bind (.lift _) fun _ => fixes_relocateInstruction)
  | moveInstructionToEnd => exact hplace (.bind (.lift _) fun _ => fixes_relocateInstruction)
  | eraseInstruction =>
    exact ends_quiet_uses (ends_checked_uses fun _ => ends_checked_uses fun _ =>
      ends_erase_uses hs fixes_removeInstruction)
  | stringNode => exact hnode fixes_stringNode
  | valueNode => exact hnode fixes_valueNode
  | tuple => exact hnode fixes_tuple
  | distinctTuple => exact hnode fixes_distinctTuple
  | temporaryTuple => exact hnode fixes_temporaryTuple
  | replaceWithDistinct =>
    exact hnode (.bind (.lift _) fun _ => .bind fixes_settle fun _ => .pure _)
  | eraseTemporary => exact hquiet (Fixes.uses_of_body fixes_eraseTemporary)
  | setNodeOperand => exact hquiet (Fixes.uses_of_body fixes_setNodeOperand)
  | pushNodeOperand => exact hquiet (Fixes.uses_of_body fixes_pushNodeOperand)
  | insertNodeOperand => exact hquiet (Fixes.uses_of_body fixes_insertNodeOperand)
  | removeNodeOperand => exact hnode fixes_removeNodeOperand
  | trackHandle => exact hfix fixes_trackHandle
  | resetHandle => exact hquiet fixes_resetHandle
  | moveHandle => exact hfix fixes_moveHandle
  | releaseHandle => exact hquiet fixes_releaseHandle
  | wrapperValue => exact hfix fixes_uses_wrapperValue
  | internTag => exact hfix fixes_internTag
  | setMetadata => exact hquiet fixes_setMetadata
  | addNamedMetadata => exact hquiet fixes_addNamedMetadata
  | eraseNamedMetadata => exact hquiet fixes_eraseNamedMetadata
  | _ => cases hc

theorem after_of_ok {s s' : Store} {c : Command} {r : Reply} (h : c.run s = .ok r s') :
    after s c = s' := by
  rw [after, h]

theorem useMap_of_replies {s : Store} (hs : s.Settled) {cs : List Command}
    (hcs : ∀ c ∈ cs, c.replacesValues = false) {rs : List Reply} (hrs : replies s cs = some rs) :
    (afterAll s cs).uses.useMap = s.uses.useMap.run (cs.zip rs) := by
  induction cs generalizing s rs with
  | nil => rfl
  | cons c cs ih =>
    rw [replies] at hrs
    split at hrs
    next r s' hc =>
      obtain ⟨rs, hrest, rfl⟩ := Option.map_eq_some_iff.1 hrs
      have hs' : after s c = s' := after_of_ok hc
      have hsettled : s'.Settled := hs' ▸ keeps_after (keeps_run c) hs
      have hstep : s'.uses.useMap = s.uses.useMap.step c r :=
        (ends_run_uses hs (hcs c List.mem_cons_self)).of_ok hc
      have hall := ih hsettled (fun d hd => hcs d (List.mem_cons_of_mem c hd)) hrest
      rw [hstep] at hall
      rw [afterAll, List.foldl_cons, hs']
      exact hall
    next => cases hrs

end Command

theorem Query.uses_ok {s : Store} {v : ValueId} {us : List Use} :
    Query.uses v s = .ok us ↔ (∃ d, s.values.get? v = some d) ∧ s.uses.useMap v = us := by
  simp only [Query.uses, Query.bind_ok, Query.useList_ok, Query.read_ok, Query.pure_ok,
    UseGraph.useMap]
  grind

namespace Store

def useMap (s : Store) : UseMap := fun v => (Query.uses v s).toOption.getD []

theorem Settled.useMap_eq {s : Store} (hs : s.Settled) : s.useMap = s.uses.useMap := by
  have hg : s.uses.Sound s.core.IsLive := hs.graph
  funext v
  rw [useMap]
  cases huses : Query.uses v s with
  | ok us => exact (Query.uses_ok.1 huses).2.symm
  | error x =>
    apply Eq.symm (List.eq_nil_iff_forall_not_mem.2 _)
    intro u hu
    obtain ⟨e, -, ht⟩ := hg.mem_uses.1 hu
    have hlive := isLive_core.1 (hg.target_live ht)
    rw [Query.uses_ok.2 ⟨hlive, rfl⟩] at huses
    cases huses

end Store

namespace Command

/-- Whatever commands have led to a store, the use lists follow the commands after that entry by
entry and in order, as long as these answer and put no value in the place of another. -/
theorem uses_afterAll (hash : String → UInt64) (config : Config) (before cs : List Command)
    {rs : List Reply} (hcs : ∀ c ∈ cs, c.replacesValues = false)
    (hrs : replies (afterAll { hash, config } before) cs = some rs) {v : ValueId}
    (hv : (afterAll { hash, config } (before ++ cs)).isLive v) :
    Query.uses v (afterAll { hash, config } (before ++ cs)) =
      .ok ((afterAll { hash, config } before).useMap.run (cs.zip rs) v) := by
  have hbefore := settled_afterAll hash config before
  have hmap := useMap_of_replies hbefore hcs hrs
  rw [afterAll_append] at hv ⊢
  rw [hbefore.useMap_eq, ← hmap]
  exact Query.uses_ok.2 ⟨Option.isSome_iff_exists.1 hv, rfl⟩

def twoConstants : List Command :=
  [.internType .metadata, .constInt ⟨0⟩ 1, .constInt ⟨0⟩ 2, .createModule "m"]

/-- An instruction that uses a constant twice lets go of one slot and takes another; the edge of a
global that is erased goes to a second instruction; and a slot goes away and comes back. -/
def recycledEdge : List Command :=
  [.buildInstruction "add" ⟨0⟩ [some ⟨0⟩, some ⟨0⟩] none .floating,
    .createGlobal ⟨0⟩ "g" ⟨0⟩ (some ⟨0⟩), .setOperand ⟨2⟩ 1 (some ⟨1⟩),
    .pushOperand ⟨2⟩ (some ⟨0⟩), .eraseGlobal ⟨3⟩,
    .buildInstruction "neg" ⟨0⟩ [some ⟨0⟩] none .floating, .setOperand ⟨2⟩ 0 (some ⟨1⟩),
    .setOperand ⟨2⟩ 0 (some ⟨0⟩)]

def recycledEdgeReplies : List Reply :=
  [.value ⟨2⟩, .value ⟨3⟩, .done, .number 2, .done, .value ⟨4⟩, .done, .done]

theorem uses_afterAll_recycledEdge :
    (∀ c ∈ recycledEdge, c.replacesValues = false) ∧
      replies (afterAll { config := {} } twoConstants) recycledEdge = some recycledEdgeReplies ∧
      (afterAll { config := {} } (twoConstants ++ recycledEdge)).isLive ⟨0⟩ ∧
      Query.uses ⟨0⟩ (afterAll { config := {} } (twoConstants ++ recycledEdge)) =
        .ok ((afterAll { config := {} } twoConstants).useMap.run
          (recycledEdge.zip recycledEdgeReplies) ⟨0⟩) ∧
      (afterAll { config := {} } twoConstants).useMap.run
        (recycledEdge.zip recycledEdgeReplies) ⟨0⟩ = [⟨⟨2⟩, 0⟩, ⟨⟨4⟩, 0⟩, ⟨⟨2⟩, 2⟩] := by
  have hcs : ∀ c ∈ recycledEdge, c.replacesValues = false := by decide
  have hrs : replies (afterAll { config := {} } twoConstants) recycledEdge =
      some recycledEdgeReplies := by decide +kernel
  have hlive : (afterAll { config := {} } (twoConstants ++ recycledEdge)).isLive ⟨0⟩ := by
    decide +kernel
  exact ⟨hcs, hrs, hlive, uses_afterAll nameHash {} twoConstants recycledEdge hcs hrs hlive,
    by decide +kernel⟩

end Command

end ShaderIR
