import ShaderIR.Proofs.Answers
import ShaderIR.Proofs.EdgeOwnership

/-! The operands of a value as a list. Pointing an edge somewhere else writes one place of one
list. -/

namespace ShaderIR

namespace UseGraph

def targets (g : UseGraph) (v : ValueId) : List (Option ValueId) :=
  (g.slotsOf v).map fun e => (g.edge e).target

theorem getElem?_targets (g : UseGraph) (v : ValueId) (i : Nat) :
    (g.targets v)[i]? = (g.slotsOf v)[i]?.map fun e => (g.edge e).target :=
  List.getElem?_map ..

namespace Sound

variable {g : UseGraph} {live : ValueId → Prop} {u v t : ValueId} {e : EdgeId} {i : Nat}

theorem mem_uses_iff (h : g.Sound live) {x : Use} : x ∈ (g.useList v).map g.use ↔
    (g.targets x.user)[x.slot]? = some (some v) := by
  rw [h.mem_uses, getElem?_targets, Option.map_eq_some_iff]

theorem getElem?_of_target (h : g.Sound live) (ht : (g.edge e).target = some t) :
    (g.targets (g.edge e).user)[(g.edge e).slot]? = some (some t) := by
  rw [getElem?_targets, (h.slot_of_target ht).2, Option.map_some, ht]

theorem targets_of_edge (h : g.Sound live) {g' : UseGraph} (he : (g.slotsOf u)[i]? = some e)
    (hslots : ∀ v, g'.slotsOf v = g.slotsOf v) {o : Option ValueId}
    (ho : ∀ x, (g'.edge x).target = if x = e then o else (g.edge x).target) (v : ValueId) :
    g'.targets v = if u = v then (g.targets v).set i o else g.targets v := by
  obtain ⟨-, hu, hi⟩ := h.slot he
  apply List.ext_getElem?
  intro j
  rw [getElem?_targets, hslots]
  cases hj : (g.slotsOf v)[j]? with
  | none =>
    have hnone : (g.targets v)[j]? = none := by rw [getElem?_targets, hj, Option.map_none]
    split
    · rw [List.getElem?_set]
      grind
    · exact hnone.symm
  | some x =>
    obtain ⟨-, hv, hxj⟩ := h.slot hj
    have hx : (g.targets v)[j]? = some (g.edge x).target := by
      rw [getElem?_targets, hj, Option.map_some]
    rw [Option.map_some, ho]
    split
    next hxe =>
      subst hxe
      obtain rfl : u = v := hu.symm.trans hv
      obtain rfl : i = j := hi.symm.trans hxj
      rw [if_pos rfl, List.getElem?_set, if_pos rfl, if_pos (List.getElem?_eq_some_iff.1 hx).1]
    next hxe =>
      split
      next huv =>
        subst huv
        have hij : i ≠ j := fun hij => hxe (by simpa [hij, hj] using he)
        rw [List.getElem?_set, if_neg hij, hx]
      next => exact hx.symm

theorem targets_unlink (h : g.Sound live) (he : (g.slotsOf u)[i]? = some e) (v : ValueId) :
    (g.unlink e).targets v = if u = v then (g.targets v).set i none else g.targets v :=
  h.targets_of_edge he (sameSlots_unlink g e).slotsOf (h.target_unlink e) v

theorem targets_link (h : g.Sound live) (he : (g.slotsOf u)[i]? = some e)
    (hn : (g.edge e).target = none) (t v : ValueId) :
    (g.link e t).targets v = if u = v then (g.targets v).set i (some t) else g.targets v :=
  h.targets_of_edge he (sameSlots_link g e t).slotsOf (h.target_link (h.slot he).1 hn t) v

theorem targets_addSlot (h : g.Sound live) (v : ValueId) :
    (g.addSlot u).2.targets v = if u = v then g.targets v ++ [none] else g.targets v := by
  have hedge : (fun x => ((g.addSlot u).2.edge x).target) = fun x => (g.edge x).target :=
    funext h.target_addSlot
  rw [targets, h.slotsOf_addSlot, hedge]
  split
  next huv =>
    have hnew : (g.edge (g.addSlot u).1).target = none :=
      (h.allocated { user := u, slot := (g.slotsOf u).length }).target
    rw [List.map_append, List.map_singleton, hnew, huv, targets]
  next => rfl

theorem targets_clearSlots (h : g.Sound live) (v : ValueId) :
    (g.clearSlots u).targets v = if u = v then [] else g.targets v := by
  rw [targets, slotsOf_clearSlots]
  split
  · rfl
  next huv =>
    apply List.map_congr_left
    intro e he
    rw [h.target_clearSlots, if_neg]
    intro hu
    exact huv ((h.mem_slots hu).2.1.symm.trans (h.mem_slots he).2.1)

theorem targets_of_dead (h : g.Sound live) (hv : ¬ live v) : g.targets v = [] := by
  rw [targets, List.map_eq_nil_iff, List.eq_nil_iff_forall_not_mem]
  exact fun e he => hv (h.slot_live he)

theorem live_of_targets (h : g.Sound live) (ht : (g.targets v)[i]? = some (some t)) :
    live v ∧ live t := by
  rw [getElem?_targets, Option.map_eq_some_iff] at ht
  obtain ⟨e, he, het⟩ := ht
  exact ⟨h.slot_live (List.mem_of_getElem? he), h.target_live het⟩

theorem ne_of_useList (h : g.Sound live) (hv : g.useList v = [])
    (ht : (g.targets u)[i]? = some (some t)) : t ≠ v := by
  rintro rfl
  have hmem : (⟨u, i⟩ : Use) ∈ (g.useList t).map g.use := h.mem_uses_iff.2 ht
  rw [hv] at hmem
  cases hmem

end Sound

end UseGraph

namespace Query

variable {s : Store} {v : ValueId} {i : Nat}

theorem operands_ok {os : List (Option ValueId)} : operands v s = .ok os ↔
    (∃ d, s.values.get? v = some d) ∧ s.uses.targets v = os := by
  simp only [operands, bind_ok, value_ok, read_ok, pure_ok, UseGraph.targets]
  grind

theorem operand_ok {o : Option ValueId} : operand v i s = .ok o ↔
    (∃ d, s.values.get? v = some d) ∧ (s.uses.targets v)[i]? = some o := by
  simp only [operand, bind_ok, operandEdge_ok, read_ok, pure_ok, UseGraph.getElem?_targets,
    Option.map_eq_some_iff]
  grind

end Query

end ShaderIR
