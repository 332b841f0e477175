import Mathlib.Data.Set.Card
import ShaderIR.Proofs.VerificationSuccess

/-! What a verification decides. Nothing is assumed of the store: edges, links, lists of children,
parents, entries of tables and tracked locations may be anything. The walk of a use list ends even
if its links run in a circle, and a verification finds nothing exactly when the store is intact. -/

namespace ShaderIR

namespace UseGraph

variable {g : UseGraph} {head : Option EdgeId} {es : List EdgeId}

theorem Linked.prev_getElem (h : g.Linked head es) {i : Nat} (hi : i < es.length) :
    (g.edge es[i]).prev = if i = 0 then none else es[i - 1]? := by
  have hsplit : es = es.take i ++ es[i] :: es.drop (i + 1) := by
    rw [← List.drop_eq_getElem_cons hi, List.take_append_drop]
  rw [(h.2 _ _ _ hsplit).1]
  rcases i with _ | i
  · rfl
  · rw [if_neg (Nat.succ_ne_zero i), List.getLast?_take]
    simp [List.getElem?_eq_getElem (Nat.lt_of_succ_lt hi)]

theorem Linked.nodup (h : g.Linked head es) : es.Nodup := by
  have hne (i : Nat) : ∀ j, i < j → j < es.length → es[i]? ≠ es[j]? := by
    induction i with
    | zero =>
      intro j hij hj heq
      have hi := hij.trans hj
      rw [List.getElem?_eq_getElem hi, List.getElem?_eq_getElem hj] at heq
      have hprev := h.prev_getElem hi
      rw [Option.some.inj heq, h.prev_getElem hj, if_neg (Nat.ne_of_gt hij), if_pos rfl,
        List.getElem?_eq_getElem (by omega)] at hprev
      cases hprev
    | succ i ih =>
      intro j hij hj heq
      have hi := hij.trans hj
      rw [List.getElem?_eq_getElem hi, List.getElem?_eq_getElem hj] at heq
      have hprev := h.prev_getElem hi
      rw [Option.some.inj heq, h.prev_getElem hj, if_neg (by omega), if_neg (by omega),
        Nat.add_sub_cancel] at hprev
      exact ih (j - 1) (by omega) (by omega) hprev.symm
  rw [List.nodup_iff_getElem?_ne_getElem?]
  exact fun i j hij hj => hne i j hij hj

end UseGraph

/-- The places that a child may name which stands in a list: a module takes its functions and its
globals for members of one kind. -/
def Place.Admits : Place → Place → Prop
  | .functions m, q | .globals m, q => q = .functions m ∨ q = .globals m
  | p, q => q = p

/-- Every child that is listed names its container, and every child that names a container is
listed there, an argument in its own position. -/
structure Layout.Related (L : Layout) : Prop where
  child : ∀ {v p}, v ∈ L.children p → ∃ q, L.place v = some q ∧ p.Admits q
  listed : ∀ {v p}, L.place v = some p → v ∈ L.children p
  argument : ∀ {v f}, v ∈ L.arguments f → ∃ i, L.position v = some (f, i)
  positioned : ∀ {v f i}, L.position v = some (f, i) → (L.arguments f)[i]? = some v

namespace Store

variable {s : Store} {v : ValueId} {d : Value}

section Walking

/-- How the walk of a use list ends that has counted some links and come to a cursor: at the end of
the list, or at a link that disagrees with the one before it, or once it has counted more links than
there are edges. -/
inductive WalkEnds (s : Store) (v : ValueId) :
    Nat → Option EdgeId → Option EdgeId → List Defect × Nat → Prop
  | last {listed prev} : WalkEnds s v listed prev none ([], listed)
  | broken {listed prev e}
      (h : (s.uses.edge e).prev ≠ prev ∨ s.uses.edges.size < listed) :
      WalkEnds s v listed prev (some e) ([.brokenLinks v], listed)
  | link {listed prev e found total} (hp : (s.uses.edge e).prev = prev)
      (hl : listed ≤ s.uses.edges.size)
      (rest : WalkEnds s v (listed + 1) (some e) (s.uses.edge e).next (found, total)) :
      WalkEnds s v listed prev (some e)
        ((if (s.uses.edge e).target = some v then [] else [.foreignEdge v (s.uses.edge e).target]) ++
          found, total)

theorem walkEnds_walk (s : Store) (v : ValueId) {steps listed : Nat}
    (h : steps + listed = s.uses.edges.size + 1) (prev cursor : Option EdgeId) :
    s.WalkEnds v listed prev cursor (s.walk v steps listed prev cursor) := by
  induction steps generalizing listed prev cursor with
  | zero =>
    cases cursor with
    | none => exact .last
    | some e => exact .broken (.inr (by omega))
  | succ steps ih =>
    cases cursor with
    | none => exact .last
    | some e =>
      by_cases hp : (s.uses.edge e).prev = prev
      · simp only [walk, hp, ne_eq, not_true_eq_false, if_false]
        exact .link hp (by omega) (ih (by omega) (some e) (s.uses.edge e).next)
      · simp only [walk, ne_eq, hp, not_false_eq_true, if_true]
        exact .broken (.inl hp)

theorem WalkEnds.unique {listed : Nat} {prev cursor : Option EdgeId} {r r' : List Defect × Nat}
    (h : s.WalkEnds v listed prev cursor r) (h' : s.WalkEnds v listed prev cursor r') : r = r' := by
  induction h generalizing r' with
  | last =>
    cases h'
    rfl
  | broken hb =>
    cases h' with
    | broken => rfl
    | link hp hl => exact (hb.elim (absurd hp) fun hlt => absurd hl (Nat.not_le_of_lt hlt))
  | link hp hl _ ih =>
    cases h' with
    | broken hb => exact (hb.elim (absurd hp) fun hlt => absurd hl (Nat.not_le_of_lt hlt))
    | link _ _ rest =>
      obtain ⟨rfl, rfl⟩ := Prod.mk.inj (ih rest)
      rfl

theorem linked_of_walk {steps listed total : Nat} {prev cursor : Option EdgeId}
    (h : s.walk v steps listed prev cursor = ([], total)) :
    ∃ es : List EdgeId, total = listed + es.length ∧ cursor = es.head? ∧
      (∀ e ∈ es, (s.uses.edge e).target = some v) ∧ ∀ as e bs, es = as ++ e :: bs →
        (s.uses.edge e).prev = as.getLast?.or prev ∧ (s.uses.edge e).next = bs.head? := by
  induction steps generalizing listed prev cursor with
  | zero =>
    cases cursor with
    | none =>
      obtain rfl : listed = total := (Prod.mk.inj h).2
      exact ⟨[], rfl, rfl, by simp, by simp⟩
    | some e => cases h
  | succ steps ih =>
    cases cursor with
    | none =>
      obtain rfl : listed = total := (Prod.mk.inj h).2
      exact ⟨[], rfl, rfl, by simp, by simp⟩
    | some e =>
      simp only [walk] at h
      split at h
      · cases h
      next hp =>
        obtain ⟨hdefects, htotal⟩ := Prod.mk.inj h
        obtain ⟨htarget, hfound⟩ := List.append_eq_nil_iff.1 hdefects
        obtain ⟨es, hlen, hcursor, hes, hlinks⟩ := ih (Prod.ext hfound htotal)
        refine ⟨e :: es, by rw [hlen, List.length_cons]; omega, rfl, ?_, fun as x bs hs => ?_⟩
        · rintro x (_ | ⟨_, hx⟩)
          · by_contra hne
            rw [if_neg hne] at htarget
            cases htarget
          · exact hes x hx
        · cases as with
          | nil =>
            obtain ⟨rfl, rfl⟩ := List.cons.inj hs
            exact ⟨not_not.1 hp, hcursor⟩
          | cons a as =>
            obtain ⟨rfl, hes⟩ := List.cons.inj hs
            obtain ⟨hprev, hnext⟩ := hlinks as x bs hes
            refine ⟨hprev.trans ?_, hnext⟩
            rw [List.getLast?_cons]
            cases as.getLast? <;> rfl

end Walking

section Uses

theorem mem_liveSlots_iff {user : ValueId} {slot : Nat} {e : EdgeId} :
    (user, slot, e) ∈ s.liveSlots ↔ s.isLive user ∧ s.IsBehind e user slot := by
  simp only [liveSlots, List.mem_flatMap, List.mem_map, Prod.mk.injEq, mem_liveValues, IsBehind]
  constructor
  · rintro ⟨v, hv, ⟨e', i⟩, he, rfl, rfl, rfl⟩
    exact ⟨hv, List.mem_zipIdx_iff_getElem?.1 he⟩
  · rintro ⟨hv, he⟩
    exact ⟨user, hv, (e, slot), List.mem_zipIdx_iff_getElem?.2 he, rfl, rfl, rfl⟩

theorem nodup_map_liveSlots (s : Store) : (s.liveSlots.map fun x => Use.mk x.1 x.2.1).Nodup := by
  have hmap : (s.liveSlots.map fun x => Use.mk x.1 x.2.1) = s.liveValues.flatMap fun v =>
      (List.range (s.uses.slotsOf v).length).map (Use.mk v) := by
    rw [liveSlots, List.map_flatMap]
    refine List.flatMap_congr fun v _ => ?_
    rw [List.map_map, List.range_eq_range', ← List.zipIdx_map_snd 0, List.map_map]
    rfl
  rw [hmap, List.nodup_flatMap]
  refine ⟨fun v _ => List.Nodup.map (fun i j hij => (Use.mk.inj hij).2) List.nodup_range, ?_⟩
  refine (nodup_liveValues s).imp fun {v w} hvw => ?_
  intro u hu hu'
  obtain ⟨_, -, rfl⟩ := List.mem_map.1 hu
  obtain ⟨_, -, heq⟩ := List.mem_map.1 hu'
  exact hvw (Use.mk.inj heq).1.symm

theorem slotsAt_eq_ncard (s : Store) (v : ValueId) :
    s.slotsAt v = Set.ncard {u : Use | Query.operand u.user u.slot s = .ok (some v)} := by
  let us := (s.liveSlots.filter fun x => (s.uses.edge x.2.2).target = some v).map
    fun x => Use.mk x.1 x.2.1
  have hnodup : us.Nodup := (nodup_map_liveSlots s).sublist (List.filter_sublist.map _)
  have hset : {u : Use | Query.operand u.user u.slot s = .ok (some v)} = us.toFinset := by
    ext u
    rw [Set.mem_ofPred_eq, operand_ok, List.coe_toFinset, Set.mem_ofPred_eq, List.mem_map]
    constructor
    · rintro ⟨hlive, e, he, ht⟩
      exact ⟨(u.user, u.slot, e),
        List.mem_filter.2 ⟨mem_liveSlots_iff.2 ⟨hlive, he⟩, decide_eq_true ht⟩, rfl⟩
    · rintro ⟨x, hx, rfl⟩
      obtain ⟨hx, ht⟩ := List.mem_filter.1 hx
      obtain ⟨hlive, he⟩ := mem_liveSlots_iff.1 hx
      exact ⟨hlive, x.2.2, he, of_decide_eq_true ht⟩
  rw [hset, Set.ncard_coe_finset, List.toFinset_card_of_nodup hnodup, List.length_map, slotsAt]

/-- An operand slot of a live value is backed by the edge that records it, and that points at
nothing or at a live value. -/
structure BacksSlot (s : Store) (user : ValueId) (slot : Nat) (e : EdgeId) : Prop where
  user : (s.uses.edge e).user = user
  slot : (s.uses.edge e).slot = slot
  target : ∀ t, (s.uses.edge e).target = some t → s.isLive t

theorem slotDefects_eq_nil_iff {user : ValueId} {slot : Nat} {e : EdgeId} :
    s.slotDefects user slot e = [] ↔ s.BacksSlot user slot e := by
  have howner : (if (s.uses.edge e).user ≠ user ∨ (s.uses.edge e).slot ≠ slot
      then [Defect.edgeOwnerMismatch user slot (s.uses.edge e).user (s.uses.edge e).slot] else []) =
        [] ↔ (s.uses.edge e).user = user ∧ (s.uses.edge e).slot = slot := by
    by_cases hu : (s.uses.edge e).user = user <;> by_cases hs : (s.uses.edge e).slot = slot <;>
      simp [hu, hs]
  rw [slotDefects, List.append_eq_nil_iff, howner]
  constructor
  · rintro ⟨⟨hu, hs⟩, ht⟩
    refine ⟨hu, hs, fun t htarget => ?_⟩
    by_contra hdead
    simp [htarget, hdead] at ht
  · intro h
    refine ⟨⟨h.user, h.slot⟩, ?_⟩
    split
    next t htarget => exact if_pos (h.target t htarget)
    next => rfl

/-- A list of different edges that point at a value, each of which knows its neighbours, as many as
there are operands that are the value. -/
structure ListsUses (s : Store) (v : ValueId) (es : List EdgeId) : Prop where
  linked : s.uses.Linked (s.uses.head? v) es
  nodup : es.Nodup
  target : ∀ e ∈ es, (s.uses.edge e).target = some v
  length : es.length = Set.ncard {u : Use | Query.operand u.user u.slot s = .ok (some v)}

theorem useListDefects_eq_nil_iff : s.useListDefects v = [] ↔ ∃ es, s.ListsUses v es := by
  constructor
  · intro h
    obtain ⟨hfound, hcount⟩ := List.append_eq_nil_iff.1 h
    obtain ⟨es, hlen, hhead, htarget, hlinks⟩ := linked_of_walk (Prod.ext hfound rfl)
    rw [Nat.zero_add] at hlen
    have hlinked : s.uses.Linked (s.uses.head? v) es :=
      ⟨hhead, fun as e bs hs => by simpa using hlinks as e bs hs⟩
    refine ⟨es, hlinked, hlinked.nodup, htarget, ?_⟩
    rw [← slotsAt_eq_ncard, ← hlen]
    by_contra hne
    rw [if_pos hne] at hcount
    cases hcount
  · rintro ⟨es, h⟩
    have hle : es.length ≤ s.uses.edges.size := UseGraph.length_le_size h.nodup fun e he =>
      UseGraph.index_lt_of_target (h.target e he)
    have hwalk := walk_of_linked h.linked h.target (List.nil_append _).symm
      (Nat.le_succ_of_le hle) 0
    rw [List.getLast?_nil, ← h.linked.1, Nat.zero_add] at hwalk
    simp [useListDefects, hwalk, slotsAt_eq_ncard, h.length]

theorem useDefects_eq_nil_iff : s.useDefects = [] ↔
    (∀ {user slot e}, s.isLive user → s.IsBehind e user slot → s.BacksSlot user slot e) ∧
      ∀ v, s.isLive v → ∃ es, s.ListsUses v es := by
  rw [useDefects, List.append_eq_nil_iff, List.flatMap_eq_nil_iff, List.flatMap_eq_nil_iff]
  refine and_congr ⟨fun h user slot e hlive he => ?_, fun h x hx => ?_⟩
    (forall_congr' fun v => imp_congr mem_liveValues useListDefects_eq_nil_iff)
  · exact slotDefects_eq_nil_iff.1 (h (user, slot, e) (mem_liveSlots_iff.2 ⟨hlive, he⟩))
  · obtain ⟨hlive, he⟩ := mem_liveSlots_iff.1 hx
    exact slotDefects_eq_nil_iff.2 (h hlive he)

end Uses

section Containers

variable {p : Place} {m : ModuleId} {f b : ValueId} {dm : Module}

theorem place_eq_some_iff :
    s.layout.place v = some p ↔ ∃ d, s.values.get? v = some d ∧ d.payload.place = some p :=
  ⟨get?_of_place, fun ⟨_, hd, hp⟩ => (layout_place hd).trans hp⟩

theorem payloadIs_iff_place {q : Payload → Bool} (hq : ∀ x, q x = true ↔ x.place = some p) :
    s.payloadIs v q = true ↔ s.layout.place v = some p := by
  simp only [payloadIs_iff, place_eq_some_iff, hq]

theorem payloadIs_isBlockOf :
    s.payloadIs v (isBlockOf f) = true ↔ s.layout.place v = some (.blocks f) :=
  payloadIs_iff_place fun x => ⟨fun hx => by cases x <;> simp_all [isBlockOf, Payload.place],
    isBlockOf_of_place⟩

theorem payloadIs_isInstructionOf :
    s.payloadIs v (isInstructionOf b) = true ↔ s.layout.place v = some (.instructions b) :=
  payloadIs_iff_place fun x =>
    ⟨fun hx => by cases x <;> simp_all [isInstructionOf, Payload.place], isInstructionOf_of_place⟩

theorem payloadIs_isArgumentOf :
    s.payloadIs v (isArgumentOf f) = true ↔ ∃ i, s.layout.position v = some (f, i) := by
  constructor
  · rw [payloadIs_iff]
    rintro ⟨d, hd, hq⟩
    rw [layout_position hd]
    obtain ⟨_, x, _, _, _⟩ := d
    cases x <;> simp_all [isArgumentOf, Payload.position]
  · rintro ⟨i, hi⟩
    exact payloadIs_of_position hi

theorem payloadIs_namesModule : s.payloadIs v (namesModule m) = true ↔
    ∃ p, s.layout.place v = some p ∧ (p = .functions m ∨ p = .globals m) := by
  constructor
  · rw [payloadIs_iff]
    rintro ⟨d, hd, hq⟩
    rw [layout_place hd]
    obtain ⟨_, x, _, _, _⟩ := d
    cases x <;> simp_all [namesModule, Payload.place]
  · rintro ⟨p, hp, rfl | rfl⟩
    · exact payloadIs_of_place hp fun x hx => namesModule_of_place (.inl hx)
    · exact payloadIs_of_place hp fun x hx => namesModule_of_place (.inr hx)

theorem mem_children_functions : v ∈ s.layout.children (.functions m) ↔
    ∃ dm, s.modules.get? m = some dm ∧ v ∈ dm.functions := by
  cases hm : s.modules.get? m <;> simp [layout, childrenAt, hm]

theorem mem_children_globals : v ∈ s.layout.children (.globals m) ↔
    ∃ dm, s.modules.get? m = some dm ∧ v ∈ dm.globals := by
  cases hm : s.modules.get? m <;> simp [layout, childrenAt, hm]

theorem payloadIs_listsBlock_iff :
    s.payloadIs f (listsBlock v) = true ↔ v ∈ s.layout.children (.blocks f) := by
  refine ⟨fun h => ?_, payloadIs_listsBlock⟩
  obtain ⟨d, hd, hq⟩ := payloadIs_iff.1 h
  rw [layout_blocks hd]
  obtain ⟨_, x, _, _, _⟩ := d
  cases x <;> simp_all [listsBlock, Payload.blocks]

theorem payloadIs_listsInstruction_iff :
    s.payloadIs b (listsInstruction v) = true ↔ v ∈ s.layout.children (.instructions b) := by
  refine ⟨fun h => ?_, payloadIs_listsInstruction⟩
  obtain ⟨d, hd, hq⟩ := payloadIs_iff.1 h
  rw [layout_instructions hd]
  obtain ⟨_, x, _, _, _⟩ := d
  cases x <;> simp_all [listsInstruction, Payload.instructions]

theorem payloadIs_listsArgument_iff {i : Nat} :
    s.payloadIs f (listsArgument v i) = true ↔ (s.layout.arguments f)[i]? = some v := by
  refine ⟨fun h => ?_, payloadIs_listsArgument⟩
  obtain ⟨d, hd, hq⟩ := payloadIs_iff.1 h
  rw [layout_arguments hd]
  obtain ⟨_, x, _, _, _⟩ := d
  cases x <;> simp_all [listsArgument, Payload.arguments]

theorem strayChildren_eq_nil_iff {container : String} {q : Payload → Bool} {vs : List ValueId} :
    s.strayChildren container q vs = [] ↔ ∀ v ∈ vs, s.payloadIs v q = true := by
  refine ⟨fun h v hv => ?_, strayChildren_eq_nil⟩
  rw [strayChildren, List.map_eq_nil_iff, List.filter_eq_nil_iff] at h
  simpa using h v hv

theorem moduleDefects_eq_nil_iff (hm : s.modules.get? m = some dm) : s.moduleDefects m dm = [] ↔
    ∀ v, v ∈ s.layout.children (.functions m) ∨ v ∈ s.layout.children (.globals m) →
      ∃ q, s.layout.place v = some q ∧ (q = .functions m ∨ q = .globals m) := by
  rw [moduleDefects, strayChildren_eq_nil_iff, layout_functions hm, layout_globals hm]
  simp only [List.mem_append, payloadIs_namesModule]

theorem childDefects_eq_nil_iff (hd : s.values.get? v = some d) :
    s.childDefects v d.payload = [] ↔
      (∀ w ∈ s.layout.arguments v, ∃ i, s.layout.position w = some (v, i)) ∧
      (∀ w ∈ s.layout.children (.blocks v), s.layout.place w = some (.blocks v)) ∧
      ∀ w ∈ s.layout.children (.instructions v), s.layout.place w = some (.instructions v) := by
  rw [layout_arguments hd, layout_blocks hd, layout_instructions hd]
  cases d.payload with
  | function parent arguments blocks =>
    rw [childDefects, List.append_eq_nil_iff, strayChildren_eq_nil_iff, strayChildren_eq_nil_iff]
    simp [payloadIs_isArgumentOf, payloadIs_isBlockOf, Payload.arguments, Payload.blocks,
      Payload.instructions]
  | block parent insts =>
    rw [childDefects, strayChildren_eq_nil_iff]
    simp [payloadIs_isInstructionOf, Payload.arguments, Payload.blocks, Payload.instructions]
  | _ => simp [childDefects, Payload.arguments, Payload.blocks, Payload.instructions]

theorem parentDefects_eq_nil_iff (hd : s.values.get? v = some d) :
    s.parentDefects v d.payload = [] ↔
      (∀ p, s.layout.place v = some p → v ∈ s.layout.children p) ∧
      ∀ f i, s.layout.position v = some (f, i) → (s.layout.arguments f)[i]? = some v := by
  have hdefects : s.parentDefects v d.payload = [] ↔
      ∀ container listed, s.membership v d.payload = some (container, listed) → listed = true := by
    unfold parentDefects
    split
    next container h => simp [h]
    next h =>
      refine iff_of_true rfl fun container listed hl => ?_
      cases listed with
      | true => rfl
      | false => exact absurd hl (h container)
  rw [hdefects, layout_place hd, layout_position hd]
  cases d.payload with
  | argument f i =>
    simp [membership, Payload.place, Payload.position, payloadIs_listsArgument_iff]
  | block parent insts =>
    cases parent <;> simp [membership, Payload.place, Payload.position, payloadIs_listsBlock_iff]
  | instruction parent opcode =>
    cases parent <;>
      simp [membership, Payload.place, Payload.position, payloadIs_listsInstruction_iff]
  | function parent arguments blocks =>
    cases parent <;>
      simp [membership, Payload.place, Payload.position, mem_children_functions, Option.any_eq_true]
  | global parent =>
    cases parent <;>
      simp [membership, Payload.place, Payload.position, mem_children_globals, Option.any_eq_true]
  | _ => simp [membership, Payload.place, Payload.position]

theorem containerDefects_eq_nil_iff : s.containerDefects = [] ↔ s.layout.Related := by
  rw [containerDefects, List.append_eq_nil_iff, List.append_eq_nil_iff, List.flatMap_eq_nil_iff,
    List.flatMap_eq_nil_iff, List.flatMap_eq_nil_iff]
  constructor
  · rintro ⟨⟨hmodules, hchildren⟩, hparents⟩
    have hmodule {m dm} (hm : s.modules.get? m = some dm) :=
      (moduleDefects_eq_nil_iff hm).1 (hmodules (m, dm) (Arena.mem_toList.2 hm))
    have hchild {v d} (hd : s.values.get? v = some d) :=
      (childDefects_eq_nil_iff hd).1 (hchildren (v, d) (Arena.mem_toList.2 hd))
    have hparent {v d} (hd : s.values.get? v = some d) :=
      (parentDefects_eq_nil_iff hd).1 (hparents (v, d) (Arena.mem_toList.2 hd))
    refine ⟨fun {v p} hv => ?_, fun {v p} hp => ?_, fun {v f} hv => ?_, fun {v f i} hi => ?_⟩
    · cases p with
      | functions m =>
        obtain ⟨dm, hm⟩ := module_of_mem (.inl hv)
        exact hmodule hm v (.inl hv)
      | globals m =>
        obtain ⟨dm, hm⟩ := module_of_mem (.inr hv)
        exact hmodule hm v (.inr hv)
      | blocks f =>
        obtain ⟨-, d, hd, -⟩ := layout_kind.1 (kind_of_mem_blocks hv)
        exact ⟨_, (hchild hd).2.1 v hv, rfl⟩
      | instructions b =>
        obtain ⟨-, d, hd, -⟩ := layout_kind.1 (kind_of_mem_instructions hv)
        exact ⟨_, (hchild hd).2.2 v hv, rfl⟩
    · obtain ⟨d, hd, -⟩ := get?_of_place hp
      exact (hparent hd).1 p hp
    · obtain ⟨-, d, hd, -⟩ := layout_kind.1 (kind_of_mem_arguments hv)
      exact (hchild hd).1 v hv
    · obtain ⟨d, hd, -⟩ := get?_of_position hi
      exact (hparent hd).2 f i hi
  · intro h
    refine ⟨⟨fun x hx => ?_, fun x hx => ?_⟩, fun x hx => ?_⟩
    · exact (moduleDefects_eq_nil_iff (Arena.mem_toList.1 hx)).2
        fun v hv => hv.elim h.child h.child
    · refine (childDefects_eq_nil_iff (Arena.mem_toList.1 hx)).2
        ⟨fun w hw => h.argument hw, fun w hw => ?_, fun w hw => ?_⟩
      · obtain ⟨q, hq, rfl⟩ := h.child hw
        exact hq
      · obtain ⟨q, hq, rfl⟩ := h.child hw
        exact hq
    · exact (parentDefects_eq_nil_iff (Arena.mem_toList.1 hx)).2
        ⟨fun p hp => h.listed hp, fun f i hi => h.positioned hi⟩

end Containers

section Names

variable {scope : Scope} {h : UInt64}

theorem mem_liveScopes {t : SymbolTable} :
    s.layout.tables scope = some t ↔ scope ∈ s.liveScopes ∧ s.table scope = t := by
  cases scope with
  | function f =>
    rw [tables_function, ← payloadIs_isFunction, payloadIs_iff]
    simp only [liveScopes, List.mem_append, List.mem_map, List.mem_filter, Scope.function.injEq,
      reduceCtorEq, and_false, exists_false, or_false]
    refine and_congr_left fun _ => ⟨?_, ?_⟩
    · rintro ⟨d, hd, hq⟩
      exact ⟨(f, d), ⟨Arena.mem_toList.2 hd, hq⟩, rfl⟩
    · rintro ⟨⟨_, d⟩, ⟨hd, hq⟩, rfl⟩
      exact ⟨d, Arena.mem_toList.1 hd, hq⟩
  | module m =>
    rw [tables_module]
    simp only [liveScopes, liveModules, List.mem_append, List.mem_map, List.map_map, reduceCtorEq,
      and_false, exists_false, false_or, Function.comp_apply, Scope.module.injEq]
    refine and_congr_left fun _ => ⟨?_, ?_⟩
    · rintro ⟨dm, hm⟩
      exact ⟨(m, dm), Arena.mem_toList.2 hm, rfl⟩
    · rintro ⟨⟨_, dm⟩, hm, rfl⟩
      exact ⟨dm, Arena.mem_toList.1 hm⟩

theorem nameDefects_eq_nil_iff (hd : s.values.get? v = some d) : s.nameDefects v d = [] ↔
    ∀ h scope, s.layout.symbol v = some h → s.layout.scope v = some scope →
      ∃ t, s.layout.tables scope = some t ∧ t.find? h = some v := by
  have hregistered {hash : UInt64} {scope : Scope} : s.isRegistered v hash scope = true ↔
      ∃ t, s.layout.tables scope = some t ∧ t.find? hash = some v := by
    rw [isRegistered, Option.any_eq_true]
    simp only [decide_eq_true_eq]
    rfl
  unfold nameDefects
  rw [attachedScope_eq hd]
  split
  next name scope hname hscope =>
    have hsymbol : s.layout.symbol v = some d.nameHash := by
      rw [layout_symbol hd (isResident_of_scope hscope hd), Value.symbol, hname]
      rfl
    rw [hsymbol, hscope]
    by_cases hr : s.isRegistered v d.nameHash scope = true
    · simpa [hr] using hregistered.1 hr
    · simpa [hr] using fun t ht hf => hr (hregistered.2 ⟨t, ht, hf⟩)
  next hnone =>
    refine iff_of_true rfl fun h scope hsymbol hscope => ?_
    obtain ⟨name, hname, -⟩ := Option.map_eq_some_iff.1 (layout_symbol_eq_some hsymbol hd)
    exact absurd hscope (hnone name scope hname)

theorem ownsSymbol_iff : s.ownsSymbol scope h v = true ↔
    s.layout.symbol v = some h ∧ s.layout.scope v = some scope := by
  rw [ownsSymbol, Option.any_eq_true]
  constructor
  · rintro ⟨d, hd, hq⟩
    simp only [Bool.and_eq_true, decide_eq_true_eq, Option.isSome_iff_exists] at hq
    obtain ⟨⟨⟨name, hname⟩, hhash⟩, hscope⟩ := hq
    rw [attachedScope_eq hd] at hscope
    rw [layout_symbol hd (isResident_of_scope hscope hd), Value.symbol, hname, Option.map_some,
      hhash]
    exact ⟨rfl, hscope⟩
  · rintro ⟨hsymbol, hscope⟩
    obtain ⟨d', hr, -⟩ := Option.bind_eq_some_iff.1 hsymbol
    obtain ⟨d, hd, -⟩ := get?_of_resident? hr
    obtain ⟨name, hname, hhash⟩ := Option.map_eq_some_iff.1 (layout_symbol_eq_some hsymbol hd)
    exact ⟨d, hd, by simp [hname, hhash, attachedScope_eq hd, hscope]⟩

theorem namingDefects_eq_nil_iff : s.namingDefects = [] ↔ s.layout.Named True [] := by
  rw [namingDefects, List.append_eq_nil_iff, List.flatMap_eq_nil_iff, List.flatMap_eq_nil_iff]
  constructor
  · rintro ⟨hnames, hsymbols⟩
    refine ⟨fun _ {v h scope} _ hsymbol hscope => ?_, fun {scope t h v} ht hf => ?_⟩
    · obtain ⟨d', hr, -⟩ := Option.bind_eq_some_iff.1 hsymbol
      obtain ⟨d, hd, -⟩ := get?_of_resident? hr
      exact (nameDefects_eq_nil_iff hd).1 (hnames (v, d) (Arena.mem_toList.2 hd)) h scope hsymbol
        hscope
    · obtain ⟨hlive, rfl⟩ := mem_liveScopes.1 ht
      have hstale := hsymbols scope hlive
      rw [symbolDefects, List.map_eq_nil_iff, List.filter_eq_nil_iff] at hstale
      have howned := hstale (h, v) (Std.ExtTreeMap.mem_toList_iff_getElem?_eq_some.2 hf)
      rw [Bool.not_eq_true', Bool.not_eq_false] at howned
      exact ⟨List.not_mem_nil, ownsSymbol_iff.1 howned⟩
  · intro hn
    exact ⟨fun x hx => nameDefects_eq_nil hn (Arena.mem_toList.1 hx),
      fun scope hscope => symbolDefects_eq_nil hn hscope⟩

end Names

theorem trackingDefects_eq_nil_iff : s.trackingDefects = [] ↔
    ∀ {n l}, s.isNodeLive n → l ∈ s.metadata.tracker.tracked n → s.held? l = some n := by
  rw [trackingDefects, List.flatMap_eq_nil_iff]
  simp only [List.map_eq_nil_iff, List.filter_eq_nil_iff, decide_not, Bool.not_eq_true',
    decide_eq_false_iff_not, not_not, Prod.forall, Arena.mem_toList, isNodeLive,
    Option.isSome_iff_exists, forall_exists_index]
  exact ⟨fun h n l d hd hl => h n d hd l hl, fun h n d hd l hl => h d hd hl⟩

/-- Nothing that a store links to something else disagrees with it. -/
structure Intact (s : Store) : Prop where
  slot : ∀ {user slot e}, s.isLive user → s.IsBehind e user slot → s.BacksSlot user slot e
  uses : ∀ v, s.isLive v → ∃ es, s.ListsUses v es
  related : s.layout.Related
  entered : ∀ {v h scope}, s.layout.symbol v = some h → s.layout.scope v = some scope →
    ∃ t, s.layout.tables scope = some t ∧ t.find? h = some v
  owned : ∀ {scope t h v}, s.layout.tables scope = some t → t.find? h = some v →
    s.layout.symbol v = some h ∧ s.layout.scope v = some scope
  tracked : ∀ {n l}, s.isNodeLive n → l ∈ s.metadata.tracker.tracked n → s.held? l = some n

/-- Whatever state a store is in, the walk of each use list ends, in the one way in which its loop
can end, and a verification finds nothing exactly when the store is intact. -/
theorem verify_eq_nil_iff_intact (s : Store) :
    (∀ v r, s.WalkEnds v 0 none (s.uses.head? v) r ↔
      s.walk v (s.uses.edges.size + 1) 0 none (s.uses.head? v) = r) ∧
    (s.verify = [] ↔ s.Intact) := by
  have hwalk (v : ValueId) :=
    walkEnds_walk s v (Nat.add_zero (s.uses.edges.size + 1)) none (s.uses.head? v)
  refine ⟨fun v r => ⟨fun h => (hwalk v).unique h, fun h => h ▸ hwalk v⟩, ?_⟩
  rw [verify, List.append_eq_nil_iff, List.append_eq_nil_iff, List.append_eq_nil_iff,
    useDefects_eq_nil_iff, containerDefects_eq_nil_iff, namingDefects_eq_nil_iff,
    trackingDefects_eq_nil_iff]
  constructor
  · rintro ⟨⟨⟨⟨hslot, huses⟩, hrelated⟩, hnamed⟩, htracked⟩
    exact ⟨hslot, huses, hrelated, hnamed.entered trivial List.not_mem_nil,
      fun ht hf => (hnamed.owned ht hf).2, htracked⟩
  · intro h
    exact ⟨⟨⟨⟨h.slot, h.uses⟩, h.related⟩, fun _ _ _ _ _ => h.entered,
      fun ht hf => ⟨List.not_mem_nil, h.owned ht hf⟩⟩, h.tracked⟩

end Store

end ShaderIR
