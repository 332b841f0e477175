import Mathlib.Data.List.Nodup
import Mathlib.Data.List.Perm.Subperm
import ShaderIR.UseGraph

/-! Use lists as lists. The links of the edges that point at a value spell out a list without
repetitions; taking an edge out of it and putting one in front are the list operations of that
name. -/

namespace ShaderIR.UseGraph

variable {g : UseGraph} {L : ValueId → List EdgeId}

theorem index_lt_of_target {e : EdgeId} {v : ValueId} (h : (g.edge e).target = some v) :
    e.index < g.edges.size := by
  refine Nat.lt_of_not_le fun hle => ?_
  have hnone : g.edge e = default := by
    simp only [edge, Array.getElem?_eq_none hle, Option.getD_none]
  rw [hnone] at h
  cases h

def Linked (g : UseGraph) (head : Option EdgeId) (es : List EdgeId) : Prop :=
  head = es.head? ∧ ∀ as e bs, es = as ++ e :: bs →
    (g.edge e).prev = as.getLast? ∧ (g.edge e).next = bs.head?

/-- The use lists of a graph, spelled out. -/
structure Lists (g : UseGraph) (L : ValueId → List EdgeId) : Prop where
  linked : ∀ v, g.Linked (g.head? v) (L v)
  nodup : ∀ v, (L v).Nodup
  mem : ∀ v e, e ∈ L v ↔ (g.edge e).target = some v

theorem Linked.chain {head : Option EdgeId} {es as bs : List EdgeId} (h : g.Linked head es)
    (hs : es = as ++ bs) {n : Nat} (hn : bs.length ≤ n) : g.chain n bs.head? = bs := by
  induction bs generalizing as n with
  | nil => cases n <;> rfl
  | cons e bs ih =>
    obtain ⟨m, rfl⟩ : ∃ m, n = m + 1 := ⟨n - 1, by simp only [List.length_cons] at hn; omega⟩
    simp only [List.head?_cons, UseGraph.chain, (h.2 as e bs hs).2]
    have hs' : es = (as ++ [e]) ++ bs := by simp [hs]
    rw [ih hs' (by simpa using hn)]

theorem length_le_size {es : List EdgeId} (hd : es.Nodup)
    (hlt : ∀ e ∈ es, e.index < g.edges.size) : es.length ≤ g.edges.size := by
  have hm : (es.map Index.index).Nodup :=
    List.Nodup.map_on (fun a _ b _ hab => Index.index_inj.1 hab) hd
  have hs : es.map Index.index ⊆ List.range g.edges.size := fun i hi => by
    obtain ⟨e, he, rfl⟩ := List.mem_map.1 hi
    exact List.mem_range.2 (hlt e he)
  simpa using (List.subperm_of_subset hm hs).length_le

theorem Lists.length_le (h : g.Lists L) (v : ValueId) : (L v).length ≤ g.edges.size :=
  length_le_size (h.nodup v) fun e he => index_lt_of_target ((h.mem v e).1 he)

theorem Lists.useList_apply (h : g.Lists L) (v : ValueId) : g.useList v = L v := by
  rw [UseGraph.useList, (h.linked v).1]
  exact (h.linked v).chain (List.nil_append (L v)).symm (h.length_le v)

theorem Lists.useList_eq (h : g.Lists L) : g.useList = L := funext h.useList_apply

section Fields

variable (g) (e x : EdgeId) (v w : ValueId)

@[simp] theorem size_modifyEdge (f : Edge → Edge) :
    (g.modifyEdge e f).edges.size = g.edges.size := by simp [modifyEdge]

@[simp] theorem size_setHead (o : Option EdgeId) : (g.setHead v o).edges.size = g.edges.size := by
  cases o <;> rfl

@[simp] theorem edge_setHead (o : Option EdgeId) : (g.setHead v o).edge x = g.edge x := by
  cases o <;> rfl

@[simp] theorem slotsOf_setHead (o : Option EdgeId) :
    (g.setHead v o).slotsOf w = g.slotsOf w := by cases o <;> rfl

@[simp] theorem free_setHead (o : Option EdgeId) : (g.setHead v o).free = g.free := by
  cases o <;> rfl

@[simp] theorem head?_modifyEdge (f : Edge → Edge) : (g.modifyEdge e f).head? v = g.head? v := rfl

structure SameSlots (g g' : UseGraph) : Prop where
  size : g'.edges.size = g.edges.size
  free : g'.free = g.free
  slotsOf : ∀ v, g'.slotsOf v = g.slotsOf v
  user : ∀ e, (g'.edge e).user = (g.edge e).user
  slot : ∀ e, (g'.edge e).slot = (g.edge e).slot

theorem sameSlots_modifyEdge {f : Edge → Edge} (hu : ∀ d, (f d).user = d.user)
    (hs : ∀ d, (f d).slot = d.slot) : SameSlots g (g.modifyEdge e f) where
  size := by simp
  free := rfl
  slotsOf _ := rfl
  user x := by rw [edge_modifyEdge]; split <;> simp [hu]
  slot x := by rw [edge_modifyEdge]; split <;> simp [hs]

theorem sameSlots_setHead (o : Option EdgeId) : SameSlots g (g.setHead v o) := by
  constructor <;> simp

variable {g} in
theorem SameSlots.trans {g' g'' : UseGraph} (h : SameSlots g g') (h' : SameSlots g' g'') :
    SameSlots g g'' where
  size := h'.size.trans h.size
  free := h'.free.trans h.free
  slotsOf v := (h'.slotsOf v).trans (h.slotsOf v)
  user e := (h'.user e).trans (h.user e)
  slot e := (h'.slot e).trans (h.slot e)

theorem SameSlots.refl : SameSlots g g := ⟨rfl, rfl, fun _ => rfl, fun _ => rfl, fun _ => rfl⟩

def setNext (g : UseGraph) (v : ValueId) (p n : Option EdgeId) : UseGraph :=
  match p with
  | some p => g.modifyEdge p fun d => { d with next := n }
  | none => g.setHead v n

def setPrev (g : UseGraph) (p n : Option EdgeId) : UseGraph :=
  match n with
  | some n => g.modifyEdge n fun d => { d with prev := p }
  | none => g

theorem link_eq : g.link e v = ((g.modifyEdge e fun d =>
    { d with target := some v, prev := none, next := g.head? v }).setPrev (some e)
      (g.head? v)).setHead v (some e) := rfl

variable {g e v} in
theorem unlink_of_none (h : (g.edge e).target = none) : g.unlink e = g := by
  dsimp only [unlink]
  rw [h]

variable {g e v} in
theorem unlink_of_some (h : (g.edge e).target = some v) : g.unlink e =
    ((g.setNext v (g.edge e).prev (g.edge e).next).setPrev (g.edge e).prev
      (g.edge e).next).modifyEdge e fun d =>
        { d with target := none, prev := none, next := none } := by
  dsimp only [unlink]
  rw [h]
  rfl

theorem sameSlots_setNext (p n : Option EdgeId) : SameSlots g (g.setNext v p n) := by
  cases p with
  | none => exact sameSlots_setHead ..
  | some p => exact sameSlots_modifyEdge g p (fun _ => rfl) fun _ => rfl

theorem sameSlots_setPrev (p n : Option EdgeId) : SameSlots g (g.setPrev p n) := by
  cases n with
  | none => exact SameSlots.refl g
  | some n => exact sameSlots_modifyEdge g n (fun _ => rfl) fun _ => rfl

theorem sameSlots_link : SameSlots g (g.link e v) := by
  rw [link_eq]
  refine SameSlots.trans (SameSlots.trans ?_ (sameSlots_setPrev ..)) (sameSlots_setHead ..)
  exact sameSlots_modifyEdge g e (fun _ => rfl) fun _ => rfl

theorem sameSlots_unlink : SameSlots g (g.unlink e) := by
  cases ht : (g.edge e).target with
  | none =>
    rw [unlink_of_none ht]
    exact SameSlots.refl g
  | some v =>
    rw [unlink_of_some ht]
    have hn := (sameSlots_setNext g v (g.edge e).prev (g.edge e).next).trans
      (sameSlots_setPrev _ (g.edge e).prev (g.edge e).next)
    refine hn.trans ?_
    exact sameSlots_modifyEdge _ e (fun _ => rfl) fun _ => rfl

end Fields

section Links

variable {e x : EdgeId} {v w : ValueId} {p n : Option EdgeId}

theorem edge_modifyEdge_of_lt (he : e.index < g.edges.size) (f : Edge → Edge) :
    (g.modifyEdge e f).edge x = if e = x then f (g.edge x) else g.edge x := by
  simp only [edge_modifyEdge, he, and_true]

theorem edge_setNext (hp : ∀ y, p = some y → y.index < g.edges.size) :
    (g.setNext v p n).edge x = if p = some x then { g.edge x with next := n } else g.edge x := by
  cases p with
  | none => simp [setNext]
  | some p => simp only [setNext, edge_modifyEdge_of_lt (hp p rfl), Option.some.injEq]

theorem edge_setPrev (hn : ∀ y, n = some y → y.index < g.edges.size) :
    (g.setPrev p n).edge x = if n = some x then { g.edge x with prev := p } else g.edge x := by
  cases n with
  | none => simp [setPrev]
  | some n => simp only [setPrev, edge_modifyEdge_of_lt (hn n rfl), Option.some.injEq]

theorem head?_setNext : (g.setNext v p n).head? w =
    if p = none ∧ v = w then n else g.head? w := by
  cases p <;> simp [setNext, head?_setHead]

theorem head?_setPrev : (g.setPrev p n).head? w = g.head? w := by
  cases n <;> rfl

end Links

theorem Lists.link (h : g.Lists L) {e : EdgeId} (he : e.index < g.edges.size)
    (hn : (g.edge e).target = none) (v : ValueId) :
    (g.link e v).Lists fun w => if v = w then e :: L w else L w := by
  have hne : ∀ w, e ∉ L w := fun w hw => by simp [(h.mem w e).1 hw] at hn
  have hhead : g.head? v = (L v).head? := (h.linked v).1
  have hlt : ∀ {x w}, x ∈ L w → x.index < g.edges.size := fun hx =>
    index_lt_of_target ((h.mem _ _).1 hx)
  have hedge (x : EdgeId) : (g.link e v).edge x =
      if x = e then { g.edge e with target := some v, prev := none, next := (L v).head? }
      else if (L v).head? = some x then { g.edge x with prev := some e } else g.edge x := by
    rw [link_eq, edge_setHead, hhead, edge_setPrev, edge_modifyEdge_of_lt he]
    · have hx : (L v).head? = some x → x ≠ e := fun hx hxe =>
        hne v (hxe ▸ List.mem_of_head? hx)
      grind
    · intro y hy
      rw [size_modifyEdge]
      exact hlt (List.mem_of_head? hy)
  refine ⟨fun w => ⟨?_, fun as x bs hs => ?_⟩, fun w => ?_, fun w x => ?_⟩
  · rw [link_eq, head?_setHead, head?_setPrev, head?_modifyEdge]
    split
    · simp
    · exact (h.linked w).1
  · rw [hedge]
    by_cases hvw : v = w
    · subst hvw
      rw [if_pos rfl] at hs
      cases as with
      | nil => obtain ⟨rfl, rfl⟩ := List.cons.inj hs; simp
      | cons a as =>
        obtain ⟨rfl, hv⟩ : e = a ∧ L v = as ++ x :: bs := List.cons.inj hs
        have hx := (h.linked v).2 as x bs hv
        have hxe : x ≠ e := fun hxe => hne v (by simp [hv, hxe])
        rw [if_neg hxe]
        cases as with
        | nil => simp [hv, hx]
        | cons b as =>
          have hbx : b ≠ x := fun hbx => by
            have := h.nodup v
            simp [hv, hbx] at this
          simp [hv, hx, hbx]
    · rw [if_neg hvw] at hs
      have hw : x ∈ L w := by simp [hs]
      have hxe : x ≠ e := fun hxe => hne w (hxe ▸ hw)
      have hv : (L v).head? ≠ some x := fun hx => hvw (by
        simpa [(h.mem w x).1 hw] using ((h.mem v x).1 (List.mem_of_head? hx)).symm)
      rw [if_neg hxe, if_neg hv]
      exact (h.linked w).2 as x bs hs
  · split
    · exact List.nodup_cons.2 ⟨hne w, h.nodup w⟩
    · exact h.nodup w
  · rw [hedge]
    have := h.mem w x
    grind

theorem append_eq_append_cons {as bs cs ds : List EdgeId} {x : EdgeId}
    (h : as ++ bs = cs ++ x :: ds) :
    (∃ ms, cs = as ++ ms ∧ bs = ms ++ x :: ds) ∨ ∃ ms, as = cs ++ x :: ms ∧ ds = ms ++ bs := by
  obtain ⟨ms, hcs, hbs⟩ | ⟨ms, has, hds⟩ := List.append_eq_append_iff.1 h
  · exact .inl ⟨ms, hcs, hbs⟩
  · cases ms with
    | nil => exact .inl ⟨[], by simp [has], by simpa using hds.symm⟩
    | cons y ms =>
      obtain ⟨rfl, hrest⟩ := List.cons.inj hds
      exact .inr ⟨ms, has, hrest⟩

theorem Lists.unlink (h : g.Lists L) (e : EdgeId) :
    (g.unlink e).Lists fun w => (L w).erase e := by
  cases ht : (g.edge e).target with
  | none =>
    have herase : (fun w => (L w).erase e) = L := by
      funext w
      refine List.erase_of_not_mem fun hw => ?_
      rw [(h.mem w e).1 hw] at ht
      cases ht
    rw [unlink_of_none ht, herase]
    exact h
  | some v =>
    obtain ⟨as, bs, hs⟩ := List.append_of_mem ((h.mem v e).2 ht)
    have hd : (as ++ e :: bs).Nodup := hs ▸ h.nodup v
    have herase : (L v).erase e = as ++ bs := by
      rw [hs, List.erase_append_right _ (by grind), List.erase_cons_head]
    obtain ⟨hprev, hnext⟩ := (h.linked v).2 as e bs hs
    have hlt : ∀ {x}, x ∈ L v → x.index < g.edges.size := fun hx =>
      index_lt_of_target ((h.mem _ _).1 hx)
    have hlast {x} (hx : as.getLast? = some x) : x ∈ as := List.mem_of_getLast? hx
    have hfirst {x} (hx : bs.head? = some x) : x ∈ bs := List.mem_of_head? hx
    have hedge (x : EdgeId) : (g.unlink e).edge x =
        if x = e then { g.edge e with target := none, prev := none, next := none }
        else if as.getLast? = some x then { g.edge x with next := bs.head? }
        else if bs.head? = some x then { g.edge x with prev := as.getLast? }
        else g.edge x := by
      have hp := sameSlots_setNext g v as.getLast? bs.head?
      have hn := sameSlots_setPrev (g.setNext v as.getLast? bs.head?) as.getLast? bs.head?
      rw [unlink_of_some ht, hprev, hnext, edge_modifyEdge_of_lt, edge_setPrev, edge_setNext]
      · grind
      · exact fun y hy => hlt (by simp [hs, hlast hy])
      · exact fun y hy => hp.size ▸ hlt (by simp [hs, hfirst hy])
      · exact hn.size ▸ hp.size ▸ index_lt_of_target ht
    refine ⟨fun w => ⟨?_, fun cs x ds hx => ?_⟩, fun w => (h.nodup w).erase e, fun w x => ?_⟩
    · rw [unlink_of_some ht, head?_modifyEdge, head?_setPrev, head?_setNext, hprev, hnext]
      by_cases hvw : v = w
      · subst hvw
        rw [herase, (h.linked v).1, hs]
        cases as with
        | nil => simp
        | cons a as => simp
      · have hw : e ∉ L w := fun hw => hvw (by simpa [ht] using (h.mem w e).1 hw)
        rw [List.erase_of_not_mem hw, if_neg fun hc => hvw hc.2]
        exact (h.linked w).1
    · rw [hedge]
      by_cases hvw : v = w
      · subst hvw
        rw [herase] at hx
        have hxe : x ≠ e := by grind
        rw [if_neg hxe]
        obtain ⟨ms, rfl, rfl⟩ | ⟨ms, rfl, rfl⟩ := append_eq_append_cons hx
        · have hxl : as.getLast? ≠ some x := fun hxl => by grind
          have hxs := (h.linked v).2 (as ++ e :: ms) x ds (by simp [hs])
          rw [if_neg hxl]
          cases ms with
          | nil => simp [hxs]
          | cons m ms =>
            have hmx : m ≠ x := by grind
            simp [hxs, hmx, List.getLast?_append]
        · have hxs := (h.linked v).2 cs x (ms ++ e :: bs) (by simp [hs])
          have hxb : bs.head? ≠ some x := fun hxb => by grind
          rw [if_neg hxb]
          cases ms with
          | nil => simp [hxs]
          | cons m ms =>
            have hxl : (cs ++ x :: m :: ms).getLast? ≠ some x := fun hxl => by
              have hl : (m :: ms).getLast? = some x := by simpa [List.getLast?_append] using hxl
              have := List.mem_of_getLast? hl
              grind
            rw [if_neg hxl]
            simpa using hxs
      · have hw : e ∉ L w := fun hw => hvw (by simpa [ht] using (h.mem w e).1 hw)
        rw [List.erase_of_not_mem hw] at hx
        have hxw : (g.edge x).target = some w := (h.mem w x).1 (by simp [hx])
        have hxv : x ∉ L v := fun hxv => hvw (by simpa [hxw] using ((h.mem v x).1 hxv).symm)
        have hxe : x ≠ e := fun hxe => hxv (by simp [hxe, hs])
        have hxl : as.getLast? ≠ some x := fun hxl => hxv (by simp [hs, hlast hxl])
        have hxb : bs.head? ≠ some x := fun hxb => hxv (by simp [hs, hfirst hxb])
        rw [if_neg hxe, if_neg hxl, if_neg hxb]
        exact (h.linked w).2 cs x ds hx
    · rw [hedge, (h.nodup w).mem_erase_iff, h.mem]
      grind

end ShaderIR.UseGraph
