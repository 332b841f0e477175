import ShaderIR.Proofs.CoreSound
import ShaderIR.Proofs.Faults

/-! Single changes of a core. Each lemma says which demands a change has to meet so that the core
stays sound, and for which record. -/

namespace ShaderIR

theorem TypeTable.get?_intern {types : TypeTable} {ty : TypeId} {sh : TypeShape}
    (h : types.get? ty = some sh) (new : TypeShape) : (types.intern new).2.get? ty = some sh := by
  unfold intern
  split
  · exact h
  · simp only [get?] at h ⊢
    rw [List.getElem?_append_left (List.getElem?_eq_some_iff.1 h).1, h]

theorem TypeTable.get?_intern_self (types : TypeTable) (sh : TypeShape) :
    (types.intern sh).2.get? (types.intern sh).1 = some sh := by
  unfold intern find?
  cases hf : types.shapes.findIdx? (· == sh) with
  | none => simp [get?]
  | some i =>
    obtain ⟨hi, heq, -⟩ := List.findIdx?_eq_some_iff_getElem.1 hf
    simp only [Option.map_some, get?]
    rw [List.getElem?_eq_getElem hi]
    simpa using heq

theorem TypeTable.nodup_intern {types : TypeTable} (h : types.shapes.Nodup) (sh : TypeShape) :
    (types.intern sh).2.shapes.Nodup := by
  unfold intern find?
  cases hf : types.shapes.findIdx? (· == sh) with
  | none =>
    have hnot := List.findIdx?_eq_none_iff.1 hf
    refine List.nodup_append.2 ⟨h, List.nodup_singleton sh, fun a ha b hb => ?_⟩
    rw [List.mem_singleton.1 hb]
    simpa using hnot a ha
  | some i => exact h

theorem TypeTable.get?_inj {types : TypeTable} (h : types.shapes.Nodup) {a b : TypeId}
    {sh : TypeShape} (ha : types.get? a = some sh) (hb : types.get? b = some sh) : a = b := by
  obtain ⟨hi, ha⟩ := List.getElem?_eq_some_iff.1 ha
  obtain ⟨hj, hb⟩ := List.getElem?_eq_some_iff.1 hb
  exact Index.index_inj.1 ((List.Nodup.getElem_inj_iff h).1 (ha.trans hb.symm))

section WellTyped

variable {types types' : TypeTable} {d d' : Value}

theorem Value.WellTyped.mono (h : d.WellTyped types)
    (ht : ∀ {ty sh}, types.get? ty = some sh → types'.get? ty = some sh) :
    d.WellTyped types' where
  block hk := ht (h.block hk)
  function hk := (h.function hk).imp fun _ => Exists.imp fun _ => ht
  wrapper hk := ht (h.wrapper hk)
  address hk := ht (h.address hk)

theorem TypeTable.IsAddressable.mono {ty : TypeId} (h : types.IsAddressable ty)
    (ht : ∀ {ty sh}, types.get? ty = some sh → types'.get? ty = some sh) :
    types'.IsAddressable ty :=
  h.imp ht (Exists.imp fun _ => Exists.imp fun _ => ht)

theorem Value.WellTyped.of_sameSort (h : d.WellTyped types) (hd : d.SameSort d') :
    d'.WellTyped types where
  block hk := by rw [hd.ty]; exact h.block (hd.kind ▸ hk)
  function hk := by rw [hd.ty]; exact h.function (hd.kind ▸ hk)
  wrapper hk := by rw [hd.ty]; exact h.wrapper (hd.kind ▸ hk)
  address hk := by rw [hd.ty]; exact h.address (hd.address.1 hk)

theorem Value.SameSort.refl (d : Value) : d.SameSort d := ⟨rfl, rfl, Iff.rfl⟩

theorem Value.WellTyped.not_isAddressable (h : d.WellTyped types)
    (hd : d.kind = .metadata ∨ d.IsAddress) : ¬ types.IsAddressable d.ty := by
  rintro (hl | ⟨result, params, hf⟩) <;> obtain hd | hd := hd
  · simp [h.wrapper hd] at hl
  · simp [h.address hd] at hl
  · simp [h.wrapper hd] at hf
  · simp [h.address hd] at hf

end WellTyped

theorem Metadata.Consistent.congr {md md' : Metadata} (h : md.Consistent)
    (hn : md'.nodes = md.nodes) (ho : md'.nodeOf = md.nodeOf)
    (hi : ∀ n, md'.tracker.isReplaceable n ↔ md.tracker.isReplaceable n) : md'.Consistent :=
  ⟨fun n => by rw [hi, hn]; exact h.replaceable n, by rw [hn]; exact h.value,
    by rw [hn]; exact h.temporary, by rw [hn, ho]; exact h.nodeOf⟩

namespace Core

variable {c c' : Core} {r r' : Location → Option NodeId} {v : ValueId} {e : EdgeId}

section Typed

theorem Typed.mono (h : c.Typed) (ht : c'.types = c.types)
    (hv : ∀ {v d'}, c'.values.get? v = some d' → ∃ d, c.values.get? v = some d ∧ d.SameSort d')
    (he : ∀ {e t}, (c'.uses.edge e).target = some t → (c.uses.edge e).target = some t ∧
      (c'.uses.edge e).user = (c.uses.edge e).user ∧ c'.IsLive t) : c'.Typed where
  distinct := ht ▸ h.distinct
  values hd' := by
    obtain ⟨d, hd, hs⟩ := hv hd'
    exact ht ▸ (h.values hd).of_sameSort hs
  address htarget huser ha := by
    obtain ⟨hold, hu, dt', hdt'⟩ := he htarget
    obtain ⟨d, hd, hs⟩ := hv huser
    obtain ⟨dt, hdt, haddr⟩ := h.address hold (hu ▸ hd) (hs.address.1 ha)
    obtain ⟨dt₀, hdt₀, hst⟩ := hv hdt'
    obtain rfl : dt = dt₀ := Option.some.inj (hdt.symm.trans hdt₀)
    exact ⟨dt', hdt', by rw [ht, hst.ty]; exact haddr⟩

theorem Typed.intern (h : c.Typed) (sh : TypeShape) :
    Typed { c with types := (c.types.intern sh).2 } where
  distinct := TypeTable.nodup_intern h.distinct sh
  values hd := (h.values hd).mono fun hty => TypeTable.get?_intern hty sh
  address htarget huser ha := by
    obtain ⟨dt, hdt, haddr⟩ := h.address htarget huser ha
    exact ⟨dt, hdt, haddr.mono fun hty => TypeTable.get?_intern hty sh⟩

theorem Typed.push (h : c.Typed) (hg : c.uses.Sound c.IsLive) {d : Value}
    (hd : d.WellTyped c.types) : Typed { c with values := c.values.push d } where
  distinct := h.distinct
  values {v dv} hv := by
    simp only [Arena.get?_push] at hv
    split at hv
    · exact Option.some.inj hv ▸ hd
    · exact h.values hv
  address {e t du} htarget huser ha := by
    have hfresh {w : ValueId} (hw : c.IsLive w) : w ≠ c.values.next := fun hwn => by
      obtain ⟨dw, hdw⟩ := hw
      exact Nat.lt_irrefl _ (hwn ▸ Arena.lt_size_of_get? hdw)
    have hu : (c.uses.edge e).user ≠ c.values.next := hfresh (hg.slot_of_target htarget).1
    simp only [Arena.get?_push, if_neg hu] at huser
    obtain ⟨dt, hdt, haddr⟩ := h.address htarget huser ha
    exact ⟨dt, by simp only [Arena.get?_push, if_neg (hfresh ⟨dt, hdt⟩), hdt], haddr⟩

end Typed

section Recorded

theorem held_congr (hv : c'.values = c.values) (hm : c'.metadata = c.metadata) :
    c'.held = c.held := by
  funext l
  cases l <;> simp only [held, hv, hm]

theorem Recorded.congr (h : c.Recorded r) (hv : c'.values = c.values)
    (hm : c'.metadata = c.metadata) : c'.Recorded r := by
  have hh := held_congr hv hm
  exact ⟨hm ▸ h.follows, hh ▸ h.held, by rw [hm, hh]; exact h.wrapperOf,
    by rw [hm]; exact h.wrapper, by rw [hm, hh]; exact h.bound⟩

theorem Recorded.of_held (h : c.Recorded r) (ht : c'.metadata.tracker = c.metadata.tracker)
    (hw : c'.metadata.wrapperOf = c.metadata.wrapperOf)
    (hs : c.metadata.nodes.size ≤ c'.metadata.nodes.size)
    (hl : ∀ l, c'.held l = c.held l ∨ r l = none ∧ (∀ w, l ≠ .wrapper w) ∧
      ∀ n, c'.held l = some n → n.index < c'.metadata.nodes.size) : c'.Recorded r where
  follows := ht ▸ h.follows
  held {l n} hr := by
    obtain heq | ⟨hnone, -⟩ := hl l
    · exact heq.trans (h.held hr)
    · rw [hnone] at hr
      cases hr
  wrapperOf {n w} hn := by
    rw [hw] at hn
    obtain heq | ⟨-, hne, -⟩ := hl (.wrapper w)
    · exact heq.trans (h.wrapperOf hn)
    · exact absurd rfl (hne w)
  wrapper hr := hw ▸ h.wrapper hr
  bound {l n} hn := by
    obtain heq | ⟨-, -, hlt⟩ := hl l
    · exact Nat.lt_of_lt_of_le (h.bound (heq ▸ hn)) hs
    · exact hlt n hn

end Recorded

section Uses

variable {g : UseGraph}

theorem Sound.of_uses (h : c.Sound r) (hg : g.Sound c.IsLive)
    (ht : Typed { c with uses := g }) : Sound { c with uses := g } r :=
  ⟨hg, ht, h.consistent, h.attached, h.recorded.congr rfl rfl⟩

theorem Sound.of_fewer (h : c.Sound r) (hg : g.Sound c.IsLive)
    (he : ∀ {e t}, (g.edge e).target = some t → (c.uses.edge e).target = some t ∧
      (g.edge e).user = (c.uses.edge e).user) : Sound { c with uses := g } r :=
  h.of_uses hg (h.typed.mono rfl (fun hd => ⟨_, hd, .refl _⟩) fun ht =>
    ⟨(he ht).1, (he ht).2, hg.target_live ht⟩)

theorem Sound.unlink (h : c.Sound r) (e : EdgeId) :
    Sound { c with uses := c.uses.unlink e } r := by
  refine h.of_fewer (h.graph.unlink e) fun {x t} ht => ?_
  rw [h.graph.target_unlink] at ht
  split at ht
  · cases ht
  · exact ⟨ht, (UseGraph.sameSlots_unlink c.uses e).user x⟩

theorem Sound.link (h : c.Sound r) {u t : ValueId} (he : e ∈ c.uses.slotsOf u)
    (hn : (c.uses.edge e).target = none) (ht : c.IsLive t)
    (ha : ∀ d, c.values.get? u = some d → d.IsAddress →
      ∃ dt, c.values.get? t = some dt ∧ c.types.IsAddressable dt.ty) :
    Sound { c with uses := c.uses.link e t } r := by
  obtain ⟨hlt, hu, -⟩ := h.graph.mem_slots he
  have hs := UseGraph.sameSlots_link c.uses e t
  refine h.of_uses (h.graph.link he hn ht) ⟨h.typed.distinct, h.typed.values, ?_⟩
  intro x w d hw hd hda
  simp only [h.graph.target_link hlt hn, hs.user] at hw hd
  split at hw
  next hx =>
    obtain rfl := Option.some.inj hw
    exact ha d (by rw [← hu, ← hx]; exact hd) hda
  next => exact h.typed.address hw hd hda

theorem Sound.addSlot (h : c.Sound r) {u : ValueId} (hu : c.IsLive u) :
    Sound { c with uses := (c.uses.addSlot u).2 } r := by
  refine h.of_fewer (h.graph.addSlot hu) fun {x t} ht => ?_
  rw [h.graph.target_addSlot] at ht
  refine ⟨ht, ?_⟩
  rw [h.graph.edge_addSlot, if_neg]
  rintro rfl
  have := (h.graph.allocated { user := u, slot := (c.uses.slotsOf u).length }).target
  rw [show (c.uses.edge (c.uses.addSlot u).1).target = none from this] at ht
  cases ht

theorem Sound.clearSlots (h : c.Sound r) (u : ValueId) :
    Sound { c with uses := c.uses.clearSlots u } r := by
  refine h.of_fewer (h.graph.clearSlots) fun {x t} ht => ?_
  rw [h.graph.target_clearSlots] at ht
  split at ht
  · cases ht
  · exact ⟨ht, ((UseGraph.Sound.release_foldl _ _).2.2.2 x).1⟩

end Uses

section Values

variable {d : Value}

def withValues (c : Core) (values : Arena .value Value) : Core := { c with values := values }

theorem not_isLive_next (c : Core) : ¬ c.IsLive c.values.next := by
  rintro ⟨_, hd⟩
  exact Nat.lt_irrefl _ (Arena.lt_size_of_get? hd)

theorem held_push (c : Core) (hd : d.attachments = []) :
    (c.withValues (c.values.push d)).held =
      Function.update c.held (.wrapper c.values.next) d.wrapped? := by
  funext l
  cases l with
  | operand n i => rw [Function.update_of_ne (by simp)]; rfl
  | handle h => rw [Function.update_of_ne (by simp)]; rfl
  | wrapper v =>
    simp only [held, withValues, Arena.get?_push, Function.update_apply, Location.wrapper.injEq]
    split <;> rfl
  | attachment v tag =>
    rw [Function.update_of_ne (by simp)]
    simp only [held, withValues, Arena.get?_push]
    split
    next hv =>
      simp [hv, Arena.get?_next, hd]
    next => rfl

theorem held_erase (c : Core) (hd : ∀ d, c.values.get? v = some d → d.attachments = []) :
    (c.withValues (c.values.erase v)).held = Function.update c.held (.wrapper v) none := by
  funext l
  cases l with
  | operand n i => rw [Function.update_of_ne (by simp)]; rfl
  | handle h => rw [Function.update_of_ne (by simp)]; rfl
  | wrapper w =>
    simp only [held, withValues, Arena.get?_erase, Function.update_apply, Location.wrapper.injEq]
    by_cases hvw : w = v
    · simp [hvw]
    · simp [hvw, Ne.symm hvw]
  | attachment w tag =>
    rw [Function.update_of_ne (by simp)]
    simp only [held, withValues, Arena.get?_erase]
    split
    next hvw =>
      subst hvw
      cases hw : c.values.get? v with
      | none => rfl
      | some d => simp [hd d hw]
    next => rfl

theorem Sound.push (h : c.Sound r) (hd : d.WellTyped c.types) (ha : d.attachments = [])
    (hn : ∀ n, d.wrapped? = some n → n.index < c.metadata.nodes.size) :
    (c.withValues (c.values.push d)).Sound r := by
  have hnext : c.held (.wrapper c.values.next) = none := by
    simp only [held, Arena.get?_next, Option.bind_none]
  have hheld {l : Location} {n : NodeId} (hl : c.held l = some n) :
      (c.withValues (c.values.push d)).held l = some n := by
    rw [held_push c ha, Function.update_of_ne]
    · exact hl
    · rintro rfl
      rw [hnext] at hl
      cases hl
  refine ⟨h.graph.mono fun w hw => ?_, h.typed.push h.graph hd, h.consistent, ?_, ?_⟩
  · obtain ⟨dw, hw⟩ := hw
    refine ⟨dw, ?_⟩
    rw [withValues, Arena.get?_push, if_neg]
    · exact hw
    · rintro rfl
      exact c.not_isLive_next ⟨dw, hw⟩
  · intro w dw hw
    simp only [withValues, Arena.get?_push] at hw
    split at hw
    · obtain rfl := Option.some.inj hw
      exact ⟨by simp [ha], fun _ => ha⟩
    · exact h.attached hw
  · refine ⟨h.recorded.follows, fun hl => hheld (h.recorded.held hl),
      fun hw => hheld (h.recorded.wrapperOf hw), h.recorded.wrapper, fun {l n} hl => ?_⟩
    rw [held_push c ha, Function.update_apply] at hl
    split at hl
    · exact hn n hl
    · exact h.recorded.bound hl

theorem Sound.erase (h : c.Sound r) (hs : c.uses.slotsOf v = []) (hu : c.uses.useList v = [])
    (hd : ∀ d, c.values.get? v = some d → d.attachments = []) (hr : r (.wrapper v) = none)
    (hw : ∀ n : NodeId, c.metadata.wrapperOf[n]? ≠ some v) :
    (c.withValues (c.values.erase v)).Sound r := by
  have hget (w : ValueId) : (c.values.erase v).get? w = if v = w then none else c.values.get? w :=
    Arena.get?_erase ..
  have hlive {w : ValueId} (hwv : v ≠ w) (hl : c.IsLive w) :
      (c.withValues (c.values.erase v)).IsLive w := by
    obtain ⟨d, hd⟩ := hl
    exact ⟨d, by simp only [withValues, hget, if_neg hwv, hd]⟩
  have hheld := held_erase c hd
  refine ⟨h.graph.restrict fun w hl => ?_, h.typed.mono rfl ?_ ?_, h.consistent, ?_, ?_⟩
  · by_cases hwv : v = w
    · exact .inr (hwv ▸ ⟨hs, hu⟩)
    · exact .inl (hlive hwv hl)
  · intro w d hd
    simp only [withValues, hget] at hd
    split at hd
    · cases hd
    · exact ⟨d, hd, .refl d⟩
  · intro e t ht
    have htv : v ≠ t := fun htv => by
      have := (h.graph.lists.mem t e).2 ht
      simp [← htv, hu] at this
    exact ⟨ht, rfl, hlive htv (h.graph.target_live ht)⟩
  · intro w d hd
    simp only [withValues, hget] at hd
    split at hd
    · cases hd
    · exact h.attached hd
  · refine ⟨h.recorded.follows, fun {l n} hl => ?_, fun {n w} hn => ?_, h.recorded.wrapper, ?_⟩
    · rw [hheld, Function.update_of_ne]
      · exact h.recorded.held hl
      · rintro rfl
        rw [hr] at hl
        cases hl
    · rw [hheld, Function.update_of_ne]
      · exact h.recorded.wrapperOf hn
      · rintro hwv
        exact hw n (Location.wrapper.inj hwv ▸ hn)
    · intro l n hl
      rw [hheld, Function.update_apply] at hl
      split at hl
      · cases hl
      · exact h.recorded.bound hl

end Values

section Tracking

variable {md : Metadata} {t : Tracker} {l : Location} {n : NodeId}

theorem Sound.of_metadata (h : c.Sound r) (hc : md.Consistent)
    (hr : Recorded { c with metadata := md } r') : Sound { c with metadata := md } r' :=
  ⟨h.graph, ⟨h.typed.distinct, h.typed.values, h.typed.address⟩, hc, h.attached, hr⟩

def withTracker (c : Core) (t : Tracker) : Core :=
  { c with metadata := { c.metadata with tracker := t } }

theorem Sound.withTracker (h : c.Sound r) (ht : t.Follows r')
    (hi : ∀ n, t.isReplaceable n ↔ c.metadata.tracker.isReplaceable n)
    (hr : ∀ {l n}, r' l = some n → c.held l = some n)
    (hw : ∀ {w n}, r' (.wrapper w) = some n → c.metadata.wrapperOf[n]? = some w) :
    (c.withTracker t).Sound r' := by
  have hh : (c.withTracker t).held = c.held := by
    funext l
    cases l <;> rfl
  refine h.of_metadata (h.consistent.congr rfl rfl hi) ⟨ht, fun hl => ?_, fun hn => ?_, hw, ?_⟩
  · exact (congrFun hh _).trans (hr hl)
  · exact (congrFun hh _).trans (h.recorded.wrapperOf hn)
  · exact fun {l n} hl => h.recorded.bound ((congrFun hh l).symm.trans hl)

theorem Sound.untracked (h : c.Sound r) (ht : t.Follows (Function.update r l none))
    (hi : ∀ n, t.isReplaceable n ↔ c.metadata.tracker.isReplaceable n) :
    (c.withTracker t).Sound (Function.update r l none) := by
  refine h.withTracker ht hi (fun {l' n} hl => ?_) fun {w n} hw => ?_
  · rw [Function.update_apply] at hl
    split at hl
    · cases hl
    · exact h.recorded.held hl
  · rw [Function.update_apply] at hw
    split at hw
    · cases hw
    · exact h.recorded.wrapper hw

theorem Sound.tracked (h : c.Sound r) {o : Option NodeId}
    (ht : t.Follows (Function.update r l o))
    (hi : ∀ n, t.isReplaceable n ↔ c.metadata.tracker.isReplaceable n) (hl : c.held l = o)
    (hw : ∀ w n, l = .wrapper w → o = some n → c.metadata.wrapperOf[n]? = some w) :
    (c.withTracker t).Sound (Function.update r l o) := by
  refine h.withTracker ht hi (fun {l' n} hl' => ?_) fun {w n} hw' => ?_
  · rw [Function.update_apply] at hl'
    split at hl'
    next heq => exact heq ▸ hl.trans hl'
    next => exact h.recorded.held hl'
  · rw [Function.update_apply] at hw'
    split at hw'
    next heq => exact hw w n heq.symm hw'
    next => exact h.recorded.wrapper hw'

theorem Sound.settle (h : c.Sound c.held) (hc : md.Consistent)
    (hf : md.tracker.Follows (held { c with metadata := md }))
    (hw : md.wrapperOf = c.metadata.wrapperOf)
    (hb : ∀ l n, held { c with metadata := md } l = some n → n.index < md.nodes.size) :
    Sound { c with metadata := md } (held { c with metadata := md }) := by
  refine h.of_metadata hc ⟨hf, id, fun {n w} hn => ?_, fun {w n} hn => ?_, fun {l n} => hb l n⟩
  · exact h.recorded.wrapperOf (hw ▸ hn)
  · rw [show ({ c with metadata := md } : Core).metadata = md from rfl, hw]
    exact h.recorded.wrapper hn

end Tracking

section Wrappers

variable {n : NodeId}

def withWrapperOf (c : Core) (ws : Std.ExtTreeMap NodeId ValueId) : Core :=
  { c with metadata := { c.metadata with wrapperOf := ws } }

theorem Sound.insertWrapper (h : c.Sound r) (hv : c.held (.wrapper v) = some n)
    (hn : c.metadata.wrapperOf[n]? = none) :
    (c.withWrapperOf (c.metadata.wrapperOf.insert n v)).Sound r := by
  refine h.of_metadata (h.consistent.congr rfl rfl fun _ => Iff.rfl) ⟨h.recorded.follows,
    h.recorded.held, fun {m w} hm => ?_, fun {w m} hm => ?_, h.recorded.bound⟩
  · rw [getElem?_insert_eq_ite] at hm
    split at hm
    next hnm => exact hnm ▸ Option.some.inj hm ▸ hv
    next => exact h.recorded.wrapperOf hm
  · have hw := h.recorded.wrapper hm
    rw [getElem?_insert_eq_ite, if_neg]
    · exact hw
    · rintro rfl
      rw [hn] at hw
      cases hw

theorem Sound.eraseWrapper (h : c.Sound r) (hr : r (.wrapper v) = none)
    (hn : c.metadata.wrapperOf[n]? = some v) :
    (c.withWrapperOf (c.metadata.wrapperOf.erase n)).Sound r := by
  refine h.of_metadata (h.consistent.congr rfl rfl fun _ => Iff.rfl) ⟨h.recorded.follows,
    h.recorded.held, fun {m w} hm => ?_, fun {w m} hm => ?_, h.recorded.bound⟩
  · rw [getElem?_erase_eq_ite] at hm
    split at hm
    · cases hm
    · exact h.recorded.wrapperOf hm
  · have hw := h.recorded.wrapper hm
    rw [getElem?_erase_eq_ite, if_neg]
    · exact hw
    · rintro rfl
      obtain rfl := Option.some.inj (hn.symm.trans hw)
      rw [hr] at hm
      cases hm

end Wrappers

end Core

def Store.withTracker (s : Store) (t : Tracker) : Store :=
  s.modifyMetadata fun md => { md with tracker := t }

def Store.Retracked (s s' : Store) (r : Location → Option NodeId) : Prop :=
  ∃ t, s' = s.withTracker t ∧ t.Follows r ∧
    ∀ n, t.isReplaceable n ↔ s.metadata.tracker.isReplaceable n

theorem Store.Retracked.trans {s s' s'' : Store} {r r' : Location → Option NodeId}
    (h : s.Retracked s' r) (h' : s'.Retracked s'' r') : s.Retracked s'' r' := by
  obtain ⟨t, rfl, -, hi⟩ := h
  obtain ⟨t', rfl, hf, hi'⟩ := h'
  exact ⟨t', rfl, hf, fun n => (hi' n).trans (hi n)⟩

theorem Store.retracked_self {s : Store} {r : Location → Option NodeId}
    (h : s.metadata.tracker.Follows r) : s.Retracked s r :=
  ⟨s.metadata.tracker, rfl, h, fun _ => Iff.rfl⟩

namespace Edit

variable {s : Store} {r : Location → Option NodeId} {l old new : Location} {n : NodeId}
variable {o : Option NodeId}

theorem ends_untrack (h : s.metadata.tracker.Follows r) (hl : r l = none ∨ r l = some n) :
    Ends (untrack l n) s (fun _ s' => s.Retracked s' (Function.update r l none))
      fun _ _ => False :=
  ⟨_, rfl, h.untrack hl, fun _ => Tracker.isReplaceable_untrack⟩

theorem ends_untrackOption (h : s.metadata.tracker.Follows r) (hl : r l = none ∨ r l = o) :
    Ends (untrackOption l o) s (fun _ s' => s.Retracked s' (Function.update r l none))
      fun _ _ => False := by
  cases o with
  | none =>
    refine Store.retracked_self ?_
    rwa [← hl.elim id id, Function.update_eq_self]
  | some n => exact ends_untrack h hl

theorem ends_track (h : s.metadata.tracker.Follows r) (hl : r l = none) :
    Ends (track l n) s (fun _ s' => s.Retracked s' (Function.update r l (some n)))
      fun _ _ => False := by
  obtain ⟨b, t, htrack, hf, hi⟩ := h.track hl n
  unfold track
  rw [ends_bind, ends_get, htrack]
  exact ⟨t, rfl, hf, hi⟩

theorem ends_trackOption (h : s.metadata.tracker.Follows r) (hl : r l = none) :
    Ends (trackOption l o) s (fun _ s' => s.Retracked s' (Function.update r l o))
      fun _ _ => False := by
  cases o with
  | none =>
    refine Store.retracked_self ?_
    rwa [← hl, Function.update_eq_self]
  | some n => exact ends_track h hl

theorem ends_retrackOption (h : s.metadata.tracker.Follows r) (ho : r old = o)
    (hn : r new = none) : Ends (retrackOption old new o) s (fun _ s' =>
      s.Retracked s' (Function.update (Function.update r old none) new o)) fun _ _ => False := by
  cases o with
  | none =>
    refine Store.retracked_self ?_
    have hold : Function.update r old none = r := by rw [← ho, Function.update_eq_self]
    rwa [hold, ← hn, Function.update_eq_self]
  | some n =>
    obtain ⟨b, t, htrack, hf, hi⟩ := h.retrack ho hn
    change Ends (retrack old n new) s _ _
    unfold retrack
    rw [ends_bind, ends_get, htrack]
    exact ⟨t, rfl, hf, hi⟩

theorem ends_expectNode (o : Option NodeId) (s : Store) :
    Ends (expectNode o) s (fun _ s' => s' = s ∧ ∀ n, o = some n →
      ∃ d, s.metadata.nodes.get? n = some d) fun x s' => x.IsOrdinary ∧ s' = s := by
  cases o with
  | none => exact ⟨rfl, by simp⟩
  | some n =>
    refine ends_bind.2 (ends_lift.2 ⟨fun d hd => ⟨rfl, ?_⟩,
      fun _ hx => ⟨Query.regular_node.fault hx, rfl⟩⟩)
    simpa using ⟨d, Query.node_ok.1 hd⟩

end Edit

end ShaderIR
