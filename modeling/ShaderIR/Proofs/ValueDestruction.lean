import ShaderIR.Proofs.GraphEdits

/-! Destroying values, and the nodes that wrap them. -/

open ShaderIR.Core

namespace ShaderIR

namespace Core

variable {c : Core} {r : Location → Option NodeId} {v : ValueId} {n : NodeId}

def forget (v : ValueId) (r : Location → Option NodeId) : Location → Option NodeId :=
  Function.update (dropAttachments v r) (.wrapper v) none

theorem forget_of_ne {l : Location} (ha : ∀ tag, r (.attachment v tag) = none)
    (hw : l ≠ .wrapper v) : forget v r l = r l := by
  rw [forget, Function.update_of_ne hw]
  cases l with
  | attachment w tag =>
    by_cases hwv : w = v
    · simp [dropAttachments, hwv, ha]
    · simp [dropAttachments, hwv]
  | _ => rfl

theorem Sound.withConstants (h : c.Sound r) (cs : Std.ExtTreeMap ConstantKey ValueId) :
    Sound { c with constants := cs } r :=
  ⟨h.graph, ⟨h.typed.distinct, h.typed.values, h.typed.address⟩, h.consistent, h.attached,
    h.recorded.congr rfl rfl⟩

theorem Sound.dropValueNode (h : c.Sound r) (hn : c.metadata.nodeOf[v]? = some n)
    {md : Metadata} (hnodes : md.nodes = c.metadata.nodes.erase n)
    (hnodeOf : md.nodeOf = c.metadata.nodeOf.erase v)
    (htracker : md.tracker = (c.metadata.tracker.resolve n).2)
    (hhandles : md.handles = c.metadata.handles) (hw : md.wrapperOf = c.metadata.wrapperOf) :
    Sound { c with metadata := md } r ∧ held { c with metadata := md } = c.held := by
  obtain ⟨d, hd, hdv⟩ := (h.consistent.nodeOf v n).1 hn
  have hget (m : NodeId) : md.nodes.get? m = if n = m then none else c.metadata.nodes.get? m :=
    hnodes ▸ Arena.get?_erase ..
  have hheld : held { c with metadata := md } = c.held := by
    rw [held_of_nodes c hnodes hhandles, held_eraseNode]
    refine setOperands_eq_self fun i => ?_
    rw [held_operand c hd, hdv]
    rfl
  refine ⟨h.of_metadata ⟨fun m => ?_, fun {m x w} hm hx => ?_, fun {m x} hm hx => ?_,
    fun w m => ?_⟩ ⟨?_, fun hl => ?_, fun hm => ?_, fun hm => ?_, fun {l m} hl => ?_⟩, hheld⟩
  · rw [htracker, Tracker.isReplaceable_resolve, h.consistent.replaceable, hget]
    by_cases hnm : n = m <;> simp [hnm]
  · rw [hget] at hm
    split at hm
    · cases hm
    · exact h.consistent.value hm hx
  · rw [hget] at hm
    split at hm
    · cases hm
    · exact h.consistent.temporary hm hx
  · rw [hnodeOf, getElem?_erase_eq_ite, hget]
    have hw := h.consistent.nodeOf w m
    grind
  · rw [htracker]
    exact h.recorded.follows.resolve n
  · exact (congrFun hheld _).trans (h.recorded.held hl)
  · exact (congrFun hheld _).trans (h.recorded.wrapperOf (hw ▸ hm))
  · rw [hw]
    exact h.recorded.wrapper hm
  · rw [hnodes, Arena.size_erase]
    exact h.recorded.bound ((congrFun hheld _).symm.trans hl)

end Core

def Store.without (s : Store) (v : ValueId) (t : Tracker)
    (ws : Std.ExtTreeMap NodeId ValueId) : Store :=
  { s with
    values := s.values.erase v
    uses := s.uses.clearSlots v
    scopes := s.scopes.erase (.function v)
    metadata := { s.metadata with tracker := t, wrapperOf := ws } }

theorem Store.layout_without {s : Store} {v : ValueId} {d : Value} {t : Tracker}
    {ws : Std.ExtTreeMap NodeId ValueId} (hd : s.values.get? v = some d)
    (hk : d.kind.isResident = false) : (s.without v t ws).layout = s.layout := by
  refine layout_congr rfl rfl (fun f hf => ?_) (fun m => ?_) fun w => ?_
  · refine (getElem?_erase_eq_ite ..).trans (if_neg ?_)
    rintro heq
    obtain rfl := Scope.function.inj heq
    obtain ⟨_, p, _, _, _⟩ := d
    cases p <;> simp [Value.kind, Payload.kind, ValueKind.isResident] at hk
    · simp [payloadIs, hd, isFunction] at hf
    · simp [payloadIs, hd, isFunction] at hf
  · exact (getElem?_erase_eq_ite ..).trans (if_neg (by simp))
  · rw [Store.resident?, show (s.without v t ws).values.get? w = _ from Arena.get?_erase ..]
    split
    next hvw => simp [Store.resident?, ← hvw, hd, Value.resident?, hk]
    next => rfl

namespace Edit

variable {s : Store} {r : Location → Option NodeId} {v : ValueId} {d : Value}

/-- What destroying a value checks, and what it drops of the value first. -/
def condemn (v : ValueId) : Edit Unit := do
  let kind ← Query.kind v
  let uses ← Query.useCount v
  if uses ≠ 0 then raise (.destroyWithUses v kind uses)
  dropUntrackedNode v
  if let some key ← Query.constantKey v then
    forgetConstant key v

/-- The part of destroying a value that nothing can stop. -/
def discard (v : ValueId) : Edit Unit := do
  modify (·.modifyUses (·.clearSlots v))
  clearAttachments v
  dropWrapper v
  modify fun s => { s with
    values := s.values.erase v
    scopes := s.scopes.erase (.function v) }

theorem destroyValue_eq (v : ValueId) : destroyValue v = (do
    condemn v
    unregisterName v
    discard v) := by
  simp only [destroyValue, condemn, discard, bind_assoc]
  congr 1
  funext kind
  congr 1
  funext uses
  split
  · rfl
  · simp only [bind_assoc]
    congr 1
    funext _
    congr 1
    funext key
    cases key <;> simp

theorem ends_dropWrapper (h : s.core.Sound (dropAttachments v r)) (hd : s.values.get? v = some d) :
    Ends (dropWrapper v) s (fun _ s' => ∃ t ws,
      s' = s.modifyMetadata (fun md => { md with tracker := t, wrapperOf := ws }) ∧
      (∀ n : NodeId, ws[n]? = if s.metadata.wrapperOf[n]? = some v then none
        else s.metadata.wrapperOf[n]?) ∧ s'.core.Sound (forget v r)) fun _ _ => False := by
  have hheld : s.core.held (.wrapper v) = d.wrapped? := by
    simp [held, Store.get?_core, hd]
  have hof {n : NodeId} (hn : s.metadata.wrapperOf[n]? = some v) : d.wrapped? = some n :=
    hheld.symm.trans (h.recorded.wrapperOf hn)
  unfold dropWrapper
  rw [ends_bind, ends_lift_ok (Query.wrappedNode_ok.2 ⟨d, hd, rfl⟩)]
  cases hw : d.wrapped? with
  | none =>
    rw [hw] at hheld hof
    have hnone : dropAttachments v r (.wrapper v) = none := by
      rw [Option.eq_none_iff_forall_ne_some]
      intro n hn
      simpa [hheld] using h.recorded.held hn
    refine ⟨s.metadata.tracker, s.metadata.wrapperOf, rfl, fun n => ?_, ?_⟩
    · rw [if_neg]
      intro hn
      cases hof hn
    · rwa [forget, ← hnone, Function.update_eq_self]
  | some n =>
    rw [hw] at hheld hof
    have hr : dropAttachments v r (.wrapper v) = none ∨
        dropAttachments v r (.wrapper v) = some n := by
      cases hr : dropAttachments v r (.wrapper v) with
      | none => exact .inl rfl
      | some m => exact .inr ((h.recorded.held hr).symm.trans hheld)
    dsimp only
    rw [ends_bind]
    refine Ends.weaken (ends_untrack h.recorded.follows hr) ?_
    rintro _ _ ⟨t, rfl, ht, hi⟩
    have hs := h.untracked ht hi
    rw [ends_modify]
    by_cases hn : s.metadata.wrapperOf[n]? = some v
    · have hs' := hs.eraseWrapper (v := v) (Function.update_self ..) hn
      have hmodify : ((s.withTracker t).modifyMetadata fun md => if md.wrapperOf[n]? = some v
          then { md with wrapperOf := md.wrapperOf.erase n } else md) = s.modifyMetadata
          fun md => { md with tracker := t, wrapperOf := s.metadata.wrapperOf.erase n } := by
        simp only [Store.withTracker, Store.modifyMetadata, hn, if_true]
      refine ⟨t, s.metadata.wrapperOf.erase n, hmodify, fun m => ?_, hmodify ▸ hs'⟩
      rw [getElem?_erase_eq_ite]
      by_cases hnm : n = m
      · rw [if_pos hnm, if_pos (hnm ▸ hn)]
      · rw [if_neg hnm, if_neg fun hm => hnm (Option.some.inj (hof hm))]
    · have hmodify : ((s.withTracker t).modifyMetadata fun md => if md.wrapperOf[n]? = some v
          then { md with wrapperOf := md.wrapperOf.erase n } else md) = s.modifyMetadata
          fun md => { md with tracker := t, wrapperOf := s.metadata.wrapperOf } := by
        simp only [Store.withTracker, Store.modifyMetadata, hn, if_false]
      refine ⟨t, s.metadata.wrapperOf, hmodify, fun m => ?_, hmodify ▸ hs⟩
      rw [if_neg fun hm => hn ?_]
      obtain rfl : n = m := Option.some.inj (hof hm)
      exact hm

theorem ends_discard (h : s.core.Sound r) (hd : s.values.get? v = some d)
    (hu : s.uses.useList v = []) : Ends (discard v) s (fun _ s' => ∃ t ws,
      s' = s.without v t ws ∧ (∀ n : NodeId, ws[n]? = if s.metadata.wrapperOf[n]? = some v
        then none else s.metadata.wrapperOf[n]?) ∧
      s'.core.Sound (forget v r) ∧ s'.core.held = forget v s.core.held) fun _ _ => False := by
  have h₁ : (s.modifyUses (·.clearSlots v)).core.Sound r := h.clearSlots v
  have hg : s.uses.Sound s.core.IsLive := h.graph
  unfold discard
  rw [ends_bind, ends_modify, ends_bind]
  refine Ends.weaken (ends_clearAttachments h₁ (d := d) hd) ?_
  rintro _ _ ⟨t, rfl, h₂⟩
  rw [ends_bind]
  refine Ends.weaken (ends_dropWrapper (d := { d with attachments := [] }) h₂ ?_) ?_
  · simp [Store.modifyUses, Store.modifyValue, Store.withTracker, Store.modifyMetadata,
      Arena.get?_modify, hd]
  rintro _ _ ⟨t', ws, rfl, hws, h₃⟩
  rw [ends_modify]
  refine ⟨t', ws, ?_, hws, ?_⟩
  · simp only [Store.without, Store.modifyUses, Store.modifyValue, Store.withTracker,
      Store.modifyMetadata, Arena.erase_modify]
  · set p := (((s.modifyUses (·.clearSlots v)).modifyValue v fun d =>
      { d with attachments := [] }).withTracker t).modifyMetadata
        fun md => { md with tracker := t', wrapperOf := ws } with hp
    have hmod : ((s.modifyUses (·.clearSlots v)).modifyValue v fun d =>
        { d with attachments := [] }).core =
        (s.modifyUses (·.clearSlots v)).core.withAttachments v fun _ => [] :=
      Store.core_modifyValue _ _ fun _ => rfl
    have hvalues : p.core.values = s.core.values.modify v fun d => { d with attachments := [] } :=
      congrArg Core.values hmod
    have hcore : Store.core { p with
        values := p.values.erase v, scopes := p.scopes.erase (.function v) } =
        p.core.withValues (p.core.values.erase v) := by
      simp only [Store.core, Arena.map_erase, withValues]
    have hnone (d' : Value) (hd' : p.core.values.get? v = some d') : d'.attachments = [] := by
      rw [hvalues, Arena.get?_modify, if_pos rfl] at hd'
      obtain ⟨_, -, rfl⟩ := Option.map_eq_some_iff.1 hd'
      rfl
    have hheld : p.core.held = dropAttachments v s.core.held := by
      rw [← held_clearAttachments]
      funext l
      cases l <;> simp only [held, hvalues] <;> rfl
    rw [hcore]
    refine ⟨h₃.erase ?_ ?_ hnone (Function.update_self ..) fun n hn => ?_, ?_⟩
    · exact (UseGraph.Sound.slotsOf_clearSlots ..).trans (if_pos rfl)
    · exact (hg.useList_clearSlots v).trans (by rw [hu, List.filter_nil])
    · have hn' := hws n
      rw [show ws[n]? = some v from hn] at hn'
      split at hn'
      · cases hn'
      next hne => exact hne hn'.symm
    · rw [held_erase _ hnone, hheld, forget]

theorem ends_dropValueNode (h : s.core.Sound r) : Ends (dropValueNode v) s (fun _ s' =>
    ∃ md, s' = { s with metadata := md } ∧ md.wrapperOf = s.metadata.wrapperOf ∧
      md.nodes.size = s.metadata.nodes.size ∧ md.nodeOf = s.metadata.nodeOf.erase v ∧
      s'.core.Sound r ∧ s'.core.held = s.core.held) fun _ _ => False := by
  unfold dropValueNode
  rw [ends_bind, ends_get]
  split
  next hn =>
    refine ⟨s.metadata, rfl, rfl, rfl, Std.ExtTreeMap.ext_getElem? fun w => ?_, h, rfl⟩
    rw [getElem?_erase_eq_ite]
    split
    next hvw => exact hvw ▸ hn
    next => rfl
  next n hn =>
    let md : Metadata := { s.metadata with
      nodeOf := s.metadata.nodeOf.erase v
      uniqued := s.metadata.uniqued.erase (.value v)
      tracker := (s.metadata.tracker.resolve n).2
      nodes := s.metadata.nodes.erase n }
    obtain ⟨hs, hheld⟩ := h.dropValueNode hn (show md.nodes = _ from rfl) rfl rfl rfl rfl
    exact ⟨md, rfl, rfl, Arena.size_erase .., rfl, hs, hheld⟩

theorem ends_condemn (h : s.core.Sound r) : Ends (condemn v) s
    (fun _ s' => (∃ d, s.values.get? v = some d) ∧ s.uses.useList v = [] ∧
      ∃ md cs, s' = { s with metadata := md, constants := cs } ∧
        md.wrapperOf = s.metadata.wrapperOf ∧ s'.core.Sound r ∧ s'.core.held = s.core.held)
    fun _ s' => ∃ md, s' = { s with metadata := md } ∧
      md.wrapperOf = s.metadata.wrapperOf ∧ s'.core.Sound r ∧ s'.core.held = s.core.held := by
  have hstay : ∃ md, s = { s with metadata := md } ∧ md.wrapperOf = s.metadata.wrapperOf ∧
      s.core.Sound r ∧ s.core.held = s.core.held := ⟨s.metadata, rfl, rfl, h, rfl⟩
  unfold condemn
  refine ends_bind.2 (ends_lift.2 ⟨fun kind hkind => ?_, fun _ _ => hstay⟩)
  refine ends_bind.2 (ends_lift.2 ⟨fun uses huses => ?_, fun _ _ => hstay⟩)
  obtain ⟨hlive, huses⟩ := Query.useCount_ok.1 huses
  split
  · exact hstay
  next hzero =>
    have hnone : s.uses.useList v = [] := by
      rw [← List.length_eq_zero_iff, huses]
      exact not_not.1 hzero
    have hdrop : Ends (dropUntrackedNode v) s (fun _ s' => ∃ md, s' = { s with metadata := md } ∧
        md.wrapperOf = s.metadata.wrapperOf ∧ s'.core.Sound r ∧ s'.core.held = s.core.held)
      fun _ s' => s' = s := by
      unfold dropUntrackedNode
      rw [ends_bind, ends_get]
      split
      next => exact hstay
      next =>
        rw [ends_bind, ends_get]
        split
        · rfl
        · refine Ends.weaken (ends_dropValueNode h) ?_
          rintro _ _ ⟨md, rfl, hw, -, -, hs, hheld⟩
          exact ⟨md, rfl, hw, hs, hheld⟩
    refine Ends.bind (Ends.mono hdrop (fun _ _ hs => hs) ?_) ?_
    · rintro _ _ rfl
      exact hstay
    rintro _ _ ⟨md, rfl, hw, hs, hheld⟩
    refine ends_bind.2 (ends_lift.2 ⟨fun key _ => ?_, fun _ _ => ⟨md, rfl, hw, hs, hheld⟩⟩)
    split
    · rw [forgetConstant, ends_modify]
      split
      · exact ⟨hlive, hnone, md, _, rfl, hw, hs.withConstants _, hheld⟩
      · exact ⟨hlive, hnone, md, s.constants, rfl, hw, hs, hheld⟩
    · exact ⟨hlive, hnone, md, s.constants, rfl, hw, hs, hheld⟩

theorem keeps_destroyValue : Keeps Store.Settled (destroyValue v) := by
  intro s hs
  rw [destroyValue_eq]
  refine Ends.bind (Ends.mono (ends_condemn hs) (fun _ _ h => h) ?_) ?_
  · rintro _ _ ⟨md, rfl, -, hs, hheld⟩
    exact settled_of_eq hs hheld
  rintro _ p ⟨⟨d, hd⟩, hu, md, cs, hp, -, hs₁, hheld⟩
  have hcore := (fixes_unregisterName : Fixes Store.core (unregisterName v)).ends p
  refine Ends.bind (Ends.mono hcore (fun _ _ h => h) ?_) ?_
  · intro _ q hq
    exact settled_of_eq (hq ▸ hs₁) (hq ▸ hheld)
  intro _ q hq
  have hlive : q.core.IsLive v := by
    rw [hq, hp]
    exact Store.isLive_core.2 ⟨d, hd⟩
  obtain ⟨dq, hdq⟩ := Store.isLive_core.1 hlive
  have huq : q.uses.useList v = [] := by
    rw [show q.uses = p.uses from congrArg Core.uses hq, hp]
    exact hu
  refine Ends.weaken (ends_discard (hq ▸ hs₁) hdq huq) ?_
  rintro _ s' ⟨t, ws, -, -, hs', hheld'⟩
  refine settled_of_eq hs' ?_
  rw [hheld', hq, hheld]

theorem ends_unregisterName_of_not_isResident (hd : s.values.get? v = some d)
    (hk : d.kind.isResident = false) :
    Ends (unregisterName v) s (fun _ s' => s' = s) fun _ _ => False := by
  have hscope : Query.scopeOf v s = .ok none := by
    obtain ⟨_, p, _, _, _⟩ := d
    unfold Query.scopeOf
    rw [Query.bind_ok]
    refine ⟨p, Query.payload_ok.2 ⟨_, hd, rfl⟩, ?_⟩
    cases p <;> simp [Value.kind, Payload.kind, ValueKind.isResident] at hk ⊢
  unfold unregisterName
  rw [ends_bind, ends_lift_ok (Query.value_ok.2 hd)]
  split
  · rfl
  · rw [ends_bind, ends_lift_ok hscope]
    rfl

theorem ends_destroyUnused (h : s.core.Sound r) (hd : s.values.get? v = some d)
    (hk : d.kind.isResident = false) (hu : s.uses.useList v = [])
    (hn : s.metadata.nodeOf[v]? = none) {key : Option ConstantKey}
    (hkey : Query.constantKey v s = .ok key) (hentry : ∀ k ∈ key, s.constants[k]? ≠ some v) :
    Ends (destroyValue v) s (fun _ s' => ∃ t ws, s' = s.without v t ws ∧
      (∀ n : NodeId, ws[n]? = if s.metadata.wrapperOf[n]? = some v then none
        else s.metadata.wrapperOf[n]?) ∧ s'.core.Sound (forget v r) ∧
      s'.core.held = forget v s.core.held) fun _ _ => False := by
  have hcondemn : Ends (condemn v) s (fun _ s' => s' = s) fun _ _ => False := by
    unfold condemn dropUntrackedNode
    rw [ends_bind, ends_lift_ok (Query.kind_ok.2 ⟨d, hd, rfl⟩), ends_bind,
      ends_lift_ok (Query.useCount_ok.2 ⟨⟨d, hd⟩, rfl⟩), hu, if_neg (by simp), ends_bind,
      ends_bind, ends_get, hn, ends_pure, ends_bind, ends_lift_ok hkey]
    cases key with
    | none => rfl
    | some k =>
      change Ends (forgetConstant k v) s _ _
      rw [forgetConstant, ends_modify, if_neg (hentry k rfl)]
  have hunregister := ends_unregisterName_of_not_isResident hd hk
  rw [destroyValue_eq]
  refine Ends.bind (Ends.weaken hcondemn fun _ _ h => h) ?_
  rintro _ _ rfl
  refine Ends.bind (Ends.weaken hunregister fun _ _ h => h) ?_
  rintro _ _ rfl
  exact ends_discard h hd hu

theorem constantKey_of_wrapper (hd : s.values.get? v = some d) (hk : d.kind = .metadata) :
    Query.constantKey v s = .ok none := by
  obtain ⟨n, hp⟩ : ∃ n, d.payload = .metadata n := by
    obtain ⟨_, p, _, _, _⟩ := d
    cases p <;> simp [Value.kind, Payload.kind] at hk ⊢
  simp [Query.constantKey, hd, hp]

end Edit

end ShaderIR
