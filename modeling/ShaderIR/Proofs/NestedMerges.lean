import ShaderIR.Proofs.NodeMerges

/-! Replacing a node within a replacement. Merging two wrappers replaces one by the other, which
may merge the nodes that wrap these, and so on. Each merge enters one wrapper less, so the number
of wrappers that are entered bounds the depth. -/

open ShaderIR.Core

namespace ShaderIR

theorem Metadata.Consistent.moveValue {md md' : Metadata} (h : md.Consistent) {n : NodeId}
    {old new : ValueId} (hold : md.nodeOf[old]? = some n) (hnew : md.nodeOf[new]? = none)
    (hn : md'.nodes = md.nodes.modify n fun d => { d with content := .value new })
    (ho : md'.nodeOf = (md.nodeOf.erase old).insert new n) (ht : md'.tracker = md.tracker) :
    md'.Consistent := by
  obtain ⟨d, hd, hc⟩ := (h.nodeOf old n).1 hold
  have hget (m : NodeId) : md'.nodes.get? m = if n = m then some { d with content := .value new }
      else md.nodes.get? m := by
    rw [hn, Arena.get?_modify]
    split
    next hnm => rw [← hnm, hd, Option.map_some]
    next => rfl
  have hu := h.value hd hc
  refine ⟨fun m => ?_, fun {m x v} hm hx => ?_, fun {m x} hm hx => ?_, fun v m => ?_⟩
  · rw [ht, h.replaceable, hget]
    split
    next hnm =>
      subst hnm
      simp [hd, Node.IsReplaceable, hc]
    next => rfl
  · rw [hget] at hm
    split at hm
    · exact Option.some.inj hm ▸ hu
    · exact h.value hm hx
  · rw [hget] at hm
    split at hm
    · obtain rfl := Option.some.inj hm
      rw [hu] at hx
      cases hx
    · exact h.temporary hm hx
  · rw [ho, getElem?_insert_eq_ite, getElem?_erase_eq_ite, hget]
    have hv := h.nodeOf v m
    have hnew' := h.nodeOf new m
    grind

namespace Core

variable {c : Core} {r : Location → Option NodeId} {w : ValueId} {new : NodeId} {d : Value}

def rewrap (new : NodeId) (d : Value) : Value :=
  match d.payload with
  | .metadata _ => { d with payload := .metadata new }
  | _ => d

theorem rewrap_eq (hk : d.kind = .metadata) :
    rewrap new d = { d with payload := .metadata new } := by
  obtain ⟨_, p, _, _, _⟩ := d
  cases p <;> simp [Value.kind, Payload.kind] at hk
  rfl

theorem Sound.rewrap (h : c.Sound r) (hd : c.values.get? w = some d) (hk : d.kind = .metadata)
    (hw : ∀ m : NodeId, c.metadata.wrapperOf[m]? ≠ some w)
    (hn : new.index < c.metadata.nodes.size) :
    (c.withValues (c.values.modify w (rewrap new))).Sound r ∧
      (c.withValues (c.values.modify w (rewrap new))).held =
        Function.update c.held (.wrapper w) (some new) := by
  have hget (v : ValueId) : (c.values.modify w (Core.rewrap new)).get? v =
      if w = v then some { d with payload := .metadata new } else c.values.get? v := by
    rw [Arena.get?_modify]
    split
    next hwv => rw [← hwv, hd, Option.map_some, rewrap_eq hk]
    next => rfl
  have hsort {v d'} (hd' : (c.values.modify w (Core.rewrap new)).get? v = some d') :
      ∃ d, c.values.get? v = some d ∧ d.SameSort d' ∧ d'.attachments = d.attachments := by
    rw [hget] at hd'
    split at hd'
    next hwv =>
      obtain rfl := Option.some.inj hd'
      refine ⟨d, hwv ▸ hd, ⟨rfl, hk.symm, ?_⟩, rfl⟩
      rw [Value.kind] at hk
      simp only [Value.IsAddress]
      constructor <;> intro ha
      · cases ha
      · rw [ha] at hk
        cases hk
    next => exact ⟨d', hd', .refl d', rfl⟩
  have hlive {v} (hv : c.IsLive v) :
      (c.withValues (c.values.modify w (Core.rewrap new))).IsLive v := by
    obtain ⟨dv, hdv⟩ := hv
    rw [IsLive, withValues, hget]
    split
    · exact ⟨_, rfl⟩
    · exact ⟨dv, hdv⟩
  have hheld : (c.withValues (c.values.modify w (Core.rewrap new))).held =
      Function.update c.held (.wrapper w) (some new) := by
    funext l
    cases l with
    | wrapper v =>
      simp only [held, withValues, hget, Function.update_apply, Location.wrapper.injEq]
      by_cases hwv : v = w
      · simp [hwv, Value.wrapped?]
      · simp [hwv, Ne.symm hwv]
    | attachment v tag =>
      rw [Function.update_of_ne (by simp)]
      simp only [held, withValues, hget]
      split
      next hwv => rw [← hwv, hd]; rfl
      next => rfl
    | _ => rw [Function.update_of_ne (by simp)]; rfl
  have hne {v : ValueId} {m : NodeId} (hm : c.metadata.wrapperOf[m]? = some v) : v ≠ w :=
    fun hvw => hw m (hvw ▸ hm)
  refine ⟨⟨h.graph.mono fun v => hlive, h.typed.mono rfl (fun hd' => ?_) fun ht =>
    ⟨ht, rfl, hlive (h.graph.target_live ht)⟩, h.consistent, fun {v d'} hd' => ?_,
    ⟨h.recorded.follows, fun {l m} hl => ?_, fun {m v} hm => ?_, h.recorded.wrapper,
      fun {l m} hl => ?_⟩⟩, hheld⟩
  · obtain ⟨d, hd, hs, -⟩ := hsort hd'
    exact ⟨d, hd, hs⟩
  · obtain ⟨dv, hdv, hs, ha⟩ := hsort hd'
    have hwell := h.attached hdv
    exact ⟨ha ▸ hwell.tags, fun hm => ha ▸ hwell.wrapper (hs.kind ▸ hm)⟩
  · rw [hheld, Function.update_of_ne]
    · exact h.recorded.held hl
    · rintro rfl
      exact hw m (h.recorded.wrapper hl)
  · rw [hheld, Function.update_of_ne]
    · exact h.recorded.wrapperOf hm
    · exact fun hvw => hne hm (Location.wrapper.inj hvw)
  · rw [hheld, Function.update_apply] at hl
    split at hl
    · exact Option.some.inj hl ▸ hn
    · exact h.recorded.bound hl

end Core

namespace Store

variable {s s' : Store} {r r' : Location → Option NodeId} {l : Location} {old new : NodeId}

/-- A step that visits one location. It settles this one and what was recorded. -/
structure Visits (s s' : Store) (r r' : Location → Option NodeId) (l : Location) : Prop where
  sound : s'.core.Sound r'
  merged : s.Merged s'
  waiting : ∀ l', l' ≠ l → r l' = none → r' l' = none ∧ s'.core.held l' = s.core.held l'
  recorded : ∀ l', l' = l ∨ r l' ≠ none → r' l' = s'.core.held l'

theorem Retargeted.visits (h : s.Retargeted s' r l new) (hs : s.core.Sound r) :
    s.Visits s' r (Function.update r l (some new)) l := by
  refine ⟨h.sound, h.merged, fun l' hl hr => ?_, fun l' hl => ?_⟩
  · rw [h.held, Function.update_of_ne hl, Function.update_of_ne hl]
    exact ⟨hr, rfl⟩
  · rw [h.held, Function.update_apply, Function.update_apply]
    split
    · rfl
    next hne =>
      obtain ⟨n, hn⟩ := Option.ne_none_iff_exists'.1 (hl.resolve_left hne)
      rw [hn, hs.recorded.held hn]

/-- In the course of a replacement: the locations still to be visited hold the old node and are
not recorded. -/
structure Visiting (s₀ : Store) (r₀ : Location → Option NodeId) (old : NodeId)
    (rest : List Location) (s : Store) (r : Location → Option NodeId) : Prop where
  sound : s.core.Sound r
  merged : s₀.Merged s
  nodup : rest.Nodup
  unvisited : ∀ l ∈ rest, r₀ l = some old ∧ r l = none ∧ s.core.held l = some old
  wrapper : ∀ {w}, .wrapper w ∈ rest → s.metadata.wrapperOf[old]? = some w
  waiting : ∀ l, r₀ l = none → r l = none ∧ s.core.held l = s₀.core.held l
  visited : ∀ l, r₀ l ≠ none → l ∉ rest → r l = s.core.held l

theorem Visiting.step {s₀ : Store} {r₀ : Location → Option NodeId} {rest : List Location}
    (h : Visiting s₀ r₀ old (l :: rest) s r) (hv : s.Visits s' r r' l)
    (hw : ∀ {w}, .wrapper w ∈ rest → s'.metadata.wrapperOf[old]? = s.metadata.wrapperOf[old]?) :
    Visiting s₀ r₀ old rest s' r' := by
  obtain ⟨hl, hnodup⟩ := List.nodup_cons.1 h.nodup
  refine ⟨hv.sound, h.merged.trans hv.merged, hnodup, fun l' hl' => ?_, fun hm => ?_,
    fun l' hl' => ?_, fun l' hr hl' => ?_⟩
  · obtain ⟨hr₀, hr, hheld⟩ := h.unvisited l' (List.mem_cons_of_mem _ hl')
    obtain ⟨hr', hheld'⟩ := hv.waiting l' (fun heq => hl (heq ▸ hl')) hr
    exact ⟨hr₀, hr', hheld'.trans hheld⟩
  · rw [hw hm]
    exact h.wrapper (List.mem_cons_of_mem _ hm)
  · obtain ⟨hr, hheld⟩ := h.waiting l' hl'
    have hne : l' ≠ l := fun heq => by
      rw [heq, (h.unvisited l (List.mem_cons_self ..)).1] at hl'
      cases hl'
    obtain ⟨hr', hheld'⟩ := hv.waiting l' hne hr
    exact ⟨hr', hheld'.trans hheld⟩
  · by_cases heq : l' = l
    · exact hv.recorded l' (.inl heq)
    · have hrec := h.visited l' hr fun hm => (List.mem_cons.1 hm).elim heq hl'
      by_cases hnone : r l' = none
      · obtain ⟨hr', hheld'⟩ := hv.waiting l' heq hnone
        rw [hr', hheld', ← hrec, hnone]
      · exact hv.recorded l' (.inr hnone)

end Store

theorem size_erase_lt {ws : Std.ExtTreeMap NodeId ValueId} {n : NodeId} {w : ValueId}
    (h : ws[n]? = some w) : (ws.erase n).size < ws.size := by
  have hc : ws.contains n := by rw [Std.ExtTreeMap.contains_eq_isSome_getElem?, h]; rfl
  have hpos : ws.size ≠ 0 := fun h0 => by
    rw [Std.ExtTreeMap.eq_empty_iff_size_eq_zero.2 h0] at h
    simp at h
  rw [Std.ExtTreeMap.size_erase, if_pos hc]
  omega

def Store.unenter (s : Store) (old : NodeId) : Store :=
  s.modifyMetadata fun md => { md with wrapperOf := md.wrapperOf.erase old }

namespace Edit

variable {nested : ValueId → ValueId → Edit Unit} {k : Nat}
variable {s : Store} {r : Location → Option NodeId} {w : ValueId} {old new : NodeId}

/-- Replacing a wrapper that is not entered by one that is, where only so many are entered. -/
def MergesWrappers (k : Nat) (nested : ValueId → ValueId → Edit Unit) : Prop :=
  ∀ {s : Store} {r : Location → Option NodeId} {w e : ValueId} {d : Value}, s.core.Sound r →
    s.values.get? w = some d → d.kind = .metadata → ¬ s.IsEntered w → s.IsEntered e →
    s.metadata.wrapperOf.size < k → Ends (nested w e) s (fun _ s' =>
      (∃ r', s.Settles s' r r') ∧ s'.uses.useList w = [] ∧ s'.metadata.nodeOf[w]? = none)
      fun _ _ => False

theorem not_isEntered_of_erase (hs : s.core.Sound r) {s' : Store}
    (hheld : s.core.held (.wrapper w) = some old)
    (hw : s'.metadata.wrapperOf = s.metadata.wrapperOf.erase old) : ¬ s'.IsEntered w := by
  rintro ⟨m, hm⟩
  rw [hw, getElem?_erase_eq_ite] at hm
  split at hm
  · cases hm
  next hne => exact hne (Option.some.inj (hheld.symm.trans (hs.recorded.wrapperOf hm)))

theorem unenter_spec (hs : s.core.Sound r) (hl : r (.wrapper w) = none)
    (hheld : s.core.held (.wrapper w) = some old) (hold : s.metadata.wrapperOf[old]? = some w) :
    (s.unenter old).core.Sound r ∧ ¬ (s.unenter old).IsEntered w ∧
      (s.unenter old).metadata.wrapperOf.size < s.metadata.wrapperOf.size ∧
        s.Merged (s.unenter old) := by
  have hsize : (s.unenter old).metadata.wrapperOf.size < s.metadata.wrapperOf.size :=
    size_erase_lt hold
  refine ⟨hs.eraseWrapper hl hold, not_isEntered_of_erase hs hheld rfl, hsize, ?_⟩
  refine Store.merged_withMetadata rfl (Nat.le_of_lt hsize) (fun {v} hv => ?_) fun hl => hl
  obtain ⟨m, hm⟩ := hv
  rw [getElem?_erase_eq_ite] at hm
  split at hm
  · cases hm
  · exact ⟨m, hm⟩

theorem ends_repoint (hs : s.core.Sound r) (hl : r (.wrapper w) = none)
    (hheld : s.core.held (.wrapper w) = some old) (hold : s.metadata.wrapperOf[old]? = some w)
    (hnone : (s.unenter old).metadata.wrapperOf[new]? = none)
    (hlt : new.index < s.metadata.nodes.size) {d : Value} (hd : s.values.get? w = some d)
    (hk : d.kind = .metadata) : Ends (do
      modifyValue w (rewrap new)
      modify (·.modifyMetadata fun md => { md with wrapperOf := md.wrapperOf.insert new w })
      track (.wrapper w) new) (s.unenter old)
      (fun _ s' => s.Retargeted s' r (.wrapper w) new) fun _ _ => False := by
  obtain ⟨hp, hnot, hpsize, hmerged⟩ := unenter_spec hs hl hheld hold
  set p := s.unenter old
  have hentered : s.IsEntered w := ⟨old, hold⟩
  have hget : p.core.values.get? w = some d.bare := by
    rw [Store.get?_core, show p.values.get? w = some d from hd]
    rfl
  obtain ⟨hs₁, hheld₁⟩ := hp.rewrap hget (by rw [Value.kind_bare, hk])
    (fun m hm => hnot ⟨m, hm⟩) hlt
  have hcore : (p.modifyValue w (rewrap new)).core =
      p.core.withValues (p.core.values.modify w (rewrap new)) :=
    Store.core_modifyValue _ _ fun d => by obtain ⟨_, p, _, _, _⟩ := d; cases p <;> rfl
  rw [← hcore] at hs₁ hheld₁
  have hs₂ := hs₁.insertWrapper (v := w) (n := new) (by rw [hheld₁, Function.update_self]) hnone
  rw [ends_bind]
  refine (ends_modifyValue (s := p) hd (rewrap new)).2 ?_
  rw [ends_bind, ends_modify]
  refine Ends.weaken (ends_track_written (s := s) (p := (p.modifyValue w
    (rewrap new)).modifyMetadata fun md => { md with wrapperOf := md.wrapperOf.insert new w })
    hs₂ hl hheld₁ ?_ ?_) ?_
  · have hres : (rewrap new d).resident? = d.resident? := by
      rw [rewrap_eq hk, Value.resident?, Value.resident?, hk]
      rfl
    have hkind : (rewrap new d).kind = d.kind := by
      rw [rewrap_eq hk]
      exact hk.symm
    have hconst : (rewrap new d).constant? = d.constant? := by
      rw [rewrap_eq hk, Value.constant?_of_kind hk]
      rfl
    refine (Store.merged_modifyValue hd hres hkind hconst (.inr ⟨hentered, hk⟩)).trans
      (Store.merged_withMetadata rfl ?_ ?_ fun hl => hl)
    · exact Nat.le_trans Std.ExtTreeMap.size_insert_le hpsize
    · rintro v ⟨m, hm⟩
      change (p.metadata.wrapperOf.insert new w)[m]? = some v at hm
      rw [getElem?_insert_eq_ite] at hm
      split at hm
      · exact Option.some.inj hm ▸ hentered
      · exact hmerged.entered ⟨m, hm⟩
  · rintro v hv
    obtain rfl := Location.wrapper.inj hv
    exact (getElem?_insert_eq_ite ..).trans (if_pos rfl)
  · exact fun _ s' h => h.2

theorem held_wrapper {n : NodeId} (h : s.core.held (.wrapper w) = some n) :
    ∃ d, s.values.get? w = some d ∧ d.kind = .metadata := by
  obtain ⟨d', hd', hwrapped⟩ := Option.bind_eq_some_iff.1 h
  rw [Store.get?_core] at hd'
  obtain ⟨d, hd, rfl⟩ := Option.map_eq_some_iff.1 hd'
  refine ⟨d, hd, ?_⟩
  rw [Value.wrapped?_bare] at hwrapped
  rw [Value.kind, Value.wrapped?_eq_some.1 hwrapped]
  rfl

theorem held_attachment_of_wrapper {d : Value} (hs : s.core.Sound r) (hd : s.values.get? w = some d)
    (hk : d.kind = .metadata) (tag : TagId) : s.core.held (.attachment w tag) = none := by
  have hget : s.core.values.get? w = some d.bare := by
    rw [Store.get?_core, hd]
    rfl
  have hnil := (hs.attached hget).wrapper (by rw [Value.kind_bare, hk])
  simp [held, hget, hnil]

theorem ends_retargetWrapper_iff (hold : s.metadata.wrapperOf[old]? = some w)
    {Q : Unit → Store → Prop} {E : Fault → Store → Prop} :
    Ends (retargetWrapper nested w old new) s Q E ↔
      (∀ e, (s.unenter old).metadata.wrapperOf[new]? = some e → Ends (do
        nested w e
        destroyValue w) (s.unenter old) Q E) ∧
      ((s.unenter old).metadata.wrapperOf[new]? = none → Ends (do
        modifyValue w (rewrap new)
        modify (·.modifyMetadata fun md => { md with wrapperOf := md.wrapperOf.insert new w })
        track (.wrapper w) new) (s.unenter old) Q E) := by
  have hif : (s.modifyMetadata fun md => if md.wrapperOf[old]? = some w
      then { md with wrapperOf := md.wrapperOf.erase old } else md) = s.unenter old := by
    simp only [Store.modifyMetadata, hold, if_true, Store.unenter]
  unfold retargetWrapper
  rw [ends_bind, ends_modify, ends_bind, ends_get, hif]
  split
  next e he =>
    simp only [he, Option.some.injEq, forall_eq', reduceCtorEq, false_imp_iff, and_true]
  next hnone =>
    simp only [hnone, reduceCtorEq, false_imp_iff, implies_true, true_and, true_imp_iff]
    rfl

theorem ends_destroyMerged {p q : Store} {r' : Location → Option NodeId} {d : Value}
    (hq : p.Settles q r r') (hd : p.values.get? w = some d) (hk : d.kind = .metadata)
    (hnot : ¬ p.IsEntered w) (hu : q.uses.useList w = []) (hnode : q.metadata.nodeOf[w]? = none) :
    Ends (destroyValue w) q (fun _ s' => ∃ t dq, q.values.get? w = some dq ∧ dq.kind = .metadata ∧
      s' = q.without w t q.metadata.wrapperOf ∧ s'.core.Sound (forget w r') ∧
      s'.core.held = forget w q.core.held) fun _ _ => False := by
  obtain ⟨dq, hdq, hdq'⟩ : ∃ dq, q.values.get? w = some dq ∧ dq.unattached = d.unattached := by
    have hval := hq.merged.value hnot
    rw [hd, Option.map_some, Option.map_eq_some_iff] at hval
    exact hval
  have hkq : dq.kind = .metadata := by
    have hpayload : dq.unattached.payload = d.unattached.payload := congrArg Value.payload hdq'
    rw [Value.kind, show dq.payload = d.payload from hpayload]
    exact hk
  have hnotq : ¬ q.IsEntered w := fun hw => hnot (hq.merged.entered hw)
  refine Ends.weaken (ends_destroyUnused hq.sound hdq (by rw [hkq]; rfl) hu hnode
    (constantKey_of_wrapper hdq hkq) (by simp)) ?_
  rintro _ s' ⟨t, ws, rfl, hws, hs', hheld'⟩
  obtain rfl : ws = q.metadata.wrapperOf := by
    refine Std.ExtTreeMap.ext_getElem? fun n => ?_
    rw [hws, if_neg fun hn => hnotq ⟨n, hn⟩]
  exact ⟨t, dq, hdq, hkq, rfl, hs', hheld'⟩

theorem ends_retargetWrapper (hn : MergesWrappers k nested) (hs : s.core.Sound r)
    (hl : r (.wrapper w) = none) (hheld : s.core.held (.wrapper w) = some old)
    (hold : s.metadata.wrapperOf[old]? = some w) (hsize : s.metadata.wrapperOf.size ≤ k)
    (hlt : new.index < s.metadata.nodes.size) : Ends (retargetWrapper nested w old new) s
      (fun _ s' => ∃ r', s.Visits s' r r' (.wrapper w)) fun _ _ => False := by
  obtain ⟨d, hd, hk⟩ := held_wrapper hheld
  have hentered : s.IsEntered w := ⟨old, hold⟩
  obtain ⟨hp, hnot, hpsize, hmerged⟩ := unenter_spec hs hl hheld hold
  refine (ends_retargetWrapper_iff hold).2 ⟨fun e he => ?_, fun hnone => ?_⟩
  · rw [ends_bind]
    refine Ends.weaken (hn hp hd hk hnot ⟨new, he⟩ (by omega)) ?_
    rintro _ q ⟨⟨r', hq⟩, hu, hnode⟩
    have hlq := (hq.waiting _ hl).1
    refine Ends.weaken (ends_destroyMerged hq hd hk hnot hu hnode) ?_
    rintro _ s' ⟨t, dq, hdq, hkq, rfl, hs', hheld'⟩
    have hgone := held_attachment_of_wrapper hq.sound hdq hkq
    have hgone' (tag : TagId) : r' (.attachment w tag) = none := by
      rw [Option.eq_none_iff_forall_ne_some]
      intro n hn
      simpa [hgone] using hq.sound.recorded.held hn
    refine ⟨forget w r', hs', (hmerged.trans hq.merged).without hq.sound.graph hdq hkq hnode
      hentered rfl, fun l' hl' hr' => ?_, fun l' hl' => ?_⟩
    · obtain ⟨hrq, hheldq⟩ := hq.waiting l' hr'
      rw [hheld', forget_of_ne hgone hl', forget_of_ne hgone' hl']
      exact ⟨hrq, hheldq⟩
    · by_cases heq : l' = .wrapper w
      · rw [hheld', heq, forget, forget, Function.update_self, Function.update_self]
      · rw [hheld', forget_of_ne hgone heq, forget_of_ne hgone' heq]
        exact hq.recorded l' (hl'.resolve_left heq)
  · exact (ends_repoint hs hl hheld hold hnone hlt hd hk).weaken fun _ _ h => ⟨_, h.visits hs⟩

theorem ends_retarget (hn : MergesWrappers k nested) {s₀ : Store}
    {r₀ : Location → Option NodeId} {l : Location} {rest : List Location}
    (h : Store.Visiting s₀ r₀ old (l :: rest) s r) (hsize : s₀.metadata.wrapperOf.size ≤ k)
    (hlt : new.index < s₀.metadata.nodes.size) : Ends (retarget nested old new l) s
      (fun _ s' => ∃ r', Store.Visiting s₀ r₀ old rest s' r') fun _ _ => False := by
  have hs := h.sound
  obtain ⟨-, hl, hheld⟩ := h.unvisited l (List.mem_cons_self ..)
  have hlt' : new.index < s.metadata.nodes.size := h.merged.nodes ▸ hlt
  cases l with
  | operand n i =>
    refine Ends.weaken (ends_retargetOperand hs hl hheld hlt') ?_
    rintro _ s' ⟨hs', hw⟩
    exact ⟨_, h.step (hs'.visits hs) fun _ => by rw [hw]⟩
  | handle k =>
    refine Ends.weaken (ends_retargetHandle hs hl hheld hlt') ?_
    rintro _ s' ⟨hs', hw⟩
    exact ⟨_, h.step (hs'.visits hs) fun _ => by rw [hw]⟩
  | attachment v tag =>
    refine Ends.weaken (ends_retargetAttachment hs hl hheld hlt') ?_
    rintro _ s' ⟨hs', hw⟩
    exact ⟨_, h.step (hs'.visits hs) fun _ => by rw [hw]⟩
  | wrapper w =>
    have hold := h.wrapper (List.mem_cons_self ..)
    refine Ends.weaken (ends_retargetWrapper hn hs hl hheld hold
      (Nat.le_trans h.merged.wrappers hsize) hlt') ?_
    rintro _ s' ⟨r', hs'⟩
    -- A node has one wrapper, so none is left to be visited.
    refine ⟨r', h.step hs' fun {w'} hw' => ?_⟩
    obtain rfl := Option.some.inj (hold.symm.trans (h.wrapper (List.mem_cons_of_mem _ hw')))
    exact absurd hw' (List.nodup_cons.1 h.nodup).1

/-- Replacing a node visits its locations, unless there is nothing to do or the nodes are not fit
for it. -/
theorem ends_replaceNodeStep_of {Q : Unit → Store → Prop} {E : Fault → Store → Prop}
    (hself : old = new → Q () s)
    (hloop : old ≠ new → s.metadata.tracker.isReplaceable old →
      (∃ d, s.metadata.nodes.get? new = some d) →
      Ends ((s.metadata.tracker.tracked old).forM (retarget nested old new))
        (s.withTracker (s.metadata.tracker.take old).2) Q E)
    (hx : ∀ x : Fault, x.IsOrdinary → s.metadata.tracker.isReplaceable old = false ∨
      s.metadata.nodes.get? new = none → E x s) : Ends (replaceNodeStep nested old new) s Q E := by
  unfold replaceNodeStep
  split
  next heq => exact hself heq
  next hne =>
    rw [ends_bind, ends_get]
    split
    next hnot => exact hx _ ⟨id, id, id⟩ (.inl (by simpa using hnot))
    next hold =>
      refine ends_bind.2 (ends_lift.2 ⟨fun d hd => ?_, fun x h =>
        hx x (Query.regular_node.fault h) (.inr ?_)⟩)
      · rw [ends_bind, ends_get]
        dsimp only
        rw [ends_bind, setTracker, ends_modify, Tracker.take_fst]
        exact hloop hne (by simpa using hold) ⟨d, Query.node_ok.1 hd⟩
      · cases hget : s.metadata.nodes.get? new with
        | none => rfl
        | some d =>
          rw [Query.node_ok.2 hget] at h
          cases h

theorem visiting_take (hs : s.core.Sound r) (hold : s.metadata.tracker.isReplaceable old) :
    Store.Visiting s r old (s.metadata.tracker.tracked old)
      (s.withTracker (s.metadata.tracker.take old).2)
      (fun l => if r l = some old then none else r l) := by
  have hmem (l : Location) := Tracker.mem_tracked (l := l) hs.recorded.follows hold
  have hsub {l n} (hl : (if r l = some old then none else r l) = some n) : r l = some n := by
    split at hl
    · cases hl
    · exact hl
  refine ⟨hs.withTracker (hs.recorded.follows.take old)
    (fun _ => Tracker.isReplaceable_take) (fun hl => hs.recorded.held (hsub hl))
    fun hl => hs.recorded.wrapper (hsub hl),
    Store.merged_withMetadata rfl (Nat.le_refl _) id fun hl => hl, Tracker.nodup_tracked _ _,
    fun l hl => ?_, fun hl => hs.recorded.wrapper ((hmem _).1 hl), fun l hl => ?_,
    fun l hr hl => ?_⟩
  · have hr := (hmem l).1 hl
    exact ⟨hr, if_pos hr, hs.recorded.held hr⟩
  · exact ⟨by rw [hl, if_neg (by simp)], rfl⟩
  · obtain ⟨n, hn⟩ := Option.ne_none_iff_exists'.1 hr
    rw [if_neg fun hold' => hl ((hmem l).2 hold'), hn]
    exact (hs.recorded.held hn).symm

theorem ends_replaceNodeStep (hn : MergesWrappers k nested) (hs : s.core.Sound r)
    (hsize : s.metadata.wrapperOf.size ≤ k) : Ends (replaceNodeStep nested old new) s
      (fun _ s' => ∃ r', s.Settles s' r r') fun x s' => x.IsOrdinary ∧ s' = s ∧
        (s.metadata.tracker.isReplaceable old = false ∨ s.metadata.nodes.get? new = none) := by
  refine ends_replaceNodeStep_of (fun _ => ⟨r, Store.settles_of_held hs hs (.refl s) rfl⟩)
    (fun _ hold hnew => ?_) fun _ hx h => ⟨hx, rfl, h⟩
  obtain ⟨d, hd⟩ := hnew
  refine Ends.weaken (ends_forM (fun rest s' => ∃ r', Store.Visiting s r old rest s' r') ?_ _ _
    ⟨_, visiting_take hs hold⟩) ?_
  · rintro l rest s' ⟨r', h⟩
    exact ends_retarget hn h hsize (Arena.lt_size_of_get? hd)
  · rintro _ s' ⟨r', h⟩
    exact ⟨r', h.sound, h.merged, h.waiting, fun l hl => h.visited l hl (by simp)⟩

theorem ends_moveValueNode (hn : MergesWrappers k nested) (hs : s.core.Sound r)
    (hsize : s.metadata.wrapperOf.size ≤ k) {old new : ValueId} (hne : old ≠ new)
    (hlive : ∃ d, s.values.get? new = some d) :
    Ends (moveValueNode nested old new) s (fun _ s' => (∃ r', s.Settles s' r r') ∧
      s'.metadata.nodeOf[old]? = none) fun _ _ => False := by
  unfold moveValueNode
  rw [ends_bind, ends_get]
  dsimp only
  cases hold : s.metadata.nodeOf[old]? with
  | none => exact ⟨⟨r, Store.settles_of_held hs hs (.refl s) rfl⟩, hold⟩
  | some n =>
    obtain ⟨d, hd, hc⟩ := (hs.consistent.nodeOf old n).1 hold
    cases hnew : s.metadata.nodeOf[new]? with
    | none =>
      let md : Metadata := { s.metadata with
        nodes := s.metadata.nodes.modify n fun d => { d with content := .value new }
        nodeOf := (s.metadata.nodeOf.erase old).insert new n
        uniqued := (s.metadata.uniqued.erase (.value old)).insert (.value new) n }
      have hcons : md.Consistent := hs.consistent.moveValue hold hnew rfl rfl rfl
      obtain ⟨hs', hheld⟩ := hs.rewriteNode hcons hd rfl rfl rfl rfl fun i => .inl (by rw [hc]; rfl)
      rw [setOperands_eq_self fun i => by rw [held_operand s.core hd, hc]; rfl] at hheld
      have hmerged : s.Merged { s with metadata := md } := by
        refine Store.merged_withMetadata (Arena.size_modify ..) (Nat.le_refl _) id
          fun hl {v m} hv => ?_
        change ((s.metadata.nodeOf.erase old).insert new n)[v]? = some m at hv
        rw [getElem?_insert_eq_ite, getElem?_erase_eq_ite] at hv
        split at hv
        next hvn => exact hvn ▸ hlive
        next =>
          split at hv
          · cases hv
          · exact hl hv
      dsimp only
      rw [ends_bind, ends_modify]
      refine (ends_modifyNode (d := d) ?_ _).2 ?_
      · exact hd
      refine ⟨⟨r, Store.settles_of_held hs hs' hmerged hheld⟩, ?_⟩
      change ((s.metadata.nodeOf.erase old).insert new n)[old]? = none
      rw [getElem?_insert_eq_ite, if_neg (Ne.symm hne), getElem?_erase_eq_ite, if_pos rfl]
    | some m =>
      obtain ⟨dm, hdm, -⟩ := (hs.consistent.nodeOf new m).1 hnew
      have hreplaceable := (hs.consistent.replaceable n).2 ⟨d, hd, .inr ⟨old, hc⟩⟩
      dsimp only
      refine Ends.bind ((ends_replaceNodeStep hn hs hsize).mono (fun _ _ h => h) ?_) ?_
      · rintro _ _ ⟨-, -, hfalse | hnone⟩
        · exact absurd (hfalse.symm.trans hreplaceable) (by decide)
        · rw [show s.metadata.nodes.get? m = some dm from hdm] at hnone
          cases hnone
      · rintro _ p ⟨r', hp⟩
        refine Ends.weaken (ends_dropValueNode hp.sound) ?_
        rintro _ _ ⟨md, rfl, hw, hsize, hnode, hs', hheld⟩
        refine ⟨⟨r', hp.trans (Store.settles_of_held hp.sound hs' ?_ hheld)⟩, ?_⟩
        · refine Store.merged_withMetadata hsize (Nat.le_of_eq (congrArg _ hw)) (fun {w} hw' => ?_)
            fun hl {v x} hv => hl (n := x) ?_
          · rwa [Store.IsEntered, ← hw]
          · change md.nodeOf[v]? = _ at hv
            rw [hnode, getElem?_erase_eq_ite] at hv
            split at hv
            · cases hv
            · exact hv
        · change md.nodeOf[old]? = none
          rw [hnode, getElem?_erase_eq_ite, if_pos rfl]

theorem ends_moveValueNode_alone (hs : s.core.Sound r) {old new : ValueId}
    (h : s.metadata.nodeOf[old]? = none ∨ s.metadata.nodeOf[new]? = none) :
    Ends (moveValueNode nested old new) s (fun _ s' => s'.values = s.values ∧ s'.uses = s.uses)
      fun _ _ => False := by
  unfold moveValueNode
  rw [ends_bind, ends_get]
  dsimp only
  cases hold : s.metadata.nodeOf[old]? with
  | none => exact ⟨rfl, rfl⟩
  | some n =>
    rw [h.resolve_left (by simp [hold])]
    obtain ⟨d, hd, -⟩ := (hs.consistent.nodeOf old n).1 hold
    dsimp only
    rw [ends_bind, ends_modify]
    refine (ends_modifyNode (d := d) ?_ _).2 ⟨rfl, rfl⟩
    exact hd

end Edit

end ShaderIR
