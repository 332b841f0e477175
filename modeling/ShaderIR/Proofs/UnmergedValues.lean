import ShaderIR.Proofs.AddressNullification
import ShaderIR.Proofs.ForsakenNodes
import ShaderIR.Proofs.TableAgreement

/-! What a replacement bypasses. A value that stands in the layout is entered neither as a constant
nor as a wrapper, so no merge leads to it. As long as it is not replaced itself and takes the place
of nothing, it keeps the node that wraps it, and nothing turns to that node. -/

namespace ShaderIR

theorem Arena.get?_set_of_ne {e : Entity} {α : Type} (a : Arena e α) (x : α) {i j : Index e}
    (h : i ≠ j) : (a.set i x).get? j = a.get? j := by
  obtain ⟨n⟩ := i
  obtain ⟨m⟩ := j
  have hne : n ≠ m := fun hnm => h (hnm ▸ rfl)
  simp only [get?, set, Array.getElem?_setIfInBounds, if_neg hne]

namespace Tracker

variable {t t' : Tracker} {l k : Location} {n m : NodeId}

theorem mem_tracked_iff : l ∈ t.tracked n ↔ t.isTracked l n = true := by
  rw [tracked, Stamps.mem_locations, ← Stamps.contains_eq, isTracked]

theorem Follows.of_isTracked {r : Location → Option NodeId} (h : t.Follows r)
    (hl : t.isTracked l n = true) : r l = some n := by
  rw [isTracked, stamps] at hl
  cases hs : t.nodes[n]? with
  | none =>
    rw [hs, Stamps.contains_eq] at hl
    simp at hl
  | some s =>
    rw [hs, Stamps.contains_eq] at hl
    exact (h.stamped n s hs l).1 hl

theorem isTracked_put (t : Tracker) (m : NodeId) (s : Stamps) :
    (t.put m s).isTracked l n = if m = n then s.contains l else t.isTracked l n := by
  rw [isTracked, stamps_put]
  split <;> rfl

theorem isTracked_of_getElem? {s : Stamps} (h : t.nodes[n]? = some s) :
    t.isTracked l n = s.contains l := by
  rw [isTracked, stamps, h, Option.getD_some]

theorem isTracked_track {b : Bool} (h : t.track k m = .ok (b, t'))
    (hl : t'.isTracked l n = true) : t.isTracked l n = true ∨ l = k ∧ n = m := by
  unfold track at h
  split at h
  · cases h
    exact .inl hl
  next s hs =>
    split at h
    · cases h
    · cases h
      rw [isTracked_put] at hl
      split at hl
      next hmn =>
        rw [Stamps.contains_eq, Stamps.add, getElem?_insert_eq_ite] at hl
        split at hl
        next hkl => exact .inr ⟨hkl.symm, hmn.symm⟩
        next =>
          rw [← Stamps.contains_eq, ← isTracked_of_getElem? hs, hmn] at hl
          exact .inl hl
      next => exact .inl hl

theorem isTracked_untrack (hl : (t.untrack k m).2.isTracked l n = true) :
    t.isTracked l n = true := by
  unfold untrack at hl
  split at hl
  · exact hl
  next s hs =>
    split at hl
    · rw [isTracked_put] at hl
      split at hl
      next hmn =>
        rw [Stamps.contains_eq, Stamps.erase, getElem?_erase_eq_ite] at hl
        split at hl
        · cases hl
        · rwa [← Stamps.contains_eq, ← isTracked_of_getElem? hs, hmn] at hl
      next => exact hl
    · exact hl

theorem isTracked_take (hl : (t.take m).2.isTracked l n = true) : t.isTracked l n = true := by
  unfold take at hl
  split at hl
  · exact hl
  next s hs =>
    rw [isTracked_put] at hl
    split at hl
    · rw [Stamps.contains_eq] at hl
      simp at hl
    · exact hl

theorem isTracked_resolve (hl : (t.resolve m).2.isTracked l n = true) : t.isTracked l n = true := by
  rw [isTracked, stamps, resolve, getElem?_erase_eq_ite] at hl
  split at hl
  · rw [Stamps.contains_eq] at hl
    simp at hl
  · exact hl

end Tracker

namespace Store

structure Upholds (s s' : Store) : Prop where
  config : s'.config = s.config
  named : ∀ m, (s'.modules.get? m).map Module.named = (s.modules.get? m).map Module.named
  handle : ∀ {h target}, s.metadata.handles.get? h = some target →
    ∃ target', s'.metadata.handles.get? h = some target'

theorem Upholds.refl (s : Store) : s.Upholds s := ⟨rfl, fun _ => rfl, fun h => ⟨_, h⟩⟩

theorem Upholds.trans {s s' s'' : Store} (h : s.Upholds s') (h' : s'.Upholds s'') :
    s.Upholds s'' where
  config := h'.config.trans h.config
  named m := (h'.named m).trans (h.named m)
  handle ht := by
    obtain ⟨_, ht'⟩ := h.handle ht
    exact h'.handle ht'

theorem Upholds.of_eq {s₀ s s' : Store} (h : s₀.Upholds s) (hc : s'.config = s.config)
    (hm : s'.modules = s.modules) (hh : s'.metadata.handles = s.metadata.handles) :
    s₀.Upholds s' :=
  ⟨hc.trans h.config, hm ▸ h.named, hh ▸ h.handle⟩

/-- No table leads to a value that stands in the layout. It has the node that it had before, and
nothing refers to that node that did not before. -/
structure Bypasses (s₀ : Store) (v : ValueId) (s : Store) : Prop where
  resident : ∃ d, s.values.get? v = some d ∧ d.kind.isResident = true
  constants : ∀ key : ConstantKey, s.constants[key]? ≠ some v
  wrapperOf : ∀ n : NodeId, s.metadata.wrapperOf[n]? ≠ some v
  nodeOf : s.metadata.nodeOf[v]? = s₀.metadata.nodeOf[v]?
  sole : ∀ {w n}, s₀.metadata.nodeOf[v]? = some n → s.metadata.nodeOf[w]? = some n → w = v
  wrapper : ∀ {n}, s.metadata.tracker.isTracked (.wrapper v) n ≠ true
  tracked : ∀ {l n}, s₀.metadata.nodeOf[v]? = some n → s.metadata.tracker.isTracked l n = true →
    s₀.metadata.tracker.isTracked l n = true
  upholds : s₀.Upholds s

def footing (s : Store) :=
  (s.config, s.modules, s.values, s.constants, s.metadata.wrapperOf, s.metadata.nodeOf,
    s.metadata.tracker, s.metadata.handles)

instance : Untabled Store.footing := ⟨fun _ _ _ => rfl⟩

variable {s₀ s s' : Store} {v w : ValueId}

theorem Bypasses.congr (h : s₀.Bypasses v s) (hs : s'.footing = s.footing) : s₀.Bypasses v s' := by
  obtain ⟨hc, hm, hv, hk, hw, hn, ht, hh⟩ : s'.config = s.config ∧ s'.modules = s.modules ∧
      s'.values = s.values ∧ s'.constants = s.constants ∧
      s'.metadata.wrapperOf = s.metadata.wrapperOf ∧ s'.metadata.nodeOf = s.metadata.nodeOf ∧
      s'.metadata.tracker = s.metadata.tracker ∧ s'.metadata.handles = s.metadata.handles := by
    simpa [Store.footing] using hs
  exact ⟨hv ▸ h.resident, hk ▸ h.constants, hw ▸ h.wrapperOf, hn ▸ h.nodeOf, hn ▸ h.sole,
    ht ▸ h.wrapper, ht ▸ h.tracked, h.upholds.of_eq hc hm hh⟩

theorem Bypasses.modifyValue (h : s₀.Bypasses v s) {f : Value → Value}
    (hf : ∀ d, (f d).kind = d.kind) : s₀.Bypasses v (s.modifyValue w f) := by
  refine ⟨?_, h.constants, h.wrapperOf, h.nodeOf, h.sole, h.wrapper, h.tracked,
    h.upholds.of_eq rfl rfl rfl⟩
  obtain ⟨d, hd, hk⟩ := h.resident
  have hget : (s.modifyValue w f).values.get? v = _ := Arena.get?_modify ..
  split at hget
  next => exact ⟨f d, by rw [hget, hd]; rfl, (hf d).symm ▸ hk⟩
  next => exact ⟨d, hget.trans hd, hk⟩

theorem Bypasses.withTracker (h : s₀.Bypasses v s) {t : Tracker}
    (ht : ∀ {l n}, t.isTracked l n = true → s.metadata.tracker.isTracked l n = true) :
    s₀.Bypasses v (s.withTracker t) :=
  ⟨h.resident, h.constants, h.wrapperOf, h.nodeOf, h.sole, fun hw => h.wrapper (ht hw),
    fun hn hl => h.tracked hn (ht hl), h.upholds.of_eq rfl rfl rfl⟩

theorem Bypasses.withWrappers (h : s₀.Bypasses v s) {ws : Std.ExtTreeMap NodeId ValueId}
    (hws : ∀ n : NodeId, ws[n]? ≠ some v) :
    s₀.Bypasses v (s.modifyMetadata fun md => { md with wrapperOf := ws }) :=
  ⟨h.resident, h.constants, hws, h.nodeOf, h.sole, h.wrapper, h.tracked, h.upholds.of_eq rfl rfl rfl⟩

theorem Bypasses.withConstants (h : s₀.Bypasses v s) {cs : Std.ExtTreeMap ConstantKey ValueId}
    (hcs : ∀ key : ConstantKey, cs[key]? ≠ some v) :
    s₀.Bypasses v { s with constants := cs } :=
  ⟨h.resident, hcs, h.wrapperOf, h.nodeOf, h.sole, h.wrapper, h.tracked,
    h.upholds.of_eq rfl rfl rfl⟩

theorem Bypasses.erase (h : s₀.Bypasses v s) (hw : w ≠ v) (sc : Std.ExtTreeMap Scope SymbolTable) :
    s₀.Bypasses v { s with values := s.values.erase w, scopes := sc } := by
  obtain ⟨d, hd, hk⟩ := h.resident
  have hget : (s.values.erase w).get? v = some d := (Arena.get?_erase ..).trans ((if_neg hw).trans hd)
  exact ⟨⟨d, hget, hk⟩, h.constants, h.wrapperOf, h.nodeOf, h.sole, h.wrapper, h.tracked,
    h.upholds.of_eq rfl rfl rfl⟩

theorem Bypasses.ne_of_isBlockAddress (h : s₀.Bypasses v s) (hw : s.isBlockAddress w = true) :
    w ≠ v := by
  rintro rfl
  obtain ⟨d, hd, hk⟩ := h.resident
  obtain ⟨d', hd', ha⟩ := Edit.isBlockAddress_iff.1 hw
  obtain rfl := Option.some.inj (hd.symm.trans hd')
  rw [ha.kind] at hk
  cases hk

end Store

namespace Edit

open Store Tracker

variable {s₀ s : Store} {v w old new : ValueId} {n m : NodeId} {l : Location} {α : Type}
    {e : Edit α}

theorem Fixes.bypasses (h : Fixes Store.footing e) : Keeps (s₀.Bypasses v) e := fun s hs =>
  (h.ends s).mono (fun _ _ => hs.congr) fun _ _ => hs.congr

theorem keeps_modify_bypasses {g : Store → Store} (h : ∀ s, (g s).footing = s.footing) :
    Keeps (s₀.Bypasses v) (modify g : Edit Unit) := (Fixes.modify h).bypasses

theorem keeps_modifyValue_bypasses {f : Value → Value} (hf : ∀ d, (f d).kind = d.kind) :
    Keeps (s₀.Bypasses v) (modifyValue w f) :=
  .bind (.lift _) fun _ => .modify fun _ hs => hs.modifyValue hf

section Tracking

theorem keeps_track_bypasses (hl : l ≠ .wrapper v) (hn : s₀.metadata.nodeOf[v]? ≠ some n) :
    Keeps (s₀.Bypasses v) (track l n) := by
  intro s hs
  unfold track
  rw [ends_bind, ends_get]
  split
  next b t ht =>
    refine ⟨hs.resident, hs.constants, hs.wrapperOf, hs.nodeOf, hs.sole, fun hw => ?_,
      fun hm hk => ?_, hs.upholds.of_eq rfl rfl rfl⟩
    · obtain hw | ⟨hw, -⟩ := isTracked_track ht hw
      · exact hs.wrapper hw
      · exact hl hw.symm
    · obtain hk | ⟨-, rfl⟩ := isTracked_track ht hk
      · exact hs.tracked hm hk
      · exact absurd hm hn
  · exact hs

theorem keeps_untrack_bypasses : Keeps (s₀.Bypasses v) (untrack l n) := fun _ hs =>
  hs.withTracker isTracked_untrack

end Tracking

theorem keeps_eraseWrapper_bypasses {p : Metadata → Prop} [DecidablePred p] :
    Keeps (s₀.Bypasses v) (modify (·.modifyMetadata fun md =>
      if p md then { md with wrapperOf := md.wrapperOf.erase n } else md) : Edit Unit) := by
  refine .modify fun s hs => ?_
  have herase (m : NodeId) : (s.metadata.wrapperOf.erase n)[m]? ≠ some v := by
    rw [getElem?_erase_eq_ite]
    split
    · simp
    · exact hs.wrapperOf m
  by_cases hp : p s.metadata
  · simpa only [modifyMetadata, if_pos hp] using hs.withWrappers herase
  · simpa only [modifyMetadata, if_neg hp] using hs

theorem keeps_forgetConstant_bypasses {key : ConstantKey} :
    Keeps (s₀.Bypasses v) (forgetConstant key w) := by
  refine .modify fun s hs => ?_
  split
  · refine hs.withConstants fun k => ?_
    rw [getElem?_erase_eq_ite]
    split
    · simp
    · exact hs.constants k
  · exact hs

section Destroying

theorem keeps_clearAttachments_bypasses : Keeps (s₀.Bypasses v) (clearAttachments w) :=
  .bind (.lift _) fun _ => .bind (keeps_modifyValue_bypasses fun _ => rfl) fun _ =>
    .forM (fun _ => keeps_untrack_bypasses) _

theorem keeps_dropWrapper_bypasses : Keeps (s₀.Bypasses v) (dropWrapper w) := by
  refine .bind (.lift _) fun m => ?_
  split
  · exact .pure _
  · exact .bind keeps_untrack_bypasses fun _ => keeps_eraseWrapper_bypasses

theorem keeps_dropValueNode_bypasses (hw : w ≠ v) : Keeps (s₀.Bypasses v) (dropValueNode w) := by
  intro s hs
  unfold dropValueNode
  rw [ends_bind, ends_get]
  split
  · exact hs
  next m hm =>
    have hget (u : ValueId) : (s.metadata.nodeOf.erase w)[u]? =
        if w = u then none else s.metadata.nodeOf[u]? := getElem?_erase_eq_ite ..
    refine ⟨hs.resident, hs.constants, hs.wrapperOf, ?_, fun {u k} hn hu => hs.sole hn ?_,
      fun hv => hs.wrapper (isTracked_resolve hv), fun hn hl => hs.tracked hn (isTracked_resolve hl),
      hs.upholds.of_eq rfl rfl rfl⟩
    · exact (hget v).trans ((if_neg hw).trans hs.nodeOf)
    · have hu : (s.metadata.nodeOf.erase w)[u]? = some k := hu
      rw [hget] at hu
      split at hu
      · cases hu
      · exact hu

theorem keeps_destroyValue_bypasses (hw : w ≠ v) : Keeps (s₀.Bypasses v) (destroyValue w) := by
  refine .bind (.lift _) fun kind => .bind (.lift _) fun uses => .guard (.raise _) ?_
  refine .bind (keeps_dropUntrackedNode (keeps_dropValueNode_bypasses hw)) fun _ =>
    .bind (.lift _) fun key => ?_
  have htail : Keeps (s₀.Bypasses v) (do
      unregisterName w
      modify (·.modifyUses (·.clearSlots w))
      clearAttachments w
      dropWrapper w
      modify fun s => { s with
        values := s.values.erase w
        scopes := s.scopes.erase (.function w) } : Edit Unit) :=
    .bind (Fixes.bypasses fixes_unregisterName) fun _ =>
      .bind (keeps_modify_bypasses fun _ => rfl) fun _ =>
        .bind keeps_clearAttachments_bypasses fun _ =>
          .bind keeps_dropWrapper_bypasses fun _ => .modify fun _ hs => hs.erase hw _
  split
  · exact .bind keeps_forgetConstant_bypasses fun _ => htail
  · exact htail

end Destroying

section Retargeting

theorem keeps_modifyNode_bypasses {f : Node → Node} : Keeps (s₀.Bypasses v) (modifyNode m f) :=
  .bind (.lift _) fun _ => keeps_modify_bypasses fun _ => rfl

variable (hn : s₀.metadata.nodeOf[v]? ≠ some n)

include hn

theorem keeps_retargetOperand_bypasses {i : Nat} :
    Keeps (s₀.Bypasses v) (retargetOperand m i n) := by
  refine .bind (.lift _) fun before => .bind keeps_modifyNode_bypasses fun _ =>
    .bind (keeps_track_bypasses (by simp) hn) fun _ => ?_
  refine .ite (.bind (keeps_modify_bypasses fun s => ?_) fun _ => .bind (.lift _) fun after =>
    .bind .get fun s => ?_) (.pure _)
  · simp only [modifyMetadata]
    split <;> rfl
  · split
    · exact keeps_modify_bypasses fun _ => rfl
    · exact keeps_modifyNode_bypasses

theorem keeps_retargetHandle_bypasses {h : HandleId} :
    Keeps (s₀.Bypasses v) (retargetHandle h n) := by
  refine .bind (.modify fun s hs => ?_) fun _ => keeps_track_bypasses (by simp) hn
  refine ⟨hs.resident, hs.constants, hs.wrapperOf, hs.nodeOf, hs.sole, hs.wrapper, hs.tracked,
    hs.upholds.config, hs.upholds.named, fun {k target} ht => ?_⟩
  obtain ⟨target', ht'⟩ := hs.upholds.handle ht
  change ∃ target', (s.metadata.handles.set h (some n)).get? k = some target'
  by_cases hk : h = k
  · subst hk
    exact ⟨_, (Arena.get?_set _ _ _ _ (Arena.lt_size_of_get? ht')).trans (if_pos rfl)⟩
  · exact ⟨target', (Arena.get?_set_of_ne _ _ hk).trans ht'⟩

theorem keeps_retargetAttachment_bypasses {tag : TagId} :
    Keeps (s₀.Bypasses v) (retargetAttachment w tag n) :=
  .bind (keeps_modifyValue_bypasses fun _ => rfl) fun _ => keeps_track_bypasses (by simp) hn

section Nested

variable {nested : ValueId → ValueId → Edit Unit}
variable (hnested : ∀ old new, old ≠ v → new ≠ v → Keeps (s₀.Bypasses v) (nested old new))

include hnested

theorem keeps_retargetWrapper_bypasses (hw : w ≠ v) :
    Keeps (s₀.Bypasses v) (retargetWrapper nested w m n) := by
  refine .bind keeps_eraseWrapper_bypasses fun _ s hs => ?_
  rw [ends_bind, ends_get]
  split
  next existing hexisting =>
    have hne : existing ≠ v := by
      rintro rfl
      exact hs.wrapperOf n hexisting
    exact Keeps.bind (hnested w existing hw hne) (fun _ => keeps_destroyValue_bypasses hw) s hs
  next =>
    refine Keeps.bind (keeps_modifyValue_bypasses fun d => ?_) (fun _ => .bind (.modify fun s hs => ?_)
      fun _ => keeps_track_bypasses (by simpa using hw) hn) s hs
    · obtain ⟨_, p, _, _, _⟩ := d
      cases p <;> rfl
    · refine hs.withWrappers fun k => ?_
      rw [getElem?_insert_eq_ite]
      split
      · simpa using hw
      · exact hs.wrapperOf k

theorem keeps_retarget_bypasses (hl : l ≠ .wrapper v) :
    Keeps (s₀.Bypasses v) (retarget nested m n l) := by
  cases l with
  | operand => exact keeps_retargetOperand_bypasses hn
  | wrapper w => exact keeps_retargetWrapper_bypasses hn hnested (by simpa using hl)
  | handle => exact keeps_retargetHandle_bypasses hn
  | attachment => exact keeps_retargetAttachment_bypasses hn

theorem keeps_replaceNodeStep_bypasses : Keeps (s₀.Bypasses v) (replaceNodeStep nested m n) := by
  intro s hs
  refine ends_replaceNodeStep_of (fun _ => hs) (fun _ _ _ => ?_) fun _ _ _ => hs
  refine (ends_forM (fun rest s' => s₀.Bypasses v s' ∧ ∀ l ∈ rest, l ≠ .wrapper v)
    (fun l rest s' h => ?_) _ _ ⟨hs.withTracker isTracked_take, fun l hl => ?_⟩).mono
    (fun _ _ h => h.1) fun _ _ h => h
  · refine (keeps_retarget_bypasses hn hnested (h.2 l (List.mem_cons_self ..)) s' h.1).mono
      (fun _ s'' hs'' => ⟨hs'', fun k hk => h.2 k (List.mem_cons_of_mem _ hk)⟩) fun _ _ hs'' => hs''
  · rintro rfl
    exact hs.wrapper (mem_tracked_iff.1 hl)

end Nested

end Retargeting

section Replacing

variable {nested : ValueId → ValueId → Edit Unit}
variable (hnested : ∀ old new, old ≠ v → new ≠ v → Keeps (s₀.Bypasses v) (nested old new))

include hnested

theorem keeps_moveValueNode_bypasses (hold : old ≠ v) (hnew : new ≠ v) :
    Keeps (s₀.Bypasses v) (moveValueNode nested old new) := by
  intro s hs
  unfold moveValueNode
  rw [ends_bind, ends_get]
  dsimp only
  split
  · exact hs
  next hn =>
    refine Keeps.bind (keeps_replaceNodeStep_bypasses (fun hv => hnew (hs.sole hv hn)) hnested)
      (fun _ => keeps_dropValueNode_bypasses hold) s hs
  next m hm hn =>
    have hget (u : ValueId) : ((s.metadata.nodeOf.erase old).insert new m)[u]? =
        if new = u then some m else if old = u then none else s.metadata.nodeOf[u]? := by
      rw [getElem?_insert_eq_ite, getElem?_erase_eq_ite]
    refine keeps_modifyNode_bypasses _ ⟨hs.resident, hs.constants, hs.wrapperOf, ?_,
      fun {u k} hv hu => ?_, hs.wrapper, hs.tracked, hs.upholds.of_eq rfl rfl rfl⟩
    · exact (hget v).trans ((if_neg hnew).trans ((if_neg hold).trans hs.nodeOf))
    · have hu : ((s.metadata.nodeOf.erase old).insert new m)[u]? = some k := hu
      rw [hget] at hu
      split at hu
      · obtain rfl := Option.some.inj hu
        exact absurd (hs.sole hv hm) hold
      · split at hu
        · cases hu
        · exact hs.sole hv hu

theorem keeps_internBlockAddress_bypasses {key : ConstantKey} (hw : w ≠ v) :
    Keeps (s₀.Bypasses v) (internBlockAddress nested w key) := by
  have henter {after : ConstantKey} : Keeps (s₀.Bypasses v) (modify fun s =>
      { s with constants := s.constants.insert after w } : Edit Unit) := by
    refine .modify fun s hs => hs.withConstants fun k => ?_
    rw [getElem?_insert_eq_ite]
    split
    · simpa using hw
    · exact hs.constants k
  refine .bind keeps_forgetConstant_bypasses fun _ => .bind (.lift _) fun after => ?_
  split
  next after =>
    intro s hs
    rw [ends_bind, ends_get]
    split
    · exact henter s hs
    next existing hexisting =>
      have hne : existing ≠ v := by
        rintro rfl
        exact hs.constants _ hexisting
      exact Keeps.ite (.bind (hnested w existing hw hne) fun _ => keeps_destroyValue_bypasses hw)
        henter s hs
  next => exact .pure _

theorem keeps_moveEdges_bypasses {es : List EdgeId} :
    Keeps (s₀.Bypasses v) (moveEdges nested new es) := by
  have hmove {e : EdgeId} : Fixes Store.footing (moveEdge new e) :=
    .bind (.modify fun _ => rfl) fun _ => .bind (.lift _) fun _ => .modify fun _ => rfl
  rw [moveEdges_eq]
  intro s hs
  refine Ends.bind ((ends_foldlM (fun _ (noted : List (ValueId × ConstantKey)) s' =>
    s₀.Bypasses v s' ∧ ∀ c ∈ noted, c.1 ≠ v) (E := fun _ => s₀.Bypasses v) ?_ es [] s
    ⟨hs, by simp⟩).mono (fun _ _ h => h) fun _ _ h => h) ?_
  · rintro e rest noted s' ⟨hs', hnoted⟩
    refine Ends.bind (Q := fun noted s' => s₀.Bypasses v s' ∧ ∀ c ∈ noted, c.1 ≠ v) ?_ ?_
    · unfold noteBlockAddress
      rw [ends_bind, ends_get]
      dsimp only
      rw [ends_bind, ends_get]
      split
      next hif =>
        have hne := hs'.ne_of_isBlockAddress (Bool.and_eq_true_iff.1 hif).1
        refine ends_bind.2 (ends_lift.2 ⟨fun key _ => ?_, fun _ _ => hs'⟩)
        split
        · refine ⟨hs', fun c hc => ?_⟩
          obtain hc | hc := List.mem_append.1 hc
          · exact hnoted c hc
          · rwa [List.mem_singleton.1 hc]
        · exact ⟨hs', hnoted⟩
      next => exact ⟨hs', hnoted⟩
    · rintro noted' s'' ⟨hs'', hnoted'⟩
      exact Ends.bind ((hmove.bypasses s'' hs'').mono (fun _ _ h => h) fun _ _ h => h)
        fun _ _ h => ⟨h, hnoted'⟩
  · rintro noted s' ⟨hs', hnoted⟩
    refine (ends_forM (fun rest s' => s₀.Bypasses v s' ∧ ∀ c ∈ rest, c.1 ≠ v)
      (fun c rest s' h => ?_) noted s' ⟨hs', hnoted⟩).mono (fun _ _ h => h.1) fun _ _ h => h
    refine (keeps_internBlockAddress_bypasses hnested (h.2 c (List.mem_cons_self ..)) s' h.1).mono
      (fun _ s'' hs'' => ⟨hs'', fun k hk => h.2 k (List.mem_cons_of_mem _ hk)⟩) fun _ _ hs'' => hs''

theorem keeps_replaceStep_bypasses (hold : old ≠ v) (hnew : new ≠ v) :
    Keeps (s₀.Bypasses v) (replaceStep nested old new) :=
  .ite (.pure _) (.bind (.lift _) fun _ => .bind (.lift _) fun _ =>
    .bind (keeps_moveEdges_bypasses hnested) fun _ =>
      keeps_moveValueNode_bypasses hnested hold hnew)

omit hnested in
theorem keeps_replaceWithin_bypasses (depth : Nat) (hold : old ≠ v) (hnew : new ≠ v) :
    Keeps (s₀.Bypasses v) (replaceWithin depth old new) := by
  induction depth generalizing old new with
  | zero => exact .throw _
  | succ depth ih => exact keeps_replaceStep_bypasses (fun _ _ => ih) hold hnew

end Replacing

section Nullifying

variable {b c : ValueId} {ty : TypeId}

theorem keeps_replaceAllUses_bypasses (hold : old ≠ v) (hnew : new ≠ v) :
    Keeps (s₀.Bypasses v) (replaceAllUses old new) :=
  .bind .get fun _ => keeps_replaceWithin_bypasses _ hold hnew

theorem ends_constNull_bypasses (hs : s₀.Bypasses v s) : Ends (constNull ty) s
    (fun null s' => s₀.Bypasses v s' ∧ null ≠ v) fun _ _ => False := by
  unfold constNull internScalar
  rw [ends_bind, ends_get]
  split
  next null hnull =>
    refine ⟨hs, ?_⟩
    rintro rfl
    exact hs.constants _ hnull
  next =>
    obtain ⟨d, hd, hk⟩ := hs.resident
    have hne : s.values.next ≠ v := by
      rintro rfl
      simp at hd
    have hpush : s₀.Bypasses v (s.pushValue { ty := ty, payload := .constant .null }).2 := by
      refine ⟨⟨d, ?_, hk⟩, hs.constants, hs.wrapperOf, hs.nodeOf, hs.sole, hs.wrapper, hs.tracked,
        hs.upholds.of_eq rfl rfl rfl⟩
      exact (get?_pushValue ..).trans ((if_neg (Ne.symm hne)).trans hd)
    rw [ends_bind, pushValue, ends_modifyGet, ends_bind, ends_modify]
    refine ⟨hpush.withConstants fun key => ?_, hne⟩
    rw [getElem?_insert_eq_ite]
    split
    · exact fun heq => hne (Option.some.inj heq)
    · exact hs.constants key

theorem keeps_nullifyBlockAddress_bypasses (hc : c ≠ v) :
    Keeps (s₀.Bypasses v) (nullifyBlockAddress c) := by
  refine .bind (.lift _) fun ty s hs => Ends.bind ((ends_constNull_bypasses hs).weaken
    fun _ _ h => h) ?_
  rintro null p ⟨hp, hnull⟩
  exact Keeps.bind (keeps_replaceAllUses_bypasses hc hnull)
    (fun _ => keeps_destroyValue_bypasses hc) p hp

theorem keeps_nullifyBlockAddresses_bypasses :
    Keeps (s₀.Bypasses v) (nullifyBlockAddresses b) := by
  refine .bind (.lift _) fun users s hs => ?_
  rw [ends_bind, ends_get]
  refine Keeps.forM_of_mem (fun c hc => ?_) s hs
  have haddress := (List.mem_filter.1 (mem_dropRepeats.1 hc)).2
  exact keeps_nullifyBlockAddress_bypasses (hs.ne_of_isBlockAddress haddress)

end Nullifying

end Edit

theorem Store.bypasses_self {B : ValueId → Prop} {s : Store} {v : ValueId} {k : ValueKind}
    (hs : Edit.Coherent B s) (hk : s.layout.kind v = some k) : s.Bypasses v s := by
  obtain ⟨hresident, d, hd, rfl⟩ := Store.layout_kind.1 hk
  have hnot {k : ValueKind} (h : ∃ d', s.values.get? v = some d' ∧ d'.kind = k) :
      k.isResident = true := by
    obtain ⟨d', hd', rfl⟩ := h
    exact Option.some.inj (hd.symm.trans hd') ▸ hresident
  have hconsistent := hs.settled.consistent
  refine ⟨⟨d, hd, hresident⟩, fun key hkey => ?_, fun n hn => ?_, rfl, fun {w n} hv hw => ?_,
    fun {n} hn => ?_, fun _ h => h, .refl s⟩
  · cases (hs.keyed.constantsAgree.table key v).1 hkey with
    | scalar hd' hp _ => cases hnot ⟨_, hd', congrArg Payload.kind hp⟩
    | address hd' hp _ _ => cases hnot ⟨_, hd', congrArg Payload.kind hp⟩
  · cases hnot (IsEntered.kind ⟨n, hn⟩ hs.settled)
  · obtain ⟨dn, hdn, hcv⟩ := (hconsistent.nodeOf v n).1 hv
    obtain ⟨dn', hdn', hcw⟩ := (hconsistent.nodeOf w n).1 hw
    obtain rfl := Option.some.inj (hdn.symm.trans hdn')
    exact Content.value.inj (hcw.symm.trans hcv)
  · have hheld := hs.settled.recorded.follows.of_isTracked hn
    obtain ⟨d', hd', hw⟩ := Option.bind_eq_some_iff.1 hheld
    rw [get?_core, hd] at hd'
    obtain rfl := Option.some.inj hd'
    rw [Value.wrapped?_bare, Value.wrapped?_eq_some] at hw
    cases hnot ⟨d, hd, congrArg Payload.kind hw⟩

end ShaderIR
