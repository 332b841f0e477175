import ShaderIR.Proofs.CoreSteps
import ShaderIR.Proofs.Placement

/-! Edits that write into handles and attachments, and the record of what these hold. -/

open ShaderIR.Core

namespace ShaderIR

namespace Core

variable {c : Core} {r : Location → Option NodeId} {v : ValueId} {h : HandleId} {n : NodeId}

def withHandles (c : Core) (hs : Arena .handle (Option NodeId)) : Core :=
  { c with metadata := { c.metadata with handles := hs } }

theorem held_pushHandle (c : Core) (o : Option NodeId) :
    (c.withHandles (c.metadata.handles.push o)).held =
      Function.update c.held (.handle c.metadata.handles.next) o := by
  funext l
  cases l with
  | handle h =>
    simp only [held, withHandles, Arena.get?_push, Function.update_apply, Location.handle.injEq]
    split <;> rfl
  | _ => rw [Function.update_of_ne (by simp)]; rfl

theorem held_setHandle (c : Core) {h : HandleId} {o o' : Option NodeId}
    (hh : c.metadata.handles.get? h = some o') :
    (c.withHandles (c.metadata.handles.set h o)).held =
      Function.update c.held (.handle h) o := by
  funext l
  cases l with
  | handle k =>
    simp only [held, withHandles, Arena.get?_set _ _ _ _ (Arena.lt_size_of_get? hh),
      Function.update_apply, Location.handle.injEq]
    by_cases hkh : k = h
    · simp [hkh]
    · simp [hkh, Ne.symm hkh]
  | _ => rw [Function.update_of_ne (by simp)]; rfl

theorem held_eraseHandle (c : Core) (h : HandleId) :
    (c.withHandles (c.metadata.handles.erase h)).held =
      Function.update c.held (.handle h) none := by
  funext l
  cases l with
  | handle k =>
    simp only [held, withHandles, Arena.get?_erase, Function.update_apply,
      Location.handle.injEq]
    by_cases hkh : k = h
    · simp [hkh]
    · simp [hkh, Ne.symm hkh]
  | _ => rw [Function.update_of_ne (by simp)]; rfl

theorem Sound.withHandles (h : c.Sound c.held) {hs : Arena .handle (Option NodeId)} {t : Tracker}
    (hheld : (c.withHandles hs).held = r) (hf : t.Follows r)
    (hi : ∀ n, t.isReplaceable n ↔ c.metadata.tracker.isReplaceable n)
    (hb : ∀ l n, r l = some n → n.index < c.metadata.nodes.size) :
    ((c.withHandles hs).withTracker t).Sound ((c.withHandles hs).withTracker t).held := by
  refine h.settle (h.consistent.congr rfl rfl hi) (hheld ▸ hf) rfl fun l n hl => hb l n ?_
  rw [← hheld]
  exact hl

end Core

def Store.withHandles (s : Store) (hs : Arena .handle (Option NodeId)) : Store :=
  s.modifyMetadata fun md => { md with handles := hs }

theorem bound_update {s : Store} (hs : s.Settled) {l : Location} {o : Option NodeId}
    (ho : ∀ n, o = some n → ∃ d, s.metadata.nodes.get? n = some d) (l' : Location) (n : NodeId)
    (hn : Function.update s.core.held l o l' = some n) : n.index < s.metadata.nodes.size := by
  rw [Function.update_apply] at hn
  split at hn
  · obtain ⟨d, hd⟩ := ho n hn
    exact Arena.lt_size_of_get? hd
  · exact hs.recorded.bound hn

namespace Edit

variable {s : Store} {h : HandleId} {o : Option NodeId}

@[simp] theorem ends_pushHandle {Q : HandleId → Store → Prop} {E : Fault → Store → Prop} :
    Ends (pushHandle o) s Q E ↔
      Q s.metadata.handles.next (s.withHandles (s.metadata.handles.push o)) := Iff.rfl

@[simp] theorem ends_putHandle {Q : Unit → Store → Prop} {E : Fault → Store → Prop} :
    Ends (putHandle h o) s Q E ↔ Q () (s.withHandles (s.metadata.handles.set h o)) := Iff.rfl

theorem safe_trackHandle : Safe Fault.IsOrdinary Store.Settled (trackHandle o) := by
  intro s hs
  refine (ends_expectNode o s).mono (fun _ _ hp => hp) (fun _ _ hp => ⟨hp.1, hp.2 ▸ hs⟩) |>.bind ?_
  rintro _ s' ⟨rfl, ho⟩
  have hnext : s'.core.held (.handle s'.metadata.handles.next) = none := by
    simp [held, Store.core]
  have hf : (s'.withHandles (s'.metadata.handles.push o)).metadata.tracker.Follows
      s'.core.held := hs.recorded.follows
  rw [ends_bind, ends_pushHandle, ends_bind]
  refine (ends_trackOption hf hnext).weaken ?_
  rintro _ _ ⟨t, rfl, ht, hi⟩
  exact hs.withHandles (held_pushHandle s'.core o) ht hi (bound_update hs ho)

theorem safe_resetHandle : Safe Fault.IsOrdinary Store.Settled (resetHandle h o) := by
  intro s hs
  refine Query.regular_handle.ends_bind (fun _ hx => ⟨hx, hs⟩) fun old hold => ?_
  rw [Query.handle_ok] at hold
  have hheld : s.core.held (.handle h) = old := by simp [held, Store.core, hold]
  split
  · exact hs
  refine (ends_expectNode o s).mono (fun _ _ hp => hp) (fun _ _ hp => ⟨hp.1, hp.2 ▸ hs⟩) |>.bind ?_
  rintro _ s' ⟨rfl, ho⟩
  rw [ends_bind]
  refine (ends_untrackOption hs.recorded.follows (.inr hheld)).weaken ?_
  rintro _ _ ⟨t, rfl, ht, hi⟩
  have hf : ((s'.withTracker t).withHandles (s'.metadata.handles.set h o)).metadata.tracker.Follows
      (Function.update s'.core.held (.handle h) none) := ht
  rw [ends_bind, ends_putHandle]
  refine (ends_trackOption hf (Function.update_self ..)).weaken ?_
  rintro _ _ ⟨t', rfl, ht', hi'⟩
  rw [Function.update_idem] at ht'
  exact hs.withHandles (held_setHandle s'.core hold) ht' (fun n => (hi' n).trans (hi n))
    (bound_update hs ho)

theorem safe_moveHandle : Safe Fault.IsOrdinary Store.Settled (moveHandle h) := by
  intro s hs
  refine Query.regular_handle.ends_bind (fun _ hx => ⟨hx, hs⟩) fun o ho => ?_
  rw [Query.handle_ok] at ho
  have hheld : s.core.held (.handle h) = o := by simp [held, Store.core, ho]
  have hnext : s.core.held (.handle s.metadata.handles.next) = none := by
    simp [held, Store.core]
  have hne : s.metadata.handles.next ≠ h := fun hn => by simp [← hn] at ho
  have hpush := held_pushHandle s.core o
  have hget : (s.core.withHandles (s.metadata.handles.push o)).metadata.handles.get? h =
      some o := by
    simp [withHandles, Store.core, Arena.get?_push, hne.symm, ho]
  have hset := held_setHandle _ (o := none) hget
  have hf : ((s.withHandles (s.metadata.handles.push o)).withHandles
      ((s.metadata.handles.push o).set h none)).metadata.tracker.Follows s.core.held :=
    hs.recorded.follows
  rw [ends_bind, ends_pushHandle, ends_bind, ends_putHandle, ends_bind]
  refine (ends_retrackOption hf hheld hnext).weaken ?_
  rintro _ _ ⟨t, rfl, ht, hi⟩
  refine hs.withHandles (hset.trans ?_) ht hi fun l n hl => ?_
  · rw [show (s.core.withHandles (s.metadata.handles.push o)).held = _ from hpush]
    exact Function.update_comm (fun hn => hne (Location.handle.inj hn)) ..
  · simp only [Function.update_apply] at hl
    split at hl
    · exact hs.recorded.bound (hheld.trans hl)
    · split at hl
      · cases hl
      · exact hs.recorded.bound hl

theorem keeps_releaseHandle : Keeps Store.Settled (releaseHandle h) := by
  intro s hs
  refine ends_bind.2 (ends_lift.2 ⟨fun o ho => ?_, fun _ _ => hs⟩)
  rw [Query.handle_ok] at ho
  have hheld : s.core.held (.handle h) = o := by simp [held, Store.core, ho]
  rw [ends_bind]
  refine (ends_untrackOption hs.recorded.follows (.inr hheld)).weaken ?_
  rintro _ _ ⟨t, rfl, ht, hi⟩
  exact hs.withHandles (held_eraseHandle s.core h) ht hi (bound_update hs (by simp))

end Edit

section Attachments

variable {as : List (TagId × NodeId)} {tag : TagId} {o : Option NodeId}

theorem find?_setAttachment (h : (as.map Prod.fst).Nodup) (tag' : TagId) :
    ((setAttachment tag o as).find? (·.1 = tag')).map Prod.snd =
      if tag' = tag then o else (as.find? (·.1 = tag')).map Prod.snd := by
  induction as with
  | nil => cases o <;> simp [setAttachment, List.find?_cons]; grind
  | cons a as ih =>
    rw [List.map_cons, List.nodup_cons] at h
    have hnone : a.1 = tag → (as.find? (·.1 = tag)).map Prod.snd = none := fun hat => by
      rw [Option.map_eq_none_iff, List.find?_eq_none]
      intro b hb hbt
      exact h.1 (List.mem_map.2 ⟨b, hb, (of_decide_eq_true hbt).trans hat.symm⟩)
    rw [setAttachment]
    split
    next hat =>
      cases o <;> simp [List.find?_cons] <;> grind
    next hat =>
      have := ih h.2
      by_cases hat' : a.1 = tag'
      · simp [hat', show tag' ≠ tag from hat' ▸ hat]
      · simpa [hat'] using this

theorem fst_mem_setAttachment {x : TagId} (h : x ∈ (setAttachment tag o as).map Prod.fst) :
    x = tag ∨ x ∈ as.map Prod.fst := by
  induction as with
  | nil => cases o <;> simp_all [setAttachment]
  | cons a as ih =>
    rw [setAttachment] at h
    split at h <;> cases o <;> simp_all <;> grind

theorem nodup_setAttachment (h : (as.map Prod.fst).Nodup) :
    ((setAttachment tag o as).map Prod.fst).Nodup := by
  induction as with
  | nil => cases o <;> simp [setAttachment]
  | cons a as ih =>
    rw [List.map_cons, List.nodup_cons] at h
    rw [setAttachment]
    split
    next hat => cases o <;> simp_all
    next hat =>
      rw [List.map_cons, List.nodup_cons]
      exact ⟨fun hm => (fst_mem_setAttachment hm).elim hat h.1, ih h.2⟩

namespace Core

variable {c : Core} {r : Location → Option NodeId} {v : ValueId}
variable {k : List (TagId × NodeId) → List (TagId × NodeId)}

def withAttachments (c : Core) (v : ValueId) (k : List (TagId × NodeId) → List (TagId × NodeId)) :
    Core :=
  { c with values := c.values.modify v fun d => { d with attachments := k d.attachments } }

theorem get?_withAttachments (c : Core) (w : ValueId) :
    (c.withAttachments v k).values.get? w = if v = w
      then (c.values.get? w).map fun d => { d with attachments := k d.attachments }
      else c.values.get? w := Arena.get?_modify ..

theorem held_wrapper_withAttachments (c : Core) (w : ValueId) :
    (c.withAttachments v k).held (.wrapper w) = c.held (.wrapper w) := by
  simp only [held, get?_withAttachments]
  split
  · rw [Option.bind_map]
    rfl
  · rfl

theorem Sound.withAttachments (h : c.Sound r)
    (hk : ∀ d, c.values.get? v = some d → { d with attachments := k d.attachments }.WellAttached)
    (hl : ∀ l, (c.withAttachments v k).held l = c.held l ∨ r l = none ∧
      ∀ n, (c.withAttachments v k).held l = some n → n.index < c.metadata.nodes.size) :
    (c.withAttachments v k).Sound r := by
  have hold {w d'} (hd' : (c.withAttachments v k).values.get? w = some d') :
      ∃ d, c.values.get? w = some d ∧ d.SameSort d' := by
    rw [get?_withAttachments] at hd'
    split at hd'
    · obtain ⟨d, hd, rfl⟩ := Option.map_eq_some_iff.1 hd'
      exact ⟨d, hd, rfl, rfl, Iff.rfl⟩
    · exact ⟨d', hd', .refl d'⟩
  have hlive {w} (hw : c.IsLive w) : (c.withAttachments v k).IsLive w := by
    obtain ⟨d, hd⟩ := hw
    rw [IsLive, get?_withAttachments]
    split <;> simp [hd]
  refine ⟨h.graph.mono fun w => hlive, h.typed.mono rfl hold fun ht =>
    ⟨ht, rfl, hlive (h.graph.target_live ht)⟩, h.consistent, fun {w d'} hd' => ?_, ?_⟩
  · rw [get?_withAttachments] at hd'
    split at hd'
    next hvw =>
      obtain ⟨d, hd, rfl⟩ := Option.map_eq_some_iff.1 hd'
      exact hk d (hvw ▸ hd)
    next => exact h.attached hd'
  · refine h.recorded.of_held rfl rfl (Nat.le_refl _) fun l => ?_
    obtain heq | ⟨hr, hn⟩ := hl l
    · exact .inl heq
    · by_cases hlw : ∃ w, l = .wrapper w
      · obtain ⟨w, rfl⟩ := hlw
        exact .inl (held_wrapper_withAttachments c w)
      · exact .inr ⟨hr, fun w hlw' => hlw ⟨w, hlw'⟩, hn⟩

theorem held_setAttachment {d : Value} (hd : c.values.get? v = some d) (ha : d.WellAttached) :
    (c.withAttachments v (setAttachment tag o)).held =
      Function.update c.held (.attachment v tag) o := by
  funext l
  cases l with
  | wrapper w =>
    rw [Function.update_of_ne (by simp)]
    exact held_wrapper_withAttachments c w
  | attachment w tag' =>
    simp only [held, get?_withAttachments, Function.update_apply, Location.attachment.injEq]
    by_cases hvw : v = w
    · subst hvw
      simpa [hd] using find?_setAttachment ha.tags tag'
    · simp [hvw, Ne.symm hvw]
  | _ => rw [Function.update_of_ne (by simp)]; rfl

theorem Sound.setAttachment (h : c.Sound r) {d : Value} (hd : c.values.get? v = some d)
    (hk : d.kind ≠ .metadata) (hr : r (.attachment v tag) = none)
    (ho : ∀ n, o = some n → n.index < c.metadata.nodes.size) :
    (c.withAttachments v (ShaderIR.setAttachment tag o)).Sound r := by
  have hheld : (c.withAttachments v (ShaderIR.setAttachment tag o)).held =
      Function.update c.held (.attachment v tag) o := held_setAttachment hd (h.attached hd)
  refine h.withAttachments (fun d' hd' => ?_) fun l => ?_
  · obtain rfl := Option.some.inj (hd.symm.trans hd')
    exact ⟨nodup_setAttachment (h.attached hd).tags, fun hm => absurd hm hk⟩
  · rw [hheld, Function.update_apply]
    split
    next hl => exact .inr ⟨hl ▸ hr, ho⟩
    next => exact .inl rfl

def dropAttachments (v : ValueId) (r : Location → Option NodeId) : Location → Option NodeId
  | .attachment w tag => if w = v then none else r (.attachment w tag)
  | l => r l

theorem held_clearAttachments (c : Core) (v : ValueId) :
    (c.withAttachments v fun _ => []).held = dropAttachments v c.held := by
  funext l
  cases l with
  | wrapper w => exact held_wrapper_withAttachments c w
  | attachment w tag =>
    simp only [held, get?_withAttachments, dropAttachments]
    by_cases hvw : v = w
    · subst hvw
      cases c.values.get? v <;> simp
    · simp [hvw, Ne.symm hvw]
  | _ => rfl

theorem dropAttachments_eq_some {l : Location} {n : NodeId}
    (h : dropAttachments v r l = some n) : r l = some n := by
  cases l <;> simp_all [dropAttachments]

theorem find?_of_mem {a : TagId × NodeId} (h : (as.map Prod.fst).Nodup) (ha : a ∈ as) :
    as.find? (·.1 = a.1) = some a := by
  induction as with
  | nil => cases ha
  | cons b as ih =>
    rw [List.map_cons, List.nodup_cons] at h
    obtain rfl | ha := List.mem_cons.1 ha
    · simp
    · have hne : b.1 ≠ a.1 := fun hba => h.1 (hba ▸ List.mem_map_of_mem ha)
      simpa [hne] using ih h.2 ha

end Core

namespace Edit

variable {s : Store} {v : ValueId}

theorem settled_of_eq {r : Location → Option NodeId} (h : s.core.Sound r)
    (hr : s.core.held = r) : s.Settled := by
  rw [Store.Settled, hr]
  exact h

theorem ends_clearAttachments {r : Location → Option NodeId} {d : Value} (h : s.core.Sound r)
    (hd : s.values.get? v = some d) : Ends (clearAttachments v) s (fun _ s' =>
      ∃ t, s' = (s.modifyValue v fun d => { d with attachments := [] }).withTracker t ∧
        s'.core.Sound (dropAttachments v r)) fun _ _ => False := by
  have hcore : (s.modifyValue v fun d => { d with attachments := [] }).core =
      s.core.withAttachments v fun _ => [] := Store.core_modifyValue _ _ fun _ => rfl
  have hget : s.core.values.get? v = some d.bare := by simp [Store.get?_core, hd]
  have hfind (tag : TagId) : s.core.held (.attachment v tag) =
      (d.attachments.find? (·.1 = tag)).map Prod.snd := by
    simp only [held, hget, Option.bind_some]
    rfl
  unfold clearAttachments
  rw [ends_bind, ends_lift_ok (Query.attachments_ok.2 ⟨d, hd, rfl⟩), ends_bind,
    ends_modifyValue hd]
  generalize s.modifyValue v (fun d => { d with attachments := [] }) = p at hcore ⊢
  have htracker : p.metadata = s.metadata := congrArg Core.metadata hcore
  -- Until the loop ends the attachments still to be visited are recorded but gone.
  have hloop := ends_forM (E := fun _ _ => False)
    (fun (rest : List (TagId × NodeId)) s' => rest ⊆ d.attachments ∧ ∃ t r',
      s' = p.withTracker t ∧ t.Follows r' ∧
      (∀ n, t.isReplaceable n ↔ p.metadata.tracker.isReplaceable n) ∧
      (∀ l, r' l = r l ∨ r' l = dropAttachments v r l) ∧
      ∀ tag, tag ∉ rest.map Prod.fst → r' (.attachment v tag) = none)
    (f := fun a => untrack (.attachment v a.1) a.2) ?_ d.attachments p ?_
  · refine hloop.weaken ?_
    rintro _ s' ⟨-, t, r', rfl, ht, hi, hr', hnone⟩
    refine ⟨t, rfl, ?_⟩
    obtain rfl : r' = dropAttachments v r := by
      funext l
      obtain hl | hl := hr' l
      · cases l with
        | attachment w tag =>
          by_cases hwv : w = v
          · subst hwv
            simp [hnone tag, dropAttachments]
          · simp [hl, dropAttachments, hwv]
        | _ => exact hl
      · exact hl
    have hs := h.withTracker ht (fun n => by rw [hi, htracker]; exact Iff.rfl)
      (fun hl => h.recorded.held (dropAttachments_eq_some hl)) fun hw => h.recorded.wrapper hw
    have hclear := hs.withAttachments (v := v) (k := fun _ => []) (fun _ _ => ⟨by simp, fun _ => rfl⟩)
      fun l => ?_
    · rwa [show (p.withTracker t).core = p.core.withTracker t from rfl, hcore]
    · rw [held_clearAttachments]
      cases l with
      | attachment w tag => by_cases hwv : w = v <;> simp [dropAttachments, hwv]
      | _ => exact .inl rfl
  · rintro a rest _ ⟨hsub, t, r', rfl, ht, hi, hr', hnone⟩
    have ha := hsub (List.mem_cons_self ..)
    have hheld : s.core.held (.attachment v a.1) = some a.2 := by
      rw [hfind, @find?_of_mem d.attachments a (h.attached hget).tags ha]
      rfl
    have hra : r' (.attachment v a.1) = none ∨ r' (.attachment v a.1) = some a.2 := by
      obtain hl | hl := hr' (.attachment v a.1)
      · cases hra : r (.attachment v a.1) with
        | none => exact .inl (hl.trans hra)
        | some n => exact .inr (hl.trans (hra.trans ((h.recorded.held hra).symm.trans hheld)))
      · exact .inl (by simpa [dropAttachments] using hl)
    refine ⟨fun x hx => hsub (List.mem_cons_of_mem _ hx), _, _, rfl, ht.untrack hra,
      fun n => Tracker.isReplaceable_untrack.trans (hi n), fun l => ?_, fun tag htag => ?_⟩
    · rw [Function.update_apply]
      split
      next hl => exact .inr (by simp [hl, dropAttachments])
      next => exact hr' l
    · rw [Function.update_apply]
      split
      · rfl
      next hne => exact hnone tag (by simpa [show tag ≠ a.1 by simpa using hne] using htag)
  · refine ⟨fun _ hx => hx, p.metadata.tracker, r, rfl, ?_, fun _ => Iff.rfl, fun _ => .inl rfl,
      fun tag htag => ?_⟩
    · rw [htracker]
      exact h.recorded.follows
    · rw [Option.eq_none_iff_forall_ne_some]
      intro n hn
      have hl := (hfind tag).symm.trans (h.recorded.held hn)
      obtain ⟨a, ha, -⟩ := Option.map_eq_some_iff.1 hl
      exact htag (List.mem_map.2 ⟨a, List.mem_of_find?_eq_some ha, by
        simpa using List.find?_some ha⟩)

theorem safe_setMetadata : Safe Fault.IsOrdinary Store.Settled (setMetadata v tag o) := by
  intro s hs
  refine Query.regular_kind.ends_bind (fun _ hx => ⟨hx, hs⟩) fun kind hkind => ?_
  obtain ⟨d, hd, rfl⟩ := Query.kind_ok.1 hkind
  split
  · exact ⟨⟨id, id, id⟩, hs⟩
  next hk =>
    refine Query.regular_attachment.ends_bind (fun _ hx => ⟨hx, hs⟩) fun old hold => ?_
    have hheld : s.core.held (.attachment v tag) = old := by
      rw [Store.held_core]
      simpa [Store.held?, hd] using hold
    split
    · exact hs
    refine (ends_expectNode o s).mono (fun _ _ hp => hp) (fun _ _ hp => ⟨hp.1, hp.2 ▸ hs⟩) |>.bind ?_
    rintro _ s' ⟨rfl, ho⟩
    rw [ends_bind]
    refine (ends_untrackOption hs.recorded.follows (.inr hheld)).weaken ?_
    rintro _ _ ⟨t, rfl, ht, hi⟩
    have hget : s'.core.values.get? v = some d.bare := by simp [Store.get?_core, hd]
    have hkind : d.bare.kind ≠ .metadata := by
      rw [Value.kind_bare]
      rintro hm
      simp [hm] at hk
    have hset : (s'.core.withAttachments v (setAttachment tag o)).held =
        Function.update s'.core.held (.attachment v tag) o :=
      held_setAttachment hget (hs.attached hget)
    have hs₁ := (hs.untracked ht hi).setAttachment (o := o) hget hkind (Function.update_self ..)
      fun n hn => (ho n hn).elim fun _ hdn => Arena.lt_size_of_get? hdn
    have hcore : ((s'.withTracker t).modifyValue v fun d =>
        { d with attachments := setAttachment tag o d.attachments }).core =
        (s'.core.withTracker t).withAttachments v (setAttachment tag o) :=
      Store.core_modifyValue _ _ fun _ => rfl
    rw [← hcore] at hs₁
    rw [ends_bind, ends_modifyValue (s := s'.withTracker t) hd]
    refine (ends_trackOption hs₁.recorded.follows (Function.update_self ..)).weaken ?_
    rintro _ _ ⟨t', rfl, ht', hi'⟩
    have hheld' : ((s'.withTracker t).modifyValue v fun d =>
        { d with attachments := setAttachment tag o d.attachments }).core.held =
        Function.update s'.core.held (.attachment v tag) o := by
      rw [hcore]
      exact hset
    have hs₂ := hs₁.tracked ht' hi' (by rw [hheld', Function.update_self]) (by simp)
    refine settled_of_eq hs₂ ?_
    rw [Function.update_idem]
    exact hheld'

theorem keeps_internTag {text : String} : Keeps Store.Settled (internTag text) := by
  refine .bind .get fun s => ?_
  dsimp only
  split
  · exact .pure _
  · refine .bind (.modify fun s' hs => ?_) fun _ => .pure _
    exact hs.settle (hs.consistent.congr rfl rfl fun _ => Iff.rfl) hs.recorded.follows rfl
      fun _ _ hl => hs.recorded.bound hl

end Edit

end Attachments

namespace Edit

theorem keeps_of_fixes {α : Type} {e : Edit α} (h : Fixes Store.core e) :
    Keeps Store.Settled e :=
  h.keeps fun c => c.Sound c.held

theorem keeps_addNamedMetadata {m : ModuleId} {name : String} {n : NodeId} :
    Keeps Store.Settled (addNamedMetadata m name n) :=
  .bind (.lift _) fun _ => .bind safe_trackHandle.keeps fun _ =>
    keeps_of_fixes (fixes_modifyModule fun _ => rfl)

theorem keeps_eraseNamedMetadata {m : ModuleId} {name : String} :
    Keeps Store.Settled (eraseNamedMetadata m name) := by
  refine .bind (.lift _) fun d => ?_
  split
  · exact .pure _
  · exact .bind (keeps_of_fixes (fixes_modifyModule fun _ => rfl)) fun _ => .forM (fun _ =>
      keeps_releaseHandle) _

end Edit

end ShaderIR
