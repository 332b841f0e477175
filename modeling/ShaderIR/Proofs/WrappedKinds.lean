import ShaderIR.Proofs.LocationSafety

/-! Which kinds of values nodes wrap. While values are replaced none are made, so the kinds of all
of them are settled beforehand; the tables of the store and the tracker name values of fitting kinds
throughout, and a node follows a value only to one of a kind that may be wrapped. -/

namespace ShaderIR

def ValueKind.isWrappable : ValueKind → Bool
  | .constant | .function | .global => true
  | .argument | .block | .instruction | .metadata => false

namespace Tracker

variable {P : Location → Prop} {t : Tracker} {l : Location} {n : NodeId}

def Confined (P : Location → Prop) (t : Tracker) : Prop :=
  ∀ (n : NodeId) (s : Stamps) (l : Location), t.nodes[n]? = some s → (s.stampOf[l]?).isSome → P l

theorem Confined.tracked (h : t.Confined P) (hl : l ∈ t.tracked n) : P l := by
  rw [Tracker.tracked, stamps, Stamps.mem_locations] at hl
  cases hn : t.nodes[n]? with
  | none => simp [hn] at hl
  | some s => exact h n s l hn (by simpa [hn] using hl)

theorem Confined.put (h : t.Confined P) {s : Stamps} (hs : ∀ l, (s.stampOf[l]?).isSome → P l) :
    (t.put n s).Confined P := by
  intro m s' l hm hl
  rw [getElem?_put] at hm
  split at hm
  · obtain rfl := Option.some.inj hm
    exact hs l hl
  · exact h m s' l hm hl

theorem Confined.track (h : t.Confined P) (hl : P l) {b : Bool} {t' : Tracker}
    (ht : t.track l n = .ok (b, t')) : t'.Confined P := by
  unfold Tracker.track at ht
  split at ht
  · cases ht
    exact h
  next s hs =>
    split at ht
    · cases ht
    · cases ht
      apply h.put
      intro l' hl'
      simp only [Stamps.add, getElem?_insert_eq_ite] at hl'
      split at hl'
      next heq => exact heq ▸ hl
      next => exact h n s l' hs hl'

theorem Confined.untrack (h : t.Confined P) (l : Location) (n : NodeId) :
    (t.untrack l n).2.Confined P := by
  unfold Tracker.untrack
  split
  · exact h
  next s hs =>
    split
    · apply h.put
      intro l' hl'
      simp only [Stamps.erase, getElem?_erase_eq_ite] at hl'
      split at hl'
      · cases hl'
      · exact h n s l' hs hl'
    · exact h

theorem Confined.take (h : t.Confined P) (n : NodeId) : (t.take n).2.Confined P := by
  unfold Tracker.take
  split
  · exact h
  · exact h.put fun l hl => by simp at hl

theorem Confined.resolve (h : t.Confined P) (n : NodeId) : (t.resolve n).2.Confined P := by
  intro m s l hm
  rw [Tracker.resolve, getElem?_erase_eq_ite] at hm
  split at hm
  · cases hm
  · exact h m s l hm

end Tracker

namespace Edit

open Store

/-- Which values nodes may come to wrap, and which values are block addresses. -/
structure Roles where
  wrapped : ValueId → Prop
  address : ValueId → Prop
  wrapped_of_address : ∀ {v}, address v → wrapped v

variable {R : Roles} {s s' : Store} {c v w old new : ValueId} {n m : NodeId}
variable {l : Location} {k : Nat}

def Fits (R : Roles) : Location → Prop
  | .wrapper v => ¬ R.wrapped v
  | _ => True

/-- Values, tables and tracker agree with the roles of values. -/
structure Respects (R : Roles) (s : Store) : Prop where
  kind : ∀ v d, s.values.get? v = some d → R.wrapped v → d.kind.isWrappable = true
  address : ∀ v d, s.values.get? v = some d → (d.payload = .constant .blockAddress ↔ R.address v)
  nodes : ∀ (v : ValueId) (n : NodeId), s.metadata.nodeOf[v]? = some n → R.wrapped v
  entered : ∀ f b c, s.constants[ConstantKey.blockAddress f b]? = some c → R.address c
  tracker : s.metadata.tracker.Confined (Fits R)

theorem Respects.mono (h : Respects R s)
    (hv : ∀ v d', s'.values.get? v = some d' → ∃ d, s.values.get? v = some d ∧
      d'.kind = d.kind ∧ (d'.payload = .constant .blockAddress ↔ d.payload = .constant .blockAddress))
    (hm : s'.metadata = s.metadata) (hc : s'.constants = s.constants) : Respects R s' := by
  refine ⟨fun v d' hd' hw => ?_, fun v d' hd' => ?_, hm ▸ h.nodes, hc ▸ h.entered, hm ▸ h.tracker⟩
  · obtain ⟨d, hd, hk, -⟩ := hv v d' hd'
    rw [hk]
    exact h.kind v d hd hw
  · obtain ⟨d, hd, -, hp⟩ := hv v d' hd'
    exact hp.trans (h.address v d hd)

theorem Respects.of_core (h : Respects R s) (hc : s'.core = s.core) : Respects R s' := by
  refine h.mono (fun v d' hd' => ?_) (congrArg Core.metadata hc) (congrArg Core.constants hc)
  have hbare : s.core.values.get? v = some d'.bare := by rw [← hc, get?_core, hd', Option.map_some]
  rw [get?_core] at hbare
  obtain ⟨d, hd, heq⟩ := Option.map_eq_some_iff.1 hbare
  refine ⟨d, hd, ?_, ?_⟩
  · rw [← Value.kind_bare, ← heq, Value.kind_bare]
  · rw [← Value.bare_payload_constant, ← heq, Value.bare_payload_constant]

theorem Fixes.respects {α : Type} {e : Edit α} (h : Fixes Store.core e) : Keeps (Respects R) e :=
  fun s hs => (h.ends s).mono (fun _ _ hc => hs.of_core hc) fun _ _ hc => hs.of_core hc

theorem Respects.modifyValue (h : Respects R s) (v : ValueId) {f : Value → Value}
    (hf : ∀ d, (f d).kind = d.kind ∧
      ((f d).payload = .constant .blockAddress ↔ d.payload = .constant .blockAddress)) :
    Respects R (s.modifyValue v f) := by
  refine h.mono (fun w d' hd' => ?_) rfl rfl
  rw [Store.modifyValue, Arena.get?_modify] at hd'
  split at hd'
  · obtain ⟨d, hd, rfl⟩ := Option.map_eq_some_iff.1 hd'
    exact ⟨d, hd, hf d⟩
  · exact ⟨d', hd', rfl, Iff.rfl⟩

section Steps

theorem keeps_modifyUses_respects {f : UseGraph → UseGraph} :
    Keeps (Respects R) (modify (·.modifyUses f) : Edit Unit) :=
  .modify fun _ h => ⟨h.kind, h.address, h.nodes, h.entered, h.tracker⟩

theorem keeps_modifyValue_respects {f : Value → Value} (hf : ∀ d, (f d).kind = d.kind ∧
    ((f d).payload = .constant .blockAddress ↔ d.payload = .constant .blockAddress)) :
    Keeps (Respects R) (modifyValue v f) :=
  .bind (.lift _) fun _ => .modify fun _ h => h.modifyValue v hf

theorem keeps_modifyMetadata_respects {f : Metadata → Metadata}
    (hn : ∀ md, (f md).nodeOf = md.nodeOf) (ht : ∀ md, (f md).tracker = md.tracker) :
    Keeps (Respects R) (modify (·.modifyMetadata f) : Edit Unit) :=
  .modify fun s h => ⟨h.kind, h.address, (hn s.metadata).symm ▸ h.nodes, h.entered,
    (ht s.metadata).symm ▸ h.tracker⟩

theorem keeps_modifyNode_respects {f : Node → Node} : Keeps (Respects R) (modifyNode n f) :=
  .bind (.lift _) fun _ => keeps_modifyMetadata_respects (fun _ => rfl) fun _ => rfl

theorem keeps_track_respects (hl : Fits R l) : Keeps (Respects R) (track l n) := by
  intro s h
  unfold track
  rw [ends_bind, ends_get]
  split
  next b t ht => exact ⟨h.kind, h.address, h.nodes, h.entered, h.tracker.track hl ht⟩
  next => exact h

theorem keeps_untrack_respects : Keeps (Respects R) (untrack l n) :=
  fun _ h => ⟨h.kind, h.address, h.nodes, h.entered, h.tracker.untrack l n⟩

theorem keeps_dropValueNode_respects : Keeps (Respects R) (dropValueNode v) := by
  intro s h
  unfold dropValueNode
  rw [ends_bind, ends_get]
  split
  · exact h
  · refine ⟨h.kind, h.address, fun w n hn => ?_, h.entered, h.tracker.resolve _⟩
    have herase : (s.metadata.nodeOf.erase v)[w]? = some n := hn
    rw [getElem?_erase_eq_ite] at herase
    split at herase
    · cases herase
    · exact h.nodes w n herase

theorem keeps_forgetConstant_respects {key : ConstantKey} :
    Keeps (Respects R) (forgetConstant key c) := by
  refine .modify fun s h => ?_
  split
  · refine ⟨h.kind, h.address, h.nodes, fun f b c' hc => ?_, h.tracker⟩
    rw [getElem?_erase_eq_ite] at hc
    split at hc
    · cases hc
    · exact h.entered f b c' hc
  · exact h

theorem keeps_enterConstant_respects {key : ConstantKey} (hc : R.address c) :
    Keeps (Respects R) (modify fun s => { s with constants := s.constants.insert key c } :
      Edit Unit) := by
  refine .modify fun s h => ⟨h.kind, h.address, h.nodes, fun f b c' hc' => ?_, h.tracker⟩
  rw [getElem?_insert_eq_ite] at hc'
  split at hc'
  · exact Option.some.inj hc' ▸ hc
  · exact h.entered f b c' hc'

theorem keeps_destroyValue_respects : Keeps (Respects R) (destroyValue v) := by
  have htail : Keeps (Respects R) (do
      unregisterName v
      modify (·.modifyUses (·.clearSlots v))
      clearAttachments v
      dropWrapper v
      modify fun s => { s with
        values := s.values.erase v
        scopes := s.scopes.erase (.function v) } : Edit Unit) := by
    refine .bind (Fixes.respects fixes_unregisterName) fun _ => .bind keeps_modifyUses_respects
      fun _ => .bind ?_ fun _ => .bind ?_ fun _ => .modify fun s h => ?_
    · exact .bind (.lift _) fun _ => .bind (keeps_modifyValue_respects fun _ => ⟨rfl, Iff.rfl⟩) fun _ =>
        .forM (fun _ => keeps_untrack_respects) _
    · refine .bind (.lift _) fun n => ?_
      split
      · exact .pure _
      · refine .bind keeps_untrack_respects fun _ => keeps_modifyMetadata_respects (fun md => ?_)
          fun md => ?_ <;> split <;> rfl
    · refine h.mono (fun w d hd => ⟨d, ?_, rfl, Iff.rfl⟩) rfl rfl
      rw [Arena.get?_erase] at hd
      split at hd
      · cases hd
      · exact hd
  refine .bind (.lift _) fun _ => .bind (.lift _) fun _ => .guard (.raise _) (.bind ?_ fun _ => ?_)
  · exact keeps_dropUntrackedNode keeps_dropValueNode_respects
  · refine .bind (.lift _) fun key => ?_
    split
    · exact .bind keeps_forgetConstant_respects fun _ => htail
    · exact htail

end Steps

section Replacing

def Roles.MayFollow (R : Roles) (old new : ValueId) : Prop := R.wrapped old → R.wrapped new

theorem keeps_retargetOperand_respects {i : Nat} : Keeps (Respects R) (retargetOperand n i m) := by
  refine .bind (.lift _) fun before => .bind keeps_modifyNode_respects fun _ =>
    .bind (keeps_track_respects trivial) fun _ => .ite (.bind ?_ fun _ => ?_) (.pure _)
  · refine keeps_modifyMetadata_respects (fun md => ?_) fun md => ?_ <;> split <;> rfl
  · refine .bind (.lift _) fun after => .bind .get fun s => ?_
    split
    · exact keeps_modifyMetadata_respects (fun _ => rfl) fun _ => rfl
    · exact keeps_modifyNode_respects

theorem Respects.constantKey (h : Respects R s) (hc : R.address c) {key : ConstantKey}
    (hkey : Query.constantKey c s = .ok (some key)) : ∃ f b, key = .blockAddress f b := by
  obtain ⟨d, hd, hkey⟩ := Query.bind_ok.1 hkey
  have hp : d.payload = .constant .blockAddress := (h.address c d (Query.value_ok.1 hd)).2 hc
  rw [hp] at hkey
  obtain ⟨f, -, hkey⟩ := Query.bind_ok.1 hkey
  split at hkey
  next f =>
    obtain ⟨b, -, hkey⟩ := Query.bind_ok.1 hkey
    split at hkey
    next b => exact ⟨f, b, (Option.some.inj (Query.pure_ok.1 hkey)).symm⟩
    next => cases Query.pure_ok.1 hkey
  next => cases Query.pure_ok.1 hkey

theorem ends_noteBlockAddress_respects {e : EdgeId} {noted : List (ValueId × ConstantKey)}
    (h : Respects R s) (hnoted : ∀ c ∈ noted, R.address c.1) :
    Ends (noteBlockAddress e noted) s (fun noted' s' => Respects R s' ∧
      ∀ c ∈ noted', R.address c.1) fun _ => Respects R := by
  unfold noteBlockAddress
  rw [ends_bind, ends_get]
  dsimp only
  rw [ends_bind, ends_get]
  split
  next haddress =>
    refine ends_bind.2 (ends_lift.2 ⟨fun key _ => ?_, fun _ _ => h⟩)
    split
    next key =>
      refine ⟨h, fun c hc => ?_⟩
      rcases List.mem_append.1 hc with hc | hc
      · exact hnoted c hc
      · rw [List.mem_singleton.1 hc]
        rw [Bool.and_eq_true] at haddress
        obtain ⟨d, hd, hp⟩ := isBlockAddress_iff.1 haddress.1
        exact (h.address _ d hd).1 hp
    next => exact ⟨h, hnoted⟩
  next => exact ⟨h, hnoted⟩

section Nested

variable {nested : ValueId → ValueId → Edit Unit}
variable (hn : ∀ v w, R.MayFollow v w → Keeps (Respects R) (nested v w))

include hn

/-- A value that wraps a node is wrapped by none, so two of them may be merged. -/
theorem keeps_retargetWrapper_respects (hw : ¬ R.wrapped w) :
    Keeps (Respects R) (retargetWrapper nested w n m) := by
  refine .bind (keeps_modifyMetadata_respects (fun md => ?_) fun md => ?_) fun _ =>
    .bind .get fun s => ?_
  · split <;> rfl
  · split <;> rfl
  split
  next e _ =>
    -- No node wraps the wrapper that is replaced, so it does not matter which one is kept.
    have hmerge : R.MayFollow w e := fun h => absurd h hw
    exact .bind (hn w e hmerge) fun _ => keeps_destroyValue_respects
  next =>
    refine .bind (keeps_modifyValue_respects fun d => ?_) fun _ =>
      .bind (keeps_modifyMetadata_respects (fun _ => rfl) fun _ => rfl) fun _ => keeps_track_respects hw
    obtain ⟨_, p, _, _, _⟩ := d
    cases p <;> simp [Value.kind, Payload.kind]

theorem keeps_retarget_respects (hl : Fits R l) : Keeps (Respects R) (retarget nested n m l) := by
  cases l with
  | operand => exact keeps_retargetOperand_respects
  | wrapper w => exact keeps_retargetWrapper_respects hn hl
  | handle =>
    exact .bind (keeps_modifyMetadata_respects (fun _ => rfl) fun _ => rfl) fun _ =>
      keeps_track_respects trivial
  | attachment =>
    exact .bind (keeps_modifyValue_respects fun _ => ⟨rfl, Iff.rfl⟩) fun _ =>
      keeps_track_respects trivial

theorem keeps_replaceNodeStep_respects : Keeps (Respects R) (replaceNodeStep nested n m) := by
  intro s h
  refine ends_replaceNodeStep_of (fun _ => h) (fun _ _ _ => ?_) fun _ _ _ => h
  have hstart : Respects R (s.withTracker (s.metadata.tracker.take n).2) :=
    ⟨h.kind, h.address, h.nodes, h.entered, h.tracker.take n⟩
  have hfits : ∀ l ∈ s.metadata.tracker.tracked n, Fits R l := fun l hl => h.tracker.tracked hl
  -- Roles do not change, so the locations that are left fit after each of them is retargeted.
  refine Ends.mono (ends_forM (fun rest s' => Respects R s' ∧ ∀ l ∈ rest, Fits R l)
    (E := fun _ s' => Respects R s') ?_ _ _ ⟨hstart, hfits⟩) (fun _ _ h => h.1) fun _ _ h => h
  rintro l rest s' ⟨hs', hrest⟩
  exact (keeps_retarget_respects hn (hrest l List.mem_cons_self) s' hs').mono
    (fun _ _ h => ⟨h, fun l' hl' => hrest l' (List.mem_cons_of_mem l hl')⟩) fun _ _ h => h

theorem keeps_moveValueNode_respects (hf : R.MayFollow old new) :
    Keeps (Respects R) (moveValueNode nested old new) := by
  intro s h
  unfold moveValueNode
  rw [ends_bind, ends_get]
  dsimp only
  split
  · exact h
  · exact Keeps.bind (keeps_replaceNodeStep_respects hn) (fun _ => keeps_dropValueNode_respects) s h
  next n hold hnew =>
    have hnew : R.wrapped new := hf (h.nodes old n hold)
    refine Keeps.bind (.modify fun s h => ⟨h.kind, h.address, fun v x hv => ?_, h.entered,
      h.tracker⟩) (fun _ => keeps_modifyNode_respects) s h
    change ((s.metadata.nodeOf.erase old).insert new n)[v]? = some x at hv
    rw [getElem?_insert_eq_ite, getElem?_erase_eq_ite] at hv
    split at hv
    next heq => exact heq ▸ hnew
    next =>
      split at hv
      · cases hv
      · exact h.nodes v x hv

theorem keeps_internBlockAddress_respects {before : ConstantKey} (hc : R.address c) :
    Keeps (Respects R) (internBlockAddress nested c before) := by
  refine .bind keeps_forgetConstant_respects fun _ s h => ?_
  refine ends_bind.2 (ends_lift.2 ⟨fun key hkey => ?_, fun _ _ => h⟩)
  split
  next after =>
    obtain ⟨f, b, rfl⟩ := h.constantKey hc hkey
    rw [ends_bind, ends_get]
    split
    · exact keeps_enterConstant_respects hc s h
    next existing he =>
      have hmerge : R.MayFollow c existing := fun _ => R.wrapped_of_address (h.entered f b _ he)
      exact Keeps.ite (.bind (hn c existing hmerge) fun _ => keeps_destroyValue_respects)
        (keeps_enterConstant_respects hc) s h
  next => exact h

theorem keeps_moveEdges_respects {es : List EdgeId} :
    Keeps (Respects R) (moveEdges nested new es) := by
  intro s h
  have hmove {e : EdgeId} : Keeps (Respects R) (moveEdge new e) :=
    .bind keeps_modifyUses_respects fun _ => .bind (.lift _) fun _ => keeps_modifyUses_respects
  let I (noted : List (ValueId × ConstantKey)) (s' : Store) : Prop :=
    Respects R s' ∧ ∀ c ∈ noted, R.address c.1
  apply Ends.bind (Q := I)
  · refine ends_foldlM (fun _ => I) ?_ es [] s ⟨h, by simp⟩
    rintro e _ noted s' ⟨hs', hnoted⟩
    apply (ends_noteBlockAddress_respects hs' hnoted).bind
    rintro noted' p ⟨hp, hnoted'⟩
    exact Ends.bind (hmove p hp) fun _ _ hq => ⟨hq, hnoted'⟩
  · rintro noted p ⟨hp, hnoted⟩
    refine Ends.mono (ends_forM I (E := fun _ s' => Respects R s') ?_ _ _ ⟨hp, hnoted⟩)
      (fun _ _ h => h.1) fun _ _ h => h
    rintro c rest s' ⟨hs', hrest⟩
    exact (keeps_internBlockAddress_respects hn (hrest c List.mem_cons_self) s' hs').mono
      (fun _ _ h => ⟨h, fun c' hc' => hrest c' (List.mem_cons_of_mem c hc')⟩) fun _ _ h => h

theorem keeps_replaceStep_respects (hf : R.MayFollow old new) :
    Keeps (Respects R) (replaceStep nested old new) :=
  .ite (.pure _) (.bind (.lift _) fun _ => .bind (.lift _) fun _ =>
    .bind (keeps_moveEdges_respects hn) fun _ => keeps_moveValueNode_respects hn hf)

end Nested

theorem keeps_replaceWithin_respects (k : Nat) (hf : R.MayFollow old new) :
    Keeps (Respects R) (replaceWithin k old new) := by
  induction k generalizing old new with
  | zero => exact .throw _
  | succ k ih => exact keeps_replaceStep_respects (fun _ _ => ih) hf

theorem keeps_replaceAllUses_respects (hf : R.MayFollow old new) :
    Keeps (Respects R) (replaceAllUses old new) :=
  .bind .get fun _ => keeps_replaceWithin_respects _ hf

theorem keeps_replaceUsesIf_respects {σ : Type} {ask : σ → Use → Bool × σ} {st : σ} :
    Keeps (Respects R) (replaceUsesIf old new ask st) :=
  .ite (.pure _) (.bind (.lift _) fun _ => .bind (.lift _) fun _ => .bind .get fun _ =>
    .bind .get fun _ => .bind (keeps_moveEdges_respects fun _ _ => keeps_replaceWithin_respects _)
      fun _ => .pure _)

theorem keeps_replaceNode_respects : Keeps (Respects R) (replaceNode n m) :=
  .bind .get fun _ => keeps_replaceNodeStep_respects fun _ _ => keeps_replaceWithin_respects _

theorem keeps_settle_respects {storage : Storage} : Keeps (Respects R) (settle n storage) :=
  .bind keeps_modifyNode_respects fun _ _ h =>
    ⟨h.kind, h.address, h.nodes, h.entered, h.tracker.resolve n⟩

theorem keeps_eraseTemporary_respects : Keeps (Respects R) (eraseTemporary n) := by
  refine .bind (.lift _) fun _ => .bind .get fun s => .guard (.raise _) ?_
  refine .bind (.bind (.lift _) fun ops => .forM (fun op => ?_) _) fun _ => .modify fun s h =>
    ⟨h.kind, h.address, h.nodes, h.entered, h.tracker.resolve n⟩
  cases op.1 with
  | none => exact .pure _
  | some m => exact keeps_untrack_respects

theorem keeps_replaceWithUniqued_respects : Keeps (Respects R) (replaceWithUniqued n) := by
  refine .bind (.lift _) fun _ => .bind (.lift _) fun d => .bind .get fun s => ?_
  split
  · exact .bind keeps_replaceNode_respects fun _ => .bind keeps_eraseTemporary_respects fun _ =>
      .pure _
  · exact .bind keeps_settle_respects fun _ =>
      .bind (keeps_modifyMetadata_respects (fun _ => rfl) fun _ => rfl) fun _ => .pure _

end Replacing

end Edit

end ShaderIR
