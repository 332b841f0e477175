import ShaderIR.Proofs.LiveLocations

/-! Replacing a node while no node wraps a value that wraps a node itself. Then merging two wrappers
moves uses and merges no further nodes, so the locations of the old node end at the new one and the
old node may go. -/

open ShaderIR.Core

namespace ShaderIR

namespace Store

variable {s s' s'' : Store} {r : Location → Option NodeId} {l : Location} {n old new : NodeId}

def wraps (s : Store) : (NodeId → Bool) × Std.ExtTreeMap ValueId NodeId :=
  (s.isNodeLive, s.metadata.nodeOf)

def WrapsPlain (s : Store) : Prop :=
  ∀ (v : ValueId) (n : NodeId) (d : Value), s.metadata.nodeOf[v]? = some n →
    s.values.get? v = some d → d.kind ≠ .metadata

/-- Every location holds a live node, and the nodes that wrap values wrap no wrappers. -/
structure Moored (s : Store) : Prop where
  anchored : s.Anchored
  plain : s.WrapsPlain

instance : Lasting Store.wraps where
  tracker _ _ := rfl
  handles _ _ := rfl
  tags _ _ := rfl
  attachments _ _ _ := rfl
  named _ _ _ := rfl
  table _ _ _ := rfl
  uses _ _ := rfl
  constants _ _ := rfl
  wrappers _ _ := rfl
  wrapped _ _ _ := rfl

theorem isNode_of_wraps (h : s'.wraps = s.wraps) : s'.IsNode n ↔ s.IsNode n := by
  have hlive : s'.isNodeLive = s.isNodeLive := congrArg Prod.fst h
  rw [isNode_iff, hlive, isNode_iff]

theorem WrapsPlain.mono (h : s.WrapsPlain)
    (hn : ∀ (v : ValueId) (n : NodeId), s'.metadata.nodeOf[v]? = some n →
      s.metadata.nodeOf[v]? = some n)
    (hv : ∀ v d', s'.values.get? v = some d' → ∃ d, s.values.get? v = some d ∧ d'.kind = d.kind) :
    s'.WrapsPlain := by
  intro v n d' hn' hd'
  obtain ⟨d, hd, hk⟩ := hv v d' hd'
  rw [hk]
  exact h v n d (hn v n hn') hd

structure Redirected (s s' : Store) (l : Location) (new : NodeId) : Prop where
  wraps : s'.wraps = s.wraps
  kinds : ∀ v d', s'.values.get? v = some d' → ∃ d, s.values.get? v = some d ∧ d'.kind = d.kind
  held : ∀ l' n, s'.core.held l' = some n → (l' ≠ l ∧ s.core.held l' = some n) ∨ n = new

theorem Retargeted.redirected (h : s.Retargeted s' r l new) (hw : s'.wraps = s.wraps) :
    s.Redirected s' l new := by
  refine ⟨hw, fun v d' hd' => ?_, fun l' n hl' => ?_⟩
  · obtain ⟨d, hd, hk, -⟩ := h.merged.spares.sort hd'
    exact ⟨d, hd, hk⟩
  · rw [h.held, Function.update_apply] at hl'
    split at hl'
    · exact .inr (Option.some.inj hl').symm
    next hne => exact .inl ⟨hne, hl'⟩

/-- In the course of a replacement: only the locations still to come hold the old node. -/
structure Evicting (old : NodeId) (rest : List Location) (s : Store) : Prop where
  plain : s.WrapsPlain
  left : ∀ l, s.core.held l = some old → l ∈ rest

theorem Evicting.step {rest : List Location} (h : Evicting old (l :: rest) s)
    (hr : s.Redirected s' l new) (hne : old ≠ new) : Evicting old rest s' := by
  have hnodeOf : s'.metadata.nodeOf = s.metadata.nodeOf := congrArg Prod.snd hr.wraps
  refine ⟨h.plain.mono (fun v n hn => hnodeOf ▸ hn) hr.kinds, fun l' hl' => ?_⟩
  obtain ⟨hl, hl'⟩ | heq := hr.held l' old hl'
  · exact (List.mem_cons.1 (h.left l' hl')).resolve_left hl
  · exact absurd heq hne

structure Rehousing (s : Store) (old : NodeId) (rest : List Location) (s' : Store) : Prop
    extends Evicting old rest s' where
  anchored : s'.Anchored
  wraps : s'.wraps = s.wraps

theorem Rehousing.step {rest : List Location} (h : Rehousing s old (l :: rest) s')
    (hr : s'.Redirected s'' l new) (hne : old ≠ new) (hnew : s.IsNode new) :
    Rehousing s old rest s'' := by
  have hnew' : s'.IsNode new := (isNode_of_wraps h.wraps).2 hnew
  have hanchored : s''.Anchored := by
    refine h.anchored.of_held (fun n => (isNode_of_wraps hr.wraps).2) fun l' n hl' => ?_
    obtain ⟨-, hl'⟩ | rfl := hr.held l' n hl'
    · exact .inl ⟨l', hl'⟩
    · exact .inr ((isNode_of_wraps hr.wraps).2 hnew')
  exact ⟨h.toEvicting.step hr hne, hanchored, hr.wraps.trans h.wraps⟩

end Store

open Store

namespace Edit

variable {nested : ValueId → ValueId → Edit Unit} {k i : Nat}
variable {s : Store} {r : Location → Option NodeId} {w v old new : ValueId} {n m : NodeId}

def MovesUses (nested : ValueId → ValueId → Edit Unit) : Prop :=
  ∀ {s : Store} {r : Location → Option NodeId} {w e : ValueId} {d : Value}, s.core.Sound r →
    s.values.get? w = some d → d.kind = .metadata → ¬ s.IsEntered w → s.IsEntered e →
    s.metadata.nodeOf[w]? = none →
    Ends (nested w e) s (fun _ s' => ∃ g, s' = { s with uses := g }) fun _ _ => True

theorem movesUses_replaceWithin (k : Nat) : MovesUses (replaceWithin k) := by
  intro s r w e d hs hd hk hw he hnode
  cases k with
  | zero => trivial
  | succ k =>
    have hne : w ≠ e := fun hwe => hw (hwe ▸ he)
    have haddr (dw : Value) (hdw : s.values.get? w = some dw) :
        ¬ s.types.IsAddressable dw.ty := by
      obtain rfl := Option.some.inj (hd.symm.trans hdw)
      have hwell : d.bare.WellTyped s.types := hs.typed.values (by rw [get?_core, hd]; rfl)
      exact hwell.not_isAddressable (.inl (by rwa [Value.kind_bare]))
    refine ends_replaceStep_unaddressed hs hne haddr (fun p hp _ => ?_) fun _ _ _ => trivial
    obtain ⟨g, rfl⟩ := hp.uses
    unfold moveValueNode
    rw [ends_bind, ends_get]
    dsimp only
    rw [hnode]
    exact ⟨g, rfl⟩

section Redirecting

theorem fixes_modifyNode_wraps {f : Node → Node} : Fixes Store.wraps (modifyNode n f) := by
  refine .bind (.lift _) fun _ => .modify fun s => ?_
  have hlive : (s.modifyMetadata fun md =>
      { md with nodes := md.nodes.modify n f }).isNodeLive = s.isNodeLive := by
    funext m
    exact Bool.eq_iff_iff.2 (isNode_iff.symm.trans (isNode_modify.trans isNode_iff))
  exact congrArg (·, s.metadata.nodeOf) hlive

theorem fixes_retargetOperand_wraps : Fixes Store.wraps (retargetOperand n i m) := by
  refine .bind (.lift _) fun before => .bind fixes_modifyNode_wraps fun _ =>
    .bind fixes_track fun _ => .ite (.bind (.modify fun s => ?_) fun _ => ?_) (.pure _)
  · simp only [modifyMetadata]
    split <;> rfl
  · refine .bind (.lift _) fun after => .bind .get fun s => ?_
    split
    · exact .modify fun _ => rfl
    · exact fixes_modifyNode_wraps

theorem fixes_repoint_wraps : Fixes Store.wraps (do
    modifyValue w (rewrap m)
    modify (·.modifyMetadata fun md => { md with wrapperOf := md.wrapperOf.insert m w })
    track (.wrapper w) m) :=
  .bind fixes_rewrap fun _ => .bind (.modify fun _ => rfl) fun _ => fixes_track

end Redirecting

theorem ends_retargetWrapper_redirected (hn : MergesWrappers k nested) (hm : MovesUses nested)
    (hs : s.core.Sound r) (hl : r (.wrapper w) = none) (hheld : s.core.held (.wrapper w) = some n)
    (hold : s.metadata.wrapperOf[n]? = some w) (hsize : s.metadata.wrapperOf.size ≤ k)
    (hlt : m.index < s.metadata.nodes.size) (hplain : s.WrapsPlain) :
    Ends (retargetWrapper nested w n m) s (fun _ s' => s.Redirected s' (.wrapper w) m)
      fun _ _ => False := by
  obtain ⟨d, hd, hk⟩ := held_wrapper hheld
  obtain ⟨hp, hnot, hpsize, -⟩ := unenter_spec hs hl hheld hold
  have hnode : s.metadata.nodeOf[w]? = none := by
    rw [Option.eq_none_iff_forall_ne_some]
    exact fun x hx => hplain w x d hx hd hk
  refine (ends_retargetWrapper_iff hold).2 ⟨fun e he => ?_, fun hnone => ?_⟩
  · rw [ends_bind]
    refine Ends.mono ((hn hp hd hk hnot ⟨m, he⟩ (by omega)).and (hm hp hd hk hnot ⟨m, he⟩ hnode))
      ?_ fun _ _ h => h.1
    rintro _ q ⟨⟨⟨r', hq⟩, hu, hnodeq⟩, g, hg⟩
    have hdq : q.values.get? w = some d := by
      rw [hg]
      exact hd
    have hheldq : q.core.held = s.core.held := by
      rw [hg]
      rfl
    refine Ends.weaken (ends_destroyUnused hq.sound hdq (by rw [hk]; rfl) hu hnodeq
      (constantKey_of_wrapper hdq hk) (by simp)) ?_
    rintro _ s' ⟨t, ws, rfl, -, -, hheld'⟩
    have hget (v : ValueId) : (q.without w t ws).values.get? v =
        if w = v then none else q.values.get? v := Arena.get?_erase ..
    refine ⟨?_, fun v d' hd' => ?_, fun l' x hl' => .inl ?_⟩
    · rw [hg]
      rfl
    · rw [hget, hg] at hd'
      split at hd'
      · cases hd'
      · exact ⟨d', hd', rfl⟩
    · rw [hheld', hheldq, forget, Function.update_apply] at hl'
      split at hl'
      · cases hl'
      next hne => exact ⟨hne, dropAttachments_eq_some hl'⟩
  · have hwraps := (fixes_repoint_wraps (w := w) (m := m)).ends (s.unenter n)
    exact ((ends_repoint hs hl hheld hold hnone hlt hd hk).and hwraps).mono
      (fun _ _ h => h.1.redirected h.2) fun _ _ h => h.1

theorem ends_retarget_redirected (hn : MergesWrappers k nested) (hm : MovesUses nested)
    {s₀ : Store} {r₀ : Location → Option NodeId} {l : Location} {rest : List Location}
    (h : Store.Visiting s₀ r₀ n (l :: rest) s r) (hsize : s₀.metadata.wrapperOf.size ≤ k)
    (hlt : m.index < s₀.metadata.nodes.size) (hplain : s.WrapsPlain) :
    Ends (retarget nested n m l) s (fun _ s' => s.Redirected s' l m) fun _ _ => False := by
  have hs := h.sound
  obtain ⟨-, hl, hheld⟩ := h.unvisited l (List.mem_cons_self ..)
  have hlt' : m.index < s.metadata.nodes.size := h.merged.nodes ▸ hlt
  cases l with
  | operand t i =>
    exact ((ends_retargetOperand hs hl hheld hlt').and (fixes_retargetOperand_wraps.ends s)).mono
      (fun _ _ h => h.1.1.redirected h.2) fun _ _ h => h.1
  | handle j =>
    exact ((ends_retargetHandle hs hl hheld hlt').and (fixes_retargetHandle.ends s)).mono
      (fun _ _ h => h.1.1.redirected h.2) fun _ _ h => h.1
  | attachment v tag =>
    exact ((ends_retargetAttachment hs hl hheld hlt').and
      (fixes_retargetAttachment.ends s)).mono (fun _ _ h => h.1.1.redirected h.2) fun _ _ h => h.1
  | wrapper w =>
    exact ends_retargetWrapper_redirected hn hm hs hl hheld (h.wrapper (List.mem_cons_self ..))
      (Nat.le_trans h.merged.wrappers hsize) hlt' hplain

theorem ends_replaceNodeStep_moored (hn : MergesWrappers k nested) (hm : MovesUses nested)
    (hs : s.Settled) (hsize : s.metadata.wrapperOf.size ≤ k) (h : s.Moored) :
    Ends (replaceNodeStep nested n m) s (fun _ s' => s'.Moored ∧ s'.wraps = s.wraps ∧
      (n ≠ m → ∀ l, s'.core.held l ≠ some n)) fun _ s' => s' = s := by
  refine ends_replaceNodeStep_of (fun heq => ⟨h, rfl, fun hne => absurd heq hne⟩)
    (fun hne hold hnew => ?_) fun _ _ _ => rfl
  have hlt : m.index < s.metadata.nodes.size := hnew.elim fun _ hd => Arena.lt_size_of_get? hd
  have hmem (l : Location) : l ∈ s.metadata.tracker.tracked n ↔ s.core.held l = some n :=
    Tracker.mem_tracked hs.recorded.follows hold
  -- What the tracker does not list does not hold the old node, since the store is settled.
  have hstart : Rehousing s n (s.metadata.tracker.tracked n)
      (s.withTracker (s.metadata.tracker.take n).2) :=
    ⟨⟨h.plain, fun l hl => (hmem l).2 hl⟩, h.anchored, rfl⟩
  have hloop := ends_forM (fun rest s' => (∃ r', Visiting s s.core.held n rest s' r') ∧
    Rehousing s n rest s') (E := fun _ _ => False) (f := retarget nested n m) ?_ _ _
    ⟨⟨_, visiting_take hs hold⟩, hstart⟩
  · refine hloop.weaken fun _ s' h => ⟨⟨h.2.anchored, h.2.plain⟩, h.2.wraps, fun _ l hl => ?_⟩
    cases h.2.left l hl
  · rintro l rest s' ⟨⟨r', hv⟩, hr⟩
    have hvisit := ends_retarget hn hv hsize hlt
    have hredirect := ends_retarget_redirected hn hm hv hsize hlt hr.plain
    exact (hvisit.and hredirect).mono (fun _ _ h => ⟨h.1, hr.step h.2 hne hnew⟩) fun _ _ h => h.1

theorem plain_of_ledger {s s' : Store} (hl : s'.ledger = s.ledger) (h : s.WrapsPlain) :
    s'.WrapsPlain := by
  have hnodeOf : s'.metadata.nodeOf = s.metadata.nodeOf := congrArg Ledger.nodeOf hl
  have hvalues (t : Store) (v : ValueId) :
      t.ledger.values.get? v = (t.values.get? v).map Value.listing := Arena.get?_map ..
  refine h.mono (fun v n hn => hnodeOf ▸ hn) fun v d' hd' => ?_
  have hlisting := hvalues s' v
  rw [hl, hvalues, hd', Option.map_some, Option.map_eq_some_iff] at hlisting
  obtain ⟨d, hd, heq⟩ := hlisting
  exact ⟨d, hd, (congrArg Prod.fst heq).symm⟩

theorem Fixes.plain {α : Type} {e : Edit α} (h : Fixes Store.ledger e) :
    Keeps Store.WrapsPlain e := fun s hs =>
  (h.ends s).mono (fun _ _ hl => plain_of_ledger hl hs) fun _ _ hl => plain_of_ledger hl hs

theorem keeps_dropValueNode_plain : Keeps Store.WrapsPlain (dropValueNode v) := by
  refine .bind .get fun s => ?_
  split
  · exact .pure _
  · refine .modify fun s' hs => hs.mono (fun x n hn => ?_) fun x d' hd' => ⟨d', hd', rfl⟩
    have herase : (s'.metadata.nodeOf.erase v)[x]? = some n := hn
    rw [getElem?_erase_eq_ite] at herase
    split at herase
    · cases herase
    · exact herase

theorem ends_moveValueNode_moored (hn : MergesWrappers k nested) (hm : MovesUses nested)
    (hs : s.Settled) (hsize : s.metadata.wrapperOf.size ≤ k) (hne : old ≠ new)
    (hlive : ∃ d, s.values.get? new = some d) (h : s.Moored) :
    Ends (moveValueNode nested old new) s (fun _ s' => s'.Anchored ∧
      ((∀ d, s.values.get? new = some d → d.kind ≠ .metadata) → s'.WrapsPlain))
      fun _ _ => False := by
  suffices hmoved : Ends (moveValueNode nested old new) s (fun _ s' => s'.Anchored ∧
      ((∀ d, s.values.get? new = some d → d.kind ≠ .metadata) → s'.WrapsPlain))
      fun _ _ => True from
    ((ends_moveValueNode hn hs hsize hne hlive).and hmoved).mono (fun _ _ h => h.2) fun _ _ h => h.1
  unfold moveValueNode
  rw [ends_bind, ends_get]
  dsimp only
  cases hold : s.metadata.nodeOf[old]? with
  | none => exact ⟨h.anchored, fun _ => h.plain⟩
  | some n =>
    obtain ⟨d, hd, hc⟩ := (hs.consistent.nodeOf old n).1 hold
    cases hnew : s.metadata.nodeOf[new]? with
    | none =>
      dsimp only
      rw [ends_bind, ends_modify]
      refine (ends_modifyNode (d := d) ?_ _).2 ⟨?_, fun hk x y dx hx hdx => ?_⟩
      · exact hd
      · -- Neither what the node wraps nor its entries show at any location.
        refine h.anchored.putOperands (held_modifyNode s.core hd
          fun d => { d with content := .value new }) (fun m => isNode_modify.2) fun m hm => ?_
        cases hm
      · change ((s.metadata.nodeOf.erase old).insert new n)[x]? = some y at hx
        rw [getElem?_insert_eq_ite, getElem?_erase_eq_ite] at hx
        split at hx
        next hxn => exact hk dx (hxn ▸ hdx)
        next =>
          split at hx
          · cases hx
          · exact h.plain x y dx hx hdx
    | some m =>
      obtain ⟨dm, hdm, hcm⟩ := (hs.consistent.nodeOf new m).1 hnew
      have hnm : n ≠ m := by
        rintro rfl
        obtain rfl := Option.some.inj (hd.symm.trans hdm)
        exact hne (Content.value.inj (hc.symm.trans hcm))
      have hmoored := ends_replaceNodeStep_moored (n := n) (m := m) hn hm hs hsize h
      dsimp only
      refine Ends.bind (((ends_replaceNodeStep hn hs hsize).and hmoored).mono (fun _ _ h => h)
        fun _ _ _ => trivial) ?_
      rintro _ p ⟨⟨r', hp⟩, hpm, hwraps, hfree⟩
      have hnodeOf : p.metadata.nodeOf = s.metadata.nodeOf := congrArg Prod.snd hwraps
      have hdrop := ends_dropValueNode_anchored (v := old) hp.sound hpm.anchored fun x hx l => by
        obtain rfl : n = x := Option.some.inj (hold.symm.trans (hnodeOf ▸ hx))
        exact hfree hnm l
      exact (hdrop.and (keeps_dropValueNode_plain p hpm.plain)).mono
        (fun _ _ h => ⟨h.1, fun _ => h.2⟩) fun _ _ _ => trivial

theorem keeps_destroyValue_plain : Keeps Store.WrapsPlain (destroyValue v) := by
  refine keeps_destroyValue_of plain_of_ledger (keeps_dropUntrackedNode keeps_dropValueNode_plain)
    (.modify fun s hs => hs.mono (fun _ _ hn => hn) fun x d' hd' => ?_)
  rw [Arena.get?_erase] at hd'
  split at hd'
  · cases hd'
  · exact ⟨d', hd', rfl⟩

theorem ends_destroyValue_moored (hs : s.Settled) (h : s.Moored) :
    Ends (destroyValue v) s (fun _ => Store.Moored) fun _ => Store.Moored :=
  ((ends_destroyValue_anchored hs h.anchored).and (keeps_destroyValue_plain s h.plain)).mono
    (fun _ _ h => ⟨h.1, h.2⟩) fun _ _ h => ⟨h.1, h.2⟩

section Replacements

variable {L : Layout} {c : ValueId} {es : List EdgeId}

theorem moored_of_uses {s s' : Store} (h : s.Moored) (hs : ∃ g, s' = { s with uses := g }) :
    s'.Moored := by
  obtain ⟨g, rfl⟩ := hs
  exact ⟨h.anchored, h.plain⟩

theorem ends_foldAddress_moored (h : s.SettledIn L k) (hm : s.Moored) (hc : AddressIfLive s c)
    (hne : c ≠ new) : Ends (replaceWithin (k + 1) c new) s (fun _ => Store.Moored)
      fun _ _ => True := by
  have hwell {v : ValueId} {d : Value} (hd : s.values.get? v = some d) :
      d.bare.WellTyped s.types := h.settled.typed.values (by rw [get?_core, hd]; rfl)
  refine ends_replaceStep_unaddressed h.settled hne (fun d hd => ?_) (fun p hp hty => ?_)
    fun _ _ _ => trivial
  · exact (hwell hd).not_isAddressable (.inr (Value.bare_payload_constant.2 (hc d hd)))
  · obtain ⟨dc, dn, hdc, hdn, hty⟩ := Query.expectSameType_ok.1 hty
    have hplain (d : Value) (hd : p.values.get? new = some d) : d.kind ≠ .metadata := by
      rw [hp.values, hdn] at hd
      obtain rfl := Option.some.inj hd
      -- The type of a block address is not that of a wrapper.
      intro hk
      have hptr := (hwell hdc).address (Value.bare_payload_constant.2 (hc dc hdc))
      have hmeta := (hwell hdn).wrapper (by rwa [Value.kind_bare])
      rw [show dc.bare.ty = dn.bare.ty from hty.symm, hmeta] at hptr
      cases hptr
    have hsettled := settledIn_of_uses h hp
    refine Ends.weaken (ends_moveValueNode_moored (mergesWrappers_replaceWithin k)
      (movesUses_replaceWithin k) hsettled.settled hsettled.wrappers hne
      ⟨dn, by rw [hp.values, hdn]⟩ (moored_of_uses hm hp.uses)) ?_
    exact fun _ s' hs' => ⟨hs'.1, hs'.2 hplain⟩

theorem ends_internBlockAddress_moored (h : s.SettledIn L k) (hm : s.Moored)
    (hc : AddressIfLive s c) {before : ConstantKey} :
    Ends (internBlockAddress (replaceWithin (k + 1)) c before) s (fun _ => Store.Moored)
      fun _ _ => True := by
  have hforget : Ends (forgetConstant before c) s (fun _ => Store.Moored) fun _ _ => False := by
    rw [forgetConstant, ends_modify]
    split
    · exact ⟨hm.anchored, hm.plain⟩
    · exact hm
  unfold internBlockAddress
  refine Ends.bind (((ends_forgetConstant h).and hforget).mono (fun _ _ h => h)
    fun _ _ _ => trivial) ?_
  rintro _ p ⟨hp, hpm⟩
  refine ends_bind.2 (ends_lift.2 ⟨fun key _ => ?_, fun _ _ => trivial⟩)
  split
  · rw [ends_bind, ends_get]
    split
    · exact ⟨hpm.anchored, hpm.plain⟩
    · split
      next hne =>
        have hfold := (ends_foldAddress hp.settled (hp.address hc) (Ne.symm hne)).and
          (ends_foldAddress_moored hp.settled hpm (hp.address hc) (Ne.symm hne))
        refine Ends.bind (hfold.mono (fun _ _ h => h) fun _ _ _ => trivial) ?_
        rintro _ q ⟨hq, hqm⟩
        exact (ends_destroyValue_moored hq.settled.settled hqm).mono (fun _ _ h => h)
          fun _ _ _ => trivial
      · exact ⟨hpm.anchored, hpm.plain⟩
  · exact hpm

theorem ends_moveEdges_moored (h : s.SettledIn L k) (hm : s.Moored) (hes : es.Nodup)
    (ht : ∀ e ∈ es, (s.uses.edge e).target = some old) (hne : old ≠ new)
    (hty : Query.expectSameType old new s = .ok ()) :
    Ends (moveEdges (replaceWithin (k + 1)) new es) s (fun _ => Store.Moored)
      fun _ _ => True := by
  obtain ⟨dold, dnew, hold, hnew, hty⟩ := Query.expectSameType_ok.1 hty
  rw [moveEdges_eq]
  refine Ends.bind ((ends_gather h.settled hes ht hne hold hnew hty).mono (fun _ _ h => h)
    fun _ _ _ => trivial) ?_
  rintro noted p ⟨hp, hnoted⟩
  have hstart : Outlives L k p p := ⟨settledIn_of_uses h hp, id, fun hd _ => ⟨_, hd, rfl⟩⟩
  refine Ends.mono (ends_forM (E := fun _ _ => True) (fun rest s' => Outlives L k p s' ∧
    (∀ c ∈ rest, AddressIfLive s' c.1) ∧ s'.Moored) ?_ _ p
      ⟨hstart, fun c hc d hd => ?_, moored_of_uses hm hp.uses⟩) (fun _ _ h => h.2.2) fun _ _ h => h
  · rintro c rest s' ⟨hs', hrest, hsm⟩
    have haddress := hrest c (List.mem_cons_self ..)
    refine ((ends_internBlockAddress hs'.settled haddress).and
      (ends_internBlockAddress_moored hs'.settled hsm haddress)).mono ?_ fun _ _ _ => trivial
    rintro _ s'' ⟨hs'', hsm'⟩
    exact ⟨hs'.trans hs'', fun c' hc' => hs''.address (hrest c' (List.mem_cons_of_mem _ hc')), hsm'⟩
  · obtain ⟨d', hd', ha⟩ := isBlockAddress_iff.1 (hnoted c hc).1
    rw [hp.values] at hd
    exact Option.some.inj (hd'.symm.trans hd) ▸ ha

end Replacements

end Edit

end ShaderIR
