import ShaderIR.Proofs.MergeAbsorption

/-! What replacing nodes and values does to the wiring of a store. Pointing the locations of a
node at another rewraps at most one value; if that value merges with another one, the replacement
that this nests is of the same kind. -/

open ShaderIR.Core

namespace ShaderIR

namespace Store

variable {s s' : Store} {r : Location → Option NodeId} {v : ValueId} {n : NodeId}

theorem wiring_modifyValue {f : Value → Value} (hk : ∀ d, (f d).kind = d.kind) :
    (s.modifyValue v f).wiring = s.wiring := by
  have hkind (w : ValueId) : ((s.modifyValue v f).values.get? w).map Value.kind =
      (s.values.get? w).map Value.kind := by
    rw [modifyValue, Arena.get?_modify]
    split
    · rw [Option.map_map]
      exact Option.map_congr fun d _ => hk d
    · rfl
  exact congrArg (Wiring.mk · _ _ _) (funext hkind)

theorem kind_wiring {d : Value} (hd : s.values.get? v = some d) : s.wiring.kind v = some d.kind :=
  congrArg (Option.map Value.kind) hd

theorem wiring_of_core (h : s'.core = s.core) : s'.wiring = s.wiring := by
  have hkind (p : Store) (w : ValueId) : (p.core.values.get? w).map Value.kind =
      (p.values.get? w).map Value.kind := by
    rw [get?_core, Option.map_map]
    exact Option.map_congr fun d _ => Value.kind_bare d
  have hwiring (p : Store) : p.wiring = ⟨fun w => (p.core.values.get? w).map Value.kind,
      p.core.uses.targets, p.core.metadata.nodeOf, p.core.metadata.wrapperOf⟩ :=
    congrArg (Wiring.mk · _ _ _) (funext fun w => (hkind p w).symm)
  rw [hwiring, hwiring, h]

instance : Unheld Store.wiring where
  tracker _ _ := rfl
  handles _ _ := rfl
  tags _ _ := rfl
  attachments _ _ _ := wiring_modifyValue fun _ => rfl
  named _ _ _ := rfl

theorem wiring_without {live : ValueId → Prop} (hg : s.uses.Sound live) {t : Tracker} :
    (s.without v t s.metadata.wrapperOf).wiring = s.wiring.drop v := by
  have hkind : (fun w => ((s.without v t s.metadata.wrapperOf).values.get? w).map Value.kind) =
      Function.update s.wiring.kind v none := by
    funext w
    rw [Function.update_apply, without, Arena.get?_erase]
    by_cases hw : w = v
    · rw [if_pos hw, if_pos hw.symm, Option.map_none]
    · rw [if_neg hw, if_neg (Ne.symm hw)]
      rfl
  have htargets : (s.uses.clearSlots v).targets = Function.update s.uses.targets v [] := by
    funext w
    rw [Function.update_apply, hg.targets_clearSlots]
    exact if_congr eq_comm rfl rfl
  exact (congrArg₂ (Wiring.mk · · _ _) hkind htargets)

theorem injective_wiring (hs : s.core.Sound r) : s.wiring.Injective := by
  intro v v' n hv hv'
  obtain ⟨d, hd, hc⟩ := (hs.consistent.nodeOf v n).1 hv
  obtain ⟨d', hd', hc'⟩ := (hs.consistent.nodeOf v' n).1 hv'
  obtain rfl := Option.some.inj (hd.symm.trans hd')
  exact Content.value.inj (hc.symm.trans hc')

theorem fixed_of_absorbs {gone : ValueId → Prop} {into : ValueId → ValueId} {k : ValueKind}
    (h : s.wiring.Absorbs s'.wiring gone into) (hs : s.core.Sound r)
    (hv : s.wiring.kind v = some k) (hk : k ≠ .metadata) (hg : ¬ gone v) :
    into v = v ∧ s'.wiring.kind v = some k := by
  have hfix : into v = v := by
    by_contra hne
    obtain ⟨x, hx⟩ := (h.trails hg hne).encloses
    obtain ⟨d, hd, hkd⟩ := IsEntered.kind hx.isEntered hs
    rw [kind_wiring hd, hkd] at hv
    exact hk (Option.some.inj hv).symm
  have hlands := h.lands hv
  rw [hfix] at hlands
  exact ⟨hfix, hlands⟩

def RecordsWrappers (s : Store) (r : Location → Option NodeId) : Prop :=
  ∀ {w : ValueId} {n : NodeId}, s.metadata.wrapperOf[n]? = some w → r (.wrapper w) = some n

theorem Settled.recordsWrappers (hs : s.Settled) : s.RecordsWrappers s.core.held :=
  fun hn => hs.recorded.wrapperOf hn

end Store

open Store Wiring

namespace Edit

section Fixing

variable {n m : NodeId} {i : Nat} {f : Node → Node}

theorem fixes_modifyNode_wiring : Fixes Store.wiring (modifyNode n f) :=
  .bind (.lift _) fun _ => .modify fun _ => rfl

theorem fixes_retargetOperand_wiring : Fixes Store.wiring (retargetOperand n i m) := by
  refine .bind (.lift _) fun before => .bind fixes_modifyNode_wiring fun _ =>
    .bind fixes_track fun _ => .ite (.bind (.modify fun s => ?_) fun _ => ?_) (.pure _)
  · simp only [modifyMetadata]
    split <;> rfl
  · refine .bind (.lift _) fun after => .bind .get fun s => ?_
    split
    · exact .modify fun _ => rfl
    · exact fixes_modifyNode_wiring

theorem fixes_retargetHandle_wiring {h : HandleId} : Fixes Store.wiring (retargetHandle h m) :=
  .bind (.modify fun s => Unheld.handles s (·.set h (some m))) fun _ => fixes_track

theorem fixes_retargetAttachment_wiring {v : ValueId} {tag : TagId} :
    Fixes Store.wiring (retargetAttachment v tag m) :=
  .bind (.bind (.lift _) fun _ => .modify fun s => Unheld.attachments s v (·.map _))
    fun _ => fixes_track

end Fixing

variable {nested : ValueId → ValueId → Edit Unit} {k : Nat}
variable {s s₀ : Store} {r r₀ : Location → Option NodeId} {w old new : ValueId} {n m : NodeId}

def MergesWirings (k : Nat) (nested : ValueId → ValueId → Edit Unit) : Prop :=
  ∀ {s : Store} {r : Location → Option NodeId} {w e : ValueId} {d : Value}, s.core.Sound r →
    s.RecordsWrappers r → s.values.get? w = some d → d.kind = .metadata → ¬ s.IsEntered w →
    s.IsEntered e → s.metadata.wrapperOf.size < k →
      Ends (nested w e) s (fun _ s' => ∃ f, s.wiring.Merges s'.wiring w e f) fun _ _ => True

theorem ends_retargetWrapper_rewraps (hn : MergesWrappers k nested) (hm : MergesWirings k nested)
    (hs : s.core.Sound r) (hl : r (.wrapper w) = none) (hheld : s.core.held (.wrapper w) = some n)
    (hold : s.metadata.wrapperOf[n]? = some w) (hsize : s.metadata.wrapperOf.size ≤ k)
    (hrec : (s.unenter n).RecordsWrappers r) :
    Ends (retargetWrapper nested w n m) s (fun _ s' => s.wiring.Rewraps n m s'.wiring)
      fun _ _ => True := by
  obtain ⟨d, hd, hk⟩ := held_wrapper hheld
  obtain ⟨hp, hnot, hpsize, -⟩ := unenter_spec hs hl hheld hold
  refine (ends_retargetWrapper_iff hold).2 ⟨fun e he => ?_, fun hnone => ?_⟩
  · rw [ends_bind]
    refine Ends.mono ((hn hp hd hk hnot ⟨m, he⟩ (by omega)).and
      (hm hp hrec hd hk hnot ⟨m, he⟩ (by omega))) ?_ fun _ _ h => h.1.elim
    rintro _ q ⟨⟨⟨r', hq⟩, hu, hnode⟩, f, hf⟩
    refine Ends.weaken (ends_destroyMerged hq hd hk hnot hu hnode) ?_
    rintro _ s' ⟨t, -, -, -, rfl, -, -⟩
    rw [wiring_without hq.sound.graph]
    exact .merged w e _ f hold hnot he hf
  · -- Neither what the wrapper wraps nor who tracks it shows in the wiring.
    rw [ends_bind]
    refine (ends_modifyValue (s := s.unenter n) hd (rewrap m)).2 ?_
    rw [ends_bind, ends_modify]
    have hkind (d : Value) : (rewrap m d).kind = d.kind := by
      obtain ⟨_, p, _, _, _⟩ := d
      cases p <;> rfl
    have hwiring : ((s.unenter n).modifyValue w (rewrap m)).wiring = s.wiring.unenter n :=
      wiring_modifyValue hkind
    have htrack : Fixes Store.wiring (track (.wrapper w) m) := fixes_track
    refine (htrack.ends _).mono (fun _ s' hs' => ?_) fun _ _ _ => trivial
    have hs' : s'.wiring = (s.wiring.unenter n).enter m w :=
      hs'.trans (congrArg (Wiring.enter · m w) hwiring)
    rw [hs']
    exact .repointed w hold hnone

/-- In the course of a replacement: the wrapper of the node is still to be visited, or it has been
dealt with. -/
def Rewrapping (s₀ : Store) (n m : NodeId) (rest : List Location) (s : Store) : Prop :=
  (s.wiring = s₀.wiring ∧ ∀ w, s₀.metadata.wrapperOf[n]? = some w → .wrapper w ∈ rest) ∨
    (s₀.wiring.Rewraps n m s.wiring ∧ ∀ w, .wrapper w ∉ rest)

theorem Rewrapping.step {l : Location} {rest : List Location} {s' : Store}
    (h : Rewrapping s₀ n m (l :: rest) s) (hl : ∀ w, l ≠ .wrapper w)
    (hs' : s'.wiring = s.wiring) : Rewrapping s₀ n m rest s' := by
  rcases h with ⟨hs, hw⟩ | ⟨hs, hw⟩
  · exact .inl ⟨hs'.trans hs, fun w hnw => (List.mem_cons.1 (hw w hnw)).resolve_left
      (Ne.symm (hl w))⟩
  · exact .inr ⟨hs' ▸ hs, fun w hmem => hw w (List.mem_cons_of_mem l hmem)⟩

theorem recordsWrappers_unenter {rest : List Location} (h : Store.Visiting s₀ r₀ n rest s r)
    (hrec : s₀.RecordsWrappers r₀) : (s.unenter n).RecordsWrappers r := by
  intro x p hp
  change (s.metadata.wrapperOf.erase n)[p]? = some x at hp
  rw [getElem?_erase_eq_ite] at hp
  split at hp
  · cases hp
  next hnp =>
    have hheld : s.core.held (.wrapper x) = some p := h.sound.recorded.wrapperOf hp
    obtain ⟨p₀, hp₀⟩ := h.merged.entered ⟨p, hp⟩
    have hrest : .wrapper x ∉ rest := fun hmem => by
      have hx : s.core.held (.wrapper x) = some n := (h.unvisited _ hmem).2.2
      exact hnp (Option.some.inj (hx.symm.trans hheld))
    rw [h.visited _ (by rw [hrec hp₀]; simp) hrest, hheld]

theorem ends_retarget_rewrapping (hn : MergesWrappers k nested) (hm : MergesWirings k nested)
    {l : Location} {rest : List Location} (h : Store.Visiting s₀ r₀ n (l :: rest) s r)
    (hrec : s₀.RecordsWrappers r₀) (hsize : s₀.metadata.wrapperOf.size ≤ k)
    (hw : Rewrapping s₀ n m (l :: rest) s) :
    Ends (retarget nested n m l) s (fun _ s' => Rewrapping s₀ n m rest s') fun _ _ => True := by
  cases l with
  | operand t i =>
    exact (fixes_retargetOperand_wiring.ends s).mono (fun _ _ hs' => hw.step (by simp) hs')
      fun _ _ _ => trivial
  | handle j =>
    exact (fixes_retargetHandle_wiring.ends s).mono (fun _ _ hs' => hw.step (by simp) hs')
      fun _ _ _ => trivial
  | attachment v tag =>
    exact (fixes_retargetAttachment_wiring.ends s).mono (fun _ _ hs' => hw.step (by simp) hs')
      fun _ _ _ => trivial
  | wrapper w =>
    obtain ⟨-, hl, hheld⟩ := h.unvisited _ (List.mem_cons_self ..)
    have hold := h.wrapper (List.mem_cons_self ..)
    obtain ⟨hs, -⟩ | ⟨-, hnone⟩ := hw
    · refine (ends_retargetWrapper_rewraps hn hm h.sound hl hheld hold
        (Nat.le_trans h.merged.wrappers hsize) (recordsWrappers_unenter h hrec)).mono
        (fun _ s' hs' => .inr ⟨hs ▸ hs', fun w' hw' => ?_⟩) fun _ _ _ => trivial
      -- A node has one wrapper, so none is left to be visited.
      obtain rfl := Option.some.inj (hold.symm.trans (h.wrapper (List.mem_cons_of_mem _ hw')))
      exact (List.nodup_cons.1 h.nodup).1 hw'
    · exact absurd (List.mem_cons_self ..) (hnone w)

theorem ends_replaceNodeStep_rewraps (hn : MergesWrappers k nested) (hm : MergesWirings k nested)
    (hs : s.core.Sound r) (hrec : s.RecordsWrappers r) (hsize : s.metadata.wrapperOf.size ≤ k)
    (hne : n ≠ m) : Ends (replaceNodeStep nested n m) s
      (fun _ s' => s.wiring.Rewraps n m s'.wiring) fun _ _ => True := by
  refine ends_replaceNodeStep_of (fun heq => absurd heq hne) (fun _ hold hnew => ?_)
    fun _ _ _ => trivial
  obtain ⟨d, hd⟩ := hnew
  have hstart : Rewrapping s n m (s.metadata.tracker.tracked n)
      (s.withTracker (s.metadata.tracker.take n).2) :=
    .inl ⟨rfl, fun w hw => (Tracker.mem_tracked hs.recorded.follows hold).2 (hrec hw)⟩
  refine Ends.mono (ends_forM (E := fun _ _ => True) (fun rest s' =>
    (∃ r', Store.Visiting s r n rest s' r') ∧ Rewrapping s n m rest s') ?_ _ _
    ⟨⟨_, visiting_take hs hold⟩, hstart⟩) ?_ fun _ _ _ => trivial
  · rintro l rest s' ⟨⟨r', h⟩, hw⟩
    exact ((ends_retarget hn h hsize (Arena.lt_size_of_get? hd)).and
      (ends_retarget_rewrapping hn hm h hrec hsize hw)).mono (fun _ _ h => h) fun _ _ _ => trivial
  · rintro _ s' ⟨-, ⟨hs', hw⟩ | ⟨hs', -⟩⟩
    · rw [hs']
      refine .unwrapped ?_
      rw [Option.eq_none_iff_forall_ne_some]
      exact fun w hnw => nomatch hw w hnw
    · exact hs'

theorem ends_moveValueNode_merges (hn : MergesWrappers k nested) (hm : MergesWirings k nested)
    (hs : s.core.Sound r) (hrec : s.RecordsWrappers r) (hsize : s.metadata.wrapperOf.size ≤ k)
    (h : s.wiring.Replaceable old new) : Ends (moveValueNode nested old new) s
      (fun _ s' => ∃ f, s.wiring.Merges s'.wiring old new f) fun _ _ => True := by
  unfold moveValueNode
  rw [ends_bind, ends_get]
  dsimp only
  cases hold : s.metadata.nodeOf[old]? with
  | none =>
    refine ⟨_, merges_self h fun y ⟨p, hp, _⟩ => ?_⟩
    cases hold.symm.trans hp
  | some n =>
    obtain ⟨d, hd, -⟩ := (hs.consistent.nodeOf old n).1 hold
    cases hnew : s.metadata.nodeOf[new]? with
    | none =>
      dsimp only
      rw [ends_bind, ends_modify]
      refine (ends_modifyNode (d := d) ?_ _).2 ⟨_, merges_moved h hold hnew⟩
      exact hd
    | some m =>
      have hinj : s.wiring.Injective := injective_wiring hs
      have hnm : n ≠ m := fun hnm => h.ne (hinj hold (hnm ▸ hnew))
      refine Ends.bind (((ends_replaceNodeStep hn hs hsize).and
        (ends_replaceNodeStep_rewraps hn hm hs hrec hsize hnm)).mono (fun _ _ h => h)
        fun _ _ _ => trivial) ?_
      rintro _ q ⟨⟨r', hq⟩, hrewraps⟩
      obtain ⟨⟨f, hf⟩, hnode, hnone⟩ := hrewraps.merges hinj h hold hnew
      refine Ends.weaken (ends_dropValueNode hq.sound) ?_
      rintro _ _ ⟨md, rfl, hw, -, hno, -, -⟩
      have hwiring : ({ q with metadata := md } : Store).wiring =
          { q.wiring with nodeOf := q.wiring.nodeOf.erase old } :=
        congrArg₂ (Wiring.mk _ _ · ·) hno hw
      rw [hwiring]
      exact ⟨f, hf.eraseNode hnode hnone⟩

theorem wiring_edgesMoved {p : Store} (hp : s.EdgesMoved p r old new (s.uses.useList old) [])
    (hs : s.core.Sound r) : p.wiring = s.wiring.moveUses old new := by
  have htargets : p.uses.targets = (s.wiring.moveUses old new).targets := by
    funext u
    rw [targets_edgesMoved hp hs]
    refine List.map_congr_left fun o _ => ?_
    cases o with
    | none => exact if_neg (by simp)
    | some v => simp only [Option.some.injEq, Option.map_some, redirect, apply_ite some]
  obtain ⟨g, rfl⟩ := hp.uses
  exact congrArg (Wiring.mk _ · _ _) htargets

theorem ends_replaceStep_merges (hn : MergesWrappers k nested) (hm : MergesWirings k nested)
    (hs : s.core.Sound r) (hrec : s.RecordsWrappers r) (hsize : s.metadata.wrapperOf.size ≤ k)
    (hne : old ≠ new) (haddr : ∀ d, s.values.get? old = some d → ¬ s.types.IsAddressable d.ty)
    (hkind : ∀ {k}, s.wiring.kind old = some k → s.wiring.kind new = some k)
    (hentered : ¬ s.IsEntered old) : Ends (replaceStep nested old new) s
      (fun _ s' => ∃ f, s.wiring.Merges s'.wiring old new f) fun _ _ => True := by
  refine ends_replaceStep_unaddressed hs hne haddr (fun p hp _ => ?_) fun _ _ _ => trivial
  have hwiring := wiring_edgesMoved hp hs
  have hmetadata : p.metadata = s.metadata := by
    obtain ⟨g, rfl⟩ := hp.uses
    rfl
  have hrec' : p.RecordsWrappers r := fun hn => hrec (hmetadata ▸ hn)
  have hreplaceable : (s.wiring.moveUses old new).Replaceable old new :=
    ⟨hne, hkind, unused_moveUses hne, hentered⟩
  refine (ends_moveValueNode_merges hn hm hp.sound hrec' (hmetadata ▸ hsize)
    (hwiring ▸ hreplaceable)).mono (fun _ s' ⟨f, hf⟩ => ⟨f, ?_⟩) fun _ _ _ => trivial
  rw [hwiring] at hf
  exact hf.of_moveUses

theorem mergesWirings_replaceWithin (k : Nat) : MergesWirings k (replaceWithin k) := by
  induction k with
  | zero => exact fun _ _ _ _ _ _ hlt => absurd hlt (Nat.not_lt_zero _)
  | succ k ih =>
    intro s r w e d hs hrec hd hk hw he hlt
    obtain ⟨de, hde, hke⟩ := he.kind hs
    refine ends_replaceStep_merges (mergesWrappers_replaceWithin k) ih hs hrec
      (Nat.le_of_lt_succ hlt) (fun hwe => hw (hwe ▸ he)) (fun dw hdw ha => ?_) (fun hkw => ?_) hw
    · obtain rfl := Option.some.inj (hd.symm.trans hdw)
      exact not_isMergeable hs hd ha (.inl hk)
    · rw [kind_wiring hd, hk] at hkw
      rw [kind_wiring hde, hke, hkw]

section Supplanting

variable {v : ValueId}

/-- Nothing but the value goes that is destroyed, and the node that wraps it, if it is no
wrapper. -/
theorem ends_destroyValue_wiring (hs : s.core.Sound r) (hw : ¬ s.IsEntered v) :
    Ends (destroyValue v) s (fun _ s' => s'.wiring = s.wiring.lose v) fun _ _ => True := by
  have hdrop : Ends (dropUntrackedNode v) s (fun _ s' => s'.wiring =
      { s.wiring with nodeOf := s.wiring.nodeOf.erase v }) fun _ _ => True := by
    have hends : Ends (dropValueNode v) s (fun _ s' => s'.wiring =
        { s.wiring with nodeOf := s.wiring.nodeOf.erase v }) fun _ _ => False := by
      refine (ends_dropValueNode hs).mono ?_ fun _ _ h => h
      rintro _ _ ⟨md, rfl, hw, -, hn, -, -⟩
      exact congrArg₂ (Wiring.mk _ _ · ·) hn hw
    unfold dropUntrackedNode
    rw [ends_bind, ends_get]
    split
    next hn =>
      -- Without a node there is nothing to drop.
      unfold dropValueNode at hends
      rw [ends_bind, ends_get, hn] at hends
      exact hends
    next =>
      rw [ends_bind, ends_get]
      split
      · trivial
      · exact hends.mono (fun _ _ h => h) fun _ _ _ => trivial
  have hcondemn : Ends (condemn v) s (fun _ s' => s'.wiring =
      { s.wiring with nodeOf := s.wiring.nodeOf.erase v }) fun _ _ => True := by
    unfold condemn
    refine ends_bind.2 (ends_lift.2 ⟨fun kind _ => ?_, fun _ _ => trivial⟩)
    refine ends_bind.2 (ends_lift.2 ⟨fun uses _ => ?_, fun _ _ => trivial⟩)
    split
    · trivial
    · refine Ends.bind hdrop fun _ p hp => ?_
      refine ends_bind.2 (ends_lift.2 ⟨fun key _ => ?_, fun _ _ => trivial⟩)
      split
      · rw [forgetConstant, ends_modify]
        split
        · exact hp
        · exact hp
      · exact hp
  rw [destroyValue_eq]
  refine Ends.bind (((ends_condemn hs).and hcondemn).mono (fun _ _ h => h) fun _ _ _ => trivial) ?_
  rintro _ p ⟨⟨⟨d, hd⟩, hu, md, cs, hp, -, hps, -⟩, hwiring⟩
  refine Ends.bind (((fixes_unregisterName : Fixes Store.core (unregisterName v)).ends p).mono
    (fun _ _ h => h) fun _ _ _ => trivial) ?_
  intro _ q hq
  have hwiring := (wiring_of_core hq).trans hwiring
  obtain ⟨dq, hdq⟩ : ∃ dq, q.values.get? v = some dq := by
    refine Store.isLive_core.1 (hq ▸ Store.isLive_core.2 ⟨d, ?_⟩)
    rw [hp]
    exact hd
  have huq : q.uses.useList v = [] := by
    rw [show q.uses = p.uses from congrArg Core.uses hq, hp]
    exact hu
  refine Ends.weaken (ends_discard (hq ▸ hps) hdq huq) ?_
  rintro _ s' ⟨t, ws, rfl, hws, -, -⟩
  obtain rfl : ws = q.metadata.wrapperOf := by
    refine Std.ExtTreeMap.ext_getElem? fun n => ?_
    rw [hws, if_neg]
    intro hqn
    have hwrapperOf : q.metadata.wrapperOf = s.metadata.wrapperOf :=
      congrArg Wiring.wrapperOf hwiring
    exact hw ⟨n, hwrapperOf ▸ hqn⟩
  have hqs : q.core.Sound r := hq ▸ hps
  rw [wiring_without hqs.graph, hwiring]
  rfl

theorem ends_supplant {d : Value} (hs : s.Settled) (hsize : s.metadata.wrapperOf.size ≤ k)
    (hold : s.values.get? old = some d) (ha : d.IsAddress)
    (hnew : s.wiring.kind new = some .constant) (hne : old ≠ new) :
    Ends (do replaceWithin (k + 1) old new; destroyValue old) s (fun _ s' => ∃ f,
      s.wiring.Absorbs s'.wiring (· = old) f ∧ f old = f new ∧ s'.wiring.kind old = none)
      fun _ _ => True := by
  have haddr (d' : Value) (hd' : s.values.get? old = some d') : ¬ s.types.IsAddressable d'.ty := by
    obtain rfl := Option.some.inj (hold.symm.trans hd')
    exact fun haddr => not_isMergeable hs hold haddr (.inr ha)
  have hkind {k : ValueKind} (hk : s.wiring.kind old = some k) : s.wiring.kind new = some k := by
    rw [kind_wiring hold, ha.kind] at hk
    exact hnew.trans hk
  have hentered : ¬ s.IsEntered old := not_isEntered_of_kind hs hold (by rw [ha.kind]; decide)
  refine Ends.bind (((ends_replaceStep (mergesWrappers_replaceWithin k) hs hne haddr hentered
    hsize).and (ends_replaceStep_merges (mergesWrappers_replaceWithin k)
    (mergesWirings_replaceWithin k) hs hs.recordsWrappers hsize hne haddr hkind hentered)).mono
    (fun _ _ h => h) fun _ _ _ => trivial) ?_
  rintro _ q ⟨⟨p, r', hp, hq, -, hnode⟩, f, hf⟩
  have hmetadata : p.metadata = s.metadata := by
    obtain ⟨g, rfl⟩ := hp.uses
    rfl
  have hentered' : ¬ q.IsEntered old := fun hold => by
    have hold := hq.merged.entered hold
    rw [Store.IsEntered, hmetadata] at hold
    exact hentered hold
  refine (ends_destroyValue_wiring hq.sound hentered').mono (fun _ s' hs' => ?_)
    fun _ _ _ => trivial
  rw [hs', lose_eq_drop hnode]
  exact ⟨f, hf.drop hentered hne, hf.same, kind_drop_self⟩

end Supplanting

end Edit

end ShaderIR
