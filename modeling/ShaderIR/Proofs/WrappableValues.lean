import ShaderIR.Proofs.TableAgreement
import ShaderIR.Proofs.WrappedKinds

/-! Commands keep nodes to constants, functions and globals, as long as replacing a wrapped value
puts such a value in its place. -/

namespace ShaderIR

namespace Store

def wrappedKinds (s : Store) : Arena .value ValueKind × Std.ExtTreeMap ValueId NodeId :=
  (s.values.map Value.kind, s.metadata.nodeOf)

/-- What nodes wrap has been handed out, and is of a kind that may be wrapped while it is live. -/
def WrapsKinds (s : Store) : Prop :=
  ∀ (v : ValueId) (n : NodeId), s.metadata.nodeOf[v]? = some n → v.index < s.values.size ∧
    ∀ d, s.values.get? v = some d → d.kind.isWrappable = true

variable {s s' : Store}

theorem wrappedKinds_modifyValue {v : ValueId} {k : Value → Value} (h : ∀ d, (k d).kind = d.kind) :
    (s.modifyValue v k).wrappedKinds = s.wrappedKinds := by
  have hvalues : (s.values.modify v k).map Value.kind = s.values.map Value.kind :=
    Arena.map_modify_of_eq fun d _ => h d
  simp only [wrappedKinds, modifyValue, hvalues]

theorem kind_rewrap (n : NodeId) (d : Value) : Value.kind (match d.payload with
    | .metadata _ => { d with payload := .metadata n }
    | _ => d) = d.kind := by
  obtain ⟨_, p, _, _, _⟩ := d
  cases p <;> rfl

instance : Lasting Store.wrappedKinds where
  tracker _ _ := rfl
  handles _ _ := rfl
  tags _ _ := rfl
  attachments _ _ _ := wrappedKinds_modifyValue fun _ => rfl
  named _ _ _ := rfl
  table _ _ _ := rfl
  uses _ _ := rfl
  constants _ _ := rfl
  wrappers _ _ := rfl
  wrapped _ _ n := wrappedKinds_modifyValue (kind_rewrap n)

instance : Unnoded Store.wrappedKinds where
  nodes s _ h := congrArg (Prod.mk _) (h s.metadata)

theorem WrapsKinds.of_view (h : s.WrapsKinds) (hv : s'.wrappedKinds = s.wrappedKinds) :
    s'.WrapsKinds := by
  have hkinds : s'.values.map Value.kind = s.values.map Value.kind := congrArg Prod.fst hv
  have hnodeOf : s'.metadata.nodeOf = s.metadata.nodeOf := congrArg Prod.snd hv
  have hsize : s'.values.size = s.values.size := by
    have hs := congrArg Arena.size hkinds
    simpa using hs
  intro v n hn
  rw [hnodeOf] at hn
  obtain ⟨hlt, hkind⟩ := h v n hn
  refine ⟨hsize ▸ hlt, fun d' hd' => ?_⟩
  have hget := congrArg (fun a : Arena .value ValueKind => a.get? v) hkinds
  simp only [Arena.get?_map, hd', Option.map_some] at hget
  obtain ⟨d, hd, heq⟩ := Option.map_eq_some_iff.1 hget.symm
  rw [← heq]
  exact hkind d hd

end Store

namespace Edit

open Store

variable {B : ValueId → Prop} {R : Roles} {s s' : Store} {v old new : ValueId} {n m : NodeId}
variable {d : Value} {ty : TypeId} {text : String} {α : Type} {e : Edit α}

section Views

theorem Fixes.wrapsKinds (h : Fixes Store.wrappedKinds e) : Keeps WrapsKinds e := fun s hs =>
  (h.ends s).mono (fun _ _ hv => hs.of_view hv) fun _ _ hv => hs.of_view hv

theorem Fixes.wrapsKinds_of_core (h : Fixes Store.core e) : Keeps WrapsKinds e :=
  Fixes.wrapsKinds (h.of_view fun {s s'} hc => by
    have hkind : Value.kind ∘ Value.bare = Value.kind := funext Value.kind_bare
    have hvalues (t : Store) : t.core.values.map Value.kind = t.values.map Value.kind := by
      rw [Store.core, Arena.map_map, hkind]
    have hmetadata : s'.metadata = s.metadata := congrArg Core.metadata hc
    rw [Store.wrappedKinds, ← hvalues, hc, hvalues, hmetadata, Store.wrappedKinds])

theorem Fixes.wrapsKinds_of_unwired (h : Fixes Store.unwired e) : Keeps WrapsKinds e :=
  Fixes.wrapsKinds (Fixes.of_uses h)

end Views

section Making

theorem keeps_pushValue_wrapsKinds : Keeps WrapsKinds (pushValue d) := by
  refine .modifyGet fun s hs v n hn => ?_
  obtain ⟨hlt, hkind⟩ := hs v n hn
  have hne : v ≠ s.values.next := by
    rintro rfl
    exact Nat.lt_irrefl _ hlt
  have hsize : (s.pushValue d).2.values.size = s.values.size + 1 := by
    simp [Store.pushValue, Arena.push, Arena.size]
  refine ⟨hsize ▸ Nat.lt_succ_of_lt hlt, fun d' hd' => ?_⟩
  rw [get?_pushValue, if_neg hne] at hd'
  exact hkind d' hd'

theorem keeps_internType_wrapsKinds {sh : TypeShape} : Keeps WrapsKinds (internType sh) :=
  .modifyGet fun _ hs => hs

theorem keeps_internScalar_wrapsKinds {data : ConstantData} :
    Keeps WrapsKinds (internScalar ty data) := by
  refine .bind .get fun s => ?_
  split
  · exact .pure _
  · exact .bind keeps_pushValue_wrapsKinds fun _ => .bind (.modify fun _ hs => hs) fun _ => .pure _

theorem keeps_addOperand_wrapsKinds {o : Option ValueId} : Keeps WrapsKinds (addOperand v o) :=
  fixes_addOperand.wrapsKinds_of_unwired

theorem keeps_blockAddress_wrapsKinds {f b : ValueId} : Keeps WrapsKinds (blockAddress f b) := by
  refine .bind (.lift _) fun _ => .bind (.lift _) fun _ => .bind .get fun s => ?_
  split
  · exact .pure _
  · exact .bind keeps_internType_wrapsKinds fun _ => .bind keeps_pushValue_wrapsKinds fun _ =>
      .bind keeps_addOperand_wrapsKinds fun _ => .bind keeps_addOperand_wrapsKinds fun _ =>
        .bind (.modify fun _ hs => hs) fun _ => .pure _

theorem keeps_writeName_wrapsKinds : Keeps WrapsKinds (writeName v text) :=
  Fixes.wrapsKinds_of_core fixes_writeName

theorem keeps_createFunction_wrapsKinds {m : ModuleId} :
    Keeps WrapsKinds (createFunction m text ty) := by
  refine .bind (.lift _) fun sh => ?_
  split
  · have hcomplete {f : ValueId} {ids : List ValueId} : Keeps WrapsKinds
        (modifyValue f fun d => { d with payload := .function none ids [] }) := by
      refine .bind (.lift _) fun _ => .modify fun s hs v n hn => ?_
      obtain ⟨hlt, hkind⟩ := hs v n hn
      refine ⟨(Arena.size_modify ..).symm ▸ hlt, fun d hd => ?_⟩
      rw [Store.modifyValue, Arena.get?_modify] at hd
      split at hd
      · obtain ⟨d', -, rfl⟩ := Option.map_eq_some_iff.1 hd
        rfl
      · exact hkind d hd
    exact .bind keeps_pushValue_wrapsKinds fun _ => .bind (.modify fun _ hs => hs) fun _ =>
      .bind (.mapM (fun _ => keeps_pushValue_wrapsKinds) _) fun _ => .bind hcomplete fun _ =>
        .bind keeps_writeName_wrapsKinds fun _ =>
          .bind (Fixes.wrapsKinds_of_core fixes_appendFunction) fun _ => .pure _
  · exact .raise _

theorem keeps_createGlobal_wrapsKinds {m : ModuleId} {o : Option ValueId} :
    Keeps WrapsKinds (createGlobal m text ty o) :=
  .bind keeps_pushValue_wrapsKinds fun _ => .bind keeps_addOperand_wrapsKinds fun _ =>
    .bind keeps_writeName_wrapsKinds fun _ =>
      .bind (Fixes.wrapsKinds_of_core fixes_appendGlobal) fun _ => .pure _

theorem keeps_createDetachedBlock_wrapsKinds : Keeps WrapsKinds (createDetachedBlock text) :=
  .bind keeps_internType_wrapsKinds fun _ => .bind keeps_pushValue_wrapsKinds fun _ =>
    .bind keeps_writeName_wrapsKinds fun _ => .pure _

theorem keeps_createBlock_wrapsKinds : Keeps WrapsKinds (createBlock v text) :=
  .bind keeps_createDetachedBlock_wrapsKinds fun _ =>
    .bind (Fixes.wrapsKinds_of_core fixes_insertBlock) fun _ => .pure _

theorem keeps_buildInstruction_wrapsKinds {opcode : String} {os : List (Option ValueId)}
    {name : Option String} {placement : Placement} :
    Keeps WrapsKinds (buildInstruction opcode ty os name placement) := by
  have hcreate : Keeps WrapsKinds (createInstruction opcode ty os) :=
    .bind keeps_pushValue_wrapsKinds fun _ => .bind (.forM (fun _ =>
      .bind keeps_addOperand_wrapsKinds fun _ => .pure _) _) fun _ => .pure _
  exact Carries.keeps (.buildInstruction hcreate.carries
    (Fixes.wrapsKinds_of_core fixes_setName).carries
    (Fixes.wrapsKinds_of_core fixes_insertInstruction).carries)

theorem keeps_wrapperValue_wrapsKinds : Keeps WrapsKinds (wrapperValue n) := by
  refine .bind (.lift _) fun _ => .bind .get fun s => ?_
  split
  · exact .pure _
  · exact .bind keeps_internType_wrapsKinds fun _ => .bind keeps_pushValue_wrapsKinds fun _ =>
      .bind (.modify fun _ hs => hs) fun _ =>
        .bind (Fixes.wrapsKinds fixes_track) fun _ => .pure _

theorem keeps_valueNode_wrapsKinds : Keeps WrapsKinds (valueNode v) := by
  intro s hs
  refine ends_bind.2 (ends_lift.2 ⟨fun kind hkind => ?_, fun _ _ => hs⟩)
  obtain ⟨d, hd, rfl⟩ := Query.kind_ok.1 hkind
  split
  · exact hs
  next hk =>
    have hk : d.kind.isWrappable = true := by
      cases hd' : d.kind <;> simp_all [ValueKind.isWrappable]
    rw [ends_bind, ends_get]
    split
    · exact hs
    · rw [ends_bind, pushNode, ends_modifyGet, ends_bind, ends_modify]
      refine Keeps.bind (Fixes.wrapsKinds fixes_makeReplaceable) (fun _ => .pure _) _ ?_
      intro w x hx
      change (s.metadata.nodeOf.insert v s.metadata.nodes.next)[w]? = some x at hx
      rw [getElem?_insert_eq_ite] at hx
      split at hx
      next heq =>
        subst heq
        refine ⟨Arena.lt_size_of_get? hd, fun d' hd' => ?_⟩
        obtain rfl := Option.some.inj (hd.symm.trans hd')
        exact hk
      next => exact hs w x hx

end Making

section Replacing

/-- A coherent store whose nodes wrap constants, functions and globals. -/
structure Fitted (B : ValueId → Prop) (s : Store) : Prop where
  coherent : Coherent B s
  wraps : s.WrapsKinds

def roles (s : Store) (barred : ValueId → Prop)
    (hb : ∀ v d, s.values.get? v = some d → d.payload = .constant .blockAddress → ¬ barred v) :
    Roles where
  wrapped v := ¬ barred v ∧ ∀ d, s.values.get? v = some d → d.kind.isWrappable = true
  address v := ∃ d, s.values.get? v = some d ∧ d.payload = .constant .blockAddress
  wrapped_of_address := by
    rintro v ⟨d, hd, hp⟩
    refine ⟨hb v d hd hp, fun d' hd' => ?_⟩
    rw [← Option.some.inj (hd.symm.trans hd'), Value.kind, hp]
    rfl

theorem Fitted.respects (h : Fitted B s) {barred : ValueId → Prop}
    {hb : ∀ v d, s.values.get? v = some d → d.payload = .constant .blockAddress → ¬ barred v}
    (hn : ∀ v, barred v → s.metadata.nodeOf[v]? = none) : Respects (roles s barred hb) s where
  kind v d hd hw := hw.2 d hd
  address v d hd := by
    constructor
    · exact fun hp => ⟨d, hd, hp⟩
    · rintro ⟨d', hd', hp⟩
      exact Option.some.inj (hd.symm.trans hd') ▸ hp
  nodes v n hv := by
    refine ⟨fun hbar => ?_, (h.wraps v n hv).2⟩
    rw [hn v hbar] at hv
    cases hv
  entered f b c hc := by
    exact of_keyOf_blockAddress ((h.coherent.keyed.entered _ c).1 hc)
  tracker n t l hn hl := by
    have hheld : s.core.held l = some n := (h.coherent.settled.recorded.follows.stamped n t hn l).1 hl
    cases l with
    | wrapper v =>
      obtain ⟨d, hd, hk⟩ := held_wrapper hheld
      intro hw
      have hkind := hw.2 d hd
      rw [hk] at hkind
      cases hkind
    | _ => trivial

theorem Respects.wrapsKinds (h : Respects R s) (hl : s.WrapsLive) : s.WrapsKinds := by
  intro v n hn
  obtain ⟨d, hd⟩ := hl hn
  refine ⟨Arena.lt_size_of_get? hd, fun d' hd' => ?_⟩
  exact h.kind v d' hd' (h.nodes v n hn)

theorem Fitted.ends_of (h : Fitted B s) (hr : Respects R s) (hc : Keeps (Coherent B) e)
    (he : Keeps (Respects R) e) : Ends e s (fun _ => Fitted B) fun _ => Fitted B :=
  ((hc s h.coherent).and (he s hr)).mono (fun _ _ h => ⟨h.1, h.2.wrapsKinds h.1.wrapsLive⟩)
    fun _ _ h => ⟨h.1, h.2.wrapsKinds h.1.wrapsLive⟩

theorem Keeps.fitted_of_respects (hc : Keeps (Coherent B) e)
    (he : ∀ {R}, Keeps (Respects R) e) : Keeps (Fitted B) e := by
  intro s hs
  have hrespects : Respects (roles s (fun _ => False) fun _ _ _ _ => id) s :=
    hs.respects fun _ => False.elim
  exact hs.ends_of hrespects hc he

/-- Replacing a block address that no node wraps moves its uses and changes nothing else, since no
block address uses another. -/
theorem ends_replaceAllUses_address (hs : s.Settled) (hne : old ≠ new)
    (hd : s.values.get? old = some d) (hp : d.payload = .constant .blockAddress)
    (hn : s.metadata.nodeOf[old]? = none) : Ends (replaceAllUses old new) s
      (fun _ s' => ∃ g, s' = { s with uses := g }) fun _ s' => s' = s := by
  have hwell : d.bare.WellTyped s.types := hs.typed.values (by rw [get?_core, hd]; rfl)
  have haddr : ∀ d', s.values.get? old = some d' → ¬ s.types.IsAddressable d'.ty := by
    intro d' hd'
    obtain rfl := Option.some.inj (hd.symm.trans hd')
    exact hwell.not_isAddressable (.inr (Value.bare_payload_constant.2 hp))
  unfold replaceAllUses
  rw [ends_bind, ends_get]
  change Ends (replaceStep (replaceWithin (s.values.size + 1)) old new) s _ _
  refine ends_replaceStep_unaddressed hs hne haddr (fun p hp _ => ?_) fun _ _ _ => rfl
  obtain ⟨g, rfl⟩ := hp.uses
  unfold moveValueNode
  rw [ends_bind, ends_get]
  dsimp only
  rw [hn]
  exact ⟨g, rfl⟩

theorem Keeps.fitted (hc : Keeps (Coherent B) e) (hw : Keeps WrapsKinds e) : Keeps (Fitted B) e :=
  fun s hs => ((hc s hs.coherent).and (hw s hs.wraps)).mono (fun _ _ h => ⟨h.1, h.2⟩)
    fun _ _ h => ⟨h.1, h.2⟩

theorem ends_replaceAllUses_fitted (h : Fitted B s) (hf : old = new ∨
    s.metadata.nodeOf[old]? = none ∨ ∀ d, s.values.get? new = some d → d.kind.isWrappable = true) :
    Ends (replaceAllUses old new) s (fun _ => Fitted B) fun _ => Fitted B := by
  have hcoherent : Keeps (Coherent B) (replaceAllUses old new) := keeps_replaceAllUses_coherent
  by_cases hne : old = new
  · subst hne
    refine ((replaceAllUses_self s old).mono ?_ fun _ _ h => h.elim)
    rintro _ _ rfl
    exact h
  rcases hf.resolve_left hne with hnone | hnew
  -- A value that no node wraps is barred from being wrapped, unless it is a block address, into
  -- which others may fold meanwhile; but replacing a block address folds none.
  · by_cases haddr : ∃ d, s.values.get? old = some d ∧ d.payload = .constant .blockAddress
    · obtain ⟨d, hd, hp⟩ := haddr
      have hmoved := ends_replaceAllUses_address h.coherent.settled hne hd hp hnone
      refine ((hcoherent s h.coherent).and hmoved).mono ?_ ?_
      · rintro _ _ ⟨hc, g, rfl⟩
        exact ⟨hc, h.wraps⟩
      · rintro _ _ ⟨-, rfl⟩
        exact h
    · have hb : ∀ v d, s.values.get? v = some d → d.payload = .constant .blockAddress → v ≠ old := by
        rintro v d hd hp rfl
        exact haddr ⟨d, hd, hp⟩
      have hrespects : Respects (roles s (· = old) hb) s := h.respects fun v hv => hv ▸ hnone
      exact h.ends_of hrespects hcoherent (keeps_replaceAllUses_respects fun hw => absurd rfl hw.1)
  · have hrespects : Respects (roles s (fun _ => False) fun _ _ _ _ => id) s :=
      h.respects fun _ => False.elim
    exact h.ends_of hrespects hcoherent (keeps_replaceAllUses_respects fun _ => ⟨id, hnew⟩)

theorem keeps_nullifyBlockAddress_fitted : Keeps (Fitted B) (nullifyBlockAddress v) := by
  refine .bind (.lift _) fun ty s hs => ?_
  have hconst : Keeps (Fitted B) (constNull ty) :=
    .fitted keeps_constNull_coherent keeps_internScalar_wrapsKinds
  refine Ends.bind (((hconst s hs).and (ends_internScalar_kind hs.coherent)).mono (fun _ _ h => h)
    fun _ _ h => h.1) ?_
  rintro c p ⟨hp, d, hd, hk⟩
  have hnull : ∀ d', p.values.get? c = some d' → d'.kind.isWrappable = true := by
    intro d' hd'
    rw [← Option.some.inj (hd.symm.trans hd'), hk]
    rfl
  have hdestroy : Keeps (Fitted B) (destroyValue v) :=
    .fitted_of_respects keeps_destroyValue_coherent keeps_destroyValue_respects
  exact (ends_replaceAllUses_fitted hp (.inr (.inr hnull))).bind fun _ q hq => hdestroy q hq

theorem erodes_fitted : Erodes (fun _ _ => True) Fitted where
  weaken hs hB := ⟨hs.coherent.weaken hB, hs.wraps⟩
  instructions hs hinsts := ⟨hs.coherent.addInstructions hinsts, hs.wraps⟩
  globals hs hm := ⟨hs.coherent.addGlobals hm, hs.wraps⟩
  empty hu :=
    (Keeps.fitted (keeps_emptyOperands_coherent hu) fixes_emptyOperands.wrapsKinds_of_unwired).carries
  destroy :=
    (Keeps.fitted_of_respects keeps_destroyValue_coherent keeps_destroyValue_respects).carries
  nullify := keeps_nullifyBlockAddress_fitted.carries
  clear :=
    (Keeps.fitted keeps_clear_coherent fixes_modifyInstructions.wrapsKinds_of_core).carries
  removeInstruction := (Keeps.fitted keeps_removeInstruction_coherent
    fixes_removeInstruction.wrapsKinds_of_core).carries
  removeGlobal :=
    (Keeps.fitted keeps_removeGlobal_coherent fixes_removeGlobal.wrapsKinds_of_core).carries
  removeBlock := (Keeps.fitted keeps_removeBlock_coherent
    (Fixes.wrapsKinds_of_core fixes_removeBlock)).carries
  removeFunction := (Keeps.fitted keeps_removeFunction_coherent
    (Fixes.wrapsKinds_of_core fixes_removeFunction)).carries
  release := (Keeps.fitted keeps_eraseNamedMetadata_coherent
    (Fixes.wrapsKinds fixes_eraseNamedMetadata)).carries
  drop := (Keeps.fitted keeps_dropModule_coherent (.modify fun _ hs => hs)).carries

end Replacing

end Edit

namespace Store

/-- Whether the node of a value, if there is one, may follow it to another. -/
def letsFollow (s : Store) (old new : ValueId) : Bool :=
  old = new || s.metadata.nodeOf[old]?.isNone ||
    (s.values.get? new).all fun d => d.kind.isWrappable

theorem letsFollow_iff {s : Store} {old new : ValueId} : s.letsFollow old new = true ↔ old = new ∨
    s.metadata.nodeOf[old]? = none ∨
    ∀ d, s.values.get? new = some d → d.kind.isWrappable = true := by
  cases h : s.values.get? new <;> simp [letsFollow, or_assoc, h]

end Store

namespace Command

open Edit

variable {B : ValueId → Prop} {s : Store}

/-- Whether every replacement of a value among some commands lets its node follow only to a
constant, a function or a global. -/
def followsFittingly : Store → List Command → Bool
  | _, [] => true
  | s, c :: cs =>
    (match c with
      | .replaceAllUses old new => s.letsFollow old new
      | _ => true) && followsFittingly (after s c) cs

theorem ends_run_wrapsKinds (h : Fitted B s) {c : Command}
    (hf : ∀ old new, c = .replaceAllUses old new → s.letsFollow old new = true) :
    Ends c.run s (fun _ => Store.WrapsKinds) fun _ => Store.WrapsKinds := by
  have hkeep {α : Type} {e : Edit α} {g : α → Reply} (hk : Keeps Store.WrapsKinds e) :
      Ends (g <$> e) s (fun _ => Store.WrapsKinds) fun _ => Store.WrapsKinds := hk.map g s h.wraps
  have hquiet {e : Edit Unit} (hk : Keeps Store.WrapsKinds e) :
      Ends (quiet e) s (fun _ => Store.WrapsKinds) fun _ => Store.WrapsKinds :=
    keeps_quiet hk s h.wraps
  have hplace {e : Edit Unit} (hk : Fixes Store.core e) := hquiet (Fixes.wrapsKinds_of_core hk)
  have hwire {e : Edit Unit} (hk : Fixes Store.unwired e) := hquiet (Fixes.wrapsKinds_of_unwired hk)
  have hnode {α : Type} {e : Edit α} {g : α → Reply} (hk : Fixes Store.wrappedKinds e) :=
    hkeep (g := g) (Fixes.wrapsKinds hk)
  have hhold {e : Edit Unit} (hk : Fixes Store.wrappedKinds e) := hquiet (Fixes.wrapsKinds hk)
  have hfit {α : Type} {e : Edit α} (hk : Keeps (Fitted B) e) :
      Ends e s (fun _ => Store.WrapsKinds) fun _ => Store.WrapsKinds :=
    (hk s h).mono (fun _ _ h => h.wraps) fun _ _ h => h.wraps
  cases c with
  | internType => exact hkeep keeps_internType_wrapsKinds
  | constInt => exact hkeep keeps_internScalar_wrapsKinds
  | constNull => exact hkeep keeps_internScalar_wrapsKinds
  | constUndefined => exact hkeep keeps_internScalar_wrapsKinds
  | blockAddress => exact hkeep keeps_blockAddress_wrapsKinds
  | setOperand => exact hwire fixes_setOperand
  | pushOperand => exact hkeep fixes_pushOperand.wrapsKinds_of_unwired
  | dropAllReferences => exact hwire fixes_dropAllReferences
  | replaceAllUses old new =>
    have hend := ends_replaceAllUses_fitted h (Store.letsFollow_iff.1 (hf old new rfl))
    exact ends_quiet (hend.mono (fun _ _ h => h.wraps) fun _ _ h => h.wraps)
  | replaceUsesIf =>
    exact hfit ((Keeps.fitted_of_respects keeps_replaceUsesIf_coherent
      keeps_replaceUsesIf_respects).map _)
  | setName => exact hplace fixes_setName
  | takeName => exact hkeep (Fixes.wrapsKinds_of_core fixes_takeName)
  | createModule => exact hkeep (Fixes.wrapsKinds_of_core fixes_createModule)
  | eraseModule => exact hfit (keeps_quiet erodes_fitted.carries_eraseModule.keeps)
  | createFunction => exact hkeep keeps_createFunction_wrapsKinds
  | appendFunction => exact hplace fixes_appendFunction
  | removeFunction => exact hplace fixes_removeFunction
  | moveFunctionTo => exact hplace fixes_moveFunctionTo
  | eraseFunction => exact hfit (keeps_quiet erodes_fitted.carries_eraseFunction.keeps)
  | createGlobal => exact hkeep keeps_createGlobal_wrapsKinds
  | setInitializer => exact hwire fixes_setInitializer
  | appendGlobal => exact hplace fixes_appendGlobal
  | removeGlobal => exact hplace fixes_removeGlobal
  | moveGlobalTo => exact hplace fixes_moveGlobalTo
  | eraseGlobal => exact hfit (keeps_quiet erodes_fitted.carries_eraseGlobal.keeps)
  | createBlock => exact hkeep keeps_createBlock_wrapsKinds
  | createDetachedBlock => exact hkeep keeps_createDetachedBlock_wrapsKinds
  | appendBlock => exact hplace fixes_insertBlock
  | insertBlockBefore =>
    exact hplace (.bind (.lift _) fun _ => .bind (.lift _) fun _ => fixes_insertBlock)
  | removeBlock => exact hplace fixes_removeBlock
  | moveBlockBefore =>
    exact hplace (.bind (.lift _) fun _ => .bind (.lift _) fun _ => fixes_relocateBlock)
  | moveBlockTo => exact hplace fixes_relocateBlock
  | eraseBlock => exact hfit (keeps_quiet erodes_fitted.carries_eraseBlock.keeps)
  | buildInstruction => exact hkeep keeps_buildInstruction_wrapsKinds
  | appendInstruction => exact hplace fixes_insertInstruction
  | insertInstructionBefore => exact hplace fixes_insertInstructionBefore
  | removeInstruction => exact hplace fixes_removeInstruction
  | moveInstructionBefore =>
    exact hplace (.bind (.lift _) fun _ => .bind (.lift _) fun _ => fixes_relocateInstruction)
  | moveInstructionToEnd => exact hplace (.bind (.lift _) fun _ => fixes_relocateInstruction)
  | eraseInstruction => exact hfit (keeps_quiet erodes_fitted.carries_eraseInstruction.keeps)
  | stringNode => exact hnode fixes_stringNode
  | valueNode => exact hkeep keeps_valueNode_wrapsKinds
  | tuple => exact hnode fixes_tuple
  | distinctTuple => exact hnode fixes_distinctTuple
  | temporaryTuple => exact hnode fixes_temporaryTuple
  | replaceNode =>
    exact hfit (keeps_quiet (.fitted_of_respects keeps_replaceNode_coherent
      keeps_replaceNode_respects))
  | replaceWithUniqued =>
    exact hfit ((Keeps.fitted_of_respects keeps_replaceWithUniqued_coherent
      keeps_replaceWithUniqued_respects).map _)
  | replaceWithDistinct =>
    exact hnode (.bind (.lift _) fun _ => .bind fixes_settle fun _ => .pure _)
  | eraseTemporary => exact hhold fixes_eraseTemporary
  | setNodeOperand => exact hhold fixes_setNodeOperand
  | pushNodeOperand => exact hhold fixes_pushNodeOperand
  | insertNodeOperand => exact hhold fixes_insertNodeOperand
  | removeNodeOperand => exact hnode fixes_removeNodeOperand
  | trackHandle => exact hnode fixes_trackHandle
  | resetHandle => exact hhold fixes_resetHandle
  | moveHandle => exact hnode fixes_moveHandle
  | releaseHandle => exact hhold fixes_releaseHandle
  | wrapperValue => exact hkeep keeps_wrapperValue_wrapsKinds
  | internTag => exact hnode fixes_internTag
  | setMetadata => exact hhold fixes_setMetadata
  | addNamedMetadata => exact hhold fixes_addNamedMetadata
  | eraseNamedMetadata => exact hhold fixes_eraseNamedMetadata

theorem fitted_after (h : Fitted B s) {c : Command}
    (hf : ∀ old new, c = .replaceAllUses old new → s.letsFollow old new = true) :
    Fitted B (after s c) :=
  ⟨keeps_after (keeps_run_coherent c) h.coherent, of_ends_run (ends_run_wrapsKinds h hf)⟩

theorem fitted_afterAll {cs : List Command} (h : Fitted B s) (hf : followsFittingly s cs = true) :
    Fitted B (afterAll s cs) := by
  induction cs generalizing s with
  | nil => exact h
  | cons c cs ih =>
    obtain ⟨hc, hcs⟩ := Bool.and_eq_true_iff.1 hf
    have hafter : Fitted B (after s c) := by
      apply fitted_after h
      rintro old new rfl
      exact hc
    exact ih hafter hcs

/-- A node that wraps a value in a store that commands leave wraps a live constant, function or
global, if nodes have followed their values to such values only. -/
theorem isWrappable_afterAll (hash : String → UInt64) (config : Config) {cs : List Command}
    (hf : followsFittingly { hash, config } cs = true) {n : NodeId} {d : Node} {v : ValueId}
    (hn : (afterAll { hash, config } cs).metadata.nodes.get? n = some d)
    (hd : d.content = .value v) :
    ∃ d', (afterAll { hash, config } cs).values.get? v = some d' ∧
      d'.kind.isWrappable = true := by
  have hstart : Fitted (fun _ => False) { hash, config } :=
    ⟨coherent_empty hash config, fun v n hn => by simp at hn⟩
  have hfitted := fitted_afterAll hstart hf
  have hwraps := ((Store.nodesAgree hfitted.coherent.settled hfitted.coherent.wrapping).nodeOf v n).2
    ⟨d, hn, hd⟩
  obtain ⟨d', hd'⟩ := hfitted.coherent.wrapsLive hwraps
  have hkind := (hfitted.wraps v n hwraps).2 d' hd'
  exact ⟨d', hd', hkind⟩

/-- A node wraps a block address, which folds when its function is replaced by another. -/
def foldedAddress : List Command :=
  [.internType .void, .internType (.function ⟨0⟩ []), .createModule "m",
    .createFunction ⟨0⟩ "f" ⟨1⟩, .createFunction ⟨0⟩ "g" ⟨1⟩, .createBlock ⟨0⟩ "entry",
    .blockAddress ⟨0⟩ ⟨2⟩, .blockAddress ⟨1⟩ ⟨2⟩, .valueNode ⟨3⟩, .replaceAllUses ⟨0⟩ ⟨1⟩]

theorem isWrappable_foldedAddress : followsFittingly {} foldedAddress = true ∧
    (afterAll {} foldedAddress).metadata.nodes.get? ⟨0⟩ =
      some { content := .value ⟨4⟩, storage := .uniqued } ∧
    ∃ d', (afterAll {} foldedAddress).values.get? ⟨4⟩ = some d' ∧ d'.kind.isWrappable = true := by
  have hf : followsFittingly {} foldedAddress = true := by decide +kernel
  have hn : (afterAll {} foldedAddress).metadata.nodes.get? ⟨0⟩ =
      some { content := .value ⟨4⟩, storage := .uniqued } := by
    decide +kernel
  exact ⟨hf, hn, isWrappable_afterAll nameHash {} hf hn rfl⟩

/-- A node wraps a constant, and the constant is replaced by an instruction. -/
def wrappedAlloca : List Command :=
  [.internType (.int 32), .constInt ⟨0⟩ 7, .buildInstruction "alloca" ⟨0⟩ [] none .floating,
    .valueNode ⟨0⟩, .replaceAllUses ⟨0⟩ ⟨1⟩]

/-- The node of a constant follows it to an instruction, which could not have been wrapped. -/
theorem isWrappable_wrappedAlloca : allAnswer {} wrappedAlloca = true ∧
    (afterAll {} wrappedAlloca).metadata.nodes.get? ⟨0⟩ =
      some { content := .value ⟨1⟩, storage := .uniqued } ∧
    ((afterAll {} wrappedAlloca).values.get? ⟨1⟩).map Value.kind = some .instruction ∧
    ¬ ValueKind.isWrappable .instruction := by
  decide +kernel

end Command

end ShaderIR
