import ShaderIR.Proofs.CommandCoherence

/-! Every global has an operand slot for its initializer, from its creation to its end. -/

namespace ShaderIR

open Edit

theorem UseGraph.slotsOf_allocate (g : UseGraph) (d : Edge) (w : ValueId) :
    (g.allocate d).2.slotsOf w = g.slotsOf w := by
  unfold allocate
  split <;> rfl

namespace Store

def slotted (s : Store) : Arena .value ValueKind × (ValueId → List EdgeId) :=
  (s.values.map Value.kind, s.uses.slotsOf)

/-- Every global but for some has an operand slot. -/
def SlotsGlobals (B : ValueId → Prop) (s : Store) : Prop :=
  ∀ g d, s.values.get? g = some d → d.kind = .global → B g ∨ s.uses.slotsOf g ≠ []

variable {B : ValueId → Prop} {P : Payload → Prop} {s s' : Store} {v : ValueId} {d : Value}

theorem SlotsGlobals.of_view (h : s.SlotsGlobals B) (hv : s'.slotted = s.slotted) :
    s'.SlotsGlobals B := by
  have hkinds : s'.values.map Value.kind = s.values.map Value.kind := congrArg Prod.fst hv
  have hslots : s'.uses.slotsOf = s.uses.slotsOf := congrArg Prod.snd hv
  intro g d' hd' hk
  have hget := congrArg (fun a : Arena .value ValueKind => a.get? g) hkinds
  simp only [Arena.get?_map, hd', Option.map_some] at hget
  obtain ⟨d, hd, heq⟩ := Option.map_eq_some_iff.1 hget.symm
  rw [hslots]
  exact h g d hd (heq.trans hk)

theorem slotted_of_core (h : s'.core = s.core) : s'.slotted = s.slotted := by
  have hkinds (t : Store) : t.core.values.map Value.kind = t.values.map Value.kind := by
    rw [core, Arena.map_map, show Value.kind ∘ Value.bare = Value.kind from funext Value.kind_bare]
  have huses : s'.uses = s.uses := congrArg Core.uses h
  rw [slotted, slotted, ← hkinds, h, hkinds, huses]

theorem slotted_of_body (h : s'.body = s.body) : s'.slotted = s.slotted := by
  have hkinds (t : Store) : t.body.values.map Value.kind = t.values.map Value.kind := by
    rw [body, Arena.map_map]
    rfl
  have huses : s'.uses = s.uses := show s'.body.uses = s.body.uses by rw [h]
  rw [slotted, slotted, ← hkinds, h, hkinds, huses]

theorem SlotsGlobals.spares (h : s.SlotsGlobals B) (hs : s.Spares P s') : s'.SlotsGlobals B := by
  intro g d' hd' hk
  obtain ⟨d, hd, hkind, -⟩ := hs.sort hd'
  have hcount := hs.count hd'
  rw [UseGraph.targets, UseGraph.targets, List.length_map, List.length_map] at hcount
  refine (h g d hd (hkind.symm.trans hk)).imp_right fun hslots => ?_
  rwa [← List.length_pos_iff, hcount, List.length_pos_iff]

theorem SlotsGlobals.edgesMoved {r : Location → Option NodeId} {old new : ValueId}
    {es rest : List EdgeId} (h : s.SlotsGlobals B) (hp : s.EdgesMoved s' r old new es rest) :
    s'.SlotsGlobals B := by
  intro g d hd hk
  rw [hp.slots]
  exact h g d (hp.values ▸ hd) hk

theorem SlotsGlobals.weaken {B' : ValueId → Prop} (h : s.SlotsGlobals B') (hB : ∀ v, B' v → B v) :
    s.SlotsGlobals B :=
  fun g d hd hk => (h g d hd hk).imp_left (hB g)

theorem SlotsGlobals.addSlot (h : s.SlotsGlobals fun w => B w ∨ w = v) :
    SlotsGlobals B { s with uses := (s.uses.addSlot v).2 } := by
  intro g d hd hk
  change B g ∨ (s.uses.addSlot v).2.slotsOf g ≠ []
  simp only [UseGraph.addSlot, UseGraph.slotsOf_setSlots, UseGraph.slotsOf_allocate]
  split
  · exact .inr (by simp)
  next hne => exact (h g d hd hk).imp_left (·.resolve_right fun heq => hne heq.symm)

theorem SlotsGlobals.push (h : s.SlotsGlobals B) (hB : d.kind = .global → B s.values.next) :
    (s.pushValue d).2.SlotsGlobals B := by
  intro g d' hd' hk
  rw [get?_pushValue] at hd'
  split at hd'
  next heq =>
    obtain rfl := Option.some.inj hd'
    exact .inl (heq ▸ hB hk)
  · exact h g d' hd' hk

theorem SlotsGlobals.moves {L : Layout} {k : Nat} {old new : ValueId} {es : List EdgeId}
    (h : s.SlotsGlobals B) (hs : Moves L k old new es s s') : s'.SlotsGlobals B := by
  obtain ⟨p, hp, -, hspares, -⟩ := hs.moved
  exact (h.edgesMoved hp).spares hspares

theorem SlotsGlobals.erase (h : s.SlotsGlobals B) (hv : s'.values = s.values.erase v)
    (hu : s'.uses = s.uses.clearSlots v) : s'.SlotsGlobals B := by
  intro g d hd hk
  rw [hv, Arena.get?_erase] at hd
  split at hd
  · cases hd
  next hne =>
    rw [hu, UseGraph.Sound.slotsOf_clearSlots, if_neg hne]
    exact h g d hd hk

end Store

namespace Edit

open Store

variable {B C : ValueId → Prop} {s : Store} {v old new b f : ValueId} {m : ModuleId} {n k : NodeId}
variable {d : Value} {ty : TypeId} {text : String} {α : Type} {e : Edit α} {o : Option ValueId}

section Views

theorem Fixes.slotsGlobals (h : Fixes Store.slotted e) : Keeps (SlotsGlobals B) e := fun s hs =>
  (h.ends s).mono (fun _ _ hv => hs.of_view hv) fun _ _ hv => hs.of_view hv

theorem Fixes.slotsGlobals_of_core (h : Fixes Store.core e) : Keeps (SlotsGlobals B) e :=
  Fixes.slotsGlobals (h.of_view slotted_of_core)

theorem Fixes.slotsGlobals_of_body (h : Fixes Store.body e) : Keeps (SlotsGlobals B) e :=
  Fixes.slotsGlobals (h.of_view slotted_of_body)

end Views

section Operands

theorem fixes_linkTo_slotted {e : EdgeId} : Fixes Store.slotted (linkTo e o) := by
  cases o with
  | none => exact .pure _
  | some t =>
    exact .bind (.lift _) fun _ => .modify fun s =>
      congrArg (Prod.mk _) (funext (UseGraph.sameSlots_link s.uses e t).slotsOf)

theorem fixes_putOperand_slotted {i : Nat} : Fixes Store.slotted (putOperand v i o) := by
  refine .bind (.lift _) fun e => .bind .get fun s => .ite (.bind (.modify fun s => ?_) fun _ =>
    fixes_linkTo_slotted) (.pure _)
  exact congrArg (Prod.mk _) (funext (UseGraph.sameSlots_unlink s.uses e).slotsOf)

theorem fixes_emptyOperands_slotted : Fixes Store.slotted (emptyOperands v) :=
  .bind (.lift _) fun _ => .forM (fun _ => fixes_putOperand_slotted) _

theorem keeps_addOperand_slotsGlobals : Keeps (SlotsGlobals B) (addOperand v o) := by
  refine .bind (.lift _) fun count => .bind (.modifyGet fun s hs => ?_) fun e =>
    .bind fixes_linkTo_slotted.slotsGlobals fun _ => .pure _
  exact SlotsGlobals.addSlot (hs.weaken fun _ => .inl)

theorem ends_addOperand_slotsGlobals (hs : s.SlotsGlobals fun w => B w ∨ w = v)
    (hd : s.values.get? v = some d) : Ends (addOperand v o) s (fun _ => SlotsGlobals B)
      fun _ => SlotsGlobals B := by
  refine ends_bind.2 (ends_lift.2 ⟨fun count _ => ?_, fun x hx => ?_⟩)
  · have hrest {e : EdgeId} : Keeps (SlotsGlobals B) (do
        linkTo e o
        return count) := .bind fixes_linkTo_slotted.slotsGlobals fun _ => .pure _
    exact ends_bind.2 (hrest _ hs.addSlot)
  · cases hx.symm.trans (Query.operandCount_ok.2 ⟨⟨d, hd⟩, rfl⟩)

theorem keeps_pushOperand_slotsGlobals : Keeps (SlotsGlobals B) (pushOperand v o) :=
  .bind (.lift _) fun _ => .bind (.lift _) fun _ => keeps_addOperand_slotsGlobals

end Operands

section Making

theorem keeps_pushValue_slotsGlobals (hk : d.kind ≠ .global) :
    Keeps (SlotsGlobals B) (pushValue d) :=
  .modifyGet fun _ hs => hs.push fun h => absurd h hk

theorem keeps_internType_slotsGlobals {sh : TypeShape} : Keeps (SlotsGlobals B) (internType sh) :=
  .modifyGet fun _ hs => hs

theorem keeps_internScalar_slotsGlobals {data : ConstantData} :
    Keeps (SlotsGlobals B) (internScalar ty data) := by
  refine .bind .get fun s => ?_
  split
  · exact .pure _
  · exact .bind (keeps_pushValue_slotsGlobals (by simp [Value.kind, Payload.kind])) fun _ =>
      .bind (.modify fun _ hs => hs) fun _ => .pure _

theorem keeps_blockAddress_slotsGlobals : Keeps (SlotsGlobals B) (blockAddress f b) := by
  refine .bind (.lift _) fun _ => .bind (.lift _) fun _ => .bind .get fun s => ?_
  split
  · exact .pure _
  · exact .bind keeps_internType_slotsGlobals fun _ =>
      .bind (keeps_pushValue_slotsGlobals (by simp [Value.kind, Payload.kind])) fun _ =>
        .bind keeps_addOperand_slotsGlobals fun _ => .bind keeps_addOperand_slotsGlobals fun _ =>
          .bind (.modify fun _ hs => hs) fun _ => .pure _

theorem keeps_createFunction_slotsGlobals : Keeps (SlotsGlobals B) (createFunction m text ty) := by
  refine .bind (.lift _) fun sh => ?_
  split
  · have hcomplete {f : ValueId} {ids : List ValueId} : Keeps (SlotsGlobals B)
        (modifyValue f fun d => { d with payload := .function none ids [] }) := by
      refine .bind (.lift _) fun _ => .modify fun s hs g d hd hk => ?_
      rw [Store.modifyValue, Arena.get?_modify] at hd
      split at hd
      · obtain ⟨d', -, rfl⟩ := Option.map_eq_some_iff.1 hd
        cases hk
      · exact hs g d hd hk
    exact .bind (keeps_pushValue_slotsGlobals (by simp [Value.kind, Payload.kind])) fun _ =>
      .bind (.modify fun _ hs => hs) fun _ =>
        .bind (.mapM (fun _ => keeps_pushValue_slotsGlobals (by simp [Value.kind, Payload.kind])) _)
          fun _ => .bind hcomplete fun _ => .bind (Fixes.slotsGlobals_of_core fixes_writeName) fun _ =>
            .bind (Fixes.slotsGlobals_of_core fixes_appendFunction) fun _ => .pure _
  · exact .raise _

/-- A new global is without a slot only until the slot of its initializer has been added. -/
theorem keeps_createGlobal_slotsGlobals : Keeps (SlotsGlobals B) (createGlobal m text ty o) := by
  intro s hs
  have hnew : (s.pushValue { ty := ty, payload := .global none }).2.SlotsGlobals
      fun w => B w ∨ w = s.values.next := (hs.weaken fun _ => .inl).push fun _ => .inr rfl
  have hget : (s.pushValue { ty := ty, payload := .global none }).2.values.get? s.values.next =
      some { ty := ty, payload := .global none } := (get?_pushValue ..).trans (if_pos rfl)
  have hrest : Keeps (SlotsGlobals B) (do
      writeName s.values.next text
      appendGlobal m s.values.next
      return s.values.next) :=
    .bind (Fixes.slotsGlobals_of_core fixes_writeName) fun _ =>
      .bind (Fixes.slotsGlobals_of_core fixes_appendGlobal) fun _ => .pure _
  exact ends_bind.2 (Ends.bind (ends_addOperand_slotsGlobals hnew hget) fun _ s' => hrest s')

theorem keeps_createDetachedBlock_slotsGlobals :
    Keeps (SlotsGlobals B) (createDetachedBlock text) :=
  .bind keeps_internType_slotsGlobals fun _ =>
    .bind (keeps_pushValue_slotsGlobals (by simp [Value.kind, Payload.kind])) fun _ =>
      .bind (Fixes.slotsGlobals_of_core fixes_writeName) fun _ => .pure _

theorem keeps_createBlock_slotsGlobals : Keeps (SlotsGlobals B) (createBlock f text) :=
  .bind keeps_createDetachedBlock_slotsGlobals fun _ =>
    .bind (Fixes.slotsGlobals_of_core fixes_insertBlock) fun _ => .pure _

theorem keeps_buildInstruction_slotsGlobals {opcode : String} {os : List (Option ValueId)}
    {name : Option String} {placement : Placement} :
    Keeps (SlotsGlobals B) (buildInstruction opcode ty os name placement) := by
  have hcreate : Keeps (SlotsGlobals B) (createInstruction opcode ty os) :=
    .bind (keeps_pushValue_slotsGlobals (by simp [Value.kind, Payload.kind])) fun _ =>
      .bind (.forM (fun _ => .bind keeps_addOperand_slotsGlobals fun _ => .pure _) _) fun _ => .pure _
  exact Carries.keeps (.buildInstruction hcreate.carries
    (Fixes.slotsGlobals_of_core fixes_setName).carries
    (Fixes.slotsGlobals_of_core fixes_insertInstruction).carries)

theorem keeps_wrapperValue_slotsGlobals : Keeps (SlotsGlobals B) (wrapperValue n) := by
  refine .bind (.lift _) fun _ => .bind .get fun s => ?_
  split
  · exact .pure _
  · have hbody {v : ValueId} : Fixes Store.body (do
        modify (·.modifyMetadata fun md => { md with wrapperOf := md.wrapperOf.insert n v })
        track (.wrapper v) n
        return v) :=
      .bind fixes_modifyMetadata fun _ => .bind fixes_track fun _ => .pure _
    exact .bind keeps_internType_slotsGlobals fun _ =>
      .bind (keeps_pushValue_slotsGlobals (by simp [Value.kind, Payload.kind])) fun _ =>
        Fixes.slotsGlobals_of_body hbody

end Making

section Replacing

theorem ends_destroyValue_slotsGlobals (hs : s.Settled) (h : s.SlotsGlobals B) :
    Ends (destroyValue v) s (fun _ => SlotsGlobals B) fun _ => SlotsGlobals B := by
  rw [destroyValue_eq]
  refine Ends.bind ((ends_condemn hs).mono (fun _ _ h => h) ?_) ?_
  · rintro _ _ ⟨md, rfl, -⟩
    exact h
  rintro _ p ⟨⟨d, hd⟩, hu, md, cs, rfl, -, hp, -⟩
  have hcore : Fixes Store.core (unregisterName v) := fixes_unregisterName
  refine Ends.bind ((hcore.ends _).mono (fun _ _ h => h) fun _ _ hc => ?_) ?_
  · exact SlotsGlobals.of_view (s := { s with metadata := md, constants := cs }) h (slotted_of_core hc)
  rintro _ q hq
  have hslots : q.SlotsGlobals B :=
    SlotsGlobals.of_view (s := { s with metadata := md, constants := cs }) h (slotted_of_core hq)
  have hsound : q.core.Sound s.core.held := hq ▸ hp
  have hlive : q.core.IsLive v := hq ▸ isLive_core.2 ⟨d, hd⟩
  obtain ⟨d', hd'⟩ := isLive_core.1 hlive
  have huses : q.uses = s.uses := congrArg Core.uses hq
  refine (ends_discard hsound hd' (huses ▸ hu)).weaken ?_
  rintro _ s' ⟨t, ws, rfl, -⟩
  exact hslots.erase rfl rfl

theorem ends_replaceAllUses_slotsGlobals (hs : Coherent C s) (h : s.SlotsGlobals B) :
    Ends (replaceAllUses old new) s (fun _ => SlotsGlobals B) fun _ => SlotsGlobals B := by
  by_cases hne : old = new
  · subst hne
    refine (replaceAllUses_self s old).weaken ?_
    rintro _ _ rfl
    exact h
  refine (ends_replaceAllUses ⟨hs.settled, rfl⟩ hs.keyed hne).mono ?_ ?_
  · rintro _ s' ⟨-, -, -, -, q, r', hq, hs', -⟩
    exact (h.moves hq).spares hs'.merged.spares
  · rintro _ _ ⟨rfl, -⟩
    exact h

theorem ends_replaceUsesIf_slotsGlobals {σ : Type} {ask : σ → Use → Bool × σ} {st : σ}
    (hs : Coherent C s) (h : s.SlotsGlobals B) :
    Ends (replaceUsesIf old new ask st) s (fun _ => SlotsGlobals B) fun _ => SlotsGlobals B := by
  by_cases hne : old = new
  · unfold replaceUsesIf
    rw [if_pos hne]
    exact h
  refine (ends_replaceUsesIf ⟨hs.settled, rfl⟩ hs.keyed hne).mono ?_ ?_
  · rintro _ s' ⟨es, hq⟩
    exact h.moves hq
  · rintro _ _ rfl
    exact h

theorem ends_replaceNode_slotsGlobals (hs : s.Settled) (h : s.SlotsGlobals B) :
    Ends (replaceNode n k) s (fun _ => SlotsGlobals B) fun _ => SlotsGlobals B := by
  have hin : s.SettledIn s.layout s.values.size :=
    Store.SettledWith.bounded ⟨hs, rfl⟩ (Nat.le_refl _)
  unfold replaceNode
  rw [ends_bind, ends_get]
  refine (ends_replaceNodeStep (mergesWrappers_replaceWithin _) hs
    (Nat.le_trans hin.wrappers (Nat.le_add_right _ 2))).mono ?_ ?_
  · rintro _ s' ⟨r', hs'⟩
    exact h.spares hs'.merged.spares
  · rintro _ _ ⟨-, rfl, -⟩
    exact h

theorem ends_replaceWithUniqued_slotsGlobals (hs : s.Settled) (h : s.SlotsGlobals B) :
    Ends (replaceWithUniqued n) s (fun _ => SlotsGlobals B) fun _ => SlotsGlobals B := by
  refine ends_bind.2 (ends_lift.2 ⟨fun _ _ => ?_, fun _ _ => h⟩)
  refine ends_bind.2 (ends_lift.2 ⟨fun d _ => ?_, fun _ _ => h⟩)
  rw [ends_bind, ends_get]
  split
  next x _ =>
    have herase : Keeps (SlotsGlobals B) (do
        eraseTemporary n
        return x) := .bind (Fixes.slotsGlobals_of_body fixes_eraseTemporary) fun _ => .pure _
    exact (ends_replaceNode_slotsGlobals hs h).bind fun _ s' => herase s'
  next =>
    have hbody : Fixes Store.body (do
        settle n .uniqued
        modify (·.modifyMetadata fun md => { md with uniqued := md.uniqued.insert d.content n })
        return n) :=
      .bind fixes_settle fun _ => .bind fixes_modifyMetadata fun _ => .pure _
    exact hbody.slotsGlobals_of_body s h

end Replacing

section Erasing

def Racked (B : ValueId → Prop) (s : Store) : Prop := Coherent B s ∧ s.SlotsGlobals fun _ => False

theorem Keeps.racked (hc : Keeps (Coherent B) e) (hs : Keeps (SlotsGlobals fun _ => False) e) :
    Keeps (Racked B) e := hc.and hs

theorem keeps_destroyValue_racked : Keeps (Racked B) (destroyValue v) := fun s hs =>
  (keeps_destroyValue_coherent s hs.1).and (ends_destroyValue_slotsGlobals hs.1.settled hs.2)

theorem keeps_nullifyBlockAddress_racked : Keeps (Racked B) (nullifyBlockAddress v) :=
  .bind (.lift _) fun _ => .bind (.racked keeps_constNull_coherent keeps_internScalar_slotsGlobals)
    fun _ => .bind (fun s hs => (keeps_replaceAllUses_coherent s hs.1).and
      (ends_replaceAllUses_slotsGlobals hs.1 hs.2)) fun _ => keeps_destroyValue_racked

theorem erodes_racked : Erodes (fun _ _ => True) Racked where
  weaken hs hB := ⟨hs.1.weaken hB, hs.2⟩
  instructions hs hinsts := ⟨hs.1.addInstructions hinsts, hs.2⟩
  globals hs hm := ⟨hs.1.addGlobals hm, hs.2⟩
  empty hu := (Keeps.racked (keeps_emptyOperands_coherent hu)
    fixes_emptyOperands_slotted.slotsGlobals).carries
  destroy := keeps_destroyValue_racked.carries
  nullify := keeps_nullifyBlockAddress_racked.carries
  clear := (Keeps.racked keeps_clear_coherent fixes_modifyInstructions.slotsGlobals_of_core).carries
  removeInstruction := (Keeps.racked keeps_removeInstruction_coherent
    fixes_removeInstruction.slotsGlobals_of_core).carries
  removeGlobal :=
    (Keeps.racked keeps_removeGlobal_coherent fixes_removeGlobal.slotsGlobals_of_core).carries
  removeBlock := (Keeps.racked keeps_removeBlock_coherent
    (Fixes.slotsGlobals_of_core fixes_removeBlock)).carries
  removeFunction := (Keeps.racked keeps_removeFunction_coherent
    (Fixes.slotsGlobals_of_core fixes_removeFunction)).carries
  release := (Keeps.racked keeps_eraseNamedMetadata_coherent
    (Fixes.slotsGlobals_of_body fixes_eraseNamedMetadata)).carries
  drop := (Keeps.racked keeps_dropModule_coherent (.modify fun _ hs => hs)).carries

end Erasing

end Edit

namespace Command

open Edit

variable {B : ValueId → Prop} {s : Store}

theorem ends_run_slotsGlobals (h : Racked B s) (c : Command) :
    Ends c.run s (fun _ => Store.SlotsGlobals fun _ => False)
      fun _ => Store.SlotsGlobals fun _ => False := by
  have hkeep {α : Type} {e : Edit α} {g : α → Reply} (hk : Keeps (Store.SlotsGlobals fun _ => False) e) :
      Ends (g <$> e) s (fun _ => Store.SlotsGlobals fun _ => False)
        fun _ => Store.SlotsGlobals fun _ => False := hk.map g s h.2
  have hplace {e : Edit Unit} (hk : Fixes Store.core e) :=
    keeps_quiet (Fixes.slotsGlobals_of_core (B := fun _ => False) hk) s h.2
  have hwire {e : Edit Unit} (hk : Fixes Store.slotted e) :=
    keeps_quiet (Fixes.slotsGlobals (B := fun _ => False) hk) s h.2
  have hnode {α : Type} {e : Edit α} {g : α → Reply} (hk : Fixes Store.body e) :=
    hkeep (g := g) (Fixes.slotsGlobals_of_body hk)
  have hhold {e : Edit Unit} (hk : Fixes Store.body e) :=
    keeps_quiet (Fixes.slotsGlobals_of_body (B := fun _ => False) hk) s h.2
  have herode {e : Edit Unit} (hk : Keeps (Racked B) e) :
      Ends (quiet e) s (fun _ => Store.SlotsGlobals fun _ => False)
        fun _ => Store.SlotsGlobals fun _ => False :=
    (keeps_quiet hk s h).mono (fun _ _ h => h.2) fun _ _ h => h.2
  cases c with
  | internType => exact hkeep keeps_internType_slotsGlobals
  | constInt => exact hkeep keeps_internScalar_slotsGlobals
  | constNull => exact hkeep keeps_internScalar_slotsGlobals
  | constUndefined => exact hkeep keeps_internScalar_slotsGlobals
  | blockAddress => exact hkeep keeps_blockAddress_slotsGlobals
  | setOperand => exact hwire (.bind (.lift _) fun _ => fixes_putOperand_slotted)
  | pushOperand => exact hkeep keeps_pushOperand_slotsGlobals
  | dropAllReferences => exact hwire (.bind (.lift _) fun _ => fixes_emptyOperands_slotted)
  | replaceAllUses => exact ends_quiet (ends_replaceAllUses_slotsGlobals h.1 h.2)
  | replaceUsesIf => exact Ends.map (ends_replaceUsesIf_slotsGlobals (B := fun _ => False) h.1 h.2)
  | setName => exact hplace fixes_setName
  | takeName => exact hkeep (Fixes.slotsGlobals_of_core fixes_takeName)
  | createModule => exact hkeep (Fixes.slotsGlobals_of_core fixes_createModule)
  | eraseModule => exact herode erodes_racked.carries_eraseModule.keeps
  | createFunction => exact hkeep keeps_createFunction_slotsGlobals
  | appendFunction => exact hplace fixes_appendFunction
  | removeFunction => exact hplace fixes_removeFunction
  | moveFunctionTo => exact hplace fixes_moveFunctionTo
  | eraseFunction => exact herode erodes_racked.carries_eraseFunction.keeps
  | createGlobal => exact hkeep keeps_createGlobal_slotsGlobals
  | setInitializer => exact hwire (.bind (.lift _) fun _ => fixes_putOperand_slotted)
  | appendGlobal => exact hplace fixes_appendGlobal
  | removeGlobal => exact hplace fixes_removeGlobal
  | moveGlobalTo => exact hplace fixes_moveGlobalTo
  | eraseGlobal => exact herode erodes_racked.carries_eraseGlobal.keeps
  | createBlock => exact hkeep keeps_createBlock_slotsGlobals
  | createDetachedBlock => exact hkeep keeps_createDetachedBlock_slotsGlobals
  | appendBlock => exact hplace fixes_insertBlock
  | insertBlockBefore =>
    exact hplace (.bind (.lift _) fun _ => .bind (.lift _) fun _ => fixes_insertBlock)
  | removeBlock => exact hplace fixes_removeBlock
  | moveBlockBefore =>
    exact hplace (.bind (.lift _) fun _ => .bind (.lift _) fun _ => fixes_relocateBlock)
  | moveBlockTo => exact hplace fixes_relocateBlock
  | eraseBlock => exact herode erodes_racked.carries_eraseBlock.keeps
  | buildInstruction => exact hkeep keeps_buildInstruction_slotsGlobals
  | appendInstruction => exact hplace fixes_insertInstruction
  | insertInstructionBefore => exact hplace fixes_insertInstructionBefore
  | removeInstruction => exact hplace fixes_removeInstruction
  | moveInstructionBefore =>
    exact hplace (.bind (.lift _) fun _ => .bind (.lift _) fun _ => fixes_relocateInstruction)
  | moveInstructionToEnd => exact hplace (.bind (.lift _) fun _ => fixes_relocateInstruction)
  | eraseInstruction => exact herode erodes_racked.carries_eraseInstruction.keeps
  | stringNode => exact hnode fixes_stringNode
  | valueNode => exact hnode fixes_valueNode
  | tuple => exact hnode fixes_tuple
  | distinctTuple => exact hnode fixes_distinctTuple
  | temporaryTuple => exact hnode fixes_temporaryTuple
  | replaceNode => exact ends_quiet (ends_replaceNode_slotsGlobals h.1.settled h.2)
  | replaceWithUniqued =>
    exact Ends.map (ends_replaceWithUniqued_slotsGlobals (B := fun _ => False) h.1.settled h.2)
  | replaceWithDistinct =>
    exact hnode (.bind (.lift _) fun _ => .bind fixes_settle fun _ => .pure _)
  | eraseTemporary => exact hhold fixes_eraseTemporary
  | setNodeOperand => exact hhold fixes_setNodeOperand
  | pushNodeOperand => exact hhold fixes_pushNodeOperand
  | insertNodeOperand => exact hhold fixes_insertNodeOperand
  | removeNodeOperand => exact hnode fixes_removeNodeOperand
  | trackHandle => exact hnode fixes_trackHandle
  | resetHandle => exact hhold fixes_resetHandle
  | moveHandle => exact hnode fixes_moveHandle
  | releaseHandle => exact hhold fixes_releaseHandle
  | wrapperValue => exact hkeep keeps_wrapperValue_slotsGlobals
  | internTag => exact hnode fixes_internTag
  | setMetadata => exact hhold fixes_setMetadata
  | addNamedMetadata => exact hhold fixes_addNamedMetadata
  | eraseNamedMetadata => exact hhold fixes_eraseNamedMetadata

theorem keeps_run_racked (c : Command) : Keeps (Racked B) c.run := fun s h =>
  (keeps_run_coherent c s h.1).and (ends_run_slotsGlobals h c)

theorem slotsGlobals_afterAll (hash : String → UInt64) (config : Config) (cs : List Command) :
    (afterAll { hash, config } cs).SlotsGlobals fun _ => False := by
  have hempty : Store.SlotsGlobals (fun _ => False) { hash, config } := fun g d hd _ => by
    cases (Arena.get?_empty g).symm.trans hd
  exact (keeps_afterAll keeps_run_racked cs ⟨coherent_empty hash config, hempty⟩).2

end Command

end ShaderIR
