import ShaderIR.Proofs.Coherence
import ShaderIR.Proofs.Reachable

/-! Every command keeps a coherent store coherent, however it ends. -/

namespace ShaderIR.Edit

open Store

variable {B : ValueId → Prop} {s : Store} {v b f g i : ValueId} {m : ModuleId} {ty : TypeId}
variable {o anchor : Option ValueId} {os : List (Option ValueId)} {opcode text : String}

section Placing

theorem keeps_setName_coherent : Keeps (Coherent B) (setName v text) :=
  Fixes.coherent_of_placing fixes_setName fixes_setName

theorem keeps_writeName_coherent : Keeps (Coherent B) (writeName v text) :=
  Fixes.coherent_of_placing fixes_writeName fixes_writeName

theorem keeps_insertInstruction_coherent : Keeps (Coherent B) (insertInstruction b i anchor) :=
  fixes_insertInstruction.coherent_of_core keeps_insertInstruction_listed

theorem keeps_insertInstructionBefore_coherent {a : ValueId} :
    Keeps (Coherent B) (insertInstructionBefore i a) :=
  .bind (.lift _) fun _ => .bind (.lift _) fun _ => keeps_insertInstruction_coherent

theorem keeps_removeInstruction_coherent : Keeps (Coherent B) (removeInstruction i) :=
  fixes_removeInstruction.coherent_of_core keeps_removeInstruction_listed

theorem keeps_relocateInstruction_coherent : Keeps (Coherent B) (relocateInstruction i b anchor) :=
  fixes_relocateInstruction.coherent_of_core keeps_relocateInstruction_listed

theorem keeps_insertBlock_coherent : Keeps (Coherent B) (insertBlock f b anchor) :=
  Fixes.coherent_of_placing fixes_insertBlock fixes_insertBlock

theorem keeps_removeBlock_coherent : Keeps (Coherent B) (removeBlock b) :=
  Fixes.coherent_of_placing fixes_removeBlock fixes_removeBlock

theorem keeps_relocateBlock_coherent : Keeps (Coherent B) (relocateBlock b f anchor) :=
  Fixes.coherent_of_placing fixes_relocateBlock fixes_relocateBlock

theorem keeps_appendFunction_coherent : Keeps (Coherent B) (appendFunction m f) :=
  Fixes.coherent_of_placing fixes_appendFunction fixes_appendFunction

theorem keeps_removeFunction_coherent : Keeps (Coherent B) (removeFunction f) :=
  Fixes.coherent_of_placing fixes_removeFunction fixes_removeFunction

theorem keeps_appendGlobal_coherent : Keeps (Coherent B) (appendGlobal m g) :=
  fixes_appendGlobal.coherent_of_core keeps_appendGlobal_listed

theorem keeps_removeGlobal_coherent : Keeps (Coherent B) (removeGlobal g) :=
  fixes_removeGlobal.coherent_of_core keeps_removeGlobal_listed

end Placing

section Creating

theorem keeps_createInstruction_coherent :
    Keeps (Coherent B) (createInstruction opcode ty os) := by
  intro s hs
  have hset := keeps_pushValue (d := { ty := ty, payload := .instruction none opcode })
    (.inr (.inr rfl)) rfl rfl s hs.settled
  refine Ends.bind ((ends_pushValue_coherent hs hset (by simp [Value.kind, Payload.kind])
    rfl).weaken fun _ _ h => h) ?_
  rintro i s' ⟨hs', -⟩
  refine Keeps.coherent_of (.bind (.forM (fun _ => ?_) _) fun _ => .pure _) hs' fun _ => .inl
  exact .bind (keeps_addOperand_coherent (.inr rfl)) fun _ => .pure _

theorem keeps_buildInstruction_coherent {name : Option String} {placement : Placement} :
    Keeps (Coherent B) (buildInstruction opcode ty os name placement) :=
  Carries.keeps (.buildInstruction keeps_createInstruction_coherent.carries
    keeps_setName_coherent.carries keeps_insertInstruction_coherent.carries)

theorem keeps_createDetachedBlock_coherent : Keeps (Coherent B) (createDetachedBlock text) := by
  intro s hs
  refine Ends.bind (((ends_internType hs.settled).and (keeps_internType_tabled s hs.toTabled)).mono
    (fun _ _ h => h) fun _ _ h => h.1.elim) ?_
  rintro ty s' ⟨⟨hset, hty, -⟩, htables⟩
  have hwell : Value.WellTyped s'.types { ty := ty, payload := .block none [] } :=
    ⟨fun _ => hty, by simp [Value.kind, Payload.kind], by simp [Value.kind, Payload.kind],
      by simp [Value.IsAddress]⟩
  have hset' := settled_pushValue (d := { ty := ty, payload := .block none [] }) hset hwell rfl rfl
  refine Ends.bind ((ends_pushValue_coherent ⟨htables, hset⟩ hset'
    (by simp [Value.kind, Payload.kind]) rfl).weaken fun _ _ h => h) ?_
  rintro b s'' ⟨hs'', -⟩
  exact Keeps.coherent_of (.bind keeps_writeName_coherent fun _ => .pure _) hs'' fun _ => .inl

theorem keeps_createBlock_coherent : Keeps (Coherent B) (createBlock f text) :=
  .bind keeps_createDetachedBlock_coherent fun _ => .bind keeps_insertBlock_coherent fun _ =>
    .pure _

theorem keeps_createGlobal_coherent : Keeps (Coherent B) (createGlobal m text ty o) := by
  intro s hs
  have hset := keeps_pushValue (d := { ty := ty, payload := .global none })
    (.inr (.inl rfl)) rfl rfl s hs.settled
  refine Ends.bind ((ends_pushValue_coherent hs hset (by simp [Value.kind, Payload.kind])
    rfl).weaken fun _ _ h => h) ?_
  rintro g s' ⟨hs', -⟩
  refine Keeps.coherent_of (.bind (keeps_addOperand_coherent (.inr rfl)) fun _ => ?_) hs' fun _ => .inl
  exact .bind keeps_writeName_coherent fun _ => .bind keeps_appendGlobal_coherent fun _ => .pure _

theorem keeps_createFunction_coherent : Keeps (Coherent B) (createFunction m text ty) := by
  intro s hs
  refine ends_bind.2 (ends_lift.2 ⟨fun sh hsh => ?_, fun _ _ => hs⟩)
  split
  next params hparams =>
    have hfunction : ∃ result ps, s.types.get? ty = some (.function result ps) := by
      rw [Query.shape_ok.1 hsh]
      cases sh <;> simp [TypeShape.params?] at hparams ⊢
    have hwell : Value.WellTyped s.types { ty := ty, payload := .function none [] [] } :=
      ⟨by simp [Value.kind, Payload.kind], fun _ => hfunction, by simp [Value.kind, Payload.kind],
        by simp [Value.IsAddress]⟩
    have hset := settled_pushValue (d := { ty := ty, payload := .function none [] [] }) hs.settled
      hwell rfl rfl
    refine Ends.bind ((ends_pushValue_coherent hs hset (by simp [Value.kind, Payload.kind])
      rfl).weaken fun _ _ h => h) ?_
    rintro f p ⟨hp, hf⟩
    -- While the arguments are made the function stays what it is.
    let I (s' : Store) := Coherent B s' ∧ ∃ d, s'.values.get? f = some d ∧ d.kind = .function
    have harg (x : TypeId × Nat) : Keeps I
        (pushValue { ty := x.1, payload := .argument f x.2 }) := by
      rintro s' ⟨hs', d, hd, hk⟩
      have hset := keeps_pushValue (d := { ty := x.1, payload := .argument f x.2 }) (.inl rfl) rfl
        rfl s' hs'.settled
      have hpush := ends_pushValue_coherent hs' hset (by simp [Value.kind, Payload.kind]) rfl
      obtain ⟨hpush, -⟩ := (ends_modifyGet _).1 hpush
      refine ⟨hpush.weaken fun _ => .inl, d, ?_, hk⟩
      refine (get?_pushValue ..).trans ((if_neg ?_).trans hd)
      rintro rfl
      simp at hd
    have htable : Keeps (Coherent B)
        (modify fun s => s.setTable (.function f) { separator := s.config.nameSeparator } :
          Edit Unit) :=
      Fixes.coherent_of_placing (.modify fun _ => rfl) (.modify fun _ => rfl)
    rw [ends_bind, ends_modify]
    refine Ends.bind (Ends.mono (Keeps.mapM harg params.zipIdx _ ⟨htable p (hp.weaken fun _ => .inl),
      _, hf, rfl⟩) (fun _ _ h => h) fun _ _ h => h.1) ?_
    rintro args s' ⟨hs', d, hd, hk⟩
    rw [ends_bind]
    refine (ends_modifyValue hd _).2 (Keeps.bind keeps_writeName_coherent (fun _ =>
      .bind keeps_appendFunction_coherent fun _ => .pure _) _ (hs'.of_core ?_ ?_))
    · refine Store.core_modifyValue_of_bare _ _ fun d' hd' => ?_
      obtain rfl := Option.some.inj (hd.symm.trans hd')
      obtain ⟨_, p, _, _, _⟩ := d
      cases p <;> simp [Value.kind, Payload.kind] at hk
      rfl
    · rw [Listed, Store.ledger_modifyValue]
      · exact hs'.listed
      · intro d' hd'
        obtain rfl := Option.some.inj (hd.symm.trans hd')
        obtain ⟨_, p, _, _, _⟩ := d
        cases p <;> simp [Value.kind, Payload.kind] at hk
        rfl
  next => exact hs

end Creating

section Erasing

theorem Coherent.addInstructions {insts : List ValueId} (h : Coherent B s)
    (hq : Query.blockInstructions b s = .ok insts) :
    Coherent (fun w => B w ∨ w ∈ insts) s := by
  obtain ⟨p, hp, hq⟩ := Query.bind_ok.1 hq
  obtain ⟨d, hd, rfl⟩ := Query.payload_ok.1 hp
  have hinsts : d.payload.instructions = insts := by
    cases hx : d.payload <;> simp_all [Payload.instructions]
  have hlisting : s.ledger.values.get? b = some (d.kind, insts) := by
    rw [← hinsts]
    exact (Arena.get?_map ..).trans (congrArg (Option.map _) hd)
  exact ⟨⟨h.keyed, ⟨fun hw => hw.elim h.listed.base (h.listed.instructions hlisting),
    h.listed.instructions, h.listed.globals⟩, h.wrapping⟩, h.settled⟩

theorem Coherent.addGlobals {dm : Module} (h : Coherent B s) (hm : s.modules.get? m = some dm) :
    Coherent (fun w => B w ∨ w ∈ dm.globals) s := by
  have hglobals : s.ledger.globals.get? m = some dm.globals :=
    (Arena.get?_map ..).trans (congrArg (Option.map _) hm)
  exact ⟨⟨h.keyed, ⟨fun hw => hw.elim h.listed.base (h.listed.globals hglobals),
    h.listed.instructions, h.listed.globals⟩, h.wrapping⟩, h.settled⟩

theorem keeps_nullifyBlockAddress_coherent : Keeps (Coherent B) (nullifyBlockAddress v) :=
  .bind (.lift _) fun _ => .bind keeps_constNull_coherent fun _ =>
    .bind keeps_replaceAllUses_coherent fun _ => keeps_destroyValue_coherent

theorem keeps_eraseNamedMetadata_coherent : Keeps (Coherent B) (eraseNamedMetadata m text) :=
  Fixes.coherent_of_holding fixes_eraseNamedMetadata fixes_eraseNamedMetadata
    keeps_eraseNamedMetadata

theorem keeps_clear_coherent : Keeps (Coherent B) (modifyInstructions b fun _ => []) :=
  fixes_modifyInstructions.coherent_of_core (keeps_modifyInstructions_listed
    fun _ _ hw => by cases hw)

theorem keeps_dropModule_coherent : Keeps (Coherent B) (modify fun s => { s with
    modules := s.modules.erase m
    scopes := s.scopes.erase (.module m) } : Edit Unit) :=
  Fixes.coherent_of_core (.modify fun _ => rfl) keeps_eraseModule_listed

theorem erodes_coherent : Erodes (fun _ _ => True) Coherent where
  weaken hs hB := hs.weaken hB
  instructions hs hinsts := hs.addInstructions hinsts
  globals hs hm := hs.addGlobals hm
  empty hu := (keeps_emptyOperands_coherent hu).carries
  destroy := keeps_destroyValue_coherent.carries
  nullify := keeps_nullifyBlockAddress_coherent.carries
  clear := keeps_clear_coherent.carries
  removeInstruction := keeps_removeInstruction_coherent.carries
  removeGlobal := keeps_removeGlobal_coherent.carries
  removeBlock := keeps_removeBlock_coherent.carries
  removeFunction := keeps_removeFunction_coherent.carries
  release := keeps_eraseNamedMetadata_coherent.carries
  drop := keeps_dropModule_coherent.carries

end Erasing

end ShaderIR.Edit

namespace ShaderIR.Command

open Edit

variable {B : ValueId → Prop}

theorem keeps_run_coherent (c : Command) : Keeps (Coherent B) c.run := by
  cases c with
  | internType => exact (Keeps.coherent keeps_internType keeps_internType_tabled).map _
  | constInt => exact (keeps_internScalar_coherent (by simp)).map _
  | constNull => exact keeps_constNull_coherent.map _
  | constUndefined => exact (keeps_internScalar_coherent (by simp)).map _
  | blockAddress => exact keeps_blockAddress_coherent.map _
  | setOperand => exact keeps_quiet keeps_setOperand_coherent
  | pushOperand => exact keeps_pushOperand_coherent.map _
  | dropAllReferences => exact keeps_quiet keeps_dropAllReferences_coherent
  | replaceAllUses => exact keeps_quiet keeps_replaceAllUses_coherent
  | replaceUsesIf => exact keeps_replaceUsesIf_coherent.map _
  | setName => exact keeps_quiet keeps_setName_coherent
  | takeName => exact (Fixes.coherent_of_placing fixes_takeName fixes_takeName).map _
  | createModule => exact (fixes_createModule.coherent_of_core keeps_createModule_listed).map _
  | eraseModule => exact keeps_quiet erodes_coherent.carries_eraseModule.keeps
  | createFunction => exact keeps_createFunction_coherent.map _
  | appendFunction => exact keeps_quiet keeps_appendFunction_coherent
  | removeFunction => exact keeps_quiet keeps_removeFunction_coherent
  | moveFunctionTo =>
    exact keeps_quiet (Fixes.coherent_of_placing fixes_moveFunctionTo fixes_moveFunctionTo)
  | eraseFunction => exact keeps_quiet erodes_coherent.carries_eraseFunction.keeps
  | createGlobal => exact keeps_createGlobal_coherent.map _
  | setInitializer => exact keeps_quiet keeps_setInitializer_coherent
  | appendGlobal => exact keeps_quiet keeps_appendGlobal_coherent
  | removeGlobal => exact keeps_quiet keeps_removeGlobal_coherent
  | moveGlobalTo =>
    exact keeps_quiet (fixes_moveGlobalTo.coherent_of_core keeps_moveGlobalTo_listed)
  | eraseGlobal => exact keeps_quiet erodes_coherent.carries_eraseGlobal.keeps
  | createBlock => exact keeps_createBlock_coherent.map _
  | createDetachedBlock => exact keeps_createDetachedBlock_coherent.map _
  | appendBlock => exact keeps_quiet keeps_insertBlock_coherent
  | insertBlockBefore =>
    exact keeps_quiet (.bind (.lift _) fun _ => .bind (.lift _) fun _ => keeps_insertBlock_coherent)
  | removeBlock => exact keeps_quiet keeps_removeBlock_coherent
  | moveBlockBefore =>
    exact keeps_quiet (.bind (.lift _) fun _ => .bind (.lift _) fun _ =>
      keeps_relocateBlock_coherent)
  | moveBlockTo => exact keeps_quiet keeps_relocateBlock_coherent
  | eraseBlock => exact keeps_quiet erodes_coherent.carries_eraseBlock.keeps
  | buildInstruction => exact keeps_buildInstruction_coherent.map _
  | appendInstruction => exact keeps_quiet keeps_insertInstruction_coherent
  | insertInstructionBefore => exact keeps_quiet keeps_insertInstructionBefore_coherent
  | removeInstruction => exact keeps_quiet keeps_removeInstruction_coherent
  | moveInstructionBefore =>
    exact keeps_quiet (.bind (.lift _) fun _ => .bind (.lift _) fun _ =>
      keeps_relocateInstruction_coherent)
  | moveInstructionToEnd =>
    exact keeps_quiet (.bind (.lift _) fun _ => keeps_relocateInstruction_coherent)
  | eraseInstruction => exact keeps_quiet erodes_coherent.carries_eraseInstruction.keeps
  | stringNode =>
    exact (fixes_stringNode.coherent_of_body keeps_stringNode keeps_stringNode_wrapping).map _
  | valueNode =>
    exact (fixes_valueNode.coherent_of_body keeps_valueNode keeps_valueNode_wrapping).map _
  | tuple => exact (fixes_tuple.coherent_of_body safe_tuple.keeps keeps_tuple_wrapping).map _
  | distinctTuple =>
    exact (fixes_distinctTuple.coherent_of_body safe_distinctTuple.keeps
      keeps_distinctTuple_wrapping).map _
  | temporaryTuple =>
    exact (fixes_temporaryTuple.coherent_of_body safe_temporaryTuple.keeps
      keeps_temporaryTuple_wrapping).map _
  | replaceNode => exact keeps_quiet keeps_replaceNode_coherent
  | replaceWithUniqued => exact keeps_replaceWithUniqued_coherent.map _
  | replaceWithDistinct => exact keeps_replaceWithDistinct_coherent.map _
  | eraseTemporary => exact keeps_quiet keeps_eraseTemporary_coherent
  | setNodeOperand =>
    exact keeps_quiet (fixes_setNodeOperand.coherent_of_body safe_setNodeOperand.keeps
      keeps_setNodeOperand_wrapping)
  | pushNodeOperand =>
    exact keeps_quiet (fixes_pushNodeOperand.coherent_of_body safe_pushNodeOperand.keeps
      keeps_pushNodeOperand_wrapping)
  | insertNodeOperand =>
    exact keeps_quiet (fixes_insertNodeOperand.coherent_of_body safe_insertNodeOperand.keeps
      keeps_insertNodeOperand_wrapping)
  | removeNodeOperand =>
    exact (fixes_removeNodeOperand.coherent_of_body safe_removeNodeOperand.keeps
      keeps_removeNodeOperand_wrapping).map _
  | trackHandle =>
    exact (Fixes.coherent_of_holding fixes_trackHandle fixes_trackHandle safe_trackHandle.keeps).map _
  | resetHandle =>
    exact keeps_quiet (Fixes.coherent_of_holding fixes_resetHandle fixes_resetHandle
      safe_resetHandle.keeps)
  | moveHandle =>
    exact (Fixes.coherent_of_holding fixes_moveHandle fixes_moveHandle safe_moveHandle.keeps).map _
  | releaseHandle =>
    exact keeps_quiet (Fixes.coherent_of_holding fixes_releaseHandle fixes_releaseHandle
      keeps_releaseHandle)
  | wrapperValue => exact keeps_wrapperValue_coherent.map _
  | internTag =>
    exact (Fixes.coherent_of_holding fixes_internTag fixes_internTag keeps_internTag).map _
  | setMetadata =>
    exact keeps_quiet (Fixes.coherent_of_holding fixes_setMetadata fixes_setMetadata
      safe_setMetadata.keeps)
  | addNamedMetadata =>
    exact keeps_quiet (Fixes.coherent_of_holding fixes_addNamedMetadata fixes_addNamedMetadata
      keeps_addNamedMetadata)
  | eraseNamedMetadata => exact keeps_quiet keeps_eraseNamedMetadata_coherent

theorem coherent_empty (hash : String → UInt64) (config : Config) :
    Coherent (fun _ => False) { hash, config } := by
  have hvalues (v : ValueId) : ({ hash, config } : Store).values.get? v = none :=
    Arena.get?_empty v
  have hledger : ({ hash, config } : Store).ledger = {
      values := {}, globals := {}, nodes := {}, uniqued := ∅, nodeOf := ∅ } := by
    simp [Store.ledger, Arena.map]
  refine ⟨⟨⟨fun c d hd => ?_, fun key v => ?_, fun c d hd => ?_⟩,
    ⟨False.elim, fun hd => ?_, fun hm => ?_⟩,
    ⟨⟨fun v n => ?_, fun c n => ?_, fun hn => ?_⟩, fun hn => ?_⟩⟩, Store.settled_empty hash config⟩
  · cases (hvalues c).symm.trans hd
  · rw [Store.keyOf_of_dead (hvalues v)]
    simp
  · cases (hvalues c).symm.trans hd
  · simp [hledger] at hd
  · simp [hledger] at hm
  · simp [hledger, Ledger.valueOf]
  · simp [hledger, Ledger.contentOf]
  · simp [hledger, Ledger.valueOf] at hn
  · simp [hledger] at hn

theorem coherent_afterAll (hash : String → UInt64) (config : Config) (cs : List Command) :
    Coherent (fun _ => False) (afterAll { hash, config } cs) :=
  keeps_afterAll keeps_run_coherent cs (coherent_empty hash config)

end ShaderIR.Command
