import ShaderIR.Proofs.Reachable

/-! What commands stop with. In a settled store each stops with an ordinary fault, but for the
functions and modules that are erased with names left in their scopes: the assertions of the tracker
hold, and nested replacements have room enough. -/

namespace ShaderIR

def Fault.IsReported (x : Fault) : Prop := x.IsOrdinary ∨ x.IsLeak

instance : Permits Fault.IsReported := ⟨.inl⟩

theorem Fault.IsLeak.not_isMistracking {x : Fault} (h : x.IsLeak) : ¬ x.IsMistracking := by
  unfold IsLeak at h
  split at h
  · exact id
  · exact h.elim

theorem Fault.IsReported.not_isMistracking {x : Fault} (h : x.IsReported) : ¬ x.IsMistracking :=
  h.elim (·.mistracking) (·.not_isMistracking)

namespace Edit

variable {F : Fault → Prop} {I : Store → Prop} {α : Type} {e : Edit α}
variable {v b f g i : ValueId} {m : ModuleId} {n : NodeId} {text : String}

theorem Safe.of_regular (h : Regular F e) (hk : Keeps I e) : Safe F I e := fun s hs =>
  ((h.ends s).and (hk s hs)).mono (fun _ _ h => h.2) fun _ _ h => h

theorem Safe.settled (h : ∀ L, Safe F (Store.SettledWith L) e) : Safe F Store.Settled e :=
  fun s hs => (h s.layout s ⟨hs, rfl⟩).mono (fun _ _ h => h.1) fun _ _ h => ⟨h.1, h.2.1⟩

theorem Safe.reported (h : Safe Fault.IsOrdinary I e) : Safe Fault.IsReported I e :=
  h.mono fun _ => .inl

section Erasing

theorem safe_nullifyBlockAddresses :
    Safe Fault.IsReported Store.Settled (nullifyBlockAddresses b) := by
  refine .bind (.lift Query.regular_users.fault) fun _ => .bind .get fun _ => .forM (fun _ => ?_) _
  refine .bind (.lift Query.regular_typeOf.fault) fun _ => ?_
  refine .bind (.of_regular regular_internScalar keeps_constNull) fun _ => ?_
  exact .bind (Safe.settled fun _ => safe_replaceAllUses).reported fun _ =>
    .of_regular regular_destroyValue keeps_destroyValue

theorem safe_eraseBlock : Safe Fault.IsReported Store.Settled (eraseBlock b) := by
  refine .bind (.lift Query.regular_expectKind.fault) fun _ =>
    .bind (.lift Query.regular_blockMembers.fault) fun _ =>
    .bind (.lift Query.regular_expectErasable.fault) fun _ =>
    .bind safe_nullifyBlockAddresses fun _ => .bind (.lift Query.regular_blockParent.fault) fun _ =>
    .guard (.of_regular regular_removeBlock (keeps_of_fixes fixes_removeBlock)) ?_
  exact .bind (.lift Query.regular_blockInstructions.fault) fun _ =>
    .bind (.of_regular regular_modifyInstructions (keeps_of_fixes fixes_modifyInstructions)) fun _ =>
    .bind (.forM (fun _ => .of_regular regular_emptyOperands keeps_emptyOperands) _) fun _ =>
    .bind (.forM (fun _ => .of_regular regular_destroyValue keeps_destroyValue) _) fun _ =>
    .of_regular regular_destroyValue keeps_destroyValue

theorem safe_expectEmptyScope {scope : Scope} :
    Safe Fault.IsReported I (liftM (Query.expectEmptyScope scope) : Edit Unit) := by
  rw [Query.expectEmptyScope, lift_bind]
  refine .bind (.lift Query.regular_symbols.fault) fun table => ?_
  split
  · rw [lift_bind]
    refine .bind (.lift Query.regular_scopeLabel.fault) fun label => .lift fun {s x} hx => .inr ?_
    change (if s.config.verifyScopeTeardown
      then raise (.scopeLeak label table.size) else pure () : Query Unit) s = .error x at hx
    split at hx
    · obtain rfl := Except.error.inj hx
      trivial
    · cases hx
  · exact .pure _

theorem safe_eraseFunction : Safe Fault.IsReported Store.Settled (eraseFunction f) := by
  refine .bind (.lift Query.regular_expectKind.fault) fun _ =>
    .bind (.lift Query.regular_functionMembers.fault) fun _ =>
    .bind (.lift Query.regular_expectErasable.fault) fun _ =>
    .bind (.lift Query.regular_functionModule.fault) fun _ =>
    .guard (.of_regular regular_removeFunction (keeps_of_fixes fixes_removeFunction)) ?_
  exact .bind (.of_regular regular_emptyBody keeps_emptyBody) fun _ =>
    .bind (.lift Query.regular_functionBlocks.fault) fun _ =>
    .bind (.forM (fun _ => safe_eraseBlock) _) fun _ =>
    .bind (.lift Query.regular_functionArguments.fault) fun _ =>
    .bind (.forM (fun _ => .of_regular regular_destroyValue keeps_destroyValue) _) fun _ =>
    .bind safe_expectEmptyScope fun _ => .of_regular regular_destroyValue keeps_destroyValue

theorem safe_eraseModule : Safe Fault.IsReported Store.Settled (eraseModule m) := by
  refine .bind (.lift Query.regular_module.fault) fun _ =>
    .bind (.lift Query.regular_moduleMembers.fault) fun _ =>
    .bind (.lift Query.regular_expectErasable.fault) fun _ =>
    .bind (.forM (fun _ => .of_regular regular_emptyBody keeps_emptyBody) _) fun _ =>
    .bind (.forM (fun _ => .of_regular regular_emptyOperands keeps_emptyOperands) _) fun _ =>
    .bind (.forM (fun _ => safe_eraseFunction) _) fun _ =>
    .bind (.forM (fun _ => .of_regular regular_eraseGlobal keeps_eraseGlobal) _) fun _ =>
    .bind (.lift Query.regular_namedMetadataNames.fault) fun _ =>
    .bind (.forM (fun _ => .of_regular regular_eraseNamedMetadata keeps_eraseNamedMetadata) _)
      fun _ => ?_
  exact .bind safe_expectEmptyScope fun _ =>
    .of_regular (.modify fun _ _ => rfl) (erodes_settled.drop (B := fun _ => False)).keeps

end Erasing

theorem safe_addNamedMetadata :
    Safe Fault.IsOrdinary Store.Settled (addNamedMetadata m text n) :=
  .bind (.lift Query.regular_module.fault) fun _ => .bind safe_trackHandle fun _ =>
    .of_regular regular_modifyModule (keeps_of_fixes (fixes_modifyModule fun _ => rfl))

theorem safe_replaceWithUniqued {L : Layout} :
    Safe Fault.IsOrdinary (Store.SettledWith L) (replaceWithUniqued n) := by
  intro s hs
  have hfault : Ends (replaceWithUniqued n) s (fun _ _ => True) fun x _ => x.IsOrdinary := by
    refine Query.regular_expectTemporary.ends_bind (fun _ hx => hx) fun _ _ => ?_
    refine Query.regular_node.ends_bind (fun _ hx => hx) fun d _ => ?_
    rw [ends_bind, ends_get]
    split
    · refine Ends.bind ((safe_replaceNode s hs).mono (fun _ _ h => h) fun _ _ h => h.1)
        fun _ p _ => ?_
      exact Ends.bind (regular_eraseTemporary.ends p) fun _ _ _ => trivial
    · exact Ends.bind (regular_settle.ends s) fun _ _ _ => trivial
  exact (hfault.and (keeps_replaceWithUniqued s hs)).mono (fun _ _ h => h.2) fun _ _ h => h

end Edit

namespace Command

open Edit

variable {F : Fault → Prop} {I : Store → Prop}

def tracks : Command → Bool
  | .replaceAllUses .. | .replaceUsesIf .. | .eraseModule _ | .eraseFunction _ | .eraseBlock _
  | .tuple _ | .distinctTuple _ | .temporaryTuple _ | .replaceNode .. | .replaceWithUniqued _
  | .setNodeOperand .. | .pushNodeOperand .. | .insertNodeOperand .. | .removeNodeOperand ..
  | .trackHandle _ | .resetHandle .. | .moveHandle _ | .wrapperValue _ | .setMetadata ..
  | .addNamedMetadata .. => true
  | _ => false

def tearsDown : Command → Bool
  | .eraseModule _ | .eraseFunction _ => true
  | _ => false

theorem tracks_of_tearsDown {c : Command} (h : c.tearsDown) : c.tracks := by
  cases c <;> first | rfl | cases h

theorem regular_quiet {e : Edit Unit} (h : Regular F e) : Regular F (quiet e) :=
  .bind h fun _ => .pure _

theorem regular_run [Permits F] (c : Command) (ht : c.tracks → PermitsInternal F)
    (hd : c.tearsDown → F = Fault.IsAny) : Regular F c.run := by
  cases c with
  | internType => exact regular_internType.map _
  | constInt => exact regular_internScalar.map _
  | constNull => exact regular_internScalar.map _
  | constUndefined => exact regular_internScalar.map _
  | blockAddress => exact regular_blockAddress.map _
  | setOperand => exact regular_quiet regular_setOperand
  | pushOperand => exact regular_pushOperand.map _
  | dropAllReferences => exact regular_quiet regular_dropAllReferences
  | replaceAllUses =>
    have := ht rfl
    exact regular_quiet regular_replaceAllUses
  | replaceUsesIf =>
    have := ht rfl
    exact regular_replaceUsesIf.map _
  | setName => exact regular_quiet regular_setName
  | takeName => exact regular_takeName.map _
  | createModule => exact regular_createModule.map _
  | eraseModule =>
    obtain rfl := hd rfl
    exact regular_quiet regular_eraseModule
  | createFunction => exact regular_createFunction.map _
  | appendFunction => exact regular_quiet regular_appendFunction
  | removeFunction => exact regular_quiet regular_removeFunction
  | moveFunctionTo => exact regular_quiet regular_moveFunctionTo
  | eraseFunction =>
    obtain rfl := hd rfl
    exact regular_quiet regular_eraseFunction
  | createGlobal => exact regular_createGlobal.map _
  | setInitializer => exact regular_quiet regular_setInitializer
  | appendGlobal => exact regular_quiet regular_appendGlobal
  | removeGlobal => exact regular_quiet regular_removeGlobal
  | moveGlobalTo => exact regular_quiet regular_moveGlobalTo
  | eraseGlobal => exact regular_quiet regular_eraseGlobal
  | createBlock => exact regular_createBlock.map _
  | createDetachedBlock => exact regular_createDetachedBlock.map _
  | appendBlock => exact regular_quiet regular_insertBlock
  | insertBlockBefore => exact regular_quiet regular_insertBlockBefore
  | removeBlock => exact regular_quiet regular_removeBlock
  | moveBlockBefore => exact regular_quiet regular_moveBlockBefore
  | moveBlockTo => exact regular_quiet regular_relocateBlock
  | eraseBlock =>
    have := ht rfl
    exact regular_quiet regular_eraseBlock
  | buildInstruction => exact regular_buildInstruction.map _
  | appendInstruction => exact regular_quiet regular_insertInstruction
  | insertInstructionBefore => exact regular_quiet regular_insertInstructionBefore
  | removeInstruction => exact regular_quiet regular_removeInstruction
  | moveInstructionBefore => exact regular_quiet regular_moveInstructionBefore
  | moveInstructionToEnd => exact regular_quiet regular_moveInstructionToEnd
  | eraseInstruction => exact regular_quiet regular_eraseInstruction
  | stringNode => exact regular_stringNode.map _
  | valueNode => exact regular_valueNode.map _
  | tuple =>
    have := ht rfl
    exact regular_tuple.map _
  | distinctTuple =>
    have := ht rfl
    exact regular_distinctTuple.map _
  | temporaryTuple =>
    have := ht rfl
    exact regular_temporaryTuple.map _
  | replaceNode =>
    have := ht rfl
    exact regular_quiet regular_replaceNode
  | replaceWithUniqued =>
    have := ht rfl
    exact regular_replaceWithUniqued.map _
  | replaceWithDistinct => exact regular_replaceWithDistinct.map _
  | eraseTemporary => exact regular_quiet regular_eraseTemporary
  | setNodeOperand =>
    have := ht rfl
    exact regular_quiet regular_setNodeOperand
  | pushNodeOperand =>
    have := ht rfl
    exact regular_quiet regular_pushNodeOperand
  | insertNodeOperand =>
    have := ht rfl
    exact regular_quiet regular_insertNodeOperand
  | removeNodeOperand =>
    have := ht rfl
    exact regular_removeNodeOperand.map _
  | trackHandle =>
    have := ht rfl
    exact regular_trackHandle.map _
  | resetHandle =>
    have := ht rfl
    exact regular_quiet regular_resetHandle
  | moveHandle =>
    have := ht rfl
    exact regular_moveHandle.map _
  | releaseHandle => exact regular_quiet regular_releaseHandle
  | wrapperValue =>
    have := ht rfl
    exact regular_wrapperValue.map _
  | internTag => exact regular_internTag.map _
  | setMetadata =>
    have := ht rfl
    exact regular_quiet regular_setMetadata
  | addNamedMetadata =>
    have := ht rfl
    exact regular_quiet regular_addNamedMetadata
  | eraseNamedMetadata => exact regular_quiet regular_eraseNamedMetadata

theorem safe_quiet {e : Edit Unit} (h : Safe F I e) : Safe F I (quiet e) := .bind h fun _ => .pure _

theorem safe_run (c : Command) : Safe Fault.IsReported Store.Settled c.run := by
  by_cases h : c.tracks
  · cases c with
    | replaceAllUses => exact safe_quiet (Safe.settled fun _ => safe_replaceAllUses).reported
    | replaceUsesIf => exact (Safe.settled fun _ => safe_replaceUsesIf).reported.map _
    | eraseModule => exact safe_quiet safe_eraseModule
    | eraseFunction => exact safe_quiet safe_eraseFunction
    | eraseBlock => exact safe_quiet safe_eraseBlock
    | tuple => exact safe_tuple.reported.map _
    | distinctTuple => exact safe_distinctTuple.reported.map _
    | temporaryTuple => exact safe_temporaryTuple.reported.map _
    | replaceNode => exact safe_quiet (Safe.settled fun _ => safe_replaceNode).reported
    | replaceWithUniqued => exact (Safe.settled fun _ => safe_replaceWithUniqued).reported.map _
    | setNodeOperand => exact safe_quiet safe_setNodeOperand.reported
    | pushNodeOperand => exact safe_quiet safe_pushNodeOperand.reported
    | insertNodeOperand => exact safe_quiet safe_insertNodeOperand.reported
    | removeNodeOperand => exact safe_removeNodeOperand.reported.map _
    | trackHandle => exact safe_trackHandle.reported.map _
    | resetHandle => exact safe_quiet safe_resetHandle.reported
    | moveHandle => exact safe_moveHandle.reported.map _
    | wrapperValue => exact safe_wrapperValue.reported.map _
    | setMetadata => exact safe_quiet safe_setMetadata.reported
    | addNamedMetadata => exact safe_quiet safe_addNamedMetadata.reported
    | _ => exact absurd h (by simp [tracks])
  · exact .of_regular (regular_run c (fun ht => absurd ht h)
      fun hd => absurd (tracks_of_tearsDown hd) h) (keeps_run c)

end Command

end ShaderIR
