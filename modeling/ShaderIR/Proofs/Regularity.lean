import ShaderIR.Proofs.Faults

/-! Which edits stop with ordinary faults only. Of those that change no tracked location and replace
nothing this shows from what they consist of. Every edit but erasing a function or a module does the
same whether scopes are verified when they go away or not. -/

namespace ShaderIR.Edit

variable {F : Fault → Prop} {α β : Type}

/-- An edit that stops only with certain faults, and that does the same whether scopes are verified
when they go away or not, unless one is found with names left in it. -/
structure Regular (F : Fault → Prop) (e : Edit α) : Prop where
  fault : ∀ {s x s'}, e s = .error x s' → F x
  blind : ∀ b, Alike Fault.IsLeak (Store.withTeardown b) e e

namespace Regular

variable {e : Edit α} {f : α → Edit β}

theorem ends (h : Regular F e) (s : Store) : Ends e s (fun _ _ => True) fun x _ => F x := by
  unfold Ends
  cases he : e s with
  | ok => trivial
  | error => exact h.fault he

theorem ends_of {s : Store} {Q : α → Store → Prop} {E : Fault → Store → Prop} (h : Regular F e)
    (he : Ends e s Q E) : Ends e s Q fun x _ => F x :=
  (he.and (h.ends s)).mono (fun _ _ h => h.1) fun _ _ h => h.2

theorem pure (a : α) : Regular F (Pure.pure a : Edit α) := ⟨fun h => (by cases h), fun _ => .pure a⟩

theorem throw {x : Fault} (h : F x) : Regular F (throw x : Edit α) :=
  ⟨fun hx => by cases hx; exact h, fun _ => .throw x⟩

theorem raise [Permits F] {v : Violation} (h : (Fault.violation v).IsOrdinary) :
    Regular F (raise v : Edit α) := throw (Permits.ordinary h)

theorem lift {q : Query α} (h : q.Regular F) : Regular F (liftM q : Edit α) := by
  refine ⟨fun {s x s'} hx => ?_, fun b => .lift (h.blind b)⟩
  change Query.asEdit q s = _ at hx
  unfold Query.asEdit at hx
  cases hq : q s with
  | ok a =>
    rw [hq] at hx
    cases hx
  | error y =>
    rw [hq] at hx
    cases hx
    exact h.fault hq

theorem bind (he : Regular F e) (hf : ∀ a, Regular F (f a)) : Regular F (e >>= f) := by
  refine ⟨fun {s x s'} hx => ?_, fun b => (he.blind b).bind fun a => (hf a).blind b⟩
  have hends : Ends (e >>= f) s (fun _ _ => True) fun x _ => F x :=
    (he.ends s).bind fun a s' _ => (hf a).ends s'
  exact hends.of_error hx

theorem get_bind {k : Store → Edit β} (hk : ∀ s, Regular F (k s))
    (hb : ∀ b s, k (s.withTeardown b) = k s) : Regular F (get >>= k) :=
  ⟨fun {s _ _} hx => (hk s).fault hx, fun b => .get_bind fun s => by
    rw [hb]
    exact (hk s).blind b⟩

theorem modify {g : Store → Store} (h : ∀ b s, g (s.withTeardown b) = (g s).withTeardown b) :
    Regular F (modify g : Edit Unit) := ⟨fun hx => (by cases hx), fun b => .modify (h b)⟩

theorem modifyGet {g : Store → α × Store}
    (h : ∀ b s, g (s.withTeardown b) = ((g s).1, (g s).2.withTeardown b)) :
    Regular F (modifyGet g : Edit α) := ⟨fun hx => (by cases hx), fun b => .modifyGet (h b)⟩

theorem map (he : Regular F e) (g : α → β) : Regular F (g <$> e) := by
  rw [map_eq_pure_bind]
  exact he.bind fun a => .pure (g a)

theorem ite {p : Prop} [Decidable p] {d : Edit α} (he : Regular F e) (hd : Regular F d) :
    Regular F (if p then e else d) := by
  split
  · exact he
  · exact hd

theorem guard {p : Prop} [Decidable p] {d : Edit Unit} {k : Unit → Edit β}
    (hd : Regular F d) (hk : Regular F (k ())) : Regular F (if p then d >>= k else k ()) :=
  .ite (.bind hd fun _ => hk) hk

theorem forM {f : α → Edit Unit} (h : ∀ a, Regular F (f a)) (as : List α) :
    Regular F (as.forM f) := by
  induction as with
  | nil => exact .pure ()
  | cons a rest ih => exact (h a).bind fun _ => ih

theorem mapM {f : α → Edit β} (h : ∀ a, Regular F (f a)) (as : List α) :
    Regular F (as.mapM f) := by
  induction as with
  | nil => exact .pure []
  | cons a rest ih =>
    rw [List.mapM_cons]
    exact (h a).bind fun b => ih.bind fun bs => .pure (b :: bs)

theorem foldlM {f : β → α → Edit β} (h : ∀ b a, Regular F (f b a)) (as : List α) (b : β) :
    Regular F (as.foldlM f b) := by
  induction as generalizing b with
  | nil => exact .pure b
  | cons a rest ih =>
    rw [List.foldlM_cons]
    exact (h b a).bind fun b' => ih b'

end Regular

theorem lift_bind (q : Query α) (f : α → Query β) :
    (liftM (q >>= f) : Edit β) = (liftM q >>= fun a => liftM (f a)) := by
  funext s
  change Query.asEdit (fun s => (q s).bind fun a => f a s) s =
    EStateM.bind (Query.asEdit q) (fun a => Query.asEdit (f a)) s
  dsimp only [Query.asEdit, EStateM.bind]
  cases q s <;> rfl

variable {v b i f g u old new w : ValueId} {m : ModuleId} {n k : NodeId} {l : Location}
variable {o : Option ValueId} {target : Option NodeId} {anchor : Option ValueId} {ty : TypeId}
variable {text : String}

theorem regular_internType {sh : TypeShape} : Regular F (internType sh) :=
  .modifyGet fun _ _ => rfl

theorem regular_pushValue {d : Value} : Regular F (pushValue d) := .modifyGet fun _ _ => rfl

theorem regular_pushNode {d : Node} : Regular F (pushNode d) := .modifyGet fun _ _ => rfl

theorem regular_pushHandle : Regular F (pushHandle target) := .modifyGet fun _ _ => rfl

theorem regular_putHandle {h : HandleId} : Regular F (putHandle h target) := .modify fun _ _ => rfl

theorem regular_unlink {e : EdgeId} : Regular F (unlink e) := .modify fun _ _ => rfl

theorem regular_setTracker {t : Tracker} : Regular F (setTracker t) := .modify fun _ _ => rfl

theorem regular_makeReplaceable : Regular F (makeReplaceable n) :=
  .get_bind (fun _ => regular_setTracker) fun _ _ => rfl

theorem regular_untrack : Regular F (untrack l n) :=
  .get_bind (fun _ => regular_setTracker) fun _ _ => rfl

theorem regular_untrackOption : Regular F (untrackOption l target) := by
  cases target with
  | none => exact .pure _
  | some n => exact regular_untrack

theorem regular_forgetConstant {key : ConstantKey} : Regular F (forgetConstant key v) := by
  refine .modify fun b s => ?_
  rw [apply_ite (Store.withTeardown b)]
  rfl

theorem regular_dropValueNode : Regular F (dropValueNode v) := by
  refine .get_bind (fun s => ?_) fun _ _ => rfl
  split
  · exact .pure _
  · exact .modify fun _ _ => rfl

theorem regular_createModule : Regular F (createModule text) := .modifyGet fun _ _ => rfl

theorem regular_internTag : Regular F (internTag text) := by
  refine .get_bind (fun s => ?_) fun _ _ => rfl
  dsimp only
  split
  · exact .pure _
  · exact .bind (.modify fun _ _ => rfl) fun _ => .pure _

theorem regular_internScalar {data : ConstantData} : Regular F (internScalar ty data) := by
  refine .get_bind (fun s => ?_) fun _ _ => rfl
  split
  · exact .pure _
  · exact .bind regular_pushValue fun _ => .bind (.modify fun _ _ => rfl) fun _ => .pure _

section Ordinary

variable [Permits F]

theorem regular_modifyValue {k : Value → Value} : Regular F (modifyValue v k) :=
  .bind (.lift Query.regular_value) fun _ => .modify fun _ _ => rfl

theorem regular_modifyModule {k : Module → Module} : Regular F (modifyModule m k) :=
  .bind (.lift Query.regular_module) fun _ => .modify fun _ _ => rfl

theorem regular_modifyNode {k : Node → Node} : Regular F (modifyNode n k) :=
  .bind (.lift Query.regular_node) fun _ => .modify fun _ _ => rfl

section Operands

theorem regular_link {e : EdgeId} : Regular F (link e v) :=
  .bind (.lift Query.regular_value) fun _ => .modify fun _ _ => rfl

theorem regular_linkTo {e : EdgeId} : Regular F (linkTo e o) := by
  cases o with
  | none => exact .pure _
  | some v => exact regular_link

theorem regular_addOperand : Regular F (addOperand u o) :=
  .bind (.lift Query.regular_operandCount) fun _ => .bind (.modifyGet fun _ _ => rfl) fun _ =>
    .bind regular_linkTo fun _ => .pure _

theorem regular_putOperand {slot : Nat} : Regular F (putOperand u slot o) :=
  .bind (.lift Query.regular_operandEdge) fun _ => .get_bind
    (fun _ => .ite (.bind regular_unlink fun _ => regular_linkTo) (.pure _)) fun _ _ => rfl

theorem regular_emptyOperands : Regular F (emptyOperands u) :=
  .bind (.lift Query.regular_operandCount) fun _ => .forM (fun _ => regular_putOperand) _

theorem regular_setOperand {slot : Nat} : Regular F (setOperand u slot o) :=
  .bind (.lift Query.regular_expectMutableOperands) fun _ => regular_putOperand

theorem regular_pushOperand : Regular F (pushOperand u o) :=
  .bind (.lift Query.regular_expectMutableOperands) fun _ =>
    .bind (.lift Query.regular_expectKind) fun _ => regular_addOperand

theorem regular_dropAllReferences : Regular F (dropAllReferences u) :=
  .bind (.lift Query.regular_expectMutableOperands) fun _ => regular_emptyOperands

theorem regular_setInitializer : Regular F (setInitializer g o) :=
  .bind (.lift Query.regular_expectKind) fun _ => regular_putOperand

theorem regular_blockAddress : Regular F (blockAddress f b) := by
  refine .bind (.lift Query.regular_expectKind) fun _ => .bind (.lift Query.regular_expectKind)
    fun _ => .get_bind (fun s => ?_) fun _ _ => rfl
  split
  · exact .pure _
  · exact .bind regular_internType fun _ => .bind regular_pushValue fun _ =>
      .bind regular_addOperand fun _ => .bind regular_addOperand fun _ =>
        .bind (.modify fun _ _ => rfl) fun _ => .pure _

end Operands

section Naming

theorem regular_registerName : Regular F (registerName v) := by
  refine .bind (.lift Query.regular_scopeOf) fun scope => ?_
  split
  · refine .bind (.lift Query.regular_name) fun name => ?_
    split
    · refine .bind regular_modifyValue fun _ => .bind (.lift Query.regular_symbols) fun table => ?_
      refine .get_bind (fun s => .bind (.modify fun _ _ => rfl) fun _ => ?_) fun _ _ => rfl
      split
      · exact .throw (Permits.ordinary ⟨id, id, id⟩)
      · exact regular_modifyValue
    · exact .pure _
  · exact .pure _

theorem regular_unregisterName : Regular F (unregisterName v) := by
  refine .bind (.lift Query.regular_value) fun d => .ite (.pure _)
    (.bind (.lift Query.regular_scopeOf) fun scope => ?_)
  split
  · exact .bind (.lift Query.regular_symbols) fun _ => .ite (.modify fun _ _ => rfl) (.pure _)
  · exact .pure _

theorem regular_writeName : Regular F (writeName v text) :=
  .ite (.pure _) (.get_bind (fun _ => regular_modifyValue) fun _ _ => rfl)

theorem regular_setName : Regular F (setName v text) :=
  .bind (.lift Query.regular_kind) fun _ => .guard (.raise ⟨id, id, id⟩)
    (.bind regular_unregisterName fun _ => .bind regular_modifyValue fun _ =>
      .bind regular_writeName fun _ => regular_registerName)

theorem regular_takeName : Regular F (takeName v) :=
  .bind regular_unregisterName fun _ => .bind (.lift Query.regular_name) fun _ =>
    .bind regular_modifyValue fun _ => .pure _

end Naming

section Instructions

theorem regular_createInstruction {opcode : String} {os : List (Option ValueId)} :
    Regular F (createInstruction opcode ty os) :=
  .bind regular_pushValue fun _ => .bind
    (.forM (fun _ => .bind regular_addOperand fun _ => .pure _) _) fun _ => .pure _

theorem regular_modifyInstructions {k : List ValueId → List ValueId} :
    Regular F (modifyInstructions b k) :=
  .bind (.lift Query.regular_expectKind) fun _ => regular_modifyValue

theorem regular_placeInstruction : Regular F (placeInstruction b i anchor) :=
  .bind regular_modifyValue fun _ => regular_modifyInstructions

theorem regular_insertInstruction : Regular F (insertInstruction b i anchor) :=
  .bind (.lift Query.regular_expectKind) fun _ => .bind (.lift Query.regular_instructionParent)
    fun _ => .guard (.raise ⟨id, id, id⟩)
      (.bind regular_placeInstruction fun _ => regular_registerName)

theorem regular_insertInstructionBefore {a : ValueId} :
    Regular F (insertInstructionBefore i a) :=
  .bind (.lift Query.regular_expectDistinct) fun _ => .bind (.lift Query.regular_anchorBlock)
    fun _ => regular_insertInstruction

theorem regular_removeInstruction : Regular F (removeInstruction i) := by
  refine .bind (.lift Query.regular_instructionParent) fun b => ?_
  split
  · exact .bind regular_unregisterName fun _ => .bind regular_modifyInstructions fun _ =>
      regular_modifyValue
  · exact .raise ⟨id, id, id⟩

theorem regular_relocateInstruction : Regular F (relocateInstruction i b anchor) := by
  refine .bind (.lift Query.regular_instructionParent) fun current => ?_
  split
  · exact regular_insertInstruction
  · refine .bind (.lift Query.regular_shareFunction) fun shared => .ite ?_ ?_
    · exact .bind regular_modifyInstructions fun _ => regular_placeInstruction
    · exact .bind regular_removeInstruction fun _ => regular_insertInstruction

theorem regular_moveInstructionBefore {a : ValueId} : Regular F (moveInstructionBefore i a) :=
  .bind (.lift Query.regular_expectDistinct) fun _ => .bind (.lift Query.regular_anchorBlock)
    fun _ => regular_relocateInstruction

theorem regular_moveInstructionToEnd : Regular F (moveInstructionToEnd i b) :=
  .bind (.lift Query.regular_expectKind) fun _ => regular_relocateInstruction

theorem regular_buildInstruction {opcode : String} {os : List (Option ValueId)}
    {name : Option String} {placement : Placement} :
    Regular F (buildInstruction opcode ty os name placement) := by
  refine .bind regular_createInstruction fun i => ?_
  cases name with
  | none =>
    cases placement with
    | floating => exact .pure _
    | append b => exact .bind regular_insertInstruction fun _ => .pure _
    | before a => exact .bind regular_insertInstructionBefore fun _ => .pure _
  | some text =>
    refine .bind regular_setName fun _ => ?_
    cases placement with
    | floating => exact .pure _
    | append b => exact .bind regular_insertInstruction fun _ => .pure _
    | before a => exact .bind regular_insertInstructionBefore fun _ => .pure _

end Instructions

section Blocks

theorem regular_createDetachedBlock : Regular F (createDetachedBlock text) :=
  .bind regular_internType fun _ => .bind regular_pushValue fun _ =>
    .bind regular_writeName fun _ => .pure _

theorem regular_modifyBlocks {k : List ValueId → List ValueId} : Regular F (modifyBlocks f k) :=
  .bind (.lift Query.regular_expectKind) fun _ => regular_modifyValue

theorem regular_insertBlock : Regular F (insertBlock f b anchor) :=
  .bind (.lift Query.regular_expectKind) fun _ => .bind (.lift Query.regular_blockParent)
    fun _ => .guard (.raise ⟨id, id, id⟩) (.bind regular_modifyValue fun _ =>
      .bind regular_modifyBlocks fun _ => .bind regular_registerName fun _ =>
        .bind (.lift Query.regular_blockInstructions) fun _ =>
          .forM (fun _ => regular_registerName) _)

theorem regular_createBlock : Regular F (createBlock f text) :=
  .bind regular_createDetachedBlock fun _ => .bind regular_insertBlock fun _ => .pure _

theorem regular_insertBlockBefore {a : ValueId} : Regular F (insertBlockBefore b a) :=
  .bind (.lift Query.regular_expectDistinct) fun _ => .bind (.lift Query.regular_anchorFunction)
    fun _ => regular_insertBlock

theorem regular_removeBlock : Regular F (removeBlock b) := by
  refine .bind (.lift Query.regular_blockParent) fun f => ?_
  split
  · exact .bind (.lift Query.regular_blockInstructions) fun _ =>
      .bind (.forM (fun _ => regular_unregisterName) _) fun _ =>
        .bind regular_unregisterName fun _ => .bind regular_modifyBlocks fun _ =>
          regular_modifyValue
  · exact .raise ⟨id, id, id⟩

theorem regular_relocateBlock : Regular F (relocateBlock b f anchor) := by
  refine .bind (.lift Query.regular_blockParent) fun current => ?_
  split
  · exact regular_insertBlock
  · exact .ite regular_modifyBlocks (.bind regular_removeBlock fun _ => regular_insertBlock)

theorem regular_moveBlockBefore {a : ValueId} : Regular F (moveBlockBefore b a) :=
  .bind (.lift Query.regular_expectDistinct) fun _ => .bind (.lift Query.regular_anchorFunction)
    fun _ => regular_relocateBlock

end Blocks

section Modules

theorem regular_appendFunction : Regular F (appendFunction m f) :=
  .bind (.lift Query.regular_module) fun _ => .bind (.lift Query.regular_functionModule)
    fun _ => .guard (.raise ⟨id, id, id⟩) (.bind regular_modifyValue fun _ =>
      .bind regular_modifyModule fun _ => regular_registerName)

theorem regular_removeFunction : Regular F (removeFunction f) := by
  refine .bind (.lift Query.regular_functionModule) fun m => ?_
  split
  · exact .bind regular_unregisterName fun _ => .bind regular_modifyModule fun _ =>
      regular_modifyValue
  · exact .raise ⟨id, id, id⟩

theorem regular_moveFunctionTo : Regular F (moveFunctionTo f m) := by
  refine .bind (.lift Query.regular_functionModule) fun current => ?_
  split
  · exact regular_appendFunction
  · exact .ite regular_modifyModule (.bind regular_removeFunction fun _ => regular_appendFunction)

theorem regular_createFunction : Regular F (createFunction m text ty) := by
  refine .bind (.lift Query.regular_shape) fun sh => ?_
  split
  · exact .bind regular_pushValue fun _ => .bind (.modify fun _ _ => rfl) fun _ =>
      .bind (.mapM (fun _ => regular_pushValue) _) fun _ => .bind regular_modifyValue fun _ =>
        .bind regular_writeName fun _ => .bind regular_appendFunction fun _ => .pure _
  · exact .raise ⟨id, id, id⟩

theorem regular_appendGlobal : Regular F (appendGlobal m g) :=
  .bind (.lift Query.regular_module) fun _ => .bind (.lift Query.regular_globalModule)
    fun _ => .guard (.raise ⟨id, id, id⟩) (.bind regular_modifyValue fun _ =>
      .bind regular_modifyModule fun _ => regular_registerName)

theorem regular_removeGlobal : Regular F (removeGlobal g) := by
  refine .bind (.lift Query.regular_globalModule) fun m => ?_
  split
  · exact .bind regular_unregisterName fun _ => .bind regular_modifyModule fun _ =>
      regular_modifyValue
  · exact .raise ⟨id, id, id⟩

theorem regular_moveGlobalTo : Regular F (moveGlobalTo g m) :=
  .bind (.lift Query.regular_globalModule) fun _ =>
    .guard regular_removeGlobal regular_appendGlobal

theorem regular_createGlobal : Regular F (createGlobal m text ty o) :=
  .bind regular_pushValue fun _ => .bind regular_addOperand fun _ =>
    .bind regular_writeName fun _ => .bind regular_appendGlobal fun _ => .pure _

end Modules

section Nodes

theorem regular_expectNode : Regular F (expectNode target) := by
  cases target with
  | none => exact .pure _
  | some n => exact .bind (.lift Query.regular_node) fun _ => .pure _

omit [Permits F] in
theorem regular_internNode {c : Content} {register : NodeId → Edit Unit}
    (h : ∀ n, Regular F (register n)) : Regular F (internNode c register) := by
  refine .get_bind (fun s => ?_) fun _ _ => rfl
  split
  · exact .pure _
  · exact .bind regular_pushNode fun n => .bind (.modify fun _ _ => rfl) fun _ =>
      .bind (h n) fun _ => .pure _

omit [Permits F] in
theorem regular_stringNode : Regular F (stringNode text) := regular_internNode fun _ => .pure _

theorem regular_valueNode : Regular F (valueNode v) := by
  refine .bind (.lift Query.regular_kind) fun kind => ?_
  refine .guard (.throw (Permits.ordinary ⟨id, id, id⟩)) (.get_bind (fun s => ?_) fun _ _ => rfl)
  split
  · exact .pure _
  · exact .bind regular_pushNode fun _ => .bind (.modify fun _ _ => rfl) fun _ =>
      .bind regular_makeReplaceable fun _ => .pure _

theorem regular_releaseHandle {h : HandleId} : Regular F (releaseHandle h) :=
  .bind (.lift Query.regular_handle) fun _ => .bind regular_untrackOption fun _ =>
    .modify fun _ _ => rfl

theorem regular_eraseNamedMetadata : Regular F (eraseNamedMetadata m text) := by
  refine .bind (.lift Query.regular_module) fun d => ?_
  split
  · exact .pure _
  · exact .bind regular_modifyModule fun _ => .forM (fun _ => regular_releaseHandle) _

theorem regular_eraseTemporary : Regular F (eraseTemporary n) :=
  .bind (.lift Query.regular_expectTemporary) fun _ => .get_bind (fun _ => .guard
    (.raise ⟨id, id, id⟩) (.bind (.bind (.lift Query.regular_nodeOperands) fun _ =>
      .forM (fun _ => regular_untrackOption) _) fun _ => .modify fun _ _ => rfl))
    fun _ _ => rfl

theorem regular_settle {k : Storage} : Regular F (settle n k) :=
  .bind regular_modifyNode fun _ => .get_bind (fun _ => regular_setTracker) fun _ _ => rfl

theorem regular_replaceWithDistinct : Regular F (replaceWithDistinct n) :=
  .bind (.lift Query.regular_expectTemporary) fun _ => .bind regular_settle fun _ => .pure _

end Nodes

section Destruction

theorem regular_clearAttachments : Regular F (clearAttachments v) :=
  .bind (.lift Query.regular_attachments) fun _ => .bind regular_modifyValue fun _ =>
    .forM (fun _ => regular_untrack) _

theorem regular_dropUntrackedNode : Regular F (dropUntrackedNode v) := by
  refine .get_bind (fun s => ?_) fun _ _ => rfl
  split
  · exact .pure _
  · exact .get_bind (fun _ => .guard (.raise ⟨id, id, id⟩) regular_dropValueNode) fun _ _ => rfl

theorem regular_dropWrapper : Regular F (dropWrapper v) := by
  refine .bind (.lift Query.regular_wrappedNode) fun n => ?_
  split
  · exact .pure _
  · exact .bind regular_untrack fun _ => .modify fun _ _ => rfl

theorem regular_destroyValue : Regular F (destroyValue v) := by
  refine .bind (.lift Query.regular_kind) fun _ => .bind (.lift Query.regular_useCount) fun _ =>
    .guard (.raise ⟨id, id, id⟩) (.bind regular_dropUntrackedNode fun _ =>
      .bind (.lift Query.regular_constantKey) fun key => ?_)
  have htail : Regular F (do
      unregisterName v
      modify (·.modifyUses (·.clearSlots v))
      clearAttachments v
      dropWrapper v
      modify fun s => { s with
        values := s.values.erase v
        scopes := s.scopes.erase (.function v) } : Edit Unit) :=
    .bind regular_unregisterName fun _ => .bind (.modify fun _ _ => rfl) fun _ =>
      .bind regular_clearAttachments fun _ => .bind regular_dropWrapper fun _ =>
        .modify fun _ _ => rfl
  split
  · exact .bind regular_forgetConstant fun _ => htail
  · exact htail

theorem regular_eraseInstruction : Regular F (eraseInstruction i) :=
  .bind (.lift Query.regular_expectUnused) fun _ => .bind (.lift Query.regular_instructionParent)
    fun _ => .guard regular_removeInstruction regular_destroyValue

theorem regular_eraseGlobal : Regular F (eraseGlobal g) :=
  .bind (.lift Query.regular_expectUnused) fun _ => .bind (.lift Query.regular_globalModule)
    fun _ => .guard regular_removeGlobal regular_destroyValue

theorem regular_emptyBody : Regular F (emptyBody f) :=
  .bind (.lift Query.regular_functionBlocks) fun _ => .forM (fun _ =>
    .bind (.lift Query.regular_blockInstructions) fun _ =>
      .forM (fun _ => regular_emptyOperands) _) _

end Destruction

end Ordinary

section Contained

variable [PermitsInternal F]

section Tracking

theorem regular_track : Regular F (track l n) := by
  refine .get_bind (fun s => ?_) fun _ _ => rfl
  split
  · exact regular_setTracker
  next v hv =>
    refine .throw (PermitsInternal.contained fun hleak => ?_)
    unfold Tracker.track at hv
    split at hv
    · cases hv
    · split at hv <;> cases hv
      exact hleak

theorem regular_retrack {l' : Location} : Regular F (retrack l n l') := by
  refine .get_bind (fun s => ?_) fun _ _ => rfl
  split
  · exact regular_setTracker
  next v hv =>
    refine .throw (PermitsInternal.contained fun hleak => ?_)
    unfold Tracker.retrack at hv
    split at hv
    · cases hv
    · split at hv
      · cases hv
      · split at hv
        · cases hv
          exact hleak
        · split at hv <;> cases hv
          exact hleak

theorem regular_trackOption : Regular F (trackOption l target) := by
  cases target with
  | none => exact .pure _
  | some n => exact regular_track

theorem regular_retrackOption {l' : Location} : Regular F (retrackOption l l' target) := by
  cases target with
  | none => exact .pure _
  | some n => exact regular_retrack

theorem regular_trackOperands : Regular F (trackOperands n) :=
  .bind (.lift Query.regular_nodeOperands) fun _ => .forM (fun _ => regular_trackOption) _

theorem regular_tuple {ops : List (Option NodeId)} : Regular F (tuple ops) :=
  .bind (.forM (fun _ => regular_expectNode) _) fun _ =>
    regular_internNode fun _ => regular_trackOperands

theorem regular_distinctTuple {ops : List (Option NodeId)} : Regular F (distinctTuple ops) :=
  .bind (.forM (fun _ => regular_expectNode) _) fun _ => .bind regular_pushNode fun _ =>
    .bind regular_trackOperands fun _ => .pure _

theorem regular_temporaryTuple {ops : List (Option NodeId)} : Regular F (temporaryTuple ops) :=
  .bind (.forM (fun _ => regular_expectNode) _) fun _ => .bind regular_pushNode fun _ =>
    .bind regular_makeReplaceable fun _ => .bind regular_trackOperands fun _ => .pure _

theorem regular_wrapperValue : Regular F (wrapperValue n) := by
  refine .bind (.lift Query.regular_node) fun _ => .get_bind (fun s => ?_) fun _ _ => rfl
  split
  · exact .pure _
  · exact .bind regular_internType fun _ => .bind regular_pushValue fun _ =>
      .bind (.modify fun _ _ => rfl) fun _ => .bind regular_track fun _ => .pure _

theorem regular_trackHandle : Regular F (trackHandle target) :=
  .bind regular_expectNode fun _ => .bind regular_pushHandle fun _ =>
    .bind regular_trackOption fun _ => .pure _

theorem regular_resetHandle {h : HandleId} : Regular F (resetHandle h target) :=
  .bind (.lift Query.regular_handle) fun _ => .ite (.pure _) (.bind regular_expectNode fun _ =>
    .bind regular_untrackOption fun _ => .bind regular_putHandle fun _ => regular_trackOption)

theorem regular_moveHandle {h : HandleId} : Regular F (moveHandle h) :=
  .bind (.lift Query.regular_handle) fun _ => .bind regular_pushHandle fun _ =>
    .bind regular_putHandle fun _ => .bind regular_retrackOption fun _ => .pure _

theorem regular_setMetadata {tag : TagId} : Regular F (setMetadata v tag target) :=
  .bind (.lift Query.regular_kind) fun _ => .guard (.throw (Permits.ordinary ⟨id, id, id⟩))
    (.bind (.lift Query.regular_attachment) fun _ => .ite (.pure _)
      (.bind regular_expectNode fun _ => .bind regular_untrackOption fun _ =>
        .bind regular_modifyValue fun _ => regular_trackOption))

theorem regular_addNamedMetadata : Regular F (addNamedMetadata m text n) :=
  .bind (.lift Query.regular_module) fun _ => .bind regular_trackHandle fun _ =>
    regular_modifyModule

theorem regular_setNodeOperand {j : Nat} : Regular F (setNodeOperand n j target) := by
  refine .bind (.lift Query.regular_editableOperands) fun ops => ?_
  split
  · exact .lift Query.regular_nodeOperandOutOfRange
  · exact .bind regular_expectNode fun _ => .bind regular_modifyNode fun _ =>
      .ite (.bind regular_untrackOption fun _ => regular_trackOption) (.pure _)

theorem regular_shiftOperands {p : Nat → Nat} {moved : List (Option NodeId × Nat)} :
    Regular F (shiftOperands n p moved) := .forM (fun _ => regular_retrackOption) _

theorem regular_insertNodeOperand {j : Nat} : Regular F (insertNodeOperand n j target) :=
  .bind (.lift Query.regular_editableOperands) fun _ => .guard
    (.lift Query.regular_nodeOperandOutOfRange) (.bind regular_expectNode fun _ =>
      .bind regular_shiftOperands fun _ => .bind regular_modifyNode fun _ => regular_trackOption)

theorem regular_pushNodeOperand : Regular F (pushNodeOperand n target) :=
  .bind (.lift Query.regular_editableOperands) fun _ => regular_insertNodeOperand

theorem regular_removeNodeOperand {j : Nat} : Regular F (removeNodeOperand n j) := by
  refine .bind (.lift Query.regular_editableOperands) fun ops => ?_
  split
  · exact .lift Query.regular_nodeOperandOutOfRange
  · exact .bind regular_untrackOption fun _ => .bind regular_shiftOperands fun _ =>
      .bind regular_modifyNode fun _ => .pure _

end Tracking

section Replacing

theorem regular_retargetOperand {j : Nat} : Regular F (retargetOperand n j k) := by
  refine .bind (.lift Query.regular_node) fun before => .bind regular_modifyNode fun _ =>
    .bind regular_track fun _ => .ite (.bind (.modify fun _ _ => rfl) fun _ =>
      .bind (.lift Query.regular_node) fun after => .get_bind (fun s => ?_) fun _ _ => rfl)
      (.pure _)
  split
  · exact .modify fun _ _ => rfl
  · exact regular_modifyNode

theorem regular_retargetHandle {h : HandleId} : Regular F (retargetHandle h n) :=
  .bind (.modify fun _ _ => rfl) fun _ => regular_track

theorem regular_retargetAttachment {tag : TagId} : Regular F (retargetAttachment v tag n) :=
  .bind regular_modifyValue fun _ => regular_track

section Nested

variable {nested : ValueId → ValueId → Edit Unit} (hn : ∀ old new, Regular F (nested old new))

include hn

theorem regular_retargetWrapper : Regular F (retargetWrapper nested w n k) := by
  refine .bind (.modify fun _ _ => rfl) fun _ => .get_bind (fun s => ?_) fun _ _ => rfl
  split
  · exact .bind (hn _ _) fun _ => regular_destroyValue
  · exact .bind regular_modifyValue fun _ => .bind (.modify fun _ _ => rfl) fun _ => regular_track

theorem regular_retarget : Regular F (retarget nested n k l) := by
  cases l with
  | operand => exact regular_retargetOperand
  | wrapper => exact regular_retargetWrapper hn
  | handle => exact regular_retargetHandle
  | attachment => exact regular_retargetAttachment

theorem regular_replaceNodeStep : Regular F (replaceNodeStep nested n k) :=
  .ite (.pure _) (.get_bind (fun _ => .guard (.raise ⟨id, id, id⟩)
    (.bind (.lift Query.regular_node) fun _ => .get_bind (fun _ =>
      .bind regular_setTracker fun _ => .forM (fun _ => regular_retarget hn) _) fun _ _ => rfl))
    fun _ _ => rfl)

theorem regular_moveValueNode : Regular F (moveValueNode nested old new) := by
  refine .get_bind (fun s => ?_) fun _ _ => rfl
  dsimp only
  split
  · exact .pure _
  · exact .bind (regular_replaceNodeStep hn) fun _ => regular_dropValueNode
  · exact .bind (.modify fun _ _ => rfl) fun _ => regular_modifyNode

theorem regular_internBlockAddress {key : ConstantKey} :
    Regular F (internBlockAddress nested v key) := by
  refine .bind regular_forgetConstant fun _ => .bind (.lift Query.regular_constantKey)
    fun after => ?_
  split
  · refine .get_bind (fun s => ?_) fun _ _ => rfl
    split
    · exact .modify fun _ _ => rfl
    · exact .ite (.bind (hn _ _) fun _ => regular_destroyValue) (.modify fun _ _ => rfl)
  · exact .pure _

omit hn in
theorem regular_noteBlockAddress {e : EdgeId} {noted : List (ValueId × ConstantKey)} :
    Regular F (noteBlockAddress e noted) := by
  refine .get_bind (fun s => .get_bind (fun s' => ?_) fun _ _ => rfl) fun _ _ => rfl
  split
  · refine .bind (.lift Query.regular_constantKey) fun key => ?_
    split
    · exact .pure _
    · exact .pure _
  · exact .pure _

theorem regular_moveEdges {es : List EdgeId} : Regular F (moveEdges nested new es) :=
  .bind (.foldlM (fun _ _ => .bind regular_noteBlockAddress fun _ =>
    .bind (.bind regular_unlink fun _ => regular_link) fun _ => .pure _) _ _) fun _ =>
      .forM (fun _ => regular_internBlockAddress hn) _

theorem regular_replaceStep : Regular F (replaceStep nested old new) :=
  .ite (.pure _) (.bind (.lift Query.regular_expectSameType) fun _ =>
    .bind (.lift Query.regular_useList) fun _ => .bind (regular_moveEdges hn) fun _ =>
      regular_moveValueNode hn)

end Nested

theorem regular_replaceWithin (depth : Nat) : Regular F (replaceWithin depth old new) := by
  induction depth generalizing old new with
  | zero => exact .throw (PermitsInternal.contained id)
  | succ depth ih => exact regular_replaceStep fun _ _ => ih

theorem regular_replaceAllUses : Regular F (replaceAllUses old new) :=
  .get_bind (fun _ => regular_replaceWithin _) fun _ _ => rfl

theorem regular_replaceUsesIf {σ : Type} {ask : σ → Use → Bool × σ} {st : σ} :
    Regular F (replaceUsesIf old new ask st) :=
  .ite (.pure _) (.bind (.lift Query.regular_expectSameType) fun _ =>
    .bind (.lift Query.regular_useList) fun _ => .get_bind (fun _ => .get_bind (fun _ =>
      .bind (regular_moveEdges fun _ _ => regular_replaceWithin _) fun _ => .pure _)
        fun _ _ => rfl) fun _ _ => rfl)

theorem regular_replaceNode : Regular F (replaceNode n k) :=
  .get_bind (fun _ => regular_replaceNodeStep fun _ _ => regular_replaceWithin _) fun _ _ => rfl

theorem regular_replaceWithUniqued : Regular F (replaceWithUniqued n) := by
  refine .bind (.lift Query.regular_expectTemporary) fun _ => .bind (.lift Query.regular_node)
    fun d => .get_bind (fun s => ?_) fun _ _ => rfl
  split
  · exact .bind regular_replaceNode fun _ => .bind regular_eraseTemporary fun _ => .pure _
  · exact .bind regular_settle fun _ => .bind (.modify fun _ _ => rfl) fun _ => .pure _

end Replacing

section Erasing

theorem regular_nullifyBlockAddress : Regular F (nullifyBlockAddress v) :=
  .bind (.lift Query.regular_typeOf) fun _ => .bind regular_internScalar fun _ =>
    .bind regular_replaceAllUses fun _ => regular_destroyValue

theorem regular_nullifyBlockAddresses : Regular F (nullifyBlockAddresses b) :=
  .bind (.lift Query.regular_users) fun _ => .get_bind
    (fun _ => .forM (fun _ => regular_nullifyBlockAddress) _) fun _ _ => rfl

theorem regular_eraseBlock : Regular F (eraseBlock b) :=
  .bind (.lift Query.regular_expectKind) fun _ => .bind (.lift Query.regular_blockMembers)
    fun _ => .bind (.lift Query.regular_expectErasable) fun _ =>
      .bind regular_nullifyBlockAddresses fun _ => .bind (.lift Query.regular_blockParent)
        fun _ => .guard regular_removeBlock (.bind (.lift Query.regular_blockInstructions)
          fun _ => .bind regular_modifyInstructions fun _ =>
            .bind (.forM (fun _ => regular_emptyOperands) _) fun _ =>
              .bind (.forM (fun _ => regular_destroyValue) _) fun _ => regular_destroyValue)

theorem regular_expectEmptyScope {scope : Scope} :
    Regular Fault.IsAny (liftM (Query.expectEmptyScope scope) : Edit Unit) := by
  refine ⟨fun _ => trivial, fun b => ?_⟩
  rw [Query.expectEmptyScope, lift_bind]
  refine .bind ((Regular.lift (F := Fault.IsAny) Query.regular_symbols).blind b) fun table => ?_
  split
  · rw [lift_bind]
    refine .bind ((Regular.lift (F := Fault.IsAny) Query.regular_scopeLabel).blind b)
      fun label s => ?_
    let check : Query Unit := do
      if (← read).config.verifyScopeTeardown then raise (.scopeLeak label table.size)
    have hcheck (s : Store) : (liftM check : Edit Unit) s = if s.config.verifyScopeTeardown
        then .error (.violation (.scopeLeak label table.size)) s else .ok () s := by
      change Query.asEdit (fun s => (if s.config.verifyScopeTeardown
        then raise (.scopeLeak label table.size) else pure () : Query Unit) s) s = _
      dsimp only [Query.asEdit]
      cases s.config.verifyScopeTeardown <;> rfl
    have hstops (s : Store) (hs : s.config.verifyScopeTeardown = true) :
        Stops Fault.IsLeak (liftM check : Edit Unit) s :=
      ⟨_, s, (hcheck s).trans (if_pos hs), trivial⟩
    cases hs : s.config.verifyScopeTeardown with
    | true => exact .inl (hstops s hs)
    | false =>
      cases b with
      | true => exact .inr (.inl (hstops _ rfl))
      | false =>
        refine .inr (.inr ?_)
        rw [show (liftM check : Edit Unit) s = .ok () s from (hcheck s).trans (if_neg (by simp [hs]))]
        exact hcheck (s.withTeardown false)
  · exact .pure _

theorem regular_eraseFunction : Regular Fault.IsAny (eraseFunction f) :=
  .bind (.lift Query.regular_expectKind) fun _ => .bind (.lift Query.regular_functionMembers)
    fun _ => .bind (.lift Query.regular_expectErasable) fun _ =>
      .bind (.lift Query.regular_functionModule) fun _ => .guard regular_removeFunction
        (.bind regular_emptyBody fun _ => .bind (.lift Query.regular_functionBlocks) fun _ =>
          .bind (.forM (fun _ => regular_eraseBlock) _) fun _ =>
            .bind (.lift Query.regular_functionArguments) fun _ =>
              .bind (.forM (fun _ => regular_destroyValue) _) fun _ =>
                .bind regular_expectEmptyScope fun _ => regular_destroyValue)

theorem regular_eraseModule : Regular Fault.IsAny (eraseModule m) :=
  .bind (.lift Query.regular_module) fun _ => .bind (.lift Query.regular_moduleMembers)
    fun _ => .bind (.lift Query.regular_expectErasable) fun _ =>
      .bind (.forM (fun _ => regular_emptyBody) _) fun _ =>
        .bind (.forM (fun _ => regular_emptyOperands) _) fun _ =>
          .bind (.forM (fun _ => regular_eraseFunction) _) fun _ =>
            .bind (.forM (fun _ => regular_eraseGlobal) _) fun _ =>
              .bind (.lift Query.regular_namedMetadataNames) fun _ =>
                .bind (.forM (fun _ => regular_eraseNamedMetadata) _) fun _ =>
                  .bind regular_expectEmptyScope fun _ => .modify fun _ _ => rfl

end Erasing

end Contained

end ShaderIR.Edit
