import ShaderIR.Proofs.ValuePlaces

/-! Operands, constants and metadata. Edits of operands change nothing but the def-use graph, and
edits of nodes, handles and attachments change nothing but metadata, however they end. Both leave
the layout of the store as it was. -/

namespace ShaderIR

def Module.unnamed (m : Module) : Module := { m with named := [] }

namespace Store

def unwired (s : Store) : Store := { s with uses := {} }

def body (s : Store) : Store :=
  { s with
    metadata := {}
    values := s.values.map Value.unattached
    modules := s.modules.map Module.unnamed }

theorem get?_body (s : Store) (v : ValueId) :
    s.body.values.get? v = (s.values.get? v).map Value.unattached :=
  Arena.get?_map ..

theorem layout_body (s : Store) : s.body.layout = s.layout := by
  have hres (v : ValueId) : s.body.resident? v = s.resident? v := by
    rw [resident?, get?_body, Option.bind_map]
    rfl
  have hmodule (m : ModuleId) : s.body.modules.get? m = (s.modules.get? m).map Module.unnamed :=
    Arena.get?_map ..
  have hchildren : s.body.childrenAt = s.childrenAt := by
    funext p
    cases p <;> simp only [childrenAt, hres, hmodule, Option.map_map] <;> rfl
  have htables : s.body.table? = s.table? := by
    funext scope
    cases scope with
    | function f =>
      have hf : s.body.payloadIs f isFunction = s.payloadIs f isFunction := by
        rw [payloadIs_eq_any_resident, payloadIs_eq_any_resident, hres]
      simp only [table?, hf]
      rfl
    | module m =>
      have hm : s.body.isModuleLive m = s.isModuleLive m := by
        rw [isModuleLive, hmodule, Option.isSome_map, isModuleLive]
      simp only [table?, hm]
      rfl
  simp only [layout, hres, hchildren, htables]

theorem layout_pushValue_of_not_isResident (s : Store) {d : Value}
    (h : d.kind.isResident = false) : (s.pushValue d).2.layout = s.layout := by
  refine layout_congr rfl rfl (fun _ _ => rfl) (fun _ => rfl) fun w => ?_
  rw [resident?, pushValue, Arena.get?_push, resident?]
  split
  next hw => simp [hw, Value.resident?, h]
  next => rfl

end Store

/-- A view of the store that does not show who refers to nodes, but for tuples and wrappers. -/
class Unheld {γ : Type} (view : Store → γ) : Prop where
  tracker : ∀ (s : Store) (t : Tracker),
    view (s.modifyMetadata fun md => { md with tracker := t }) = view s
  handles : ∀ (s : Store) (f : Arena .handle (Option NodeId) → Arena .handle (Option NodeId)),
    view (s.modifyMetadata fun md => { md with handles := f md.handles }) = view s
  tags : ∀ (s : Store) (tags : List String),
    view (s.modifyMetadata fun md => { md with tags := tags }) = view s
  attachments : ∀ (s : Store) (v : ValueId) (f : List (TagId × NodeId) → List (TagId × NodeId)),
    view (s.modifyValue v fun d => { d with attachments := f d.attachments }) = view s
  named : ∀ (s : Store) (m : ModuleId)
    (f : List (String × List HandleId) → List (String × List HandleId)),
    view (s.modifyModule m fun d => { d with named := f d.named }) = view s

instance : Unheld Store.body where
  tracker _ _ := rfl
  handles _ _ := rfl
  tags _ _ := rfl
  attachments s v f := by
    have hvalues : (s.values.modify v fun d => { d with attachments := f d.attachments }).map
        Value.unattached = s.values.map Value.unattached := Arena.map_modify_of_eq fun _ _ => rfl
    simp only [Store.body, Store.modifyValue, hvalues]
  named s m f := by
    have hmodules : (s.modules.modify m fun d => { d with named := f d.named }).map
        Module.unnamed = s.modules.map Module.unnamed := Arena.map_modify_of_eq fun _ _ => rfl
    simp only [Store.body, Store.modifyModule, hmodules]

/-- A view of the store that shows no nodes either, but for those that wrap values. -/
class Unnoded {γ : Type} (view : Store → γ) : Prop extends Unheld view where
  nodes : ∀ (s : Store) {f : Metadata → Metadata}, (∀ md, (f md).nodeOf = md.nodeOf) →
    view (s.modifyMetadata f) = view s

instance : Unnoded Store.body where
  nodes _ _ _ := rfl

namespace Edit

variable {u v : ValueId} {o : Option ValueId} {n : NodeId} {ns : Option NodeId} {l l' : Location}
variable {h : HandleId} {i : Nat} {ops : List (Option NodeId)} {m : ModuleId} {text : String}

theorem Fixes.of_view {α γ δ : Type} {view : Store → γ} {view' : Store → δ} {e : Edit α}
    (h : Fixes view e) (hv : ∀ {s s'}, view s' = view s → view' s' = view' s) : Fixes view' e := by
  rintro _ s rfl
  exact (h.ends s).mono (fun _ _ hs => hv hs) fun _ _ hs => hv hs

theorem Fixes.of_unwired {α : Type} {e : Edit α} (h : Fixes Store.unwired e) :
    Fixes Store.layout e :=
  h.of_view fun {s s'} hs => by
    rw [show s'.layout = s'.unwired.layout from rfl, hs]
    rfl

theorem Fixes.of_body {α : Type} {e : Edit α} (h : Fixes Store.body e) : Fixes Store.layout e :=
  h.of_view fun {s s'} hs => by rw [← s'.layout_body, hs, s.layout_body]

section Operands

theorem fixes_link {e : EdgeId} : Fixes Store.unwired (link e v) :=
  .bind (.lift _) fun _ => .modify fun _ => rfl

theorem fixes_linkTo {e : EdgeId} : Fixes Store.unwired (linkTo e o) := by
  cases o with
  | none => exact .pure _
  | some t => exact fixes_link

theorem fixes_addOperand : Fixes Store.unwired (addOperand u o) :=
  .bind (.lift _) fun _ => .bind (fun _ => Keeps.modifyGet fun _ hs => hs) fun _ =>
    .bind fixes_linkTo fun _ => .pure _

theorem fixes_putOperand : Fixes Store.unwired (putOperand u i o) :=
  .bind (.lift _) fun _ => .bind .get fun _ =>
    .ite (.bind (.modify fun _ => rfl) fun _ => fixes_linkTo) (.pure _)

theorem fixes_emptyOperands : Fixes Store.unwired (emptyOperands u) :=
  .bind (.lift _) fun _ => .forM (fun _ => fixes_putOperand) _

theorem fixes_setOperand : Fixes Store.unwired (setOperand u i o) :=
  .bind (.lift _) fun _ => fixes_putOperand

theorem fixes_pushOperand : Fixes Store.unwired (pushOperand u o) :=
  .bind (.lift _) fun _ => .bind (.lift _) fun _ => fixes_addOperand

theorem fixes_dropAllReferences : Fixes Store.unwired (dropAllReferences u) :=
  .bind (.lift _) fun _ => fixes_emptyOperands

theorem fixes_setInitializer : Fixes Store.unwired (setInitializer u o) :=
  .bind (.lift _) fun _ => fixes_putOperand

end Operands

section Constants

theorem fixes_internType {sh : TypeShape} : Fixes Store.layout (internType sh) :=
  fun _ => Keeps.modifyGet fun _ hs => hs

theorem fixes_pushValue {d : Value} (hd : d.kind.isResident = false) :
    Fixes Store.layout (pushValue d) :=
  fun _ => Keeps.modifyGet fun s hs => (s.layout_pushValue_of_not_isResident hd).trans hs

theorem fixes_internScalar {ty : TypeId} {data : ConstantData} :
    Fixes Store.layout (internScalar ty data) := by
  refine .bind .get fun s => ?_
  split
  · exact .pure _
  · exact .bind (fixes_pushValue rfl) fun _ => .bind (.modify fun _ => rfl) fun _ => .pure _

theorem fixes_blockAddress : Fixes Store.layout (blockAddress u v) := by
  refine .bind (.lift _) fun _ => .bind (.lift _) fun _ => .bind .get fun s => ?_
  split
  · exact .pure _
  · exact .bind fixes_internType fun _ => .bind (fixes_pushValue rfl) fun _ =>
      .bind fixes_addOperand.of_unwired fun _ => .bind fixes_addOperand.of_unwired fun _ =>
        .bind (.modify fun _ => rfl) fun _ => .pure _

end Constants

section Tracking

variable {γ : Type} {view : Store → γ} [Unheld view]

theorem fixes_setTracker {t : Tracker} : Fixes view (setTracker t) :=
  .modify fun s => Unheld.tracker s t

theorem fixes_track : Fixes view (track l n) := by
  refine .bind .get fun s => ?_
  split
  · exact fixes_setTracker
  · exact .raise _

theorem fixes_untrack : Fixes view (untrack l n) :=
  .bind .get fun _ => fixes_setTracker

theorem fixes_retrack : Fixes view (retrack l n l') := by
  refine .bind .get fun s => ?_
  split
  · exact fixes_setTracker
  · exact .raise _

theorem fixes_trackOption : Fixes view (trackOption l ns) := by
  cases ns with
  | none => exact .pure _
  | some n => exact fixes_track

theorem fixes_untrackOption : Fixes view (untrackOption l ns) := by
  cases ns with
  | none => exact .pure _
  | some n => exact fixes_untrack

theorem fixes_retrackOption : Fixes view (retrackOption l l' ns) := by
  cases ns with
  | none => exact .pure _
  | some n => exact fixes_retrack

omit [Unheld view] in
theorem fixes_expectNode : Fixes view (expectNode ns) := by
  cases ns with
  | none => exact .pure _
  | some n => exact .bind (.lift _) fun _ => .pure _

theorem fixes_trackOperands : Fixes view (trackOperands n) :=
  .bind (.lift _) fun _ => .forM (fun _ => fixes_trackOption) _

theorem fixes_makeReplaceable : Fixes view (makeReplaceable n) :=
  .bind .get fun _ => fixes_setTracker

theorem fixes_shiftOperands {position : Nat → Nat} {moved : List (Option NodeId × Nat)} :
    Fixes view (shiftOperands n position moved) :=
  .forM (fun _ => fixes_retrackOption) _

theorem fixes_modifyAttachments {f : List (TagId × NodeId) → List (TagId × NodeId)} :
    Fixes view (modifyValue v fun d => { d with attachments := f d.attachments }) :=
  .bind (.lift _) fun _ => .modify fun s => Unheld.attachments s v f

end Tracking

section Nodes

theorem fixes_modifyMetadata {f : Metadata → Metadata} :
    Fixes Store.body (modify (·.modifyMetadata f) : Edit Unit) :=
  .modify fun _ => rfl

variable {γ : Type} {view : Store → γ} [Unnoded view]

theorem fixes_modifyNodes {f : Metadata → Metadata} (h : ∀ md, (f md).nodeOf = md.nodeOf) :
    Fixes view (modify (·.modifyMetadata f) : Edit Unit) :=
  .modify fun s => Unnoded.nodes s h

theorem fixes_modifyNode {f : Node → Node} : Fixes view (modifyNode n f) :=
  .bind (.lift _) fun _ => fixes_modifyNodes fun _ => rfl

theorem fixes_pushNode {d : Node} : Fixes view (pushNode d) :=
  fun _ => Keeps.modifyGet fun s hs =>
    (Unnoded.nodes s (f := fun md => { md with nodes := md.nodes.push d }) fun _ => rfl).trans hs

theorem fixes_internNode {c : Content} {register : NodeId → Edit Unit}
    (hr : ∀ n, Fixes view (register n)) : Fixes view (internNode c register) := by
  refine .bind .get fun s => ?_
  split
  · exact .pure _
  · exact .bind fixes_pushNode fun n => .bind (fixes_modifyNodes fun _ => rfl) fun _ =>
      .bind (hr n) fun _ => .pure _

theorem fixes_stringNode : Fixes view (stringNode text) :=
  fixes_internNode fun _ => .pure _

omit [Unnoded view] in
theorem fixes_valueNode : Fixes Store.body (valueNode v) := by
  refine .bind (.lift _) fun kind => .guard (.throw _) (.bind .get fun s => ?_)
  split
  · exact .pure _
  · exact .bind fixes_pushNode fun _ => .bind fixes_modifyMetadata fun _ =>
      .bind fixes_makeReplaceable fun _ => .pure _

theorem fixes_tuple : Fixes view (tuple ops) :=
  .bind (.forM (fun _ => fixes_expectNode) _) fun _ => fixes_internNode fun _ =>
    fixes_trackOperands

theorem fixes_distinctTuple : Fixes view (distinctTuple ops) :=
  .bind (.forM (fun _ => fixes_expectNode) _) fun _ => .bind fixes_pushNode fun _ =>
    .bind fixes_trackOperands fun _ => .pure _

theorem fixes_temporaryTuple : Fixes view (temporaryTuple ops) :=
  .bind (.forM (fun _ => fixes_expectNode) _) fun _ => .bind fixes_pushNode fun _ =>
    .bind fixes_makeReplaceable fun _ => .bind fixes_trackOperands fun _ => .pure _

omit [Unnoded view] in
theorem fixes_wrapperValue : Fixes Store.layout (wrapperValue n) := by
  refine .bind (.lift _) fun _ => .bind .get fun s => ?_
  split
  · exact .pure _
  · exact .bind fixes_internType fun _ => .bind (fixes_pushValue rfl) fun _ =>
      .bind fixes_modifyMetadata.of_body fun _ => .bind fixes_track.of_body fun _ => .pure _

theorem fixes_putNodeOperands : Fixes view (putNodeOperands n ops) := fixes_modifyNode

theorem fixes_setNodeOperand : Fixes view (setNodeOperand n i ns) := by
  refine .bind (.lift _) fun ops => ?_
  split
  · exact .lift _
  · exact .bind fixes_expectNode fun _ => .bind fixes_putNodeOperands fun _ =>
      .ite (.bind fixes_untrackOption fun _ => fixes_trackOption) (.pure _)

theorem fixes_insertNodeOperand : Fixes view (insertNodeOperand n i ns) :=
  .bind (.lift _) fun _ => .guard (.lift _) (.bind fixes_expectNode fun _ =>
    .bind fixes_shiftOperands fun _ => .bind fixes_putNodeOperands fun _ => fixes_trackOption)

theorem fixes_pushNodeOperand : Fixes view (pushNodeOperand n ns) :=
  .bind (.lift _) fun _ => fixes_insertNodeOperand

theorem fixes_removeNodeOperand : Fixes view (removeNodeOperand n i) := by
  refine .bind (.lift _) fun ops => ?_
  split
  · exact .lift _
  · exact .bind fixes_untrackOption fun _ => .bind fixes_shiftOperands fun _ =>
      .bind fixes_putNodeOperands fun _ => .pure _

end Nodes

section Holders

variable {γ : Type} {view : Store → γ} [Unheld view]

theorem fixes_pushHandle : Fixes view (pushHandle ns) :=
  fun _ => Keeps.modifyGet fun s hs => (Unheld.handles s fun hs => hs.push ns).trans hs

theorem fixes_putHandle : Fixes view (putHandle h ns) :=
  .modify fun s => Unheld.handles s fun hs => hs.set h ns

theorem fixes_trackHandle : Fixes view (trackHandle ns) :=
  .bind fixes_expectNode fun _ => .bind fixes_pushHandle fun _ => .bind fixes_trackOption fun _ =>
    .pure _

theorem fixes_resetHandle : Fixes view (resetHandle h ns) :=
  .bind (.lift _) fun _ => .ite (.pure _) (.bind fixes_expectNode fun _ =>
    .bind fixes_untrackOption fun _ => .bind fixes_putHandle fun _ => fixes_trackOption)

theorem fixes_moveHandle : Fixes view (moveHandle h) :=
  .bind (.lift _) fun _ => .bind fixes_pushHandle fun _ => .bind fixes_putHandle fun _ =>
    .bind fixes_retrackOption fun _ => .pure _

theorem fixes_releaseHandle : Fixes view (releaseHandle h) :=
  .bind (.lift _) fun _ => .bind fixes_untrackOption fun _ => .modify fun s =>
    Unheld.handles s fun hs => hs.erase h

theorem fixes_internTag : Fixes view (internTag text) := by
  refine .bind .get fun s => ?_
  dsimp only
  split
  · exact .pure _
  · exact .bind (.modify fun s' => Unheld.tags s' _) fun _ => .pure _

theorem fixes_setMetadata {tag : TagId} : Fixes view (setMetadata v tag ns) :=
  .bind (.lift _) fun _ => .guard (.throw _) (.bind (.lift _) fun _ => .ite (.pure _)
    (.bind fixes_expectNode fun _ => .bind fixes_untrackOption fun _ =>
      .bind fixes_modifyAttachments fun _ => fixes_trackOption))

theorem fixes_modifyNamed {f : List (String × List HandleId) → List (String × List HandleId)} :
    Fixes view (modifyModule m fun d => { d with named := f d.named }) :=
  .bind (.lift _) fun _ => .modify fun s => Unheld.named s m f

theorem fixes_addNamedMetadata : Fixes view (addNamedMetadata m text n) :=
  .bind (.lift _) fun _ => .bind fixes_trackHandle fun _ => fixes_modifyNamed

theorem fixes_eraseNamedMetadata : Fixes view (eraseNamedMetadata m text) := by
  refine .bind (.lift _) fun d => ?_
  split
  · exact .pure _
  · exact .bind fixes_modifyNamed fun _ => .forM (fun _ => fixes_releaseHandle) _

end Holders

end Edit

end ShaderIR
