import ShaderIR.Proofs.MirroredEdits

/-! What a query or an edit stops with, and that it does not read whether scopes are verified when
they go away. The ordinary faults answer for what was asked. The others are assertions about the
store itself, and each edit that may stop with one of them has to be shown not to. -/

namespace ShaderIR

def Fault.IsLeak : Fault → Prop
  | .violation (.scopeLeak ..) => True
  | _ => False

def Fault.IsMistracking : Fault → Prop
  | .violation (.doubleTrack ..) | .violation (.missingTrackedLocation ..)
  | .violation (.trackedLocationOccupied ..) => True
  | _ => False

def Fault.IsExhaustion : Fault → Prop
  | .nestingExhausted => True
  | _ => False

structure Fault.IsOrdinary (x : Fault) : Prop where
  leak : ¬ x.IsLeak
  mistracking : ¬ x.IsMistracking
  exhaustion : ¬ x.IsExhaustion

def Fault.IsContained (x : Fault) : Prop := ¬ x.IsLeak

def Fault.IsAny (_ : Fault) : Prop := True

/-- Faults that are permitted where only queries and checks may fail. -/
class Permits (F : Fault → Prop) : Prop where
  ordinary : ∀ {x : Fault}, x.IsOrdinary → F x

class PermitsInternal (F : Fault → Prop) : Prop extends Permits F where
  contained : ∀ {x : Fault}, ¬ x.IsLeak → F x

instance : Permits Fault.IsOrdinary := ⟨id⟩

instance : PermitsInternal Fault.IsContained where
  ordinary h := h.leak
  contained h := h

instance : PermitsInternal Fault.IsAny where
  ordinary _ := trivial
  contained _ := trivial

def Store.withTeardown (b : Bool) (s : Store) : Store :=
  { s with config := { s.config with verifyScopeTeardown := b } }

variable {F : Fault → Prop} {α β : Type}

namespace Query

/-- A query that stops only with certain faults and reads no more of the store than it may. -/
structure Regular (F : Fault → Prop) (q : Query α) : Prop where
  fault : ∀ {s x}, q s = .error x → F x
  blind : ∀ b s, q (s.withTeardown b) = q s

namespace Regular

variable {q : Query α} {f : α → Query β}

theorem pure (a : α) : Regular F (Pure.pure a : Query α) := ⟨fun h => (by cases h), fun _ _ => rfl⟩

theorem throw {x : Fault} (h : F x) : Regular F (throw x : Query α) :=
  ⟨fun hx => Except.error.inj hx ▸ h, fun _ _ => rfl⟩

theorem raise [Permits F] {v : Violation} (h : (Fault.violation v).IsOrdinary) :
    Regular F (raise v : Query α) := throw (Permits.ordinary h)

theorem bind (hq : Regular F q) (hf : ∀ a, Regular F (f a)) : Regular F (q >>= f) := by
  have hbind (s : Store) : (q >>= f) s = (q s).bind fun a => f a s := rfl
  refine ⟨fun {s x} h => ?_, fun b s => ?_⟩
  · rw [hbind] at h
    cases hs : q s with
    | error y =>
      rw [hs] at h
      exact hq.fault (hs.trans (congrArg _ (Except.error.inj h)))
    | ok a =>
      rw [hs] at h
      exact (hf a).fault h
  · rw [hbind, hbind, hq.blind]
    exact congrArg _ (funext fun a => (hf a).blind b s)

theorem read_bind {k : Store → Query β} (hk : ∀ s, Regular F (k s))
    (hb : ∀ b s, k (s.withTeardown b) = k s) : Regular F (read >>= k) :=
  ⟨fun {s _} h => (hk s).fault h, fun b s => by
    change k (s.withTeardown b) (s.withTeardown b) = k s s
    rw [hb, (hk s).blind]⟩

theorem guard {p : Prop} [Decidable p] {d : Query Unit} {k : Unit → Query β} (hd : Regular F d)
    (hk : Regular F (k ())) : Regular F (if p then d >>= k else k ()) := by
  split
  · exact hd.bind fun _ => hk
  · exact hk

theorem ite {p : Prop} [Decidable p] {q' : Query α} (hq : Regular F q) (hq' : Regular F q') :
    Regular F (if p then q else q') := by
  split
  · exact hq
  · exact hq'

theorem forM {f : α → Query Unit} (h : ∀ a, Regular F (f a)) (as : List α) :
    Regular F (as.forM f) := by
  induction as with
  | nil => exact .pure ()
  | cons a rest ih => exact (h a).bind fun _ => ih

theorem mapM (h : ∀ a, Regular F (f a)) (as : List α) : Regular F (as.mapM f) := by
  induction as with
  | nil => exact .pure []
  | cons a rest ih =>
    rw [List.mapM_cons]
    exact (h a).bind fun b => ih.bind fun bs => .pure (b :: bs)

end Regular

variable [Permits F] {v b f i u : ValueId} {m : ModuleId} {n : NodeId}

theorem Regular.of_match {q : Query α} {x : Fault} (hx : x.IsOrdinary)
    (h : ∀ s y, q s = .error y → y = x) (hb : ∀ b s, q (s.withTeardown b) = q s) : Regular F q :=
  ⟨fun hq => h _ _ hq ▸ Permits.ordinary hx, hb⟩

section Values

theorem regular_value : Regular F (value v) := by
  refine .of_match (x := .violation (.staleValue v)) ⟨id, id, id⟩ (fun s y h => ?_) fun _ _ => rfl
  unfold value at h
  split at h <;> cases h
  rfl

theorem regular_module : Regular F (module m) := by
  refine .of_match (x := .violation (.staleModule m)) ⟨id, id, id⟩ (fun s y h => ?_) fun _ _ => rfl
  unfold module at h
  split at h <;> cases h
  rfl

theorem regular_node : Regular F (node n) := by
  refine .of_match (x := .violation (.staleNode n)) ⟨id, id, id⟩ (fun s y h => ?_) fun _ _ => rfl
  unfold node at h
  split at h <;> cases h
  rfl

theorem regular_handle {h : HandleId} : Regular F (handle h) := by
  refine .of_match (x := .violation (.staleHandle h)) ⟨id, id, id⟩ (fun s y hx => ?_) fun _ _ => rfl
  unfold handle at hx
  split at hx <;> cases hx
  rfl

theorem regular_shape {ty : TypeId} : Regular F (shape ty) := by
  refine .of_match (x := .unknownIndex) ⟨id, id, id⟩ (fun s y h => ?_) fun _ _ => rfl
  unfold shape at h
  split at h <;> cases h
  rfl

theorem regular_kind : Regular F (kind v) := .bind regular_value fun _ => .pure _

theorem regular_typeOf : Regular F (typeOf v) := .bind regular_value fun _ => .pure _

theorem regular_name : Regular F (name v) := .bind regular_value fun _ => .pure _

theorem regular_payload : Regular F (payload v) := .bind regular_value fun _ => .pure _

theorem regular_expectKind {k : ValueKind} : Regular F (expectKind v k) :=
  .bind regular_kind fun _ => .ite (.raise ⟨id, id, id⟩) (.pure _)

theorem regular_wrongKind {k : ValueKind} : Regular F (wrongKind v k : Query α) :=
  .bind regular_kind fun _ => .raise ⟨id, id, id⟩

end Values

section Operands

theorem regular_operandEdge {slot : Nat} : Regular F (operandEdge u slot) := by
  refine .bind regular_value fun _ => .read_bind (fun s => ?_) fun _ _ => rfl
  dsimp only
  split
  · exact .pure _
  · exact .raise ⟨id, id, id⟩

theorem regular_operand {slot : Nat} : Regular F (operand u slot) :=
  .bind regular_operandEdge fun _ => .read_bind (fun _ => .pure _) fun _ _ => rfl

theorem regular_operandCount : Regular F (operandCount u) :=
  .bind regular_value fun _ => .read_bind (fun _ => .pure _) fun _ _ => rfl

theorem regular_useList : Regular F (useList v) :=
  .bind regular_value fun _ => .read_bind (fun _ => .pure _) fun _ _ => rfl

theorem regular_uses : Regular F (uses v) :=
  .bind regular_useList fun _ => .read_bind (fun _ => .pure _) fun _ _ => rfl

theorem regular_users : Regular F (users v) := .bind regular_uses fun _ => .pure _

theorem regular_useCount : Regular F (useCount v) := .bind regular_useList fun _ => .pure _

theorem regular_expectMutableOperands : Regular F (expectMutableOperands u) :=
  .bind regular_kind fun _ => .ite (.raise ⟨id, id, id⟩) (.pure _)

theorem regular_constantKey : Regular F (constantKey v) := by
  refine .bind regular_value fun d => ?_
  split
  · refine .bind regular_operand fun f => ?_
    split
    · refine .bind regular_operand fun b => ?_
      split
      · exact .pure _
      · exact .pure _
    · exact .pure _
  · exact .pure _
  · exact .pure _

theorem regular_expectSameType {w : ValueId} : Regular F (expectSameType v w) :=
  .bind regular_typeOf fun _ => .bind regular_typeOf fun _ =>
    .ite (.raise ⟨id, id, id⟩) (.pure _)

end Operands

section Nodes

theorem regular_storage : Regular F (storage n) := .bind regular_node fun _ => .pure _

theorem regular_nodeOperands : Regular F (nodeOperands n) := .bind regular_node fun _ => .pure _

theorem regular_wrappedNode : Regular F (wrappedNode v) := by
  refine .bind regular_payload fun p => ?_
  split
  · exact .pure _
  · exact .pure _

theorem regular_attachments : Regular F (attachments v) := .bind regular_value fun _ => .pure _

theorem regular_attachment {tag : TagId} : Regular F (attachment v tag) :=
  .bind regular_attachments fun _ => .pure _

theorem regular_expectTemporary : Regular F (expectTemporary n) :=
  .bind regular_storage fun _ => .ite (.raise ⟨id, id, id⟩) (.pure _)

theorem regular_editableOperands : Regular F (editableOperands n) := by
  refine .bind regular_node fun d => ?_
  refine .guard (.raise ⟨id, id, id⟩) ?_
  split
  · exact .pure _
  · exact .throw (Permits.ordinary ⟨id, id, id⟩)

theorem regular_nodeOperandOutOfRange {i k : Nat} :
    Regular F (nodeOperandOutOfRange n i k : Query α) := .raise ⟨id, id, id⟩

end Nodes

section Places

theorem regular_blockParent : Regular F (blockParent b) := by
  refine .bind regular_payload fun p => ?_
  split
  · exact .pure _
  · exact regular_wrongKind

theorem regular_scopeOf : Regular F (scopeOf v) := by
  refine .bind regular_payload fun p => ?_
  split
  case h_4 => exact .bind regular_blockParent fun _ => .pure _
  all_goals exact .pure _

theorem regular_symbols {scope : Scope} : Regular F (symbols scope) := by
  cases scope with
  | function f =>
    exact .bind regular_expectKind fun _ => .read_bind (fun _ => .pure _) fun _ _ => rfl
  | module m =>
    exact .bind regular_module fun _ => .read_bind (fun _ => .pure _) fun _ _ => rfl

theorem regular_scopeLabel {scope : Scope} : Regular F (scopeLabel scope) := by
  cases scope with
  | function f =>
    refine .bind regular_name fun name => ?_
    split
    · exact .pure _
    · exact .pure _
  | module m => exact .bind regular_module fun _ => .pure _

theorem regular_instructionParent : Regular F (instructionParent i) := by
  refine .bind regular_payload fun p => ?_
  split
  · exact .pure _
  · exact regular_wrongKind

theorem regular_blockInstructions : Regular F (blockInstructions b) := by
  refine .bind regular_payload fun p => ?_
  split
  · exact .pure _
  · exact regular_wrongKind

theorem regular_anchorBlock : Regular F (anchorBlock i) := by
  refine .bind regular_instructionParent fun p => ?_
  split
  · exact .pure _
  · exact .raise ⟨id, id, id⟩

theorem regular_expectDistinct {a : ValueId} : Regular F (expectDistinct v a) :=
  .ite (.raise ⟨id, id, id⟩) (.pure _)

theorem regular_shareFunction {c : ValueId} : Regular F (Edit.shareFunction b c) :=
  .bind regular_blockParent fun _ => .ite (.pure _) (.bind regular_blockParent fun _ => .pure _)

theorem regular_functionBlocks : Regular F (functionBlocks f) := by
  refine .bind regular_payload fun p => ?_
  split
  · exact .pure _
  · exact regular_wrongKind

theorem regular_anchorFunction : Regular F (anchorFunction b) := by
  refine .bind regular_blockParent fun p => ?_
  split
  · exact .pure _
  · exact .raise ⟨id, id, id⟩

theorem regular_functionArguments : Regular F (functionArguments f) := by
  refine .bind regular_payload fun p => ?_
  split
  · exact .pure _
  · exact regular_wrongKind

theorem regular_functionModule : Regular F (functionModule f) := by
  refine .bind regular_payload fun p => ?_
  split
  · exact .pure _
  · exact regular_wrongKind

theorem regular_globalModule : Regular F (globalModule v) := by
  refine .bind regular_payload fun p => ?_
  split
  · exact .pure _
  · exact regular_wrongKind

theorem regular_namedMetadataNames : Regular F (namedMetadataNames m) :=
  .bind regular_module fun _ => .pure _

end Places

section Members

theorem regular_blockingUses {inside : List ValueId} : Regular F (blockingUses v inside) :=
  .read_bind (fun _ => .bind regular_users fun _ => .pure _) fun _ _ => rfl

theorem regular_expectErasable {members inside : List ValueId} :
    Regular F (expectErasable members inside) :=
  .forM (fun _ => .bind regular_blockingUses fun _ => .ite
    (.bind regular_kind fun _ => .raise ⟨id, id, id⟩) (.pure _)) _

theorem regular_expectUnused {k : ValueKind} : Regular F (expectUnused v k) :=
  .bind regular_expectKind fun _ => .bind regular_useCount fun _ =>
    .ite (.raise ⟨id, id, id⟩) (.pure _)

theorem regular_blockMembers : Regular F (blockMembers b) :=
  .bind regular_blockInstructions fun _ => .pure _

theorem regular_functionMembers : Regular F (functionMembers f) :=
  .bind regular_functionArguments fun _ => .bind regular_functionBlocks fun _ =>
    .bind (.mapM (fun _ => regular_blockMembers) _) fun _ => .pure _

theorem regular_moduleMembers : Regular F (moduleMembers m) :=
  .bind regular_module fun _ => .bind
    (.mapM (fun _ => .bind regular_functionMembers fun _ => .pure _) _) fun _ => .pure _

end Members

end Query

theorem Query.Regular.ends_bind {s : Store} {q : Query α} {f : α → Edit β}
    {Q : β → Store → Prop} {E : Fault → Store → Prop} (hq : q.Regular F) (hE : ∀ x, F x → E x s)
    (h : ∀ a, q s = .ok a → Edit.Ends (f a) s Q E) : Edit.Ends (liftM q >>= f) s Q E :=
  Edit.ends_bind.2 (Edit.ends_lift.2 ⟨h, fun _ hx => hE _ (hq.fault hx)⟩)

namespace Edit

/-- An edit that keeps what it is given, however it ends, and stops only with certain faults. -/
def Safe (F : Fault → Prop) (I : Store → Prop) (e : Edit α) : Prop :=
  ∀ s, I s → Ends e s (fun _ => I) fun x s' => F x ∧ I s'

namespace Safe

variable {I : Store → Prop} {e : Edit α} {f : α → Edit β}

theorem keeps (h : Safe F I e) : Keeps I e := fun s hs =>
  (h s hs).mono (fun _ _ h => h) fun _ _ h => h.2

theorem mono {F' : Fault → Prop} (h : Safe F I e) (hF : ∀ x, F x → F' x) : Safe F' I e :=
  fun s hs => (h s hs).mono (fun _ _ h => h) fun x _ h => ⟨hF x h.1, h.2⟩

theorem pure (a : α) : Safe F I (Pure.pure a : Edit α) := fun _ h => h

theorem lift {q : Query α} (h : ∀ {s x}, q s = .error x → F x) : Safe F I (liftM q : Edit α) :=
  fun _ hs => ends_lift.2 ⟨fun _ _ => hs, fun _ hx => ⟨h hx, hs⟩⟩

theorem get : Safe F I (MonadState.get : Edit Store) := fun _ h => h

theorem bind (he : Safe F I e) (hf : ∀ a, Safe F I (f a)) : Safe F I (e >>= f) :=
  fun s hs => (he s hs).bind fun a s' h => hf a s' h

theorem map (he : Safe F I e) (g : α → β) : Safe F I (g <$> e) := by
  rw [map_eq_pure_bind]
  exact he.bind fun a => .pure (g a)

theorem guard {p : Prop} [Decidable p] {d : Edit Unit} {k : Unit → Edit β}
    (hd : Safe F I d) (hk : Safe F I (k ())) : Safe F I (if p then d >>= k else k ()) := by
  split
  · exact hd.bind fun _ => hk
  · exact hk

theorem forM {f : α → Edit Unit} (h : ∀ a, Safe F I (f a)) (as : List α) :
    Safe F I (as.forM f) :=
  fun s hs => ends_forM (fun _ => I) (fun a _ s' hs' => h a s' hs') as s hs

end Safe

end Edit

end ShaderIR
