import ShaderIR.Proofs.Views

/-! What queries answer, in terms of the cells that they read. -/

namespace ShaderIR.Query

variable {α β : Type} {s : Store} {v : ValueId} {n : NodeId} {m : ModuleId} {h : HandleId}

@[simp] theorem pure_ok {a b : α} : (pure a : Query α) s = .ok b ↔ a = b := by
  change Except.ok a = Except.ok b ↔ a = b
  rw [Except.ok.injEq]

@[simp] theorem throw_ok {x : Fault} {b : α} : ¬ (throw x : Query α) s = .ok b := by
  rintro ⟨⟩

@[simp] theorem raise_ok {x : Violation} {b : α} : ¬ (raise x : Query α) s = .ok b := by
  rintro ⟨⟩

@[simp] theorem read_ok {b : Store} : (read : Query Store) s = .ok b ↔ s = b := by
  change Except.ok s = Except.ok b ↔ s = b
  rw [Except.ok.injEq]

@[simp] theorem bind_ok {q : Query α} {f : α → Query β} {b : β} :
    (q >>= f) s = .ok b ↔ ∃ a, q s = .ok a ∧ f a s = .ok b := by
  change (Except.bind (q s) fun a => f a s) = .ok b ↔ _
  cases q s <;> simp [Except.bind]

theorem bind_error {q : Query α} {f : α → Query β} {x : Fault} :
    (q >>= f) s = .error x ↔ q s = .error x ∨ ∃ a, q s = .ok a ∧ f a s = .error x := by
  change (Except.bind (q s) fun a => f a s) = .error x ↔ _
  cases q s <;> simp [Except.bind]

@[simp] theorem map_ok {q : Query α} {f : α → β} {b : β} :
    (f <$> q) s = .ok b ↔ ∃ a, q s = .ok a ∧ f a = b := by
  change Except.map f (q s) = .ok b ↔ _
  cases q s <;> simp [Except.map]

@[simp] theorem ite_ok {p : Prop} [Decidable p] {q q' : Query α} {a : α} :
    (if p then q else q') s = .ok a ↔ p ∧ q s = .ok a ∨ ¬p ∧ q' s = .ok a := by
  split <;> simp [*]

@[simp] theorem value_ok {d : Value} : value v s = .ok d ↔ s.values.get? v = some d := by
  unfold value
  split <;> simp [*]

@[simp] theorem module_ok {d : Module} : module m s = .ok d ↔ s.modules.get? m = some d := by
  unfold module
  split <;> simp [*]

@[simp] theorem node_ok {d : Node} : node n s = .ok d ↔ s.metadata.nodes.get? n = some d := by
  unfold node
  split <;> simp [*]

@[simp] theorem handle_ok {target : Option NodeId} :
    handle h s = .ok target ↔ s.metadata.handles.get? h = some target := by
  unfold handle
  split <;> simp [*]

@[simp] theorem shape_ok {ty : TypeId} {sh : TypeShape} :
    shape ty s = .ok sh ↔ s.types.get? ty = some sh := by
  unfold shape
  split <;> simp [*]

@[simp] theorem kind_ok {k : ValueKind} :
    kind v s = .ok k ↔ ∃ d, s.values.get? v = some d ∧ d.kind = k := by
  simp [kind]

@[simp] theorem typeOf_ok {ty : TypeId} :
    typeOf v s = .ok ty ↔ ∃ d, s.values.get? v = some d ∧ d.ty = ty := by
  simp [typeOf]

@[simp] theorem name_ok {o : Option String} :
    name v s = .ok o ↔ ∃ d, s.values.get? v = some d ∧ d.name = o := by
  simp [name]

@[simp] theorem nameHash_ok {k : UInt64} :
    nameHash v s = .ok k ↔ ∃ d, s.values.get? v = some d ∧ d.nameHash = k := by
  simp [nameHash]

@[simp] theorem payload_ok {p : Payload} :
    payload v s = .ok p ↔ ∃ d, s.values.get? v = some d ∧ d.payload = p := by
  simp [payload]

@[simp] theorem expectKind_ok {k : ValueKind} {u : Unit} :
    expectKind v k s = .ok u ↔ ∃ d, s.values.get? v = some d ∧ d.kind = k := by
  simp [expectKind]

@[simp] theorem wrongKind_ok {k : ValueKind} {a : α} : ¬ wrongKind v k s = .ok a := by
  simp [wrongKind]

@[simp] theorem useList_ok {es : List EdgeId} :
    useList v s = .ok es ↔ (∃ d, s.values.get? v = some d) ∧ s.uses.useList v = es := by
  simp [useList]

@[simp] theorem useCount_ok {k : Nat} :
    useCount v s = .ok k ↔ (∃ d, s.values.get? v = some d) ∧ (s.uses.useList v).length = k := by
  simp only [useCount, bind_ok, useList_ok, pure_ok]
  grind

@[simp] theorem operandCount_ok {k : Nat} : operandCount v s = .ok k ↔
    (∃ d, s.values.get? v = some d) ∧ (s.uses.slotsOf v).length = k := by
  simp [operandCount]

@[simp] theorem operandEdge_ok {i : Nat} {e : EdgeId} : operandEdge v i s = .ok e ↔
    (∃ d, s.values.get? v = some d) ∧ (s.uses.slotsOf v)[i]? = some e := by
  simp only [operandEdge, bind_ok, value_ok, read_ok]
  cases hi : (s.uses.slotsOf v)[i]? <;> simp [hi]

@[simp] theorem nodeOperands_ok {ops : List (Option NodeId)} :
    nodeOperands n s = .ok ops ↔
      ∃ d, s.metadata.nodes.get? n = some d ∧ d.content.operands = ops := by
  simp [nodeOperands]

@[simp] theorem nodeKind_ok {k : NodeKind} : nodeKind n s = .ok k ↔
    ∃ d, s.metadata.nodes.get? n = some d ∧ d.content.kind = k := by
  simp [nodeKind]

@[simp] theorem storage_ok {k : Storage} : storage n s = .ok k ↔
    ∃ d, s.metadata.nodes.get? n = some d ∧ d.storage = k := by
  simp [storage]

@[simp] theorem attachments_ok {as : List (TagId × NodeId)} :
    attachments v s = .ok as ↔ ∃ d, s.values.get? v = some d ∧ d.attachments = as := by
  simp [attachments]

@[simp] theorem attachment_ok {tag : TagId} {o : Option NodeId} :
    attachment v tag s = .ok o ↔ ∃ d, s.values.get? v = some d ∧
      (d.attachments.find? (·.1 = tag)).map Prod.snd = o := by
  simp only [attachment, bind_ok, attachments_ok, pure_ok]
  grind

@[simp] theorem wrappedNode_ok {o : Option NodeId} :
    wrappedNode v s = .ok o ↔ ∃ d, s.values.get? v = some d ∧ d.wrapped? = o := by
  simp only [wrappedNode, bind_ok, payload_ok, Value.wrapped?]
  constructor
  · rintro ⟨p, ⟨d, hd, rfl⟩, hp⟩
    exact ⟨d, hd, by cases hd' : d.payload <;> simp_all⟩
  · rintro ⟨d, hd, rfl⟩
    exact ⟨d.payload, ⟨d, hd, rfl⟩, by cases d.payload <;> simp⟩

@[simp] theorem expectSameType_ok {w : ValueId} {u : Unit} : expectSameType v w s = .ok u ↔
    ∃ d d', s.values.get? v = some d ∧ s.values.get? w = some d' ∧ d'.ty = d.ty := by
  simp only [expectSameType, bind_ok, typeOf_ok, ite_ok, raise_ok, and_false, false_or, pure_ok,
    and_true, ne_eq, Decidable.not_not]
  constructor
  · rintro ⟨_, ⟨d, hd, rfl⟩, _, ⟨d', hd', rfl⟩, hty⟩
    exact ⟨d, d', hd, hd', hty.symm⟩
  · rintro ⟨d, d', hd, hd', hty⟩
    exact ⟨_, ⟨d, hd, rfl⟩, _, ⟨d', hd', rfl⟩, hty.symm⟩

@[simp] theorem expectTemporary_ok {u : Unit} : expectTemporary n s = .ok u ↔
    ∃ d, s.metadata.nodes.get? n = some d ∧ d.storage = .temporary := by
  simp [expectTemporary]

theorem editableOperands_ok {ops : List (Option NodeId)} : editableOperands n s = .ok ops ↔
    ∃ d, s.metadata.nodes.get? n = some d ∧ d.storage ≠ .uniqued ∧ d.content = .tuple ops := by
  simp only [editableOperands, bind_ok, node_ok, ite_ok, raise_ok, false_and, and_false,
    exists_false, false_or]
  refine exists_congr fun d => and_congr_right fun _ => and_congr_right fun _ => ?_
  cases d.content <;> simp

end ShaderIR.Query

namespace ShaderIR.Edit

variable {s : Store} {Q : Unit → Store → Prop} {E : Fault → Store → Prop}

theorem ends_modifyValue {v : ValueId} {d : Value} (h : s.values.get? v = some d)
    (f : Value → Value) : Ends (modifyValue v f) s Q E ↔ Q () (s.modifyValue v f) := by
  unfold modifyValue
  rw [ends_bind, ends_lift_ok (Query.value_ok.2 h)]
  exact Iff.rfl

theorem ends_modifyNode {n : NodeId} {d : Node} (h : s.metadata.nodes.get? n = some d)
    (f : Node → Node) : Ends (modifyNode n f) s Q E ↔
      Q () (s.modifyMetadata fun md => { md with nodes := md.nodes.modify n f }) := by
  unfold modifyNode
  rw [ends_bind, ends_lift_ok (Query.node_ok.2 h)]
  exact Iff.rfl

end ShaderIR.Edit
