import ShaderIR.Proofs.ValueReplacement

/-! Erasing instructions, globals, blocks, functions and modules. What the steps of erasing carry is
carried by all of them. -/

namespace ShaderIR.Edit

variable {B : ValueId → Prop} {s : Store} {v b f g i : ValueId} {m : ModuleId} {α : Type}

/-- An invariant that every step of erasing carries. It may depend on some values that are known to
be no constants, as are the instructions of a block and the globals of a module. -/
structure Erodes (X : Fault → Store → Prop) (I : (ValueId → Prop) → Store → Prop) : Prop where
  weaken : ∀ {B B' : ValueId → Prop} {s : Store}, I B' s → (∀ v, B v → B' v) → I B s
  instructions : ∀ {B : ValueId → Prop} {s : Store} {b : ValueId} {insts : List ValueId}, I B s →
    Query.blockInstructions b s = .ok insts → I (fun w => B w ∨ w ∈ insts) s
  globals : ∀ {B : ValueId → Prop} {s : Store} {m : ModuleId} {d : Module}, I B s →
    s.modules.get? m = some d → I (fun w => B w ∨ w ∈ d.globals) s
  empty : ∀ {B : ValueId → Prop} {v : ValueId}, B v → Carries X (I B) (emptyOperands v)
  destroy : ∀ {B : ValueId → Prop} {v : ValueId}, Carries X (I B) (destroyValue v)
  nullify : ∀ {B : ValueId → Prop} {v : ValueId}, Carries X (I B) (nullifyBlockAddress v)
  clear : ∀ {B : ValueId → Prop} {b : ValueId},
    Carries X (I B) (modifyInstructions b fun _ => [])
  removeInstruction : ∀ {B : ValueId → Prop} {i : ValueId},
    Carries X (I B) (removeInstruction i)
  removeGlobal : ∀ {B : ValueId → Prop} {g : ValueId}, Carries X (I B) (removeGlobal g)
  removeBlock : ∀ {B : ValueId → Prop} {b : ValueId}, Carries X (I B) (removeBlock b)
  removeFunction : ∀ {B : ValueId → Prop} {f : ValueId}, Carries X (I B) (removeFunction f)
  release : ∀ {B : ValueId → Prop} {m : ModuleId} {text : String},
    Carries X (I B) (eraseNamedMetadata m text)
  drop : ∀ {B : ValueId → Prop} {m : ModuleId}, Carries X (I B) (modify fun s => { s with
    modules := s.modules.erase m
    scopes := s.scopes.erase (.module m) } : Edit Unit)

namespace Erodes

variable {X : Fault → Store → Prop} {I : (ValueId → Prop) → Store → Prop} (h : Erodes X I)

include h

theorem ends_of {B' : ValueId → Prop} {e : Edit α} (he : Carries X (I B') e) (hs : I B' s)
    (hB : ∀ v, B v → B' v) : Ends e s (fun _ => I B) fun x s' => X x s' → I B s' :=
  (he s hs).mono (fun _ _ hi => h.weaken hi hB) fun _ _ hi hx => h.weaken (hi hx) hB

theorem carries_emptyAll {vs : List ValueId} (hB : ∀ v ∈ vs, B v) :
    Carries X (I B) (vs.forM emptyOperands) := by
  induction vs with
  | nil => exact .pure _
  | cons v vs ih =>
    exact .bind (h.empty (hB v (List.mem_cons_self ..))) fun _ =>
      ih fun w hw => hB w (List.mem_cons_of_mem _ hw)

theorem carries_eraseInstruction : Carries X (I B) (eraseInstruction i) :=
  .bind (.lift _) fun _ => .bind (.lift _) fun _ => .guard h.removeInstruction h.destroy

theorem carries_eraseGlobal : Carries X (I B) (eraseGlobal g) :=
  .bind (.lift _) fun _ => .bind (.lift _) fun _ => .guard h.removeGlobal h.destroy

theorem carries_eraseBlock : Carries X (I B) (eraseBlock b) := by
  have hnullify : Carries X (I B) (nullifyBlockAddresses b) :=
    .bind (.lift _) fun _ => .bind .get fun _ => .forM (fun _ => h.nullify) _
  have htail : Carries X (I B) (do
      let insts ← Query.blockInstructions b
      modifyInstructions b fun _ => []
      insts.forM emptyOperands
      insts.forM destroyValue
      destroyValue b) := by
    intro s hs
    refine ends_bind.2 (ends_lift.2 ⟨fun insts hinsts => ?_, fun _ _ _ => hs⟩)
    -- The instructions leave the list of the block before they let go of their operands.
    refine h.ends_of ?_ (h.instructions hs hinsts) fun _ => .inl
    exact .bind h.clear fun _ => .bind (h.carries_emptyAll fun _ => .inr) fun _ =>
      .bind (.forM (fun _ => h.destroy) _) fun _ => h.destroy
  exact .bind (.lift _) fun _ => .bind (.lift _) fun _ => .bind (.lift _) fun _ =>
    .bind hnullify fun _ => .bind (.lift _) fun _ => .guard h.removeBlock htail

theorem carries_emptyBody : Carries X (I B) (emptyBody f) := by
  refine .bind (.lift _) fun blocks => .forM (fun b => ?_) blocks
  intro s hs
  refine ends_bind.2 (ends_lift.2 ⟨fun insts hinsts => ?_, fun _ _ _ => hs⟩)
  exact h.ends_of (h.carries_emptyAll fun _ => .inr) (h.instructions hs hinsts) fun _ => .inl

theorem carries_eraseFunction : Carries X (I B) (eraseFunction f) := by
  have htail : Carries X (I B) (do
      emptyBody f
      (← Query.functionBlocks f).forM eraseBlock
      (← Query.functionArguments f).forM destroyValue
      Query.expectEmptyScope (.function f)
      destroyValue f) :=
    .bind h.carries_emptyBody fun _ => .bind (.lift _) fun _ =>
      .bind (.forM (fun _ => h.carries_eraseBlock) _) fun _ => .bind (.lift _) fun _ =>
        .bind (.forM (fun _ => h.destroy) _) fun _ => .bind (.lift _) fun _ => h.destroy
  exact .bind (.lift _) fun _ => .bind (.lift _) fun _ => .bind (.lift _) fun _ =>
    .bind (.lift _) fun _ => .guard h.removeFunction htail

theorem carries_eraseModule : Carries X (I B) (eraseModule m) := by
  intro s hs
  refine ends_bind.2 (ends_lift.2 ⟨fun d hd => ?_, fun _ _ _ => hs⟩)
  refine h.ends_of ?_ (h.globals hs (Query.module_ok.1 hd)) fun _ => .inl
  exact .bind (.lift _) fun _ => .bind (.lift _) fun _ =>
    .bind (.forM (fun _ => h.carries_emptyBody) _) fun _ =>
      .bind (h.carries_emptyAll fun _ => .inr) fun _ =>
        .bind (.forM (fun _ => h.carries_eraseFunction) _) fun _ =>
          .bind (.forM (fun _ => h.carries_eraseGlobal) _) fun _ => .bind (.lift _) fun _ =>
            .bind (.forM (fun _ => h.release) _) fun _ => .bind (.lift _) fun _ => h.drop

end Erodes

theorem Keeps.settled {e : Edit α} (h : ∀ L, Keeps (Store.SettledWith L) e) :
    Keeps Store.Settled e := fun s hs =>
  (h s.layout s ⟨hs, rfl⟩).mono (fun _ _ hs' => hs'.1) fun _ _ hs' => hs'.1

theorem keeps_constNull {ty : TypeId} : Keeps Store.Settled (constNull ty) :=
  keeps_internScalar (by simp)

theorem keeps_nullifyBlockAddress : Keeps Store.Settled (nullifyBlockAddress v) :=
  .bind (.lift _) fun _ => .bind keeps_constNull fun _ =>
    .bind (.settled fun _ => safe_replaceAllUses.keeps) fun _ => keeps_destroyValue

theorem erodes_settled : Erodes (fun _ _ => True) fun _ => Store.Settled where
  weaken hs _ := hs
  instructions hs _ := hs
  globals hs _ := hs
  empty _ := keeps_emptyOperands.carries
  destroy := keeps_destroyValue.carries
  nullify := keeps_nullifyBlockAddress.carries
  clear := (keeps_of_fixes fixes_modifyInstructions).carries
  removeInstruction := (keeps_of_fixes fixes_removeInstruction).carries
  removeGlobal := (keeps_of_fixes fixes_removeGlobal).carries
  removeBlock := (keeps_of_fixes fixes_removeBlock).carries
  removeFunction := (keeps_of_fixes fixes_removeFunction).carries
  release := keeps_eraseNamedMetadata.carries
  drop _ hs := hs

theorem keeps_emptyBody : Keeps Store.Settled (emptyBody f) :=
  (erodes_settled.carries_emptyBody (B := fun _ => False)).keeps

theorem keeps_eraseInstruction : Keeps Store.Settled (eraseInstruction i) :=
  (erodes_settled.carries_eraseInstruction (B := fun _ => False)).keeps

theorem keeps_eraseGlobal : Keeps Store.Settled (eraseGlobal g) :=
  (erodes_settled.carries_eraseGlobal (B := fun _ => False)).keeps

theorem keeps_eraseBlock : Keeps Store.Settled (eraseBlock b) :=
  (erodes_settled.carries_eraseBlock (B := fun _ => False)).keeps

theorem keeps_eraseFunction : Keeps Store.Settled (eraseFunction f) :=
  (erodes_settled.carries_eraseFunction (B := fun _ => False)).keeps

theorem keeps_eraseModule : Keeps Store.Settled (eraseModule m) :=
  (erodes_settled.carries_eraseModule (B := fun _ => False)).keeps

end ShaderIR.Edit
