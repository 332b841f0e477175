import ShaderIR.Proofs.Views

/-! Placing and naming values. Attaching, detaching, moving and naming leave the core of the store
as it was, however they end. All but what puts instructions and globals into lists, and takes them
out, leaves alone every view that shows neither names nor parents. -/

namespace ShaderIR

def Value.label (d : Value) : Option String × UInt64 := (d.name, d.nameHash)

def Value.unlabelled (d : Value) : Value := { d with name := none, nameHash := 0 }

/-- A view of the store that does not show the symbol tables. -/
class Untabled {γ : Type} (view : Store → γ) : Prop where
  table : ∀ (s : Store) (scope : Scope) (t : SymbolTable), view (s.setTable scope t) = view s

class Nameless {γ : Type} (view : Store → γ) : Prop extends Untabled view where
  name : ∀ (s : Store) (v : ValueId) {k : Value → Value},
    (∀ d, (k d).unlabelled = d.unlabelled) → view (s.modifyValue v k) = view s

/-- A view of the store that shows neither parents nor what functions consist of. -/
class Unplaced {γ : Type} (view : Store → γ) : Prop where
  value : ∀ (s : Store) (v : ValueId) {k : Value → Value}, (∀ d, (k d).bare = d.bare) →
    (∀ d, (k d).payload.instructions = d.payload.instructions) →
    (∀ d, (k d).label = d.label) → view (s.modifyValue v k) = view s
  module : ∀ (s : Store) (m : ModuleId) {k : Module → Module}, (∀ d, (k d).globals = d.globals) →
    view (s.modifyModule m k) = view s

class Blind {γ : Type} (view : Store → γ) : Prop extends Nameless view, Unplaced view

instance : Blind Store.core where
  value s v _ h _ _ := s.core_modifyValue_of_bare v fun d _ => h d
  module _ _ _ _ := rfl
  table _ _ _ := rfl
  name s v k h := s.core_modifyValue_of_bare v fun d _ => by
    rw [show (k d).bare = (k d).unlabelled.bare from rfl, h]
    rfl

namespace Edit

variable {γ : Type} {view : Store → γ}
variable {v b i f g : ValueId} {m : ModuleId} {anchor : Option ValueId}

section Unplaced

variable [Unplaced view]

theorem fixes_modifyValue {k : Value → Value} (h : ∀ d, (k d).bare = d.bare)
    (hi : ∀ d, (k d).payload.instructions = d.payload.instructions)
    (hn : ∀ d, (k d).label = d.label) :
    Fixes view (modifyValue v k) :=
  .bind (.lift _) fun _ => .modify fun s => Unplaced.value s v h hi hn

theorem fixes_modifyModule {k : Module → Module} (h : ∀ d, (k d).globals = d.globals) :
    Fixes view (modifyModule m k) :=
  .bind (.lift _) fun _ => .modify fun s => Unplaced.module s m h

theorem fixes_setInstructionParent {p : Option ValueId} :
    Fixes view (setInstructionParent i p) := by
  refine fixes_modifyValue (fun d => ?_) (fun d => ?_) fun d => ?_ <;>
  · obtain ⟨_, p, _, _, _⟩ := d
    cases p <;> rfl

theorem fixes_setBlockParent {p : Option ValueId} : Fixes view (setBlockParent b p) := by
  refine fixes_modifyValue (fun d => ?_) (fun d => ?_) fun d => ?_ <;>
  · obtain ⟨_, p, _, _, _⟩ := d
    cases p <;> rfl

theorem fixes_modifyBlocks {k : List ValueId → List ValueId} : Fixes view (modifyBlocks f k) := by
  refine .bind (.lift _) fun _ => fixes_modifyValue (fun d => ?_) (fun d => ?_) fun d => ?_ <;>
  · obtain ⟨_, p, _, _, _⟩ := d
    cases p <;> rfl

theorem fixes_setFunctionModule {p : Option ModuleId} :
    Fixes view (setFunctionModule f p) := by
  refine fixes_modifyValue (fun d => ?_) (fun d => ?_) fun d => ?_ <;>
  · obtain ⟨_, p, _, _, _⟩ := d
    cases p <;> rfl

theorem fixes_setGlobalModule {p : Option ModuleId} : Fixes view (setGlobalModule g p) := by
  refine fixes_modifyValue (fun d => ?_) (fun d => ?_) fun d => ?_ <;>
  · obtain ⟨_, p, _, _, _⟩ := d
    cases p <;> rfl

end Unplaced

theorem fixes_unregisterName [Untabled view] : Fixes view (unregisterName v) := by
  refine .bind (.lift _) fun d => .ite (.pure _) (.bind (.lift _) fun scope => ?_)
  split
  · exact .bind (.lift _) fun table => .ite (.modify fun s => Untabled.table s _ _) (.pure _)
  · exact .pure _

section Naming

variable [Nameless view]

theorem fixes_rename {k : Value → Value} (h : ∀ d, (k d).unlabelled = d.unlabelled) :
    Fixes view (modifyValue v k) :=
  .bind (.lift _) fun _ => .modify fun s => Nameless.name s v h

theorem fixes_registerName : Fixes view (registerName v) := by
  refine .bind (.lift _) fun scope => ?_
  split
  · refine .bind (.lift _) fun name => ?_
    split
    · refine .bind (fixes_rename fun _ => rfl) fun _ => .bind (.lift _) fun table => ?_
      refine .bind .get fun _ => .bind (.modify fun s => Untabled.table s _ _) fun _ => ?_
      split
      · exact .throw _
      · exact fixes_rename fun _ => rfl
    · exact .pure _
  · exact .pure _

theorem fixes_writeName {text : String} : Fixes view (writeName v text) :=
  .ite (.pure _) (.bind .get fun _ => fixes_rename fun _ => rfl)

theorem fixes_setName {text : String} : Fixes view (setName v text) := by
  refine .bind (.lift _) fun kind => .guard (.raise _) (.bind fixes_unregisterName fun _ => ?_)
  exact .bind (fixes_rename fun _ => rfl) fun _ => .bind fixes_writeName fun _ =>
    fixes_registerName

theorem fixes_takeName : Fixes view (takeName v) := by
  refine .bind fixes_unregisterName fun _ => .bind (.lift _) fun name => ?_
  exact .bind (fixes_rename fun _ => rfl) fun _ => .pure _

end Naming

section Instructions

theorem fixes_modifyInstructions {k : List ValueId → List ValueId} :
    Fixes Store.core (modifyInstructions b k) :=
  .bind (.lift _) fun _ => .bind (.lift _) fun _ => .modify fun s =>
    s.core_modifyValue_of_bare b fun d _ => by
      obtain ⟨_, p, _, _, _⟩ := d
      cases p <;> rfl

theorem fixes_placeInstruction : Fixes Store.core (placeInstruction b i anchor) :=
  .bind fixes_setInstructionParent fun _ => fixes_modifyInstructions

theorem fixes_insertInstruction : Fixes Store.core (insertInstruction b i anchor) :=
  .bind (.lift _) fun _ => .bind (.lift _) fun _ => .guard (.raise _)
    (.bind fixes_placeInstruction fun _ => fixes_registerName)

theorem fixes_insertInstructionBefore {a : ValueId} :
    Fixes Store.core (insertInstructionBefore i a) :=
  .bind (.lift _) fun _ => .bind (.lift _) fun _ => fixes_insertInstruction

theorem Carries.buildInstruction {X : Fault → Store → Prop} {I : Store → Prop} {opcode : String}
    {ty : TypeId} {os : List (Option ValueId)} {name : Option String} {placement : Placement}
    (hcreate : Carries X I (createInstruction opcode ty os))
    (hname : ∀ {i text}, Carries X I (setName i text))
    (hinsert : ∀ {b i anchor}, Carries X I (insertInstruction b i anchor)) :
    Carries X I (buildInstruction opcode ty os name placement) := by
  refine .bind hcreate fun i => ?_
  have hbefore {a : ValueId} : Carries X I (insertInstructionBefore i a) :=
    .bind (.lift _) fun _ => .bind (.lift _) fun _ => hinsert
  cases name with
  | none =>
    cases placement with
    | floating => exact .pure _
    | append b => exact .bind hinsert fun _ => .pure _
    | before a => exact .bind hbefore fun _ => .pure _
  | some text =>
    refine .bind hname fun _ => ?_
    cases placement with
    | floating => exact .pure _
    | append b => exact .bind hinsert fun _ => .pure _
    | before a => exact .bind hbefore fun _ => .pure _

theorem fixes_removeInstruction : Fixes Store.core (removeInstruction i) := by
  refine .bind (.lift _) fun b => ?_
  split
  · exact .bind fixes_unregisterName fun _ => .bind fixes_modifyInstructions fun _ =>
      fixes_setInstructionParent
  · exact .raise _

theorem fixes_relocateInstruction : Fixes Store.core (relocateInstruction i b anchor) := by
  refine .bind (.lift _) fun current => ?_
  split
  · exact fixes_insertInstruction
  · refine .bind (.lift _) fun shared => .ite ?_ ?_
    · exact .bind fixes_modifyInstructions fun _ => fixes_placeInstruction
    · exact .bind fixes_removeInstruction fun _ => fixes_insertInstruction

end Instructions

section Blocks

variable [Blind view]

theorem fixes_insertBlock : Fixes view (insertBlock f b anchor) :=
  .bind (.lift _) fun _ => .bind (.lift _) fun _ => .guard (.raise _)
    (.bind fixes_setBlockParent fun _ => .bind fixes_modifyBlocks fun _ =>
      .bind fixes_registerName fun _ => .bind (.lift _) fun insts =>
        .forM (fun _ => fixes_registerName) insts)

theorem fixes_removeBlock : Fixes view (removeBlock b) := by
  refine .bind (.lift _) fun f => ?_
  split
  · refine .bind (.lift _) fun insts => .bind (.forM (fun _ => fixes_unregisterName) insts) ?_
    exact fun _ => .bind fixes_unregisterName fun _ => .bind fixes_modifyBlocks fun _ =>
      fixes_setBlockParent
  · exact .raise _

theorem fixes_relocateBlock : Fixes view (relocateBlock b f anchor) := by
  refine .bind (.lift _) fun current => ?_
  split
  · exact fixes_insertBlock
  · refine .ite fixes_modifyBlocks ?_
    exact .bind fixes_removeBlock fun _ => fixes_insertBlock

end Blocks

section Modules

variable [Blind view]

theorem fixes_createModule {text : String} : Fixes Store.core (createModule text) :=
  fun _ => Keeps.modifyGet fun _ hs => hs

theorem fixes_appendFunction : Fixes view (appendFunction m f) :=
  .bind (.lift _) fun _ => .bind (.lift _) fun _ => .guard (.raise _)
    (.bind fixes_setFunctionModule fun _ => .bind (fixes_modifyModule fun _ => rfl) fun _ =>
      fixes_registerName)

theorem fixes_removeFunction : Fixes view (removeFunction f) := by
  refine .bind (.lift _) fun m => ?_
  split
  · exact .bind fixes_unregisterName fun _ => .bind (fixes_modifyModule fun _ => rfl) fun _ =>
      fixes_setFunctionModule
  · exact .raise _

theorem fixes_moveFunctionTo : Fixes view (moveFunctionTo f m) := by
  refine .bind (.lift _) fun current => ?_
  split
  · exact fixes_appendFunction
  · refine .ite (fixes_modifyModule fun _ => rfl) ?_
    exact .bind fixes_removeFunction fun _ => fixes_appendFunction

theorem fixes_modifyGlobals {k : Module → Module} : Fixes Store.core (modifyModule m k) :=
  .bind (.lift _) fun _ => .modify fun _ => rfl

theorem fixes_appendGlobal : Fixes Store.core (appendGlobal m g) :=
  .bind (.lift _) fun _ => .bind (.lift _) fun _ => .guard (.raise _)
    (.bind fixes_setGlobalModule fun _ => .bind fixes_modifyGlobals fun _ =>
      fixes_registerName)

theorem fixes_removeGlobal : Fixes Store.core (removeGlobal g) := by
  refine .bind (.lift _) fun m => ?_
  split
  · exact .bind fixes_unregisterName fun _ => .bind fixes_modifyGlobals fun _ =>
      fixes_setGlobalModule
  · exact .raise _

theorem fixes_moveGlobalTo : Fixes Store.core (moveGlobalTo g m) :=
  .bind (.lift _) fun _ => .ite (.bind fixes_removeGlobal fun _ => fixes_appendGlobal)
    fixes_appendGlobal

end Modules

end Edit

end ShaderIR
