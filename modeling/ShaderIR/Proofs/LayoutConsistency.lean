import ShaderIR.Proofs.ErasureLayout
import ShaderIR.Proofs.VerificationSuccess

/-! Commands keep the layout consistent unless they stop while they erase a container or find every
counter of a scope used up. So the stores that they leave pass their verification. -/

namespace ShaderIR

namespace Command

open Edit

/-- Whether a command ends as it should in a store: what erases a container does not stop, and no
scope runs out of counters. Any other command may stop. -/
def endsProperly (s : Store) (c : Command) : Bool :=
  match c.run s with
  | .ok _ _ => true
  | .error x _ => !c.erasesContainer && x ≠ .counterExhausted

/-- Whether each of some commands ends as it should in the store that those before it leave. -/
def orderly : Store → List Command → Bool
  | _, [] => true
  | s, c :: cs => c.endsProperly s && orderly (after s c) cs

/-- What a command leaves of a consistent layout. Only where every name that counts has its entry
does it matter that a scope runs out of counters. -/
def Preserves (total : Prop) (c : Command) (s : Store) : Prop :=
  Ends c.run s (fun _ s' => s'.layout.Consistent total) fun x s' =>
    c.erasesContainer = false → (total → x ≠ .counterExhausted) → s'.layout.Consistent total

variable {s : Store} {c : Command} {total : Prop}

theorem arranges_quiet {e : Edit Unit} (h : Arranges total e) : Arranges total (quiet e) :=
  .bind h fun _ => .pure _

theorem ends_consistent {α : Type} {e : Edit α} (hs : s.Settled) (hc : s.layout.Consistent total)
    (he : Keeps (Store.SettledWith s.layout) e) :
    Ends e s (fun _ s' => s'.layout.Consistent total) fun _ s' => s'.layout.Consistent total :=
  (he s ⟨hs, rfl⟩).mono (fun _ _ h => h.2 ▸ hc) fun _ _ h => h.2 ▸ hc

theorem preserves_of_arranges (hc : s.layout.Consistent total) (h : Arranges total c.run) :
    c.Preserves total s :=
  (h s hc).mono (fun _ _ hq => hq) fun _ _ hx _ => hx

theorem preserves_of_ends (h : Ends c.run s (fun _ s' => s'.layout.Consistent total)
    fun _ s' => s'.layout.Consistent total) : c.Preserves total s :=
  h.mono (fun _ _ hq => hq) fun _ _ hx _ _ => hx

theorem preserves_of_erases {E : Fault → Store → Prop} (hc : c.erasesContainer = true)
    (h : Ends c.run s (fun _ s' => s'.layout.Consistent total) E) : c.Preserves total s :=
  h.mono (fun _ _ hq => hq) fun _ _ _ hx => by simp [hc] at hx

theorem preserves (c : Command) (hs : s.Settled) (hc : s.layout.Consistent total) :
    c.Preserves total s := by
  have hfixes {α : Type} {e : Edit α} (h : Fixes Store.layout e) : Arranges total e := .of_fixes h
  cases c with
  | internType => exact preserves_of_arranges hc ((hfixes fixes_internType).map _)
  | constInt => exact preserves_of_arranges hc ((hfixes fixes_internScalar).map _)
  | constNull => exact preserves_of_arranges hc ((hfixes fixes_internScalar).map _)
  | constUndefined => exact preserves_of_arranges hc ((hfixes fixes_internScalar).map _)
  | blockAddress => exact preserves_of_arranges hc ((hfixes fixes_blockAddress).map _)
  | setOperand =>
    exact preserves_of_arranges hc (arranges_quiet (hfixes fixes_setOperand.of_unwired))
  | pushOperand => exact preserves_of_arranges hc ((hfixes fixes_pushOperand.of_unwired).map _)
  | dropAllReferences =>
    exact preserves_of_arranges hc (arranges_quiet (hfixes fixes_dropAllReferences.of_unwired))
  | replaceAllUses =>
    exact preserves_of_ends (ends_quiet (ends_consistent hs hc safe_replaceAllUses.keeps))
  | replaceUsesIf =>
    exact preserves_of_ends (ends_consistent hs hc (safe_replaceUsesIf.keeps.map _))
  | setName => exact preserves_of_arranges hc (arranges_quiet arranges_setName)
  | takeName => exact preserves_of_arranges hc (arranges_takeName.map _)
  | createModule => exact preserves_of_arranges hc (arranges_createModule.map _)
  | eraseModule => exact preserves_of_erases rfl (ends_quiet (ends_eraseModule hs hc))
  | createFunction => exact preserves_of_arranges hc (arranges_createFunction.map _)
  | appendFunction => exact preserves_of_arranges hc (arranges_quiet arranges_appendFunction)
  | removeFunction => exact preserves_of_arranges hc (arranges_quiet arranges_removeFunction)
  | moveFunctionTo => exact preserves_of_arranges hc (arranges_quiet arranges_moveFunctionTo)
  | eraseFunction =>
    exact preserves_of_erases rfl (ends_quiet
      ((ends_eraseFunction hs hc).mono (fun _ _ h => h.2.1) fun _ _ h => h))
  | createGlobal => exact preserves_of_arranges hc (arranges_createGlobal.map _)
  | setInitializer =>
    exact preserves_of_arranges hc (arranges_quiet (hfixes fixes_setInitializer.of_unwired))
  | appendGlobal => exact preserves_of_arranges hc (arranges_quiet arranges_appendGlobal)
  | removeGlobal => exact preserves_of_arranges hc (arranges_quiet arranges_removeGlobal)
  | moveGlobalTo => exact preserves_of_arranges hc (arranges_quiet arranges_moveGlobalTo)
  | eraseGlobal =>
    exact preserves_of_ends (ends_quiet
      ((ends_eraseGlobal hs hc).mono (fun _ _ h => h.2.1) fun _ _ h => h))
  | createBlock => exact preserves_of_arranges hc (arranges_createBlock.map _)
  | createDetachedBlock => exact preserves_of_arranges hc (arranges_createDetachedBlock.map _)
  | appendBlock => exact preserves_of_arranges hc (arranges_quiet arranges_insertBlock)
  | insertBlockBefore =>
    exact preserves_of_arranges hc (arranges_quiet
      (.bind (.lift _) fun _ => .bind (.lift _) fun _ => arranges_insertBlock))
  | removeBlock => exact preserves_of_arranges hc (arranges_quiet arranges_removeBlock)
  | moveBlockBefore =>
    exact preserves_of_arranges hc (arranges_quiet
      (.bind (.lift _) fun _ => .bind (.lift _) fun _ => arranges_relocateBlock))
  | moveBlockTo => exact preserves_of_arranges hc (arranges_quiet arranges_relocateBlock)
  | eraseBlock =>
    exact preserves_of_erases rfl (ends_quiet
      ((ends_eraseBlock hs hc).mono (fun _ _ h => h.2.1) fun _ _ h => h))
  | buildInstruction => exact preserves_of_arranges hc (arranges_buildInstruction.map _)
  | appendInstruction => exact preserves_of_arranges hc (arranges_quiet arranges_insertInstruction)
  | insertInstructionBefore =>
    exact preserves_of_arranges hc (arranges_quiet arranges_insertInstructionBefore)
  | removeInstruction => exact preserves_of_arranges hc (arranges_quiet arranges_removeInstruction)
  | moveInstructionBefore =>
    exact preserves_of_arranges hc (arranges_quiet
      (.bind (.lift _) fun _ => .bind (.lift _) fun _ => arranges_relocateInstruction))
  | moveInstructionToEnd =>
    exact preserves_of_arranges hc (arranges_quiet
      (.bind (.lift _) fun _ => arranges_relocateInstruction))
  | eraseInstruction => exact preserves_of_ends (ends_quiet (ends_eraseInstruction hs hc))
  | stringNode => exact preserves_of_arranges hc ((hfixes fixes_stringNode.of_body).map _)
  | valueNode => exact preserves_of_arranges hc ((hfixes fixes_valueNode.of_body).map _)
  | tuple => exact preserves_of_arranges hc ((hfixes fixes_tuple.of_body).map _)
  | distinctTuple => exact preserves_of_arranges hc ((hfixes fixes_distinctTuple.of_body).map _)
  | temporaryTuple => exact preserves_of_arranges hc ((hfixes fixes_temporaryTuple.of_body).map _)
  | replaceNode =>
    exact preserves_of_ends (ends_quiet (ends_consistent hs hc safe_replaceNode.keeps))
  | replaceWithUniqued =>
    exact preserves_of_ends (ends_consistent hs hc (keeps_replaceWithUniqued.map _))
  | replaceWithDistinct =>
    exact preserves_of_ends (ends_consistent hs hc (keeps_replaceWithDistinct.map _))
  | eraseTemporary =>
    exact preserves_of_ends (ends_quiet (ends_consistent hs hc keeps_eraseTemporary))
  | setNodeOperand =>
    exact preserves_of_arranges hc (arranges_quiet (hfixes fixes_setNodeOperand.of_body))
  | pushNodeOperand =>
    exact preserves_of_arranges hc (arranges_quiet (hfixes fixes_pushNodeOperand.of_body))
  | insertNodeOperand =>
    exact preserves_of_arranges hc (arranges_quiet (hfixes fixes_insertNodeOperand.of_body))
  | removeNodeOperand =>
    exact preserves_of_arranges hc ((hfixes fixes_removeNodeOperand.of_body).map _)
  | trackHandle => exact preserves_of_arranges hc ((hfixes fixes_trackHandle.of_body).map _)
  | resetHandle =>
    exact preserves_of_arranges hc (arranges_quiet (hfixes fixes_resetHandle.of_body))
  | moveHandle => exact preserves_of_arranges hc ((hfixes fixes_moveHandle.of_body).map _)
  | releaseHandle =>
    exact preserves_of_arranges hc (arranges_quiet (hfixes fixes_releaseHandle.of_body))
  | wrapperValue => exact preserves_of_arranges hc ((hfixes fixes_wrapperValue).map _)
  | internTag => exact preserves_of_arranges hc ((hfixes fixes_internTag.of_body).map _)
  | setMetadata =>
    exact preserves_of_arranges hc (arranges_quiet (hfixes fixes_setMetadata.of_body))
  | addNamedMetadata =>
    exact preserves_of_arranges hc (arranges_quiet (hfixes fixes_addNamedMetadata.of_body))
  | eraseNamedMetadata =>
    exact preserves_of_arranges hc (arranges_quiet (hfixes fixes_eraseNamedMetadata.of_body))

theorem consistent_after (hs : s.Settled) (hc : s.layout.Consistent True)
    (h : c.endsProperly s = true) : (after s c).layout.Consistent True := by
  have hends := preserves c hs hc
  unfold endsProperly at h
  unfold after
  cases hrun : c.run s with
  | ok a s' => exact hends.of_ok hrun
  | error x s' =>
    simp only [hrun, Bool.and_eq_true, Bool.not_eq_true', decide_eq_true_eq] at h
    exact hends.of_error hrun h.1 fun _ => h.2

theorem consistent_empty (hash : String → UInt64) (config : Config) :
    ({ hash, config } : Store).layout.Consistent total := by
  have hres (v : ValueId) : ({ hash, config } : Store).resident? v = none := by
    rw [Store.resident?, Arena.get?_empty]
    rfl
  have hmodule (m : ModuleId) : ({ hash, config } : Store).modules.get? m = none :=
    Arena.get?_empty m
  refine ⟨⟨fun v p => ?_, fun p => ?_, fun v f i => ?_⟩, fun _ {v h sc} _ hn _ => ?_,
    fun {sc t h v} ht _ => ?_⟩
  · cases p <;> simp [Store.layout, Store.childrenAt, hres, hmodule]
  · cases p <;> simp [Store.layout, Store.childrenAt, hres, hmodule]
  · simp [Store.layout, hres]
  · simp [Store.layout, hres] at hn
  · cases sc with
    | function f =>
      obtain ⟨hf, -⟩ := Store.tables_function.1 ht
      simp [Store.layout, hres] at hf
    | module m =>
      obtain ⟨⟨dm, hm⟩, -⟩ := Store.tables_module.1 ht
      rw [hmodule] at hm
      cases hm

theorem sound_afterAll {cs ds : List Command} (h : orderly s cs = true) (hd : ds <+: cs)
    (hs : s.Settled) (hc : s.layout.Consistent True) :
    (afterAll s ds).Settled ∧ (afterAll s ds).layout.Consistent True := by
  induction ds generalizing s cs with
  | nil => exact ⟨hs, hc⟩
  | cons c ds ih =>
    obtain ⟨rest, rfl⟩ := hd
    rw [List.cons_append, orderly, Bool.and_eq_true] at h
    exact ih h.2 (List.prefix_append ds rest) (keeps_after (keeps_run c) hs)
      (consistent_after hs hc h.1)

/-- After each of some orderly commands the verification finds nothing, and no list of children
names one of them twice. -/
theorem verify_afterAll (hash : String → UInt64) (config : Config) {cs ds : List Command}
    (h : orderly { hash, config } cs = true) (hd : ds <+: cs) :
    (afterAll { hash, config } ds).verify = [] ∧
      (afterAll { hash, config } ds).ListsOnce := by
  obtain ⟨hs, hc⟩ := sound_afterAll h hd (Store.settled_empty hash config) (consistent_empty hash config)
  exact ⟨Store.verify_eq_nil hs hc, Store.listsOnce hc.placed⟩

/-- A function gets two blocks of one name and an address of the first of them; a stale value is
edited in vain; the first block goes, then the function. -/
def twoBlocks : List Command :=
  [.createModule "m", .internType .void, .internType (.function ⟨0⟩ []),
    .createFunction ⟨0⟩ "f" ⟨1⟩, .createBlock ⟨0⟩ "entry", .createBlock ⟨0⟩ "entry",
    .blockAddress ⟨0⟩ ⟨1⟩, .setOperand ⟨9⟩ 0 none, .eraseBlock ⟨1⟩, .eraseFunction ⟨0⟩]

theorem verify_afterAll_twoBlocks : orderly { config := {} } twoBlocks = true ∧
    twoBlocks.take 9 <+: twoBlocks ∧ (afterAll { config := {} } (twoBlocks.take 9)).verify = [] ∧
      (afterAll { config := {} } (twoBlocks.take 9)).ListsOnce := by
  have horderly : orderly { config := {} } twoBlocks = true := by decide +kernel
  have htake : twoBlocks.take 9 <+: twoBlocks := List.take_prefix 9 twoBlocks
  exact ⟨horderly, htake, verify_afterAll nameHash {} horderly htake⟩

end Command

end ShaderIR
