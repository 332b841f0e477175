import ShaderIR.Proofs.ScopeMoves

/-! Edits that rename nothing. A value that is named as it was, that is put back where its scope
is the same, or that moves within its scope keeps its name, and no table changes. What is put back
before the value that followed it leaves the whole store as it was. -/

namespace ShaderIR

def Payload.unhoused : Payload → Payload
  | .block .. => .block none []
  | .function m arguments _ => .function m arguments []
  | .instruction _ opcode => .instruction none opcode
  | p => p

def Value.unhoused (d : Value) : Value :=
  { d with payload := d.payload.unhoused, name := none, nameHash := 0 }

theorem Payload.eq_of_unhoused {p p' : Payload} (h : p'.unhoused = p.unhoused)
    (hplace : p'.place = p.place) (hblocks : p'.blocks = p.blocks)
    (hinsts : p'.instructions = p.instructions) : p' = p := by
  cases p <;> cases p' <;> cases h
  case block.block =>
    exact congrArg₂ block (Option.map_injective (fun _ _ => Place.blocks.inj) hplace) hinsts
  case function.function m arguments _ _ => exact congrArg (function m arguments) hblocks
  case instruction.instruction opcode _ =>
    exact congrArg (instruction · opcode)
      (Option.map_injective (fun _ _ => Place.instructions.inj) hplace)
  all_goals rfl

theorem Value.eq_of_unhoused {d d' : Value} (h : d'.unhoused = d.unhoused) (hl : d'.label = d.label)
    (hplace : d'.payload.place = d.payload.place) (hblocks : d'.payload.blocks = d.payload.blocks)
    (hinsts : d'.payload.instructions = d.payload.instructions) : d' = d := by
  obtain ⟨ty, p, name, hash, as⟩ := d
  obtain ⟨ty', p', name', hash', as'⟩ := d'
  simp only [Value.unhoused, Value.mk.injEq, true_and] at h
  obtain ⟨rfl, hp, rfl⟩ := h
  obtain ⟨rfl, rfl⟩ := Prod.mk.inj hl
  rw [Payload.eq_of_unhoused hp hplace hblocks hinsts]

namespace Store

def unhoused (s : Store) : Store := { s with values := s.values.map Value.unhoused, scopes := ∅ }

variable {s s' : Store} {v i b c : ValueId} {L : Layout} {o : Option ValueId}

theorem unhoused_modifyValue {k : Value → Value} (h : ∀ d, (k d).unhoused = d.unhoused) :
    (s.modifyValue v k).unhoused = s.unhoused :=
  congrArg (fun values => { s with values := values, scopes := ∅ })
    (Arena.map_modify_of_eq fun d _ => h d)

theorem Resettles.eq_self (h : s.Resettles s.layout s') (hc : s.layout.Consistent True)
    (hu : s'.unhoused = s.unhoused) : s' = s := by
  have hvalues : s'.values.map Value.unhoused = s.values.map Value.unhoused :=
    congrArg Store.values hu
  have hsame : s'.values = s.values := by
    refine Arena.eq_of_map hvalues fun v d d' hd hd' hdd' => ?_
    have hlabel := congrArg (·.get? v) h.awaits.labels
    simp only [get?_labels, hd, hd', Option.map_some, Option.some.injEq] at hlabel
    refine Value.eq_of_unhoused hdd' hlabel ?_ ?_ ?_
    · rw [← layout_place hd, ← layout_place hd', h.renamed.place]
    · rw [← layout_blocks hd, ← layout_blocks hd', h.renamed.children]
    · rw [← layout_instructions hd, ← layout_instructions hd', h.renamed.children]
  have hscopes := h.awaits.scopes_eq hc
  have hrest (s : Store) : s = { s.unhoused with values := s.values, scopes := s.scopes } := rfl
  rw [hrest s', hrest s, hu, hsame, hscopes]

theorem keepsNames_of_registry (hl : s'.labels = s.labels) (hr : s'.registry = s.registry) :
    s.KeepsNames s' :=
  keepsNames_of_labels hl (congrArg (fun r => r.2.2) hr)

theorem scope_of_block (hb : s.layout.kind b = some .block) :
    ∃ o : Option ValueId, s.layout.place b = o.map .blocks ∧ s.layout.scope b = o.map .function := by
  cases hplace : s.layout.place b with
  | none => exact ⟨none, rfl, Layout.scope_of_unplaced hplace (position_of_kind hb (by simp))⟩
  | some p =>
    have hkind := kind_of_place hplace
    rw [hb] at hkind
    cases p <;> cases hkind
    next f => exact ⟨some f, rfl, by simp [Layout.scope, hplace]⟩

theorem scope_of_member (hi : s.layout.place i = some (.instructions c))
    (hc : s.layout.kind c = some .block) : s.layout.scope i = s.layout.scope c := by
  obtain ⟨o, hplace, hscope⟩ := scope_of_block hc
  rw [hscope]
  cases o <;> simp [Layout.scope, hi, hplace]

end Store

instance : Nameless Store.unhoused where
  table _ _ _ := rfl
  name _ _ k h := Store.unhoused_modifyValue fun d => by
    rw [show (k d).unhoused = (k d).unlabelled.unhoused from rfl, h]
    rfl

namespace Edit

open Store Layout

variable {s : Store} {v i b c f g : ValueId} {m : ModuleId} {a : ValueId} {anchor : Option ValueId}
variable {o : Option ValueId} {Q : Unit → Store → Prop} {E : Fault → Store → Prop}
variable {hash : String → UInt64}

section Unhoused

theorem unhoused_setInstructionParent : Fixes Store.unhoused (setInstructionParent i o) :=
  .bind (.lift _) fun _ => .modify fun _ => unhoused_modifyValue fun d => by
    obtain ⟨_, p, _, _, _⟩ := d
    cases p <;> rfl

theorem unhoused_modifyInstructions {k : List ValueId → List ValueId} :
    Fixes Store.unhoused (modifyInstructions b k) :=
  .bind (.lift _) fun _ => .bind (.lift _) fun _ => .modify fun _ => unhoused_modifyValue fun d => by
    obtain ⟨_, p, _, _, _⟩ := d
    cases p <;> rfl

theorem unhoused_setBlockParent : Fixes Store.unhoused (setBlockParent b o) :=
  .bind (.lift _) fun _ => .modify fun _ => unhoused_modifyValue fun d => by
    obtain ⟨_, p, _, _, _⟩ := d
    cases p <;> rfl

theorem unhoused_modifyBlocks {k : List ValueId → List ValueId} :
    Fixes Store.unhoused (modifyBlocks f k) :=
  .bind (.lift _) fun _ => .bind (.lift _) fun _ => .modify fun _ => unhoused_modifyValue fun d => by
    obtain ⟨_, p, _, _, _⟩ := d
    cases p <;> rfl

theorem unhoused_removeInstruction : Fixes Store.unhoused (removeInstruction i) := by
  refine .bind (.lift _) fun c => ?_
  split
  · exact .bind fixes_unregisterName fun _ => .bind unhoused_modifyInstructions fun _ =>
      unhoused_setInstructionParent
  · exact .raise _

theorem unhoused_insertInstruction : Fixes Store.unhoused (insertInstruction b i anchor) :=
  .bind (.lift _) fun _ => .bind (.lift _) fun _ => .guard (.raise _)
    (.bind (.bind unhoused_setInstructionParent fun _ => unhoused_modifyInstructions) fun _ =>
      fixes_registerName)

theorem unhoused_removeBlock : Fixes Store.unhoused (removeBlock b) := by
  refine .bind (.lift _) fun g => ?_
  split
  · refine .bind (.lift _) fun insts => .bind (.forM (fun _ => fixes_unregisterName) insts) ?_
    exact fun _ => .bind fixes_unregisterName fun _ => .bind unhoused_modifyBlocks fun _ =>
      unhoused_setBlockParent
  · exact .raise _

theorem unhoused_insertBlock : Fixes Store.unhoused (insertBlock f b anchor) :=
  .bind (.lift _) fun _ => .bind (.lift _) fun _ => .guard (.raise _)
    (.bind unhoused_setBlockParent fun _ => .bind unhoused_modifyBlocks fun _ =>
      .bind fixes_registerName fun _ => .bind (.lift _) fun insts =>
        .forM (fun _ => fixes_registerName) insts)

end Unhoused

section Anchors

theorem ends_insertInstructionBefore (hne : i ≠ a)
    (ha : s.layout.place a = some (.instructions b)) :
    Ends (insertInstructionBefore i a) s Q E ↔ Ends (insertInstruction b i (some a)) s Q E := by
  rw [insertInstructionBefore, ends_bind, ends_lift_ok (Query.expectDistinct_of_ne hne), ends_bind,
    ends_lift_ok (Query.anchorBlock_of_place ha)]

theorem ends_moveInstructionBefore (hne : i ≠ a)
    (ha : s.layout.place a = some (.instructions b)) :
    Ends (moveInstructionBefore i a) s Q E ↔ Ends (relocateInstruction i b (some a)) s Q E := by
  rw [moveInstructionBefore, ends_bind, ends_lift_ok (Query.expectDistinct_of_ne hne), ends_bind,
    ends_lift_ok (Query.anchorBlock_of_place ha)]

theorem ends_insertBlockBefore (hne : b ≠ a) (ha : s.layout.place a = some (.blocks f)) :
    Ends (insertBlockBefore b a) s Q E ↔ Ends (insertBlock f b (some a)) s Q E := by
  rw [insertBlockBefore, ends_bind, ends_lift_ok (Query.expectDistinct_of_ne hne), ends_bind,
    ends_lift_ok (Query.anchorFunction_of_place ha)]

theorem ends_moveBlockBefore (hne : b ≠ a) (ha : s.layout.place a = some (.blocks f)) :
    Ends (moveBlockBefore b a) s Q E ↔ Ends (relocateBlock b f (some a)) s Q E := by
  rw [moveBlockBefore, ends_bind, ends_lift_ok (Query.expectDistinct_of_ne hne), ends_bind,
    ends_lift_ok (Query.anchorFunction_of_place ha)]

end Anchors

section Naming

theorem ends_rewriteName (hh : s.Hashed hash) {d : Value} (hd : s.values.get? v = some d) :
    Ends (do
      modifyValue v fun d => { d with name := none, nameHash := 0 }
      writeName v (d.name.getD "")) s (fun _ s' => s' = s) fun _ _ => False := by
  have hhash : d.nameHash = (d.name.map hash).getD 0 := hh.value hd
  have hself {k : Value → Value} (hk : k d = d) : s.modifyValue v k = s := by
    refine congrArg (fun values => { s with values := values }) (Arena.modify_eq_self fun x hx => ?_)
    obtain rfl := Option.some.inj (hd.symm.trans hx)
    exact hk
  rw [ends_bind]
  refine (ends_modifyValue hd _).2 ?_
  unfold writeName
  cases ho : d.name with
  | none =>
    rw [ho] at hhash
    refine hself ?_
    rw [← ho, ← show d.nameHash = 0 from hhash]
  | some text =>
    have htext : text.isEmpty = false := by
      rw [Bool.eq_false_iff, Ne, String.isEmpty_iff]
      rintro rfl
      exact hh.name_ne_empty hd ho
    rw [ho] at hhash
    rw [Option.getD_some, htext]
    have hd' : (s.modifyValue v fun d => { d with name := none, nameHash := 0 }).values.get? v =
        some { d with name := none, nameHash := 0 } := by
      rw [Store.modifyValue, Arena.get?_modify, if_pos rfl, hd, Option.map_some]
    rw [if_neg Bool.false_ne_true, ends_bind, ends_get]
    refine (ends_modifyValue hd' _).2 ?_
    simp only [Store.modifyValue, Arena.modify_modify]
    refine hself ?_
    rw [← ho, hh.1, ← show d.nameHash = hash text from hhash]

theorem ends_setName_keepsNames (hc : s.layout.Consistent True) (hh : s.Hashed hash) {d : Value}
    (hd : s.values.get? v = some d) (hk : d.kind ≠ .constant ∧ d.kind ≠ .metadata) :
    Ends (setName v (d.name.getD "")) s (fun _ s' => s.KeepsNames s') fun _ _ => False := by
  have hkv : s.layout.kind v = some d.kind := by
    refine layout_kind.2 ⟨?_, d, hd, rfl⟩
    cases hdk : d.kind <;> simp_all [ValueKind.isResident]
  have hfixes : Fixes Store.naming (unregisterName v) := fixes_unregisterName
  unfold setName
  rw [ends_bind, ends_lift_ok (Query.kind_ok.2 ⟨d, hd, rfl⟩), if_neg (not_or.2 hk)]
  refine Ends.bind ((((ends_unregisterName s v).and (hfixes.ends s)).and
    (retabled_unregisterName s (.refl s))).mono (fun _ _ h => h) fun _ _ hx => ?_) ?_
  · rw [hx.1.1.2 hc.placed] at hkv
    cases hkv
  rintro _ s₁ ⟨⟨hstrikes, hnaming⟩, hretabled⟩
  have hr := hstrikes.renamed
  have hlabels : s₁.labels = s.labels := labels_of_naming hnaming
  have hawaits : s.Awaits s₁ [v] := ⟨hr.placed hc.placed, hstrikes.named hc.named, hr.kind, hr.scope,
    hlabels, hretabled⟩
  have hlabel : (s₁.values.get? v).map Value.label = some d.label := by
    rw [← get?_labels, hlabels, get?_labels, hd, Option.map_some]
  obtain ⟨d₁, hd₁, hlabel₁⟩ := Option.map_eq_some_iff.1 hlabel
  have hwrite := ends_rewriteName (hh.of_labels hlabels (hash_of_naming hnaming)) hd₁
  rw [show d₁.name = d.name from congrArg Prod.fst hlabel₁, ends_bind] at hwrite
  refine ends_bind.2 (Ends.weaken hwrite fun _ s₂ hs₂ => ?_)
  refine Ends.bind (Ends.weaken hs₂ fun _ _ h => h) ?_
  rintro _ _ rfl
  refine (ends_registerName_enters hawaits.placed (hr.kind ▸ hkv)).mono (fun _ s' he => ?_)
    fun _ _ hx => hawaits.not_unnames hc hh hx.2
  exact (hawaits.enters hc hh List.not_mem_nil he).1.keepsNames hc

end Naming

theorem Ends.keepsNames {e : Edit Unit} {L : Layout}
    (h : Ends e s (fun _ s' => s.Resettles L s') fun _ _ => False)
    (hc : s.layout.Consistent True) : Ends e s (fun _ s' => s.KeepsNames s') fun _ _ => False :=
  h.weaken fun _ _ h => h.awaits.keepsNames hc

section Moving

variable (hc : s.layout.Consistent True) (hh : s.Hashed hash)

include hc hh

theorem ends_relocateInstruction_keepsNames (hi : s.layout.kind i = some .instruction)
    (hb : s.layout.kind b = some .block) (hscope : s.layout.scope i = s.layout.scope b) :
    Ends (relocateInstruction i b anchor) s (fun _ s' => s.KeepsNames s') fun _ _ => False := by
  obtain ⟨o, hpb, hsb⟩ := scope_of_block hb
  have hnone := place_ne_instructions hc.placed hi (by simp)
  unfold relocateInstruction
  cases hplace : s.layout.place i with
  | none =>
    have hpos : s.layout.position i = none := position_of_kind hi (by simp)
    have hbi : b ≠ i := by
      rintro rfl
      cases hb.symm.trans hi
    obtain rfl : o = none := by
      rw [Layout.scope_of_unplaced hplace hpos, hsb] at hscope
      exact Option.map_eq_none_iff.1 hscope.symm
    rw [ends_bind, ends_lift_ok ((Query.instructionParent_ok (o := none)).2 ⟨hi, hplace⟩)]
    exact (ends_insertInstruction_resettles hc hh (.refl hc) hi hb hplace (scope_attach_instructions
      (.inr ⟨hplace, hpos, hpb⟩) rfl hbi hnone (fun _ _ => rfl) rfl)).keepsNames hc
  | some p =>
    obtain ⟨c, rfl⟩ : ∃ c, p = .instructions c := by
      have hkind := kind_of_place hplace
      rw [hi] at hkind
      cases p <;> cases hkind
      exact ⟨_, rfl⟩
    have hkc : s.layout.kind c = some .block :=
      kind_of_mem_instructions ((hc.placed.child i _).1 hplace)
    obtain ⟨o', hpc, hsc⟩ := scope_of_block hkc
    obtain rfl : o' = o := by
      rw [scope_of_member hplace hkc, hsc, hsb] at hscope
      exact Option.map_injective (fun _ _ => Scope.function.inj) hscope
    rw [ends_bind, ends_lift_ok (Query.instructionParent_of_place hplace)]
    dsimp only
    rw [ends_bind, ends_lift_ok (shareFunction_of_place hkc hb hpc hpb)]
    cases o' with
    | none =>
      exact (ends_reinsertInstruction hc hh hplace hb (hpb.trans hpc.symm)).keepsNames hc
    | some f =>
      exact (ends_placing (ends_shiftInstruction hi hkc hb)
        (.bind naming_modifyInstructions fun _ => naming_placeInstruction)
        (.bind registry_modifyInstructions fun _ => registry_placeInstruction)).weaken
        fun _ _ h => keepsNames_of_registry h.2.1 h.2.2

omit hh in
theorem ends_relocateBlock_keepsNames (hb : s.layout.place b = some (.blocks f)) :
    Ends (relocateBlock b f anchor) s (fun _ s' => s.KeepsNames s') fun _ _ => False := by
  have hf : s.layout.kind f = some .function := kind_of_mem_blocks ((hc.placed.child b _).1 hb)
  unfold relocateBlock
  rw [ends_bind, ends_lift_ok (Query.blockParent_of_place hb)]
  dsimp only
  rw [if_pos rfl]
  exact (ends_placing (ends_modifyBlocks hf) fixes_modifyBlocks fixes_modifyBlocks).weaken
    fun _ _ h => keepsNames_of_registry h.2.1 h.2.2

omit hh in
theorem ends_moveFunctionTo_keepsNames (hf : s.layout.place f = some (.functions m)) :
    Ends (moveFunctionTo f m) s (fun _ s' => s.KeepsNames s') fun _ _ => False := by
  obtain ⟨dm, hm⟩ := module_of_mem (.inl ((hc.placed.child f _).1 hf))
  unfold moveFunctionTo
  rw [ends_bind, ends_lift_ok (Query.functionModule_of_place hf)]
  dsimp only
  rw [if_pos rfl]
  exact (ends_placing (ends_modifyFunctions (r := fun vs => without f vs ++ [f]) hm)
    naming_modifyModule registry_modifyModules).weaken
    fun _ _ h => keepsNames_of_registry h.2.1 h.2.2

theorem ends_moveGlobalTo_keepsNames (hg : s.layout.place g = some (.globals m)) :
    Ends (moveGlobalTo g m) s (fun _ s' => s.KeepsNames s') fun _ _ => False := by
  unfold moveGlobalTo
  rw [ends_bind, ends_lift_ok (Query.globalModule_of_place hg)]
  exact (ends_reappendGlobal hc hh hg).keepsNames hc

end Moving

section Restoring

variable (hc : s.layout.Consistent True) (hh : s.Hashed hash)

include hc

theorem ends_removeInstruction_before (hi : s.layout.place i = some (.instructions c))
    (ha : s.layout.place a = some (.instructions b)) (hne : i ≠ a)
    (h : Ends (do removeInstruction i; insertInstruction b i (some a)) s Q fun _ _ => False) :
    Ends (do removeInstruction i; insertInstructionBefore i a) s Q fun _ _ => False := by
  refine ends_bind.2 (((ends_bind.1 h).and (ends_removeInstruction_suspends hc hi)).mono ?_
    fun _ _ h => h.1)
  rintro _ s₁ ⟨hinsert, -, hr⟩
  refine (ends_insertInstructionBefore hne ?_).2 hinsert
  rw [hr.place, place_detach hne.symm]
  exact ha

theorem ends_removeBlock_before (hb : s.layout.place b = some (.blocks f))
    (ha : s.layout.place a = some (.blocks f)) (hne : b ≠ a)
    (h : Ends (do removeBlock b; insertBlock f b (some a)) s Q fun _ _ => False) :
    Ends (do removeBlock b; insertBlockBefore b a) s Q fun _ _ => False := by
  refine ends_bind.2 (((ends_bind.1 h).and (ends_removeBlock_suspends hc hb)).mono ?_
    fun _ _ h => h.1)
  rintro _ s₁ ⟨hinsert, -, hr⟩
  refine (ends_insertBlockBefore hne ?_).2 hinsert
  rw [hr.place, place_detach hne.symm]
  exact ha

include hh

theorem ends_restoreInstruction (hi : s.layout.place i = some (.instructions b))
    (hlist : insertBefore i anchor (without i (s.layout.children (.instructions b))) =
      s.layout.children (.instructions b)) :
    Ends (do removeInstruction i; insertInstruction b i anchor) s (fun _ s' => s' = s)
      fun _ _ => False := by
  have hfixes : Fixes Store.unhoused (do removeInstruction i; insertInstruction b i anchor) :=
    .bind unhoused_removeInstruction fun _ => unhoused_insertInstruction
  have hb := kind_of_mem_instructions ((hc.placed.child i _).1 hi)
  refine ((ends_reinsertInstruction hc hh hi hb rfl).and (hfixes.ends s)).mono ?_ fun _ _ h => h.1
  rintro _ s' ⟨hresettles, hunhoused⟩
  rw [detach_attach_eq hi hlist] at hresettles
  exact hresettles.eq_self hc hunhoused

theorem ends_restoreBlock (hb : s.layout.place b = some (.blocks f))
    (hlist : insertBefore b anchor (without b (s.layout.children (.blocks f))) =
      s.layout.children (.blocks f)) :
    Ends (do removeBlock b; insertBlock f b anchor) s (fun _ s' => s' = s) fun _ _ => False := by
  have hfixes : Fixes Store.unhoused (do removeBlock b; insertBlock f b anchor) :=
    .bind unhoused_removeBlock fun _ => unhoused_insertBlock
  refine ((ends_reinsertBlock hc hh hb).and (hfixes.ends s)).mono ?_ fun _ _ h => h.1
  rintro _ s' ⟨hresettles, hunhoused⟩
  rw [detach_attach_eq hb hlist] at hresettles
  exact hresettles.eq_self hc hunhoused

end Restoring

end Edit

namespace Store

variable {s : Store} {e : Edit Unit} {hash : String → UInt64}

open Edit

/-- Edits that leave every value in the scope where it is, or bring it back there. -/
inductive Rehomes (s : Store) : Edit Unit → Prop
  -- The empty name stands for none.
  | setName {v : ValueId} {k : ValueKind} {o : Option String} : Query.kind v s = .ok k →
      k ≠ .constant ∧ k ≠ .metadata → Query.name v s = .ok o → Rehomes s (setName v (o.getD ""))
  | appendInstruction {i b c : ValueId} {o : Option ValueId} :
      Query.instructionParent i s = .ok (some c) → Query.blockParent c s = .ok o →
      Query.blockParent b s = .ok o → Rehomes s (do removeInstruction i; appendInstruction b i)
  | insertInstructionBefore {i a b c : ValueId} {o : Option ValueId} :
      Query.instructionParent i s = .ok (some c) → Query.blockParent c s = .ok o →
      Query.instructionParent a s = .ok (some b) → Query.blockParent b s = .ok o → i ≠ a →
      Rehomes s (do removeInstruction i; insertInstructionBefore i a)
  | appendBlock {b f : ValueId} : Query.blockParent b s = .ok (some f) →
      Rehomes s (do removeBlock b; appendBlock f b)
  | insertBlockBefore {b a f : ValueId} : Query.blockParent b s = .ok (some f) →
      Query.blockParent a s = .ok (some f) → b ≠ a →
      Rehomes s (do removeBlock b; insertBlockBefore b a)
  | appendFunction {f : ValueId} {m : ModuleId} : Query.functionModule f s = .ok (some m) →
      Rehomes s (do removeFunction f; appendFunction m f)
  | appendGlobal {g : ValueId} {m : ModuleId} : Query.globalModule g s = .ok (some m) →
      Rehomes s (do removeGlobal g; appendGlobal m g)
  | moveInstructionBefore {i a b : ValueId} {o : Option Scope} :
      Query.kind i s = .ok .instruction → Query.instructionParent a s = .ok (some b) → i ≠ a →
      Query.scopeOf i s = .ok o → Query.scopeOf a s = .ok o → Rehomes s (moveInstructionBefore i a)
  | moveInstructionToEnd {i b : ValueId} {o : Option Scope} :
      Query.kind i s = .ok .instruction → Query.kind b s = .ok .block →
      Query.scopeOf i s = .ok o → Query.scopeOf b s = .ok o → Rehomes s (moveInstructionToEnd i b)
  | moveBlockBefore {b a f : ValueId} : Query.blockParent b s = .ok (some f) →
      Query.blockParent a s = .ok (some f) → b ≠ a → Rehomes s (moveBlockBefore b a)
  | moveBlockTo {b f : ValueId} : Query.blockParent b s = .ok (some f) → Rehomes s (moveBlockTo b f)
  | moveFunctionTo {f : ValueId} {m : ModuleId} : Query.functionModule f s = .ok (some m) →
      Rehomes s (moveFunctionTo f m)
  | moveGlobalTo {g : ValueId} {m : ModuleId} : Query.globalModule g s = .ok (some m) →
      Rehomes s (moveGlobalTo g m)

/-- Edits that take out an instruction or a block and put it back where it was. -/
inductive Restores (s : Store) : Edit Unit → Prop
  | instructionBefore {b i a : ValueId} {before after : List ValueId} :
      Query.blockInstructions b s = .ok (before ++ i :: a :: after) →
      Restores s (do removeInstruction i; insertInstructionBefore i a)
  | instructionLast {b i : ValueId} {before : List ValueId} :
      Query.blockInstructions b s = .ok (before ++ [i]) →
      Restores s (do removeInstruction i; appendInstruction b i)
  | blockBefore {f b a : ValueId} {before after : List ValueId} :
      Query.functionBlocks f s = .ok (before ++ b :: a :: after) →
      Restores s (do removeBlock b; insertBlockBefore b a)
  | blockLast {f b : ValueId} {before : List ValueId} :
      Query.functionBlocks f s = .ok (before ++ [b]) →
      Restores s (do removeBlock b; appendBlock f b)

theorem Rehomes.ends (h : s.Rehomes e) (hc : s.layout.Consistent True) (hh : s.Hashed hash) :
    Ends e s (fun _ s' => s.KeepsNames s') fun _ _ => False := by
  cases h with
  | setName hkind hk hname =>
    obtain ⟨d, hd, rfl⟩ := Query.kind_ok.1 hkind
    obtain ⟨d', hd', rfl⟩ := Query.name_ok.1 hname
    obtain rfl := Option.some.inj (hd.symm.trans hd')
    exact ends_setName_keepsNames hc hh hd hk
  | appendInstruction hi hpc hpb =>
    obtain ⟨hb, hpb⟩ := Query.blockParent_ok.1 hpb
    exact (ends_reinsertInstruction hc hh (Query.instructionParent_ok.1 hi).2 hb
      (hpb.trans (Query.blockParent_ok.1 hpc).2.symm)).keepsNames hc
  | insertInstructionBefore hi hpc ha hpb hne =>
    obtain ⟨hb, hpb⟩ := Query.blockParent_ok.1 hpb
    have hplace := (Query.instructionParent_ok.1 hi).2
    refine ends_removeInstruction_before hc hplace (Query.instructionParent_ok.1 ha).2 hne ?_
    exact (ends_reinsertInstruction hc hh hplace hb
      (hpb.trans (Query.blockParent_ok.1 hpc).2.symm)).keepsNames hc
  | appendBlock hb =>
    exact (ends_reinsertBlock hc hh (Query.blockParent_ok.1 hb).2).keepsNames hc
  | insertBlockBefore hb ha hne =>
    have hplace := (Query.blockParent_ok.1 hb).2
    refine ends_removeBlock_before hc hplace (Query.blockParent_ok.1 ha).2 hne ?_
    exact (ends_reinsertBlock hc hh hplace).keepsNames hc
  | appendFunction hf =>
    exact (ends_reappendFunction hc hh (Query.functionModule_ok.1 hf).2).keepsNames hc
  | appendGlobal hg =>
    exact (ends_reappendGlobal hc hh (Query.globalModule_ok.1 hg).2).keepsNames hc
  | moveInstructionBefore hi ha hne hsi hsa =>
    have hplace := (Query.instructionParent_ok.1 ha).2
    have hb := kind_of_mem_instructions ((hc.placed.child _ _).1 hplace)
    refine (ends_moveInstructionBefore hne hplace).2
      (ends_relocateInstruction_keepsNames hc hh (layout_kind.2 ⟨rfl, Query.kind_ok.1 hi⟩) hb ?_)
    rw [Query.scope_of_scopeOf_ok hsi, ← scope_of_member hplace hb, Query.scope_of_scopeOf_ok hsa]
  | moveInstructionToEnd hi hb hsi hsb =>
    have hkb := layout_kind.2 ⟨rfl, Query.kind_ok.1 hb⟩
    rw [Edit.moveInstructionToEnd, ends_bind,
      ends_lift_ok ((Query.expectKind_layout (u := ()) rfl).2 hkb)]
    refine ends_relocateInstruction_keepsNames hc hh (layout_kind.2 ⟨rfl, Query.kind_ok.1 hi⟩) hkb ?_
    rw [Query.scope_of_scopeOf_ok hsi, Query.scope_of_scopeOf_ok hsb]
  | moveBlockBefore hb ha hne =>
    exact (ends_moveBlockBefore hne (Query.blockParent_ok.1 ha).2).2
      (ends_relocateBlock_keepsNames hc (Query.blockParent_ok.1 hb).2)
  | moveBlockTo hb => exact ends_relocateBlock_keepsNames hc (Query.blockParent_ok.1 hb).2
  | moveFunctionTo hf => exact ends_moveFunctionTo_keepsNames hc (Query.functionModule_ok.1 hf).2
  | moveGlobalTo hg => exact ends_moveGlobalTo_keepsNames hc hh (Query.globalModule_ok.1 hg).2

theorem Restores.ends (h : s.Restores e) (hc : s.layout.Consistent True) (hh : s.Hashed hash) :
    Ends e s (fun _ s' => s' = s) fun _ _ => False := by
  cases h with
  | @instructionBefore b i a before after hlist =>
    have hchildren := (Query.blockInstructions_ok.1 hlist).2
    have hnodup := hchildren ▸ hc.placed.nodup (.instructions b)
    have hi : s.layout.place i = some (.instructions b) :=
      (hc.placed.child i _).2 (by simp [hchildren])
    have ha : s.layout.place a = some (.instructions b) :=
      (hc.placed.child a _).2 (by simp [hchildren])
    refine ends_removeInstruction_before hc hi ha (ne_of_next hnodup)
      (ends_restoreInstruction hc hh hi ?_)
    rw [hchildren]
    exact insertBefore_without_next hnodup
  | @instructionLast b i before hlist =>
    have hchildren := (Query.blockInstructions_ok.1 hlist).2
    have hnodup := hchildren ▸ hc.placed.nodup (.instructions b)
    have hi : s.layout.place i = some (.instructions b) :=
      (hc.placed.child i _).2 (by simp [hchildren])
    refine ends_restoreInstruction hc hh hi ?_
    rw [hchildren]
    exact insertBefore_without_last hnodup
  | @blockBefore f b a before after hlist =>
    have hchildren := (Query.functionBlocks_ok.1 hlist).2
    have hnodup := hchildren ▸ hc.placed.nodup (.blocks f)
    have hb : s.layout.place b = some (.blocks f) := (hc.placed.child b _).2 (by simp [hchildren])
    have ha : s.layout.place a = some (.blocks f) := (hc.placed.child a _).2 (by simp [hchildren])
    refine ends_removeBlock_before hc hb ha (ne_of_next hnodup) (ends_restoreBlock hc hh hb ?_)
    rw [hchildren]
    exact insertBefore_without_next hnodup
  | @blockLast f b before hlist =>
    have hchildren := (Query.functionBlocks_ok.1 hlist).2
    have hnodup := hchildren ▸ hc.placed.nodup (.blocks f)
    have hb : s.layout.place b = some (.blocks f) := (hc.placed.child b _).2 (by simp [hchildren])
    refine ends_restoreBlock hc hh hb ?_
    rw [hchildren]
    exact insertBefore_without_last hnodup

end Store

namespace Command

/-- In the store that orderly commands leave, what stays in its scope or comes back there is not
renamed, and what comes back to its place leaves no trace. -/
theorem rehomes_afterAll (hash : String → UInt64) (config : Config) {cs : List Command}
    (h : orderly { hash, config } cs = true) :
    (∀ e, (afterAll { hash, config } cs).Rehomes e → ∃ s',
        e (afterAll { hash, config } cs) = .ok () s' ∧
          (afterAll { hash, config } cs).KeepsNames s') ∧
      ∀ e, (afterAll { hash, config } cs).Restores e →
        e (afterAll { hash, config } cs) = .ok () (afterAll { hash, config } cs) := by
  obtain ⟨hh, hc⟩ := hashed_afterAll h (Store.settled_empty hash config) (consistent_empty hash config)
    (hashed_empty hash config)
  refine ⟨fun e he => ?_, fun e he => ?_⟩
  · obtain ⟨_, s', hrun, hkeeps⟩ := (he.ends hc hh).exists_ok
    exact ⟨s', hrun, hkeeps⟩
  · obtain ⟨_, s', hrun, rfl⟩ := (he.ends hc hh).exists_ok
    exact hrun

theorem rehomes_clashingMembers :
    orderly { config := {} } clashingMembers = true ∧
      (∃ s', (do Edit.removeBlock ⟨2⟩; Edit.appendBlock ⟨0⟩ ⟨2⟩ : Edit Unit)
          (afterAll { config := {} } clashingMembers) = .ok () s' ∧
        (afterAll { config := {} } clashingMembers).KeepsNames s') ∧
      (do Edit.removeInstruction ⟨3⟩; Edit.insertInstructionBefore ⟨3⟩ ⟨4⟩ : Edit Unit)
          (afterAll { config := {} } clashingMembers) =
        .ok () (afterAll { config := {} } clashingMembers) := by
  have horderly : orderly { config := {} } clashingMembers = true := by decide +kernel
  have hb : Query.blockParent ⟨2⟩ (afterAll { config := {} } clashingMembers) = .ok (some ⟨0⟩) := by
    decide +kernel
  have hinsts : Query.blockInstructions ⟨2⟩ (afterAll { config := {} } clashingMembers) =
      .ok ([] ++ ⟨3⟩ :: ⟨4⟩ :: [⟨5⟩]) := by
    decide +kernel
  exact ⟨horderly, (rehomes_afterAll nameHash {} horderly).1 _ (.appendBlock hb),
    (rehomes_afterAll nameHash {} horderly).2 _ (.instructionBefore hinsts)⟩

end Command

end ShaderIR
