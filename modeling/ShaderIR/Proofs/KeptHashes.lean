import ShaderIR.Proofs.Coherence
import ShaderIR.Proofs.NameRegistration

/-! The hashes that values keep beside their names. Only a registration that stops halfway leaves a
value with the hash of a name that it has no longer, and in a store where children and parents name
each other no registration stops so unless the counters of a scope are used up. -/

namespace ShaderIR

def IsHashed (hash : String → UInt64) (l : Option String × UInt64) : Prop :=
  l.2 = (l.1.map hash).getD 0 ∧ l.1 ≠ some ""

theorem isHashed_none (hash : String → UInt64) : IsHashed hash (none, 0) := ⟨rfl, nofun⟩

theorem isHashed_some (hash : String → UInt64) {text : String} (h : text ≠ "") :
    IsHashed hash (some text, hash text) :=
  ⟨rfl, fun heq => h (Option.some.inj heq)⟩

abbrev Traits := (Option String × UInt64) × Option (TypeId × ConstantData)

def Value.traits (d : Value) : Traits := (d.label, d.constant?)

namespace Store

def traits (s : Store) : Arena .value Traits := s.values.map Value.traits

def naming (s : Store) : (String → UInt64) × Arena .value Traits := (s.hash, s.traits)

def labels (s : Store) : Arena .value (Option String × UInt64) := s.values.map Value.label

/-- A store has a hash, every live value keeps the hash of its name, and no name is empty. -/
def Hashed (hash : String → UInt64) (s : Store) : Prop :=
  s.hash = hash ∧ ∀ v l, s.labels.get? v = some l → IsHashed hash l

variable {s : Store} {v : ValueId} {hash : String → UInt64}

theorem get?_traits (s : Store) (v : ValueId) :
    s.traits.get? v = (s.values.get? v).map Value.traits := Arena.get?_map ..

theorem get?_labels (s : Store) (v : ValueId) :
    s.labels.get? v = (s.values.get? v).map Value.label := Arena.get?_map ..

theorem map_traits (s : Store) : s.traits.map Prod.fst = s.labels := Arena.map_map ..

theorem labels_of_traits {s' : Store} (h : s'.traits = s.traits) : s'.labels = s.labels := by
  rw [← map_traits, h, map_traits]

theorem traits_of_naming {s' : Store} (h : s'.naming = s.naming) : s'.traits = s.traits :=
  congrArg Prod.snd h

theorem hash_of_naming {s' : Store} (h : s'.naming = s.naming) : s'.hash = s.hash :=
  congrArg Prod.fst h

theorem labels_of_naming {s' : Store} (h : s'.naming = s.naming) : s'.labels = s.labels :=
  labels_of_traits (traits_of_naming h)

theorem Hashed.value {d : Value} (h : s.Hashed hash) (hd : s.values.get? v = some d) :
    d.nameHash = (d.name.map hash).getD 0 :=
  (h.2 v d.label (by rw [get?_labels, hd, Option.map_some])).1

theorem Hashed.name_ne_empty {d : Value} (h : s.Hashed hash) (hd : s.values.get? v = some d) :
    d.name ≠ some "" :=
  (h.2 v d.label (by rw [get?_labels, hd, Option.map_some])).2

theorem naming_modifyValue {k : Value → Value} (h : ∀ d, (k d).traits = d.traits) :
    (s.modifyValue v k).naming = s.naming :=
  congrArg (Prod.mk s.hash) (Arena.map_modify_of_eq fun d _ => h d)

end Store

theorem Value.constant?_bare (d : Value) : d.bare.constant? = d.constant? := by
  obtain ⟨_, p, _, _, _⟩ := d
  cases p <;> rfl

instance : Unplaced Store.naming where
  value _ _ k hb _ hl := Store.naming_modifyValue fun d => by
    have hc : (k d).constant? = d.constant? := by
      rw [← Value.constant?_bare, hb, Value.constant?_bare]
    rw [Value.traits, hl, hc, Value.traits]
  module _ _ _ _ := rfl

instance : Lasting Store.naming where
  tracker _ _ := rfl
  handles _ _ := rfl
  tags _ _ := rfl
  attachments _ _ _ := Store.naming_modifyValue fun _ => rfl
  named _ _ _ := rfl
  table _ _ _ := rfl
  uses _ _ := rfl
  constants _ _ := rfl
  wrappers _ _ := rfl
  wrapped _ _ _ := Store.naming_modifyValue fun d => by
    obtain ⟨_, p, _, _, _⟩ := d
    cases p <;> rfl

namespace Edit

open Store

variable {α : Type} {e : Edit α} {v b f g i : ValueId} {m : ModuleId} {ty : TypeId}
variable {o anchor : Option ValueId} {os : List (Option ValueId)} {opcode text : String}
variable {data : ConstantData} {hash : String → UInt64}

section Naming

variable {J : (String → UInt64) × Arena .value Traits → Prop} {X : Fault → Store → Prop}

theorem Fixes.naming_of_body (h : Fixes Store.body e) : Fixes Store.naming e :=
  h.of_view fun {s s'} hs => by
    have hbody (s : Store) : s.naming = (s.body.hash, s.body.values.map Value.traits) :=
      congrArg (Prod.mk s.hash) (Arena.map_map s.values Value.unattached Value.traits).symm
    rw [hbody, hs, hbody]

theorem naming_modifyInstructions {k : List ValueId → List ValueId} :
    Fixes Store.naming (modifyInstructions b k) :=
  .bind (.lift _) fun _ => .bind (.lift _) fun _ => .modify fun s => naming_modifyValue fun d => by
    obtain ⟨_, p, _, _, _⟩ := d
    cases p <;> rfl

theorem naming_modifyModule {k : Module → Module} : Fixes Store.naming (modifyModule m k) :=
  .bind (.lift _) fun _ => .modify fun _ => rfl

theorem naming_placeInstruction : Fixes Store.naming (placeInstruction b i anchor) :=
  .bind fixes_setInstructionParent fun _ => naming_modifyInstructions

theorem naming_removeInstruction : Fixes Store.naming (removeInstruction i) := by
  refine .bind (.lift _) fun b => ?_
  split
  · exact .bind fixes_unregisterName fun _ => .bind naming_modifyInstructions fun _ =>
      fixes_setInstructionParent
  · exact .raise _

theorem naming_removeBlock : Fixes Store.naming (removeBlock b) := by
  refine .bind (.lift _) fun f => ?_
  split
  · refine .bind (.lift _) fun insts => .bind (.forM (fun _ => fixes_unregisterName) insts) ?_
    exact fun _ => .bind fixes_unregisterName fun _ => .bind fixes_modifyBlocks fun _ =>
      fixes_setBlockParent
  · exact .raise _

theorem naming_removeFunction : Fixes Store.naming (removeFunction f) := by
  refine .bind (.lift _) fun m => ?_
  split
  · exact .bind fixes_unregisterName fun _ => .bind naming_modifyModule fun _ =>
      fixes_setFunctionModule
  · exact .raise _

theorem naming_removeGlobal : Fixes Store.naming (removeGlobal g) := by
  refine .bind (.lift _) fun m => ?_
  split
  · exact .bind fixes_unregisterName fun _ => .bind naming_modifyModule fun _ =>
      fixes_setGlobalModule
  · exact .raise _

theorem robust_naming (herase : ∀ a v, J a → J (a.1, a.2.erase v)) :
    Robust Store.naming (fun _ _ => True) fun s => J s.naming where
  view h hs := by rwa [h]
  operand := (fixes_retargetOperand.naming_of_body.keeps J).carries
  node hs _ _ := ((Fixes.naming_of_body (.bind fixes_modifyMetadata fun _ =>
    fixes_modifyNode)).keeps J _ hs).mono (fun _ _ h => h) fun _ _ h _ => h
  drop := by
    refine (Fixes.naming_of_body (.bind .get fun s => ?_)).keeps J
    split
    · exact .pure _
    · exact fixes_modifyMetadata
  erase {v} := .modify fun s hs => by
    have htraits : (s.values.erase v).map Value.traits = s.traits.erase v := Arena.map_erase ..
    have h : J (s.hash, s.traits.erase v) := herase s.naming v hs
    rwa [← htraits] at h

theorem keeps_pushValue_naming {d : Value} (hpush : ∀ a, J a → J (a.1, a.2.push d.traits)) :
    Keeps (fun s => J s.naming) (pushValue d) := by
  refine Keeps.modifyGet fun s hs => ?_
  have htraits : (s.pushValue d).2.traits = s.traits.push d.traits := Arena.map_push ..
  have h : J (s.hash, s.traits.push d.traits) := hpush s.naming hs
  rwa [← htraits] at h

theorem keeps_internScalar_naming
    (hpush : ∀ a ty data, J a → J (a.1, a.2.push ((none, 0), some (ty, data)))) :
    Keeps (fun s => J s.naming) (internScalar ty data) := by
  refine .bind .get fun s => ?_
  split
  · exact .pure _
  · refine .bind (keeps_pushValue_naming fun a => hpush a ty data) fun c => .bind ?_ fun _ => .pure _
    exact .modify fun s hs => hs

theorem keeps_nullifyBlockAddress_naming (herase : ∀ a v, J a → J (a.1, a.2.erase v))
    (hpush : ∀ a ty data, J a → J (a.1, a.2.push ((none, 0), some (ty, data)))) :
    Keeps (fun s => J s.naming) (nullifyBlockAddress v) :=
  .bind (.lift _) fun _ => .bind (keeps_internScalar_naming hpush) fun _ =>
    .bind (robust_naming herase).carries_replaceAllUses.keeps fun _ =>
      (robust_naming herase).keeps_destroyValue

theorem erodes_naming (herase : ∀ a v, J a → J (a.1, a.2.erase v))
    (hpush : ∀ a ty data, J a → J (a.1, a.2.push ((none, 0), some (ty, data)))) :
    Erodes X fun _ s => J s.naming where
  weaken hs _ := hs
  instructions hs _ := hs
  globals hs _ := hs
  empty _ := (fixes_emptyOperands.of_uses.keeps J).carries
  destroy := (robust_naming herase).keeps_destroyValue.carries
  nullify := (keeps_nullifyBlockAddress_naming herase hpush).carries
  clear := (naming_modifyInstructions.keeps J).carries
  removeInstruction := (naming_removeInstruction.keeps J).carries
  removeGlobal := (naming_removeGlobal.keeps J).carries
  removeBlock := (naming_removeBlock.keeps J).carries
  removeFunction := (naming_removeFunction.keeps J).carries
  release := (Fixes.keeps fixes_eraseNamedMetadata J).carries
  drop _ hs := hs

end Naming

section Hashing

def AllHashed (hash : String → UInt64) (x : (String → UInt64) × Arena .value Traits) : Prop :=
  x.1 = hash ∧ ∀ v l, (x.2.map Prod.fst).get? v = some l → IsHashed hash l

theorem allHashed_naming : (fun s => AllHashed hash s.naming) = Store.Hashed hash := by
  funext s
  rw [AllHashed, Store.naming, Store.map_traits, Store.Hashed]

theorem AllHashed.erase (a : (String → UInt64) × Arena .value Traits) (v : ValueId)
    (h : AllHashed hash a) : AllHashed hash (a.1, a.2.erase v) := by
  refine ⟨h.1, fun w l hl => ?_⟩
  rw [Arena.map_erase, Arena.get?_erase] at hl
  split at hl
  · cases hl
  · exact h.2 w l hl

theorem AllHashed.push {x : Traits} (hx : ∀ hash, IsHashed hash x.1)
    (a : (String → UInt64) × Arena .value Traits) (h : AllHashed hash a) :
    AllHashed hash (a.1, a.2.push x) := by
  refine ⟨h.1, fun w l hl => ?_⟩
  rw [Arena.map_push, Arena.get?_push] at hl
  split at hl
  · exact Option.some.inj hl ▸ hx hash
  · exact h.2 w l hl

abbrev Hashes (hash : String → UInt64) (e : Edit α) : Prop :=
  Carries (fun x s => x ≠ .counterExhausted ∧ s.layout.Placed) (Store.Hashed hash) e

theorem Fixes.hashed (h : Fixes Store.naming e) : Keeps (Store.Hashed hash) e :=
  allHashed_naming ▸ h.keeps (AllHashed hash)

theorem Fixes.hashes (h : Fixes Store.naming e) : Hashes hash e := h.hashed.carries

theorem robust_hashed : Robust Store.naming (fun _ _ => True) (Store.Hashed hash) :=
  allHashed_naming ▸ robust_naming AllHashed.erase

theorem keeps_pushValue_hashed {d : Value} (hd : ∀ hash, IsHashed hash d.label) :
    Keeps (Store.Hashed hash) (pushValue d) :=
  allHashed_naming ▸ keeps_pushValue_naming (AllHashed.push hd)

theorem keeps_modifyValue_hashed {k : Value → Value} (h : ∀ d, (k d).label = d.label) :
    Keeps (Store.Hashed hash) (modifyValue v k) := by
  refine .bind (.lift _) fun _ => .modify fun s hs => ?_
  have hlabels : (s.modifyValue v k).labels = s.labels := Arena.map_modify_of_eq fun d _ => h d
  rwa [Store.Hashed, hlabels, hash_modifyValue]

end Hashing

section Naming

theorem ends_relabel {k : Value → Value} {s : Store} (hs : s.Hashed hash)
    (hk : ∀ d, IsHashed hash (k d).label) :
    Ends (modifyValue v k) s (fun _ => Store.Hashed hash) fun _ => Store.Hashed hash := by
  refine ends_bind.2 (ends_lift.2 ⟨fun _ _ => ?_, fun _ _ => hs⟩)
  rw [ends_modify]
  refine ⟨hs.1, fun w l hl => ?_⟩
  rw [get?_labels, Store.modifyValue, Arena.get?_modify] at hl
  split at hl
  · obtain ⟨d, hd, rfl⟩ := Option.map_eq_some_iff.1 hl
    obtain ⟨d', -, rfl⟩ := Option.map_eq_some_iff.1 hd
    exact hk d'
  · exact hs.2 w l ((get?_labels s w).trans hl)

theorem keeps_unname {k : Value → Value} (hk : ∀ d, (k d).label = (none, 0)) :
    Keeps (Store.Hashed hash) (modifyValue v k) := fun _ hs =>
  ends_relabel hs fun d => hk d ▸ isHashed_none hash

theorem keeps_writeName_hashed : Keeps (Store.Hashed hash) (writeName v text) := by
  intro s hs
  unfold writeName
  split
  · exact hs
  next htext =>
    rw [ends_bind, ends_get]
    refine ends_relabel hs fun _ => ?_
    rw [hs.1]
    refine isHashed_some hash fun h => htext ?_
    rw [h]
    rfl

theorem hashes_registerName : Hashes hash (registerName v) := by
  intro s hs
  refine ends_bind.2 (ends_lift.2 ⟨fun o ho => ?_, fun _ _ _ => hs⟩)
  have hscope := Query.scope_of_scopeOf_ok ho
  cases o with
  | none => exact hs
  | some sc =>
    dsimp only
    refine ends_bind.2 (ends_lift.2 ⟨fun n hn => ?_, fun _ _ _ => hs⟩)
    obtain ⟨d, hd, rfl⟩ := Query.name_ok.1 hn
    cases hname : d.name with
    | none => exact hs
    | some text =>
      dsimp only
      rw [ends_bind]
      refine (ends_modifyValue hd _).2 ?_
      have hlayout := layout_rename hd (isResident_of_scope hscope hd)
        (g := fun d => { d with name := none }) rfl
      have hd' : (s.modifyValue v fun d => { d with name := none }).values.get? v =
          some { d with name := none } := by
        rw [Store.modifyValue, Arena.get?_modify, if_pos rfl, hd, Option.map_some]
      have hlabels : ∀ {w l}, w ≠ v →
          (s.modifyValue v fun d => { d with name := none }).labels.get? w = some l →
          IsHashed hash l := by
        intro w l hw hl
        rw [get?_labels, Store.modifyValue, Arena.get?_modify, if_neg hw.symm, ← get?_labels] at hl
        exact hs.2 w l hl
      have hhash := (hash_modifyValue s v fun d => { d with name := none }).trans hs.1
      generalize s.modifyValue v (fun d => { d with name := none }) = s₁
        at hlayout hd' hlabels hhash ⊢
      refine ends_bind.2 (ends_lift.2 ⟨fun t ht => ?_, fun x hx hplaced => ?_⟩)
      · rw [ends_bind, ends_get, ends_bind, ends_modify]
        cases hclaim : (t.claim s₁.hash text v).1 with
        | none => exact fun hx => absurd rfl hx.1
        | some claimed =>
          have hd'' : (s₁.setTable sc (t.claim s₁.hash text v).2).values.get? v =
              some { d with name := none } := hd'
          have hclaimed : claimed ≠ "" := SymbolTable.claim_ne_empty (Prod.ext hclaim rfl)
            fun h => hs.name_ne_empty hd (h ▸ hname)
          refine (ends_modifyValue hd'' _).2 ⟨hhash, fun w l hl => ?_⟩
          rw [get?_labels, Store.modifyValue, Arena.get?_modify] at hl
          split at hl
          next hw =>
            obtain ⟨_, h, rfl⟩ := Option.map_eq_some_iff.1 hl
            obtain ⟨_, -, rfl⟩ := Option.map_eq_some_iff.1 h
            exact hhash ▸ isHashed_some s₁.hash hclaimed
          next hw => exact hlabels (Ne.symm hw) ((get?_labels s₁ w).trans hl)
      · have hscope₁ : s₁.layout.scope v = some sc := by
          rw [hlayout]
          exact hscope
        obtain ⟨t, ht⟩ := table_of_scope hplaced.2 hscope₁
        rw [Query.symbols_ok.2 ht] at hx
        cases hx

theorem hashes_setName : Hashes hash (setName v text) := by
  refine .bind (.lift _) fun kind => .guard (.raise _) (.bind ?_ fun _ => .bind ?_ fun _ => ?_)
  · exact Fixes.hashes fixes_unregisterName
  · exact Keeps.carries (keeps_unname fun _ => rfl)
  · exact .bind keeps_writeName_hashed.carries fun _ => hashes_registerName

theorem hashes_takeName : Hashes hash (takeName v) := by
  refine .bind (Fixes.hashes fixes_unregisterName) fun _ => .bind (.lift _) fun name => ?_
  exact .bind (Keeps.carries (keeps_unname fun _ => rfl)) fun _ => .pure _

end Naming

section Placing

theorem hashes_insertInstruction : Hashes hash (insertInstruction b i anchor) :=
  .bind (.lift _) fun _ => .bind (.lift _) fun _ => .guard (.raise _)
    (.bind naming_placeInstruction.hashes fun _ => hashes_registerName)

theorem hashes_insertInstructionBefore {a : ValueId} : Hashes hash (insertInstructionBefore i a) :=
  .bind (.lift _) fun _ => .bind (.lift _) fun _ => hashes_insertInstruction

theorem hashes_relocateInstruction : Hashes hash (relocateInstruction i b anchor) := by
  refine .bind (.lift _) fun current => ?_
  split
  · exact hashes_insertInstruction
  · refine .bind (.lift _) fun shared => .ite ?_ ?_
    · exact (Fixes.bind naming_modifyInstructions fun _ => naming_placeInstruction).hashes
    · exact .bind naming_removeInstruction.hashes fun _ => hashes_insertInstruction

theorem hashes_insertBlock : Hashes hash (insertBlock f b anchor) :=
  .bind (.lift _) fun _ => .bind (.lift _) fun _ => .guard (.raise _)
    (.bind (Fixes.hashes fixes_setBlockParent) fun _ =>
      .bind (Fixes.hashes fixes_modifyBlocks) fun _ => .bind hashes_registerName fun _ =>
        .bind (.lift _) fun insts => .forM (fun _ => hashes_registerName) insts)

theorem hashes_relocateBlock : Hashes hash (relocateBlock b f anchor) := by
  refine .bind (.lift _) fun current => ?_
  split
  · exact hashes_insertBlock
  · refine .ite (Fixes.hashes fixes_modifyBlocks) ?_
    exact .bind naming_removeBlock.hashes fun _ => hashes_insertBlock

theorem hashes_appendFunction : Hashes hash (appendFunction m f) :=
  .bind (.lift _) fun _ => .bind (.lift _) fun _ => .guard (.raise _)
    (.bind (Fixes.hashes fixes_setFunctionModule) fun _ => .bind naming_modifyModule.hashes fun _ =>
      hashes_registerName)

theorem hashes_moveFunctionTo : Hashes hash (moveFunctionTo f m) := by
  refine .bind (.lift _) fun current => ?_
  split
  · exact hashes_appendFunction
  · refine .ite naming_modifyModule.hashes ?_
    exact .bind naming_removeFunction.hashes fun _ => hashes_appendFunction

theorem hashes_appendGlobal : Hashes hash (appendGlobal m g) :=
  .bind (.lift _) fun _ => .bind (.lift _) fun _ => .guard (.raise _)
    (.bind (Fixes.hashes fixes_setGlobalModule) fun _ => .bind naming_modifyModule.hashes fun _ =>
      hashes_registerName)

theorem hashes_moveGlobalTo : Hashes hash (moveGlobalTo g m) :=
  .bind (.lift _) fun _ => .ite (.bind naming_removeGlobal.hashes fun _ => hashes_appendGlobal)
    hashes_appendGlobal

end Placing

section Creating

theorem hashes_internType {sh : TypeShape} : Hashes hash (internType sh) :=
  Fixes.hashes fun _ => Keeps.modifyGet fun _ hs => hs

theorem hashes_pushValue {d : Value} (hd : ∀ hash, IsHashed hash d.label) :
    Hashes hash (pushValue d) :=
  (keeps_pushValue_hashed hd).carries

theorem hashes_addOperand : Hashes hash (addOperand v o) := fixes_addOperand.of_uses.hashes

theorem hashes_internScalar {data : ConstantData} : Hashes hash (internScalar ty data) := by
  refine .bind .get fun s => ?_
  split
  · exact .pure _
  · exact .bind (hashes_pushValue isHashed_none) fun _ =>
      .bind (Fixes.hashes (.modify fun s => Lasting.constants s _)) fun _ => .pure _

theorem hashes_blockAddress : Hashes hash (blockAddress f b) := by
  refine .bind (.lift _) fun _ => .bind (.lift _) fun _ => .bind .get fun s => ?_
  split
  · exact .pure _
  · exact .bind hashes_internType fun _ => .bind (hashes_pushValue isHashed_none) fun _ =>
      .bind hashes_addOperand fun _ => .bind hashes_addOperand fun _ =>
        .bind (Fixes.hashes (.modify fun s => Lasting.constants s _)) fun _ => .pure _

theorem hashes_wrapperValue {n : NodeId} : Hashes hash (wrapperValue n) := by
  refine .bind (.lift _) fun _ => .bind .get fun s => ?_
  split
  · exact .pure _
  · exact .bind hashes_internType fun _ => .bind (hashes_pushValue isHashed_none) fun _ =>
      .bind fixes_modifyMetadata.naming_of_body.hashes fun _ => .bind (Fixes.hashes fixes_track) fun _ =>
        .pure _

theorem hashes_createInstruction : Hashes hash (createInstruction opcode ty os) :=
  .bind (hashes_pushValue isHashed_none) fun _ =>
    .bind (.forM (fun _ => .bind hashes_addOperand fun _ => .pure _) _) fun _ => .pure _

theorem hashes_buildInstruction {name : Option String} {placement : Placement} :
    Hashes hash (buildInstruction opcode ty os name placement) :=
  .buildInstruction hashes_createInstruction hashes_setName hashes_insertInstruction

theorem hashes_createDetachedBlock : Hashes hash (createDetachedBlock text) :=
  .bind hashes_internType fun _ => .bind (hashes_pushValue isHashed_none) fun _ =>
    .bind keeps_writeName_hashed.carries fun _ => .pure _

theorem hashes_createBlock : Hashes hash (createBlock f text) :=
  .bind hashes_createDetachedBlock fun _ => .bind hashes_insertBlock fun _ => .pure _

theorem hashes_createGlobal : Hashes hash (createGlobal m text ty o) :=
  .bind (hashes_pushValue isHashed_none) fun _ => .bind hashes_addOperand fun _ =>
    .bind keeps_writeName_hashed.carries fun _ => .bind hashes_appendGlobal fun _ => .pure _

theorem hashes_createFunction : Hashes hash (createFunction m text ty) := by
  refine .bind (.lift _) fun sh => ?_
  split
  · refine .bind (hashes_pushValue isHashed_none) fun f =>
    .bind (Fixes.hashes (.modify fun s => rfl)) fun _ => ?_
    have hargument (x : TypeId × Nat) : Keeps (Store.Hashed hash)
        (pushValue { ty := x.1, payload := .argument f x.2 }) := keeps_pushValue_hashed isHashed_none
    refine .bind (Keeps.mapM hargument _).carries fun args => ?_
    refine .bind (Keeps.carries (keeps_modifyValue_hashed fun _ => rfl)) fun _ => ?_
    exact .bind keeps_writeName_hashed.carries fun _ => .bind hashes_appendFunction fun _ => .pure _
  · exact .raise _

theorem hashes_createModule : Hashes hash (createModule text) :=
  Fixes.hashes fun _ => Keeps.modifyGet fun _ hs => hs

end Creating

section Erasing

theorem hashes_replaceAllUses {old new : ValueId} : Hashes hash (replaceAllUses old new) :=
  robust_hashed.carries_replaceAllUses.keeps.carries

theorem hashes_replaceNode {n n' : NodeId} : Hashes hash (replaceNode n n') :=
  robust_hashed.carries_replaceNode.keeps.carries

theorem hashes_replaceWithUniqued {n : NodeId} : Hashes hash (replaceWithUniqued n) := by
  refine .bind (.lift _) fun _ => .bind (.lift _) fun d => .bind .get fun s => ?_
  split
  · exact .bind hashes_replaceNode fun _ => .bind fixes_eraseTemporary.naming_of_body.hashes fun _ =>
      .pure _
  · exact .bind fixes_settle.naming_of_body.hashes fun _ =>
      .bind fixes_modifyMetadata.naming_of_body.hashes fun _ => .pure _

theorem hashes_replaceWithDistinct {n : NodeId} : Hashes hash (replaceWithDistinct n) :=
  .bind (.lift _) fun _ => .bind fixes_settle.naming_of_body.hashes fun _ => .pure _

theorem erodes_hashed : Erodes (fun x s => x ≠ .counterExhausted ∧ s.layout.Placed)
    fun _ => Store.Hashed hash :=
  allHashed_naming ▸ erodes_naming AllHashed.erase fun a ty data =>
    AllHashed.push (x := ((none, 0), some (ty, data))) isHashed_none a

theorem hashes_eraseInstruction : Hashes hash (eraseInstruction v) :=
  erodes_hashed.carries_eraseInstruction (B := fun _ => False)

theorem hashes_eraseGlobal : Hashes hash (eraseGlobal v) :=
  erodes_hashed.carries_eraseGlobal (B := fun _ => False)

theorem hashes_eraseBlock : Hashes hash (eraseBlock b) :=
  erodes_hashed.carries_eraseBlock (B := fun _ => False)

theorem hashes_eraseFunction : Hashes hash (eraseFunction f) :=
  erodes_hashed.carries_eraseFunction (B := fun _ => False)

theorem hashes_eraseModule : Hashes hash (eraseModule m) :=
  erodes_hashed.carries_eraseModule (B := fun _ => False)

end Erasing

end Edit

namespace Command

open Edit

theorem hashes_run {hash : String → UInt64} (c : Command) : Hashes hash c.run := by
  cases c with
  | internType => exact hashes_internType.map _
  | constInt => exact hashes_internScalar.map _
  | constNull => exact hashes_internScalar.map _
  | constUndefined => exact hashes_internScalar.map _
  | blockAddress => exact hashes_blockAddress.map _
  | setOperand => exact .bind fixes_setOperand.of_uses.hashes fun _ => .pure _
  | pushOperand => exact fixes_pushOperand.of_uses.hashes.map _
  | dropAllReferences => exact .bind fixes_dropAllReferences.of_uses.hashes fun _ => .pure _
  | replaceAllUses => exact .bind hashes_replaceAllUses fun _ => .pure _
  | replaceUsesIf => exact robust_hashed.carries_replaceUsesIf.keeps.carries.map _
  | setName => exact .bind hashes_setName fun _ => .pure _
  | takeName => exact hashes_takeName.map _
  | createModule => exact hashes_createModule.map _
  | eraseModule => exact .bind hashes_eraseModule fun _ => .pure _
  | createFunction => exact hashes_createFunction.map _
  | appendFunction => exact .bind hashes_appendFunction fun _ => .pure _
  | removeFunction => exact .bind naming_removeFunction.hashes fun _ => .pure _
  | moveFunctionTo => exact .bind hashes_moveFunctionTo fun _ => .pure _
  | eraseFunction => exact .bind hashes_eraseFunction fun _ => .pure _
  | createGlobal => exact hashes_createGlobal.map _
  | setInitializer => exact .bind fixes_setInitializer.of_uses.hashes fun _ => .pure _
  | appendGlobal => exact .bind hashes_appendGlobal fun _ => .pure _
  | removeGlobal => exact .bind naming_removeGlobal.hashes fun _ => .pure _
  | moveGlobalTo => exact .bind hashes_moveGlobalTo fun _ => .pure _
  | eraseGlobal => exact .bind hashes_eraseGlobal fun _ => .pure _
  | createBlock => exact hashes_createBlock.map _
  | createDetachedBlock => exact hashes_createDetachedBlock.map _
  | appendBlock => exact .bind hashes_insertBlock fun _ => .pure _
  | insertBlockBefore =>
    exact .bind (.bind (.lift _) fun _ => .bind (.lift _) fun _ => hashes_insertBlock) fun _ => .pure _
  | removeBlock => exact .bind naming_removeBlock.hashes fun _ => .pure _
  | moveBlockBefore =>
    exact .bind (.bind (.lift _) fun _ => .bind (.lift _) fun _ => hashes_relocateBlock)
      fun _ => .pure _
  | moveBlockTo => exact .bind hashes_relocateBlock fun _ => .pure _
  | eraseBlock => exact .bind hashes_eraseBlock fun _ => .pure _
  | buildInstruction => exact hashes_buildInstruction.map _
  | appendInstruction => exact .bind hashes_insertInstruction fun _ => .pure _
  | insertInstructionBefore => exact .bind hashes_insertInstructionBefore fun _ => .pure _
  | removeInstruction => exact .bind naming_removeInstruction.hashes fun _ => .pure _
  | moveInstructionBefore =>
    exact .bind (.bind (.lift _) fun _ => .bind (.lift _) fun _ => hashes_relocateInstruction)
      fun _ => .pure _
  | moveInstructionToEnd =>
    exact .bind (.bind (.lift _) fun _ => hashes_relocateInstruction) fun _ => .pure _
  | eraseInstruction => exact .bind hashes_eraseInstruction fun _ => .pure _
  | stringNode => exact fixes_stringNode.naming_of_body.hashes.map _
  | valueNode => exact fixes_valueNode.naming_of_body.hashes.map _
  | tuple => exact fixes_tuple.naming_of_body.hashes.map _
  | distinctTuple => exact fixes_distinctTuple.naming_of_body.hashes.map _
  | temporaryTuple => exact fixes_temporaryTuple.naming_of_body.hashes.map _
  | replaceNode => exact .bind hashes_replaceNode fun _ => .pure _
  | replaceWithUniqued => exact hashes_replaceWithUniqued.map _
  | replaceWithDistinct => exact hashes_replaceWithDistinct.map _
  | eraseTemporary => exact .bind fixes_eraseTemporary.naming_of_body.hashes fun _ => .pure _
  | setNodeOperand => exact .bind fixes_setNodeOperand.naming_of_body.hashes fun _ => .pure _
  | pushNodeOperand => exact .bind fixes_pushNodeOperand.naming_of_body.hashes fun _ => .pure _
  | insertNodeOperand => exact .bind fixes_insertNodeOperand.naming_of_body.hashes fun _ => .pure _
  | removeNodeOperand => exact fixes_removeNodeOperand.naming_of_body.hashes.map _
  | trackHandle => exact (Fixes.hashes fixes_trackHandle).map _
  | resetHandle => exact .bind (Fixes.hashes fixes_resetHandle) fun _ => .pure _
  | moveHandle => exact (Fixes.hashes fixes_moveHandle).map _
  | releaseHandle => exact .bind (Fixes.hashes fixes_releaseHandle) fun _ => .pure _
  | wrapperValue => exact hashes_wrapperValue.map _
  | internTag => exact (Fixes.hashes fixes_internTag).map _
  | setMetadata => exact .bind (Fixes.hashes fixes_setMetadata) fun _ => .pure _
  | addNamedMetadata => exact .bind (Fixes.hashes fixes_addNamedMetadata) fun _ => .pure _
  | eraseNamedMetadata => exact .bind (Fixes.hashes fixes_eraseNamedMetadata) fun _ => .pure _

end Command

end ShaderIR
