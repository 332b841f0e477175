import ShaderIR.Proofs.PlainMerges

/-! Commands leave every location with a live node as long as those that merge nodes find no node
that wraps a value that wraps a node itself. -/

open ShaderIR.Core

namespace ShaderIR

namespace Edit

open Store

variable {B : ValueId → Prop} {s s' : Store} {L : Layout} {v old new : ValueId} {n m : NodeId}
variable {d : Value} {ty : TypeId} {data : ConstantData} {α : Type} {e : Edit α}

section Fixing

theorem plain_of_core (hc : s'.core = s.core) (h : s.WrapsPlain) : s'.WrapsPlain := by
  have hnodeOf : s'.metadata.nodeOf = s.metadata.nodeOf :=
    congrArg (fun c => c.metadata.nodeOf) hc
  refine h.mono (fun v n hn => hnodeOf ▸ hn) fun v d' hd' => ?_
  have hbare : s.core.values.get? v = some d'.bare := by
    rw [← hc, get?_core, hd', Option.map_some]
  rw [get?_core] at hbare
  obtain ⟨d, hd, heq⟩ := Option.map_eq_some_iff.1 hbare
  refine ⟨d, hd, ?_⟩
  rw [← Value.kind_bare d', ← heq, Value.kind_bare]

theorem Keeps.moored (ha : Keeps Store.Anchored e) (hp : Keeps WrapsPlain e) :
    Keeps Moored e := fun s hs =>
  ((ha s hs.anchored).and (hp s hs.plain)).mono (fun _ _ h => ⟨h.1, h.2⟩) fun _ _ h => ⟨h.1, h.2⟩

theorem Fixes.moored_of_core (h : Fixes Store.core e) : Keeps Moored e :=
  .moored h.anchored_of_core fun s hs =>
    (h.ends s).mono (fun _ _ hc => plain_of_core hc hs) fun _ _ hc => plain_of_core hc hs

theorem Fixes.moored_of_unwired (h : Fixes Store.unwired e) : Keeps Moored e :=
  .moored h.anchored_of_unwired (Fixes.plain (h.of_view fun {s s'} hu => by
    rw [show s'.ledger = s'.unwired.ledger from rfl, hu]
    rfl))

end Fixing

section Replacing

/-- The node that wraps the old value moves along. The new value is wrapped then, so it is to wrap
no node itself. -/
theorem ends_replaceAllUses_moored (hs : s.SettledWith L) (hk : s.Keyed) (h : s.Moored) :
    Ends (replaceAllUses old new) s (fun _ s' => s'.Anchored ∧
      ((∀ d, s.values.get? new = some d → d.kind ≠ .metadata) → s'.WrapsPlain))
      fun _ s' => s' = s := by
  by_cases hne : old = new
  · subst hne
    refine (replaceAllUses_self s old).weaken ?_
    rintro _ _ rfl
    exact ⟨h.anchored, fun _ => h.plain⟩
  suffices hmoved : Ends (replaceAllUses old new) s (fun _ s' => s'.Anchored ∧
      ((∀ d, s.values.get? new = some d → d.kind ≠ .metadata) → s'.WrapsPlain))
      fun _ _ => True from
    ((ends_replaceAllUses hs hk hne).and hmoved).mono (fun _ _ h => h.2) fun _ _ h => h.1.1
  have hsize : s.SettledIn L s.values.size := hs.bounded (Nat.le_refl _)
  have hg : s.uses.Sound s.core.IsLive := hs.1.graph
  have ht : ∀ e ∈ s.uses.useList old, (s.uses.edge e).target = some old := fun e =>
    (hg.lists.mem old e).1
  refine ends_replaceAllUses_of (R := fun q => Moves L s.values.size old new (s.uses.useList old)
    s q ∧ q.Moored) hne (fun hty => ?_) (fun q hty hq => ?_) fun _ _ => trivial
  · exact ((ends_moveEdges_keyed hsize hk (hg.lists.nodup old) ht hne hty).and
      (ends_moveEdges_moored hsize h (hg.lists.nodup old) ht hne hty)).mono (fun _ _ h => h)
        fun _ _ _ => trivial
  · obtain ⟨hmoves, hqm⟩ := hq
    obtain ⟨dold, dnew, hold, hnew, hty⟩ := Query.expectSameType_ok.1 hty
    refine (ends_moveValueNode_moored (mergesWrappers_replaceWithin _) (movesUses_replaceWithin _)
      hmoves.settled.settled (Nat.le_succ_of_le hmoves.settled.wrappers) hne
      (hmoves.live hs.1 hold hnew hty) hqm).weaken ?_
    rintro _ s' ⟨ha, hp⟩
    refine ⟨ha, fun hplain => hp fun d hd => ?_⟩
    obtain ⟨p, hp, -, hsp, -⟩ := hmoves.moved
    obtain ⟨d', hd', hkind, -⟩ := hsp.sort hd
    rw [hkind]
    exact hplain d' (hp.values ▸ hd')

theorem ends_replaceUsesIf_moored {σ : Type} {ask : σ → Use → Bool × σ} {st : σ}
    (hs : s.SettledWith L)
    (hk : s.Keyed) (h : s.Moored) : Ends (replaceUsesIf old new ask st) s
      (fun _ => Moored) fun _ s' => s' = s := by
  by_cases hne : old = new
  · unfold replaceUsesIf
    rw [if_pos hne]
    exact h
  suffices hmoved : Ends (replaceUsesIf old new ask st) s (fun _ => Moored) fun _ _ => True from
    ((ends_replaceUsesIf hs hk hne).and hmoved).mono (fun _ _ h => h.2) fun _ _ h => h.1
  have hg : s.uses.Sound s.core.IsLive := hs.1.graph
  exact ends_replaceUsesIf_of hne (fun es hsub hty => ends_moveEdges_moored
    (hs.bounded (Nat.le_succ _)) h ((hg.lists.nodup old).sublist hsub)
    (fun e he => (hg.lists.mem old e).1 (hsub.subset he)) hne hty) fun _ => trivial

theorem ends_replaceNode_moored (hs : s.SettledWith L) (h : s.Moored) :
    Ends (replaceNode n m) s (fun _ => Moored) fun _ s' => s' = s := by
  have hsize : s.SettledIn L s.values.size := hs.bounded (Nat.le_refl _)
  unfold replaceNode
  rw [ends_bind, ends_get]
  exact (ends_replaceNodeStep_moored (mergesWrappers_replaceWithin _) (movesUses_replaceWithin _)
    hs.1 (Nat.le_trans hsize.wrappers (Nat.le_add_right _ 2)) h).mono (fun _ _ h => h.1)
      fun _ _ h => h

theorem ends_replaceWithUniqued_anchored (hs : s.SettledWith L) (h : s.Moored) :
    Ends (replaceWithUniqued n) s (fun _ => Store.Anchored) fun _ => Store.Anchored := by
  refine ends_bind.2 (ends_lift.2 ⟨fun _ _ => ?_, fun _ _ => h.anchored⟩)
  refine ends_bind.2 (ends_lift.2 ⟨fun d _ => ?_, fun _ _ => h.anchored⟩)
  rw [ends_bind, ends_get]
  split
  next x _ =>
    refine Ends.bind ((((safe_replaceNode (n := n) (m := x)).keeps s hs).and
      (ends_replaceNode_moored hs h)).mono (fun _ _ h => h) ?_) ?_
    · rintro _ _ ⟨-, rfl⟩
      exact h.anchored
    · rintro _ p ⟨hp, hpm⟩
      exact Ends.bind (ends_eraseTemporary_anchored hp.1 hpm.anchored) fun _ _ h => h
  next =>
    have henter : Keeps Store.Anchored (modify (·.modifyMetadata fun md =>
        { md with uniqued := md.uniqued.insert d.content n }) : Edit Unit) := .modify fun _ hs => hs
    exact Keeps.bind keeps_settle_anchored (fun _ => .bind henter fun _ => .pure _) s h.anchored

end Replacing

section Erasing

/-- A coherent store of which every location holds a live node. -/
structure Secured (B : ValueId → Prop) (s : Store) : Prop where
  coherent : Coherent B s
  moored : s.Moored

theorem Keeps.secured (hc : Keeps (Coherent B) e) (hm : Keeps Moored e) : Keeps (Secured B) e :=
  fun s hs => ((hc s hs.coherent).and (hm s hs.moored)).mono (fun _ _ h => ⟨h.1, h.2⟩)
    fun _ _ h => ⟨h.1, h.2⟩

theorem keeps_pushValue_plain (hk : d.kind ≠ .metadata) : Keeps WrapsPlain (pushValue d) := by
  refine Keeps.modifyGet fun s hs v n d' hn hd' => ?_
  rw [get?_pushValue] at hd'
  split at hd'
  · exact Option.some.inj hd' ▸ hk
  · exact hs v n d' hn hd'

theorem Coherent.kind_of_entry {key : ConstantKey} (h : Coherent B s)
    (hv : s.constants[key]? = some v) : ∃ d, s.values.get? v = some d ∧ d.kind = .constant := by
  have hkey : s.keyOf v = some key := (h.keyed.entered key v).1 hv
  cases hd : s.values.get? v with
  | none => simp [keyOf_of_dead hd] at hkey
  | some d =>
    refine ⟨d, rfl, ?_⟩
    by_contra hk
    simp [keyOf_of_kind hd hk] at hkey

theorem ends_internScalar_kind (hs : Coherent B s) : Ends (internScalar ty data) s
    (fun c s' => ∃ d, s'.values.get? c = some d ∧ d.kind = .constant) fun _ _ => True := by
  unfold internScalar
  rw [ends_bind, ends_get]
  split
  next c hc => exact hs.kind_of_entry hc
  next =>
    let d : Value := { ty := ty, payload := .constant data }
    rw [ends_bind, pushValue, ends_modifyGet, ends_bind, ends_modify]
    exact ⟨d, (get?_pushValue s d _).trans (if_pos rfl), rfl⟩

theorem ends_internScalar_secured (hdata : data ≠ .blockAddress) (hs : Secured B s) :
    Ends (internScalar ty data) s (fun c s' => Secured B s' ∧
      ∃ d, s'.values.get? c = some d ∧ d.kind = .constant) fun _ => Secured B := by
  have hplain : Keeps WrapsPlain (internScalar ty data) := by
    refine .bind .get fun s => ?_
    split
    · exact .pure _
    · exact .bind (keeps_pushValue_plain (by simp [Value.kind, Payload.kind])) fun _ =>
        .bind (.modify fun _ h => h) fun _ => .pure _
  have hmoored : Keeps Moored (internScalar ty data) := .moored holds_internScalar.anchored hplain
  exact ((Keeps.secured (keeps_internScalar_coherent hdata) hmoored s hs).and
    (ends_internScalar_kind hs.coherent)).mono (fun _ _ h => h) fun _ _ h => h.1

theorem keeps_destroyValue_secured : Keeps (Secured B) (destroyValue v) := fun s hs =>
  ((keeps_destroyValue_coherent s hs.coherent).and
    (ends_destroyValue_moored hs.coherent.settled hs.moored)).mono (fun _ _ h => ⟨h.1, h.2⟩)
      fun _ _ h => ⟨h.1, h.2⟩

theorem keeps_nullifyBlockAddress_secured : Keeps (Secured B) (nullifyBlockAddress v) := by
  refine .bind (.lift _) fun ty s hs => ?_
  refine Ends.bind (ends_internScalar_secured (by simp) hs) ?_
  rintro c p ⟨hp, d, hd, hk⟩
  have hreplace : Keeps (Coherent B) (replaceAllUses v c) := keeps_replaceAllUses_coherent
  refine Ends.bind (((hreplace p hp.coherent).and (ends_replaceAllUses_moored
    ⟨hp.coherent.settled, rfl⟩ hp.coherent.keyed hp.moored)).mono (fun _ _ h => h) ?_) ?_
  · rintro _ _ ⟨-, rfl⟩
    exact hp
  · rintro _ q ⟨hq, ha, hplain⟩
    refine keeps_destroyValue_secured q ⟨hq, ha, hplain fun d' hd' => ?_⟩
    rw [← Option.some.inj (hd.symm.trans hd'), hk]
    decide

theorem erodes_secured : Erodes (fun _ _ => True) Secured where
  weaken hs hB := ⟨hs.coherent.weaken hB, hs.moored⟩
  instructions hs hinsts := ⟨hs.coherent.addInstructions hinsts, hs.moored⟩
  globals hs hm := ⟨hs.coherent.addGlobals hm, hs.moored⟩
  empty hu :=
    (Keeps.secured (keeps_emptyOperands_coherent hu) fixes_emptyOperands.moored_of_unwired).carries
  destroy := keeps_destroyValue_secured.carries
  nullify := keeps_nullifyBlockAddress_secured.carries
  clear :=
    (Keeps.secured keeps_clear_coherent (Fixes.moored_of_core fixes_modifyInstructions)).carries
  removeInstruction :=
    (Keeps.secured keeps_removeInstruction_coherent fixes_removeInstruction.moored_of_core).carries
  removeGlobal :=
    (Keeps.secured keeps_removeGlobal_coherent fixes_removeGlobal.moored_of_core).carries
  removeBlock :=
    (Keeps.secured keeps_removeBlock_coherent (Fixes.moored_of_core fixes_removeBlock)).carries
  removeFunction :=
    (Keeps.secured keeps_removeFunction_coherent
      (Fixes.moored_of_core fixes_removeFunction)).carries
  release :=
    (Keeps.secured keeps_eraseNamedMetadata_coherent
      (.moored keeps_eraseNamedMetadata_anchored (Fixes.plain fixes_eraseNamedMetadata))).carries
  drop := (Keeps.secured keeps_dropModule_coherent
    (.modify fun _ hs => ⟨hs.anchored, hs.plain⟩)).carries

def Tethered (s : Store) : Prop := s.Settled ∧ s.Anchored

theorem keeps_destroyValue_tethered : Keeps Tethered (destroyValue v) := fun s hs =>
  (keeps_destroyValue s hs.1).and (ends_destroyValue_anchored hs.1 hs.2)

theorem Fixes.tethered_of_core (h : Fixes Store.core e) : Keeps Tethered e :=
  .and (keeps_of_fixes h) h.anchored_of_core

theorem keeps_eraseInstruction_tethered : Keeps Tethered (eraseInstruction v) :=
  .bind (.lift _) fun _ => .bind (.lift _) fun _ =>
    .guard fixes_removeInstruction.tethered_of_core keeps_destroyValue_tethered

theorem keeps_eraseGlobal_tethered : Keeps Tethered (eraseGlobal v) :=
  .bind (.lift _) fun _ => .bind (.lift _) fun _ =>
    .guard fixes_removeGlobal.tethered_of_core keeps_destroyValue_tethered

end Erasing

end Edit

namespace Store

/-- Whether no node wraps a value that wraps a node. -/
def wrapsPlainly (s : Store) : Bool :=
  s.metadata.nodeOf.toList.all fun a => (s.values.get? a.1).all fun d => d.kind ≠ .metadata

theorem wrapsPlainly_iff {s : Store} : s.wrapsPlainly = true ↔ s.WrapsPlain := by
  rw [wrapsPlainly, List.all_eq_true]
  constructor
  · intro h v n d hn hd
    have hv := h (v, n) (Std.ExtTreeMap.mem_toList_iff_getElem?_eq_some.2 hn)
    simpa [hd] using hv
  · rintro h ⟨v, n⟩ ha
    have hn := Std.ExtTreeMap.mem_toList_iff_getElem?_eq_some.1 ha
    cases hd : s.values.get? v with
    | none => simp
    | some d => simpa [hd] using h v n d hn hd

end Store

namespace Command

open Edit

variable {B : ValueId → Prop} {s : Store}

/-- What merges nodes, or may do so while it erases values. -/
def mergesNodes : Command → Bool
  | .replaceAllUses .. | .replaceUsesIf .. | .replaceNode .. | .replaceWithUniqued _ => true
  | c => c.erasesContainer

/-- Whether no node wraps a value that wraps a node whenever one of some commands merges nodes. -/
def mergesPlainly : Store → List Command → Bool
  | _, [] => true
  | s, c :: cs => (!c.mergesNodes || s.wrapsPlainly) && mergesPlainly (after s c) cs

theorem ends_run_anchored (c : Command) (hs : Coherent B s) (ha : s.Anchored)
    (hp : c.mergesNodes = true → s.WrapsPlain) :
    Ends c.run s (fun _ => Store.Anchored) fun _ => Store.Anchored := by
  have hset : s.SettledWith s.layout := ⟨hs.settled, rfl⟩
  have hkeep {c : Command} (h : Keeps Store.Anchored c.run) :
      Ends c.run s (fun _ => Store.Anchored) fun _ => Store.Anchored := h s ha
  have hplace {e : Edit Unit} (h : Fixes Store.core e) : Keeps Store.Anchored (quiet e) :=
    keeps_quiet h.anchored_of_core
  have hwire {e : Edit Unit} (h : Fixes Store.unwired e) : Keeps Store.Anchored (quiet e) :=
    keeps_quiet h.anchored_of_unwired
  have herase {e : Edit Unit} (hq : s.WrapsPlain) (h : Keeps (Secured B) e) :
      Ends (quiet e) s (fun _ => Store.Anchored) fun _ => Store.Anchored :=
    (keeps_quiet h s ⟨hs, ha, hq⟩).mono (fun _ _ h => h.moored.anchored)
      fun _ _ h => h.moored.anchored
  have hsingle {e : Edit Unit} (h : Keeps Tethered e) :
      Ends (quiet e) s (fun _ => Store.Anchored) fun _ => Store.Anchored :=
    (keeps_quiet h s ⟨hs.settled, ha⟩).mono (fun _ _ h => h.2) fun _ _ h => h.2
  cases c with
  | internType => exact hkeep (holds_internType.anchored.map _)
  | constInt => exact hkeep (holds_internScalar.anchored.map _)
  | constNull => exact hkeep (holds_internScalar.anchored.map _)
  | constUndefined => exact hkeep (holds_internScalar.anchored.map _)
  | blockAddress => exact hkeep (holds_blockAddress.anchored.map _)
  | setOperand => exact hwire fixes_setOperand s ha
  | pushOperand => exact hkeep (fixes_pushOperand.anchored_of_unwired.map _)
  | dropAllReferences => exact hwire fixes_dropAllReferences s ha
  | replaceAllUses =>
    refine ends_quiet ((ends_replaceAllUses_moored hset hs.keyed ⟨ha, hp rfl⟩).mono
      (fun _ _ h => h.1) ?_)
    rintro _ _ rfl
    exact ha
  | replaceUsesIf =>
    refine Ends.map ((ends_replaceUsesIf_moored hset hs.keyed ⟨ha, hp rfl⟩).mono
      (fun _ _ h => h.anchored) ?_)
    rintro _ _ rfl
    exact ha
  | setName => exact hplace fixes_setName s ha
  | takeName => exact hkeep ((Fixes.anchored_of_core fixes_takeName).map _)
  | createModule => exact hkeep (fixes_createModule.anchored_of_core.map _)
  | eraseModule => exact herase (hp rfl) erodes_secured.carries_eraseModule.keeps
  | createFunction => exact hkeep (keeps_createFunction_anchored.map _)
  | appendFunction => exact hplace fixes_appendFunction s ha
  | removeFunction => exact hplace fixes_removeFunction s ha
  | moveFunctionTo => exact hplace fixes_moveFunctionTo s ha
  | eraseFunction => exact herase (hp rfl) erodes_secured.carries_eraseFunction.keeps
  | createGlobal => exact hkeep (holds_createGlobal.anchored.map _)
  | setInitializer => exact hwire fixes_setInitializer s ha
  | appendGlobal => exact hplace fixes_appendGlobal s ha
  | removeGlobal => exact hplace fixes_removeGlobal s ha
  | moveGlobalTo => exact hplace fixes_moveGlobalTo s ha
  | eraseGlobal => exact hsingle keeps_eraseGlobal_tethered
  | createBlock => exact hkeep (holds_createBlock.anchored.map _)
  | createDetachedBlock => exact hkeep (holds_createDetachedBlock.anchored.map _)
  | appendBlock => exact hplace fixes_insertBlock s ha
  | insertBlockBefore =>
    exact hkeep (keeps_quiet (.bind (.lift _) fun _ => .bind (.lift _) fun _ =>
      Fixes.anchored_of_core fixes_insertBlock))
  | removeBlock => exact hplace fixes_removeBlock s ha
  | moveBlockBefore =>
    exact hkeep (keeps_quiet (.bind (.lift _) fun _ => .bind (.lift _) fun _ =>
      Fixes.anchored_of_core fixes_relocateBlock))
  | moveBlockTo => exact hplace fixes_relocateBlock s ha
  | eraseBlock => exact herase (hp rfl) erodes_secured.carries_eraseBlock.keeps
  | buildInstruction => exact hkeep (keeps_buildInstruction_anchored.map _)
  | appendInstruction => exact hplace fixes_insertInstruction s ha
  | insertInstructionBefore => exact hplace fixes_insertInstructionBefore s ha
  | removeInstruction => exact hplace fixes_removeInstruction s ha
  | moveInstructionBefore =>
    exact hkeep (keeps_quiet (.bind (.lift _) fun _ => .bind (.lift _) fun _ =>
      fixes_relocateInstruction.anchored_of_core))
  | moveInstructionToEnd =>
    exact hkeep (keeps_quiet (.bind (.lift _) fun _ => fixes_relocateInstruction.anchored_of_core))
  | eraseInstruction => exact hsingle keeps_eraseInstruction_tethered
  | stringNode => exact hkeep (keeps_stringNode_anchored.map _)
  | valueNode => exact hkeep (keeps_valueNode_anchored.map _)
  | tuple => exact hkeep (keeps_tuple_anchored.map _)
  | distinctTuple => exact hkeep (keeps_distinctTuple_anchored.map _)
  | temporaryTuple => exact hkeep (keeps_temporaryTuple_anchored.map _)
  | replaceNode =>
    refine ends_quiet ((ends_replaceNode_moored hset ⟨ha, hp rfl⟩).mono
      (fun _ _ h => h.anchored) ?_)
    rintro _ _ rfl
    exact ha
  | replaceWithUniqued => exact (ends_replaceWithUniqued_anchored hset ⟨ha, hp rfl⟩).map
  | replaceWithDistinct => exact hkeep (keeps_replaceWithDistinct_anchored.map _)
  | eraseTemporary => exact ends_quiet (ends_eraseTemporary_anchored hs.settled ha)
  | setNodeOperand => exact hkeep (keeps_quiet keeps_setNodeOperand_anchored)
  | pushNodeOperand => exact hkeep (keeps_quiet keeps_pushNodeOperand_anchored)
  | insertNodeOperand => exact hkeep (keeps_quiet keeps_insertNodeOperand_anchored)
  | removeNodeOperand => exact hkeep (keeps_removeNodeOperand_anchored.map _)
  | trackHandle => exact hkeep (keeps_trackHandle_anchored.map _)
  | resetHandle => exact hkeep (keeps_quiet keeps_resetHandle_anchored)
  | moveHandle => exact hkeep (keeps_moveHandle_anchored.map _)
  | releaseHandle => exact hkeep (keeps_quiet keeps_releaseHandle_anchored)
  | wrapperValue => exact hkeep (keeps_wrapperValue_anchored.map _)
  | internTag => exact hkeep (holds_internTag.anchored.map _)
  | setMetadata => exact ends_quiet (ends_setMetadata_anchored hs.settled ha)
  | addNamedMetadata => exact hkeep (keeps_quiet keeps_addNamedMetadata_anchored)
  | eraseNamedMetadata => exact hkeep (keeps_quiet keeps_eraseNamedMetadata_anchored)

theorem anchored_after {c : Command} (hs : Coherent B s) (ha : s.Anchored)
    (hp : c.mergesNodes = true → s.WrapsPlain) : (after s c).Anchored :=
  of_ends_run (ends_run_anchored c hs ha hp)

theorem anchored_empty (hash : String → UInt64) (config : Config) :
    Store.Anchored { hash, config } := by
  have hvalues (v : ValueId) : ({ hash, config } : Store).core.values.get? v = none := by
    rw [Store.get?_core]
    exact congrArg _ (Arena.get?_empty v)
  rintro (⟨t, i⟩ | w | k | ⟨v, tag⟩) n hl
  · simp [held, Store.core] at hl
  · simp [held, hvalues] at hl
  · simp [held, Store.core] at hl
  · simp [held, hvalues] at hl

/-- Whatever holds a node in a store that commands leave holds a live one, if no node wrapped a
value that wraps a node whenever nodes merged. -/
theorem holds_afterAll (hash : String → UInt64) (config : Config) {cs : List Command}
    (h : mergesPlainly { hash, config } cs = true) {l : Location} {n : NodeId}
    (hl : (afterAll { hash, config } cs).Holds l n) :
    (afterAll { hash, config } cs).isNodeLive n = true := by
  suffices hanchored : ∀ s, Coherent (fun _ => False) s → s.Anchored → mergesPlainly s cs = true →
      (afterAll s cs).Anchored by
    have hs := hanchored _ (coherent_empty hash config) (anchored_empty hash config) h
    exact Store.isNode_iff.1 (hs l n ((Store.holds_iff (settled_afterAll hash config cs)).1 hl))
  clear h hl
  induction cs with
  | nil => exact fun _ _ ha _ => ha
  | cons c cs ih =>
    intro s hs ha h
    obtain ⟨hc, hcs⟩ := Bool.and_eq_true_iff.1 h
    refine ih (after s c) (keeps_after (keeps_run_coherent c) hs) (anchored_after hs ha fun hm => ?_)
      hcs
    exact Store.wrapsPlainly_iff.1 (by simpa [hm] using hc)

/-- Nodes wrap two constants. A handle and a value hold the first of them when it merges with the
other. -/
def heldConstant : List Command :=
  [.internType .metadata, .constInt ⟨0⟩ 1, .constInt ⟨0⟩ 2, .valueNode ⟨0⟩, .valueNode ⟨1⟩,
    .wrapperValue ⟨0⟩, .trackHandle (some ⟨0⟩), .replaceAllUses ⟨0⟩ ⟨1⟩]

theorem holds_heldConstant : mergesPlainly {} heldConstant = true ∧
    (afterAll {} heldConstant).Holds (.handle ⟨0⟩) ⟨1⟩ ∧
    (afterAll {} heldConstant).isNodeLive ⟨1⟩ = true := by
  have hplain : mergesPlainly {} heldConstant = true := by decide +kernel
  have hheld : (afterAll {} heldConstant).Holds (.handle ⟨0⟩) ⟨1⟩ := .handle (by decide +kernel)
  exact ⟨hplain, hheld, holds_afterAll nameHash {} hplain hheld⟩

def allAnswer : Store → List Command → Bool
  | _, [] => true
  | s, c :: cs => (match c.run s with | .ok .. => true | .error .. => false) &&
    allAnswer (after s c) cs

/-- Three nodes, each of which wraps the wrapper of the one before. A handle holds the last. -/
def nestedNodes : List Command :=
  [.internType .metadata, .constInt ⟨0⟩ 0, .constInt ⟨0⟩ 1, .constInt ⟨0⟩ 2, .valueNode ⟨0⟩,
    .wrapperValue ⟨0⟩, .valueNode ⟨1⟩, .replaceAllUses ⟨1⟩ ⟨3⟩, .wrapperValue ⟨1⟩, .valueNode ⟨2⟩,
    .replaceAllUses ⟨2⟩ ⟨4⟩, .trackHandle (some ⟨2⟩)]

/-- When the second node merges with the first, their wrappers merge. So the third node merges with
the second, which goes then. -/
theorem holds_nestedNodes :
    allAnswer {} (nestedNodes ++ [.replaceAllUses ⟨3⟩ ⟨0⟩]) = true ∧
      (afterAll {} (nestedNodes ++ [.replaceAllUses ⟨3⟩ ⟨0⟩])).Holds (.handle ⟨0⟩) ⟨1⟩ ∧
      (afterAll {} (nestedNodes ++ [.replaceAllUses ⟨3⟩ ⟨0⟩])).isNodeLive ⟨1⟩ = false :=
  ⟨by decide +kernel, .handle (by decide +kernel), by decide +kernel⟩

end Command

end ShaderIR
