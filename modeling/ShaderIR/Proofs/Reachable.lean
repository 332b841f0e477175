import ShaderIR.Proofs.ErasureInvariants

/-! Every command keeps a settled store settled, however it ends. So each store that commands leave
has exact use lists and exact lists of tracked locations. -/

open ShaderIR.Core

namespace ShaderIR

namespace Command

open Edit

theorem keeps_quiet {I : Store → Prop} {e : Edit Unit} (h : Keeps I e) : Keeps I (quiet e) :=
  .bind h fun _ => .pure _

theorem ends_quiet {e : Edit Unit} {s : Store} {Q : Store → Prop} {E : Fault → Store → Prop}
    (h : Ends e s (fun _ s' => Q s') E) : Ends (quiet e) s (fun _ s' => Q s') E :=
  Ends.bind h fun _ _ hq => hq

theorem keeps_run (c : Command) : Keeps Store.Settled c.run := by
  cases c with
  | internType => exact keeps_internType.map _
  | constInt => exact (keeps_internScalar (by simp)).map _
  | constNull => exact keeps_constNull.map _
  | constUndefined => exact (keeps_internScalar (by simp)).map _
  | blockAddress => exact keeps_blockAddress.map _
  | setOperand => exact keeps_quiet keeps_setOperand
  | pushOperand => exact keeps_pushOperand.map _
  | dropAllReferences => exact keeps_quiet keeps_dropAllReferences
  | replaceAllUses => exact keeps_quiet (.settled fun _ => safe_replaceAllUses.keeps)
  | replaceUsesIf => exact (Keeps.settled fun _ => safe_replaceUsesIf.keeps).map _
  | setName => exact keeps_quiet (keeps_of_fixes fixes_setName)
  | takeName => exact (keeps_of_fixes fixes_takeName).map _
  | createModule => exact (keeps_of_fixes fixes_createModule).map _
  | eraseModule => exact keeps_quiet keeps_eraseModule
  | createFunction => exact keeps_createFunction.map _
  | appendFunction => exact keeps_quiet (keeps_of_fixes fixes_appendFunction)
  | removeFunction => exact keeps_quiet (keeps_of_fixes fixes_removeFunction)
  | moveFunctionTo => exact keeps_quiet (keeps_of_fixes fixes_moveFunctionTo)
  | eraseFunction => exact keeps_quiet keeps_eraseFunction
  | createGlobal => exact keeps_createGlobal.map _
  | setInitializer => exact keeps_quiet keeps_setInitializer
  | appendGlobal => exact keeps_quiet (keeps_of_fixes fixes_appendGlobal)
  | removeGlobal => exact keeps_quiet (keeps_of_fixes fixes_removeGlobal)
  | moveGlobalTo => exact keeps_quiet (keeps_of_fixes fixes_moveGlobalTo)
  | eraseGlobal => exact keeps_quiet keeps_eraseGlobal
  | createBlock => exact keeps_createBlock.map _
  | createDetachedBlock => exact keeps_createDetachedBlock.map _
  | appendBlock => exact keeps_quiet (keeps_of_fixes fixes_insertBlock)
  | insertBlockBefore =>
    exact keeps_quiet (.bind (.lift _) fun _ => .bind (.lift _) fun _ =>
      keeps_of_fixes fixes_insertBlock)
  | removeBlock => exact keeps_quiet (keeps_of_fixes fixes_removeBlock)
  | moveBlockBefore =>
    exact keeps_quiet (.bind (.lift _) fun _ => .bind (.lift _) fun _ =>
      keeps_of_fixes fixes_relocateBlock)
  | moveBlockTo => exact keeps_quiet (keeps_of_fixes fixes_relocateBlock)
  | eraseBlock => exact keeps_quiet keeps_eraseBlock
  | buildInstruction => exact keeps_buildInstruction.map _
  | appendInstruction => exact keeps_quiet (keeps_of_fixes fixes_insertInstruction)
  | insertInstructionBefore => exact keeps_quiet (keeps_of_fixes fixes_insertInstructionBefore)
  | removeInstruction => exact keeps_quiet (keeps_of_fixes fixes_removeInstruction)
  | moveInstructionBefore =>
    exact keeps_quiet (.bind (.lift _) fun _ => .bind (.lift _) fun _ =>
      keeps_of_fixes fixes_relocateInstruction)
  | moveInstructionToEnd =>
    exact keeps_quiet (.bind (.lift _) fun _ => keeps_of_fixes fixes_relocateInstruction)
  | eraseInstruction => exact keeps_quiet keeps_eraseInstruction
  | stringNode => exact keeps_stringNode.map _
  | valueNode => exact keeps_valueNode.map _
  | tuple => exact safe_tuple.keeps.map _
  | distinctTuple => exact safe_distinctTuple.keeps.map _
  | temporaryTuple => exact safe_temporaryTuple.keeps.map _
  | replaceNode => exact keeps_quiet (.settled fun _ => safe_replaceNode.keeps)
  | replaceWithUniqued => exact (Keeps.settled fun _ => keeps_replaceWithUniqued).map _
  | replaceWithDistinct => exact (Keeps.settled fun _ => keeps_replaceWithDistinct).map _
  | eraseTemporary => exact keeps_quiet (.settled fun _ => keeps_eraseTemporary)
  | setNodeOperand => exact keeps_quiet safe_setNodeOperand.keeps
  | pushNodeOperand => exact keeps_quiet safe_pushNodeOperand.keeps
  | insertNodeOperand => exact keeps_quiet safe_insertNodeOperand.keeps
  | removeNodeOperand => exact safe_removeNodeOperand.keeps.map _
  | trackHandle => exact safe_trackHandle.keeps.map _
  | resetHandle => exact keeps_quiet safe_resetHandle.keeps
  | moveHandle => exact safe_moveHandle.keeps.map _
  | releaseHandle => exact keeps_quiet keeps_releaseHandle
  | wrapperValue => exact safe_wrapperValue.keeps.map _
  | internTag => exact keeps_internTag.map _
  | setMetadata => exact keeps_quiet safe_setMetadata.keeps
  | addNamedMetadata => exact keeps_quiet keeps_addNamedMetadata
  | eraseNamedMetadata => exact keeps_quiet keeps_eraseNamedMetadata

theorem of_ends_run {P : Store → Prop} {c : Command} {s : Store}
    (h : Ends c.run s (fun _ => P) fun _ => P) : P (after s c) := by
  unfold after
  cases hrun : c.run s with
  | ok _ s' => exact h.of_ok hrun
  | error _ s' => exact h.of_error hrun

theorem keeps_after {I : Store → Prop} {c : Command} (h : Keeps I c.run) {s : Store} (hs : I s) :
    I (after s c) :=
  of_ends_run (h s hs)

theorem keeps_afterAll {I : Store → Prop} (h : ∀ c : Command, Keeps I c.run) (cs : List Command)
    {s : Store} (hs : I s) : I (afterAll s cs) := by
  induction cs generalizing s with
  | nil => exact hs
  | cons c cs ih => exact ih (keeps_after (h c) hs)

theorem settled_afterAll (hash : String → UInt64) (config : Config) (cs : List Command) :
    (afterAll { hash, config } cs).Settled :=
  keeps_afterAll keeps_run cs (Store.settled_empty hash config)

end Command

namespace Store

variable {s : Store}

def IsBehind (s : Store) (e : EdgeId) (user : ValueId) (slot : Nat) : Prop :=
  (s.uses.slotsOf user)[slot]? = some e

/-- Behind one operand slot, which is the one that it names and belongs to a live value. -/
def IsOwned (s : Store) (e : EdgeId) : Prop :=
  s.isLive (s.uses.edge e).user ∧ (∀ user slot, s.IsBehind e user slot ↔
    user = (s.uses.edge e).user ∧ slot = (s.uses.edge e).slot) ∧ e ∉ s.uses.free

/-- Released once, and behind no operand slot. -/
def IsReleased (s : Store) (e : EdgeId) : Prop :=
  s.uses.free.count e = 1 ∧ ∀ user slot, ¬ s.IsBehind e user slot

/-- Operand slots, use lists and edges agree. -/
structure UsesAgree (s : Store) : Prop where
  uses : ∀ v, s.isLive v → ∃ us, Query.uses v s = .ok us ∧ us.Nodup ∧
    ∀ u, u ∈ us ↔ s.isLive u.user ∧ Query.operand u.user u.slot s = .ok (some v)
  target : ∀ {user slot t}, Query.operand user slot s = .ok (some t) → s.isLive t
  edge : ∀ e : EdgeId, e.index < s.uses.edges.size → s.IsOwned e ∨ s.IsReleased e

theorem isLive_iff {v : ValueId} : s.isLive v ↔ s.core.IsLive v := by
  rw [isLive, Option.isSome_iff_exists, isLive_core]

theorem operand_ok {user t : ValueId} {slot : Nat} :
    Query.operand user slot s = .ok (some t) ↔ s.isLive user ∧
      ∃ e, s.IsBehind e user slot ∧ (s.uses.edge e).target = some t := by
  simp only [Query.operand, Query.bind_ok, Query.operandEdge_ok, Query.read_ok, Query.pure_ok,
    isLive, Option.isSome_iff_exists, IsBehind]
  constructor
  · rintro ⟨e, ⟨hlive, he⟩, _, rfl, ht⟩
    exact ⟨hlive, e, he, ht⟩
  · rintro ⟨hlive, e, he, ht⟩
    exact ⟨e, ⟨hlive, he⟩, s, rfl, ht⟩

theorem Settled.usesAgree (h : s.Settled) : s.UsesAgree := by
  have hg : s.uses.Sound s.core.IsLive := h.graph
  refine ⟨fun v hv => ?_, fun {user slot t} ht => ?_, fun e he => ?_⟩
  · refine ⟨(s.uses.useList v).map s.uses.use, ?_, hg.uses_nodup v, fun u => ?_⟩
    · obtain ⟨d, hd⟩ := isLive_core.1 (isLive_iff.1 hv)
      simp [Query.uses, hd]
    · rw [hg.mem_uses, operand_ok]
      constructor
      · rintro ⟨e, he, ht⟩
        have hlive := isLive_iff.2 (hg.slot_live (List.mem_of_getElem? he))
        exact ⟨hlive, hlive, e, he, ht⟩
      · rintro ⟨-, -, e, he, ht⟩
        exact ⟨e, he, ht⟩
  · obtain ⟨-, e, -, ht⟩ := operand_ok.1 ht
    exact isLive_iff.2 (hg.target_live ht)
  · obtain hf | ⟨v, hv⟩ := hg.owned e he
    · refine .inr ⟨List.count_eq_one_of_mem hg.free_nodup hf, fun user slot hb => ?_⟩
      exact (hg.free e hf).2.2 user (List.mem_of_getElem? hb)
    · obtain ⟨-, hu, hs⟩ := hg.mem_slots hv
      refine .inl ⟨isLive_iff.2 (hu ▸ hg.slot_live hv), fun user slot => ⟨fun hb => ?_, ?_⟩,
        fun hf => (hg.free e hf).2.2 v hv⟩
      · obtain ⟨-, hu', hs'⟩ := hg.slot hb
        exact ⟨hu'.symm, hs'.symm⟩
      · rintro ⟨rfl, rfl⟩
        rw [IsBehind, hu, hs]

/-- What holds a reference to a node: an operand of a live tuple, a live value that wraps it, a
live handle or an attachment of a live value. -/
inductive Holds (s : Store) : Location → NodeId → Prop
  | operand {t n d ops i} (live : s.metadata.nodes.get? t = some d) (tuple : d.content = .tuple ops)
      (held : ops[i]? = some (some n)) : Holds s (.operand t i) n
  | wrapper {w n d} (live : s.values.get? w = some d) (held : d.payload = .metadata n) :
      Holds s (.wrapper w) n
  | handle {h n} (live : s.metadata.handles.get? h = some (some n)) : Holds s (.handle h) n
  | attachment {v tag n d} (live : s.values.get? v = some d) (held : (tag, n) ∈ d.attachments) :
      Holds s (.attachment v tag) n

/-- The replaceable nodes are the temporary ones and those that wrap values, and they are tracked
at the locations that hold them. -/
structure TrackingAgrees (s : Store) : Prop where
  replaceable : ∀ n, s.metadata.tracker.isReplaceable n ↔ ∃ d, s.metadata.nodes.get? n = some d ∧
    (d.storage = .temporary ∨ d.content.kind = .value)
  nodup : ∀ n, (s.metadata.tracker.tracked n).Nodup
  tracked : ∀ n, s.metadata.tracker.isReplaceable n →
    ∀ l, l ∈ s.metadata.tracker.tracked n ↔ s.Holds l n

theorem holds_iff (h : s.Settled) {l : Location} {n : NodeId} :
    s.Holds l n ↔ s.core.held l = some n := by
  have hwell {v d} (hd : s.values.get? v = some d) : d.bare.WellAttached :=
    h.attached (by rw [get?_core, hd]; rfl)
  constructor
  · rintro (⟨hd, hc, ho⟩ | ⟨hd, hp⟩ | ⟨hh⟩ | ⟨hd, ha⟩)
    · rw [held_operand s.core hd, hc, Content.operands, ho]
      rfl
    · rw [Core.held, get?_core, hd]
      exact Value.wrapped?_eq_some.2 (Value.bare_payload_metadata.2 hp)
    · exact congrArg Option.join hh
    · rw [Core.held, get?_core, hd, Option.map_some, Option.bind_some]
      exact congrArg (Option.map Prod.snd) (find?_of_mem (hwell hd).tags ha)
  · intro hl
    cases l with
    | operand t i =>
      obtain ⟨d, hd, ho⟩ := Option.bind_eq_some_iff.1 hl
      cases hc : d.content with
      | tuple ops =>
        rw [hc, Content.operands] at ho
        exact .operand hd hc (Option.join_eq_some_iff.1 ho)
      | _ => simp [hc, Content.operands] at ho
    | wrapper w =>
      rw [Core.held, get?_core] at hl
      obtain ⟨d', hd', hw⟩ := Option.bind_eq_some_iff.1 hl
      obtain ⟨d, hd, rfl⟩ := Option.map_eq_some_iff.1 hd'
      exact .wrapper hd (Value.bare_payload_metadata.1 (Value.wrapped?_eq_some.1 hw))
    | handle k => exact .handle (Option.join_eq_some_iff.1 hl)
    | attachment v tag =>
      rw [Core.held, get?_core] at hl
      obtain ⟨d', hd', ha⟩ := Option.bind_eq_some_iff.1 hl
      obtain ⟨d, hd, rfl⟩ := Option.map_eq_some_iff.1 hd'
      obtain ⟨a, hfind, rfl⟩ := Option.map_eq_some_iff.1 ha
      have htag : a.1 = tag := by simpa using List.find?_some hfind
      exact .attachment hd (htag ▸ List.mem_of_find?_eq_some hfind)

theorem Settled.trackingAgrees (h : s.Settled) : s.TrackingAgrees := by
  refine ⟨fun n => ?_, fun n => Tracker.nodup_tracked _ n, fun n hn l => ?_⟩
  · refine (h.consistent.replaceable n).trans (exists_congr fun d => and_congr_right fun _ => ?_)
    refine or_congr Iff.rfl ?_
    cases d.content <;> simp [Content.kind]
  · rw [holds_iff h, ← Tracker.mem_tracked h.recorded.follows hn]
    exact Iff.rfl

end Store

namespace Command

/-- Commands keep operand slots and use lists in agreement, whichever of them fail. -/
theorem usesAgree_afterAll (hash : String → UInt64) (config : Config) (cs : List Command) :
    (afterAll { hash, config } cs).UsesAgree :=
  (settled_afterAll hash config cs).usesAgree

/-- Commands keep the tracked locations exact, whichever of them fail. -/
theorem trackingAgrees_afterAll (hash : String → UInt64) (config : Config) (cs : List Command) :
    (afterAll { hash, config } cs).TrackingAgrees :=
  (settled_afterAll hash config cs).trackingAgrees

end Command

end ShaderIR
