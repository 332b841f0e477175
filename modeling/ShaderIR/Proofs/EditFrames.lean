import ShaderIR.Proofs.CommandCoherence
import ShaderIR.Proofs.KeptHashes
import ShaderIR.Proofs.ListPositions
import ShaderIR.Proofs.UseOrder

/-! The two halves of a store. Edits of references leave alone where values stand and what they are
called, and what they destroy has neither a place nor a name. Edits of places and names leave alone
what refers to what. -/

namespace ShaderIR

namespace Query

variable {s : Store} {v : ValueId}

theorem constantData_ok {k : Option ConstantData} : constantData v s = .ok k ↔
    ∃ d, s.values.get? v = some d ∧ d.constant?.map Prod.snd = k := by
  simp only [constantData, bind_ok, payload_ok, Value.constant?]
  constructor
  · rintro ⟨_, ⟨d, hd, rfl⟩, hk⟩
    exact ⟨d, hd, by cases hp : d.payload <;> simp_all⟩
  · rintro ⟨d, hd, rfl⟩
    exact ⟨_, ⟨d, hd, rfl⟩, by cases d.payload <;> simp⟩

end Query

namespace Store

variable {s s' s'' : Store}

/-- What edits of references leave alone: the lists of children, parents, names with their hashes
and symbol tables with their counters. Nothing is created, and only block addresses and wrappers
are destroyed. -/
structure KeepsHierarchy (s s' : Store) : Prop where
  children : ∀ p vs, Query.children p s' = .ok vs ↔ Query.children p s = .ok vs
  arguments : ∀ f vs, Query.functionArguments f s' = .ok vs ↔ Query.functionArguments f s = .ok vs
  parents : ∀ v o, s'.isLive v → (Query.place v s' = .ok o ↔ Query.place v s = .ok o)
  positions : ∀ v x, Query.argumentParent v s' = .ok x ↔ Query.argumentParent v s = .ok x
  names : ∀ v o, s'.isLive v → (Query.name v s' = .ok o ↔ Query.name v s = .ok o)
  hashes : ∀ v k, s'.isLive v → (Query.nameHash v s' = .ok k ↔ Query.nameHash v s = .ok k)
  symbols : ∀ sc t, Query.symbols sc s' = .ok t ↔ Query.symbols sc s = .ok t
  created : ∀ v, s'.isLive v → s.isLive v
  destroyed : ∀ v, s.isLive v → s'.isLive v ∨ s.isBlockAddress v ∨ Query.kind v s = .ok .metadata

/-- What edits of places and names leave alone: operands, uses, constants, all metadata with the
tracked locations, and attachments. Nothing is created or destroyed. -/
structure KeepsReferences (s s' : Store) : Prop where
  live : ∀ v, s'.isLive v = s.isLive v
  operands : ∀ v os, Query.operands v s' = .ok os ↔ Query.operands v s = .ok os
  uses : ∀ v us, Query.uses v s' = .ok us ↔ Query.uses v s = .ok us
  entered : s'.constants = s.constants
  constants : ∀ v k, Query.constantData v s' = .ok k ↔ Query.constantData v s = .ok k
  metadata : s'.metadata = s.metadata
  wrapped : ∀ v o, Query.wrappedNode v s' = .ok o ↔ Query.wrappedNode v s = .ok o
  attachments : ∀ v as, Query.attachments v s' = .ok as ↔ Query.attachments v s = .ok as

section Hierarchy

/-- Some values are gone that may be merged. What is left has its place and its label. -/
structure Sheds (s s' : Store) : Prop where
  layout : s'.layout = s.layout
  label : ∀ {v d'}, s'.values.get? v = some d' → ∃ d, s.values.get? v = some d ∧ d'.label = d.label
  stays : ∀ {v d}, s.values.get? v = some d → ¬ d.payload.IsMergeable →
    ∃ d', s'.values.get? v = some d' ∧ d'.payload = d.payload

theorem Sheds.refl (s : Store) : s.Sheds s := ⟨rfl, fun h => ⟨_, h, rfl⟩, fun h _ => ⟨_, h, rfl⟩⟩

theorem Sheds.trans (h : s.Sheds s') (h' : s'.Sheds s'') : s.Sheds s'' where
  layout := h'.layout.trans h.layout
  label hd'' := by
    obtain ⟨d', hd', hl'⟩ := h'.label hd''
    obtain ⟨d, hd, hl⟩ := h.label hd'
    exact ⟨d, hd, hl'.trans hl⟩
  stays hd hp := by
    obtain ⟨d', hd', heq⟩ := h.stays hd hp
    obtain ⟨d'', hd'', heq'⟩ := h'.stays hd' (heq ▸ hp)
    exact ⟨d'', hd'', heq'.trans heq⟩

theorem sheds_of_unattached (hl : s'.layout = s.layout)
    (hv : ∀ v, (s'.values.get? v).map Value.unattached = (s.values.get? v).map Value.unattached) :
    s.Sheds s' := by
  refine ⟨hl, fun {v d'} hd' => ?_, fun {v d} hd _ => ?_⟩
  · have hmap := hv v
    rw [hd', Option.map_some] at hmap
    obtain ⟨d, hd, heq⟩ := Option.map_eq_some_iff.1 hmap.symm
    have hlabel : d.unattached.label = d'.unattached.label := congrArg Value.label heq
    exact ⟨d, hd, hlabel.symm⟩
  · have hmap := hv v
    rw [hd, Option.map_some] at hmap
    obtain ⟨d', hd', heq⟩ := Option.map_eq_some_iff.1 hmap
    exact ⟨d', hd', payload_of_unattached heq⟩

theorem sheds_of_body (h : s'.body = s.body) : s.Sheds s' := by
  refine sheds_of_unattached ?_ fun v => ?_
  · rw [← s'.layout_body, h, s.layout_body]
  · rw [← get?_body, h, get?_body]

theorem sheds_of_unwired (h : s'.unwired = s.unwired) : s.Sheds s' := by
  have hvalues : s'.unwired.values = s.unwired.values := congrArg Store.values h
  refine sheds_of_unattached ?_ fun v => ?_
  · rw [show s'.layout = s'.unwired.layout from rfl, h]
    rfl
  · rw [show s'.values = s.values from hvalues]

theorem Sheds.offers (h : s.Sheds s') {p : Place} : s'.Offers p ↔ s.Offers p := by
  have htables (m : ModuleId) : (∃ dm, s'.modules.get? m = some dm) ↔
      ∃ dm, s.modules.get? m = some dm := by
    have hlive (s : Store) : (∃ dm, s.modules.get? m = some dm) ↔
        ∃ t, s.layout.tables (.module m) = some t :=
      ⟨fun hm => ⟨_, tables_module.2 ⟨hm, rfl⟩⟩, fun ⟨_, ht⟩ => (tables_module.1 ht).1⟩
    rw [hlive, hlive, h.layout]
  cases p with
  | functions m => exact htables m
  | globals m => exact htables m
  | blocks f => rw [Offers, Offers, h.layout]
  | instructions b => rw [Offers, Offers, h.layout]

theorem Sheds.keepsHierarchy (h : s.Sheds s') : s.KeepsHierarchy s' := by
  have hlive {v : ValueId} (hv : s'.isLive v) : ∃ d d', s.values.get? v = some d ∧
      s'.values.get? v = some d' ∧ d'.label = d.label := by
    obtain ⟨d', hd'⟩ := Option.isSome_iff_exists.1 hv
    obtain ⟨d, hd, hl⟩ := h.label hd'
    exact ⟨d, d', hd, hd', hl⟩
  refine ⟨fun p vs => ?_, fun f vs => ?_, fun v o hv => ?_, fun v x => ?_, fun v o hv => ?_,
    fun v k hv => ?_, fun sc t => ?_, fun v hv => ?_, fun v hv => ?_⟩
  · rw [children_ok, children_ok, h.offers, h.layout]
  · rw [Query.functionArguments_ok, Query.functionArguments_ok, h.layout]
  · obtain ⟨d, d', hd, hd', -⟩ := hlive hv
    rw [place_ok, place_ok, h.layout]
    exact and_congr_left' ⟨fun _ => ⟨d, hd⟩, fun _ => ⟨d', hd'⟩⟩
  · rw [argumentParent_ok, argumentParent_ok, h.layout]
  · obtain ⟨d, d', hd, hd', hl⟩ := hlive hv
    have hname : d'.name = d.name := congrArg Prod.fst hl
    simp only [Query.name_ok, hd, hd', Option.some.injEq, exists_eq_left', hname]
  · obtain ⟨d, d', hd, hd', hl⟩ := hlive hv
    have hhash : d'.nameHash = d.nameHash := congrArg Prod.snd hl
    simp only [Query.nameHash_ok, hd, hd', Option.some.injEq, exists_eq_left', hhash]
  · rw [Query.symbols_ok, Query.symbols_ok, h.layout]
  · obtain ⟨d, -, hd, -⟩ := hlive hv
    exact Option.isSome_iff_exists.2 ⟨d, hd⟩
  · obtain ⟨d, hd⟩ := Option.isSome_iff_exists.1 hv
    by_cases hm : d.payload.IsMergeable
    · refine .inr (hm.symm.imp (fun ha => Edit.isBlockAddress_iff.2 ⟨d, hd, ha⟩) fun hk => ?_)
      exact Query.kind_ok.2 ⟨d, hd, hk⟩
    · obtain ⟨d', hd', -⟩ := h.stays hd hm
      exact .inl (Option.isSome_iff_exists.2 ⟨d', hd'⟩)

end Hierarchy

section References

theorem exists_bare_iff (h : s'.core = s.core) {v : ValueId} {P : Value → Prop} :
    (∃ d, s'.values.get? v = some d ∧ P d.bare) ↔ ∃ d, s.values.get? v = some d ∧ P d.bare := by
  have hbare (s : Store) : (∃ d, s.values.get? v = some d ∧ P d.bare) ↔
      ∃ d, s.core.values.get? v = some d ∧ P d := by
    simp only [get?_core, Option.map_eq_some_iff]
    constructor
    · rintro ⟨d, hd, hp⟩
      exact ⟨d.bare, ⟨d, hd, rfl⟩, hp⟩
    · rintro ⟨_, ⟨d, hd, rfl⟩, hp⟩
      exact ⟨d, hd, hp⟩
  rw [hbare, hbare, h]

theorem keepsReferences_of_core (h : s'.core = s.core) : s.KeepsReferences s' := by
  have huses : s'.uses = s.uses := congrArg Core.uses h
  have hlive (v : ValueId) : (∃ d, s'.values.get? v = some d) ↔ ∃ d, s.values.get? v = some d := by
    simpa only [and_true] using exists_bare_iff h (v := v) (P := fun _ => True)
  refine ⟨fun v => ?_, fun v os => ?_, fun v us => ?_, congrArg Core.constants h, fun v k => ?_,
    congrArg Core.metadata h, fun v o => ?_, fun v as => ?_⟩
  · rw [Bool.eq_iff_iff, isLive, isLive, Option.isSome_iff_exists, Option.isSome_iff_exists, hlive]
  · rw [Query.operands_ok, Query.operands_ok, hlive, huses]
  · rw [Query.uses_ok, Query.uses_ok, hlive, huses]
  · rw [Query.constantData_ok, Query.constantData_ok]
    simpa only [Value.constant?_bare] using
      exists_bare_iff h (P := fun d => d.constant?.map Prod.snd = k)
  · rw [Query.wrappedNode_ok, Query.wrappedNode_ok]
    simpa only [Value.wrapped?_bare] using exists_bare_iff h (P := fun d => d.wrapped? = o)
  · rw [Query.attachments_ok, Query.attachments_ok]
    exact exists_bare_iff h (P := fun d => d.attachments = as)

end References

end Store

namespace Edit

open Store

variable {B : ValueId → Prop} {s s' : Store} {old new : ValueId} {n m : NodeId} {α : Type}
variable {e : Edit α}

def ShedsOnly (s : Store) (e : Edit α) : Prop :=
  Ends e s (fun _ s' => s.Sheds s') fun _ s' => s.Sheds s'

theorem Fixes.shedsOnly_of_body (h : Fixes Store.body e) : ShedsOnly s e :=
  (h.ends s).mono (fun _ _ hs => sheds_of_body hs) fun _ _ hs => sheds_of_body hs

theorem Fixes.shedsOnly_of_unwired (h : Fixes Store.unwired e) : ShedsOnly s e :=
  (h.ends s).mono (fun _ _ hs => sheds_of_unwired hs) fun _ _ hs => sheds_of_unwired hs

theorem ShedsOnly.bind {β : Type} {f : α → Edit β} (h : ShedsOnly s e)
    (hf : ∀ a s', ShedsOnly s' (f a)) : ShedsOnly s (e >>= f) :=
  Ends.bind h fun a s' hs' => (hf a s').mono (fun _ _ hs => hs'.trans hs) fun _ _ hs => hs'.trans hs

theorem ShedsOnly.map {β : Type} (h : ShedsOnly s e) (g : α → β) : ShedsOnly s (g <$> e) :=
  Ends.map h

def Traces (s : Store) (a : Arena .value Traits) : Prop :=
  ∀ v x, a.get? v = some x → s.traits.get? v = some x

theorem Traces.erase (a : Arena .value Traits) (v : ValueId) (h : Traces s a) :
    Traces s (a.erase v) := by
  intro w x hx
  rw [Arena.get?_erase] at hx
  split at hx
  · cases hx
  · exact h w x hx

theorem robust_traces (s : Store) :
    Robust Store.naming (fun _ _ => True) fun s' => Traces s s'.traits :=
  robust_naming (J := fun x => Traces s x.2) fun x => Traces.erase x.2

theorem Traces.label (h : Traces s s'.traits) {v : ValueId} {d' : Value}
    (hd' : s'.values.get? v = some d') : ∃ d, s.values.get? v = some d ∧ d'.label = d.label := by
  have htraits := h v d'.traits (by rw [get?_traits, hd', Option.map_some])
  rw [get?_traits] at htraits
  obtain ⟨d, hd, heq⟩ := Option.map_eq_some_iff.1 htraits
  exact ⟨d, hd, (congrArg Prod.fst heq).symm⟩

theorem Replaces.sheds (h : Replaces s.layout old new s s') (ht : Traces s s'.traits) :
    s.Sheds s' := by
  refine ⟨h.settled.2, ht.label, fun {v d} hd hp => ?_⟩
  -- First block addresses are folded, then wrappers are merged; each step spares the rest.
  obtain ⟨q, r', hq, hs', -⟩ := h.moved
  obtain ⟨p, hp', -, hspares, -⟩ := hq.moved
  obtain ⟨d₁, hd₁, heq₁⟩ := hspares.value (hp'.values ▸ hd) hp
  have hpayload₁ := payload_of_unattached heq₁
  obtain ⟨d₂, hd₂, heq₂⟩ := hs'.merged.spares.value hd₁ fun hk => hp (.inl (hpayload₁ ▸ hk))
  exact ⟨d₂, hd₂, (payload_of_unattached heq₂).trans hpayload₁⟩

theorem Moves.sheds {k : Nat} {es : List EdgeId} (h : Moves s.layout k old new es s s')
    (ht : Traces s s'.traits) : s.Sheds s' := by
  refine ⟨h.settled.layout, ht.label, fun {v d} hd hp => ?_⟩
  obtain ⟨p, hp', -, hspares, -⟩ := h.moved
  obtain ⟨d', hd', heq⟩ := hspares.value (hp'.values ▸ hd) hp
  exact ⟨d', hd', payload_of_unattached heq⟩

theorem sheds_of_settles {r r' : Location → Option NodeId} (h : s.Settles s' r r')
    (ht : Traces s s'.traits) : s.Sheds s' := by
  refine ⟨h.merged.layout, ht.label, fun {v d} hd hp => ?_⟩
  obtain ⟨d', hd', heq⟩ := h.merged.spares.value hd fun hk => hp (.inl hk)
  exact ⟨d', hd', payload_of_unattached heq⟩

theorem shedsOnly_replaceAllUses (hs : Coherent B s) : ShedsOnly s (replaceAllUses old new) := by
  by_cases hne : old = new
  · subst hne
    refine Ends.weaken (replaceAllUses_self s old) ?_
    rintro _ _ rfl
    exact .refl _
  · have htraces : Keeps (fun s' => Traces s s'.traits) (replaceAllUses old new) :=
      (robust_traces s).carries_replaceAllUses.keeps
    -- A replacement that stops has not begun, and one that answers has folded and merged.
    refine ((ends_replaceAllUses ⟨hs.settled, rfl⟩ hs.keyed hne).and
      (htraces s fun _ _ h => h)).mono (fun _ s' h => h.1.sheds h.2) ?_
    rintro _ _ ⟨⟨rfl, -⟩, -⟩
    exact .refl _

theorem shedsOnly_replaceUsesIf (hs : Coherent B s) {σ : Type} {ask : σ → Use → Bool × σ} {st : σ} :
    ShedsOnly s (replaceUsesIf old new ask st) := by
  by_cases hne : old = new
  · unfold replaceUsesIf
    rw [if_pos hne]
    exact .refl s
  · have htraces : Keeps (fun s' => Traces s s'.traits) (replaceUsesIf old new ask st) :=
      (robust_traces s).carries_replaceUsesIf.keeps
    refine ((ends_replaceUsesIf ⟨hs.settled, rfl⟩ hs.keyed hne).and
      (htraces s fun _ _ h => h)).mono ?_ ?_
    · rintro _ s' ⟨⟨es, h⟩, ht⟩
      exact h.sheds ht
    · rintro _ _ ⟨rfl, -⟩
      exact .refl _

theorem shedsOnly_replaceNode (hs : s.Settled) : ShedsOnly s (replaceNode n m) := by
  have htraces : Keeps (fun s' => Traces s s'.traits) (replaceNode n m) :=
    (robust_traces s).carries_replaceNode.keeps
  have hsettles : Ends (replaceNode n m) s (fun _ s' => ∃ r', s.Settles s' s.core.held r')
      fun _ s' => s' = s := by
    have hbounded : s.SettledIn s.layout s.values.size :=
      Store.SettledWith.bounded ⟨hs, rfl⟩ (Nat.le_refl _)
    unfold replaceNode
    rw [ends_bind, ends_get]
    exact (ends_replaceNodeStep (mergesWrappers_replaceWithin _) hs
      (Nat.le_trans hbounded.wrappers (Nat.le_add_right _ 2))).mono (fun _ _ h => h)
      fun _ _ h => h.2.1
  refine (hsettles.and (htraces s fun _ _ h => h)).mono ?_ ?_
  · rintro _ s' ⟨⟨r', h⟩, ht⟩
    exact sheds_of_settles h ht
  · rintro _ _ ⟨rfl, -⟩
    exact .refl _

theorem shedsOnly_replaceWithUniqued (hs : s.Settled) : ShedsOnly s (replaceWithUniqued n) := by
  refine ends_bind.2 (ends_lift.2 ⟨fun _ _ => ?_, fun _ _ => .refl s⟩)
  refine ends_bind.2 (ends_lift.2 ⟨fun d _ => ?_, fun _ _ => .refl s⟩)
  rw [ends_bind, ends_get]
  split
  · exact ShedsOnly.bind (shedsOnly_replaceNode hs) fun _ _ =>
      Fixes.shedsOnly_of_body (.bind fixes_eraseTemporary fun _ => .pure _)
  · exact Fixes.shedsOnly_of_body (.bind fixes_settle fun _ =>
      .bind fixes_modifyMetadata fun _ => .pure _)

end Edit

namespace Command

open Edit

/-- Edits of operands, initializers and attachments, and replacements. -/
def rewires : Command → Bool
  | .setOperand .. | .pushOperand .. | .dropAllReferences .. | .setInitializer ..
  | .replaceAllUses .. | .replaceUsesIf .. | .replaceNode .. | .replaceWithUniqued ..
  | .setMetadata .. => true
  | _ => false

/-- Edits of names, and whatever puts in a place, takes from it or moves what has been made. -/
def rearranges : Command → Bool
  | .setName .. | .takeName ..
  | .appendFunction .. | .removeFunction .. | .moveFunctionTo ..
  | .appendGlobal .. | .removeGlobal .. | .moveGlobalTo ..
  | .appendBlock .. | .insertBlockBefore .. | .removeBlock .. | .moveBlockBefore ..
  | .moveBlockTo ..
  | .appendInstruction .. | .insertInstructionBefore .. | .removeInstruction ..
  | .moveInstructionBefore .. | .moveInstructionToEnd .. => true
  | _ => false

variable {B : ValueId → Prop} {s : Store} {c : Command}

theorem shedsOnly_quiet {e : Edit Unit} (h : ShedsOnly s e) : ShedsOnly s (quiet e) :=
  ends_quiet h

theorem shedsOnly_run (hs : Coherent B s) (h : c.rewires = true) : ShedsOnly s c.run := by
  cases c with
  | setOperand => exact shedsOnly_quiet fixes_setOperand.shedsOnly_of_unwired
  | pushOperand => exact ShedsOnly.map fixes_pushOperand.shedsOnly_of_unwired _
  | dropAllReferences => exact shedsOnly_quiet fixes_dropAllReferences.shedsOnly_of_unwired
  | setInitializer => exact shedsOnly_quiet fixes_setInitializer.shedsOnly_of_unwired
  | replaceAllUses => exact shedsOnly_quiet (shedsOnly_replaceAllUses hs)
  | replaceUsesIf => exact ShedsOnly.map (shedsOnly_replaceUsesIf hs) _
  | replaceNode => exact shedsOnly_quiet (shedsOnly_replaceNode hs.settled)
  | replaceWithUniqued => exact ShedsOnly.map (shedsOnly_replaceWithUniqued hs.settled) _
  | setMetadata => exact shedsOnly_quiet (Fixes.shedsOnly_of_body fixes_setMetadata)
  | _ => exact absurd h nofun

theorem fixes_quiet {γ : Type} {view : Store → γ} {e : Edit Unit} (h : Fixes view e) :
    Fixes view (quiet e) := .bind h fun _ => .pure _

theorem fixes_run_core (h : c.rearranges = true) : Fixes Store.core c.run := by
  cases c with
  | setName => exact fixes_quiet fixes_setName
  | takeName => exact fixes_takeName.map _
  | appendFunction => exact fixes_quiet fixes_appendFunction
  | removeFunction => exact fixes_quiet fixes_removeFunction
  | moveFunctionTo => exact fixes_quiet fixes_moveFunctionTo
  | appendGlobal => exact fixes_quiet fixes_appendGlobal
  | removeGlobal => exact fixes_quiet fixes_removeGlobal
  | moveGlobalTo => exact fixes_quiet fixes_moveGlobalTo
  | appendBlock => exact fixes_quiet fixes_insertBlock
  | insertBlockBefore =>
    exact fixes_quiet (.bind (.lift _) fun _ => .bind (.lift _) fun _ => fixes_insertBlock)
  | removeBlock => exact fixes_quiet fixes_removeBlock
  | moveBlockBefore =>
    exact fixes_quiet (.bind (.lift _) fun _ => .bind (.lift _) fun _ => fixes_relocateBlock)
  | moveBlockTo => exact fixes_quiet fixes_relocateBlock
  | appendInstruction => exact fixes_quiet fixes_insertInstruction
  | insertInstructionBefore => exact fixes_quiet fixes_insertInstructionBefore
  | removeInstruction => exact fixes_quiet fixes_removeInstruction
  | moveInstructionBefore =>
    exact fixes_quiet (.bind (.lift _) fun _ => .bind (.lift _) fun _ => fixes_relocateInstruction)
  | moveInstructionToEnd =>
    exact fixes_quiet (.bind (.lift _) fun _ => fixes_relocateInstruction)
  | _ => exact absurd h nofun

/-- In any store that commands leave, one that edits references keeps the hierarchy and the names,
and one that edits those keeps the references, whether it stops or not. -/
theorem frames_afterAll (hash : String → UInt64) (config : Config) (cs : List Command)
    (c : Command) :
    let s := afterAll { hash, config } cs
    (c.rewires = true → s.KeepsHierarchy (after s c)) ∧
      (c.rearranges = true → s.KeepsReferences (after s c)) := by
  intro s
  have hs : Coherent (fun _ => False) s := coherent_afterAll hash config cs
  refine ⟨fun hc => ?_, fun hc => ?_⟩
  · have hsheds : s.Sheds (after s c) := of_ends_run (shedsOnly_run hs hc)
    exact hsheds.keepsHierarchy
  · have hcore : (after s c).core = s.core := of_ends_run ((fixes_run_core hc).ends s)
    exact Store.keepsReferences_of_core hcore

/-- Two blocks of a function have addresses, wrapped in nodes that are wrapped in values again. -/
def wrappedAddresses : List Command :=
  [.internType (.int 32), .internType (.function ⟨0⟩ []), .createModule "m",
    .createFunction ⟨0⟩ "f" ⟨1⟩, .createBlock ⟨0⟩ "a", .createBlock ⟨0⟩ "b", .blockAddress ⟨0⟩ ⟨1⟩,
    .blockAddress ⟨0⟩ ⟨2⟩, .valueNode ⟨3⟩, .valueNode ⟨4⟩, .wrapperValue ⟨0⟩, .wrapperValue ⟨1⟩,
    .buildInstruction "use" ⟨0⟩ [some ⟨3⟩, some ⟨5⟩] (some "x") (.append ⟨1⟩)]

theorem frames_wrappedAddresses :
    (rewires (.replaceAllUses ⟨1⟩ ⟨2⟩) = true ∧
        (afterAll { config := {} } wrappedAddresses).KeepsHierarchy
          (after (afterAll { config := {} } wrappedAddresses) (.replaceAllUses ⟨1⟩ ⟨2⟩))) ∧
      rearranges (.moveBlockBefore ⟨2⟩ ⟨1⟩) = true ∧
        (afterAll { config := {} } wrappedAddresses).KeepsReferences
          (after (afterAll { config := {} } wrappedAddresses) (.moveBlockBefore ⟨2⟩ ⟨1⟩)) :=
  ⟨⟨rfl, (frames_afterAll nameHash {} wrappedAddresses (.replaceAllUses ⟨1⟩ ⟨2⟩)).1 rfl⟩, rfl,
    (frames_afterAll nameHash {} wrappedAddresses (.moveBlockBefore ⟨2⟩ ⟨1⟩)).2 rfl⟩

/-- With one block in the place of the other an address goes, and the wrapper of its node too. -/
example : (afterAll { config := {} }
      (wrappedAddresses ++ [.replaceAllUses ⟨1⟩ ⟨2⟩])).liveValues =
    [⟨0⟩, ⟨1⟩, ⟨2⟩, ⟨4⟩, ⟨6⟩, ⟨7⟩] := by
  decide +kernel

end Command

end ShaderIR
